import EcatMaster.Soem.SdoServer
import EcatMaster.Utils.Codec

/-! # SDO transfers

An object that the master writes to a slave is the one it reads back, for any size and any mailboxes on
both sides: expedited, in one telegram, or in segments (`sdo_round_trip`). The loops on both sides keep
in step: what the slave has received and what the master has left are the object, and the two agree on
the toggle bit (`downloadSegments_stores`, `uploadSegments_reads`).
-/

namespace EcatMaster.Soem
set_option autoImplicit false
open ByteBuf SdoServer

/-! ## Telegrams -/

section Telegram
variable {body tail : List UInt8} {i : UInt16} {j : UInt8}

theorem bytesAt_self (l : List UInt8) : BytesAt l 0 l := fun k _ => by rw [Nat.zero_add]

theorem window_of_bytesAt {buf bytes : List UInt8} {off : ℕ} (h : BytesAt buf off bytes)
    (hlen : off + bytes.length ≤ buf.length) : window buf off bytes.length = bytes := by
  apply List.ext_getElem?
  intro k
  rw [window_getElem?]
  split
  · next hk =>
    have hbyte := h k hk
    unfold byteAt at hbyte
    rw [List.getD_eq_getElem?_getD, List.getD_eq_getElem?_getD, List.getElem?_eq_getElem (by omega),
      List.getElem?_eq_getElem hk] at hbyte
    rw [List.getElem?_eq_getElem (by omega), List.getElem?_eq_getElem hk]
    exact congrArg some hbyte
  · next hk => rw [List.getElem?_eq_none (by omega)]

theorem telegram_fields (h : BytesAt body 0 (le16 i ++ [j] ++ tail)) :
    (readUint16 body 0).1 = i ∧ byteAt body 2 = j ∧ BytesAt body 3 tail := by
  obtain ⟨hhead, htail⟩ := bytesAt_append h
  obtain ⟨hi, hj⟩ := bytesAt_append hhead
  refine ⟨readUint16_of_bytesAt hi, hj 0 Nat.one_pos, ?_⟩
  simpa using htail

theorem telegram_size {v : UInt32} (h : BytesAt body 3 (le32 v ++ tail)) :
    (readUint32 body 3).1 = v ∧ BytesAt body 7 tail := by
  obtain ⟨hv, htail⟩ := bytesAt_append h
  exact ⟨readUint32_of_bytesAt hv, by simpa using htail⟩

theorem clear_length : Sdo.clear.body.length = 1477 := by
  rw [Sdo.clear, List.length_replicate]
  rfl

end Telegram

section Master
variable (timeout : ℕ) (st : Coe SdoServer)

theorem mbxtype_coe : st.mbxtype &&& 0x0f = ECT_MBXT_COE := by
  have hcnt : nextmbxcnt st.mbx_cnt ≤ 7 := by
    unfold nextmbxcnt
    split <;> omega
  have hand : st.mbxtype &&& 0x0f = st.mbxtype % 16 := Nat.and_two_pow_sub_one_eq_mod st.mbxtype 4
  rw [hand]
  unfold Coe.mbxtype ECT_MBXT_COE
  rw [Nat.shiftLeft_eq]
  omega

theorem transfer_serve {req : Sdo} {s : SdoServer} {length Command : ℕ} {body : List UInt8}
    (h : st.peer.serve req = s.respond length Command body) :
    transfer mailboxOf timeout req st =
      ((1, some ⟨length, ECT_MBXT_COE, ECT_COES_SDORES <<< 12, Command, body⟩),
        { st with peer := { s with mailbox := none } }) := by
  unfold transfer mailboxOf
  simp only [h]
  rfl

theorem isResponse (length Command : ℕ) (body : List UInt8) :
    Sdo.IsResponse ⟨length, ECT_MBXT_COE, ECT_COES_SDORES <<< 12, Command, body⟩ :=
  ⟨show ECT_MBXT_COE &&& 0x0f = ECT_MBXT_COE by decide,
    show (ECT_COES_SDORES <<< 12) >>> 12 = ECT_COES_SDORES by decide⟩

theorem serve_eq {s : SdoServer} {req : Sdo} (hmbx : req.mbxtype &&& 0x0f = ECT_MBXT_COE)
    (hcoe : req.CANOpen = ECT_COES_SDOREQ <<< 12) : s.serve req =
      match req.Command >>> 5 with
      | 0 => s.downloadSegment req
      | 1 => s.downloadInit req
      | 2 => s.uploadInit req
      | 3 => s.uploadSegment req
      | _ => { s with transfer := .idle } :=
  if_pos ⟨hmbx, by rw [hcoe]; decide⟩

end Master

/-! ## Downloads -/

/-- The state when a transfer is under way and the response to the last request has been read. -/
def Coe.underway (st : Coe SdoServer) (transfer : Transfer) : Coe SdoServer :=
  { st.count with peer := { st.peer with transfer := transfer, mailbox := none } }

/-- The state after an object has been stored and the response has been read. -/
def Coe.stored (st : Coe SdoServer) (cnt : ℕ) (I : UInt16) (J : UInt8) (CA : Bool) (data : List UInt8) :
    Coe SdoServer :=
  ⟨cnt, st.errors, { st.peer.store I J CA data with mailbox := none }⟩

def IsToggle (toggle : ℕ) : Prop := toggle = 0x00 ∨ toggle = 0x10

theorem IsToggle.next {toggle : ℕ} (h : IsToggle toggle) : IsToggle (toggle ^^^ 0x10) := by
  rcases h with rfl | rfl
  · exact Or.inr rfl
  · exact Or.inl rfl

section Segment
variable {s : SdoServer} {I : UInt16} {J : UInt8} {CA : Bool} {size toggle : ℕ} {received data : List UInt8}
  {req : Sdo}

/-- What the last segment's command says of its `r` bytes. -/
theorem lastCommand_bits {r : ℕ} (htoggle : IsToggle toggle) (hr : r < 7) (hpos : 0 < r) :
    (0x01 + ((7 - r) <<< 1) + toggle) >>> 5 = 0 ∧ (0x01 + ((7 - r) <<< 1) + toggle) &&& 0x10 = toggle ∧
      7 - (((0x01 + ((7 - r) <<< 1) + toggle) >>> 1) &&& 0x07) = r ∧
      (0x01 + ((7 - r) <<< 1) + toggle) &&& 0x01 = 1 := by
  rcases htoggle with rfl | rfl
  · revert r
    decide
  · revert r
    decide

theorem downloadSegment_more (hs : s.transfer = .download I J CA size received toggle)
    (htoggle : IsToggle toggle) (hcommand : req.Command = 0x00 + toggle)
    (hlength : req.length = data.length + 3) (hmin : 7 ≤ data.length)
    (hdata : window req.body 0 data.length = data) : s.downloadSegment req =
      { s with transfer := .download I J CA size (received ++ data) (toggle ^^^ 0x10) }.respond 0x0a
        (0x20 + toggle) [] := by
  have hbits : req.Command &&& 0x10 = toggle ∧ req.Command &&& 0x01 = 0 ∧
      7 - ((req.Command >>> 1) &&& 0x07) = 7 := by
    rw [hcommand]
    rcases htoggle with rfl | rfl <;> decide
  have hcount : (if req.length = 10 then 7 - ((req.Command >>> 1) &&& 0x07) else req.length - 3) =
      data.length := by
    rw [hbits.2.2]
    split <;> omega
  unfold SdoServer.downloadSegment
  simp only [hs]
  rw [if_pos hbits.1, hcount, hdata, hbits.2.1, if_neg (by omega)]

theorem downloadSegment_last (hs : s.transfer = .download I J CA size received toggle)
    (htoggle : IsToggle toggle) (hpos : 0 < data.length)
    (hcommand : req.Command = (if data.length < 7 then 0x01 + ((7 - data.length) <<< 1) else 0x01) + toggle)
    (hlength : req.length = if data.length < 7 then 0x0a else data.length + 3)
    (hdata : window req.body 0 data.length = data) (hsize : (received ++ data).length = size) :
    s.downloadSegment req = (s.store I J CA (received ++ data)).respond 0x0a (0x20 + toggle) [] := by
  have hbits : req.Command &&& 0x10 = toggle ∧ req.Command &&& 0x01 = 1 ∧
      (if req.length = 10 then 7 - ((req.Command >>> 1) &&& 0x07) else req.length - 3) = data.length := by
    rw [hcommand, hlength]
    split
    · next hlt =>
      obtain ⟨-, htog, hcount, hlast⟩ := lastCommand_bits htoggle hlt hpos
      exact ⟨htog, hlast, by rw [if_pos rfl, hcount]⟩
    · next hge =>
      have hseven : 7 - (((0x01 + toggle) >>> 1) &&& 0x07) = 7 := by
        rcases htoggle with rfl | rfl <;> decide
      refine ⟨?_, ?_, ?_⟩
      · rcases htoggle with rfl | rfl <;> decide
      · rcases htoggle with rfl | rfl <;> decide
      · rw [hseven]
        split <;> omega
  unfold SdoServer.downloadSegment
  simp only [hs]
  rw [if_pos hbits.1, hbits.2.2, hdata, hbits.2.1, if_pos Nat.one_pos, if_pos hsize]

end Segment

section Download
variable {timeout md size : ℕ} {I index : UInt16} {J subindex : UInt8} {CA : Bool} {SDOp : Sdo}
  {rest received : List UInt8} {toggle : ℕ} {st : Coe SdoServer}

theorem segmentRequest_body (hmax : md ≤ 1477) (hbody : SDOp.body.length = 1477) :
    (st.segmentRequest md SDOp rest toggle).body.length = 1477 ∧
      window (st.segmentRequest md SDOp rest toggle).body 0 (rest.take md).length = rest.take md := by
  have hframe : rest.take (if md < rest.length then md else rest.length) = rest.take md := by
    split
    · rfl
    · next h => rw [List.take_of_length_le (Nat.not_lt.mp h), List.take_length]
  have hle : (rest.take md).length ≤ md := List.length_take_le md rest
  unfold Coe.segmentRequest
  simp only [hframe]
  exact ⟨by rw [put_length, hbody], window_put_self _ _ _ (by omega)⟩

theorem serve_segment (hcommand : (st.segmentRequest md SDOp rest toggle).Command >>> 5 = 0) :
    st.peer.serve (st.segmentRequest md SDOp rest toggle) =
      st.peer.downloadSegment (st.segmentRequest md SDOp rest toggle) := by
  rw [serve_eq (mbxtype_coe st) rfl, hcommand]
  rfl

/-- A segment with more to follow moves its bytes from one side to the other. -/
theorem serve_segment_more (hmin : 7 ≤ md) (hmax : md ≤ 1477) (hbody : SDOp.body.length = 1477)
    (hpeer : st.peer.transfer = .download I J CA size received toggle) (htoggle : IsToggle toggle)
    (hmore : md < rest.length) : st.peer.serve (st.segmentRequest md SDOp rest toggle) =
      { st.peer with
        transfer := .download I J CA size (received ++ rest.take md) (toggle ^^^ 0x10) }.respond 0x0a
          (0x20 + toggle) [] := by
  have hlen : (rest.take md).length = md := List.length_take_of_le (Nat.le_of_lt hmore)
  have hcommand : (st.segmentRequest md SDOp rest toggle).Command = 0x00 + toggle := by
    unfold Coe.segmentRequest
    simp only [if_pos hmore]
  have hlength : (st.segmentRequest md SDOp rest toggle).length = md + 3 := by
    unfold Coe.segmentRequest
    simp only [hmore, not_true_eq_false, false_and, if_true, if_false]
    omega
  rw [serve_segment (by rw [hcommand]; rcases htoggle with rfl | rfl <;> decide)]
  exact downloadSegment_more hpeer htoggle hcommand (by rw [hlength, hlen]) (by omega)
    (segmentRequest_body hmax hbody).2

/-- The last segment makes the object complete. -/
theorem serve_segment_last (hmax : md ≤ 1477) (hbody : SDOp.body.length = 1477)
    (hpeer : st.peer.transfer = .download I J CA size received toggle) (htoggle : IsToggle toggle)
    (hlast : rest.length ≤ md) (hpos : 0 < rest.length) (hsize : (received ++ rest).length = size) :
    st.peer.serve (st.segmentRequest md SDOp rest toggle) =
      (st.peer.store I J CA (received ++ rest)).respond 0x0a (0x20 + toggle) [] := by
  have htake : rest.take md = rest := List.take_of_length_le hlast
  have hnot : ¬ md < rest.length := by omega
  have hcommand : (st.segmentRequest md SDOp rest toggle).Command =
      (if rest.length < 7 then 0x01 + ((7 - rest.length) <<< 1) else 0x01) + toggle := by
    unfold Coe.segmentRequest
    simp only [if_neg hnot]
  have hlength : (st.segmentRequest md SDOp rest toggle).length =
      if rest.length < 7 then 0x0a else rest.length + 3 := by
    unfold Coe.segmentRequest
    simp only [hnot, not_false_eq_true, true_and, if_false]
    split <;> omega
  have hdata : window (st.segmentRequest md SDOp rest toggle).body 0 (rest.take md).length = rest.take md :=
    (segmentRequest_body hmax hbody).2
  rw [htake] at hdata
  have hcode : (st.segmentRequest md SDOp rest toggle).Command >>> 5 = 0 := by
    rw [hcommand]
    split
    · next hlt => exact (lastCommand_bits htoggle hlt hpos).1
    · rcases htoggle with rfl | rfl <;> decide
  rw [serve_segment hcode]
  exact downloadSegment_last hpeer htoggle hpos hcommand hlength hdata hsize

variable (timeout md index subindex) in
/-- The segments of a download, from the place where the two sides are. -/
theorem downloadSegments_stores (hmin : 7 ≤ md) (hmax : md ≤ 1477) (fuel : ℕ)
    (hpeer : st.peer.transfer = .download I J CA size received toggle) (htoggle : IsToggle toggle)
    (hbody : SDOp.body.length = 1477) (hpos : 0 < rest.length) (hfuel : rest.length ≤ fuel)
    (hsize : (received ++ rest).length = size) :
    ∃ cnt, downloadSegments mailboxOf timeout md index subindex fuel SDOp rest toggle st =
      (1, st.stored cnt I J CA (received ++ rest)) := by
  induction fuel generalizing SDOp rest received toggle st with
  | zero => omega
  | succ fuel ih =>
    have hok : (0x20 + toggle) &&& 0xe0 = 0x20 := by
      rcases htoggle with rfl | rfl <;> decide
    rw [downloadSegments]
    by_cases hmore : md < rest.length
    · have hserve := serve_segment_more hmin hmax hbody hpeer htoggle hmore
      simp only [transfer_serve timeout st.count hserve]
      rw [if_pos ⟨isResponse _ _ _, hok⟩, if_pos hmore]
      have hdrop : received ++ rest.take md ++ rest.drop md = received ++ rest := by
        rw [List.append_assoc, List.take_append_drop]
      have hrest : (rest.drop md).length = rest.length - md := List.length_drop
      have hnext :
          (st.underway (.download I J CA size (received ++ rest.take md) (toggle ^^^ 0x10))).peer.transfer =
            .download I J CA size (received ++ rest.take md) (toggle ^^^ 0x10) := rfl
      have hbody' : (st.segmentRequest md SDOp rest toggle).body.length = 1477 :=
        (segmentRequest_body hmax hbody).1
      have hpos' : 0 < (rest.drop md).length := by omega
      obtain ⟨cnt, hcnt⟩ := ih hnext htoggle.next hbody' hpos' (by omega) (by rw [hdrop, hsize])
      refine ⟨cnt, hcnt.trans ?_⟩
      rw [hdrop]
      rfl
    · have hserve := serve_segment_last hmax hbody hpeer htoggle (Nat.not_lt.mp hmore) hpos hsize
      simp only [transfer_serve timeout st.count hserve]
      rw [if_pos ⟨isResponse _ _ _, hok⟩, if_neg hmore]
      exact ⟨_, rfl⟩

end Download

section Write
variable {timeout mbx_l : ℕ} {Index : UInt16} {SubIndex : UInt8} {CA : Bool} {p : List UInt8}
  {st : Coe SdoServer}

/-- A mailbox with room for the headers, and not more than the buffers of the master. -/
def MbxSize (n : ℕ) : Prop := 0x10 ≤ n ∧ n ≤ EC_MAXMBX

/-- The subindex of a complete access is 0 or 1. -/
def accessSubindex (CA : Bool) (SubIndex : UInt8) : UInt8 := if CA ∧ 1 < SubIndex then 1 else SubIndex

theorem empty_server (st : Coe SdoServer) :
    st.empty mailboxOf = { st with peer := { st.peer with mailbox := none } } := by
  obtain ⟨cnt, errors, ⟨objects, transfer, mailbox, mbx_rl⟩⟩ := st
  cases mailbox with
  | none => rfl
  | some a => rfl

theorem response_matches (length Command : ℕ) (tail : List UInt8) {i : UInt16} {j : UInt8} {req : Sdo}
    (hi : req.Index = i) (hj : req.SubIndex = j) :
    let a : Sdo := ⟨length, ECT_MBXT_COE, ECT_COES_SDORES <<< 12, Command, le16 i ++ [j] ++ tail⟩
    a.IsResponse ∧ a.Index = req.Index ∧ a.SubIndex = req.SubIndex := by
  obtain ⟨hindex, hsub, -⟩ := telegram_fields (bytesAt_self (le16 i ++ [j] ++ tail))
  exact ⟨isResponse _ _ _, hindex.trans hi.symm, hsub.trans hj.symm⟩

theorem expCommand_bits {n : ℕ} (hpos : 0 < n) (hle : n ≤ 4) :
    (ECT_SDO_DOWN_EXP ||| (((4 - n) <<< 2) &&& 0x0c)) >>> 5 = 1 ∧
      (ECT_SDO_DOWN_EXP ||| (((4 - n) <<< 2) &&& 0x0c)) &&& 0x10 = 0 ∧
      0 < (ECT_SDO_DOWN_EXP ||| (((4 - n) <<< 2) &&& 0x0c)) &&& 0x02 ∧
      4 - (((ECT_SDO_DOWN_EXP ||| (((4 - n) <<< 2) &&& 0x0c)) >>> 2) &&& 0x03) = n := by
  have hcases : n = 1 ∨ n = 2 ∨ n = 3 ∨ n = 4 := by omega
  rcases hcases with rfl | rfl | rfl | rfl
  all_goals decide

section Requests
variable (st) (Index) (SubIndex) (CA) (p)

theorem expeditedRequest_fields (hle : p.length ≤ 4) :
    (st.expeditedRequest Index SubIndex p).Index = Index ∧
      (st.expeditedRequest Index SubIndex p).SubIndex = SubIndex ∧
      window (st.expeditedRequest Index SubIndex p).body 3 p.length = p := by
  have hbytes : BytesAt (st.expeditedRequest Index SubIndex p).body 0 (le16 Index ++ [SubIndex] ++ p) :=
    bytesAt_put (by rw [clear_length]; simp; omega)
  obtain ⟨hindex, hsub, hp⟩ := telegram_fields hbytes
  refine ⟨hindex, hsub, window_of_bytesAt hp ?_⟩
  unfold Coe.expeditedRequest
  rw [put_length, clear_length]
  omega

theorem serve_expedited (hpos : 0 < p.length) (hle : p.length ≤ 4) :
    st.peer.serve (st.expeditedRequest Index SubIndex p) =
      (st.peer.store Index SubIndex false p).respond 0x0a 0x60 (le16 Index ++ [SubIndex] ++ le32 0) := by
  obtain ⟨hcode, hca, hexp, hsize⟩ := expCommand_bits hpos hle
  obtain ⟨hindex, hsub, hdata⟩ := expeditedRequest_fields Index SubIndex p st hle
  generalize hreq : st.expeditedRequest Index SubIndex p = req at *
  have hcommand : req.Command = ECT_SDO_DOWN_EXP ||| (((4 - p.length) <<< 2) &&& 0x0c) := by
    rw [← hreq]
    rfl
  rw [serve_eq (by rw [← hreq]; exact mbxtype_coe _) (by rw [← hreq]; rfl), hcommand, hcode]
  unfold downloadInit
  simp only [hindex, hsub, hcommand, hca, hexp, hsize, hdata, if_true, Nat.lt_irrefl, decide_false]

theorem downloadRequest_fields {md : ℕ} (hmax : md ≤ 1470) :
    (st.downloadRequest md Index SubIndex CA p).Index = Index ∧
      (st.downloadRequest md Index SubIndex CA p).SubIndex = accessSubindex CA SubIndex ∧
      (st.downloadRequest md Index SubIndex CA p).ldata0 = UInt32.ofNat p.length ∧
      window (st.downloadRequest md Index SubIndex CA p).body 7 (p.take md).length = p.take md ∧
      (st.downloadRequest md Index SubIndex CA p).body.length = 1477 ∧
      (st.downloadRequest md Index SubIndex CA p).length = 10 + (p.take md).length := by
  have hframe : (if md < p.length then md else p.length) = (p.take md).length := by
    rw [List.length_take]
    split <;> omega
  have htake : p.take (p.take md).length = p.take md := by
    rw [List.length_take]
    exact List.take_eq_take_min.symm
  have hle : (p.take md).length ≤ md := List.length_take_le md p
  have hbytes : BytesAt (st.downloadRequest md Index SubIndex CA p).body 0
      (le16 Index ++ [accessSubindex CA SubIndex] ++ (le32 (UInt32.ofNat p.length) ++ p.take md)) := by
    unfold Coe.downloadRequest
    simp only [hframe, htake]
    rw [List.append_assoc]
    exact bytesAt_put (by rw [clear_length]; simp; omega)
  have hbody : (st.downloadRequest md Index SubIndex CA p).body.length = 1477 := by
    unfold Coe.downloadRequest
    rw [put_length, clear_length]
  obtain ⟨hindex, hsub, hrest⟩ := telegram_fields hbytes
  obtain ⟨hsize, hp⟩ := telegram_size hrest
  refine ⟨hindex, hsub, hsize, window_of_bytesAt hp (by omega), hbody, ?_⟩
  unfold Coe.downloadRequest
  simp only [hframe]
  omega

/-- An initiated download: complete, or with the rest to follow in segments. -/
theorem serve_download {md : ℕ} (hmax : md ≤ 1470) (hlen : p.length < 2 ^ 32) :
    st.peer.serve (st.downloadRequest md Index SubIndex CA p) =
      (if md < p.length then
        { st.peer with
          transfer := .download Index (accessSubindex CA SubIndex) CA p.length (p.take md) 0x00 }
      else st.peer.store Index (accessSubindex CA SubIndex) CA p).respond 0x0a 0x60
        (le16 Index ++ [accessSubindex CA SubIndex] ++ le32 0) := by
  obtain ⟨hindex, hsub, hsize, hdata, -, hlength⟩ := downloadRequest_fields Index SubIndex CA p st
    hmax
  generalize hreq : st.downloadRequest md Index SubIndex CA p = req at *
  have hlength : req.length - 10 = (p.take md).length := by omega
  have hcommand : req.Command = if CA then ECT_SDO_DOWN_INIT_CA else ECT_SDO_DOWN_INIT := by
    rw [← hreq]
    rfl
  have hbits : req.Command >>> 5 = 1 ∧ decide (0 < req.Command &&& 0x10) = CA ∧
      ¬ 0 < req.Command &&& 0x02 := by
    rw [hcommand]
    cases CA <;> decide
  have hcount : (UInt32.ofNat p.length).toNat = p.length := UInt32.toNat_ofNat_of_lt' hlen
  rw [serve_eq (by rw [← hreq]; exact mbxtype_coe _) (by rw [← hreq]; rfl), hbits.1]
  unfold downloadInit
  simp only [hindex, hsub, hsize, hcount, hbits.2.1, if_neg hbits.2.2, hlength, hdata]
  by_cases hmore : md < p.length
  · have hshort : ¬ p.length ≤ (p.take md).length := by
      rw [List.length_take]
      omega
    rw [if_pos hmore, if_neg hshort]
  · have hall : p.take md = p := List.take_of_length_le (Nat.not_lt.mp hmore)
    rw [if_neg hmore, hall, if_pos (Nat.le_refl _), List.take_length]

end Requests

variable (timeout Index SubIndex st) in
theorem sdoWrite_stores (hsize : MbxSize mbx_l) (hlen : p.length < 2 ^ 32)
    (hp : 0 < p.length ∨ CA = true) : ∃ cnt, sdoWrite mailboxOf timeout mbx_l Index SubIndex CA p st =
      (1, st.stored cnt Index (accessSubindex CA SubIndex) CA p) := by
  have hmbx : mbx_l - 0x10 ≤ 1470 := Nat.sub_le_sub_right hsize.2 0x10
  have hstored : ∀ cnt, st.stored cnt Index (accessSubindex CA SubIndex) CA p =
      { st with peer := { st.peer with mailbox := none } }.stored cnt Index (accessSubindex CA SubIndex) CA p :=
    fun _ => rfl
  unfold sdoWrite
  rw [empty_server]
  simp only [hstored]
  generalize ({ st with peer := { st.peer with mailbox := none } } : Coe SdoServer) = st
  by_cases hexp : p.length ≤ 4 ∧ CA = false
  · obtain ⟨hle, rfl⟩ := hexp
    have hpos : 0 < p.length := hp.resolve_right Bool.false_ne_true
    obtain ⟨hindex, hsub, -⟩ := expeditedRequest_fields Index SubIndex p st hle
    have hserve := serve_expedited Index SubIndex p st hpos hle
    simp only [hle, true_and, if_true, transfer_serve timeout st.count hserve]
    rw [if_pos (response_matches _ _ _ hindex hsub)]
    exact ⟨_, rfl⟩
  · obtain ⟨hindex, hsub, -, -, hbody, -⟩ := downloadRequest_fields Index SubIndex CA p st hmbx
    have hserve := serve_download Index SubIndex CA p st hmbx hlen
    simp only [if_neg hexp, transfer_serve timeout st.count hserve]
    rw [if_pos (response_matches _ _ _ hindex hsub)]
    by_cases hmore : mbx_l - 0x10 < p.length
    · have hpos : 0 < (p.drop (mbx_l - 0x10)).length := by
        rw [List.length_drop]
        omega
      have hfuel : (p.drop (mbx_l - 0x10)).length ≤ p.length := by
        rw [List.length_drop]
        omega
      simp only [if_pos hmore]
      have hnext : (st.underway (.download Index (accessSubindex CA SubIndex) CA p.length
          (p.take (mbx_l - 0x10)) 0x00)).peer.transfer =
          .download Index (accessSubindex CA SubIndex) CA p.length (p.take (mbx_l - 0x10)) 0x00 := rfl
      obtain ⟨cnt, hcnt⟩ := downloadSegments_stores timeout (mbx_l - 0x10 + 7) Index SubIndex (by omega)
        (by omega) p.length hnext (Or.inl rfl) hbody hpos hfuel (by rw [List.take_append_drop])
      refine ⟨cnt, hcnt.trans ?_⟩
      rw [List.take_append_drop]
      rfl
    · simp only [if_neg hmore]
      exact ⟨_, rfl⟩

end Write

/-! ## Uploads -/

/-- The state after the last response of an upload has been read. -/
def Coe.finished (st : Coe SdoServer) (cnt : ℕ) : Coe SdoServer :=
  ⟨cnt, st.errors, { st.peer with transfer := .idle, mailbox := none }⟩

/-- The state after the size of an upload has turned out to be too large. -/
def Coe.refused (st : Coe SdoServer) (cnt : ℕ) (transfer : Transfer) (index : UInt16) (subindex : UInt8) :
    Coe SdoServer :=
  ⟨cnt, st.errors ++ [.packet index subindex 3], { st.peer with transfer := transfer, mailbox := none }⟩

section Upload
variable {timeout : ℕ} {index : UInt16} {subindex : UInt8} {CA : Bool} {toggle psize : ℕ}
  {rest p data : List UInt8} {st : Coe SdoServer}

theorem window_all (l : List UInt8) : window l 0 l.length = l := by
  rw [window, List.drop_zero, List.take_length]

variable (st index subindex) in
theorem uploadRequest_fields (Command : ℕ) :
    (st.uploadRequest Command index subindex).Index = index ∧
      (st.uploadRequest Command index subindex).SubIndex = subindex := by
  have hbytes : BytesAt (st.uploadRequest Command index subindex).body 0 (le16 index ++ [subindex] ++ le32 0) :=
    bytesAt_put (by rw [clear_length]; simp)
  obtain ⟨hindex, hsub, -⟩ := telegram_fields hbytes
  exact ⟨hindex, hsub⟩

variable (st index subindex) in
theorem serve_uploadSegment (htoggle : IsToggle toggle) :
    st.peer.serve (st.uploadRequest (ECT_SDO_SEG_UP_REQ + toggle) index subindex) =
      st.peer.uploadSegment (st.uploadRequest (ECT_SDO_SEG_UP_REQ + toggle) index subindex) := by
  have hcode : (ECT_SDO_SEG_UP_REQ + toggle) >>> 5 = 3 := by
    rcases htoggle with rfl | rfl <;> decide
  rw [serve_eq (mbxtype_coe st) rfl]
  change (match (ECT_SDO_SEG_UP_REQ + toggle) >>> 5 with
    | 0 => _ | 1 => _ | 2 => _ | 3 => _ | _ => _) = _
  rw [hcode]
  rfl

theorem lastUpload_bits {r : ℕ} (htoggle : IsToggle toggle) :
    (0x01 + ((7 - r) <<< 1) + toggle) &&& 0xe0 = 0 ∧ 0 < (0x01 + ((7 - r) <<< 1) + toggle) &&& 0x01 ∧
      ((0x01 + ((7 - r) <<< 1) + toggle) &&& 0x0e) >>> 1 = 7 - r := by
  have hle : 7 - r < 8 := by omega
  generalize 7 - r = k at hle
  rcases htoggle with rfl | rfl
  all_goals
    revert k
    decide

/-- The response with the next segment: all that is left, or what the mailbox holds. -/
theorem uploadSegment_eq (hpeer : st.peer.transfer = .upload rest toggle) (htoggle : IsToggle toggle) :
    st.peer.uploadSegment (st.uploadRequest (ECT_SDO_SEG_UP_REQ + toggle) index subindex) =
      if rest.length ≤ st.peer.mbx_rl - 9 then
        { st.peer with transfer := .idle }.respond (3 + max 7 rest.length)
          (0x01 + ((7 - rest.length) <<< 1) + toggle) rest
      else
        { st.peer with
          transfer := .upload (rest.drop (st.peer.mbx_rl - 9)) (toggle ^^^ 0x10) }.respond
          (3 + (st.peer.mbx_rl - 9)) toggle (rest.take (st.peer.mbx_rl - 9)) := by
  have hbit : (st.uploadRequest (ECT_SDO_SEG_UP_REQ + toggle) index subindex).Command &&& 0x10 = toggle := by
    change (ECT_SDO_SEG_UP_REQ + toggle) &&& 0x10 = toggle
    rcases htoggle with rfl | rfl <;> decide
  unfold SdoServer.uploadSegment
  simp only [hpeer]
  rw [if_pos hbit]

variable (timeout index subindex psize p) in
/-- The segments of an upload, from the place where the two sides are. -/
theorem uploadSegments_reads (fuel : ℕ) (hpeer : st.peer.transfer = .upload rest toggle)
    (hsize : MbxSize st.peer.mbx_rl) (htoggle : IsToggle toggle)
    (hpos : 0 < rest.length) (hfuel : rest.length ≤ fuel) :
    ∃ cnt, uploadSegments mailboxOf timeout index subindex fuel psize toggle p st =
      some (⟨1, psize + rest.length, put p psize rest⟩, st.finished cnt) := by
  induction fuel generalizing psize toggle rest p st with
  | zero => omega
  | succ fuel ih =>
    obtain ⟨hmin, hmax⟩ := hsize
    unfold EC_MAXMBX at hmax
    have hserve := (serve_uploadSegment index subindex st htoggle).trans (uploadSegment_eq hpeer htoggle)
    rw [uploadSegments]
    by_cases hlast : rest.length ≤ st.peer.mbx_rl - 9
    · rw [if_pos hlast] at hserve
      simp only [transfer_serve timeout st.count hserve]
      obtain ⟨hcode, hbit, hunused⟩ := lastUpload_bits (r := rest.length) htoggle
      rw [if_pos ⟨isResponse _ _ _, hcode⟩, if_pos hbit, hunused]
      have hframe : (3 + max 7 rest.length + (2 ^ 16 - 3)) % 2 ^ 16 = max 7 rest.length := by omega
      have hcount : (if max 7 rest.length = 7 then 7 - (7 - rest.length) else max 7 rest.length) =
          rest.length := by
        split <;> omega
      simp only [hframe, hcount, window_all]
      exact ⟨_, rfl⟩
    · rw [if_neg hlast] at hserve
      simp only [transfer_serve timeout st.count hserve]
      have hcode : toggle &&& 0xe0 = 0x00 ∧ ¬ 0 < toggle &&& 0x01 := by
        rcases htoggle with rfl | rfl <;> decide
      rw [if_pos ⟨isResponse _ _ _, hcode.1⟩, if_neg hcode.2]
      have hlen : (rest.take (st.peer.mbx_rl - 9)).length = st.peer.mbx_rl - 9 :=
        List.length_take_of_le (by omega)
      have hframe : (3 + (st.peer.mbx_rl - 9) + (2 ^ 16 - 3)) % 2 ^ 16 =
          (rest.take (st.peer.mbx_rl - 9)).length := by omega
      have hrest : (rest.drop (st.peer.mbx_rl - 9)).length = rest.length - (st.peer.mbx_rl - 9) :=
        List.length_drop
      rw [hframe, window_all]
      have hnext : (st.underway (.upload (rest.drop (st.peer.mbx_rl - 9)) (toggle ^^^ 0x10))).peer.transfer =
          .upload (rest.drop (st.peer.mbx_rl - 9)) (toggle ^^^ 0x10) := rfl
      obtain ⟨cnt, hcnt⟩ := ih (psize + (rest.take (st.peer.mbx_rl - 9)).length)
        (put p psize (rest.take (st.peer.mbx_rl - 9))) hnext ⟨hmin, hmax⟩ htoggle.next (by omega) (by omega)
      have hsum : psize + (rest.take (st.peer.mbx_rl - 9)).length +
          (rest.drop (st.peer.mbx_rl - 9)).length = psize + rest.length := by omega
      refine ⟨cnt, hcnt.trans ?_⟩
      rw [hsum, ← put_append, List.take_append_drop]
      rfl

theorem expUpload_bits {n : ℕ} (hpos : 0 < n) (hle : n ≤ 4) :
    0 < (0x43 ||| ((4 - n) <<< 2)) &&& 0x02 ∧ 4 - (((0x43 ||| ((4 - n) <<< 2)) >>> 2) &&& 0x03) = n := by
  have hcases : n = 1 ∨ n = 2 ∨ n = 3 ∨ n = 4 := by omega
  rcases hcases with rfl | rfl | rfl | rfl
  all_goals decide

/-- The response to an upload request: expedited, or the size and the first bytes. -/
theorem serve_upload (hdata : st.peer.objects index subindex CA = data) :
    st.peer.serve
        (st.uploadRequest (if CA then ECT_SDO_UP_REQ_CA else ECT_SDO_UP_REQ) index subindex) =
      if CA = false ∧ 0 < data.length ∧ data.length ≤ 4 then
        { st.peer with transfer := .idle }.respond 0x0a (0x43 ||| ((4 - data.length) <<< 2))
          (le16 index ++ [subindex] ++ data)
      else
        { st.peer with
          transfer := if (data.take (st.peer.mbx_rl - 0x10)).length < data.length then
            .upload (data.drop (data.take (st.peer.mbx_rl - 0x10)).length) 0x00 else .idle
          }.respond (10 + (data.take (st.peer.mbx_rl - 0x10)).length) (if CA then 0x51 else 0x41)
          (le16 index ++ [subindex] ++ le32 (UInt32.ofNat data.length) ++
            data.take (st.peer.mbx_rl - 0x10)) := by
  obtain ⟨hindex, hsub⟩ :=
    uploadRequest_fields index subindex st (if CA then ECT_SDO_UP_REQ_CA else ECT_SDO_UP_REQ)
  generalize hreq :
    st.uploadRequest (if CA then ECT_SDO_UP_REQ_CA else ECT_SDO_UP_REQ) index subindex = req at *
  have hcommand : req.Command = if CA then ECT_SDO_UP_REQ_CA else ECT_SDO_UP_REQ := by
    rw [← hreq]
    rfl
  have hbits : req.Command >>> 5 = 2 ∧ decide (0 < req.Command &&& 0x10) = CA := by
    rw [hcommand]
    cases CA <;> decide
  rw [serve_eq (by rw [← hreq]; exact mbxtype_coe _) (by rw [← hreq]; rfl), hbits.1]
  unfold uploadInit
  simp only [hindex, hsub, hbits.2, hdata]

variable (index subindex) in
theorem response_data (v : UInt32) (first : List UInt8) :
    (readUint32 (le16 index ++ [subindex] ++ le32 v ++ first) 3).1 = v ∧
      window (le16 index ++ [subindex] ++ le32 v ++ first) 7 first.length = first := by
  rw [List.append_assoc (le16 index ++ [subindex])]
  obtain ⟨hv, hfirst⟩ := telegram_size (telegram_fields (bytesAt_self _)).2.2
  exact ⟨hv, window_of_bytesAt hfirst (by simp; omega)⟩

theorem toInt_size (hlen : data.length < 2 ^ 31) :
    (UInt32.ofNat data.length).toInt32.toInt = data.length := Int32.toInt_ofNat_of_lt hlen

variable (timeout index subindex p) in
/-- The state after an upload has been initiated, with the rest to follow in segments. -/
theorem uploadSegments_rest {fuel : ℕ}
    (hpeer : st.peer.transfer = .upload (data.drop (st.peer.mbx_rl - 0x10)) 0x00)
    (hsize : MbxSize st.peer.mbx_rl)
    (hmore : (data.take (st.peer.mbx_rl - 0x10)).length < data.length) (hfuel : data.length ≤ fuel) :
    ∃ cnt, uploadSegments mailboxOf timeout index subindex fuel
        (data.take (st.peer.mbx_rl - 0x10)).length 0x00 (put p 0 (data.take (st.peer.mbx_rl - 0x10))) st =
      some (⟨1, data.length, put p 0 data⟩, st.finished cnt) := by
  have htake : (data.take (st.peer.mbx_rl - 0x10)).length = min (st.peer.mbx_rl - 0x10) data.length :=
    List.length_take
  have hrest : (data.drop (st.peer.mbx_rl - 0x10)).length = data.length - (st.peer.mbx_rl - 0x10) :=
    List.length_drop
  obtain ⟨cnt, hcnt⟩ := uploadSegments_reads timeout index subindex
    (data.take (st.peer.mbx_rl - 0x10)).length (put p 0 (data.take (st.peer.mbx_rl - 0x10))) fuel hpeer
    hsize (Or.inl rfl) (by omega) (by omega)
  have hput : put (put p 0 (data.take (st.peer.mbx_rl - 0x10)))
      (data.take (st.peer.mbx_rl - 0x10)).length (data.drop (st.peer.mbx_rl - 0x10)) = put p 0 data := by
    have happend := put_append p 0 (data.take (st.peer.mbx_rl - 0x10)) (data.drop (st.peer.mbx_rl - 0x10))
    rw [Nat.zero_add, List.take_append_drop] at happend
    exact happend.symm
  have hsum : (data.take (st.peer.mbx_rl - 0x10)).length + (data.drop (st.peer.mbx_rl - 0x10)).length =
      data.length := by omega
  rw [hput, hsum] at hcnt
  exact ⟨cnt, hcnt⟩

variable (timeout index subindex CA p st) in
/-- An object is read as it is stored, whatever its size, when the parameter buffer has room for it. -/
theorem sdoRead_returns (hsize : MbxSize st.peer.mbx_rl) {fuel : ℕ}
    (hdata : st.peer.objects index (accessSubindex CA subindex) CA = data) (hlen : data.length < 2 ^ 31)
    (hfuel : psize ≤ fuel) :
    ∃ cnt transfer, sdoRead mailboxOf timeout index subindex CA psize p fuel st =
      some (if data.length ≤ psize then (⟨1, data.length, put p 0 data⟩, st.finished cnt)
        else (⟨0, psize, p⟩, st.refused cnt transfer index (accessSubindex CA subindex))) := by
  have hfinished : ∀ cnt, st.finished cnt =
      { st with peer := { st.peer with mailbox := none } }.finished cnt := fun _ => rfl
  have hrefused : ∀ cnt transfer j, st.refused cnt transfer index j =
      { st with peer := { st.peer with mailbox := none } }.refused cnt transfer index j := fun _ _ _ => rfl
  have hsize : MbxSize { st with peer := { st.peer with mailbox := none } }.peer.mbx_rl := hsize
  have hdata : { st with peer := { st.peer with mailbox := none } }.peer.objects index
      (accessSubindex CA subindex) CA = data := hdata
  have hsub : (if CA = true ∧ 1 < subindex then 1 else subindex) = accessSubindex CA subindex := rfl
  unfold sdoRead
  rw [empty_server]
  simp only [hfinished, hrefused, hsub]
  generalize ({ st with peer := { st.peer with mailbox := none } } : Coe SdoServer) = st at *
  generalize accessSubindex CA subindex = subindex at *
  have hserve := serve_upload hdata
  obtain ⟨hindex, hj⟩ :=
    uploadRequest_fields index subindex st (if CA then ECT_SDO_UP_REQ_CA else ECT_SDO_UP_REQ)
  by_cases hexp : CA = false ∧ 0 < data.length ∧ data.length ≤ 4
  · rw [if_pos hexp] at hserve
    obtain ⟨-, hpos, hle⟩ := hexp
    obtain ⟨hbit, hcount⟩ := expUpload_bits hpos hle
    simp only [transfer_serve timeout st.count hserve]
    have hmatch := response_matches 0x0a (0x43 ||| ((4 - data.length) <<< 2)) data hindex hj
    have hwindow : window (le16 index ++ [subindex] ++ data) 3 data.length = data :=
      window_of_bytesAt (telegram_fields (bytesAt_self _)).2.2 (by simp; omega)
    rw [if_pos ⟨hmatch.1, hmatch.2.1⟩, if_pos hbit]
    simp only [hcount, hwindow]
    by_cases hfit : data.length ≤ psize
    · simp only [if_pos hfit]
      exact ⟨_, .idle, rfl⟩
    · simp only [if_neg hfit]
      exact ⟨_, _, rfl⟩
  · rw [if_neg hexp] at hserve
    simp only [transfer_serve timeout st.count hserve]
    have hbit : ¬ 0 < (if CA = true then 0x51 else 0x41) &&& 0x02 := by
      cases CA <;> decide
    have hmatch := response_matches (10 + (data.take (st.peer.mbx_rl - 0x10)).length)
      (if CA = true then 0x51 else 0x41)
      (le32 (UInt32.ofNat data.length) ++ data.take (st.peer.mbx_rl - 0x10)) hindex hj
    rw [← List.append_assoc] at hmatch
    rw [if_pos ⟨hmatch.1, hmatch.2.1⟩, if_neg hbit]
    obtain ⟨hldata, hwindow⟩ := response_data index subindex (UInt32.ofNat data.length)
      (data.take (st.peer.mbx_rl - 0x10))
    have hframe : (10 + (data.take (st.peer.mbx_rl - 0x10)).length + (2 ^ 16 - 10)) % 2 ^ 16 =
        (data.take (st.peer.mbx_rl - 0x10)).length := by
      have htake := List.length_take_le (st.peer.mbx_rl - 0x10) data
      have hmax : st.peer.mbx_rl ≤ 1486 := hsize.2
      omega
    simp only [Sdo.ldata0, hldata, toInt_size hlen, hframe, hwindow, Nat.cast_le, Nat.cast_lt]
    by_cases hfit : data.length ≤ psize
    · simp only [if_pos hfit]
      by_cases hmore : (data.take (st.peer.mbx_rl - 0x10)).length < data.length
      · have hdrop : data.drop (data.take (st.peer.mbx_rl - 0x10)).length =
            data.drop (st.peer.mbx_rl - 0x10) := by
          rw [List.length_take] at *
          rw [Nat.min_eq_left (by omega)]
        have hnext : (st.underway (.upload (data.drop (st.peer.mbx_rl - 0x10)) 0x00)).peer.transfer =
            .upload (data.drop (st.peer.mbx_rl - 0x10)) 0x00 := rfl
        obtain ⟨cnt, hcnt⟩ := uploadSegments_rest timeout index subindex p hnext hsize hmore
          (hfit.trans hfuel)
        simp only [if_pos hmore, hdrop]
        exact ⟨cnt, .idle, hcnt⟩
      · have hall : data.take (st.peer.mbx_rl - 0x10) = data :=
          List.take_of_length_le (by rw [List.length_take] at hmore; omega)
        rw [hall] at hmore hwindow
        simp only [hall, if_neg hmore, Int.toNat_natCast, hwindow]
        exact ⟨_, .idle, rfl⟩
    · simp only [if_neg hfit]
      exact ⟨_, _, rfl⟩

end Upload
end EcatMaster.Soem
