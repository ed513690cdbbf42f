import Mathlib.Data.List.Perm.Subperm
import EcatMaster.Properties.FrameFormat
import EcatMaster.Soem.SlaveState

/-! # The states that are read

Whatever is lost on the way and whatever the slaves do meanwhile, `ecx_readstate` records for every slave
a state in which a frame has found it, or none.
-/

namespace EcatMaster.Soem
set_option autoImplicit false
open ByteBuf

/-! ## Transfers -/

/-- What `ecx_setupnic` prepares and every transfer keeps. -/
structure Port.Ready (port : Port) : Prop where
  lastidx : port.lastidx < EC_MAXBUF
  txbuf : ∀ i, (port.txbuf i).length = EC_BUFSIZE
  etype : ∀ i, byteAt (port.txbuf i) 12 = 0x88 ∧ byteAt (port.txbuf i) 13 = 0xa4
  rxbuf : ∀ i, (port.rxbuf i).length = EC_BUFSIZE
  tempinbuf : port.tempinbuf.length = EC_BUFSIZE

section Transfers
variable {port : Port} {idx : ℕ}

variable (idx) in
theorem Port.Ready.setbufstat (h : port.Ready) (bufstat : BufState) : (port.setbufstat idx bufstat).Ready :=
  ⟨h.lastidx, h.txbuf, h.etype, h.rxbuf, h.tempinbuf⟩

theorem Port.Ready.getindex (h : port.Ready) :
    port.getindex.1 < EC_MAXBUF ∧ port.getindex.2.Ready := by
  have hlt : port.getindex.1 < EC_MAXBUF := RoundRobin.search_lt (RoundRobin.next_lt h.lastidx)
  exact ⟨hlt, hlt, h.txbuf, h.etype, h.rxbuf, h.tempinbuf⟩

theorem Port.Ready.store (h : port.Ready) (i : ℕ) : (port.store i).Ready := by
  refine ⟨h.lastidx, h.txbuf, h.etype, fun j => ?_, h.tempinbuf⟩
  unfold Port.store
  dsimp only
  by_cases hj : j = i
  · rw [hj, Function.update_self, put_length, h.rxbuf]
  · rw [Function.update_of_ne hj, h.rxbuf]

theorem inframe_own (h : port.Ready) {packet : List UInt8} (hframed : Link.Framed idx packet)
    (hlen : port.txbuflength idx = packet.length) :
    ∃ port', port.inframeSocket idx (some packet) =
        (Port.wkcAt (port'.rxbuf idx) (Port.lengthAt (port'.rxbuf idx) 0), port') ∧ port'.Ready ∧
      ∀ j, ETH_HEADERSIZE + j < packet.length → (port'.rxbuf idx)[j]? = packet[ETH_HEADERSIZE + j]? := by
  obtain ⟨hmin, hmax, h88, ha4, hindex⟩ := hframed
  have hbyte : ∀ j, j < packet.length → byteAt (put port.tempinbuf 0 packet) j = byteAt packet j :=
    fun j hj => byteAt_tempinbuf h.tempinbuf hmax hj
  have hsocket := inframeSocket_eq port idx ((hbyte 12 (by omega)).trans h88)
    ((hbyte 13 (by omega)).trans ha4) ((congrArg UInt8.toNat (hbyte _ (by omega))).trans hindex)
  have htemp : Port.Ready { port with tempinbuf := put port.tempinbuf 0 packet } :=
    ⟨h.lastidx, h.txbuf, h.etype, h.rxbuf, by rw [put_length, h.tempinbuf]⟩
  have hwindow := Port.store_window (h.rxbuf idx) h.tempinbuf hmax hlen
  let stored := Port.store { port with tempinbuf := put port.tempinbuf 0 packet } idx
  have hword : Port.lengthAt (put port.tempinbuf 0 packet) ETH_HEADERSIZE =
      Port.lengthAt (stored.rxbuf idx) 0 :=
    Port.store_lengthAt (h.rxbuf idx) h.tempinbuf (by omega) hmax hlen
  refine ⟨stored.setbufstat idx .COMPLETE, ?_, (htemp.store idx).setbufstat _ _, fun j hj => ?_⟩
  · rw [hsocket]
    simp only [if_true, hword]
    rfl
  · have hget := congrArg (·[j]?) hwindow
    simp only [window_getElem?, if_pos (show j < packet.length - ETH_HEADERSIZE by omega), Nat.zero_add] at hget
    exact hget

theorem srconfirm_step {σ : Type} {wire : Wire σ} {bus bus' : σ} {packet : Option (List UInt8)} {wkc : ℤ}
    {port' : Port} (hwire : wire (FrameBuf.sent ⟨port.txbuf idx, port.txbuflength idx⟩) bus = (packet, bus'))
    (hin : (port.setbufstat idx .TX).inframeSocket idx packet = (wkc, port')) (tries : ℕ) :
    srconfirm wire idx (tries + 1) port bus =
      if wkc ≤ EC_NOFRAME then srconfirm wire idx tries port' bus' else (wkc, port', bus') := by
  have hout : port.outframe idx true = port.setbufstat idx .TX := rfl
  have htx : (port.setbufstat idx .TX).txbuf = port.txbuf := rfl
  have hlen : (port.setbufstat idx .TX).txbuflength = port.txbuflength := rfl
  rw [srconfirm]
  simp only [hout, htx, hlen, hwire, hin]

theorem Esc.serve_keeps (s : Esc) : Keeps s.serve := by
  intro p
  unfold Esc.serve
  split
  · refine ⟨rfl, rfl, rfl, ?_⟩
    simp only [List.length_zipWith, Esc.read, List.length_map, List.length_range, Nat.min_self]
  · split
    · exact ⟨rfl, rfl, rfl, by simp only [Esc.read, List.length_map, List.length_range]⟩
    · exact ⟨rfl, rfl, rfl, rfl⟩

variable {bus : ℕ → List Esc} {arrives : ℕ → Bool}

theorem lossy_lost {k : ℕ} (h : arrives k = false) (frame : List UInt8) :
    lossy bus arrives frame k = (none, k + 1) := by
  simp only [lossy, h, Bool.false_eq_true, if_false]

theorem lossy_arrives {k : ℕ} (h : arrives k = true) (frame : List UInt8) :
    lossy bus arrives frame k = (some (passSlaves ((bus k).map Esc.serve) frame), k + 1) := by
  simp only [lossy, h, if_true]

/-- What the slaves that frame `j` finds make of a datagram. -/
def answerAt (bus : ℕ → List Esc) (j idx : ℕ) (d : Subframe) : Passing :=
  answer ((bus j).map Esc.serve) (UInt8.ofNat idx) d

/-- Frame `j` has come back with the answers. -/
structure Answered (bus : ℕ → List Esc) (arrives : ℕ → Bool) (k idx : ℕ) (frame : List UInt8) (d : Subframe)
    (ds : List Subframe) (wkc : ℤ) (port : Port) (j : ℕ) : Prop where
  first : k ≤ j
  arrives : arrives j = true
  wkc : wkc = (answerAt bus j idx ((d :: ds).getLast (List.cons_ne_nil d ds))).wkc.toNat
  data : List.zipWith (fun o n => window (port.rxbuf idx) o n)
      (framedatagrams frame (UInt8.ofNat idx) d ds).2 (sizes (d :: ds)) =
    (d :: ds).map fun e => (answerAt bus j idx e).data

/-- A frame is sent until it comes back or there is no time left. -/
theorem srconfirm_lossy {frame : List UInt8} {d : Subframe} {ds : List Subframe} (hidx : idx < EC_MAXBUF)
    (hsize : frame.length = EC_BUFSIZE) (htype : byteAt frame 12 = 0x88 ∧ byteAt frame 13 = 0xa4)
    (hfit : ETH_HEADERSIZE + 2 + span (sizes (d :: ds)) ≤ EC_BUFSIZE) (tries : ℕ) (h : port.Ready)
    (htx : port.txbuf idx = (framedatagrams frame (UInt8.ofNat idx) d ds).1.bytes)
    (hlen : port.txbuflength idx = (framedatagrams frame (UInt8.ofNat idx) d ds).1.length) (k : ℕ) :
    ∃ wkc port' k', srconfirm (lossy bus arrives) idx tries port k = (wkc, port', k') ∧ port'.Ready ∧
      k ≤ k' ∧ (wkc = EC_NOFRAME ∧ k' = k + tries ∧ (∀ j, k ≤ j → j < k' → arrives j = false) ∨
        ∃ j, k' = j + 1 ∧ Answered bus arrives k idx frame d ds wkc port' j) := by
  induction tries generalizing port k with
  | zero => exact ⟨_, _, _, rfl, h, Nat.le_refl k, Or.inl ⟨rfl, rfl, fun j hj hj' => by omega⟩⟩
  | succ tries ih =>
    have hsent : FrameBuf.sent ⟨port.txbuf idx, port.txbuflength idx⟩ =
        (framedatagrams frame (UInt8.ofNat idx) d ds).1.sent := by
      rw [htx, hlen]
    cases harr : arrives k with
    | false =>
      have hstep : srconfirm (lossy bus arrives) idx (tries + 1) port k =
          srconfirm (lossy bus arrives) idx tries (port.outframe idx true) (k + 1) := by
        exact srconfirm_step (lossy_lost harr _) rfl tries
      obtain ⟨wkc, port', k', heq, hready, hle, hcase⟩ := ih (h.setbufstat _ _) htx hlen (k + 1)
      refine ⟨wkc, port', k', hstep.trans heq, hready, by omega, ?_⟩
      rcases hcase with ⟨hwkc, hk', hlost⟩ | ⟨j, hk', hans⟩
      · refine Or.inl ⟨hwkc, by omega, fun j hj hj' => ?_⟩
        by_cases hjk : j = k
        · rw [hjk, harr]
        · exact hlost j (by omega) hj'
      · exact Or.inr ⟨j, hk', { hans with first := Nat.le_of_succ_le hans.first }⟩
    | true =>
      have hkeep : ∀ slave ∈ (bus k).map Esc.serve, Keeps slave := by
        intro slave hs
        obtain ⟨e, -, rfl⟩ := List.mem_map.mp hs
        exact e.serve_keeps
      have hnat : (UInt8.ofNat idx).toNat = idx := by
        unfold EC_MAXBUF at hidx
        rw [UInt8.toNat_ofNat', Nat.mod_eq_of_lt (by omega)]
      obtain ⟨hplen, hframed⟩ := reply_framed (UInt8.ofNat idx) hkeep hsize hfit htype
      rw [hnat] at hframed
      obtain ⟨port', hsocket, hready, hrx⟩ := inframe_own (h.setbufstat idx .TX) hframed
        (hlen.trans hplen.symm)
      rw [hplen] at hrx
      obtain ⟨hdata, hwkc⟩ := reply_found hkeep hsize hfit hrx
      have hnonneg : ¬ Port.wkcAt (port'.rxbuf idx) (Port.lengthAt (port'.rxbuf idx) 0) ≤ EC_NOFRAME := by
        rw [hwkc, EC_NOFRAME]
        omega
      refine ⟨_, port', k + 1, ?_, hready, Nat.le_succ k, Or.inr ⟨k, rfl, Nat.le_refl k, harr, hwkc, hdata⟩⟩
      rw [srconfirm_step ((lossy_arrives harr _).trans (by rw [hsent])) hsocket]
      exact if_neg hnonneg

end Transfers

/-! ## What the slaves answer -/

section Answers
variable {bus : List Esc} {p : Passing} {c : UInt16}

@[simp] theorem Esc.read_length (s : Esc) (ADO : UInt16) (n : ℕ) : (s.read ADO n).length = n := by
  simp only [Esc.read, List.length_map, List.length_range]

theorem Esc.byteAt_read (s : Esc) (ADO : UInt16) {n j : ℕ} (hj : j < n) :
    byteAt (s.read ADO n) j = s.memory (ADO.toNat + j) := by
  rw [byteAt, List.getD_eq_getElem?_getD, Esc.read, List.getElem?_map, List.getElem?_range hj]
  rfl

theorem Esc.status_eq (s : Esc) {n : ℕ} (hn : 2 ≤ n) : (readUint16 (s.read ECT_REG_ALSTAT n) 0).1 = s.status := by
  unfold Esc.status alstatus readUint16
  rw [s.byteAt_read _ (by omega), s.byteAt_read _ (by omega), s.byteAt_read _ (by decide),
    s.byteAt_read _ (by decide)]

theorem byteAt_or {a b : List UInt8} (hlen : a.length = b.length) (j : ℕ) :
    byteAt (List.zipWith (· ||| ·) a b) j = byteAt a j ||| byteAt b j := by
  rw [byteAt, byteAt, byteAt, List.getD_eq_getElem?_getD, List.getD_eq_getElem?_getD,
    List.getD_eq_getElem?_getD, List.getElem?_zipWith]
  by_cases hj : j < a.length
  · rw [List.getElem?_eq_getElem hj, List.getElem?_eq_getElem (hlen ▸ hj)]
    rfl
  · rw [List.getElem?_eq_none (by omega), List.getElem?_eq_none (by omega)]
    rfl

theorem readUint16_or {a b : List UInt8} (hlen : a.length = b.length) (o : ℕ) :
    (readUint16 (List.zipWith (· ||| ·) a b) o).1 = (readUint16 a o).1 ||| (readUint16 b o).1 := by
  simp only [readUint16, byteAt_or hlen, UInt8.toUInt16_or, UInt16.shiftLeft_or]
  ac_rfl

/-- All states of a bus in one word. -/
def statusOr (bus : List Esc) : UInt16 := (bus.map Esc.status).foldl (· ||| ·) 0

variable (bus) in
/-- A broadcast comes back with the states of all slaves. -/
theorem serve_broadcast (hcom : p.command = Cmd.BRD.code) (hado : p.ADO = ECT_REG_ALSTAT)
    (hlen : p.data.length = 2) :
    let p' := (bus.map Esc.serve).foldl (fun p slave => slave p) p
    p'.data.length = 2 ∧ (readUint16 p'.data 0).1 = (bus.map Esc.status).foldl (· ||| ·) (readUint16 p.data 0).1 ∧
      p'.wkc = p.wkc + UInt16.ofNat bus.length := by
  induction bus generalizing p with
  | nil => exact ⟨hlen, rfl, (UInt16.add_zero _).symm⟩
  | cons e bus ih =>
    have hserve : e.serve p =
        { p with
          ADP := p.ADP + 1
          data := List.zipWith (· ||| ·) p.data (e.read p.ADO p.data.length)
          wkc := p.wkc + 1 } := if_pos hcom
    obtain ⟨hlen', hword, hwkc⟩ := ih (p := e.serve p) (by rw [hserve]; exact hcom) (by rw [hserve]; exact hado)
      (by rw [(e.serve_keeps p).2.2.2, hlen])
    refine ⟨hlen', hword.trans ?_, hwkc.trans ?_⟩
    · rw [List.map_cons, List.foldl_cons, hserve]
      dsimp only
      rw [readUint16_or (by rw [Esc.read_length]), hado, e.status_eq (by omega)]
    · rw [hserve, List.length_cons, UInt16.ofNat_add]
      change p.wkc + 1 + UInt16.ofNat bus.length = p.wkc + (UInt16.ofNat bus.length + 1)
      rw [UInt16.add_assoc, UInt16.add_comm 1]

variable (bus) in
theorem serve_absent (hcom : p.command = Cmd.FPRD.code) (habs : ∀ e ∈ bus, e.configadr ≠ p.ADP) :
    (bus.map Esc.serve).foldl (fun p slave => slave p) p = p := by
  induction bus with
  | nil => rfl
  | cons e bus ih =>
    have hserve : e.serve p = p := by
      unfold Esc.serve
      rw [if_neg (by rw [hcom]; decide), if_neg fun h => habs e List.mem_cons_self h.2.symm]
    rw [List.map_cons, List.foldl_cons, hserve]
    exact ih fun e he => habs e (List.mem_cons_of_mem _ he)

theorem serve_present (hcom : p.command = Cmd.FPRD.code) (hdistinct : (bus.map Esc.configadr).Nodup) {e : Esc}
    (he : e ∈ bus) (hadp : p.ADP = e.configadr) :
    ((bus.map Esc.serve).foldl (fun p slave => slave p) p).data = e.read p.ADO p.data.length := by
  induction bus with
  | nil => exact absurd he List.not_mem_nil
  | cons f bus ih =>
    rw [List.map_cons, List.nodup_cons] at hdistinct
    rw [List.map_cons, List.foldl_cons]
    rcases List.mem_cons.mp he with rfl | hmem
    · have hserve : e.serve p = { p with data := e.read p.ADO p.data.length, wkc := p.wkc + 1 } := by
        unfold Esc.serve
        rw [if_neg (by rw [hcom]; decide), if_pos ⟨hcom, hadp⟩]
      have hrest := serve_absent bus (p := e.serve p) (by rw [hserve]; exact hcom)
        (by
          rw [hserve]
          exact fun f hf hsame => hdistinct.1 (hadp ▸ hsame ▸ List.mem_map_of_mem hf))
      rw [hrest, hserve]
    · have hother : f.configadr ≠ p.ADP := fun hsame =>
        hdistinct.1 (hsame ▸ hadp ▸ List.mem_map_of_mem hmem)
      have hserve : f.serve p = p := by
        unfold Esc.serve
        rw [if_neg (by rw [hcom]; decide), if_neg fun h => hother h.2.symm]
      rw [hserve]
      exact ih hdistinct.2 hmem

end Answers

/-! ## The two ways to ask -/

section Asking
variable {bus : ℕ → List Esc} {arrives : ℕ → Bool} {port : Port} {d : Subframe} {ds : List Subframe}

theorem Port.settxbuf_txbuf (port : Port) (idx : ℕ) (f : FrameBuf) :
    (port.settxbuf idx f).txbuf = Function.update port.txbuf idx f.bytes := rfl

variable (bus arrives d ds) in
theorem transfer_lossy (h : port.Ready) (hfit : ETH_HEADERSIZE + 2 + span (sizes (d :: ds)) ≤ EC_BUFSIZE)
    {idx : ℕ} (hidx : idx < EC_MAXBUF) (tries k : ℕ) :
    let f := framedatagrams (port.txbuf idx) (UInt8.ofNat idx) d ds
    ∃ wkc port' k', srconfirm (lossy bus arrives) idx tries (port.settxbuf idx f.1) k = (wkc, port', k') ∧
      port'.Ready ∧ k ≤ k' ∧ (wkc = EC_NOFRAME ∧ k' = k + tries ∧ (∀ j, k ≤ j → j < k' → arrives j = false) ∨
        ∃ j, k' = j + 1 ∧ Answered bus arrives k idx (port.txbuf idx) d ds wkc port' j) := by
  intro f
  obtain ⟨hb, -⟩ := framedatagrams_built (UInt8.ofNat idx) (h.txbuf idx) hfit
  have htype : ∀ j, j < ETH_HEADERSIZE → byteAt f.1.bytes j = byteAt (port.txbuf idx) j :=
    fun j hj => byteAt_congr (hb.ethernet j hj)
  have hready : (port.settxbuf idx f.1).Ready := by
    refine ⟨h.lastidx, fun i => ?_, fun i => ?_, h.rxbuf, h.tempinbuf⟩ <;> by_cases hi : i = idx
    · rw [hi, Port.settxbuf_txbuf, Function.update_self, hb.bytes, h.txbuf]
    · rw [Port.settxbuf_txbuf, Function.update_of_ne hi, h.txbuf]
    · rw [hi, Port.settxbuf_txbuf, Function.update_self, htype 12 (by decide), htype 13 (by decide)]
      exact h.etype idx
    · rw [Port.settxbuf_txbuf, Function.update_of_ne hi]
      exact h.etype i
  exact srconfirm_lossy hidx (h.txbuf idx) (h.etype idx) hfit tries hready (Function.update_self ..)
    (Function.update_self ..) k

variable (arrives) in
/-- The broadcast has been lost, or has found all slaves of the bus. -/
theorem BRD_lossy (h : port.Ready) (hmax : ∀ j, (bus j).length < 2 ^ 16) (tries k : ℕ) :
    ∃ wkc data port' k', BRD (lossy bus arrives) 0 ECT_REG_ALSTAT [0, 0] tries port k =
        ((wkc, data), port', k') ∧ port'.Ready ∧ k ≤ k' ∧
      (wkc = EC_NOFRAME ∧ (readUint16 data 0).1 = 0 ∨
        ∃ j, k ≤ j ∧ k' = j + 1 ∧ arrives j = true ∧ wkc = (bus j).length ∧
          (readUint16 data 0).1 = statusOr (bus j)) := by
  obtain ⟨hidx, hready⟩ := h.getindex
  obtain ⟨wkc, port', k', heq, hready', hle, hcase⟩ := transfer_lossy bus arrives
    ⟨.BRD, 0, ECT_REG_ALSTAT, [0, 0]⟩ [] hready (by decide) hidx tries k
  have hbrd : BRD (lossy bus arrives) 0 ECT_REG_ALSTAT [0, 0] tries port k =
      ((wkc, if 0 < wkc then window (port'.rxbuf port.getindex.1) EC_HEADERSIZE 2 else [0, 0]),
        port'.setbufstat port.getindex.1 .EMPTY, k') := by
    unfold BRD
    simp only [show Subframe.setupdatagram ⟨.BRD, 0, ECT_REG_ALSTAT, [0, 0]⟩ (port.getindex.2.txbuf port.getindex.1)
      (UInt8.ofNat port.getindex.1) = (framedatagrams (port.getindex.2.txbuf port.getindex.1)
        (UInt8.ofNat port.getindex.1) ⟨.BRD, 0, ECT_REG_ALSTAT, [0, 0]⟩ []).1 from rfl, heq]
    rfl
  refine ⟨_, _, _, _, hbrd, hready'.setbufstat _ _, hle, ?_⟩
  rcases hcase with ⟨rfl, -, -⟩ | ⟨j, hk', hfirst, harr, hwkc, hdata⟩
  · rw [if_neg (show ¬ 0 < EC_NOFRAME by decide)]
    exact Or.inl ⟨rfl, rfl⟩
  · obtain ⟨-, hword, hcount⟩ := serve_broadcast (bus j)
      (p := Subframe.sent ⟨.BRD, 0, ECT_REG_ALSTAT, [0, 0]⟩ (UInt8.ofNat port.getindex.1)) rfl rfl rfl
    have hlast : wkc = (UInt16.ofNat (bus j).length).toNat := by
      rw [hwkc, ← UInt16.zero_add (UInt16.ofNat _)]
      exact congrArg (fun w : UInt16 => (w.toNat : ℤ)) hcount
    rw [UInt16.toNat_ofNat', Nat.mod_eq_of_lt (hmax j)] at hlast
    have hwindow : window (port'.rxbuf port.getindex.1) EC_HEADERSIZE 2 =
        (answerAt bus j port.getindex.1 ⟨.BRD, 0, ECT_REG_ALSTAT, [0, 0]⟩).data := (List.cons.inj hdata).1
    refine Or.inr ⟨j, hfirst, hk', harr, hlast, ?_⟩
    have hzero : (readUint16 (writedatagramdata .BRD [0, 0]) 0).1 = 0 := rfl
    by_cases hpos : 0 < wkc
    · rw [if_pos hpos, hwindow]
      refine hword.trans ?_
      rw [Subframe.sent, hzero, statusOr]
    · have hnone : bus j = [] := List.length_eq_zero_iff.mp (by omega)
      rw [if_neg hpos, hnone]
      rfl

/-- What one slave answers when it is asked for its AL status. -/
def Reads (bus : List Esc) (configadr : UInt16) (status : List UInt8) : Prop :=
  (∃ e ∈ bus, e.configadr = configadr ∧ status = e.read ECT_REG_ALSTAT 6) ∨
    (∀ e ∈ bus, e.configadr ≠ configadr) ∧ status = List.replicate 6 0

theorem reads_status (hdistinct : ∀ j, ((bus j).map Esc.configadr).Nodup) (j idx : ℕ) (c : UInt16) :
    Reads (bus j) c (answerAt bus j idx (statusDatagram c)).data := by
  by_cases hany : ∃ e ∈ bus j, e.configadr = c
  · obtain ⟨e, he, hc⟩ := hany
    exact Or.inl ⟨e, he, hc, serve_present rfl (hdistinct j) he hc.symm⟩
  · have hnone : ∀ e ∈ bus j, e.configadr ≠ c := fun e he hc => hany ⟨e, he, hc⟩
    refine Or.inr ⟨hnone, ?_⟩
    unfold answerAt answer
    rw [serve_absent _ rfl hnone]
    rfl

theorem zipWith_same {α β : Type} (f : ℕ → ℕ → α) (n : ℕ) {os : List ℕ} {l : List β} (h : os.length = l.length) :
    List.zipWith f os (l.map fun _ => n) = os.map (f · n) := by
  induction os generalizing l with
  | nil => rfl
  | cons o os ih =>
    cases l with
    | nil => exact absurd h (Nat.succ_ne_zero _)
    | cons b l =>
      rw [List.map_cons, List.map_cons, List.zipWith_cons_cons, ih (Nat.succ_inj.mp h)]

theorem sizes_status (cs : List UInt16) : sizes (cs.map statusDatagram) = cs.map fun _ => 6 := by
  rw [sizes, List.map_map]
  rfl

theorem span_same (cs : List UInt16) : span (cs.map fun _ => 6) = 18 * cs.length := by
  induction cs with
  | nil => rfl
  | cons c cs ih =>
    rw [List.map_cons, span_cons, ih, List.length_cons]
    omega

theorem dataOffsets_length (off : ℕ) (ns : List ℕ) : (dataOffsets off ns).length = ns.length := by
  induction ns generalizing off with
  | nil => rfl
  | cons n ns ih => rw [dataOffsets, List.length_cons, List.length_cons, ih]

variable (arrives) in
/-- The slaves of one frame have answered, or the frame has been lost. -/
theorem FPRD_multi_lossy (h : port.Ready) (hdistinct : ∀ j, ((bus j).map Esc.configadr).Nodup)
    {c : UInt16} {cs : List UInt16} (hcs : cs.length < MAX_FPRD_MULTI) (tries k : ℕ) :
    ∃ wkc sl port' k', FPRD_multi (lossy bus arrives) c cs tries port k = ((wkc, sl), port', k') ∧
      port'.Ready ∧ k ≤ k' ∧
      (k' = k + tries ∧ (∀ j, k ≤ j → j < k' → arrives j = false) ∧
          sl = (c :: cs).map (fun _ => List.replicate 6 0) ∨
        ∃ j, k ≤ j ∧ k' = j + 1 ∧ arrives j = true ∧ List.Forall₂ (Reads (bus j)) (c :: cs) sl) := by
  obtain ⟨hidx, hready⟩ := h.getindex
  have hsizes : sizes (statusDatagram c :: cs.map statusDatagram) = (c :: cs).map fun _ => 6 :=
    sizes_status (c :: cs)
  have hfit : ETH_HEADERSIZE + 2 + span (sizes (statusDatagram c :: cs.map statusDatagram)) ≤ EC_BUFSIZE := by
    rw [hsizes, span_same, List.length_cons]
    unfold ETH_HEADERSIZE EC_BUFSIZE
    unfold MAX_FPRD_MULTI at hcs
    omega
  obtain ⟨-, hoffsets⟩ := framedatagrams_built (UInt8.ofNat port.getindex.1)
    (hready.txbuf port.getindex.1) hfit
  have hlen : (framedatagrams (port.getindex.2.txbuf port.getindex.1) (UInt8.ofNat port.getindex.1)
      (statusDatagram c) (cs.map statusDatagram)).2.length = (c :: cs).length := by
    rw [hoffsets, dataOffsets_length, hsizes, List.length_map]
  obtain ⟨wkc, port', k', heq, hready', hle, hcase⟩ := transfer_lossy bus arrives
    (statusDatagram c) (cs.map statusDatagram) hready hfit hidx tries k
  refine ⟨_, _, _, _, by unfold FPRD_multi; simp only [heq]; rfl, hready'.setbufstat _ _, hle, ?_⟩
  rcases hcase with ⟨rfl, hk', hlost⟩ | ⟨j, hk', hfirst, harr, hwkc, hdata⟩
  · refine Or.inl ⟨hk', hlost, ?_⟩
    rw [if_neg (show ¬ 0 ≤ EC_NOFRAME by decide), List.map_const', List.map_const', hlen]
  · refine Or.inr ⟨j, hfirst, hk', harr, ?_⟩
    have hnonneg : 0 ≤ wkc := by
      rw [hwkc]
      exact Int.natCast_nonneg _
    rw [hsizes, zipWith_same _ 6 hlen] at hdata
    rw [if_pos hnonneg]
    change List.Forall₂ _ _ (List.map (fun o => window (port'.rxbuf port.getindex.1) o 6) _)
    rw [hdata, show statusDatagram c :: cs.map statusDatagram = (c :: cs).map statusDatagram from rfl, List.map_map,
      List.forall₂_map_right_iff]
    exact List.forall₂_same.mpr fun c _ => reads_status hdistinct j _ c

end Asking

/-! ## Going through the slaves -/

/-- What is known of the slaves that have been scanned. -/
structure StateScan.Ok (scan : StateScan) : Prop where
  start : scan.slaves = [] → scan.lowest = 0xff
  le : ∀ s ∈ scan.slaves, scan.lowest ≤ s.state &&& 0xf
  mem : scan.slaves ≠ [] → ∃ s ∈ scan.slaves, s.state &&& 0xf = scan.lowest
  code : scan.ALstatuscode = (scan.slaves.map (·.ALstatuscode)).foldl (· ||| ·) 0

/-- What is recorded for a slave is what it answered to one of the frames from `k` to `k'`; where no state
is recorded, a frame did not find the slave, or all tries for one were lost. The AL status code is ignored
where the slave shows no error. -/
def Recorded (bus : ℕ → List Esc) (arrives : ℕ → Bool) (tries k k' : ℕ) (s s' : SlaveInfo) : Prop :=
  s'.configadr = s.configadr ∧
    ((∃ j, k ≤ j ∧ j < k' ∧ arrives j = true ∧ ∃ e ∈ bus j, e.configadr = s.configadr ∧
        s'.state &&& 0x1f = e.status &&& 0x1f ∧
        (s'.ALstatuscode = e.statuscode ∨ s'.ALstatuscode = 0 ∧ e.status &&& EC_STATE_ERROR = 0)) ∨
      s'.state = 0 ∧ s'.ALstatuscode = 0 ∧
        ((∃ j, k ≤ j ∧ j < k' ∧ arrives j = true ∧ ∀ e ∈ bus j, e.configadr ≠ s.configadr) ∨
          ∃ j, k ≤ j ∧ j + tries ≤ k' ∧ ∀ i, j ≤ i → i < j + tries → arrives i = false))

section Scanning
variable {bus : ℕ → List Esc} {arrives : ℕ → Bool} {port : Port} {scan : StateScan} {s s' : SlaveInfo}
  {tries k k' : ℕ}

theorem Recorded.mono {m m' : ℕ} (h : Recorded bus arrives tries k k' s s') (hm : m ≤ k) (hm' : k' ≤ m') :
    Recorded bus arrives tries m m' s s' := by
  obtain ⟨hadr, hfound | ⟨hstate, hcode, hnone | hlost⟩⟩ := h
  · obtain ⟨j, hj, hj', hrest⟩ := hfound
    exact ⟨hadr, Or.inl ⟨j, by omega, by omega, hrest⟩⟩
  · obtain ⟨j, hj, hj', hrest⟩ := hnone
    exact ⟨hadr, Or.inr ⟨hstate, hcode, Or.inl ⟨j, by omega, by omega, hrest⟩⟩⟩
  · obtain ⟨j, hj, hj', hrest⟩ := hlost
    exact ⟨hadr, Or.inr ⟨hstate, hcode, Or.inr ⟨j, by omega, by omega, hrest⟩⟩⟩

theorem StateScan.Ok.slave (h : scan.Ok) (s : SlaveInfo) (status : List UInt8) : (scan.slave s status).Ok := by
  have hlow : (scan.slave s status).lowest ≤ scan.lowest ∧
      (scan.slave s status).lowest ≤ alstatus status &&& 0xf ∧
      ((scan.slave s status).lowest = alstatus status &&& 0xf ∨ (scan.slave s status).lowest = scan.lowest ∧
        scan.lowest ≤ alstatus status &&& 0xf) := by
    unfold StateScan.slave
    dsimp only
    split
    · next hlt => exact ⟨UInt16.le_of_lt hlt, UInt16.le_refl _, Or.inl rfl⟩
    · next hge => exact ⟨UInt16.le_refl _, UInt16.not_lt.mp hge, Or.inr ⟨rfl, UInt16.not_lt.mp hge⟩⟩
  obtain ⟨hle, hnew, hmin⟩ := hlow
  have hslaves : (scan.slave s status).slaves = scan.slaves ++ [s.found status] := rfl
  refine ⟨fun hnil => ?_, fun t ht => ?_, fun _ => ?_, ?_⟩
  · exact absurd hnil (List.append_ne_nil_of_right_ne_nil _ (List.cons_ne_nil _ _))
  · rw [hslaves, List.mem_append] at ht
    rcases ht with ht | ht
    · exact UInt16.le_trans hle (h.le t ht)
    · rw [List.mem_singleton.mp ht]
      exact hnew
  · rw [hslaves]
    rcases hmin with hmin | ⟨hmin, hge⟩
    · exact ⟨_, List.mem_append_right _ (List.mem_singleton_self _), hmin.symm⟩
    · by_cases hnil : scan.slaves = []
      · rw [h.start hnil, UInt16.le_iff_toNat_le, UInt16.toNat_and] at hge
        exact absurd (hge.trans Nat.and_le_right) (by decide)
      · obtain ⟨t, ht, heq⟩ := h.mem hnil
        exact ⟨t, List.mem_append_left _ ht, heq.trans hmin.symm⟩
  · rw [hslaves, List.map_append, List.foldl_append, ← h.code]
    rfl

theorem found_none (s : SlaveInfo) :
    (s.found (List.replicate 6 0)).state = 0 ∧ (s.found (List.replicate 6 0)).ALstatuscode = 0 := ⟨rfl, rfl⟩

theorem scan_fold (h : scan.Ok) (l : List (SlaveInfo × List UInt8)) :
    (l.foldl (fun scan e => scan.slave e.1 e.2) scan).Ok ∧
      (l.foldl (fun scan e => scan.slave e.1 e.2) scan).slaves = scan.slaves ++ l.map fun e => e.1.found e.2 := by
  induction l generalizing scan with
  | nil => exact ⟨h, (List.append_nil _).symm⟩
  | cons e l ih =>
    obtain ⟨hok, hslaves⟩ := ih (h.slave e.1 e.2)
    refine ⟨hok, ?_⟩
    rw [List.foldl_cons, hslaves, List.map_cons, List.append_cons]
    rfl

theorem forall₂_found {R : SlaveInfo → SlaveInfo → Prop} {l : List SlaveInfo} {sl : List (List UInt8)}
    (h : List.Forall₂ (fun s status => R s (s.found status)) l sl) :
    List.Forall₂ R l ((l.zip sl).map fun e => e.1.found e.2) := by
  induction h with
  | nil => exact List.Forall₂.nil
  | cons hr _ ih => exact List.Forall₂.cons hr ih

theorem Reads.recorded {j : ℕ} {status : List UInt8} (h : Reads (bus j) s.configadr status)
    (hj : arrives j = true) : Recorded bus arrives tries j (j + 1) s (s.found status) := by
  refine ⟨rfl, ?_⟩
  rcases h with ⟨e, he, hadr, rfl⟩ | ⟨hnone, rfl⟩
  · exact Or.inl ⟨j, Nat.le_refl j, Nat.lt_succ_self j, hj, e, he, hadr, rfl, Or.inl rfl⟩
  · exact Or.inr ⟨(found_none s).1, (found_none s).2, Or.inl ⟨j, Nat.le_refl j, Nat.lt_succ_self j, hj, hnone⟩⟩

variable (arrives tries) in
theorem scanSlaves_lossy (hdistinct : ∀ j, ((bus j).map Esc.configadr).Nodup) (fuel : ℕ) {slaves : List SlaveInfo}
    (hfuel : slaves.length ≤ fuel) (h : port.Ready) (hok : scan.Ok) (k : ℕ) :
    ∃ scan' port' k' out, scanSlaves (lossy bus arrives) tries fuel slaves scan port k = (scan', port', k') ∧
      port'.Ready ∧ k ≤ k' ∧ scan'.Ok ∧ scan'.slaves = scan.slaves ++ out ∧
      List.Forall₂ (Recorded bus arrives tries k k') slaves out := by
  induction fuel generalizing slaves port scan k with
  | zero =>
    have hnil : slaves = [] := List.length_eq_zero_iff.mp (by omega)
    rw [hnil]
    exact ⟨_, _, _, [], rfl, h, Nat.le_refl k, hok, (List.append_nil _).symm, List.Forall₂.nil⟩
  | succ fuel ih =>
    cases slaves with
    | nil => exact ⟨_, _, _, [], rfl, h, Nat.le_refl k, hok, (List.append_nil _).symm, List.Forall₂.nil⟩
    | cons s rest =>
      let more := rest.take (MAX_FPRD_MULTI - 1)
      have hmore : (more.map (·.configadr)).length < MAX_FPRD_MULTI := by
        rw [List.length_map, List.length_take]
        unfold MAX_FPRD_MULTI
        omega
      obtain ⟨wkc, sl, port₁, k₁, hmulti, hready₁, hle₁, hcase⟩ := FPRD_multi_lossy arrives h hdistinct
        (c := s.configadr) hmore tries k
      have hrec : List.Forall₂ (Recorded bus arrives tries k k₁) (s :: more)
          (((s :: more).zip sl).map fun e => e.1.found e.2) := by
        apply forall₂_found
        rcases hcase with ⟨hk₁, hlost, rfl⟩ | ⟨j, hkj, hk₁, harr, hreads⟩
        · change List.Forall₂ _ _ (((s :: more).map SlaveInfo.configadr).map _)
          rw [List.map_map, List.forall₂_map_right_iff]
          refine List.forall₂_same.mpr fun t _ => ⟨rfl, Or.inr ⟨(found_none t).1, (found_none t).2, Or.inr ?_⟩⟩
          exact ⟨k, Nat.le_refl k, by omega, fun i hi hi' => hlost i hi (by omega)⟩
        · change List.Forall₂ _ ((s :: more).map SlaveInfo.configadr) sl at hreads
          rw [List.forall₂_map_left_iff] at hreads
          exact hreads.imp fun t status ht => (ht.recorded harr).mono hkj (by omega)
      obtain ⟨hok₁, hslaves₁⟩ := scan_fold hok ((s :: more).zip sl)
      obtain ⟨scan', port', k', out, heq, hready', hle', hok', hslaves', hrec'⟩ := ih
        (show (rest.drop (MAX_FPRD_MULTI - 1)).length ≤ fuel by
          rw [List.length_drop]
          simp only [List.length_cons] at hfuel
          omega)
        hready₁ hok₁ k₁
      refine ⟨scan', port', k', ((s :: more).zip sl).map (fun e => e.1.found e.2) ++ out, ?_, hready', by omega, hok',
        ?_, ?_⟩
      · rw [scanSlaves]
        simp only [more, hmulti] at heq ⊢
        exact heq
      · rw [hslaves', hslaves₁, List.append_assoc]
      · have hsplit : s :: rest = (s :: more) ++ rest.drop (MAX_FPRD_MULTI - 1) := by
          rw [List.cons_append, List.take_append_drop]
        rw [hsplit]
        exact List.rel_append (hrec.imp fun _ _ hr => hr.mono (Nat.le_refl k) hle')
          (hrec'.imp fun _ _ hr => hr.mono hle₁ (Nat.le_refl k'))

end Scanning

/-! ## All slaves at once -/

section Broadcast

theorem or_absorb (a b f : UInt16) (h : (a ||| b) ||| f = f) : a ||| f = f := by
  rw [← h, ← UInt16.or_assoc, ← UInt16.or_assoc, UInt16.or_self]

theorem foldl_or_start (l : List UInt16) (acc : UInt16) : acc ||| l.foldl (· ||| ·) acc = l.foldl (· ||| ·) acc := by
  induction l generalizing acc with
  | nil => exact UInt16.or_self
  | cons y l ih => exact or_absorb acc y _ (ih (acc ||| y))

/-- A state is part of what all states together are. -/
theorem foldl_or_mem {l : List UInt16} {x : UInt16} (hx : x ∈ l) (acc : UInt16) :
    x ||| l.foldl (· ||| ·) acc = l.foldl (· ||| ·) acc := by
  induction l generalizing acc with
  | nil => exact absurd hx List.not_mem_nil
  | cons y l ih =>
    rcases List.mem_cons.mp hx with rfl | hx
    · rw [List.foldl_cons]
      refine or_absorb x acc _ ?_
      rw [UInt16.or_comm x acc]
      exact foldl_or_start l (acc ||| x)
    · exact ih hx (acc ||| y)

theorem foldl_or_zero {l : List UInt16} (h : ∀ x ∈ l, x = 0) : l.foldl (· ||| ·) 0 = 0 := by
  induction l with
  | nil => rfl
  | cons x l ih =>
    rw [List.foldl_cons, h x List.mem_cons_self]
    exact ih fun y hy => h y (List.mem_cons_of_mem _ hy)

theorem or_mask {x o : UInt16} (hor : x ||| o = o) {m : UInt16} : (x &&& m) ||| (o &&& m) = o &&& m := by
  rw [← UInt16.toNat_inj, UInt16.toNat_or, UInt16.toNat_and, UInt16.toNat_and, ← Nat.and_or_distrib_right,
    ← UInt16.toNat_or, hor]

/-- A state with one bit cannot hide another one. -/
theorem single_state : ∀ x < 32, ∀ b ∈ [1, 2, 4, 8], x ||| b = b → x &&& 15 ≠ 0 → x = b := by
  decide

theorem same_state {x o : UInt16} (hor : x ||| o = o) (hx : x &&& 0x0f ≠ 0) (herror : o &&& EC_STATE_ERROR = 0)
    (ho : o &&& 0x0f ∈ [EC_STATE_INIT, EC_STATE_PRE_OP, EC_STATE_SAFE_OP, EC_STATE_OPERATIONAL]) :
    o &&& 0x0f &&& 0x1f = x &&& 0x1f := by
  have hlow : o &&& 0x1f = o &&& 0x0f := by
    have hsplit : (0x1f : UInt16) = 0x0f ||| EC_STATE_ERROR := rfl
    rw [← UInt16.toNat_inj, hsplit, UInt16.toNat_and, UInt16.toNat_or, Nat.and_or_distrib_left, ← UInt16.toNat_and,
      ← UInt16.toNat_and, herror]
    exact Nat.or_zero _
  have hpart : (x &&& 0x1f).toNat ||| (o &&& 0x0f).toNat = (o &&& 0x0f).toNat := by
    rw [← hlow, ← UInt16.toNat_or, or_mask hor]
  have hnonzero : (x &&& 0x1f).toNat &&& 15 ≠ 0 := by
    have hnibble : x &&& 0x1f &&& 0x0f = x &&& 0x0f := by
      rw [UInt16.and_assoc]
      rfl
    intro hzero
    apply hx
    rw [← hnibble, ← UInt16.toNat_inj, UInt16.toNat_and]
    exact hzero
  have hlt : (x &&& 0x1f).toNat < 32 := by
    rw [UInt16.toNat_and]
    exact Nat.lt_of_le_of_lt Nat.and_le_right (by decide)
  have hsame := single_state _ hlt _ (List.mem_map_of_mem (f := UInt16.toNat) ho) hpart hnonzero
  rw [UInt16.and_assoc, ← UInt16.toNat_inj, hsame]
  rfl

end Broadcast

section ReadStates
variable {bus : ℕ → List Esc} {arrives : ℕ → Bool} {slaves : List SlaveInfo} {port : Port}

/-- As many answers as there are slaves are the answers of all slaves. -/
theorem all_present {j : ℕ} (hdistinct : ((bus j).map Esc.configadr).Nodup)
    (hknown : ∀ e ∈ bus j, e.configadr ∈ slaves.map SlaveInfo.configadr)
    (hcount : slaves.length ≤ (bus j).length) {s : SlaveInfo} (hs : s ∈ slaves) :
    ∃ e ∈ bus j, e.configadr = s.configadr := by
  have hsub : (bus j).map Esc.configadr ⊆ slaves.map SlaveInfo.configadr := by
    intro c hc
    obtain ⟨e, he, rfl⟩ := List.mem_map.mp hc
    exact hknown e he
  have hperm := (hdistinct.subperm hsub).perm_of_length_le (by rwa [List.length_map, List.length_map])
  obtain ⟨e, he, hc⟩ := List.mem_map.mp (hperm.mem_iff.mpr (List.mem_map_of_mem hs))
  exact ⟨e, he, hc⟩

theorem setupnic_ready : (Port.setupnic fun _ => txbuffer).Ready :=
  have htype : byteAt txbuffer 12 = 0x88 ∧ byteAt txbuffer 13 = 0xa4 := by decide
  ⟨by decide, fun _ => txbuffer_length, fun _ => htype, fun _ => List.length_replicate, List.length_replicate⟩

/-- A slave in OP and one that has fallen back to SAFE_OP with an error. -/
def twoEscs : List Esc :=
  [⟨1001, fun a => if a = 0x130 then 0x08 else 0⟩, ⟨1002, fun a => if a = 0x130 then 0x14 else 0⟩]

end ReadStates

end EcatMaster.Soem
