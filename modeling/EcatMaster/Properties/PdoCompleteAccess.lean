import EcatMaster.Properties.PdoObjects

/-! # The process data in whole objects

By Complete Access an object comes into a structure of the thread, behind whatever was there before.
-/

namespace EcatMaster.Soem
set_option autoImplicit false
open ByteBuf

/-! ## Structures -/

section Structures
variable {o : UInt16 → UInt8 → Bool → List UInt8}

/-- The structures have the sizes of `ec_SMcommtypet`, `ec_PDOassignt` and `ec_PDOdesct`. -/
structure CaStructs.Sized (ca : CaStructs) : Prop where
  SMcommtype : ca.SMcommtype.length = 2 + EC_MAXSM
  PDOassign : ca.PDOassign.length = 2 + 2 * 256
  PDOdesc : ca.PDOdesc.length = 2 + 4 * 256

/-- The whole object: the number of entries, a byte that is not used, and the entries. -/
def HasObject (o : UInt16 → UInt8 → Bool → List UInt8) (index : UInt16) (n : ℕ) (entries : List UInt8) : Prop :=
  ∃ nu, o index 0 true = UInt8.ofNat n :: nu :: entries

structure HasPdoCA (o : UInt16 → UInt8 → Bool → List UInt8) (p : CoePdo) : Prop where
  index : p.index ≠ 0
  count : p.entries.length < 256
  object : HasObject o p.index p.entries.length (p.entries.flatMap le32)

structure HasAssignCA (o : UInt16 → UInt8 → Bool → List UInt8) (A : UInt16) (pdos : List CoePdo) : Prop where
  count : pdos.length < 256
  object : HasObject o A pdos.length (pdos.flatMap fun p => le16 p.index)
  pdo : ∀ p ∈ pdos, HasPdoCA o p

theorem reads_struct {index : UInt16} {p entries : List UInt8} {n : ℕ} (h : HasObject o index n entries)
    (hlen : 2 + entries.length ≤ p.length) :
    ∃ p', ObjectReads o (readStruct index p) (1, p') ∧ p'.length = p.length ∧
      byteAt p' 0 = UInt8.ofNat n ∧ BytesAt p' 2 entries := by
  obtain ⟨nu, hobject⟩ := h
  have hsize : (put p 0 [0]).length = p.length := put_length p 0 [0]
  have hbytes : (o index (accessSubindex true 0) true).length ≤ (put p 0 [0]).length := by
    rw [accessSubindex_zero, hobject, hsize, List.length_cons, List.length_cons]
    omega
  have hat : BytesAt (put (put p 0 [0]) 0 (o index 0 true)) 0 ([UInt8.ofNat n, nu] ++ entries) := by
    rw [hobject]
    exact bytesAt_put (by rw [Nat.zero_add]; rwa [accessSubindex_zero, hobject] at hbytes)
  obtain ⟨hcount, hentries⟩ := bytesAt_append hat
  refine ⟨put (put p 0 [0]) 0 (o index 0 true), Query.Yields.get hbytes, ?_, hcount 0 Nat.two_pos, hentries⟩
  rw [put_length, hsize]

theorem byteAt_le32 (e : UInt32) : (byteAt (le32 e) 0).toNat = e.toNat % 2 ^ 8 := by
  have hvalue := leNat_le32 e
  have hbyte := (byteAt (le32 e) 0).toNat_lt
  change (byteAt (le32 e) 0).toNat + 256 * _ = e.toNat at hvalue
  omega

theorem descBits_eq {PDOdesc : List UInt8} {entries : List UInt32} : ∀ {k : ℕ} (bits : ℕ),
    BytesAt PDOdesc (2 + 4 * k) (entries.flatMap le32) →
    descBits PDOdesc entries.length k (UInt32.ofNat bits) =
      UInt32.ofNat (bits + (entries.map fun e => e.toNat % 2 ^ 8).sum) := by
  induction entries with
  | nil =>
    intro k bits _
    rfl
  | cons e entries ih =>
    intro k bits h
    rw [List.flatMap_cons] at h
    obtain ⟨hfirst, hrest⟩ := bytesAt_append h
    have hbyte : (byteAt PDOdesc (2 + 4 * k)).toUInt32 = UInt32.ofNat (e.toNat % 2 ^ 8) := by
      rw [← byteAt_le32 e, ← hfirst 0 (by decide : 0 < 4)]
      exact (UInt32.ofNat_uInt8ToNat _).symm
    have hnext : 2 + 4 * k + (le32 e).length = 2 + 4 * (k + 1) := Nat.add_assoc 2 (4 * k) 4
    rw [hnext] at hrest
    rw [List.length_cons, descBits, hbyte, ← UInt32.ofNat_add, List.map_cons, List.sum_cons, ← Nat.add_assoc]
    exact ih _ hrest

/-! ## PDOs -/

theorem reads_PDOsCA {PDOassign : List UInt8} {pdos : List CoePdo} : ∀ {k : ℕ} (bits : ℕ) {PDOdesc : List UInt8},
    PDOdesc.length = 2 + 4 * 256 → BytesAt PDOassign (2 + 2 * k) (pdos.flatMap fun p => le16 p.index) →
    (∀ p ∈ pdos, HasPdoCA o p) →
    ∃ desc, ObjectReads o (readPDOsCA PDOassign pdos.length k (UInt32.ofNat bits) PDOdesc)
      (UInt32.ofNat (bits + (pdos.map CoePdo.bits).sum), desc) ∧ desc.length = 2 + 4 * 256 := by
  induction pdos with
  | nil =>
    intro k bits PDOdesc hdesc _ _
    exact ⟨PDOdesc, Query.Yields.pure _, hdesc⟩
  | cons p pdos ih =>
    intro k bits PDOdesc hdesc h hpdo
    have hp : HasPdoCA o p := hpdo p List.mem_cons_self
    rw [List.flatMap_cons] at h
    obtain ⟨hfirst, hrest⟩ := bytesAt_append h
    have hidx : (readUint16 PDOassign (2 + 2 * k)).1 = p.index := readUint16_of_bytesAt hfirst
    have hpos : 0 < p.index := UInt16.pos_iff_ne_zero.mpr hp.index
    have hentries : (p.entries.flatMap le32).length = 4 * p.entries.length := by
      simp [List.length_flatMap, le32, Nat.mul_comm]
    have hcount := hp.count
    obtain ⟨desc, hread, hlen, hn, hat⟩ := reads_struct hp.object (p := PDOdesc) (by omega)
    have hnext : 2 + 2 * k + (le16 p.index).length = 2 + 2 * (k + 1) := Nat.add_assoc 2 (2 * k) 2
    rw [hnext] at hrest
    obtain ⟨desc', hloop, hlen'⟩ := ih (k := k + 1) (bits + p.bits) (hlen.trans hdesc) hrest
      fun p' hp' => hpdo p' (List.mem_cons_of_mem p hp')
    refine ⟨desc', ?_, hlen'⟩
    rw [List.length_cons, readPDOsCA, hidx, if_pos hpos, List.map_cons, List.sum_cons, ← Nat.add_assoc]
    refine hread.bind ?_
    dsimp only
    rw [hn, toNat_count hcount, descBits_eq bits hat]
    exact hloop

theorem reads_PDOassignCA {A : UInt16} {pdos : List CoePdo} (h : HasAssignCA o A pdos) {ca : CaStructs}
    (hca : ca.Sized) :
    ∃ ca', ObjectReads o (readPDOassignCA A ca) (UInt32.ofNat (pdos.map CoePdo.bits).sum, ca') ∧ ca'.Sized ∧
      ca'.SMcommtype = ca.SMcommtype := by
  have hcount := h.count
  have hentries : (pdos.flatMap fun p => le16 p.index).length = 2 * pdos.length := by
    simp [List.length_flatMap, le16, Nat.mul_comm]
  have hassign := hca.PDOassign
  obtain ⟨assign, hread, hlen, hn, hat⟩ := reads_struct h.object (p := ca.PDOassign) (by omega)
  unfold readPDOassignCA
  cases pdos with
  | nil =>
    refine ⟨{ ca with PDOassign := assign }, hread.bind ?_, ⟨hca.1, hlen.trans hca.2, hca.3⟩, rfl⟩
    dsimp only
    rw [hn, if_neg (fun h => absurd h.2 (by decide))]
    exact Query.Yields.pure _
  | cons p pdos =>
    obtain ⟨desc, hloop, hdesc⟩ := reads_PDOsCA (k := 0) 0 hca.PDOdesc hat h.pdo
    refine ⟨{ ca with PDOassign := assign, PDOdesc := desc }, hread.bind ?_,
      ⟨hca.1, hlen.trans hca.2, hdesc⟩, rfl⟩
    have hpos : 0 < byteAt assign 0 := by
      rw [hn, UInt8.lt_iff_toNat_lt, toNat_count hcount]
      exact Nat.succ_pos _
    dsimp only
    rw [if_pos ⟨Int.one_pos, hpos⟩, hn, toNat_count hcount]
    rw [Nat.zero_add] at hloop
    exact hloop.bind (Query.Yields.pure _)

/-! ## Sync managers -/

/-- Sync manager `k`, whose type is `tSM` in the object of the types. -/
structure HasSMCA (o : UInt16 → UInt8 → Bool → List UInt8) (add : UInt8) (k : ℕ) (tSM : UInt8) (sm : CoeSM) :
    Prop where
  type : correctSMtypeCA k tSM (if k = 2 then 0 else add) = (sm.SMtype, add)
  assign : sm.SMtype = 3 ∨ sm.SMtype = 4 →
    HasAssignCA o (ECT_SDO_PDOASSIGN + UInt16.ofNat k) sm.pdos

theorem reads_SMCA {add : UInt8} {k : ℕ} {sm : CoeSM} {st : PdoMap} {ca : CaStructs} (hca : ca.Sized)
    (h : HasSMCA o add k (byteAt ca.SMcommtype (2 + k)) sm)
    (hst : st.SMt_bug_add = if k = 2 then 0 else add) :
    ∃ ca', ObjectReads o (readSMCA k st ca) (st.step add k sm, ca') ∧ ca'.Sized ∧
      ca'.SMcommtype = ca.SMcommtype := by
  unfold readSMCA
  rw [hst, h.type, ← setSize_step add st k sm]
  dsimp only
  by_cases hpdo : sm.SMtype = 3 ∨ sm.SMtype = 4
  · obtain ⟨ca', hread, hsized, htypes⟩ := reads_PDOassignCA (h.assign hpdo) hca
    rw [if_pos hpdo, if_pos hpdo]
    exact ⟨ca', hread.bind (Query.Yields.pure _), hsized, htypes⟩
  · rw [if_neg hpdo, if_neg hpdo]
    exact ⟨ca, Query.Yields.pure _, hca, rfl⟩

theorem reads_SMsCA {add : UInt8} {sms : List CoeSM} : ∀ {k : ℕ} {st : PdoMap} {ca : CaStructs}, 2 ≤ k →
    ca.Sized → st.SMt_bug_add = (if k = 2 then 0 else add) →
    (∀ j sm, sms[j]? = some sm → HasSMCA o add (k + j) (byteAt ca.SMcommtype (2 + (k + j))) sm) →
    ∃ ca', ObjectReads o (readSMsCA sms.length k st ca) (PdoMap.steps add sms k st, ca') ∧ ca'.Sized := by
  induction sms with
  | nil =>
    intro k st ca _ hca _ _
    exact ⟨ca, Query.Yields.pure _, hca⟩
  | cons sm sms ih =>
    intro k st ca hk hca hst h
    obtain ⟨ca', hread, hsized, htypes⟩ := reads_SMCA hca (h 0 sm rfl) hst
    have hnext : (st.step add k sm).SMt_bug_add = if k + 1 = 2 then 0 else add := by
      rw [if_neg (by omega)]
      rfl
    obtain ⟨ca'', hloop, hsized'⟩ := ih (by omega) hsized hnext fun j sm' hj => by
      rw [htypes, Nat.add_assoc, Nat.add_comm 1 j]
      exact h (j + 1) sm' hj
    rw [List.length_cons, readSMsCA]
    exact ⟨ca'', hread.bind hloop, hsized'⟩

/-- The whole objects describe the sync managers `sms`, of which there are not more than a slave has. -/
structure HasSMsCA (o : UInt16 → UInt8 → Bool → List UInt8) (add : UInt8) (sms : List CoeSM) : Prop where
  count : sms.length ≤ EC_MAXSM
  object : ∃ types : List UInt8, HasObject o ECT_SDO_SMCOMMTYPE sms.length types ∧ types.length = sms.length ∧
    ∀ k sm, 2 ≤ k → sms[k]? = some sm → HasSMCA o add k (byteAt types k) sm

theorem reads_PDOmapCA {add : UInt8} {sms : List CoeSM} (h : HasSMsCA o add sms) (SM : ℕ → SyncManager)
    {ca : CaStructs} (hca : ca.Sized) :
    ∃ ca', ObjectReads o (readPDOmapCA SM ca)
      ((PdoMap.steps add (dataSMs sms) 2 ⟨SM, 0, 0, 0⟩).retVal,
        PdoMap.steps add (dataSMs sms) 2 ⟨SM, 0, 0, 0⟩, ca') ∧ ca'.Sized := by
  obtain ⟨types, hobject, htypes, hsm⟩ := h.object
  have hmax : sms.length ≤ 8 := h.count
  have hlength : (dataSMs sms).length = sms.length - 2 := by
    rw [dataSMs, List.length_drop, List.length_take, Nat.min_eq_right h.count]
  have hcommtype : ca.SMcommtype.length = 2 + 8 := hca.SMcommtype
  obtain ⟨p, hread, hlen, hn, hat⟩ := reads_struct hobject (p := ca.SMcommtype) (by omega)
  have hsized : CaStructs.Sized { ca with SMcommtype := p } := ⟨hlen.trans hca.1, hca.2, hca.3⟩
  have hcount : (byteAt p 0).toNat = sms.length := by rw [hn, toNat_count (by omega)]
  have hpos : 2 < byteAt p 0 ↔ 2 < sms.length := by
    rw [UInt8.lt_iff_toNat_lt, hcount]
    rfl
  unfold readPDOmapCA
  by_cases hdata : 2 < sms.length
  · have hloop : ∃ ca', ObjectReads o
        (readSMsCA (dataSMs sms).length 2 ⟨SM, 0, 0, 0⟩ { ca with SMcommtype := p })
        (PdoMap.steps add (dataSMs sms) 2 ⟨SM, 0, 0, 0⟩, ca') ∧ ca'.Sized := by
      refine reads_SMsCA (Nat.le_refl 2) hsized rfl fun j sm hj => ?_
      obtain ⟨-, hget⟩ := dataSMs_get hj
      have hj' : 2 + j < types.length := htypes ▸ (List.getElem?_eq_some_iff.mp hget).1
      rw [hat (2 + j) hj']
      exact hsm (2 + j) sm (Nat.le_add_right 2 j) hget
    obtain ⟨ca', hloop, hsized'⟩ := hloop
    refine ⟨ca', hread.bind ?_, hsized'⟩
    have hlimit : ObjectReads o (limitSM sms.length) sms.length := by
      rw [limitSM, if_neg (Nat.not_lt.mpr h.count)]
      exact Query.Yields.pure _
    dsimp only
    rw [if_pos ⟨Int.one_pos, hpos.mpr hdata⟩, hcount]
    refine hlimit.bind ?_
    rw [← hlength]
    exact hloop.bind (Query.Yields.pure _)
  · have hnone : dataSMs sms = [] := List.eq_nil_of_length_eq_zero (by omega)
    refine ⟨_, hread.bind ?_, hsized⟩
    dsimp only
    rw [if_neg (fun h => hdata (hpos.mp h.2)), hnone]
    exact Query.Yields.pure _

end Structures
end EcatMaster.Soem
