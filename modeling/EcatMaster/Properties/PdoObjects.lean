import EcatMaster.Properties.SdoTransfer
import EcatMaster.Soem.PdoMap

/-! # The process data in the entries of a dictionary

The reader is followed over a dictionary that describes the sync managers and their PDOs (`ObjectReads`), one
entry at a time.
-/

namespace EcatMaster.Soem
set_option autoImplicit false
open ByteBuf

/-! ## Objects -/

/-- The answers of a dictionary `o`, of single entries and of whole objects. -/
def objectAnswer (o : UInt16 → UInt8 → Bool → List UInt8) : CoeCall → ℤ × List UInt8
  | .SDOread index subindex CA p => (1, put p 0 (o index (accessSubindex CA subindex) CA))
  | .packeterror .. => (0, [])

/-- The calls without an error: what is read fits the variable. -/
def ObjectFits (o : UInt16 → UInt8 → Bool → List UInt8) : CoeCall → Prop
  | .SDOread index subindex CA p => (o index (accessSubindex CA subindex) CA).length ≤ p.length
  | .packeterror .. => False

/-- What is read in a dictionary, without an error. -/
abbrev ObjectReads (o : UInt16 → UInt8 → Bool → List UInt8) {α : Type} (q : CoeReader α) (a : α) : Prop :=
  q.Yields (objectAnswer o) (ObjectFits o) a

theorem accessSubindex_zero (CA : Bool) : accessSubindex CA 0 = 0 := by cases CA <;> rfl

theorem put_zeros {bytes : List UInt8} {k : ℕ} (h : bytes.length ≤ k) :
    put (List.replicate k 0) 0 bytes = bytes ++ List.replicate (k - bytes.length) 0 := by
  have hlen : (List.replicate k (0 : UInt8)).length = k := List.length_replicate
  apply List.ext_getElem?
  intro j
  by_cases hj : j < bytes.length
  · have hin := put_getElem?_inside (List.replicate k 0) 0 bytes j hj (by rw [hlen]; omega)
    rw [Nat.zero_add] at hin
    rw [hin, List.getElem?_append_left hj]
  · rw [put_getElem?_outside _ _ _ _ (by omega), List.getElem?_append_right (by omega),
      List.getElem?_replicate, List.getElem?_replicate]
    split
    · rw [if_pos (by omega)]
    · rw [if_neg (by omega)]

theorem leNat_append_zeros (bytes : List UInt8) (k : ℕ) : leNat (bytes ++ List.replicate k 0) = leNat bytes := by
  have hzeros : leNat (List.replicate k 0) = 0 := by
    induction k with
    | zero => rfl
    | succ k ih =>
      rw [List.replicate_succ]
      change 0 + 256 * leNat (List.replicate k 0) = 0
      rw [ih]
  induction bytes with
  | nil => exact hzeros
  | cons b bytes ih => exact congrArg (fun n => b.toNat + 256 * n) ih

section Readers
variable {o : UInt16 → UInt8 → Bool → List UInt8}

theorem reads_object {index : UInt16} {subindex : UInt8} {psize : ℕ} {bytes : List UInt8}
    (h : o index subindex false = bytes) (hlen : bytes.length ≤ psize) :
    ObjectReads o (readObject index subindex psize) (1, leNat bytes) := by
  subst h
  have hvalue : leNat (put (List.replicate psize 0) 0 (o index subindex false)) =
      leNat (o index subindex false) := by
    rw [put_zeros hlen, leNat_append_zeros]
  have hfit : ObjectFits o (.SDOread index subindex false (List.replicate psize 0)) := by
    change (o index subindex false).length ≤ (List.replicate psize (0 : UInt8)).length
    rw [List.length_replicate]
    exact hlen
  have hget : ObjectReads o (Query.get (.SDOread index subindex false (List.replicate psize 0)))
      (1, put (List.replicate psize 0) 0 (o index subindex false)) := Query.Yields.get hfit
  unfold readObject
  refine hget.bind ?_
  dsimp only
  rw [hvalue]
  exact Query.Yields.pure _

/-! ## PDOs -/

/-- A PDO with the objects that are mapped in it: the low byte of an entry is its length in bits. -/
structure CoePdo where
  index : UInt16
  entries : List UInt32
deriving Repr, DecidableEq

def CoePdo.bits (p : CoePdo) : ℕ := (p.entries.map fun e => e.toNat % 2 ^ 8).sum

structure HasPdo (o : UInt16 → UInt8 → Bool → List UInt8) (p : CoePdo) : Prop where
  index : p.index ≠ 0
  count : p.entries.length < 256
  size : o p.index 0 false = [UInt8.ofNat p.entries.length]
  entry : ∀ k e, p.entries[k]? = some e → o p.index (UInt8.ofNat (k + 1)) false = le32 e

structure HasAssign (o : UInt16 → UInt8 → Bool → List UInt8) (A : UInt16) (pdos : List CoePdo) : Prop where
  count : pdos.length < 256
  size : o A 0 false = [UInt8.ofNat pdos.length]
  pdo : ∀ k p, pdos[k]? = some p → o A (UInt8.ofNat (k + 1)) false = le16 p.index ∧ HasPdo o p

theorem toNat_count {n : ℕ} (h : n < 256) : (UInt8.ofNat n).toNat = n := by
  rw [UInt8.toNat_ofNat', Nat.mod_eq_of_lt h]

theorem leNat_byte {k : ℕ} (hk : k < 256) : leNat [UInt8.ofNat k] = k := by
  change (UInt8.ofNat k).toNat + 256 * 0 = k
  rw [toNat_count hk, Nat.mul_zero, Nat.add_zero]

theorem reads_PDOentries {idx : UInt16} {entries : List UInt32} :
    ∀ {k : ℕ} (bits : ℕ), (∀ j e, entries[j]? = some e → o idx (UInt8.ofNat (k + j)) false = le32 e) →
    ObjectReads o (readPDOentries idx entries.length k (UInt32.ofNat bits))
      (UInt32.ofNat (bits + (entries.map fun e => e.toNat % 2 ^ 8).sum)) := by
  induction entries with
  | nil =>
    intro k bits _
    exact Query.Yields.pure _
  | cons e entries ih =>
    intro k bits h
    have hfirst := h 0 e rfl
    rw [Nat.add_zero] at hfirst
    have hbits : (if e.toNat % 2 ^ 8 < 0xff then e.toNat % 2 ^ 8 else 0xff) = e.toNat % 2 ^ 8 := by
      split <;> omega
    rw [List.length_cons, readPDOentries]
    refine (reads_object hfirst (Nat.le_refl 4)).bind ?_
    dsimp only
    rw [leNat_le32, hbits, ← UInt32.ofNat_add, List.map_cons, List.sum_cons, ← Nat.add_assoc]
    refine ih _ fun j e' hj => ?_
    rw [Nat.add_assoc, Nat.add_comm 1 j]
    exact h (j + 1) e' hj

theorem reads_PDO {p : CoePdo} (h : HasPdo o p) (bits : ℕ) :
    ObjectReads o (readPDO p.index.toNat (UInt32.ofNat bits)) (UInt32.ofNat (bits + p.bits)) := by
  have hpos : 0 < p.index.toNat := by
    have hne : p.index.toNat ≠ 0 := fun h0 => h.index (UInt16.toNat_inj.mp h0)
    omega
  have hindex : UInt16.ofNat p.index.toNat = p.index := UInt16.ofNat_toNat
  unfold readPDO
  rw [if_pos hpos, hindex]
  refine (reads_object h.size (Nat.le_refl 1)).bind ?_
  dsimp only
  rw [leNat_byte h.count]
  refine reads_PDOentries bits fun j e hj => ?_
  rw [Nat.add_comm]
  exact h.entry j e hj

theorem reads_assigned {A : UInt16} {pdos : List CoePdo} :
    ∀ {k : ℕ} (bits : ℕ),
    (∀ j p, pdos[j]? = some p → o A (UInt8.ofNat (k + j)) false = le16 p.index ∧ HasPdo o p) →
    ObjectReads o (readPDOs A pdos.length k (UInt32.ofNat bits))
      (UInt32.ofNat (bits + (pdos.map CoePdo.bits).sum)) := by
  induction pdos with
  | nil =>
    intro k bits _
    exact Query.Yields.pure _
  | cons p pdos ih =>
    intro k bits h
    obtain ⟨hindex, hpdo⟩ := h 0 p rfl
    rw [Nat.add_zero] at hindex
    rw [List.length_cons, readPDOs]
    refine (reads_object hindex (Nat.le_refl 2)).bind ?_
    dsimp only
    rw [leNat_le16, List.map_cons, List.sum_cons, ← Nat.add_assoc]
    refine (reads_PDO hpdo bits).bind (ih _ fun j p' hj => ?_)
    rw [Nat.add_assoc, Nat.add_comm 1 j]
    exact h (j + 1) p' hj

theorem reads_PDOassign {A : UInt16} {pdos : List CoePdo} (h : HasAssign o A pdos) :
    ObjectReads o (readPDOassign A) (UInt32.ofNat (pdos.map CoePdo.bits).sum) := by
  unfold readPDOassign
  refine (reads_object h.size (by decide : 1 ≤ 2)).bind ?_
  dsimp only
  rw [leNat_byte h.count]
  cases pdos with
  | nil =>
    rw [if_neg (fun h => Nat.lt_irrefl 0 h.2)]
    exact Query.Yields.pure 0
  | cons p pdos =>
    have hassigned := reads_assigned (k := 1) 0 fun j p' hj => by
      rw [Nat.add_comm]
      exact h.pdo j p' hj
    rw [if_pos ⟨Int.one_pos, Nat.succ_pos _⟩]
    rw [Nat.zero_add] at hassigned
    exact hassigned

/-! ## Sync managers -/

/-- A sync manager with its (corrected) type, and the PDOs that are assigned to it. -/
structure CoeSM where
  SMtype : UInt8
  pdos : List CoePdo
deriving Repr, DecidableEq

namespace CoeSM

def bits (sm : CoeSM) : ℕ := (sm.pdos.map CoePdo.bits).sum

/-- The bits that it adds to the outputs (type 3) or to the inputs (type 4). -/
def bitsOf (SMtype : UInt8) (sm : CoeSM) : ℕ := if sm.SMtype = SMtype then sm.bits else 0

/-- The sync manager as the mapping leaves it. -/
def mapped (sm : CoeSM) (before : SyncManager) : SyncManager :=
  { before with
    SMtype := sm.SMtype.toNat
    SMlength :=
      if (sm.SMtype = 3 ∨ sm.SMtype = 4) ∧ sm.bits % 2 ^ 32 ≠ 0 then
        ((UInt32.ofNat sm.bits + 7) / 8).toNat % 2 ^ 16
      else before.SMlength }

end CoeSM

/-- The dictionary has sync manager `k`; `add` is what the slave has to be corrected by, which is seen at
sync manager 2. -/
structure HasSM (o : UInt16 → UInt8 → Bool → List UInt8) (add : UInt8) (k : ℕ) (sm : CoeSM) : Prop where
  type : ∃ tSM, o ECT_SDO_SMCOMMTYPE (UInt8.ofNat (k + 1)) false = [tSM] ∧
    correctSMtype k tSM (if k = 2 then 0 else add) = (sm.SMtype, add)
  assign : sm.SMtype = 3 ∨ sm.SMtype = 4 →
    HasAssign o (ECT_SDO_PDOASSIGN + UInt16.ofNat k) sm.pdos

def PdoMap.step (add : UInt8) (st : PdoMap) (k : ℕ) (sm : CoeSM) : PdoMap where
  SM := Function.update st.SM k (sm.mapped (st.SM k))
  Osize := st.Osize + UInt32.ofNat (sm.bitsOf 3)
  Isize := st.Isize + UInt32.ofNat (sm.bitsOf 4)
  SMt_bug_add := add

theorem setSize_step (add : UInt8) (st : PdoMap) (k : ℕ) (sm : CoeSM) :
    (if sm.SMtype = 3 ∨ sm.SMtype = 4 then
        (st.setType k sm.SMtype add).setSize k sm.SMtype (UInt32.ofNat sm.bits)
      else st.setType k sm.SMtype add) = st.step add k sm := by
  have hzero : UInt32.ofNat sm.bits = 0 ↔ sm.bits % 2 ^ 32 = 0 := by
    rw [← UInt32.toNat_inj, UInt32.toNat_ofNat']
    rfl
  unfold PdoMap.step CoeSM.mapped CoeSM.bitsOf
  by_cases hpdo : sm.SMtype = 3 ∨ sm.SMtype = 4
  · rw [if_pos hpdo]
    unfold PdoMap.setSize
    by_cases hbits : sm.bits % 2 ^ 32 = 0
    · have hofNat := hzero.mpr hbits
      rw [if_neg (not_not.mpr hofNat), if_neg (fun h => h.2 hbits)]
      simp only [PdoMap.setType, apply_ite UInt32.ofNat, hofNat]
      simp
    · have hsize : (sm.SMtype = 3 ∨ sm.SMtype = 4) ∧ sm.bits % 2 ^ 32 ≠ 0 := ⟨hpdo, hbits⟩
      rw [if_pos (mt hzero.mp hbits), if_pos hsize]
      rcases hpdo with h | h <;> simp [PdoMap.setType, h]
  · obtain ⟨h3, h4⟩ := not_or.mp hpdo
    rw [if_neg hpdo, if_neg (fun h => hpdo h.1), if_neg h3, if_neg h4]
    simp [PdoMap.setType]

theorem reads_SM {add : UInt8} {k : ℕ} {sm : CoeSM} (h : HasSM o add k sm) {st : PdoMap}
    (hst : st.SMt_bug_add = if k = 2 then 0 else add) : ObjectReads o (readSM k st) (st.step add k sm) := by
  obtain ⟨tSM, htype, hcorrect⟩ := h.type
  have hvalue : UInt8.ofNat (leNat [tSM]) = tSM := by
    change UInt8.ofNat (tSM.toNat + 256 * 0) = _
    rw [Nat.mul_zero, Nat.add_zero, UInt8.ofNat_toNat]
  unfold readSM
  refine (reads_object htype (Nat.le_refl 1)).bind ?_
  dsimp only
  rw [if_pos Int.one_pos, hvalue, hst, hcorrect, ← setSize_step add st k sm]
  dsimp only
  by_cases hpdo : sm.SMtype = 3 ∨ sm.SMtype = 4
  · rw [if_pos hpdo, if_pos hpdo]
    exact (reads_PDOassign (h.assign hpdo)).bind (Query.Yields.pure _)
  · rw [if_neg hpdo, if_neg hpdo]
    exact Query.Yields.pure _

/-- The sync managers from number `k` on. -/
def PdoMap.steps (add : UInt8) : List CoeSM → (k : ℕ) → PdoMap → PdoMap
  | [], _, st => st
  | sm :: sms, k, st => steps add sms (k + 1) (st.step add k sm)

theorem reads_SMs_coe {add : UInt8} {sms : List CoeSM} : ∀ {k : ℕ} {st : PdoMap}, 2 ≤ k →
    st.SMt_bug_add = (if k = 2 then 0 else add) → (∀ j sm, sms[j]? = some sm → HasSM o add (k + j) sm) →
    ObjectReads o (readSMs sms.length k st) (PdoMap.steps add sms k st) := by
  induction sms with
  | nil =>
    intro k st _ _ _
    exact Query.Yields.pure _
  | cons sm sms ih =>
    intro k st hk hst h
    have hnext : (st.step add k sm).SMt_bug_add = if k + 1 = 2 then 0 else add := by
      rw [if_neg (by omega)]
      rfl
    rw [List.length_cons, readSMs]
    refine (reads_SM (h 0 sm rfl) hst).bind (ih (by omega) hnext fun j sm' hj => ?_)
    rw [Nat.add_assoc, Nat.add_comm 1 j]
    exact h (j + 1) sm' hj

theorem steps_size (size : PdoMap → UInt32) (SMtype add : UInt8)
    (hstep : ∀ st k sm, size (PdoMap.step add st k sm) = size st + UInt32.ofNat (sm.bitsOf SMtype))
    (sms : List CoeSM) (k : ℕ) (st : PdoMap) :
    size (PdoMap.steps add sms k st) = size st + UInt32.ofNat (sms.map (CoeSM.bitsOf SMtype)).sum := by
  induction sms generalizing k st with
  | nil => exact (UInt32.add_zero _).symm
  | cons sm sms ih =>
    rw [PdoMap.steps, ih, hstep, List.map_cons, List.sum_cons, UInt32.ofNat_add, ← UInt32.add_assoc]

theorem steps_SM (add : UInt8) (sms : List CoeSM) (k : ℕ) (st : PdoMap) (j : ℕ) :
    (PdoMap.steps add sms k st).SM j = if j < k then st.SM j else
      match sms[j - k]? with
      | some sm => sm.mapped (st.SM j)
      | none => st.SM j := by
  induction sms generalizing k st with
  | nil => simp [PdoMap.steps]
  | cons sm sms ih =>
    rw [PdoMap.steps, ih]
    rcases Nat.lt_trichotomy j k with hlt | rfl | hgt
    · rw [if_pos (by omega), if_pos hlt]
      exact Function.update_of_ne (by omega) _ _
    · rw [if_pos (by omega), if_neg (Nat.lt_irrefl j), Nat.sub_self]
      exact Function.update_self _ _ _
    · obtain ⟨i, rfl⟩ : ∃ i, j = k + 1 + i := ⟨j - (k + 1), by omega⟩
      have hkept : (st.step add k sm).SM (k + 1 + i) = st.SM (k + 1 + i) :=
        Function.update_of_ne (by omega) _ _
      rw [if_neg (by omega), if_neg (by omega), hkept, Nat.add_sub_cancel_left,
        show k + 1 + i - k = i + 1 by omega, List.getElem?_cons_succ]

/-- The dictionary has the sync managers `sms`, of which the first two are for the mailboxes. -/
structure HasSMs (o : UInt16 → UInt8 → Bool → List UInt8) (add : UInt8) (sms : List CoeSM) : Prop where
  count : sms.length < 256
  size : o ECT_SDO_SMCOMMTYPE 0 false = [UInt8.ofNat sms.length]
  sm : ∀ k sm, 2 ≤ k → k < EC_MAXSM → sms[k]? = some sm → HasSM o add k sm

/-- The sync managers that are mapped. -/
def dataSMs (sms : List CoeSM) : List CoeSM := (sms.take EC_MAXSM).drop 2

theorem dataSMs_get {sms : List CoeSM} {j : ℕ} {sm : CoeSM} (h : (dataSMs sms)[j]? = some sm) :
    2 + j < EC_MAXSM ∧ sms[2 + j]? = some sm := by
  rw [dataSMs, List.getElem?_drop, List.getElem?_take] at h
  by_cases hlt : 2 + j < EC_MAXSM
  · rw [if_pos hlt] at h
    exact ⟨hlt, h⟩
  · rw [if_neg hlt] at h
    cases h

theorem reads_PDOmap {add : UInt8} {sms : List CoeSM} (h : HasSMs o add sms) (SM : ℕ → SyncManager) :
    ObjectReads o (readPDOmap SM)
      ((PdoMap.steps add (dataSMs sms) 2 ⟨SM, 0, 0, 0⟩).retVal,
        PdoMap.steps add (dataSMs sms) 2 ⟨SM, 0, 0, 0⟩) := by
  have hlength : (dataSMs sms).length = min sms.length EC_MAXSM - 2 := by
    rw [dataSMs, List.length_drop, List.length_take, Nat.min_comm]
  unfold readPDOmap
  refine (reads_object h.size (Nat.le_refl 1)).bind ?_
  dsimp only
  rw [leNat_byte h.count]
  by_cases hdata : 2 < sms.length
  · have hloop : ObjectReads o (readSMs (dataSMs sms).length 2 ⟨SM, 0, 0, 0⟩)
        (PdoMap.steps add (dataSMs sms) 2 ⟨SM, 0, 0, 0⟩) := by
      refine reads_SMs_coe (Nat.le_refl 2) rfl fun j sm hj => ?_
      obtain ⟨hlt, hget⟩ := dataSMs_get hj
      exact h.sm (2 + j) sm (Nat.le_add_right 2 j) hlt hget
    rw [if_pos ⟨Int.one_pos, hdata⟩, ← hlength]
    exact hloop.bind (Query.Yields.pure _)
  · have hnone : dataSMs sms = [] := List.eq_nil_of_length_eq_zero (by omega)
    rw [if_neg (fun h => hdata h.2), hnone]
    exact Query.Yields.pure _

end Readers
end EcatMaster.Soem
