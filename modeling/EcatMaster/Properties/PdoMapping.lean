import EcatMaster.Properties.ObjectDictionary
import EcatMaster.Properties.PdoCompleteAccess

/-! # The process data that an object dictionary describes

A slave is mapped as its dictionary describes it; by SDO the answers are those of the dictionary
(`coeAnswer_serves`).
-/

namespace EcatMaster.Soem
set_option autoImplicit false
open ByteBuf

/-! ## The slave behind its dictionary -/

/-- The bits of the outputs (type 3) and of the inputs (type 4). -/
def dataBits (SMtype : UInt8) (sms : List CoeSM) : ℕ := ((dataSMs sms).map (CoeSM.bitsOf SMtype)).sum

def mappedSM (sms : List CoeSM) (SM : ℕ → SyncManager) (k : ℕ) : SyncManager :=
  if k < 2 then SM k else
    match (dataSMs sms)[k - 2]? with
    | some sm => sm.mapped (SM k)
    | none => SM k

theorem CoeSM.mapped_mapped (sm : CoeSM) (before : SyncManager) :
    sm.mapped (sm.mapped before) = sm.mapped before := by
  unfold CoeSM.mapped
  split <;> rfl

theorem mappedSM_mappedSM (sms : List CoeSM) (SM : ℕ → SyncManager) :
    mappedSM sms (mappedSM sms SM) = mappedSM sms SM := by
  funext k
  unfold mappedSM
  by_cases hk : k < 2
  · rw [if_pos hk, if_pos hk]
  · rw [if_neg hk, if_neg hk]
    cases (dataSMs sms)[k - 2]? with
    | none => rfl
    | some sm => exact sm.mapped_mapped (SM k)

/-- The mapping `st` of sync managers that were `SM` before is that of `sms`. -/
structure PdoMap.Maps (sms : List CoeSM) (SM : ℕ → SyncManager) (st : PdoMap) : Prop where
  SM : st.SM = mappedSM sms SM
  Osize : st.Osize = UInt32.ofNat (dataBits 3 sms)
  Isize : st.Isize = UInt32.ofNat (dataBits 4 sms)

theorem steps_maps (add : UInt8) (sms : List CoeSM) (SM : ℕ → SyncManager) :
    (PdoMap.steps add (dataSMs sms) 2 ⟨SM, 0, 0, 0⟩).Maps sms SM where
  SM := funext (steps_SM add (dataSMs sms) 2 ⟨SM, 0, 0, 0⟩)
  Osize := by
    rw [steps_size PdoMap.Osize 3 add fun _ _ _ => rfl]
    exact UInt32.zero_add _
  Isize := by
    rw [steps_size PdoMap.Isize 4 add fun _ _ _ => rfl]
    exact UInt32.zero_add _

/-- No process data: the sizes, which are counted in 32 bits, are both zero. -/
def NoData (sms : List CoeSM) : Prop := dataBits 3 sms % 2 ^ 32 = 0 ∧ dataBits 4 sms % 2 ^ 32 = 0

theorem retVal_eq_zero {sms : List CoeSM} {SM : ℕ → SyncManager} {st : PdoMap} (h : st.Maps sms SM)
    (hval : st.retVal = 0) : NoData sms := by
  have hnone : ¬ (0 < st.Isize ∨ 0 < st.Osize) := fun h => by
    rw [PdoMap.retVal, if_pos h] at hval
    cases hval
  obtain ⟨hin, hout⟩ := not_or.mp hnone
  rw [h.Isize, UInt32.not_lt, UInt32.le_iff_toNat_le, UInt32.toNat_ofNat'] at hin
  rw [h.Osize, UInt32.not_lt, UInt32.le_iff_toNat_le, UInt32.toNat_ofNat'] at hout
  exact ⟨Nat.le_zero.mp hout, Nat.le_zero.mp hin⟩

/-- The dictionary of a slave with these `CoEdetails` describes `sms`: in whole objects if it has Complete
Access, and entry by entry if it has not, or if there are no process data. -/
structure Describes (o : UInt16 → UInt8 → Bool → List UInt8) (CoEdetails : UInt8) (sms : List CoeSM) : Prop where
  whole : CoEdetails &&& ECT_COEDET_SDOCA ≠ 0 → ∃ add, HasSMsCA o add sms
  entries : CoEdetails &&& ECT_COEDET_SDOCA = 0 ∨ NoData sms → ∃ add, HasSMs o add sms

/-- A slave with the sizes and the sync managers of its dictionary. -/
def coeMapped (sms : List CoeSM) (s : MapSlave) : MapSlave :=
  { s with
    SM := mappedSM sms s.SM
    Obits := dataBits 3 sms % 2 ^ 16
    Ibits := dataBits 4 sms % 2 ^ 16 }

section Slave
variable {o : UInt16 → UInt8 → Bool → List UInt8} {CoEdetails : UInt8} {sms : List CoeSM}

theorem reads_singly (h : ∃ add, HasSMs o add sms) (SM : ℕ → SyncManager) :
    ∃ rval st, ObjectReads o (readPDOmap SM) (rval, st) ∧ st.Maps sms SM := by
  obtain ⟨add, hsms⟩ := h
  exact ⟨_, _, reads_PDOmap hsms SM, steps_maps add sms SM⟩

theorem reads_mapping (h : Describes o CoEdetails sms) (SM : ℕ → SyncManager) {ca : CaStructs} (hca : ca.Sized) :
    ∃ st ca', ObjectReads o (readMapping CoEdetails SM ca) (st, ca') ∧ st.Maps sms SM ∧ ca'.Sized := by
  unfold readMapping
  by_cases hCA : CoEdetails &&& ECT_COEDET_SDOCA = 0
  · obtain ⟨rval, st, hread, hmaps⟩ := reads_singly (h.entries (Or.inl hCA)) SM
    rw [if_neg (not_not.mpr hCA)]
    exact ⟨st, ca, hread.bind (Query.Yields.pure _), hmaps, hca⟩
  · obtain ⟨add, hsms⟩ := h.whole hCA
    obtain ⟨ca', hread, hsized⟩ := reads_PDOmapCA hsms SM hca
    have hmaps := steps_maps add sms SM
    revert hread hmaps
    generalize PdoMap.steps add (dataSMs sms) 2 ⟨SM, 0, 0, 0⟩ = st
    intro hread hmaps
    rw [if_pos hCA]
    by_cases hval : st.retVal = 0
    · obtain ⟨rval, st', hread', hmaps'⟩ := reads_singly (h.entries (Or.inr (retVal_eq_zero hmaps hval))) st.SM
      have hagain : mappedSM sms st.SM = mappedSM sms SM := by rw [hmaps.SM, mappedSM_mappedSM]
      refine ⟨st', ca', hread.bind ?_, ⟨hmaps'.SM.trans hagain, hmaps'.Osize, hmaps'.Isize⟩, hsized⟩
      dsimp only
      rw [if_pos hval]
      exact hread'.bind (Query.Yields.pure _)
    · refine ⟨st, ca', hread.bind ?_, hmaps, hsized⟩
      dsimp only
      rw [if_neg hval]
      exact Query.Yields.pure _

theorem reads_mapCoe (h : Describes o CoEdetails sms) (s : MapSlave) {ca : CaStructs} (hca : ca.Sized) :
    ∃ ca', ObjectReads o (mapCoe CoEdetails ca s) (coeMapped sms s, ca') ∧ ca'.Sized := by
  have hword (n : ℕ) : (UInt32.ofNat n).toNat % 2 ^ 16 = n % 2 ^ 16 := by
    rw [UInt32.toNat_ofNat']
    omega
  obtain ⟨st, ca', hread, hmaps, hsized⟩ := reads_mapping h s.SM hca
  refine ⟨ca', ?_, hsized⟩
  unfold mapCoe coeMapped
  refine hread.bind ?_
  dsimp only
  rw [hmaps.SM, hmaps.Osize, hmaps.Isize, hword, hword]
  exact Query.Yields.pure _

end Slave

section Served
variable {σ : Type} {m : Mailbox σ} {view : σ → SdoServer} {timeout : ℕ}

/-- An object that fits is read as it is, without an error. -/
theorem coeAnswer_serves (h : Serves m view) {st : Coe σ} (hr : MbxSize (view st.peer).mbx_rl)
    (hobjects : ∀ i j c, (st.objects view i j c).length < 2 ^ 31) {r : CoeCall}
    (hfit : ObjectFits (st.objects view) r) :
    ∃ st', coeAnswer m timeout r st = some (objectAnswer (st.objects view) r, st') ∧
      st'.objects view = st.objects view ∧ (view st'.peer).mbx_rl = (view st.peer).mbx_rl ∧
      st'.errors = st.errors := by
  cases r with
  | packeterror Index SubIdx ErrorCode => exact hfit.elim
  | SDOread index subindex CA p =>
    have hr' : MbxSize (st.map view).peer.mbx_rl := hr
    obtain ⟨cnt, transfer, hread⟩ := sdoRead_returns timeout index subindex CA p (st.map view) hr' rfl
      (hobjects _ _ _) (Nat.le_refl p.length)
    have hfit' : ((st.map view).peer.objects index (accessSubindex CA subindex) CA).length ≤ p.length := hfit
    rw [if_pos hfit', sdoRead_view h] at hread
    obtain ⟨⟨result, st'⟩, hst', hmap⟩ := Option.map_eq_some_iff.mp hread
    obtain ⟨rfl, hpeer⟩ := Prod.mk.inj hmap
    have hobj : st'.objects view = st.objects view := congrArg (fun s => s.peer.objects) hpeer
    have hmbx : (view st'.peer).mbx_rl = (view st.peer).mbx_rl := congrArg (fun s => s.peer.mbx_rl) hpeer
    have herrors : st'.errors = st.errors := congrArg (fun s => s.errors) hpeer
    refine ⟨st', ?_, hobj, hmbx, herrors⟩
    rw [coeAnswer, hst']
    rfl

end Served

/-! A slave with two entries of outputs and one of inputs, whose types 0 1 2 3 should be 1 2 3 4. -/

def pdoSMs : List CoeSM :=
  [⟨1, []⟩, ⟨2, []⟩, ⟨3, [⟨0x1600, [0x70000120, 0x70000210]⟩]⟩, ⟨4, [⟨0x1a00, [0x60000108]⟩]⟩]

def pdoEntries : List ((UInt16 × UInt8 × Bool) × List UInt8) :=
  [((0x1c00, 0, false), [4]), ((0x1c00, 1, false), [0]), ((0x1c00, 2, false), [1]),
    ((0x1c00, 3, false), [2]), ((0x1c00, 4, false), [3]), ((0x1c00, 0, true), [4, 0, 0, 1, 2, 3]),
    ((0x1c12, 0, false), [1]), ((0x1c12, 1, false), le16 0x1600), ((0x1c12, 0, true), [1, 0] ++ le16 0x1600),
    ((0x1c13, 0, false), [1]), ((0x1c13, 1, false), le16 0x1a00), ((0x1c13, 0, true), [1, 0] ++ le16 0x1a00),
    ((0x1600, 0, false), [2]), ((0x1600, 1, false), le32 0x70000120), ((0x1600, 2, false), le32 0x70000210),
    ((0x1600, 0, true), [2, 0] ++ le32 0x70000120 ++ le32 0x70000210),
    ((0x1a00, 0, false), [1]), ((0x1a00, 1, false), le32 0x60000108),
    ((0x1a00, 0, true), [1, 0] ++ le32 0x60000108)]

def pdoObjects (i : UInt16) (j : UInt8) (CA : Bool) : List UInt8 :=
  ((pdoEntries.find? fun e => e.1 = (i, j, CA)).map Prod.snd).getD []

theorem pdoObjects_length (i : UInt16) (j : UInt8) (CA : Bool) : (pdoObjects i j CA).length < 2 ^ 31 := by
  have hsmall : ∀ e ∈ pdoEntries, e.2.length ≤ 10 := by decide
  unfold pdoObjects
  cases hfind : pdoEntries.find? fun e => e.1 = (i, j, CA) with
  | none => decide
  | some e => exact Nat.lt_of_le_of_lt (hsmall e (List.mem_of_find?_eq_some hfind)) (by decide)

theorem pdoObjects_entries : HasSMs pdoObjects 1 pdoSMs := by
  have houtputs : HasPdo pdoObjects ⟨0x1600, [0x70000120, 0x70000210]⟩ := by
    refine ⟨by decide, by decide, by decide, fun k e hk => ?_⟩
    match k with
    | 0 => cases hk; decide
    | 1 => cases hk; decide
    | k + 2 => cases hk
  have hinputs : HasPdo pdoObjects ⟨0x1a00, [0x60000108]⟩ := by
    refine ⟨by decide, by decide, by decide, fun k e hk => ?_⟩
    match k with
    | 0 => cases hk; decide
    | k + 1 => cases hk
  refine ⟨by decide, by decide, fun k sm h2 _ hk => ?_⟩
  match k with
  | 0 | 1 => omega
  | 2 =>
    cases hk
    refine ⟨⟨2, by decide, by decide⟩, fun _ => ⟨by decide, by decide, fun j p hj => ?_⟩⟩
    match j with
    | 0 => cases hj; exact ⟨by decide, houtputs⟩
    | j + 1 => cases hj
  | 3 =>
    cases hk
    refine ⟨⟨3, by decide, by decide⟩, fun _ => ⟨by decide, by decide, fun j p hj => ?_⟩⟩
    match j with
    | 0 => cases hj; exact ⟨by decide, hinputs⟩
    | j + 1 => cases hj
  | k + 4 => cases hk

theorem pdoObjects_whole : HasSMsCA pdoObjects 1 pdoSMs := by
  have houtputs : HasPdoCA pdoObjects ⟨0x1600, [0x70000120, 0x70000210]⟩ :=
    ⟨by decide, by decide, 0, by decide⟩
  have hinputs : HasPdoCA pdoObjects ⟨0x1a00, [0x60000108]⟩ := ⟨by decide, by decide, 0, by decide⟩
  refine ⟨by decide, [0, 1, 2, 3], ⟨0, by decide⟩, by decide, fun k sm h2 hk => ?_⟩
  match k with
  | 0 | 1 => omega
  | 2 =>
    cases hk
    refine ⟨by decide, fun _ => ⟨by decide, ⟨0, by decide⟩, fun p hp => ?_⟩⟩
    rw [List.mem_singleton] at hp
    exact hp ▸ houtputs
  | 3 =>
    cases hk
    refine ⟨by decide, fun _ => ⟨by decide, ⟨0, by decide⟩, fun p hp => ?_⟩⟩
    rw [List.mem_singleton] at hp
    exact hp ▸ hinputs
  | k + 4 => cases hk

def pdoSlave : Coe SdoServer := ⟨1, [], ⟨pdoObjects, .idle, some .clear, 128⟩⟩

def unmappedSlave : MapSlave :=
  ⟨0, 0, none, 0, 0, 0, none, 0, fun _ => ⟨0, 0, 0⟩, fun _ => ⟨0, 0, 0, 0, 0, 0, 0, 0⟩, 0, 0⟩

def clearStructs : CaStructs :=
  ⟨List.replicate (2 + EC_MAXSM) 0, List.replicate (2 + 2 * 256) 0, List.replicate (2 + 4 * 256) 0⟩

end EcatMaster.Soem
