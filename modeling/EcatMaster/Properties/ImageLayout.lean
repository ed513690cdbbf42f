import EcatMaster.Soem.ConfigMap

/-! # Where the slaves' data lies in the process image

Counted in bits, the mapping of one direction of a slave is the placement of one area: at the next
byte for a slave with whole bytes, at the next bit for one with less than 8 bits (`placed_outputs`,
`placed_inputs`). So over all slaves the areas follow each other without overlapping.
-/

namespace EcatMaster.Soem
set_option autoImplicit false
open Placement

/-- The number of a bit in the logical address space. -/
def LogPos.index (p : LogPos) : ℕ := 8 * p.LogAddr + p.BitPos

/-- The area a direction asks for. -/
def Direction.item (d : Direction) : Item := ⟨decide (d.bytes ≠ 0), if d.bytes ≠ 0 then 8 * d.bytes else d.bits⟩

/-- A slave with less than 8 bits has no bytes, another one has enough for its bits. -/
def Direction.Sized (d : Direction) : Prop :=
  if 7 < d.bits then d.bytes = (d.bits + 7) / 8 else d.bytes = 0

section Round
variable {p : LogPos}

theorem round_LogAddr (h : p.BitPos ≤ 7) : 8 * p.round.LogAddr = alignUp 8 p.index := by
  unfold LogPos.round LogPos.index alignUp
  split
  · simp only []
    omega
  · omega

theorem round_BitPos (p : LogPos) : p.round.BitPos = 0 := by
  unfold LogPos.round
  split
  · rfl
  · omega

theorem round_of_bit (h : p.BitPos = 0) : p.round = p := if_neg (not_not.mpr h)

theorem carry_index (p : LogPos) : p.carry.index = p.index := by
  unfold LogPos.carry LogPos.index
  split
  · simp only []
    omega
  · rfl

theorem carry_BitPos (h : p.BitPos ≤ 15) : p.carry.BitPos ≤ 7 := by
  unfold LogPos.carry
  split
  · simp only []
    omega
  · omega

end Round

section Fmmus
variable {SM : ℕ → SyncManager} {d : Direction} {fuel base : ℕ} {st st' : MapLoop}

/-- The loop over the FMMUs of a direction with whole bytes that starts at address `base`. -/
structure BytesLoop (d : Direction) (base first : ℕ) (st : MapLoop) : Prop where
  done_le : st.FMMUdone ≤ d.bytes
  addr : st.pos.round.LogAddr = base + st.FMMUdone
  bit : st.FMMUdone ≠ 0 → st.pos.BitPos = 0
  /-- the FMMUs programmed so far, and what they map -/
  count : first ≤ st.FMMUc
  inside : ∀ n, first ≤ n → n < st.FMMUc →
    base ≤ (st.FMMU n).LogStart ∧ (st.FMMU n).LogStart + (st.FMMU n).LogLength ≤ base + st.FMMUdone
  covered : ∀ j < st.FMMUdone, ∃ n, first ≤ n ∧ n < st.FMMUc ∧ (st.FMMU n).FMMUactive = 1 ∧
    (st.FMMU n).FMMUtype = d.fmmutype ∧ (st.FMMU n).LogStart ≤ base + j ∧
    base + j < (st.FMMU n).LogStart + (st.FMMU n).LogLength

/-- The bytes one FMMU maps when the sync managers counted hold `bytes`. -/
def fmmuSize (d : Direction) (bytes FMMUdone : ℕ) : ℕ :=
  if d.bytes < bytes + FMMUdone then d.bytes - FMMUdone else bytes

section Program
variable {PhysStart : ℕ} {scan : SmScan}

theorem fmmuArea_bytes (hpos : d.bytes ≠ 0) (bytes FMMUdone : ℕ) (pos : LogPos) :
    fmmuArea d bytes FMMUdone pos =
      ({ Fmmu.init with
          LogStart := pos.round.LogAddr
          LogStartbit := 0
          LogLength := fmmuSize d bytes FMMUdone
          LogEndbit := 7 }, ⟨pos.round.LogAddr + fmmuSize d bytes FMMUdone, 0⟩) := by
  have h : fmmuArea d bytes FMMUdone pos = ({ Fmmu.init with
      LogStart := pos.round.LogAddr
      LogStartbit := pos.round.BitPos
      LogLength := fmmuSize d bytes FMMUdone
      LogEndbit := 7 }, ⟨pos.round.LogAddr + fmmuSize d bytes FMMUdone, 0⟩) := if_neg hpos
  rw [h, round_BitPos]

theorem programFmmu_self (PhysStart : ℕ)
    (hsize : (fmmuArea d scan.ByteCount st.FMMUdone st.pos).1.LogLength ≠ 0) :
    (programFmmu d PhysStart scan st).FMMU st.FMMUc =
      { (fmmuArea d scan.ByteCount st.FMMUdone st.pos).1 with
        PhysStart := PhysStart, PhysStartBit := 0, FMMUtype := d.fmmutype, FMMUactive := 1 } := by
  simp only [programFmmu, Function.update_self, if_pos hsize]

theorem programFmmu_other {n : ℕ} (h : n ≠ st.FMMUc) :
    (programFmmu d PhysStart scan st).FMMU n = st.FMMU n := Function.update_of_ne h _ _

theorem BytesLoop.program {first : ℕ} (h : BytesLoop d base first st) (hpos : d.bytes ≠ 0)
    (hmore : st.FMMUdone < d.bytes) : BytesLoop d base first (programFmmu d PhysStart scan st) := by
  have harea := fmmuArea_bytes hpos scan.ByteCount st.FMMUdone st.pos
  have hsize : st.FMMUdone + fmmuSize d scan.ByteCount st.FMMUdone ≤ d.bytes := by
    unfold fmmuSize
    split <;> omega
  have hdone : (programFmmu d PhysStart scan st).FMMUdone =
      st.FMMUdone + fmmuSize d scan.ByteCount st.FMMUdone := by
    simp only [programFmmu, harea]
  have hnext : (programFmmu d PhysStart scan st).pos =
      ⟨st.pos.round.LogAddr + fmmuSize d scan.ByteCount st.FMMUdone, 0⟩ := by
    simp only [programFmmu, harea]
  have hstart : ((programFmmu d PhysStart scan st).FMMU st.FMMUc).LogStart = st.pos.round.LogAddr ∧
      ((programFmmu d PhysStart scan st).FMMU st.FMMUc).LogLength =
        fmmuSize d scan.ByteCount st.FMMUdone := by
    simp only [programFmmu, Function.update_self, harea, and_self]
  have hcount : (programFmmu d PhysStart scan st).FMMUc = st.FMMUc + 1 := rfl
  have hfirst := h.count
  have haddr := h.addr
  refine ⟨by omega, ?_, fun _ => by rw [hnext], by omega, ?_, ?_⟩
  · rw [hnext, round_of_bit rfl, hdone]
    simp only []
    omega
  · intro n hlow hhigh
    rcases Nat.eq_or_lt_of_le (show n ≤ st.FMMUc by omega) with rfl | hlt
    · omega
    · rw [programFmmu_other (by omega), hdone]
      have := h.inside n hlow hlt
      omega
  · intro j hj
    rcases Nat.lt_or_ge j st.FMMUdone with hlt | hge
    · obtain ⟨n, hlow, hhigh, hrest⟩ := h.covered j hlt
      refine ⟨n, hlow, by omega, ?_⟩
      rw [programFmmu_other (by omega)]
      exact hrest
    · have hself := programFmmu_self PhysStart
        (show (fmmuArea d scan.ByteCount st.FMMUdone st.pos).1.LogLength ≠ 0 by
          rw [harea]
          simp only []
          omega)
      refine ⟨st.FMMUc, by omega, by omega, ?_, ?_, by omega, by omega⟩
      · rw [hself]
      · rw [hself]

end Program

/-- The loop ends with all the bytes mapped, from the address it started at. -/
theorem mapFmmus_bytes {first : ℕ} (hpos : d.bytes ≠ 0) (hbits : d.bytes = (d.bits + 7) / 8)
    (h : BytesLoop d base first st) (hrun : mapFmmus SM d fuel st = some st') :
    BytesLoop d base first st' ∧ st'.FMMUdone = d.bytes := by
  induction fuel generalizing st with
  | zero =>
    unfold mapFmmus at hrun
    split at hrun
    · cases hrun
    · cases hrun
      have := h.done_le
      exact ⟨h, by omega⟩
  | succ fuel ih =>
    unfold mapFmmus at hrun
    split at hrun
    · exact ih (h.program hpos (by omega)) hrun
    · cases hrun
      have := h.done_le
      exact ⟨h, by omega⟩

theorem mapFmmus_mapped {m : ℕ × ℕ} (h : st.mapped = some m)
    (hrun : mapFmmus SM d fuel st = some st') : st'.mapped = some m := by
  induction fuel generalizing st with
  | zero =>
    unfold mapFmmus at hrun
    split at hrun
    · cases hrun
    · cases hrun
      exact h
  | succ fuel ih =>
    unfold mapFmmus at hrun
    split at hrun
    · apply ih _ hrun
      show st.mapped.orElse _ = some m
      rw [h]
      rfl
    · cases hrun
      exact h

theorem mapFmmus_first {c : ℕ} {FMMU : ℕ → Fmmu} {pos : LogPos} {mapped : Option (ℕ × ℕ)}
    (hbits : d.bits ≠ 0) (hrun : mapFmmus SM d fuel (.start c FMMU pos mapped) = some st') :
    ∃ fuel', fuel = fuel' + 1 ∧ mapFmmus SM d fuel' (mapFmmu SM d (.start c FMMU pos mapped)) = some st' := by
  have hmore : (MapLoop.start c FMMU pos mapped).FMMUdone < (d.bits + 7) / 8 := by
    simp only [MapLoop.start]
    omega
  cases fuel with
  | zero =>
    rw [mapFmmus, if_pos hmore] at hrun
    cases hrun
  | succ fuel =>
    rw [mapFmmus, if_pos hmore] at hrun
    exact ⟨fuel, rfl, hrun⟩

theorem mapFmmus_done (h : (d.bits + 7) / 8 ≤ st.FMMUdone) : mapFmmus SM d fuel st = some st := by
  unfold mapFmmus
  exact if_neg (by omega)

/-- Less than 8 bits take one FMMU, and the next bits. -/
theorem fmmuArea_bits (hbytes : d.bytes = 0) (hbits : d.bits ≠ 0) (hfew : d.bits ≤ 7) {pos : LogPos}
    (hpos : pos.BitPos ≤ 7) (bytes FMMUdone : ℕ) :
    (fmmuArea d bytes FMMUdone pos).1.LogStart = pos.LogAddr ∧
    (fmmuArea d bytes FMMUdone pos).1.LogStartbit = pos.BitPos ∧
    (fmmuArea d bytes FMMUdone pos).1.LogLength ≠ 0 ∧
    (fmmuArea d bytes FMMUdone pos).2.index = pos.index + d.bits ∧
    (fmmuArea d bytes FMMUdone pos).2.BitPos ≤ 7 := by
  have hlast := carry_BitPos (p := ⟨pos.LogAddr, pos.BitPos + (d.bits - 1)⟩) (by simp only []; omega)
  have hindex := carry_index ⟨pos.LogAddr, pos.BitPos + (d.bits - 1)⟩
  unfold fmmuArea
  rw [if_pos hbytes]
  refine ⟨rfl, rfl, Nat.succ_ne_zero _, ?_, ?_⟩
  · simp only [carry_index]
    simp only [LogPos.index] at hindex ⊢
    omega
  · exact carry_BitPos (by simp only []; omega)

/-- One direction of a slave is placed as one area. -/
theorem mapFmmus_placed {c : ℕ} {FMMU : ℕ → Fmmu} {pos : LogPos} (hsized : d.Sized)
    (hbits : d.bits ≠ 0) (hpos : pos.BitPos ≤ 7)
    (hrun : mapFmmus SM d fuel (.start c FMMU pos none) = some st') :
    st'.pos.BitPos ≤ 7 ∧ st'.pos.index = d.item.start 8 pos.index + d.item.length ∧
    ∃ addr bit, st'.mapped = some (addr, bit) ∧ bit ≤ 7 ∧ 8 * addr + bit = d.item.start 8 pos.index := by
  obtain ⟨fuel', rfl, hrest⟩ := mapFmmus_first hbits hrun
  unfold Direction.Sized at hsized
  by_cases hbytes : d.bytes = 0
  · have hfew : d.bits ≤ 7 := by
      by_contra h
      rw [if_pos (by omega)] at hsized
      omega
    have hitem : d.item = ⟨false, d.bits⟩ := by simp [Direction.item, hbytes]
    obtain ⟨hstart, hbit, hlen, hindex, hnext⟩ := fmmuArea_bits hbytes hbits hfew hpos
      (gatherSm SM d.smtype d.bits EC_MAXSM (SmScan.add SM (nextSm SM d.smtype EC_MAXSM 0)
        ⟨0, 0, 0, 0⟩)).ByteCount 0
    rw [mapFmmus_done] at hrest
    · cases hrest
      refine ⟨hnext, ?_, pos.LogAddr, pos.BitPos, ?_, hpos, ?_⟩
      · rw [hitem]
        exact hindex
      · exact congrArg some (Prod.ext hstart hbit)
      · rw [hitem]
        rfl
    · show _ ≤ 0 + _
      have : (d.bits + 7) / 8 = 1 := by omega
      rw [this, Nat.zero_add]
      exact Nat.one_le_iff_ne_zero.mpr hlen
  · have hwhole : d.bytes = (d.bits + 7) / 8 := by
      split at hsized
      · exact hsized
      · omega
    have hitem : d.item = ⟨true, 8 * d.bytes⟩ := by simp [Direction.item, hbytes]
    have hbegin : BytesLoop d pos.round.LogAddr c (.start c FMMU pos none) :=
      ⟨Nat.zero_le _, rfl, fun h => absurd rfl h, Nat.le_refl c,
        fun n hlow hhigh => absurd hhigh (by simp only [MapLoop.start]; omega),
        fun j hj => absurd hj (Nat.not_lt_zero j)⟩
    obtain ⟨hloop, hdone⟩ := mapFmmus_bytes hbytes hwhole hbegin hrun
    have hbit := hloop.bit (by omega)
    have haddr := hloop.addr
    rw [round_of_bit hbit, hdone] at haddr
    have hround := round_LogAddr hpos
    have hmapped : (mapFmmu SM d (.start c FMMU pos none)).mapped = some (pos.round.LogAddr, 0) := by
      unfold mapFmmu programFmmu
      simp only [fmmuArea_bytes hbytes]
      rfl
    refine ⟨by omega, ?_, pos.round.LogAddr, 0, mapFmmus_mapped hmapped hrest, by omega, ?_⟩
    · rw [hitem]
      simp only [LogPos.index, hbit, Item.start, if_true]
      simp only [LogPos.index] at hround
      omega
    · rw [hitem]
      exact hround

end Fmmus
namespace MapSlave

def outDir (s : MapSlave) : Direction := ⟨3, 2, s.Obits, s.Obytes⟩

def inDir (s : MapSlave) : Direction := ⟨4, 1, s.Ibits, s.Ibytes⟩

/-- Where the slave's outputs are in the image, in bits. -/
def outArea (s : MapSlave) : Option Area :=
  s.outputs.map fun o => ⟨8 * o + s.Ostartbit, s.outDir.item.length⟩

def inArea (s : MapSlave) : Option Area :=
  s.inputs.map fun i => ⟨8 * i + s.Istartbit, s.inDir.item.length⟩

/-- A slave that has not been mapped yet. -/
structure Fresh (s : MapSlave) : Prop where
  Obytes : s.Obytes = 0
  Ibytes : s.Ibytes = 0
  outputs : s.outputs = none
  inputs : s.inputs = none

/-- What the mapping of the outputs does not touch, and that the outputs have a place. -/
structure SameInputs (s s' : MapSlave) : Prop where
  dir : s'.inDir = s.inDir
  inputs : s'.inputs = s.inputs
  area : s'.inArea = s.inArea
  outDir : s'.outDir = s.outDir
  blockLRW : s'.blockLRW = s.blockLRW
  placed : s.Obits ≠ 0 → ∃ start, s'.outArea = some ⟨start, s.outDir.item.length⟩

/-- What the mapping of the inputs does not touch, and that the inputs have a place. -/
structure SameOutputs (s s' : MapSlave) : Prop where
  dir : s'.outDir = s.outDir
  outputs : s'.outputs = s.outputs
  area : s'.outArea = s.outArea
  inDir : s'.inDir = s.inDir
  blockLRW : s'.blockLRW = s.blockLRW
  placed : s.Ibits ≠ 0 → ∃ start, s'.inArea = some ⟨start, s.inDir.item.length⟩

theorem Fresh.sized {s : MapSlave} (h : s.Fresh) : (mapSm s).outDir.Sized ∧ (mapSm s).inDir.Sized := by
  have ho := h.Obytes
  have hi := h.Ibytes
  unfold Direction.Sized outDir inDir mapSm
  constructor
  · simp only []
    split <;> simp_all
  · simp only []
    split <;> simp_all

end MapSlave

section Slave
variable {s s' : MapSlave} {pos pos' : LogPos}

theorem placed_outputs (hsized : s.outDir.Sized) (hnull : s.outputs = none) (hbits : s.Obits ≠ 0)
    (hpos : pos.BitPos ≤ 7) (h : createOutputMappings s pos = some (s', pos')) :
    pos'.BitPos ≤ 7 ∧ pos'.index = s.outDir.item.start 8 pos.index + s.outDir.item.length ∧
    s'.outArea = some ⟨s.outDir.item.start 8 pos.index, s.outDir.item.length⟩ ∧ s.SameInputs s' := by
  unfold createOutputMappings at h
  rw [hnull] at h
  obtain ⟨st, hrun, hst⟩ := Option.map_eq_some_iff.mp h
  obtain ⟨hbit, hindex, addr, bit, hmapped, -, hplace⟩ :=
    mapFmmus_placed (d := s.outDir) hsized hbits hpos hrun
  cases hst
  rw [← hplace]
  refine ⟨hbit, by rw [hplace, hindex], ?_, ⟨rfl, rfl, rfl, rfl, rfl, fun _ => ⟨8 * addr + bit, ?_⟩⟩⟩
  all_goals
    simp only [MapSlave.outArea, hmapped, Option.map_some, Option.getD_some]
    rfl

theorem placed_inputs (hsized : s.inDir.Sized) (hnull : s.inputs = none) (hbits : s.Ibits ≠ 0)
    (hpos : pos.BitPos ≤ 7) (h : createInputMappings s pos = some (s', pos')) :
    pos'.BitPos ≤ 7 ∧ pos'.index = s.inDir.item.start 8 pos.index + s.inDir.item.length ∧
    s'.inArea = some ⟨s.inDir.item.start 8 pos.index, s.inDir.item.length⟩ ∧ s.SameOutputs s' := by
  unfold createInputMappings at h
  rw [hnull] at h
  obtain ⟨st, hrun, hst⟩ := Option.map_eq_some_iff.mp h
  obtain ⟨hbit, hindex, addr, bit, hmapped, -, hplace⟩ :=
    mapFmmus_placed (d := s.inDir) hsized hbits hpos hrun
  cases hst
  rw [← hplace]
  refine ⟨hbit, by rw [hplace, hindex], ?_, ⟨rfl, rfl, rfl, rfl, rfl, fun _ => ⟨8 * addr + bit, ?_⟩⟩⟩
  all_goals
    simp only [MapSlave.inArea, hmapped, Option.map_some, Option.getD_some]
    rfl

end Slave

section Slaves
variable {bits : MapSlave → ℕ} {create : MapSlave → LogPos → Option (MapSlave × LogPos)}
  {dir : MapSlave → Direction} {area : MapSlave → Option Area} {P : MapSlave → Prop}
  {R : MapSlave → MapSlave → Prop} {slaves slaves' : List MapSlave} {st st' : MapState}

def items (bits : MapSlave → ℕ) (dir : MapSlave → Direction) (slaves : List MapSlave) : List Item :=
  slaves.filterMap fun s => if bits s = 0 then none else some (dir s).item

/-- If every slave is placed as one area, all of them are placed one after the other. -/
theorem mapSlaves_placed (hcreate : ∀ s pos s' pos', P s → bits s ≠ 0 → pos.BitPos ≤ 7 →
      create s pos = some (s', pos') →
      pos'.BitPos ≤ 7 ∧ pos'.index = (dir s).item.start 8 pos.index + (dir s).item.length ∧
      area s' = some ⟨(dir s).item.start 8 pos.index, (dir s).item.length⟩ ∧ R s s')
    (hnone : ∀ s, P s → bits s = 0 → area s = none ∧ R s s)
    (hok : ∀ s ∈ slaves, P s) (hpos : st.pos.BitPos ≤ 7)
    (h : mapSlaves bits create slaves st = some (slaves', st')) :
    st'.pos.BitPos ≤ 7 ∧ st'.pos.index = finish 8 (items bits dir slaves) st.pos.index ∧
    slaves'.filterMap area = areas 8 (items bits dir slaves) st.pos.index ∧
    List.Forall₂ R slaves slaves' := by
  induction slaves generalizing st slaves' with
  | nil =>
    cases h
    exact ⟨hpos, rfl, rfl, List.Forall₂.nil⟩
  | cons s slaves ih =>
    obtain ⟨⟨s', mid⟩, hone, hrest⟩ := Option.bind_eq_some_iff.mp h
    obtain ⟨⟨rest, last⟩, hrun, heq⟩ := Option.map_eq_some_iff.mp hrest
    cases heq
    have hs := hok s List.mem_cons_self
    have hoks : ∀ t ∈ slaves, P t := fun t ht => hok t (List.mem_cons_of_mem s ht)
    unfold mapSlave at hone
    by_cases hbits : bits s = 0
    · rw [if_pos hbits] at hone
      cases hone
      obtain ⟨hb, hi, ha, hf⟩ := ih hoks hpos hrun
      obtain ⟨harea, hsame⟩ := hnone s hs hbits
      have hitems : items bits dir (s :: slaves) = items bits dir slaves := by
        simp [items, hbits]
      rw [hitems, List.filterMap_cons_none harea]
      exact ⟨hb, hi, ha, List.Forall₂.cons hsame hf⟩
    · rw [if_neg hbits] at hone
      obtain ⟨⟨s'', pos'⟩, hc, heq⟩ := Option.map_eq_some_iff.mp hone
      cases heq
      obtain ⟨hb, hi, harea, hsame⟩ := hcreate s st.pos s' pos' hs hbits hpos hc
      obtain ⟨hb', hi', ha', hf⟩ := ih hoks hb hrun
      have hitems : items bits dir (s :: slaves) = (dir s).item :: items bits dir slaves := by
        simp [items, hbits]
      rw [hitems, List.filterMap_cons_some harea]
      simp only [finish, areas]
      rw [← hi]
      exact ⟨hb', hi', by rw [ha'], List.Forall₂.cons hsame hf⟩

end Slaves

section Image
variable {slaves slaves' mid : List MapSlave} {st st' : MapState} {g : MapGroup}

theorem mapOutputs_placed (hok : ∀ s ∈ slaves, s.outDir.Sized ∧ s.outputs = none)
    (hpos : st.pos.BitPos ≤ 7) (h : mapOutputs slaves st = some (slaves', st')) :
    st'.pos.BitPos ≤ 7 ∧ st'.pos.index = finish 8 (items MapSlave.Obits MapSlave.outDir slaves) st.pos.index ∧
    slaves'.filterMap MapSlave.outArea =
      areas 8 (items MapSlave.Obits MapSlave.outDir slaves) st.pos.index ∧
    List.Forall₂ MapSlave.SameInputs slaves slaves' := by
  apply mapSlaves_placed (P := fun s => s.outDir.Sized ∧ s.outputs = none) _ _ hok hpos h
  · rintro s pos s' pos' ⟨hsized, hnull⟩ hbits hbit hc
    exact placed_outputs hsized hnull hbits hbit hc
  · rintro s ⟨-, hnull⟩ hbits
    exact ⟨by rw [MapSlave.outArea, hnull, Option.map_none],
      ⟨rfl, rfl, rfl, rfl, rfl, fun h => absurd hbits h⟩⟩

theorem mapInputs_placed (hok : ∀ s ∈ slaves, s.inDir.Sized ∧ s.inputs = none)
    (hpos : st.pos.BitPos ≤ 7) (h : mapInputs slaves st = some (slaves', st')) :
    st'.pos.BitPos ≤ 7 ∧ st'.pos.index = finish 8 (items MapSlave.Ibits MapSlave.inDir slaves) st.pos.index ∧
    slaves'.filterMap MapSlave.inArea =
      areas 8 (items MapSlave.Ibits MapSlave.inDir slaves) st.pos.index ∧
    List.Forall₂ MapSlave.SameOutputs slaves slaves' := by
  apply mapSlaves_placed (P := fun s => s.inDir.Sized ∧ s.inputs = none) _ _ hok hpos h
  · rintro s pos s' pos' ⟨hsized, hnull⟩ hbits hbit hc
    exact placed_inputs hsized hnull hbits hbit hc
  · rintro s ⟨-, hnull⟩ hbits
    exact ⟨by rw [MapSlave.inArea, hnull, Option.map_none],
      ⟨rfl, rfl, rfl, rfl, rfl, fun h => absurd hbits h⟩⟩

theorem roundUp_pos (hpos : st.pos.BitPos ≤ 7) :
    st.roundUp.pos.BitPos = 0 ∧ 8 * st.roundUp.pos.LogAddr = alignUp 8 st.pos.index := by
  have hround := round_LogAddr hpos
  unfold MapState.roundUp
  split
  · exact ⟨round_BitPos _, hround⟩
  · rename_i hbit
    have hbit : st.pos.BitPos = 0 := not_not.mp hbit
    rw [round_of_bit hbit] at hround
    exact ⟨hbit, hround⟩

/-- What a relation between the slaves of two lists keeps, the lists have in common. -/
theorem filterMap_eq_of_forall₂ {α β : Type} {R : α → α → Prop} {f : α → Option β} {l l' : List α}
    (h : List.Forall₂ R l l') (hf : ∀ a b, R a b → f b = f a) : l'.filterMap f = l.filterMap f := by
  induction h with
  | nil => rfl
  | cons hab _ ih => simp only [List.filterMap_cons, hf _ _ hab, ih]

theorem exists_of_forall₂_mem {α β : Type} {R : α → β → Prop} {l : List α} {l' : List β}
    (h : List.Forall₂ R l l') {b : β} (hb : b ∈ l') : ∃ a ∈ l, R a b := by
  induction h with
  | nil => cases hb
  | cons hab _ ih =>
    rcases List.mem_cons.mp hb with rfl | hb
    · exact ⟨_, List.mem_cons_self, hab⟩
    · obtain ⟨a, ha, hr⟩ := ih hb
      exact ⟨a, List.mem_cons_of_mem _ ha, hr⟩

theorem fresh_outputs (hfresh : ∀ s ∈ slaves, s.Fresh) :
    ∀ s ∈ slaves.map mapSm, s.outDir.Sized ∧ s.outputs = none := by
  intro s hs
  obtain ⟨t, ht, rfl⟩ := List.mem_map.mp hs
  exact ⟨(hfresh t ht).sized.1, (hfresh t ht).outputs⟩

theorem fresh_inputs (hfresh : ∀ s ∈ slaves, s.Fresh)
    (hsame : List.Forall₂ MapSlave.SameInputs (slaves.map mapSm) mid) :
    ∀ s ∈ mid, s.inDir.Sized ∧ s.inputs = none := by
  intro s hs
  obtain ⟨a, ha, hr⟩ := exists_of_forall₂_mem hsame hs
  obtain ⟨t, ht, rfl⟩ := List.mem_map.mp ha
  rw [hr.dir, hr.inputs]
  exact ⟨(hfresh t ht).sized.2, (hfresh t ht).inputs⟩

/-- The two loops over the slaves, and where they end. -/
theorem configMapGroup_loops (hfresh : ∀ s ∈ slaves, s.Fresh)
    (h : configMapGroup slaves = some (slaves', g)) : ∃ mid,
    List.Forall₂ MapSlave.SameInputs (slaves.map mapSm) mid ∧
    List.Forall₂ MapSlave.SameOutputs mid slaves' ∧
    (let outs := items MapSlave.Obits MapSlave.outDir (slaves.map mapSm)
    let ins := items MapSlave.Ibits MapSlave.inDir (slaves.map mapSm)
    slaves'.filterMap MapSlave.outArea = areas 8 outs 0 ∧
    slaves'.filterMap MapSlave.inArea = areas 8 ins (8 * g.Obytes) ∧
    8 * g.Obytes = alignUp 8 (finish 8 outs 0) ∧
    8 * (g.Obytes + g.Ibytes) = alignUp 8 (finish 8 ins (8 * g.Obytes))) := by
  obtain ⟨⟨mid, st⟩, hout, hrest⟩ := Option.bind_eq_some_iff.mp h
  obtain ⟨⟨last, st'⟩, hin, heq⟩ := Option.map_eq_some_iff.mp hrest
  cases heq
  obtain ⟨hbit, hindex, hareas, hsame⟩ := mapOutputs_placed (fresh_outputs hfresh) (Nat.zero_le 7) hout
  obtain ⟨hbit0, haddr⟩ := roundUp_pos hbit
  have hitems : items MapSlave.Ibits MapSlave.inDir mid =
      items MapSlave.Ibits MapSlave.inDir (slaves.map mapSm) := by
    apply filterMap_eq_of_forall₂ hsame
    intro s s' hr
    have hbits : s'.Ibits = s.Ibits := congrArg Direction.bits hr.dir
    rw [hbits, hr.dir]
  obtain ⟨hbit', hindex', hareas', hsame'⟩ := mapInputs_placed (fresh_inputs hfresh hsame)
    (by simp only []; omega) hin
  obtain ⟨-, haddr'⟩ := roundUp_pos hbit'
  have hstart : st.roundUp.pos.index = 8 * st.roundUp.pos.LogAddr := by
    rw [LogPos.index, hbit0, Nat.add_zero]
  simp only [hitems, hstart] at hindex' hareas'
  refine ⟨mid, hsame, hsame', ?_, hareas', ?_, ?_⟩
  · rw [filterMap_eq_of_forall₂ hsame' fun _ _ hr => hr.area]
    exact hareas
  · rw [haddr, hindex]
    rfl
  · have hle : st.roundUp.pos.LogAddr ≤ st'.roundUp.pos.LogAddr := by
      have h1 := le_finish (show 0 < 8 by omega) (items MapSlave.Ibits MapSlave.inDir (slaves.map mapSm))
        (8 * st.roundUp.pos.LogAddr)
      have h2 := le_alignUp (show 0 < 8 by omega) st'.pos.index
      omega
    simp only []
    rw [Nat.add_sub_cancel' hle, haddr', hindex']

/-- What slave `s` is after the mapping: it has room for its outputs and for its inputs. -/
structure Mapped (s s' : MapSlave) : Prop where
  Obits : s'.Obits = s.Obits
  Ibits : s'.Ibits = s.Ibits
  outputs : s.Obits ≠ 0 → ∃ a, s'.outArea = some a ∧ s.Obits ≤ a.length
  inputs : s.Ibits ≠ 0 → ∃ a, s'.inArea = some a ∧ s.Ibits ≤ a.length

theorem Direction.Sized.bits_le {d : Direction} (h : d.Sized) : d.bits ≤ d.item.length := by
  unfold Sized at h
  unfold item
  split at h <;> simp only [] <;> split <;> omega

theorem configMapGroup_mapped (hfresh : ∀ s ∈ slaves, s.Fresh)
    (h : configMapGroup slaves = some (slaves', g)) : List.Forall₂ Mapped slaves slaves' := by
  obtain ⟨mid, hout, hin, -⟩ := configMapGroup_loops hfresh h
  clear h
  induction slaves generalizing mid slaves' with
  | nil =>
    cases hout
    cases hin
    exact List.Forall₂.nil
  | cons s slaves ih =>
    have hs := (hfresh s List.mem_cons_self).sized
    have hrest : ∀ t ∈ slaves, t.Fresh := fun t ht => hfresh t (List.mem_cons_of_mem s ht)
    obtain _ | ⟨ho, hout⟩ := hout
    obtain _ | ⟨hi, hin⟩ := hin
    rename_i m mid s' slaves'
    refine List.Forall₂.cons ⟨?_, ?_, ?_, ?_⟩ (ih hrest mid hout hin)
    · exact congrArg Direction.bits (hi.dir.trans ho.outDir)
    · exact congrArg Direction.bits (hi.inDir.trans ho.dir)
    · intro hbits
      obtain ⟨start, harea⟩ := ho.placed hbits
      exact ⟨_, hi.area.trans harea, hs.1.bits_le⟩
    · intro hbits
      have hbits' : m.Ibits ≠ 0 := by
        rw [show m.Ibits = s.Ibits from congrArg Direction.bits ho.dir]
        exact hbits
      obtain ⟨start, harea⟩ := hi.placed hbits'
      refine ⟨_, harea, ?_⟩
      rw [ho.dir]
      exact hs.2.bits_le

/-- However many bits the slaves have, and however their sync managers lie: every slave has room for
its outputs and for its inputs, no two areas of the image overlap, the outputs come first, and none
reaches past the end. -/
theorem image_layout (hfresh : ∀ s ∈ slaves, s.Fresh)
    (h : configMapGroup slaves = some (slaves', g)) :
    List.Forall₂ Mapped slaves slaves' ∧
    (slaves'.filterMap MapSlave.outArea ++ slaves'.filterMap MapSlave.inArea).Pairwise
      (fun a b => a.stop ≤ b.start) ∧
    (∀ a ∈ slaves'.filterMap MapSlave.outArea, a.stop ≤ 8 * g.Obytes) ∧
    ∀ a ∈ slaves'.filterMap MapSlave.inArea,
      8 * g.Obytes ≤ a.start ∧ a.stop ≤ 8 * (g.Obytes + g.Ibytes) := by
  obtain ⟨-, -, -, houts, hins, hO, hI⟩ := configMapGroup_loops hfresh h
  have hend : ∀ a ∈ slaves'.filterMap MapSlave.outArea, a.stop ≤ 8 * g.Obytes := by
    intro a ha
    rw [houts] at ha
    have := (areas_bounds (by omega) ha).2
    have := le_alignUp (show 0 < 8 by omega) (finish 8 (items MapSlave.Obits MapSlave.outDir (slaves.map mapSm)) 0)
    omega
  have hwithin : ∀ a ∈ slaves'.filterMap MapSlave.inArea,
      8 * g.Obytes ≤ a.start ∧ a.stop ≤ 8 * (g.Obytes + g.Ibytes) := by
    intro a ha
    rw [hins] at ha
    have := areas_bounds (by omega) ha
    have := le_alignUp (show 0 < 8 by omega)
      (finish 8 (items MapSlave.Ibits MapSlave.inDir (slaves.map mapSm)) (8 * g.Obytes))
    omega
  refine ⟨configMapGroup_mapped hfresh h, List.pairwise_append.mpr ⟨?_, ?_, ?_⟩, hend, hwithin⟩
  · rw [houts]
    exact areas_pairwise (by omega) _ _
  · rw [hins]
    exact areas_pairwise (by omega) _ _
  · intro a ha b hb
    exact Nat.le_trans (hend a ha) (hwithin b hb).1

end Image

/-- A slave with these numbers of bits, before the mapping. -/
def boardSlave (Obits Ibits : ℕ) : MapSlave where
  Obits := Obits
  Obytes := 0
  outputs := none
  Ostartbit := 0
  Ibits := Ibits
  Ibytes := 0
  inputs := none
  Istartbit := 0
  SM := fun n =>
    if n = 2 then ⟨0x1100, (Obits + 7) / 8, 3⟩
    else if n = 3 then ⟨0x1400, (Ibits + 7) / 8, 4⟩
    else ⟨0x1000, 0, 0⟩
  FMMU := fun _ => Fmmu.init
  FMMUunused := 0
  blockLRW := 0

def twoSlaves : List MapSlave := [boardSlave 16 24, boardSlave 32 16]

theorem twoSlaves_maps : (configMapGroup twoSlaves).isSome = true := by decide

def twoMapped : List MapSlave × MapGroup := (configMapGroup twoSlaves).get twoSlaves_maps

theorem twoMapped_eq : configMapGroup twoSlaves = some (twoMapped.1, twoMapped.2) :=
  (Option.some_get twoSlaves_maps).symm

theorem fresh_two : ∀ s ∈ twoSlaves, s.Fresh := by
  intro s hs
  rcases List.mem_pair.mp hs with rfl | rfl
  · exact ⟨rfl, rfl, rfl, rfl⟩
  · exact ⟨rfl, rfl, rfl, rfl⟩

theorem image_layout_two :
    (twoMapped.1.filterMap MapSlave.outArea ++ twoMapped.1.filterMap MapSlave.inArea).Pairwise
      (fun a b => a.stop ≤ b.start) :=
  (image_layout fresh_two twoMapped_eq).2.1
end EcatMaster.Soem
