import EcatMaster.Properties.ImageSegments

/-! # Slaves with whole bytes

The slaves of the program have whole bytes, one sync manager for the outputs and one for the inputs,
and no more data than fits in the first segment. The mapping then gives such a slave one FMMU for
each direction, a window of the image that no segment boundary cuts, and one count in the working
counter of that direction (`whole_slaves`).
-/

namespace EcatMaster.Soem
set_option autoImplicit false
open Placement

/-- The first sync manager of a type has room for `bits` bits. -/
def OneSm (SM : ℕ → SyncManager) (ty bits : ℕ) : Prop :=
  bits ≤ 8 * (SM (nextSm SM ty EC_MAXSM 0)).SMlength ∧ (SM (nextSm SM ty EC_MAXSM 0)).SMlength < 2 ^ 16

instance (SM : ℕ → SyncManager) (ty bits : ℕ) : Decidable (OneSm SM ty bits) :=
  inferInstanceAs (Decidable (_ ∧ _))

/-- Whole bytes, and no more than the first segment holds. -/
def WholeBytes (bits : ℕ) : Prop := bits = 0 ∨ 7 < bits ∧ (bits + 7) / 8 ≤ EC_MAXLRWDATA - EC_FIRSTDCDATAGRAM

instance (bits : ℕ) : Decidable (WholeBytes bits) := inferInstanceAs (Decidable (_ ∨ _ ∧ _))

/-- A slave as `ecx_config_init` leaves it, of the kind described above. -/
structure MapSlave.Plain (s : MapSlave) : Prop extends s.Fresh where
  FMMU : ∀ n, s.FMMU n = Fmmu.init
  FMMUunused : s.FMMUunused = 0
  outBytes : WholeBytes s.Obits
  inBytes : WholeBytes s.Ibits
  outSm : OneSm s.SM 3 s.Obits
  inSm : OneSm s.SM 4 s.Ibits

/-- The FMMU that maps `bytes` bytes from address `start` on. -/
def byteFmmu (SM : ℕ → SyncManager) (ty fmmutype start bytes : ℕ) : Fmmu where
  LogStart := start
  LogLength := bytes
  LogStartbit := 0
  LogEndbit := 7
  PhysStart := (SM (nextSm SM ty EC_MAXSM 0)).StartAddr
  PhysStartBit := 0
  FMMUtype := fmmutype
  FMMUactive := 1

section Direction
variable {SM : ℕ → SyncManager} {d : Direction} {c start fuel : ℕ} {FMMU : ℕ → Fmmu}

theorem gatherSm_one {ty bits : ℕ} (hone : OneSm SM ty bits) :
    (gatherSm SM ty bits EC_MAXSM (SmScan.add SM (nextSm SM ty EC_MAXSM 0) ⟨0, 0, 0, 0⟩)).ByteCount =
      (SM (nextSm SM ty EC_MAXSM 0)).SMlength := by
  obtain ⟨hroom, hword⟩ := hone
  have hstop : gatherSm SM ty bits EC_MAXSM (SmScan.add SM (nextSm SM ty EC_MAXSM 0) ⟨0, 0, 0, 0⟩) =
      SmScan.add SM (nextSm SM ty EC_MAXSM 0) ⟨0, 0, 0, 0⟩ := by
    apply if_neg
    simp only [SmScan.add]
    omega
  rw [hstop]
  simp only [SmScan.add, Nat.zero_add]
  exact Nat.mod_eq_of_lt hword

theorem programFmmu_one {PhysStart : ℕ} {scan : SmScan} (hpos : d.bytes ≠ 0)
    (hsize : fmmuSize d scan.ByteCount 0 = d.bytes) :
    programFmmu d PhysStart scan (.start c FMMU ⟨start, 0⟩ none) =
      { scan := scan
        FMMUdone := d.bytes
        FMMUc := c + 1
        FMMU := Function.update FMMU c ⟨start, d.bytes, 0, 7, PhysStart, 0, d.fmmutype, 1⟩
        pos := ⟨start + d.bytes, 0⟩
        mapped := some (start, 0) } := by
  have harea := fmmuArea_bytes hpos scan.ByteCount 0 ⟨start, 0⟩
  rw [hsize, round_of_bit rfl] at harea
  simp only [programFmmu, MapLoop.start, harea, ne_eq, hpos, not_false_eq_true, if_true, Nat.zero_add]
  rfl

/-- One round maps the whole direction. -/
theorem mapFmmus_one (d : Direction) (c start fuel : ℕ) (FMMU : ℕ → Fmmu)
    (hone : OneSm SM d.smtype d.bits) (hbits : 7 < d.bits)
    (hbytes : d.bytes = (d.bits + 7) / 8) :
    ∃ st, mapFmmus SM d (fuel + 1) (.start c FMMU ⟨start, 0⟩ none) = some st ∧ st.FMMUc = c + 1 ∧
      st.FMMU = Function.update FMMU c (byteFmmu SM d.smtype d.fmmutype start d.bytes) ∧
      st.pos = ⟨start + d.bytes, 0⟩ ∧ st.mapped = some (start, 0) := by
  have hpos : d.bytes ≠ 0 := by omega
  have hroom := hone.1
  have hsize : fmmuSize d (SM (nextSm SM d.smtype EC_MAXSM 0)).SMlength 0 = d.bytes := by
    unfold fmmuSize
    split <;> omega
  rw [← gatherSm_one hone] at hsize
  have hround : mapFmmus SM d (fuel + 1) (.start c FMMU ⟨start, 0⟩ none) =
      mapFmmus SM d fuel (mapFmmu SM d (.start c FMMU ⟨start, 0⟩ none)) := by
    rw [mapFmmus]
    apply if_pos
    simp only [MapLoop.start]
    omega
  have hstep : mapFmmu SM d (.start c FMMU ⟨start, 0⟩ none) = _ := programFmmu_one hpos hsize
  rw [hround]
  exact ⟨_, mapFmmus_done (by rw [hstep]; exact Nat.le_of_eq hbytes.symm), congrArg MapLoop.FMMUc hstep,
    congrArg MapLoop.FMMU hstep, congrArg MapLoop.pos hstep, congrArg MapLoop.mapped hstep⟩

end Direction
section Slave

theorem createOutputMappings_bytes (s : MapSlave) (start : ℕ) (hone : OneSm s.SM 3 s.Obits) (hbits : 7 < s.Obits)
    (hbytes : s.Obytes = (s.Obits + 7) / 8) (hnull : s.outputs = none)
    (hfree : s.FMMUunused < EC_MAXFMMU) : createOutputMappings s ⟨start, 0⟩ = some
      ({ s with
          FMMU := Function.update s.FMMU s.FMMUunused (byteFmmu s.SM 3 2 start s.Obytes)
          FMMUunused := s.FMMUunused + 1
          outputs := some start
          Ostartbit := 0 }, ⟨start + s.Obytes, 0⟩) := by
  have hfuel : EC_MAXFMMU - s.FMMUunused = (EC_MAXFMMU - s.FMMUunused - 1) + 1 := by omega
  obtain ⟨st, hrun, hc, hfmmu, hpos, hmapped⟩ := mapFmmus_one s.outDir s.FMMUunused start
    (EC_MAXFMMU - s.FMMUunused - 1) s.FMMU hone hbits hbytes
  apply Option.map_eq_some_iff.mpr
  refine ⟨st, ?_, ?_⟩
  · rw [hnull, hfuel]
    exact hrun
  · rw [hc, hfmmu, hpos, hmapped]
    rfl

theorem createInputMappings_bytes (s : MapSlave) (start : ℕ) (hone : OneSm s.SM 4 s.Ibits) (hbits : 7 < s.Ibits)
    (hbytes : s.Ibytes = (s.Ibits + 7) / 8) (hnull : s.inputs = none)
    (hfree : s.FMMUunused < EC_MAXFMMU) (hzero : (s.FMMU s.FMMUunused).LogStart = 0) :
    createInputMappings s ⟨start, 0⟩ = some
      ({ s with
          FMMU := Function.update s.FMMU s.FMMUunused (byteFmmu s.SM 4 1 start s.Ibytes)
          FMMUunused := s.FMMUunused + 1
          inputs := some start
          Istartbit := 0 }, ⟨start + s.Ibytes, 0⟩) := by
  have hfuel : EC_MAXFMMU - s.FMMUunused = (EC_MAXFMMU - s.FMMUunused - 1) + 1 := by omega
  have hc0 : (if s.Obits ≠ 0 then freeFmmu s.FMMU (EC_MAXFMMU - s.FMMUunused) s.FMMUunused
      else s.FMMUunused) = s.FMMUunused := by
    rw [hfuel, freeFmmu, if_neg (not_not.mpr hzero)]
    exact ite_self _
  obtain ⟨st, hrun, hc, hfmmu, hpos, hmapped⟩ := mapFmmus_one s.inDir s.FMMUunused start
    (EC_MAXFMMU - s.FMMUunused - 1) s.FMMU hone hbits hbytes
  apply Option.map_eq_some_iff.mpr
  refine ⟨st, ?_, ?_⟩
  · simp only [hc0, hnull]
    rw [hfuel]
    exact hrun
  · rw [hc, hfmmu, hpos, hmapped]
    rfl

end Slave

namespace MapSlave

/-- Where a slave's outputs are in the image, in bytes. -/
def outWindow (s : MapSlave) : Area := ⟨s.outputs.getD 0, (s.Obits + 7) / 8⟩

def inWindow (s : MapSlave) : Area := ⟨s.inputs.getD 0, (s.Ibits + 7) / 8⟩

/-- A plain slave whose outputs have been mapped. -/
structure OutDone (s : MapSlave) : Prop where
  Obytes : s.Obytes = (s.Obits + 7) / 8
  Ibytes : s.Ibytes = (s.Ibits + 7) / 8
  none : s.Obits = 0 → s.outputs = none ∧ s.FMMUunused = 0 ∧ s.FMMU = fun _ => Fmmu.init
  some : s.Obits ≠ 0 → ∃ o, s.outputs = some o ∧ s.Ostartbit = 0 ∧ s.FMMUunused = 1 ∧
    s.FMMU = Function.update (fun _ => Fmmu.init) 0 (byteFmmu s.SM 3 2 o s.Obytes)
  inputs : s.inputs = Option.none
  inBytes : WholeBytes s.Ibits
  inSm : OneSm s.SM 4 s.Ibits

/-- A plain slave that has been mapped: one active FMMU for each direction that has data. -/
structure Done (s : MapSlave) : Prop where
  outFmmus : s.activeFmmus 2 = if s.Obits = 0 then []
    else [byteFmmu s.SM 3 2 s.outWindow.start s.outWindow.length]
  inFmmus : s.activeFmmus 1 = if s.Ibits = 0 then []
    else [byteFmmu s.SM 4 1 s.inWindow.start s.inWindow.length]

end MapSlave

section Loops
variable {slaves slaves' : List MapSlave} {st st' start : MapState} {g : MapGroup}

/-- The area lies in one of the segments `l`. -/
def Inside (l : List ℕ) (w : Area) : Prop :=
  ∃ n, n < l.length ∧ (l.take n).sum ≤ w.start ∧ w.stop ≤ (l.take (n + 1)).sum

theorem Inside.extend {seg : Segments} {l : List ℕ} {w : Area} (h : Inside seg.all w)
    (hext : seg.ExtendsTo l) : Inside l w := by
  obtain ⟨n, hn, hlow, hhigh⟩ := h
  obtain ⟨more, rest, rfl⟩ := hext
  simp only [Segments.all, List.length_append, List.length_singleton] at hn
  refine ⟨n, by simp only [List.length_append, List.length_cons]; omega, ?_, ?_⟩
  · unfold Segments.all at hlow
    rw [List.take_append_of_le_length (by omega)] at hlow ⊢
    exact hlow
  · unfold Segments.all at hhigh
    rcases Nat.eq_or_lt_of_le (show n ≤ seg.IOsegment.length by omega) with rfl | hlt
    · rw [List.take_append, List.take_of_length_le (by omega)] at hhigh ⊢
      simp only [Nat.add_sub_cancel_left, List.take_succ_cons, List.take_zero, List.sum_append,
        List.sum_cons, List.sum_nil] at hhigh ⊢
      omega
    · rw [List.take_append_of_le_length (by omega)] at hhigh ⊢
      exact hhigh

/-- What comes after the closed segments lies in the one that is being filled. -/
theorem inside_last {l : List ℕ} {size : ℕ} {w : Area} (hlow : l.sum ≤ w.start)
    (hhigh : w.stop ≤ l.sum + size) : Inside (l ++ [size]) w := by
  refine ⟨l.length, by simp, ?_, ?_⟩
  · rw [List.take_left]
    exact hlow
  · have hall : (l ++ [size]).take (l.length + 1) = l ++ [size] :=
      List.take_of_length_le (by simp)
    rw [hall, List.sum_append, List.sum_singleton]
    exact hhigh

/-- Data that fits in one segment lies in one. -/
theorem Segments.Ok.add_inside {seg : Segments} {total diff : ℕ} (h : seg.Ok total)
    (hsize : total + diff ≤ IOMAP_SIZE) (hpos : diff ≠ 0) (hsmall : diff ≤ 1466) :
    Inside (seg.add diff).all ⟨total, diff⟩ ∧ (seg.add diff).wkc = seg.wkc + 1 := by
  have hsum := h.sum
  rw [h.add_whole hsize hpos hsmall]
  split
  · refine ⟨inside_last ?_ ?_, rfl⟩
    · rw [List.sum_append, List.sum_singleton]
      exact Nat.le_of_eq hsum
    · rw [List.sum_append, List.sum_singleton, hsum]
      exact Nat.le_refl _
  · refine ⟨inside_last ?_ ?_, rfl⟩
    · simp only []
      omega
    · simp only [Area.stop]
      omega

/-- What the loop over one direction has done for the slaves `done`, from address `base` on. -/
structure Loop (bits : MapSlave → ℕ) (window : MapSlave → Area) (Q : MapSlave → Prop) (base : ℕ)
    (done : List MapSlave) (st : MapState) : Prop where
  bit : st.pos.BitPos = 0
  slaves : ∀ s ∈ done, Q s
  inside : st.pos.LogAddr ≤ IOMAP_SIZE → ∀ s ∈ done, bits s ≠ 0 → Inside st.seg.all (window s)
  wkc : st.pos.LogAddr ≤ IOMAP_SIZE → st.seg.wkc = (done.filter fun s => bits s ≠ 0).length
  filled : ∀ a, base ≤ a → a < st.pos.LogAddr →
    ∃ s ∈ done, bits s ≠ 0 ∧ (window s).start ≤ a ∧ a < (window s).stop
  within : ∀ s ∈ done, bits s ≠ 0 → base ≤ (window s).start ∧ (window s).stop ≤ st.pos.LogAddr
  apart : done.Pairwise fun s t => bits s ≠ 0 → bits t ≠ 0 → (window s).stop ≤ (window t).start
  mono : base ≤ st.pos.LogAddr

variable {bits : MapSlave → ℕ} {create : MapSlave → LogPos → Option (MapSlave × LogPos)}
  {window : MapSlave → Area} {Q : MapSlave → Prop} {base : ℕ}

theorem Loop.slave {done : List MapSlave} {s s' : MapSlave} (hwhole : WholeBytes (bits s))
    (hnone : bits s = 0 → Q s)
    (hcreate : 7 < bits s → ∀ L, ∃ s', create s ⟨L, 0⟩ = some (s', ⟨L + (bits s + 7) / 8, 0⟩) ∧
      window s' = ⟨L, (bits s + 7) / 8⟩ ∧ bits s' = bits s ∧ Q s')
    (hholds : Holds start st) (h : Loop bits window Q base done st)
    (hrun : mapSlave bits create s st = some (s', st')) :
    Loop bits window Q base (done ++ [s']) st' := by
  have hmem : ∀ {R : MapSlave → Prop}, (∀ t ∈ done, R t) → R s' → ∀ t ∈ done ++ [s'], R t := by
    intro R hdone hs' t ht
    rcases List.mem_append.mp ht with ht | ht
    · exact hdone t ht
    · rw [List.mem_singleton.mp ht]
      exact hs'
  have hapart : (∀ t ∈ done, bits t ≠ 0 → bits s' ≠ 0 → (window t).stop ≤ (window s').start) →
      (done ++ [s']).Pairwise fun s t => bits s ≠ 0 → bits t ≠ 0 → (window s).stop ≤ (window t).start := by
    intro hlast
    refine List.pairwise_append.mpr ⟨h.apart, List.pairwise_singleton _ _, ?_⟩
    intro a ha b hb
    rw [List.mem_singleton.mp hb]
    exact hlast a ha
  unfold mapSlave at hrun
  rcases hwhole with hbits | ⟨hbits, hsmall⟩
  · rw [if_pos hbits] at hrun
    cases hrun
    refine ⟨h.bit, hmem h.slaves (hnone hbits), fun hsize => hmem (h.inside hsize) (absurd hbits),
      fun hsize => ?_, fun a hlow hhigh => ?_, hmem h.within (absurd hbits),
      hapart fun t _ _ hb => absurd hbits hb, h.mono⟩
    · rw [h.wkc hsize, List.filter_append]
      simp [hbits]
    · obtain ⟨t, ht, hrest⟩ := h.filled a hlow hhigh
      exact ⟨t, List.mem_append_left _ ht, hrest⟩
  · have hpos : st.pos = ⟨st.pos.LogAddr, 0⟩ := by
      rw [← h.bit]
    obtain ⟨t, hc, hwindow, hsame, hq⟩ := hcreate hbits st.pos.LogAddr
    rw [if_neg (by omega), hpos, hc] at hrun
    cases hrun
    have hdiff : st.pos.LogAddr + (bits s + 7) / 8 - st.oLogAddr = (bits s + 7) / 8 := by
      rw [hholds.addr]
      omega
    have hmax : EC_MAXLRWDATA - EC_FIRSTDCDATAGRAM = 1466 := rfl
    have hmono := h.mono
    refine ⟨rfl, hmem h.slaves hq, ?_, ?_, ?_, ?_, ?_, Nat.le_add_right_of_le hmono⟩
    · intro hsize
      simp only [hdiff] at hsize ⊢
      have hok := hholds.seg (by omega)
      refine hmem (fun t ht hb => (h.inside (by omega) t ht hb).extend (hok.add_extends _)) fun _ => ?_
      rw [hwindow]
      exact (hok.add_inside hsize (by omega) (by omega)).1
    · intro hsize
      simp only [hdiff] at hsize ⊢
      have hok := hholds.seg (by omega)
      rw [(hok.add_inside hsize (by omega) (by omega)).2, h.wkc (by omega), List.filter_append]
      have hone : bits s' ≠ 0 := by omega
      simp [hone]
    · intro a hlow hhigh
      simp only [] at hhigh
      rcases Nat.lt_or_ge a st.pos.LogAddr with hlt | hge
      · obtain ⟨t, ht, hrest⟩ := h.filled a hlow hlt
        exact ⟨t, List.mem_append_left _ ht, hrest⟩
      · refine ⟨s', List.mem_append_right _ (List.mem_singleton.mpr rfl), by omega, ?_, ?_⟩
        · rw [hwindow]
          exact hge
        · rw [hwindow]
          exact hhigh
    · refine hmem (fun t ht hb => ?_) fun _ => ?_
      · have := h.within t ht hb
        simp only []
        omega
      · rw [hwindow]
        exact ⟨hmono, Nat.le_refl _⟩
    · apply hapart
      intro t ht hb _
      rw [hwindow]
      exact (h.within t ht hb).2

theorem loop_nil (st : MapState) (hbit : st.pos.BitPos = 0) (hwkc : st.pos.LogAddr ≤ IOMAP_SIZE → st.seg.wkc = 0) :
    Loop bits window Q st.pos.LogAddr [] st := by
  refine ⟨hbit, ?_, ?_, hwkc, fun a hlow hhigh => by omega, ?_, List.Pairwise.nil, Nat.le_refl _⟩
  · intro s hs
    cases hs
  · intro _ s hs
    cases hs
  · intro s hs
    cases hs

/-- The segments hold the slaves, and the slaves have their windows. -/
theorem Loop.both {done : List MapSlave} {s s' : MapSlave} (hwhole : WholeBytes (bits s))
    (hnone : bits s = 0 → Q s)
    (hcreate : 7 < bits s → ∀ L, ∃ s', create s ⟨L, 0⟩ = some (s', ⟨L + (bits s + 7) / 8, 0⟩) ∧
      window s' = ⟨L, (bits s + 7) / 8⟩ ∧ bits s' = bits s ∧ Q s')
    (h : Holds start st ∧ Loop bits window Q base done st)
    (hrun : mapSlave bits create s st = some (s', st')) :
    Holds start st' ∧ Loop bits window Q base (done ++ [s']) st' := by
  refine ⟨h.1.slave ?_ hrun, h.2.slave hwhole hnone hcreate h.1 hrun⟩
  intro pos' hbits hc
  have hseven : 7 < bits s := by
    unfold WholeBytes at hwhole
    omega
  have hpos : st.pos = ⟨st.pos.LogAddr, 0⟩ := by
    rw [← h.2.bit]
  obtain ⟨t, hc', -⟩ := hcreate hseven st.pos.LogAddr
  rw [hpos, hc'] at hc
  cases hc
  refine ⟨Nat.zero_le 7, ?_⟩
  have := h.2.bit
  simp only [LogPos.index]
  omega

theorem activeFmmus_eq {s : MapSlave} {a b : Fmmu} {ty : ℕ} (h0 : s.FMMU 0 = a) (h1 : s.FMMU 1 = b)
    (h2 : s.FMMU 2 = Fmmu.init) (h3 : s.FMMU 3 = Fmmu.init) :
    s.activeFmmus ty = [a, b].filter fun f => f.FMMUactive = 1 ∧ f.FMMUtype = ty := by
  have hall : (List.range EC_MAXFMMU).map s.FMMU = [a, b, Fmmu.init, Fmmu.init] := by
    simp [EC_MAXFMMU, List.range_succ, h0, h1, h2, h3]
  unfold MapSlave.activeFmmus
  rw [hall]
  simp [List.filter_cons, Fmmu.init]

theorem mapSm_plain {s : MapSlave} (h : s.Plain) :
    (mapSm s).Obytes = (s.Obits + 7) / 8 ∧ (mapSm s).Ibytes = (s.Ibits + 7) / 8 := by
  have ho := h.Obytes
  have hi := h.Ibytes
  have hO := h.outBytes
  have hI := h.inBytes
  unfold WholeBytes at hO hI
  simp only [mapSm]
  constructor <;> split <;> omega

theorem outputs_create {s : MapSlave} (hs : s.Plain) :
    (s.Obits = 0 → (mapSm s).OutDone) ∧
    (7 < s.Obits → ∀ L, ∃ s', createOutputMappings (mapSm s) ⟨L, 0⟩ =
        some (s', ⟨L + (s.Obits + 7) / 8, 0⟩) ∧
      s'.outWindow = ⟨L, (s.Obits + 7) / 8⟩ ∧ s'.Obits = s.Obits ∧ s'.OutDone) := by
  obtain ⟨hO, hI⟩ := mapSm_plain hs
  constructor
  · intro hbits
    exact ⟨hO, hI, fun _ => ⟨hs.outputs, hs.FMMUunused, funext hs.FMMU⟩, fun h => absurd hbits h,
      hs.inputs, hs.inBytes, hs.inSm⟩
  · intro hbits L
    have hcreate := createOutputMappings_bytes (mapSm s) L hs.outSm hbits hO hs.outputs
      (by rw [show (mapSm s).FMMUunused = 0 from hs.FMMUunused]; decide)
    rw [hO] at hcreate
    refine ⟨_, hcreate, rfl, rfl, rfl, hI, fun h => ?_, fun _ => ?_, hs.inputs, hs.inBytes, hs.inSm⟩
    · exact absurd (show s.Obits = 0 from h) (by omega)
    · refine ⟨L, rfl, rfl, ?_, ?_⟩
      · simp only [show (mapSm s).FMMUunused = 0 from hs.FMMUunused]
      · simp only [show (mapSm s).FMMUunused = 0 from hs.FMMUunused,
          show (mapSm s).FMMU = fun _ => Fmmu.init from funext hs.FMMU]

/-- One active FMMU for the outputs and one for the inputs, each if there are any. -/
theorem done_of_fmmus {s : MapSlave} {a b : Fmmu} (h0 : s.FMMU 0 = a) (h1 : s.FMMU 1 = b)
    (h2 : s.FMMU 2 = Fmmu.init) (h3 : s.FMMU 3 = Fmmu.init)
    (hab : [a, b] = (if s.Obits = 0 then [] else [byteFmmu s.SM 3 2 s.outWindow.start s.outWindow.length]) ++
        (if s.Ibits = 0 then [] else [byteFmmu s.SM 4 1 s.inWindow.start s.inWindow.length]) ++
        (if s.Obits = 0 then [Fmmu.init] else []) ++ (if s.Ibits = 0 then [Fmmu.init] else [])) :
    s.Done := by
  constructor
  all_goals
    rw [activeFmmus_eq h0 h1 h2 h3, hab]
    split <;> split <;> simp [byteFmmu, Fmmu.init]

theorem inputs_create {s : MapSlave} (hs : s.OutDone) :
    (s.Ibits = 0 → s.Done) ∧
    (7 < s.Ibits → ∀ L, ∃ s', createInputMappings s ⟨L, 0⟩ = some (s', ⟨L + (s.Ibits + 7) / 8, 0⟩) ∧
      s'.inWindow = ⟨L, (s.Ibits + 7) / 8⟩ ∧ s'.Ibits = s.Ibits ∧ s'.Done) := by
  by_cases hout : s.Obits = 0
  · obtain ⟨houtputs, hunused, hfmmu⟩ := hs.none hout
    constructor
    · intro hbits
      apply done_of_fmmus (by rw [hfmmu]) (by rw [hfmmu]) (by rw [hfmmu]) (by rw [hfmmu])
      simp [hout, hbits]
    · intro hbits L
      have hcreate := createInputMappings_bytes s L hs.inSm hbits hs.Ibytes hs.inputs
        (by rw [hunused]; decide) (by rw [hfmmu]; rfl)
      rw [hunused, hfmmu, hs.Ibytes] at hcreate
      refine ⟨_, hcreate, rfl, rfl, done_of_fmmus rfl rfl rfl rfl ?_⟩
      have hin : s.Ibits ≠ 0 := by omega
      simp [hout, hin, MapSlave.inWindow]
  · obtain ⟨o, houtputs, hbit, hunused, hfmmu⟩ := hs.some hout
    constructor
    · intro hbits
      apply done_of_fmmus (show s.FMMU 0 = byteFmmu s.SM 3 2 o s.Obytes by rw [hfmmu]; rfl)
        (show s.FMMU 1 = Fmmu.init by rw [hfmmu]; rfl) (by rw [hfmmu]; rfl) (by rw [hfmmu]; rfl)
      simp [hout, hbits, MapSlave.outWindow, houtputs, hs.Obytes]
    · intro hbits L
      have hcreate := createInputMappings_bytes s L hs.inSm hbits hs.Ibytes hs.inputs
        (by rw [hunused]; decide) (by rw [hfmmu, hunused]; rfl)
      rw [hunused, hfmmu, hs.Ibytes] at hcreate
      refine ⟨_, hcreate, rfl, rfl, done_of_fmmus rfl rfl rfl rfl ?_⟩
      have hin : s.Ibits ≠ 0 := by omega
      simp [hout, hin, MapSlave.inWindow, MapSlave.outWindow, houtputs, hs.Obytes]

end Loops
section Image
variable {slaves slaves' : List MapSlave} {g : MapGroup}

/-- The windows of one direction: no segment boundary cuts one, they lie one after the other between
`low` and `high`, and together they are all of it. -/
structure Windows (bits : MapSlave → ℕ) (window : MapSlave → Area) (l : List ℕ) (low high : ℕ)
    (slaves : List MapSlave) : Prop where
  inside : ∀ s ∈ slaves, bits s ≠ 0 → Inside l (window s)
  within : ∀ s ∈ slaves, bits s ≠ 0 → low ≤ (window s).start ∧ (window s).stop ≤ high
  apart : slaves.Pairwise fun s t => bits s ≠ 0 → bits t ≠ 0 → (window s).stop ≤ (window t).start
  filled : ∀ a, low ≤ a → a < high → ∃ s ∈ slaves, bits s ≠ 0 ∧ (window s).start ≤ a ∧ a < (window s).stop

theorem Windows.transfer {bits : MapSlave → ℕ} {window : MapSlave → Area} {l : List ℕ} {low high : ℕ}
    (h : Windows bits window l low high slaves)
    (hsame : slaves'.map (fun s => (bits s, window s)) = slaves.map fun s => (bits s, window s)) :
    Windows bits window l low high slaves' := by
  have hback : ∀ s ∈ slaves', ∃ t ∈ slaves, bits t = bits s ∧ window t = window s := by
    intro s hs
    obtain ⟨t, ht, heq⟩ := List.mem_map.mp (hsame ▸ List.mem_map_of_mem hs)
    exact ⟨t, ht, congrArg Prod.fst heq, congrArg Prod.snd heq⟩
  refine ⟨fun s hs hb => ?_, fun s hs hb => ?_, ?_, fun a hlow hhigh => ?_⟩
  · obtain ⟨t, ht, hbits, hwindow⟩ := hback s hs
    rw [← hwindow]
    exact h.inside t ht (hbits ▸ hb)
  · obtain ⟨t, ht, hbits, hwindow⟩ := hback s hs
    rw [← hwindow]
    exact h.within t ht (hbits ▸ hb)
  · have hpair : (slaves.map fun s => (bits s, window s)).Pairwise fun x y =>
        x.1 ≠ 0 → y.1 ≠ 0 → x.2.stop ≤ y.2.start := List.pairwise_map.mpr h.apart
    rw [← hsame] at hpair
    exact List.pairwise_map.mp hpair
  · obtain ⟨t, ht, hb, hin⟩ := h.filled a hlow hhigh
    obtain ⟨s, hs, heq⟩ := List.mem_map.mp (hsame ▸ List.mem_map_of_mem ht :
      (bits t, window t) ∈ slaves'.map fun s => (bits s, window s))
    have hbits : bits s = bits t := congrArg Prod.fst heq
    have hwindow : window s = window t := congrArg Prod.snd heq
    exact ⟨s, hs, hbits ▸ hb, hwindow ▸ hin⟩

/-- What the mapping does with plain slaves. -/
structure PlainImage (slaves' : List MapSlave) (g : MapGroup) : Prop where
  done : ∀ s ∈ slaves', s.Done
  outs : Windows MapSlave.Obits MapSlave.outWindow g.IOsegment 0 g.Obytes slaves'
  ins : Windows MapSlave.Ibits MapSlave.inWindow g.IOsegment g.Obytes (g.Obytes + g.Ibytes) slaves'
  outputsWKC : g.outputsWKC = (slaves'.filter fun s => s.Obits ≠ 0).length
  inputsWKC : g.inputsWKC = (slaves'.filter fun s => s.Ibits ≠ 0).length

section Outputs
variable (hplain : ∀ s ∈ slaves, s.Plain)
include hplain

theorem plain_mapSm : ∀ s ∈ slaves.map mapSm, ∃ t, t.Plain ∧ mapSm t = s := by
  intro s hs
  obtain ⟨t, ht, rfl⟩ := List.mem_map.mp hs
  exact ⟨t, hplain t ht, rfl⟩

theorem mapOutputs_loop {mid : List MapSlave} {st : MapState}
    (hout : mapOutputs (slaves.map mapSm) ⟨⟨0, 0⟩, 0, .init⟩ = some (mid, st)) :
    Holds ⟨⟨0, 0⟩, 0, .init⟩ st ∧ Loop MapSlave.Obits MapSlave.outWindow MapSlave.OutDone 0 mid st := by
  let zero : MapState := ⟨⟨0, 0⟩, 0, .init⟩
  refine mapSlaves_invariant
    (P := fun done st => Holds zero st ∧ Loop MapSlave.Obits MapSlave.outWindow MapSlave.OutDone 0 done st)
    ⟨holds_init, loop_nil zero rfl fun _ => rfl⟩ (plain_mapSm hplain) hout ?_
  rintro done s s' mid next ⟨t, ht, rfl⟩ hmid hrun
  exact Loop.both (show WholeBytes (mapSm t).Obits from ht.outBytes) (outputs_create ht).1
    (outputs_create ht).2 hmid hrun

end Outputs

theorem mapSlaves_total (bits : MapSlave → ℕ) (create : MapSlave → LogPos → Option (MapSlave × LogPos))
    (slaves : List MapSlave) (st : MapState)
    (hcreate : ∀ s ∈ slaves, bits s ≠ 0 → ∀ L, ∃ s' n, create s ⟨L, 0⟩ = some (s', ⟨n, 0⟩))
    (hbit : st.pos.BitPos = 0) : ∃ out st', mapSlaves bits create slaves st = some (out, st') := by
  induction slaves generalizing st with
  | nil => exact ⟨[], st, rfl⟩
  | cons s slaves ih =>
    have hfirst : ∃ s' st', mapSlave bits create s st = some (s', st') ∧ st'.pos.BitPos = 0 := by
      unfold mapSlave
      split
      · exact ⟨s, st, rfl, hbit⟩
      · next hb =>
        obtain ⟨s', n, hc⟩ := hcreate s List.mem_cons_self hb st.pos.LogAddr
        have hpos : st.pos = ⟨st.pos.LogAddr, 0⟩ := by
          rw [← hbit]
        rw [hpos, hc]
        exact ⟨s', _, rfl, rfl⟩
    obtain ⟨s', st', hs', hbit'⟩ := hfirst
    obtain ⟨out, st'', hrest⟩ := ih st' (fun t ht => hcreate t (List.mem_cons_of_mem _ ht)) hbit'
    refine ⟨s' :: out, st'', ?_⟩
    rw [mapSlaves, hs', Option.bind_some]
    simp only [hrest, Option.map_some]

/-- Slaves with whole bytes are mapped: none of them runs out of FMMUs. -/
theorem plain_maps (hplain : ∀ s ∈ slaves, s.Plain) :
    ∃ slaves' g, configMapGroup slaves = some (slaves', g) := by
  obtain ⟨mid, st, hout⟩ := mapSlaves_total MapSlave.Obits createOutputMappings (slaves.map mapSm)
    ⟨⟨0, 0⟩, 0, .init⟩ (by
      intro s hs hb L
      obtain ⟨t, ht, rfl⟩ := plain_mapSm hplain s hs
      have hwhole := ht.outBytes
      obtain ⟨s', hc, -⟩ := (outputs_create ht).2 (hwhole.resolve_left hb).1 L
      exact ⟨s', _, hc⟩) rfl
  have hloop := (mapOutputs_loop hplain hout).2
  have hup : st.roundUp = st := if_neg (not_not.mpr hloop.bit)
  obtain ⟨last, st', hin⟩ := mapSlaves_total MapSlave.Ibits createInputMappings mid
    { st with seg := { st.seg with wkc := 0 } } (by
      intro s hs hb L
      have hdone := hloop.slaves s hs
      obtain ⟨s', hc, -⟩ := (inputs_create hdone).2 (hdone.inBytes.resolve_left hb).1 L
      exact ⟨s', _, hc⟩) hloop.bit
  unfold configMapGroup mapOutputs mapInputs at *
  rw [hout, Option.bind_some]
  simp only [hup]
  rw [hin]
  exact ⟨_, _, rfl⟩

/-- Slaves with whole bytes that fit in a segment have windows of their own that no segment boundary
cuts, one FMMU for each, and count once in the working counters. -/
theorem whole_slaves (hplain : ∀ s ∈ slaves, s.Plain)
    (h : configMapGroup slaves = some (slaves', g)) (hsize : g.Obytes + g.Ibytes ≤ IOMAP_SIZE) :
    PlainImage slaves' g := by
  obtain ⟨⟨mid, st⟩, hout, hrest⟩ := Option.bind_eq_some_iff.mp h
  obtain ⟨⟨last, st'⟩, hin, heq⟩ := Option.map_eq_some_iff.mp hrest
  cases heq
  have hfresh : ∀ s ∈ slaves, s.Fresh := fun s hs => (hplain s hs).toFresh
  have hsameIn := (mapOutputs_placed (fresh_outputs hfresh) (Nat.zero_le 7) hout).2.2.2
  obtain ⟨hout', hloop⟩ := mapOutputs_loop hplain hout
  have hup : st.roundUp = st := if_neg (not_not.mpr hloop.bit)
  rw [hup] at hin
  let behind : MapState := { st with seg := { st.seg with wkc := 0 } }
  have hbehind : Holds behind behind :=
    ⟨hout'.bit, hout'.addr, fun hsize => (hout'.seg hsize).wkc 0, Nat.le_refl _,
      fun _ => Segments.extendsTo_all _⟩
  obtain ⟨hin', hloop'⟩ := mapSlaves_invariant
    (P := fun done st' => Holds behind st' ∧
      Loop MapSlave.Ibits MapSlave.inWindow MapSlave.Done st.pos.LogAddr done st')
    ⟨hbehind, loop_nil behind hloop.bit fun _ => rfl⟩ hloop.slaves hin (by
      rintro done s s' mid next hs hmid hrun
      exact Loop.both hs.inBytes (inputs_create hs).1 (inputs_create hs).2 hmid hrun)
  have hdown : st'.roundUp = st' := if_neg (not_not.mpr hloop'.bit)
  have hsameOut := (mapInputs_placed (fresh_inputs hfresh hsameIn)
    (by rw [hloop.bit]; exact Nat.zero_le 7) hin).2.2.2
  have hmono : st.pos.LogAddr ≤ st'.pos.LogAddr := hin'.mono
  have htotal : st.pos.LogAddr + (st'.pos.LogAddr - st.pos.LogAddr) = st'.pos.LogAddr :=
    Nat.add_sub_cancel' hmono
  simp only [hup, hdown, htotal] at hsize ⊢
  have hpairs : slaves'.map (fun s => (s.Obits, s.outWindow)) = mid.map fun s => (s.Obits, s.outWindow) := by
    rw [← List.filterMap_eq_map]
    apply filterMap_eq_of_forall₂ hsameOut
    intro s s' hr
    have hbits : s'.Obits = s.Obits := congrArg Direction.bits hr.dir
    simp only [Function.comp, MapSlave.outWindow, hbits, hr.outputs]
  have hinputs : Windows MapSlave.Ibits MapSlave.inWindow st'.seg.all st.pos.LogAddr st'.pos.LogAddr
      slaves' := ⟨hloop'.inside hsize, hloop'.within, hloop'.apart, hloop'.filled⟩
  refine ⟨hloop'.slaves, ?_, ?_, ?_, hloop'.wkc hsize⟩
  · refine Windows.transfer ⟨fun s hs hb => ?_, hloop.within, hloop.apart, hloop.filled⟩ hpairs
    exact (hloop.inside (by omega) s hs hb).extend (hin'.keeps hsize)
  · simp only [htotal]
    exact hinputs
  · have hcount : ∀ l : List MapSlave, (l.filter fun s => s.Obits ≠ 0).length =
        ((l.map fun s => (s.Obits, s.outWindow)).filter fun p => p.1 ≠ 0).length := by
      intro l
      rw [List.filter_map, List.length_map]
      rfl
    rw [hcount, hpairs, ← hcount]
    exact hloop.wkc (by omega)

theorem plain_two : ∀ s ∈ twoSlaves, s.Plain := by
  intro s hs
  rcases List.mem_pair.mp hs with rfl | rfl
  · exact ⟨⟨rfl, rfl, rfl, rfl⟩, fun _ => rfl, rfl, by decide, by decide, by decide, by decide⟩
  · exact ⟨⟨rfl, rfl, rfl, rfl⟩, fun _ => rfl, rfl, by decide, by decide, by decide, by decide⟩

theorem plain_maps_two : ∃ slaves' g, configMapGroup twoSlaves = some (slaves', g) :=
  plain_maps plain_two

end Image
end EcatMaster.Soem
