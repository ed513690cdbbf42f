import EcatMaster.Properties.ImageLayout

/-! # Segments of the process image

Whatever the slaves' sizes, the segments together are the image, and each of them fits in a frame
(`image_segments`). That the bound on their number is never what stops a segment from being closed
follows from the size of the image: a segment is only closed when it and the data that comes next
exceed the smallest of them (`Segments.Ok.few`).
-/

namespace EcatMaster.Soem
set_option autoImplicit false
open Placement

def IOMAP_SIZE : ℕ := 4096

def segmentCap : ℕ → ℕ
  | 0 => EC_MAXLRWDATA - EC_FIRSTDCDATAGRAM
  | _ + 1 => EC_MAXLRWDATA

theorem segmentCap_bounds (n : ℕ) : 1466 ≤ segmentCap n ∧ segmentCap n ≤ 1486 := by
  cases n with
  | zero => decide
  | succ n =>
    rw [show segmentCap (n + 1) = 1486 from rfl]
    omega

/-- The segments hold `total` bytes. -/
structure Segments.Ok (seg : Segments) (total : ℕ) : Prop where
  sum : seg.IOsegment.sum + seg.segmentsize = total
  cap : seg.segmentmaxsize = segmentCap seg.IOsegment.length
  closed : ∀ n, ∀ h : n < seg.IOsegment.length, seg.IOsegment[n] ≤ segmentCap n
  filling : seg.segmentsize ≤ seg.segmentmaxsize
  /-- a closed segment and what follows it are more than the smallest segment -/
  dense : 1466 * seg.IOsegment.length ≤ seg.IOsegment.sum + total

section Segment
variable {seg : Segments} {total diff : ℕ}

theorem Segments.Ok.few (h : seg.Ok total) (hsize : total ≤ IOMAP_SIZE) :
    seg.IOsegment.length < EC_MAXIOSEGMENTS := by
  have hsum := h.sum
  have hdense := h.dense
  unfold IOMAP_SIZE at hsize
  unfold EC_MAXIOSEGMENTS
  omega

theorem closed_append {l : List ℕ} {size : ℕ} (h : ∀ n, ∀ h : n < l.length, l[n] ≤ segmentCap n)
    (hsize : size ≤ segmentCap l.length) :
    ∀ n, ∀ h : n < (l ++ [size]).length, (l ++ [size])[n] ≤ segmentCap n := by
  intro n hn
  rcases Nat.lt_or_ge n l.length with hlt | hge
  · rw [List.getElem_append_left hlt]
    exact h n hlt
  · obtain rfl : n = l.length := by
      simp only [List.length_append, List.length_singleton] at hn
      omega
    simpa using hsize

/-- The state between the bytes being added and the full segments being closed. -/
theorem Segments.spill_ok {fuel : ℕ} (hsum : seg.IOsegment.sum + seg.segmentsize = total)
    (hcap : seg.segmentmaxsize = segmentCap seg.IOsegment.length)
    (hclosed : ∀ n, ∀ h : n < seg.IOsegment.length, seg.IOsegment[n] ≤ segmentCap n)
    (hdense : 1466 * seg.IOsegment.length ≤ seg.IOsegment.sum + total)
    (hfuel : seg.segmentsize ≤ 1466 * fuel) : (seg.spill fuel).Ok total := by
  induction fuel generalizing seg with
  | zero =>
    have hempty : seg.segmentsize = 0 := by omega
    exact ⟨hsum, hcap, hclosed, by rw [Segments.spill, hempty]; exact Nat.zero_le _, hdense⟩
  | succ fuel ih =>
    have hbounds := segmentCap_bounds seg.IOsegment.length
    unfold Segments.spill
    split
    · apply ih
      · simp only [Segments.close, List.sum_append, List.sum_singleton]
        omega
      · simp only [Segments.close, List.length_append, List.length_singleton]
        rfl
      · exact closed_append hclosed (Nat.le_of_eq hcap)
      · simp only [Segments.close, List.length_append, List.length_singleton, List.sum_append,
          List.sum_singleton]
        omega
      · simp only [Segments.close]
        omega
    · exact ⟨hsum, hcap, hclosed, by omega, hdense⟩

theorem Segments.Ok.wkc (h : seg.Ok total) (n : ℕ) : ({ seg with wkc := n } : Segments).Ok total :=
  ⟨h.sum, h.cap, h.closed, h.filling, h.dense⟩

theorem Segments.Ok.close (h : seg.Ok total) (hfull : seg.segmentmaxsize < seg.segmentsize + diff) :
    (seg.close seg.segmentsize).IOsegment.sum + (seg.close seg.segmentsize).segmentsize = total ∧
    (seg.close seg.segmentsize).segmentmaxsize =
      segmentCap (seg.close seg.segmentsize).IOsegment.length ∧
    (∀ n, ∀ h : n < (seg.close seg.segmentsize).IOsegment.length,
      (seg.close seg.segmentsize).IOsegment[n] ≤ segmentCap n) ∧
    1466 * (seg.close seg.segmentsize).IOsegment.length ≤
      (seg.close seg.segmentsize).IOsegment.sum + (total + diff) := by
  have hsum := h.sum
  have hdense := h.dense
  have hcap := h.cap
  have hfilling := h.filling
  have hbounds := segmentCap_bounds seg.IOsegment.length
  refine ⟨?_, ?_, closed_append h.closed (by omega), ?_⟩
  · simp only [Segments.close, List.sum_append, List.sum_singleton]
    omega
  · simp only [Segments.close, List.length_append, List.length_singleton]
    rfl
  · simp only [Segments.close, List.length_append, List.length_singleton, List.sum_append,
      List.sum_singleton]
    omega

theorem Segments.Ok.count (h : seg.Ok total) (diff : ℕ) : (seg.count diff).Ok total := by
  unfold Segments.count
  split
  · exact h.wkc _
  · exact h

theorem Segments.Ok.add (h : seg.Ok total) {diff : ℕ} (hsize : total + diff ≤ IOMAP_SIZE) :
    (seg.add diff).Ok (total + diff) := by
  have hlen : seg.IOsegment.length ≤ 5 := by
    have hsum := h.sum
    have hdense := h.dense
    unfold IOMAP_SIZE at hsize
    omega
  have hspill : ∀ start : Segments, start.IOsegment.sum + start.segmentsize = total →
      start.segmentmaxsize = segmentCap start.IOsegment.length →
      (∀ n, ∀ h : n < start.IOsegment.length, start.IOsegment[n] ≤ segmentCap n) →
      1466 * start.IOsegment.length ≤ start.IOsegment.sum + (total + diff) →
      start.IOsegment.length ≤ 6 →
      (({ start with segmentsize := start.segmentsize + diff } : Segments).spill
        (EC_MAXIOSEGMENTS - start.IOsegment.length)).Ok (total + diff) := by
    intro start hsum hcap hclosed hdense hlen
    refine Segments.spill_ok ?_ hcap hclosed hdense ?_
    · simp only []
      omega
    · unfold EC_MAXIOSEGMENTS
      unfold IOMAP_SIZE at hsize
      simp only []
      omega
  unfold Segments.add
  apply Segments.Ok.count
  unfold Segments.makeRoom
  split
  · rename_i hfull
    obtain ⟨hsum, hcap, hclosed, hdense⟩ := h.close hfull.1
    apply hspill _ hsum hcap hclosed hdense
    simp only [Segments.close, List.length_append, List.length_singleton]
    omega
  · apply hspill _ h.sum h.cap h.closed _ (by omega)
    have := h.dense
    omega

theorem Segments.Ok.addLast (h : seg.Ok total) (hsize : total + 1 ≤ IOMAP_SIZE) :
    seg.addLast.Ok (total + 1) := by
  have hfew := h.few (by omega)
  have hsum := h.sum
  have hbounds := segmentCap_bounds seg.IOsegment.length
  unfold Segments.addLast
  split
  · rename_i hfull
    obtain ⟨hsum', hcap, hclosed, hdense⟩ := h.close hfull.1
    refine ⟨?_, hcap, hclosed, ?_, hdense⟩
    · simp only [Segments.close] at hsum' ⊢
      omega
    · simp only [Segments.close]
      have : 1 ≤ EC_MAXLRWDATA := by decide
      omega
  · rename_i hfull
    have hroom : seg.segmentsize + 1 ≤ seg.segmentmaxsize := by
      by_contra hmore
      exact hfull ⟨by omega, hfew⟩
    refine ⟨?_, h.cap, h.closed, hroom, ?_⟩
    · simp only []
      omega
    · have := h.dense
      simp only []
      omega

theorem Segments.spill_of_le (fuel : ℕ) (h : seg.segmentsize ≤ seg.segmentmaxsize) :
    seg.spill fuel = seg := by
  cases fuel with
  | zero => rfl
  | succ fuel => exact if_neg (by omega)

/-- Data that fits in one segment is kept in one, and is counted once. -/
theorem Segments.Ok.add_whole (h : seg.Ok total) (hsize : total + diff ≤ IOMAP_SIZE)
    (hpos : diff ≠ 0) (hsmall : diff ≤ 1466) : seg.add diff =
      if seg.segmentmaxsize < seg.segmentsize + diff
      then ⟨seg.IOsegment ++ [seg.segmentsize], diff, EC_MAXLRWDATA, seg.wkc + 1⟩
      else { seg with segmentsize := seg.segmentsize + diff, wkc := seg.wkc + 1 } := by
  have hfew := h.few (by omega)
  have hcap := h.cap
  have hbounds := segmentCap_bounds seg.IOsegment.length
  have hmax : 1466 ≤ EC_MAXLRWDATA := by decide
  unfold Segments.add
  split
  · rename_i hfull
    have hroom : seg.makeRoom diff = seg.close seg.segmentsize := if_pos ⟨hfull, by omega, hfew⟩
    simp only [hroom, Segments.close, Nat.sub_self, Nat.zero_add]
    rw [Segments.spill_of_le _ (by simp only []; omega)]
    exact if_pos ⟨hpos, hpos⟩
  · rename_i hfull
    have hroom : seg.makeRoom diff = seg := if_neg fun hall => hfull hall.1
    simp only [hroom]
    rw [Segments.spill_of_le _ (by simp only []; omega)]
    exact if_pos ⟨by simp only []; omega, hpos⟩

end Segment
section Extends
variable {seg : Segments} {total diff : ℕ}

def Segments.all (seg : Segments) : List ℕ := seg.IOsegment ++ [seg.segmentsize]

/-- Segments `l` are those of `seg`, with more data after it. -/
def Segments.ExtendsTo (seg : Segments) (l : List ℕ) : Prop :=
  ∃ more rest, l = seg.IOsegment ++ (seg.segmentsize + more) :: rest

theorem Segments.extendsTo_all (seg : Segments) : seg.ExtendsTo seg.all := ⟨0, [], rfl⟩

theorem Segments.ExtendsTo.trans {next : Segments} {l : List ℕ} (h : seg.ExtendsTo next.all)
    (h' : next.ExtendsTo l) : seg.ExtendsTo l := by
  obtain ⟨more, rest, hall⟩ := h
  obtain ⟨more', rest', rfl⟩ := h'
  unfold Segments.all at hall
  rcases List.eq_nil_or_concat rest with rfl | ⟨rest, last, rfl⟩
  · obtain ⟨hclosed, hsize⟩ := List.append_inj' hall rfl
    refine ⟨more + more', rest', ?_⟩
    rw [hclosed, List.singleton_inj.mp hsize, Nat.add_assoc]
  · have hcut : next.IOsegment ++ [next.segmentsize] =
        (seg.IOsegment ++ (seg.segmentsize + more) :: rest) ++ [last] := by
      rw [hall]
      simp
    obtain ⟨hclosed, -⟩ := List.append_inj' hcut rfl
    refine ⟨more, rest ++ (next.segmentsize + more') :: rest', ?_⟩
    rw [hclosed]
    simp

theorem Segments.spill_extends (fuel : ℕ) {seg : Segments} {old : ℕ} (hsize : old ≤ seg.segmentsize)
    (hmax : old ≤ seg.segmentmaxsize) :
    ∃ more rest, (seg.spill fuel).all = seg.IOsegment ++ (old + more) :: rest := by
  induction fuel generalizing seg old with
  | zero => exact ⟨seg.segmentsize - old, [], by rw [Nat.add_sub_cancel' hsize]; rfl⟩
  | succ fuel ih =>
    unfold Segments.spill
    split
    · have hempty : 0 ≤ (seg.close seg.segmentmaxsize).segmentsize := Nat.zero_le _
      obtain ⟨more, rest, h⟩ := @ih { seg.close seg.segmentmaxsize with wkc := seg.wkc + 1 } 0 hempty
        (Nat.zero_le _)
      refine ⟨seg.segmentmaxsize - old, (0 + more) :: rest, ?_⟩
      rw [h, Nat.add_sub_cancel' hmax]
      simp [Segments.close]
    · exact ⟨seg.segmentsize - old, [], by rw [Nat.add_sub_cancel' hsize]; rfl⟩

theorem Segments.count_all (seg : Segments) (diff : ℕ) : (seg.count diff).all = seg.all := by
  unfold Segments.count
  split <;> rfl

/-- What a slave adds comes after the data of the slaves before it. -/
theorem Segments.Ok.add_extends (h : seg.Ok total) (diff : ℕ) : seg.ExtendsTo (seg.add diff).all := by
  have hfilling := h.filling
  unfold Segments.add
  rw [Segments.count_all]
  unfold Segments.makeRoom
  split
  · obtain ⟨more, rest, hall⟩ := @Segments.spill_extends
      (EC_MAXIOSEGMENTS - (seg.close seg.segmentsize).IOsegment.length)
      { seg.close seg.segmentsize with segmentsize := (seg.close seg.segmentsize).segmentsize + diff }
      0 (Nat.zero_le _) (Nat.zero_le _)
    refine ⟨0, (0 + more) :: rest, ?_⟩
    rw [hall]
    simp [Segments.close]
  · exact Segments.spill_extends _ (Nat.le_add_right _ _) hfilling

theorem Segments.addLast_extends (seg : Segments) : seg.ExtendsTo seg.addLast.all := by
  unfold Segments.addLast
  split
  · exact ⟨0, [1], by simp [Segments.close, Segments.all]⟩
  · exact ⟨1, [], rfl⟩

end Extends

section Loop
variable {bits : MapSlave → ℕ} {create : MapSlave → LogPos → Option (MapSlave × LogPos)}
  {Ok : MapSlave → Prop} {P : List MapSlave → MapState → Prop} {slaves slaves' : List MapSlave}
  {st st' : MapState}

private theorem mapSlaves_from (hstep : ∀ done s s' st st', Ok s → P done st →
      mapSlave bits create s st = some (s', st') → P (done ++ [s']) st')
    (hok : ∀ s ∈ slaves, Ok s) {done : List MapSlave} (hstart : P done st)
    (h : mapSlaves bits create slaves st = some (slaves', st')) : P (done ++ slaves') st' := by
  induction slaves generalizing st slaves' done with
  | nil =>
    cases h
    rw [List.append_nil]
    exact hstart
  | cons s slaves ih =>
    obtain ⟨⟨s', mid⟩, hone, hrest⟩ := Option.bind_eq_some_iff.mp h
    obtain ⟨⟨rest, last⟩, hrun, heq⟩ := Option.map_eq_some_iff.mp hrest
    cases heq
    have hmid := hstep done s s' st mid (hok s List.mem_cons_self) hstart hone
    have := ih (fun t ht => hok t (List.mem_cons_of_mem s ht)) hmid hrun
    rwa [List.append_assoc] at this

/-- What one slave preserves, the slaves mapped so far being known, holds at the end of the loop. -/
theorem mapSlaves_invariant (hstart : P [] st) (hok : ∀ s ∈ slaves, Ok s)
    (h : mapSlaves bits create slaves st = some (slaves', st'))
    (hstep : ∀ done s s' st st', Ok s → P done st →
      mapSlave bits create s st = some (s', st') → P (done ++ [s']) st') : P slaves' st' :=
  mapSlaves_from hstep hok hstart h

end Loop

section Image
variable {slaves slaves' : List MapSlave} {st st' : MapState} {g : MapGroup}

/-- The segments hold what has been mapped since `start`, if the image is not too long. -/
structure Holds (start st : MapState) : Prop where
  bit : st.pos.BitPos ≤ 7
  addr : st.oLogAddr = st.pos.LogAddr
  seg : st.pos.LogAddr ≤ IOMAP_SIZE → st.seg.Ok st.pos.LogAddr
  mono : start.pos.LogAddr ≤ st.pos.LogAddr
  keeps : st.pos.LogAddr ≤ IOMAP_SIZE → start.seg.ExtendsTo st.seg.all

variable {start : MapState}

theorem Holds.slave {s s' : MapSlave} {bits : MapSlave → ℕ}
    {create : MapSlave → LogPos → Option (MapSlave × LogPos)} (h : Holds start st)
    (hcreate : ∀ pos', bits s ≠ 0 → create s st.pos = some (s', pos') →
      pos'.BitPos ≤ 7 ∧ st.pos.index ≤ pos'.index)
    (hrun : mapSlave bits create s st = some (s', st')) : Holds start st' := by
  unfold mapSlave at hrun
  split at hrun
  · cases hrun
    exact h
  · rename_i hbits
    obtain ⟨⟨t, pos'⟩, hc, heq⟩ := Option.map_eq_some_iff.mp hrun
    cases heq
    obtain ⟨hbit, hindex⟩ := hcreate pos' hbits hc
    have hold := h.bit
    have haddr := h.addr
    have hle : st.pos.LogAddr ≤ pos'.LogAddr := by
      unfold LogPos.index at hindex
      omega
    refine ⟨hbit, rfl, ?_, Nat.le_trans h.mono hle, ?_⟩
    · intro hsize
      have hsum : st.pos.LogAddr + (pos'.LogAddr - st.oLogAddr) = pos'.LogAddr := by omega
      have hfits : st.pos.LogAddr + (pos'.LogAddr - st.oLogAddr) ≤ IOMAP_SIZE := by
        rw [hsum]
        exact hsize
      have hadd := (h.seg (Nat.le_trans hle hsize)).add hfits
      rwa [hsum] at hadd
    · intro hsize
      have hbefore := Nat.le_trans hle hsize
      exact (h.keeps hbefore).trans ((h.seg hbefore).add_extends _)

theorem Holds.roundUp (h : Holds start st) : Holds start st.roundUp := by
  have haddr := h.addr
  have hmono := h.mono
  unfold MapState.roundUp
  split
  · rename_i hbit
    have hnext : st.pos.round = ⟨st.pos.LogAddr + 1, 0⟩ := if_pos hbit
    rw [hnext]
    refine ⟨Nat.zero_le 7, rfl, ?_, Nat.le_succ_of_le hmono, ?_⟩
    · intro hsize
      exact (h.seg (Nat.le_of_succ_le hsize)).addLast hsize
    · intro hsize
      exact (h.keeps (Nat.le_of_succ_le hsize)).trans st.seg.addLast_extends
  · exact h

theorem le_item_start {d : Direction} {x : ℕ} : x ≤ d.item.start 8 x + d.item.length := by
  have := d.item.le_start (show 0 < 8 by omega) x
  omega

theorem holds_init : Holds ⟨⟨0, 0⟩, 0, .init⟩ ⟨⟨0, 0⟩, 0, .init⟩ := by
  refine ⟨Nat.zero_le 7, rfl, fun _ => ⟨rfl, rfl, ?_, Nat.zero_le _, Nat.zero_le _⟩, Nat.le_refl 0,
    fun _ => Segments.extendsTo_all _⟩
  intro n hn
  exact absurd hn (Nat.not_lt_zero n)

/-- The two loops of the mapping, each with the slaves it leaves. -/
theorem configMapGroup_holds (hfresh : ∀ s ∈ slaves, s.Fresh)
    (h : configMapGroup slaves = some (slaves', g)) : ∃ out inp : MapState,
    Holds ⟨⟨0, 0⟩, 0, .init⟩ out ∧ Holds { out with seg := { out.seg with wkc := 0 } } inp ∧
    g.Obytes = out.pos.LogAddr ∧ g.Obytes + g.Ibytes = inp.pos.LogAddr ∧
    g.Isegment = out.seg.IOsegment.length ∧ g.Ioffset = out.seg.segmentsize ∧
    g.outputsWKC = out.seg.wkc ∧ g.inputsWKC = inp.seg.wkc ∧ g.IOsegment = inp.seg.all ∧
    g.nsegments = g.IOsegment.length := by
  obtain ⟨⟨mid, st⟩, hout, hrest⟩ := Option.bind_eq_some_iff.mp h
  obtain ⟨⟨last, st'⟩, hin, heq⟩ := Option.map_eq_some_iff.mp hrest
  cases heq
  have hsame := (mapOutputs_placed (fresh_outputs hfresh) (Nat.zero_le 7) hout).2.2.2
  have hout' : Holds ⟨⟨0, 0⟩, 0, .init⟩ st := by
    refine mapSlaves_invariant (P := fun _ st => Holds ⟨⟨0, 0⟩, 0, .init⟩ st) holds_init
      (fresh_outputs hfresh) hout ?_
    rintro done s s' mid next ⟨hsized, hnull⟩ hmid hrun
    apply hmid.slave _ hrun
    intro pos' hbits hc
    obtain ⟨hbit, hindex, -⟩ := placed_outputs hsized hnull hbits hmid.bit hc
    exact ⟨hbit, hindex ▸ le_item_start⟩
  have hup := hout'.roundUp
  let begin : MapState := { st.roundUp with seg := { st.roundUp.seg with wkc := 0 } }
  have hin' : Holds begin st' := by
    refine mapSlaves_invariant (P := fun _ st => Holds begin st) ?_ (fresh_inputs hfresh hsame) hin ?_
    · exact ⟨hup.bit, hup.addr, fun hsize => (hup.seg hsize).wkc 0, Nat.le_refl _,
        fun _ => Segments.extendsTo_all _⟩
    · rintro done s s' mid next ⟨hsized, hnull⟩ hmid hrun
      apply hmid.slave _ hrun
      intro pos' hbits hc
      obtain ⟨hbit, hindex, -⟩ := placed_inputs hsized hnull hbits hmid.bit hc
      exact ⟨hbit, hindex ▸ le_item_start⟩
  have hdown := hin'.roundUp
  refine ⟨st.roundUp, st'.roundUp, hup, hdown, rfl, Nat.add_sub_cancel' hdown.mono, rfl, rfl, rfl, rfl,
    rfl, ?_⟩
  simp only [List.length_append, List.length_singleton]

section Segmented
variable (hfresh : ∀ s ∈ slaves, s.Fresh) (h : configMapGroup slaves = some (slaves', g))
  (hsize : g.Obytes + g.Ibytes ≤ IOMAP_SIZE)
include hfresh h hsize

theorem configMapGroup_sum : g.IOsegment.sum = g.Obytes + g.Ibytes := by
  obtain ⟨out, inp, hout, hin, hO, hI, -, -, -, -, hall, -⟩ := configMapGroup_holds hfresh h
  have hsum := (hin.seg (by omega)).sum
  rw [hall, Segments.all, List.sum_append, List.sum_singleton]
  omega

theorem configMapGroup_nsegments : g.IOsegment.length = g.nsegments ∧ g.nsegments ≤ 6 := by
  obtain ⟨out, inp, hout, hin, hO, hI, -, -, -, -, hall, hn⟩ := configMapGroup_holds hfresh h
  refine ⟨hn.symm, ?_⟩
  have hok := hin.seg (by omega)
  have hlen : inp.seg.IOsegment.length ≤ 5 := by
    have := hok.dense
    have := hok.sum
    unfold IOMAP_SIZE at hsize
    omega
  rw [hn, hall]
  simp only [Segments.all, List.length_append, List.length_singleton]
  omega

/-- The outputs end in segment `Isegment`, at `Ioffset`. -/
theorem configMapGroup_cut :
    ∃ more rest, g.IOsegment.drop g.Isegment = (g.Ioffset + more) :: rest ∧
      (g.IOsegment.take g.Isegment).sum + g.Ioffset = g.Obytes := by
  obtain ⟨out, inp, hout, hin, hO, hI, hseg, hoff, -, -, hall, -⟩ := configMapGroup_holds hfresh h
  have hokout := hout.seg (by have := hin.mono; simp only [] at this; omega)
  obtain ⟨more, rest, hext⟩ := hin.keeps (by omega)
  simp only [] at hext
  refine ⟨more, rest, ?_, ?_⟩
  · rw [hall, hext, hseg, hoff, List.drop_left]
  · rw [hall, hext, hseg, hoff, List.take_left, hO]
    exact hokout.sum

/-- The segments are the whole image, cut where the outputs end or behind, and every one of them fits
in a frame, the first one together with the datagram for the clocks. There are no more of them than
the master can have under way. -/
theorem image_segments : g.IOsegment.sum = g.Obytes + g.Ibytes ∧
    (∀ n, ∀ h : n < g.IOsegment.length, g.IOsegment[n] ≤ segmentCap n) ∧
    (g.IOsegment.length = g.nsegments ∧ g.nsegments ≤ 6) ∧
    ∃ more rest, g.IOsegment.drop g.Isegment = (g.Ioffset + more) :: rest ∧
      (g.IOsegment.take g.Isegment).sum + g.Ioffset = g.Obytes := by
  refine ⟨configMapGroup_sum hfresh h hsize, ?_, configMapGroup_nsegments hfresh h hsize,
    configMapGroup_cut hfresh h hsize⟩
  obtain ⟨out, inp, hout, hin, hO, hI, -, -, -, -, hall, -⟩ := configMapGroup_holds hfresh h
  have hok := hin.seg (by omega)
  rw [hall]
  exact closed_append hok.closed (by have := hok.cap; have := hok.filling; omega)

end Segmented

theorem image_segments_two : twoMapped.2.IOsegment.sum = 11 ∧ twoMapped.2.nsegments ≤ 6 := by
  obtain ⟨hsum, -, ⟨-, hfew⟩, -⟩ := image_segments fresh_two twoMapped_eq (by decide)
  exact ⟨hsum, hfew⟩

end Image
end EcatMaster.Soem
