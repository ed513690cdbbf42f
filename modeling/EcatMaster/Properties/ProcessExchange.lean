import EcatMaster.Properties.WorkingCounter

/-! # Process data from the mapping to the slaves

The slaves that the program maps, the frames it sends for them and what comes back, taken together: what a
cycle does with the outputs and the inputs of every slave (`cycle_exchanges`), and what its working counter
says about them (`cycle_wkc`).
-/

namespace EcatMaster.Soem
set_option autoImplicit false
open Placement LogicalBus

section Exchange
variable {slaves slaves' : List MapSlave} {g : MapGroup} {iomap : List UInt8}

/-- Whatever becomes of the frames of a cycle, the outputs of a slave all reach it or none does, its
inputs all come back or all stay, unless an LRD frame comes back that it has not taken part in and that
leaves zeros; and the rest of the IO map is not touched. -/
theorem cycle_exchanges (hplain : ∀ s ∈ slaves, s.Plain) (hmap : configMapGroup slaves = some (slaves', g))
    (hapart : ∀ s ∈ slaves', s.Apart) (hsize : g.Obytes + g.Ibytes ≤ IOMAP_SIZE)
    (hroom : iomap.length = IOMAP_SIZE) (hasdc : Bool) (fate : ℕ → Fate) (memory : ℕ → ℕ → UInt8)
    (DCtime : ℕ) :
    let frames := (g.sendProcessdata hasdc iomap).frames
    let (received, _, bus) := g.cycle hasdc fate (stations slaves' memory) iomap DCtime
    (∀ a < IOMAP_SIZE, a < g.Obytes ∨ g.Obytes + g.Ibytes ≤ a → received.iomap[a]? = iomap[a]?) ∧
    ∀ k s, slaves'[k]? = some s →
      (s.Obits ≠ 0 → ∃ n f, frames[n]? = some f ∧ f.com.writes = true ∧ f.Covers s.outWindow ∧
        ∀ j < s.outWindow.length, ∃ t, bus[k]? = some t ∧ t.memory (s.outPhys + j) =
          if (fate n).takes k then iomap.getD (s.outWindow.start + j) 0 else memory k (s.outPhys + j)) ∧
      (s.Ibits ≠ 0 → ∃ n f, frames[n]? = some f ∧ f.com.reads = true ∧ f.Covers s.inWindow ∧
        ∀ j < s.inWindow.length, received.iomap[s.inWindow.start + j]? = some
          (if (fate n).returns then
            if (fate n).takes k then memory k (s.inPhys + j)
            else if f.com = .LRD then 0 else iomap.getD (s.inWindow.start + j) 0
          else iomap.getD (s.inWindow.start + j) 0)) := by
  have himage := whole_slaves hplain hmap hsize
  have hroom' : g.Obytes + g.Ibytes ≤ iomap.length := by omega
  have hsent := sendProcessdata_sent
    (configMapGroup_segmented (fun s hs => (hplain s hs).toFresh) hmap hsize) hasdc hroom'
  refine ⟨fun a ha hor => outputs_kept fate memory himage hsent hroom' DCtime hor (by omega), ?_⟩
  intro k s hs
  exact ⟨fun hb => outputs_reach fate memory himage hsent hroom' hs hb, fun hb =>
    inputs_return fate memory himage hsent hroom' DCtime (hapart s (List.mem_of_getElem? hs)) hs hb rfl⟩

def oneMap : List UInt8 := List.replicate IOMAP_SIZE 1

theorem oneMap_length : oneMap.length = IOMAP_SIZE := List.length_replicate

theorem oneMap_getD {n : ℕ} (h : n < IOMAP_SIZE) : oneMap.getD n 0 = 1 := by
  rw [oneMap, List.getD_eq_getElem?_getD, List.getElem?_replicate, if_pos h]
  rfl

theorem cycle_exchanges_two : ∃ t,
    (twoMapped.2.cycle true (fun _ => ⟨fun _ => true, true, 2, 0⟩) (stations twoMapped.1 fun _ _ => 7)
      oneMap 0).2.2[0]? = some t ∧ t.memory 0x1101 = 1 := by
  obtain ⟨s, hs, hO, hphys, hwindow⟩ : ∃ s, twoMapped.1[0]? = some s ∧ s.Obits ≠ 0 ∧ s.outPhys = 0x1100 ∧
      s.outWindow = ⟨0, 2⟩ := ⟨_, rfl, by decide, by decide, by decide⟩
  have hall := cycle_exchanges plain_two twoMapped_eq (by decide) (by decide) oneMap_length true
    (fun _ => ⟨fun _ => true, true, 2, 0⟩) (fun _ _ => 7) 0
  obtain ⟨n, f, -, -, -, hbytes⟩ := (hall.2 0 s hs).1 hO
  obtain ⟨t, ht, hval⟩ := hbytes 1 (by rw [hwindow]; decide)
  refine ⟨t, ht, ?_⟩
  rw [hphys] at hval
  rw [hval, hwindow, if_pos rfl, oneMap_getD (by decide)]

/-- The working counter is never more than the program expects. It is what the program expects if and
only if the frame of every slave's outputs and that of its inputs have come back and the slave has taken
part in them. -/
theorem cycle_wkc (hplain : ∀ s ∈ slaves, s.Plain) (hmap : configMapGroup slaves = some (slaves', g))
    (hsize : g.Obytes + g.Ibytes ≤ IOMAP_SIZE) (hroom : iomap.length = IOMAP_SIZE)
    (hslaves : slaves'.length ≤ EC_MAXSLAVE) (hdata : g.Obytes + g.Ibytes ≠ 0) (hasdc : Bool)
    (fate : ℕ → Fate) (memory : ℕ → ℕ → UInt8) (DCtime : ℕ) :
    let wkc := (g.cycle hasdc fate (stations slaves' memory) iomap DCtime).2.1
    let expectedWKC : ℤ := (g.outputsWKC * 2 + g.inputsWKC : ℕ)
    wkc ≤ expectedWKC ∧
      (wkc = expectedWKC ↔ AllDelivered slaves' (g.sendProcessdata hasdc iomap).frames fate) :=
  wkc_sent fate memory (whole_slaves hplain hmap hsize) (sendProcessdata_sent
    (configMapGroup_segmented (fun s hs => (hplain s hs).toFresh) hmap hsize) hasdc (by omega)) hslaves
    hdata DCtime

theorem cycle_wkc_two : (twoMapped.2.cycle true (fun _ => ⟨fun _ => true, false, 0, 0⟩)
    (stations twoMapped.1 fun _ _ => 7) oneMap 0).2.1 ≤ 6 :=
  (cycle_wkc plain_two twoMapped_eq (by decide) oneMap_length (by decide) (by decide) true
    (fun _ => ⟨fun _ => true, false, 0, 0⟩) (fun _ _ => 7) 0).1

/-- A working counter that is not less than the program expects stands for a complete cycle: every slave
has the outputs of the IO map, and the IO map has the inputs of every slave. -/
theorem cycle_complete (hplain : ∀ s ∈ slaves, s.Plain) (hmap : configMapGroup slaves = some (slaves', g))
    (hapart : ∀ s ∈ slaves', s.Apart) (hsize : g.Obytes + g.Ibytes ≤ IOMAP_SIZE)
    (hroom : iomap.length = IOMAP_SIZE) (hslaves : slaves'.length ≤ EC_MAXSLAVE)
    (hdata : g.Obytes + g.Ibytes ≠ 0) (hasdc : Bool) (fate : ℕ → Fate) (memory : ℕ → ℕ → UInt8) (DCtime : ℕ) :
    let (received, wkc, bus) := g.cycle hasdc fate (stations slaves' memory) iomap DCtime
    ¬ wkc < (g.outputsWKC * 2 + g.inputsWKC : ℕ) → ∀ k s, slaves'[k]? = some s →
      (∀ j < s.outWindow.length, ∃ t, bus[k]? = some t ∧
        t.memory (s.outPhys + j) = iomap.getD (s.outWindow.start + j) 0) ∧
      ∀ j < s.inWindow.length,
        received.iomap[s.inWindow.start + j]? = some (memory k (s.inPhys + j)) := by
  have himage := whole_slaves hplain hmap hsize
  have hroom' : g.Obytes + g.Ibytes ≤ iomap.length := by omega
  have hsent := sendProcessdata_sent
    (configMapGroup_segmented (fun s hs => (hplain s hs).toFresh) hmap hsize) hasdc hroom'
  obtain ⟨hle, hiff⟩ := wkc_sent fate memory himage hsent hslaves hdata DCtime
  intro hwkc k s hs
  have hmem := List.mem_of_getElem? hs
  obtain ⟨hout, hin⟩ := hiff.mp (Int.le_antisymm hle (Int.not_lt.mp hwkc)) k s hs
  constructor
  · intro j hj
    have hb : s.Obits ≠ 0 := by
      simp only [MapSlave.outWindow] at hj
      omega
    have hto := (himage.outs.within s hmem hb).2
    obtain ⟨n, f, hf, hp, hcovers, hbytes⟩ :=
      outputs_reach fate memory himage hsent hroom' hs hb
    obtain ⟨m, x, hx, hpx, hcx, -, htakes⟩ := hout hb
    have hsame := (hsent.outputs _ (by omega) hto (himage.outs.inside s hmem hb)).unique (by omega) hf hp
      hcovers hx hpx hcx
    obtain ⟨t, ht, hval⟩ := hbytes j hj
    exact ⟨t, ht, by rw [hval, hsame, if_pos htakes]⟩
  · intro j hj
    have hb : s.Ibits ≠ 0 := by
      simp only [MapSlave.inWindow] at hj
      omega
    obtain ⟨hfrom, hto⟩ := himage.ins.within s hmem hb
    obtain ⟨n, f, hf, hp, hcovers, hbytes⟩ :=
      inputs_return fate memory himage hsent hroom' DCtime (hapart s hmem) hs hb rfl
    obtain ⟨m, x, hx, hpx, hcx, hreturns, htakes⟩ := hin hb
    have hsame := (hsent.inputs _ (by omega) hfrom hto (himage.ins.inside s hmem hb)).unique (by omega) hf
      hp hcovers hx hpx hcx
    exact (hbytes j hj).trans (by rw [hsame, if_pos hreturns, if_pos htakes])

theorem cycle_complete_two : ∃ t,
    (twoMapped.2.cycle true (fun _ => ⟨fun _ => true, true, 2, 0⟩) (stations twoMapped.1 fun _ _ => 7)
      oneMap 0).2.2[1]? = some t ∧ t.memory 0x1103 = 1 := by
  obtain ⟨s, hs, hphys, hwindow⟩ : ∃ s, twoMapped.1[1]? = some s ∧ s.outPhys = 0x1100 ∧
      s.outWindow = ⟨2, 4⟩ := ⟨_, rfl, by decide, by decide⟩
  have hall := cycle_complete plain_two twoMapped_eq (by decide) (by decide) oneMap_length (by decide)
    (by decide) true (fun _ => ⟨fun _ => true, true, 2, 0⟩) (fun _ _ => 7) 0 (by decide +kernel) 1 s hs
  obtain ⟨t, ht, hval⟩ := hall.1 3 (by rw [hwindow]; decide)
  refine ⟨t, ht, ?_⟩
  rw [hphys] at hval
  rw [hval, hwindow, oneMap_getD (by decide)]

end Exchange
end EcatMaster.Soem
