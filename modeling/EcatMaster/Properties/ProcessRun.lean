import EcatMaster.Properties.ProcessExchange

/-! # Cycles in a row

The program sets its outputs and exchanges process data over and over, while the slaves measure new
inputs. Frames get lost in any of the cycles. What a slave has for outputs is at any time what the
program had set in one of the cycles, and what the IO map has for its inputs is what the slave had in
one of the cycles: never a mixture of two (`run_untorn`).
-/

namespace EcatMaster.Soem
set_option autoImplicit false
open Placement LogicalBus

/-- The master and the slaves between two cycles. -/
structure Plant where
  iomap : List UInt8
  DCtime : ℕ
  memory : ℕ → ℕ → UInt8

/-- The program sets the outputs, the slaves measure, and data is exchanged. -/
inductive Act
  | setOutputs (bytes : List UInt8)
  | measure (values : ℕ → ℕ → UInt8)
  | cycle (fate : ℕ → Fate)

/-- The memory of the inputs of slave `k` has cell `p`. -/
def hasInput (slaves : List MapSlave) (k p : ℕ) : Bool :=
  slaves[k]?.any fun s => s.Ibits ≠ 0 ∧ s.inPhys ≤ p ∧ p < s.inPhys + s.inWindow.length

namespace Plant

def step (slaves : List MapSlave) (g : MapGroup) (hasdc : Bool) (x : Plant) : Act → Plant
  | .setOutputs bytes => { x with iomap := ByteBuf.put x.iomap g.outputs (bytes.take g.Obytes) }
  | .measure values =>
    { x with memory := fun k p => if hasInput slaves k p then values k p else x.memory k p }
  | .cycle fate =>
    let (received, _, bus) := g.cycle hasdc fate (stations slaves x.memory) x.iomap x.DCtime
    { iomap := received.iomap
      DCtime := received.DCtime
      memory := fun k => (bus[k]?.map Station.memory).getD (x.memory k) }

def run (slaves : List MapSlave) (g : MapGroup) (hasdc : Bool) (x : Plant) (acts : List Act) : Plant :=
  acts.foldl (fun x a => x.step slaves g hasdc a) x

end Plant

section Run
variable {slaves slaves' : List MapSlave} {g : MapGroup} {hasdc : Bool} {x : Plant}

theorem step_length (a : Act) : (x.step slaves g hasdc a).iomap.length = x.iomap.length := by
  cases a with
  | setOutputs bytes => exact ByteBuf.put_length _ _ _
  | measure values => rfl
  | cycle fate =>
    have hfold : ∀ (stack : List IdxEntry) (wait : ℕ → Option Answer) (r : Receiving),
        (stack.foldl (fun r e => r.pull e (wait e.idx)) r).iomap.length = r.iomap.length := by
      intro stack wait
      induction stack with
      | nil => exact fun r => rfl
      | cons e stack ih => exact fun r => (ih _).trans (pull_length _ _ _)
    exact hfold _ _ _

theorem run_length (acts : List Act) : (x.run slaves g hasdc acts).iomap.length = x.iomap.length := by
  induction acts using List.reverseRecOn with
  | nil => rfl
  | append_singleton acts a ih =>
    rw [Plant.run, List.foldl_concat, step_length]
    exact ih

/-- `P` holds at the start, or in one of the cycles. -/
def Once (slaves : List MapSlave) (g : MapGroup) (hasdc : Bool) (x : Plant) (acts : List Act)
    (start : Prop) (P : Plant → Prop) : Prop :=
  start ∨ ∃ pre fate post, acts = pre ++ Act.cycle fate :: post ∧ P (x.run slaves g hasdc pre)

theorem Once.weaken {acts : List Act} {start start' : Prop} {P P' : Plant → Prop} (a : Act)
    (h : Once slaves g hasdc x acts start P) (hstart : start → start') (hP : ∀ y, P y → P' y) :
    Once slaves g hasdc x (acts ++ [a]) start' P' := by
  rcases h with h | ⟨pre, fate, post, rfl, h⟩
  · exact Or.inl (hstart h)
  · exact Or.inr ⟨pre, fate, post ++ [a], by simp, hP _ h⟩

theorem Once.now {acts : List Act} {start : Prop} {P : Plant → Prop} {fate : ℕ → Fate}
    (h : P (x.run slaves g hasdc acts)) : Once slaves g hasdc x (acts ++ [.cycle fate]) start P :=
  Or.inr ⟨acts, fate, [], rfl, h⟩

section Slave
variable (hplain : ∀ s ∈ slaves, s.Plain) (hmap : configMapGroup slaves = some (slaves', g))
  (hapart : ∀ s ∈ slaves', s.Apart) (hsize : g.Obytes + g.Ibytes ≤ IOMAP_SIZE)
  {k : ℕ} {s : MapSlave} (hs : slaves'[k]? = some s)
include hplain hmap hapart hsize hs

/-- One step and the outputs of a slave: only a cycle brings them, and it brings all of them. -/
theorem step_outputs (hasdc : Bool) (hroom : x.iomap.length = IOMAP_SIZE) (a : Act) :
    (∀ j < s.outWindow.length,
      (x.step slaves' g hasdc a).memory k (s.outPhys + j) = x.memory k (s.outPhys + j)) ∨
    (∃ fate, a = .cycle fate) ∧ ∀ j < s.outWindow.length,
      (x.step slaves' g hasdc a).memory k (s.outPhys + j) = x.iomap.getD (s.outWindow.start + j) 0 := by
  have hsep := hapart s (List.mem_of_getElem? hs)
  cases a with
  | setOutputs bytes => exact Or.inl fun j _ => rfl
  | measure values =>
    refine Or.inl fun j hj => if_neg ?_
    simp only [hasInput, hs, Option.any_some, decide_eq_true_eq]
    rintro ⟨-, hlow, hhigh⟩
    unfold MapSlave.Apart at hsep
    simp only [MapSlave.outWindow, MapSlave.inWindow] at *
    omega
  | cycle fate =>
    by_cases hb : s.Obits = 0
    · refine Or.inl fun j hj => ?_
      simp only [MapSlave.outWindow] at hj
      omega
    · have himage := whole_slaves hplain hmap hsize
      have hroom' : g.Obytes + g.Ibytes ≤ x.iomap.length := by omega
      have hsent := sendProcessdata_sent
        (configMapGroup_segmented (fun s hs => (hplain s hs).toFresh) hmap hsize) hasdc hroom'
      obtain ⟨n, f, -, -, -, hbytes⟩ :=
        outputs_reach fate x.memory himage hsent hroom' hs hb
      have hget : ∀ j < s.outWindow.length,
          (x.step slaves' g hasdc (.cycle fate)).memory k (s.outPhys + j) =
            if (fate n).takes k then x.iomap.getD (s.outWindow.start + j) 0
            else x.memory k (s.outPhys + j) := by
        intro j hj
        obtain ⟨t, ht, hval⟩ := hbytes j hj
        rw [← hval]
        simp only [Plant.step, MapGroup.cycle, ht]
        rfl
      cases htakes : (fate n).takes k with
      | true => exact Or.inr ⟨⟨fate, rfl⟩, fun j hj => by rw [hget j hj, htakes]; rfl⟩
      | false => exact Or.inl fun j hj => by rw [hget j hj, htakes]; rfl

theorem step_inputs (hasdc : Bool) (hroom : x.iomap.length = IOMAP_SIZE) (a : Act) :
    (∀ j < s.inWindow.length, (x.step slaves' g hasdc a).iomap[s.inWindow.start + j]? =
      x.iomap[s.inWindow.start + j]?) ∨
    (∀ j < s.inWindow.length, (x.step slaves' g hasdc a).iomap[s.inWindow.start + j]? = some 0) ∨
    (∃ fate, a = .cycle fate) ∧ ∀ j < s.inWindow.length,
      (x.step slaves' g hasdc a).iomap[s.inWindow.start + j]? = some (x.memory k (s.inPhys + j)) := by
  have hmem := List.mem_of_getElem? hs
  have himage := whole_slaves hplain hmap hsize
  by_cases hb : s.Ibits = 0
  · refine Or.inl fun j hj => ?_
    simp only [MapSlave.inWindow] at hj
    omega
  obtain ⟨hfrom, hto⟩ := himage.ins.within s hmem hb
  cases a with
  | setOutputs bytes =>
    refine Or.inl fun j hj => ByteBuf.put_getElem?_outside _ _ _ _ (Or.inr ?_)
    rw [List.length_take, show g.outputs = 0 from rfl]
    omega
  | measure values => exact Or.inl fun j _ => rfl
  | cycle fate =>
    have hroom' : g.Obytes + g.Ibytes ≤ x.iomap.length := by omega
    have hsent := sendProcessdata_sent
      (configMapGroup_segmented (fun s hs => (hplain s hs).toFresh) hmap hsize) hasdc hroom'
    have hold : ∀ j < s.inWindow.length, x.iomap[s.inWindow.start + j]? =
        some (x.iomap.getD (s.inWindow.start + j) 0) := by
      intro j hj
      unfold Area.stop at hto
      rw [List.getD_eq_getElem?_getD, List.getElem?_eq_getElem (by omega)]
      rfl
    obtain ⟨n, f, -, -, -, hbytes⟩ :=
      inputs_return fate x.memory himage hsent hroom' x.DCtime (hapart s hmem) hs hb rfl
    have hget : ∀ j < s.inWindow.length,
        (x.step slaves' g hasdc (.cycle fate)).iomap[s.inWindow.start + j]? = some
          (if (fate n).returns then
            if (fate n).takes k then x.memory k (s.inPhys + j)
            else if f.com = .LRD then 0 else x.iomap.getD (s.inWindow.start + j) 0
          else x.iomap.getD (s.inWindow.start + j) 0) := hbytes
    by_cases hret : (fate n).returns = true
    · by_cases htakes : (fate n).takes k = true
      · exact Or.inr (Or.inr ⟨⟨fate, rfl⟩, fun j hj => by rw [hget j hj, if_pos hret, if_pos htakes]⟩)
      · by_cases hcom : f.com = .LRD
        · exact Or.inr (Or.inl fun j hj => by
            rw [hget j hj, if_pos hret, if_neg htakes, if_pos hcom])
        · exact Or.inl fun j hj => by
            rw [hget j hj, if_pos hret, if_neg htakes, if_neg hcom, hold j hj]
    · exact Or.inl fun j hj => by rw [hget j hj, if_neg hret, hold j hj]

/-- At any time, a slave has the outputs of one of the cycles, if not those it started with; and the IO
map has for its inputs what the slave had in one of the cycles, if not what was there at the start or
the zeros of an LRD frame that the slave has not taken part in. -/
theorem run_untorn (hasdc : Bool) (x : Plant) (hroom : x.iomap.length = IOMAP_SIZE) (acts : List Act) :
    Once slaves' g hasdc x acts
        (∀ j < s.outWindow.length,
          (x.run slaves' g hasdc acts).memory k (s.outPhys + j) = x.memory k (s.outPhys + j))
        (fun y => ∀ j < s.outWindow.length, (x.run slaves' g hasdc acts).memory k (s.outPhys + j) =
          y.iomap.getD (s.outWindow.start + j) 0) ∧
      Once slaves' g hasdc x acts
        ((∀ j < s.inWindow.length, (x.run slaves' g hasdc acts).iomap[s.inWindow.start + j]? =
            x.iomap[s.inWindow.start + j]?) ∨
          ∀ j < s.inWindow.length, (x.run slaves' g hasdc acts).iomap[s.inWindow.start + j]? = some 0)
        (fun y => ∀ j < s.inWindow.length, (x.run slaves' g hasdc acts).iomap[s.inWindow.start + j]? =
          some (y.memory k (s.inPhys + j))) := by
  induction acts using List.reverseRecOn with
  | nil => exact ⟨Or.inl fun j _ => rfl, Or.inl (Or.inl fun j _ => rfl)⟩
  | append_singleton acts a ih =>
    obtain ⟨hout, hin⟩ := ih
    have hnext : x.run slaves' g hasdc (acts ++ [a]) =
        (x.run slaves' g hasdc acts).step slaves' g hasdc a := List.foldl_concat _ _ _ _
    have hlen : (x.run slaves' g hasdc acts).iomap.length = IOMAP_SIZE := (run_length acts).trans hroom
    rw [hnext]
    constructor
    · rcases step_outputs hplain hmap hapart hsize hs hasdc hlen a with hsame | ⟨⟨fate, rfl⟩, hnew⟩
      · exact hout.weaken a (fun h j hj => (hsame j hj).trans (h j hj)) fun y h j hj =>
          (hsame j hj).trans (h j hj)
      · exact Once.now hnew
    · rcases step_inputs hplain hmap hapart hsize hs hasdc hlen a with
        hsame | hzero | ⟨⟨fate, rfl⟩, hnew⟩
      · refine hin.weaken a ?_ fun y h j hj => (hsame j hj).trans (h j hj)
        rintro (h | h)
        · exact Or.inl fun j hj => (hsame j hj).trans (h j hj)
        · exact Or.inr fun j hj => (hsame j hj).trans (h j hj)
      · exact Or.inl (Or.inr hzero)
      · exact Once.now hnew

end Slave

/-- A cycle that only the first slave takes part in, new outputs, and a measurement. -/
def twoActs : List Act :=
  [.cycle fun _ => ⟨fun k => k == 0, true, 0, 0⟩, .setOutputs [3, 4, 5], .measure fun _ _ => 9]

def twoStart : Plant := ⟨oneMap, 0, fun _ _ => 7⟩

theorem run_untorn_two : Once twoMapped.1 twoMapped.2 false twoStart twoActs
    (∀ j < 4, (twoStart.run twoMapped.1 twoMapped.2 false twoActs).memory 1 (0x1100 + j) = 7)
    fun y => ∀ j < 4, (twoStart.run twoMapped.1 twoMapped.2 false twoActs).memory 1 (0x1100 + j) =
      y.iomap.getD (2 + j) 0 := by
  obtain ⟨s, hs, hphys, hwindow⟩ : ∃ s, twoMapped.1[1]? = some s ∧ s.outPhys = 0x1100 ∧
      s.outWindow = ⟨2, 4⟩ := ⟨_, rfl, by decide, by decide⟩
  have hall := (run_untorn plain_two twoMapped_eq (by decide) (by decide) hs false twoStart oneMap_length
    twoActs).1
  rwa [hphys, hwindow] at hall

end Run
end EcatMaster.Soem
