import EcatMaster.Node.Sections

/-! # Where the threads are

The data cycle, the checker and the callbacks each move only their own position. What leads to the
request of OPERATIONAL and through the exit step is read off the positions here.
-/

namespace EcatMaster
set_option autoImplicit false

namespace Node
variable {n : ℕ}

/-- The data cycle and the exit flag of a node. -/
def SameData (N N' : Node n) : Prop :=
  N'.data = N.data ∧ N'.exitingResetCalled = N.exitingResetCalled

/-- The callbacks and the shutdown move neither the checker nor the data cycle. -/
theorem OtherStep.same {cfg : ConfigurationParser} {N N' : Node n} {e : Event n}
    (h : OtherStep cfg N e N') : N'.check = N.check ∧ SameData N N' := by
  cases h <;> exact ⟨rfl, rfl, rfl⟩

/-! ## What each thread leaves alone -/

/-- What the body and the rest of a loop over the slaves both do, the loop does. -/
theorem forSlave_of {P : Node n → Prop} {k : ℕ} {body : Fin n → Node n} {rest : Node n}
    (hbody : ∀ j, P (body j)) (hrest : P rest) : P (forSlave k body rest) := by
  unfold forSlave
  split
  · exact hbody _
  · exact hrest

/-- What a step of the data cycle leaves alone. -/
structure DataFrame (N N' : Node n) : Prop where
  check : N'.check = N.check
  running : N'.running = N.running
  exiting : N'.exiting = N.exiting
  ok : N'.ok = N.ok

theorem DataStep.dataFrame {cfg : ConfigurationParser} {N N' : Node n} {e : Event n}
    (h : DataStep cfg N e N') : DataFrame N N' := by
  cases h with
  | receive | process | exitReset | transfer =>
    exact forSlave_of (fun _ => ⟨rfl, rfl, rfl, rfl⟩) ⟨rfl, rfl, rfl, rfl⟩
  | start | receiveProcessdata | exitCheck | send | stop => exact ⟨rfl, rfl, rfl, rfl⟩

/-- What a step of the checker leaves alone. -/
structure CheckFrame (N N' : Node n) : Prop where
  data : N'.data = N.data
  running : N'.running = N.running
  exiting : N'.exiting = N.exiting
  exitingResetCalled : N'.exitingResetCalled = N.exitingResetCalled
  ok : N'.ok = N.ok

theorem visitSlave_checkFrame (cfg : ConfigurationParser) (N : Node n) (i : Fin n) (k : ℕ)
    (answer : UInt16) : CheckFrame N (N.visitSlave cfg i k answer) := by
  unfold visitSlave
  simp only
  split
  · split
    · exact ⟨rfl, rfl, rfl, rfl, rfl⟩
    split
    · exact ⟨rfl, rfl, rfl, rfl, rfl⟩
    split <;> exact ⟨rfl, rfl, rfl, rfl, rfl⟩
  · exact ⟨rfl, rfl, rfl, rfl, rfl⟩

theorem foundSlave_checkFrame (cfg : ConfigurationParser) (N : Node n) (i : Fin n)
    (recovered : Bool) : CheckFrame N (N.foundSlave cfg i recovered) := by
  unfold foundSlave
  simp only
  split
  · split
    · split <;> exact ⟨rfl, rfl, rfl, rfl, rfl⟩
    · exact ⟨rfl, rfl, rfl, rfl, rfl⟩
  · exact ⟨rfl, rfl, rfl, rfl, rfl⟩

theorem afterReconfig_checkFrame (cfg : ConfigurationParser) (N : Node n) (i : Fin n)
    (state : UInt16) : CheckFrame N (N.afterReconfig cfg i state) := by
  unfold afterReconfig
  simp only
  split
  · split <;> exact ⟨rfl, rfl, rfl, rfl, rfl⟩
  · exact ⟨rfl, rfl, rfl, rfl, rfl⟩

theorem reconfigSlave_checkFrame (cfg : ConfigurationParser) (N : Node n) (i : Fin n) (k : ℕ)
    (r : Reconfig) : CheckFrame N (N.reconfigSlave cfg i k r) := by
  unfold reconfigSlave
  split <;> exact ⟨rfl, rfl, rfl, rfl, rfl⟩

theorem CheckFrame.goCheck {N M : Node n} (h : CheckFrame N M) (pc : CheckPc) :
    CheckFrame N (M.goCheck pc) :=
  ⟨h.data, h.running, h.exiting, h.exitingResetCalled, h.ok⟩

theorem CheckStep.checkFrame {cfg : ConfigurationParser} {N N' : Node n} {e : Event n}
    (h : CheckStep cfg N e N') : CheckFrame N N' := by
  cases h with
  | pass | idle | stop => exact ⟨rfl, rfl, rfl, rfl, rfl⟩
  | visit answer k =>
    exact forSlave_of (fun j => visitSlave_checkFrame cfg N j k answer) ⟨rfl, rfl, rfl, rfl, rfl⟩
  | reconfig r k =>
    exact forSlave_of (fun j => reconfigSlave_checkFrame cfg N j k r) ⟨rfl, rfl, rfl, rfl, rfl⟩
  | reset k state =>
    exact forSlave_of (fun j => (afterReconfig_checkFrame cfg N j state).goCheck _)
      ⟨rfl, rfl, rfl, rfl, rfl⟩
  | found recovered k =>
    exact forSlave_of (fun j => (foundSlave_checkFrame cfg N j recovered).goCheck _)
      ⟨rfl, rfl, rfl, rfl, rfl⟩
  | opRequest | reconfigTail =>
    exact forSlave_of (fun _ => ⟨rfl, rfl, rfl, rfl, rfl⟩) ⟨rfl, rfl, rfl, rfl, rfl⟩

theorem CheckStep.sameData {cfg : ConfigurationParser} {N N' : Node n} {e : Event n}
    (h : CheckStep cfg N e N') : SameData N N' :=
  ⟨h.checkFrame.data, h.checkFrame.exitingResetCalled⟩

/-! ## Where the checker requests OPERATIONAL -/

theorem visitSlave_opRequest {cfg : ConfigurationParser} {N : Node n} {i : Fin n} {k m : ℕ}
    {answer : UInt16} (h : (N.visitSlave cfg i k answer).check = .opRequest m) :
    m = k ∧ visitSection (N.slots i) = some .preRecover := by
  unfold visitSlave at h
  unfold visitSection
  simp only at h
  split at h
  · next hop =>
    rw [if_pos hop]
    split at h
    · next hsafe =>
      rw [if_pos hsafe]
      cases h
      exact ⟨rfl, rfl⟩
    split at h
    · revert h
      simp only [goCheck]
      split <;> intro h <;> cases h
    split at h <;> cases h
  · cases h

theorem forSlave_check {k : ℕ} {body : Fin n → Node n} {rest : Node n} {pc : CheckPc}
    (h : (forSlave k body rest).check = pc) : (∃ hk : k < n, (body ⟨k, hk⟩).check = pc) ∨
      rest.check = pc := by
  unfold forSlave at h
  split at h
  · next hk => exact Or.inl ⟨hk, h⟩
  · exact Or.inr h

theorem forSlave_rest {k : ℕ} {body : Fin n → Node n} {rest : Node n} {pc : CheckPc}
    (hbody : ∀ j, (body j).check ≠ pc) (h : (forSlave k body rest).check = pc) :
    rest.check = pc := by
  obtain ⟨hk, hpc⟩ | hrest := forSlave_check h
  · exact absurd hpc (hbody _)
  · exact hrest

theorem opRequest_of_step {cfg : ConfigurationParser} {N N' : Node n} {e : Event n} {i : Fin n}
    (h : step cfg N e = some N') (hpc : N'.check = .opRequest i) :
    sectionOf N e i = some .preRecover ∨ N.check = .opRequest i := by
  obtain h | h | h := step_cases h
  · cases h with
    | pass | stop => cases hpc
    | idle => exact Or.inr hpc
    | visit answer k hc =>
      obtain ⟨hk, hbody⟩ | hrest := forSlave_check hpc
      · obtain ⟨hik, hvisit⟩ := visitSlave_opRequest hbody
        obtain rfl : i = ⟨k, hk⟩ := Fin.ext hik
        refine Or.inl ?_
        simp only [sectionOf, hc]
        exact hvisit
      · cases hrest
    | reconfig r k hc =>
      refine Or.inr (forSlave_rest (fun j hj => ?_) hpc)
      unfold reconfigSlave at hj
      split at hj <;> cases hj
    | opRequest | reconfigTail | reset | found =>
      exact Or.inr (forSlave_rest (fun j hj => CheckPc.noConfusion hj) hpc)
  · exact Or.inr (h.dataFrame.check.symm.trans hpc)
  · exact Or.inr (h.same.1.symm.trans hpc)

/-! ## The exit step -/

/-- In the exit step the data cycle goes on by one slave and sets the flag behind the last; no other
step goes into it but at slave 0. -/
theorem exitReset_of_step {cfg : ConfigurationParser} {N N' : Node n} {e : Event n}
    (h : step cfg N e = some N') :
    SameData N N' ∨
    (N'.exitingResetCalled = N.exitingResetCalled ∧ ∀ k, N'.data = .exitReset k → k = 0) ∨
    ∃ k, N.data = .exitReset k ∧
      ((∃ hk : k < n, N'.data = .exitReset (k + 1) ∧
          N'.exitingResetCalled = N.exitingResetCalled ∧
          sectionOf N e ⟨k, hk⟩ = some .exitReset) ∨
        (n ≤ k ∧ N'.data = .transfer 0)) := by
  obtain h | h | h := step_cases h
  · exact Or.inl h.sameData
  · refine Or.inr ?_
    cases h with
    | start | receiveProcessdata | send | stop =>
      exact Or.inl ⟨rfl, fun k hk => DataPc.noConfusion hk⟩
    | receive | process | transfer =>
      refine Or.inl (forSlave_of (P := fun M => M.exitingResetCalled = N.exitingResetCalled ∧
        ∀ m, M.data = .exitReset m → m = 0) (fun _ => ⟨rfl, ?_⟩) ⟨rfl, ?_⟩) <;>
        exact fun k hk => DataPc.noConfusion hk
    | exitCheck hpc =>
      refine Or.inl ⟨rfl, fun k hk => ?_⟩
      unfold goData at hk
      simp only at hk
      split at hk <;> cases hk
      rfl
    | exitReset k hpc =>
      refine Or.inr ⟨k, hpc, ?_⟩
      unfold forSlave
      split
      · next hk =>
        refine Or.inl ⟨hk, rfl, rfl, ?_⟩
        simp only [sectionOf, hpc, if_true]
      · next hk => exact Or.inr ⟨Nat.le_of_not_lt hk, rfl⟩
  · exact Or.inl h.same.2

end Node
end EcatMaster
