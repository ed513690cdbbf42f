import EcatMaster.Node.Setup
import EcatMaster.Node.Threads

/-! # The wait loop of `on_shutdown`

`run` registers `on_shutdown` whenever `setup_ecat` returns true, and `on_shutdown` waits for a flag
that only the data cycle sets. It holds the node through the pointer `get_node` returned, so no
destructor clears `running_` under the data cycle. Where the two threads run the wait ends within
`4 * n + 7` sections of the data cycle; the setup also returns true where it has started none.
-/

namespace EcatMaster
set_option autoImplicit false
open EventRun

/-- The sections of `datacycle_callback`. -/
def Event.isData {n : ℕ} : Event n → Bool
  | .dataStart | .dataReceiveProcessdata _ _ | .dataReceive | .dataProcess _ | .dataExitCheck
  | .dataExitReset | .dataTransfer | .dataSend | .dataStop => true
  | _ => false

namespace Node
variable {n : ℕ}

/-- The wait loop of `on_shutdown` ends in every run from `N`. `stopRunning` is what follows it. -/
structure ShutdownEnds (cfg : ConfigurationParser) (N : Node n) : Prop where
  started : N.data = .start
  proceeds : ∀ es M, exec (step cfg) N es = some M → M.exiting = true →
    M.exitingResetCalled = false → ∃ e : Event n, e.isData = true ∧ (step cfg M e).isSome = true
  nextIteration : ∀ es M, exec (step cfg) N es = some M → M.exiting = true →
    ∀ wait wkc inputs body M', exec (step cfg) M
      (wait ++ .dataReceiveProcessdata wkc inputs :: (body ++ [.dataSend])) = some M' →
    M'.exitingResetCalled = true
  ends : ∀ es M, exec (step cfg) N es = some M → M.exiting = true →
    ∀ rest M', exec (step cfg) M rest = some M' → 4 * n + 7 ≤ rest.countP Event.isData →
    (step cfg M' .stopRunning).isSome = true

/-! ## The flags -/

theorem exiting_of_step {cfg : ConfigurationParser} {N N' : Node n} {e : Event n}
    (h : step cfg N e = some N') (hex : N.exiting = true) : N'.exiting = true := by
  obtain h | h | h := step_cases h
  · exact h.checkFrame.exiting.trans hex
  · exact h.dataFrame.exiting.trans hex
  · cases h with
    | onShutdown => rfl
    | command | rclcppShutdown | stopRunning => exact hex

theorem DataStep.called {cfg : ConfigurationParser} {N N' : Node n} {e : Event n}
    (h : DataStep cfg N e N') (hcalled : N.exitingResetCalled = true) :
    N'.exitingResetCalled = true := by
  cases h with
  | receive | process | transfer =>
    exact forSlave_of (P := fun M => M.exitingResetCalled = true) (fun _ => hcalled) hcalled
  | exitReset =>
    exact forSlave_of (P := fun M => M.exitingResetCalled = true) (fun _ => hcalled) rfl
  | start | receiveProcessdata | exitCheck | send | stop => exact hcalled

theorem called_of_step {cfg : ConfigurationParser} {N N' : Node n} {e : Event n}
    (h : step cfg N e = some N') (hcalled : N.exitingResetCalled = true) :
    N'.exitingResetCalled = true := by
  obtain h | h | h := step_cases h
  · exact h.sameData.2.trans hcalled
  · exact h.called hcalled
  · exact h.same.2.2.trans hcalled

/-- Until `exiting_reset_called_` is set, nothing has stopped the data cycle. -/
def Cycling (N : Node n) : Prop :=
  N.exitingResetCalled = false → N.running = true ∧ N.data ≠ .done

theorem cycling_of_step {cfg : ConfigurationParser} {N N' : Node n} {e : Event n}
    (h : step cfg N e = some N') (hN : Cycling N) : Cycling N' := by
  intro hopen
  have hopen' : N.exitingResetCalled = false := by
    by_contra hcalled
    rw [called_of_step h (Bool.eq_true_of_not_eq_false hcalled)] at hopen
    cases hopen
  obtain ⟨hrunning, hdata⟩ := hN hopen'
  obtain h | h | h := step_cases h
  · exact ⟨h.checkFrame.running.trans hrunning, fun hd => hdata (h.checkFrame.data.symm.trans hd)⟩
  · refine ⟨h.dataFrame.running.trans hrunning, ?_⟩
    cases h with
    | stop hpc hstop => exact absurd hrunning hstop
    | receive | process | exitReset | transfer =>
      exact forSlave_of (P := fun M => M.data ≠ .done) (fun _ => DataPc.noConfusion)
        DataPc.noConfusion
    | exitCheck =>
      unfold goData
      simp only
      split <;> exact DataPc.noConfusion
    | start | receiveProcessdata | send => exact DataPc.noConfusion
  · cases h with
    | stopRunning hreset =>
      rw [hopen'] at hreset
      cases hreset.2
    | command | rclcppShutdown | onShutdown => exact ⟨hrunning, hdata⟩

/-! ## The way to the flag -/

/-- How many sections the data cycle is from setting the flag, once `exiting_` is set. -/
def exitDistance (n : ℕ) : DataPc → ℕ
  | .start => 3 * n + 6
  | .loop => 3 * n + 5
  | .receive k => (n - k) + 2 * n + 4
  | .process k => (n - k) + n + 3
  | .exitCheck => n + 2
  | .exitReset k => (n - k) + 1
  | .transfer k => (n - k) + 3 * n + 7
  | .send => 3 * n + 6
  | .done => 0

theorem exitDistance_le (n : ℕ) (pc : DataPc) : exitDistance n pc ≤ 4 * n + 7 := by
  cases pc <;> simp only [exitDistance] <;> omega

theorem exitDistance_pos (n : ℕ) {pc : DataPc} (h : pc ≠ .done) : 0 < exitDistance n pc := by
  cases pc with
  | done => exact absurd rfl h
  | _ => exact Nat.succ_pos _

theorem DataStep.closer {cfg : ConfigurationParser} {N N' : Node n} {e : Event n}
    (h : DataStep cfg N e N') (hrunning : N.running = true) (hex : N.exiting = true)
    (hopen : N.exitingResetCalled = false) :
    N'.exitingResetCalled = true ∨
      exitDistance n N'.data + 1 ≤ exitDistance n N.data := by
  cases h with
  | start hpc | receiveProcessdata _ _ hpc | send hpc =>
    refine Or.inr ?_
    rw [hpc]
    simp only [exitDistance, goData]
    omega
  | stop hpc hstop => exact absurd hrunning hstop
  | exitCheck hpc =>
    refine Or.inr ?_
    rw [hpc]
    simp only [goData, hex, hopen, Bool.false_eq_true, not_false_eq_true, and_self, if_true,
      exitDistance]
    omega
  | receive k hpc | process _ k hpc | transfer k hpc =>
    refine Or.inr ?_
    rw [hpc]
    unfold forSlave
    split <;> simp only [exitDistance, goData] <;> omega
  | exitReset k hpc =>
    unfold forSlave
    split
    · refine Or.inr ?_
      rw [hpc]
      simp only [exitDistance, goData]
      omega
    · exact Or.inl rfl

theorem DataStep.isData {cfg : ConfigurationParser} {N N' : Node n} {e : Event n}
    (h : DataStep cfg N e N') : e.isData = true := by
  cases h <;> rfl

theorem CheckStep.not_isData {cfg : ConfigurationParser} {N N' : Node n} {e : Event n}
    (h : CheckStep cfg N e N') : e.isData = false := by
  cases h <;> rfl

theorem OtherStep.not_isData {cfg : ConfigurationParser} {N N' : Node n} {e : Event n}
    (h : OtherStep cfg N e N') : e.isData = false := by
  cases h <;> rfl

/-- A section of the data cycle comes closer to the flag; the others do not move it. -/
theorem exitDistance_of_step {cfg : ConfigurationParser} {N N' : Node n} {e : Event n}
    (h : step cfg N e = some N') (hN : Cycling N) (hex : N.exiting = true)
    (hopen : ¬ N.exitingResetCalled = true) :
    N'.exitingResetCalled = true ∨
      exitDistance n N'.data + (if e.isData then 1 else 0) ≤ exitDistance n N.data := by
  have hopen := Bool.eq_false_of_not_eq_true hopen
  obtain h | h | h := step_cases h
  · rw [h.not_isData, h.sameData.1]
    exact Or.inr (Nat.le_refl _)
  · rw [h.isData]
    exact h.closer (hN hopen).1 hex hopen
  · rw [h.not_isData, h.same.2.1]
    exact Or.inr (Nat.le_refl _)

/-- **Termination.** Within `4 * n + 7` sections of the data cycle the flag is set. -/
theorem called_of_countP {cfg : ConfigurationParser} {M M' : Node n} {rest : List (Event n)}
    (hM : Cycling M) (hex : M.exiting = true) (h : exec (step cfg) M rest = some M')
    (hcount : 4 * n + 7 ≤ rest.countP Event.isData) : M'.exitingResetCalled = true := by
  have hkeep : ∀ (N : Node n) e N', Cycling N ∧ N.exiting = true → step cfg N e = some N' →
      Cycling N' ∧ N'.exiting = true :=
    fun N e N' hN h => ⟨cycling_of_step h hN.1, exiting_of_step h hN.2⟩
  have hdown := exec_countdown (G := fun N => N.exitingResetCalled = true)
    (μ := fun N => exitDistance n N.data) (p := Event.isData) hkeep
    (fun N e N' _ h => called_of_step h)
    (fun N e N' hN h => exitDistance_of_step h hN.1 hN.2) ⟨hM, hex⟩ h
  obtain hcalled | hzero := hdown
  · exact hcalled
  · by_contra hopen
    have hM' : Cycling M' ∧ M'.exiting = true := exec_invariant _ hkeep ⟨hM, hex⟩ h
    have hpos := exitDistance_pos n (hM'.1 (Bool.eq_false_of_not_eq_true hopen)).2
    have hle := exitDistance_le n M.data
    omega

/-- The data cycle is never stuck. -/
theorem data_enabled {cfg : ConfigurationParser} {M : Node n} (hrunning : M.running = true)
    (hdata : M.data ≠ .done) :
    ∃ e : Event n, e.isData = true ∧ (step cfg M e).isSome = true := by
  cases hpc : M.data with
  | start => exact ⟨.dataStart, rfl, by simp [step, dataStep, hpc]⟩
  | loop => exact ⟨.dataReceiveProcessdata 0 fun _ => [], rfl, by simp [step, dataStep, hpc, hrunning]⟩
  | receive k => exact ⟨.dataReceive, rfl, by simp [step, dataStep, hpc]⟩
  | process k => exact ⟨.dataProcess 0, rfl, by simp [step, dataStep, hpc]⟩
  | exitCheck => exact ⟨.dataExitCheck, rfl, by simp [step, dataStep, hpc]⟩
  | exitReset k => exact ⟨.dataExitReset, rfl, by simp [step, dataStep, hpc]⟩
  | transfer k => exact ⟨.dataTransfer, rfl, by simp [step, dataStep, hpc]⟩
  | send => exact ⟨.dataSend, rfl, by simp [step, dataStep, hpc]⟩
  | done => exact absurd hpc hdata

/-! ## One iteration -/

/-- The part of an iteration up to the exit step. -/
def BeforeExit : DataPc → Prop
  | .receive _ | .process _ | .exitCheck | .exitReset _ => True
  | _ => False

/-- An iteration that began with `exiting_` set is not past its exit step without the flag. -/
def Exits (N : Node n) : Prop :=
  N.exiting = true ∧ (N.exitingResetCalled = true ∨ BeforeExit N.data)

theorem exits_of_step {cfg : ConfigurationParser} {N N' : Node n} {e : Event n}
    (hN : Exits N) (h : step cfg N e = some N') : Exits N' := by
  refine ⟨exiting_of_step h hN.1, ?_⟩
  obtain hcalled | hpc := hN.2
  · exact Or.inl (called_of_step h hcalled)
  by_cases hopen : N.exitingResetCalled = true
  · exact Or.inl (called_of_step h hopen)
  obtain h | h | h := step_cases h
  · rw [h.sameData.1]
    exact Or.inr hpc
  · cases h with
    | receive k | process _ k =>
      unfold forSlave
      split <;> exact Or.inr trivial
    | exitCheck =>
      refine Or.inr ?_
      simp only [goData, hN.1, Bool.eq_false_of_not_eq_true hopen, Bool.false_eq_true,
        not_false_eq_true, and_self, if_true, BeforeExit]
    | exitReset k =>
      unfold forSlave
      split
      · exact Or.inr trivial
      · exact Or.inl rfl
    | start hat | receiveProcessdata _ _ hat | transfer _ hat | send hat | stop hat =>
      rw [hat] at hpc
      exact hpc.elim
  · rw [h.same.2.1]
    exact Or.inr hpc

theorem send_of_step {cfg : ConfigurationParser} {N N' : Node n}
    (h : step cfg N .dataSend = some N') : N.data = .send := by
  obtain h | h | h := step_cases h
  · cases h
  · cases h with
    | send hpc => exact hpc
  · cases h

/-- An iteration that begins after `exiting_` does not end without the flag. -/
theorem called_of_iteration {cfg : ConfigurationParser} {M M' : Node n} {wkc : ℤ}
    {inputs : Fin n → List UInt8} {body : List (Event n)} (hex : M.exiting = true)
    (h : exec (step cfg) M (.dataReceiveProcessdata wkc inputs :: (body ++ [.dataSend])) = some M') :
    M'.exitingResetCalled = true := by
  obtain ⟨N, hbegin, h⟩ := exec_cons.mp h
  obtain ⟨L, hbody, h⟩ := exec_append.mp h
  obtain ⟨L', hsend, h⟩ := exec_cons.mp h
  obtain rfl : L' = M' := Option.some.inj h
  have hN : Exits N := by
    have hex' := exiting_of_step hbegin hex
    obtain h | h | h := step_cases hbegin <;> cases h
    exact ⟨hex', Or.inr trivial⟩
  obtain ⟨-, hcalled | hpc⟩ := exec_invariant Exits
    (fun _ _ _ hI hs => exits_of_step hI hs) hN hbody
  · exact called_of_step hsend hcalled
  · rw [send_of_step hsend] at hpc
    exact hpc.elim

/-! ## What the setup leaves -/

/-- Where the threads have been started the wait loop ends. -/
theorem Initial.shutdownEnds {cfg : ConfigurationParser} {N : Node n} (h : Initial cfg N) :
    ShutdownEnds cfg N := by
  have hcycling {es : List (Event n)} {M : Node n} (hrun : exec (step cfg) N es = some M) :
      Cycling M := by
    refine exec_invariant Cycling (fun _ _ _ hI hs => cycling_of_step hs hI) (fun _ => ?_) hrun
    exact ⟨h.running, by rw [h.data]; exact DataPc.noConfusion⟩
  have hexiting {M M' : Node n} {es : List (Event n)} (hex : M.exiting = true)
      (hrun : exec (step cfg) M es = some M') : M'.exiting = true :=
    exec_invariant (fun N => N.exiting = true) (fun _ _ _ hI hs => exiting_of_step hs hI) hex hrun
  refine ⟨h.data, ?_, ?_, ?_⟩
  · intro es M hrun _ hopen
    obtain ⟨hrunning, hdata⟩ := hcycling hrun hopen
    exact data_enabled hrunning hdata
  · intro es M hrun hex wait wkc inputs body M' hiter
    obtain ⟨L, hwait, hiter⟩ := exec_append.mp hiter
    exact called_of_iteration (hexiting hex hwait) hiter
  · intro es M hrun hex rest M' hrest hcount
    have hcalled := called_of_countP (hcycling hrun) hex hrest hcount
    have hstop : M'.exiting = true ∧ M'.exitingResetCalled = true := ⟨hexiting hex hrest, hcalled⟩
    simp [step, otherStep, hstop]

/-- Without a data thread nothing sets the flag. -/
theorem not_called_of_done {cfg : ConfigurationParser} {N N' : Node n} {es : List (Event n)}
    (hdata : N.data = .done) (hopen : N.exitingResetCalled = false)
    (h : exec (step cfg) N es = some N') : N'.data = .done ∧ N'.exitingResetCalled = false := by
  refine exec_invariant (fun N : Node n => N.data = .done ∧ N.exitingResetCalled = false) ?_
    ⟨hdata, hopen⟩ h
  rintro N e N' ⟨hdata, hopen⟩ hstep
  obtain h | h | h := step_cases hstep
  · exact ⟨h.sameData.1.trans hdata, h.sameData.2.trans hopen⟩
  · cases h with
    | start hpc | receiveProcessdata _ _ hpc | receive _ hpc | process _ _ hpc | exitCheck hpc
    | exitReset _ hpc | transfer _ hpc | send hpc | stop hpc =>
      rw [hdata] at hpc
      cases hpc
  · exact ⟨h.same.2.1.trans hdata, h.same.2.2.trans hopen⟩

/-- **The wait loop of `on_shutdown`** ends after every setup that returns true exactly if that setup
has read OPERATIONAL in one of its 51 turns. -/
theorem setup_shutdownEnds (cfg : ConfigurationParser) (bus : SetupBus n) :
    (∀ N, setupEcat cfg bus = .ok (true, N) → ShutdownEnds cfg N) ↔
      (SetupAccepts cfg bus → ReachesOp bus) := by
  constructor
  · intro h haccepts
    obtain ⟨N, hN⟩ := setupEcat_true_iff.mpr haccepts
    have hstarted := (h N hN).started
    obtain ⟨-, -, devs, -, rfl⟩ := setupEcat_true.mp hN
    rw [← awaitOp_reachesOp]
    by_contra hop
    simp only [if_neg hop] at hstarted
    cases hstarted
  · intro h N hN
    exact (setupEcat_initial hN (h (setupEcat_true_iff.mp ⟨N, hN⟩))).shutdownEnds

/-- One DSHOT board that is found and mapped but stays in SAFE_OP. -/
def safeOpBus : SetupBus 1 where
  ecInit := true
  configInit := 1
  hook := fun _ => some (some 7, some [56])
  slaves := fun _ => ⟨EC_STATE_SAFE_OP, false, [], [], 3⟩
  outputsWkc := 1
  inputsWkc := 1
  opAnswers := fun _ => EC_STATE_SAFE_OP

/-- What `setup_ecat` returns true with on `safeOpBus`: a node without threads. -/
def safeOpNode : Node 1 :=
  { dshotNode with
    slots := fun i => ⟨SlaveDevice.dshotDevice, safeOpBus.slaves i⟩
    data := .done
    check := .done }

/-- On that board the setup succeeds, and a Ctrl-C then leaves `on_shutdown` waiting for ever. -/
theorem safeOpBus_waits :
    ¬ (∀ N, setupEcat SlaveDevice.dshotConfig safeOpBus = .ok (true, N) →
      ShutdownEnds SlaveDevice.dshotConfig N) ∧
    setupEcat SlaveDevice.dshotConfig safeOpBus = .ok (true, safeOpNode) ∧
    ∃ M, exec (step SlaveDevice.dshotConfig) safeOpNode [.rclcppShutdown, .onShutdown] = some M ∧
      M.exiting = true ∧
      ∀ es M', exec (step SlaveDevice.dshotConfig) M es = some M' →
        step SlaveDevice.dshotConfig M' .stopRunning = none := by
  have hsetup : setupEcat SlaveDevice.dshotConfig safeOpBus = .ok (true, safeOpNode) :=
    setupEcat_true.mpr ⟨rfl, by decide, fun _ => SlaveDevice.dshotDevice,
      Fin.forall_fin_one.mpr (by rfl), by rfl⟩
  refine ⟨fun h => ?_, hsetup, _, rfl, rfl, fun es M' hes => ?_⟩
  · have hstarted := (h safeOpNode hsetup).started
    cases hstarted
  · obtain ⟨-, hopen⟩ := not_called_of_done (by rfl) (by rfl) hes
    simp [step, otherStep, hopen]

end Node
end EcatMaster
