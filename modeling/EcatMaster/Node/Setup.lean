import EcatMaster.Node.Step

/-! # `setup_ecat`: from the bus scan to the two threads

What SOEM and the slaves answer is in `SetupBus`. The answers to the checks for INIT and SAFE_OP are
not looked at; those to the check for OPERATIONAL come one for each turn of the last loop. Without a
thread the position of the data cycle or the checker is `done`.
-/

namespace EcatMaster
set_option autoImplicit false

/-- The bus while `setup_ecat` runs. `hook i` is `none` where SOEM never calls `config_ec_slave` for
the slave; its two reads may fail, and `opAnswers k` is `ec_slave[0].state` after turn `k`. -/
structure SetupBus (n : ℕ) where
  ecInit : Bool
  configInit : ℤ
  hook : Fin n → Option (Option UInt32 × Option (List UInt8))
  slaves : Fin n → EcSlave
  outputsWkc : UInt16
  inputsWkc : UInt16
  opAnswers : ℕ → UInt16

namespace Node
variable {n : ℕ}

/-- `ec_config_map`, as far as it calls the hook: `sw_rev_str_` is shared by all devices. -/
def configMap (cfg : ConfigurationParser) (bus : SetupBus n) :
    List (Fin n) → List UInt8 → (Fin n → SlaveDevice) → List UInt8 × (Fin n → SlaveDevice)
  | [], swRevStr, devs => (swRevStr, devs)
  | i :: rest, swRevStr, devs =>
      match bus.hook i with
      | none => configMap cfg bus rest swRevStr devs
      | some (snRead, swRevRead) =>
          let swRevStr := swRevRead.getD swRevStr
          configMap cfg bus rest swRevStr (Function.update devs i
            ((devs i).init cfg (bus.slaves i).eepId snRead swRevStr).2)

/-- The loop over `init_task_list`. -/
def initTaskLists (cfg : ConfigurationParser) :
    List (Fin n) → (Fin n → SlaveDevice) → Except Fault (Bool × (Fin n → SlaveDevice))
  | [], devs => return (true, devs)
  | i :: rest, devs => do
    let (ok, dev) ← (devs i).initTaskList cfg
    if ok = false then return (false, Function.update devs i dev)
    else initTaskLists cfg rest (Function.update devs i dev)

/-- The loop on `chk`, from turn `k` on: the state it leaves in `ec_slave[0]`. -/
def awaitOp (opAnswers : ℕ → UInt16) : ℕ → ℕ → UInt16
  | 0, k => opAnswers k
  | chk + 1, k =>
      if opAnswers k ≠ EC_STATE_OPERATIONAL then awaitOp opAnswers chk (k + 1) else opAnswers k

/-- The members of the node, and SOEM's records of the slaves, while there is no thread. The scan has
cleared `islost`. -/
def threadless (bus : SetupBus n) (swRevStr : List UInt8) (devs : Fin n → SlaveDevice)
    (expectedWkc : ℤ) : Node n where
  slots := fun i => ⟨devs i, { bus.slaves i with islost := false }⟩
  swRevStr := swRevStr
  running := true
  exiting := false
  exitingResetCalled := false
  inOperational := false
  ok := true
  wkc := 0
  expectedWkc := expectedWkc
  docheckstate := false
  data := .done
  check := .done

/-- `init_slave_devices_vector`. -/
def newDevices (n : ℕ) : Fin n → SlaveDevice := fun i => SlaveDevice.new (i + 1)

/-- The devices and `sw_rev_str_` behind `ec_config_map`. -/
def configuredDevices (cfg : ConfigurationParser) (bus : SetupBus n) :
    List UInt8 × (Fin n → SlaveDevice) :=
  configMap cfg bus (List.finRange n) [0, 0, 0, 0] (newDevices n)

def setupEcat (cfg : ConfigurationParser) (bus : SetupBus n) : Except Fault (Bool × Node n) :=
  if bus.ecInit = false then return (false, threadless bus [0, 0, 0, 0] (newDevices n) 0)
  else if bus.configInit ≤ 0 then return (false, threadless bus [0, 0, 0, 0] (newDevices n) 0)
  else do
    let (swRevStr, devs) := configuredDevices cfg bus
    let (ok, devs) ← initTaskLists cfg (List.finRange n) devs
    if ok = false then return (false, threadless bus swRevStr devs 0)
    else
      let N := threadless bus swRevStr devs (bus.outputsWkc.toNat * 2 + bus.inputsWkc.toNat)
      if awaitOp bus.opAnswers 50 0 = EC_STATE_OPERATIONAL then
        return (true, { N with data := .start, check := .loop })
      else return (true, N)

/-! ## The loop on `chk` -/

/-- A loop entered with `chk` makes `chk + 1` turns at most, since it tests before it decrements. -/
theorem awaitOp_operational (opAnswers : ℕ → UInt16) (chk k : ℕ) :
    awaitOp opAnswers chk k = EC_STATE_OPERATIONAL ↔
      ∃ j ≤ chk, opAnswers (k + j) = EC_STATE_OPERATIONAL := by
  induction chk generalizing k with
  | zero =>
    constructor
    · intro h
      exact ⟨0, Nat.le_refl _, h⟩
    · rintro ⟨j, hj, h⟩
      obtain rfl : j = 0 := Nat.le_zero.mp hj
      exact h
  | succ chk ih =>
    unfold awaitOp
    split
    · next hne =>
      rw [ih]
      constructor
      · rintro ⟨j, hj, h⟩
        refine ⟨j + 1, Nat.succ_le_succ hj, ?_⟩
        rw [← h]
        congr 1
        omega
      · rintro ⟨j, hj, h⟩
        cases j with
        | zero => exact absurd h hne
        | succ j =>
          refine ⟨j, Nat.le_of_succ_le_succ hj, ?_⟩
          rw [← h]
          congr 1
          omega
    · next heq =>
      rw [not_not] at heq
      exact iff_of_true heq ⟨0, Nat.zero_le _, heq⟩

/-! ## The loops over the slaves -/

theorem initTaskLists_ok {cfg : ConfigurationParser} {is : List (Fin n)} {devs : Fin n → SlaveDevice}
    (hnodup : is.Nodup) {r : Fin n → SlaveDevice} :
    initTaskLists cfg is devs = .ok (true, r) ↔
      (∀ i ∈ is, (devs i).initTaskList cfg = .ok (true, r i)) ∧ ∀ i ∉ is, r i = devs i := by
  induction is generalizing devs with
  | nil =>
    simp only [initTaskLists, List.not_mem_nil, false_imp_iff, implies_true, true_and,
      not_false_eq_true, true_imp_iff]
    constructor
    · intro h
      cases h
      exact fun _ => rfl
    · intro h
      rw [funext h]
      rfl
  | cons i is ih =>
    obtain ⟨hi, hnodup⟩ := List.nodup_cons.mp hnodup
    have hother (dev : SlaveDevice) {j : Fin n} (hj : j ∈ is) :
        Function.update devs i dev j = devs j := by
      have hji : j ≠ i := ne_of_mem_of_not_mem hj hi
      rw [Function.update_of_ne hji]
    simp only [initTaskLists, bind_eq_ok]
    constructor
    · rintro ⟨⟨ok, dev⟩, hdev, h⟩
      cases ok with
      | false => cases h
      | true =>
        obtain ⟨hin, hout⟩ := (ih hnodup).mp h
        have hri : r i = dev := (hout i hi).trans (Function.update_self _ _ _)
        refine ⟨fun j hj => ?_, fun j hj => ?_⟩
        · obtain rfl | hj := List.mem_cons.mp hj
          · rw [hdev, hri]
          · rw [← hin j hj, hother dev hj]
        · rw [List.mem_cons, not_or] at hj
          rw [hout j hj.2, Function.update_of_ne hj.1]
    · rintro ⟨hin, hout⟩
      refine ⟨(true, r i), hin i List.mem_cons_self, (ih hnodup).mpr ⟨fun j hj => ?_, fun j hj => ?_⟩⟩
      · rw [hother _ hj]
        exact hin j (List.mem_cons_of_mem _ hj)
      · by_cases hji : j = i
        · subst hji
          rw [Function.update_self]
        · rw [Function.update_of_ne hji]
          exact hout j (List.not_mem_cons_of_ne_of_not_mem hji hj)

/-- Behind `ec_config_map` a device is new, or its `init` has run once. -/
theorem configMap_dev (cfg : ConfigurationParser) (bus : SetupBus n) (is : List (Fin n))
    (hnodup : is.Nodup) (swRevStr : List UInt8) (devs : Fin n → SlaveDevice) (i : Fin n) :
    (configMap cfg bus is swRevStr devs).2 i = devs i ∨
      (i ∈ is ∧ ∃ snRead rev, (configMap cfg bus is swRevStr devs).2 i =
        ((devs i).init cfg (bus.slaves i).eepId snRead rev).2) := by
  induction is generalizing swRevStr devs with
  | nil => exact Or.inl rfl
  | cons j is ih =>
    obtain ⟨hj, hnodup⟩ := List.nodup_cons.mp hnodup
    unfold configMap
    split
    · exact (ih hnodup swRevStr devs).imp_right fun h => ⟨List.mem_cons_of_mem _ h.1, h.2⟩
    · next snRead swRevRead _ =>
      have h := ih hnodup (swRevRead.getD swRevStr) (Function.update devs j
        ((devs j).init cfg (bus.slaves j).eepId snRead (swRevRead.getD swRevStr)).2)
      by_cases hji : i = j
      · subst hji
        rw [Function.update_self] at h
        refine Or.inr ⟨List.mem_cons_self, snRead, swRevRead.getD swRevStr, ?_⟩
        exact h.resolve_right fun hin => hj hin.1
      · rw [Function.update_of_ne hji] at h
        exact h.imp_right fun h => ⟨List.mem_cons_of_mem _ h.1, h.2⟩

/-! ## What `setup_ecat` returns -/

/-- The setup gets to the request of OPERATIONAL. -/
def SetupAccepts (cfg : ConfigurationParser) (bus : SetupBus n) : Prop :=
  bus.ecInit = true ∧ 0 < bus.configInit ∧
    ∀ i, ∃ dev, ((configuredDevices cfg bus).2 i).initTaskList cfg = .ok (true, dev)

/-- A turn of the loop on `chk` reads OPERATIONAL: `chk` is 50 and the loop makes 51 turns. -/
def ReachesOp (bus : SetupBus n) : Prop := ∃ k ≤ 50, bus.opAnswers k = EC_STATE_OPERATIONAL

theorem setupEcat_true {cfg : ConfigurationParser} {bus : SetupBus n} {N : Node n} :
    setupEcat cfg bus = .ok (true, N) ↔ bus.ecInit = true ∧ 0 < bus.configInit ∧
      ∃ devs, (∀ i, ((configuredDevices cfg bus).2 i).initTaskList cfg = .ok (true, devs i)) ∧
        N = { threadless bus (configuredDevices cfg bus).1 devs
                (bus.outputsWkc.toNat * 2 + bus.inputsWkc.toNat) with
              data := if awaitOp bus.opAnswers 50 0 = EC_STATE_OPERATIONAL then .start else .done
              check := if awaitOp bus.opAnswers 50 0 = EC_STATE_OPERATIONAL then .loop else .done } := by
  unfold setupEcat
  by_cases hinit : bus.ecInit = false
  · rw [if_pos hinit, hinit]
    exact iff_of_false (fun h => by cases h) fun h => by cases h.1
  rw [if_neg hinit]
  by_cases hscan : bus.configInit ≤ 0
  · rw [if_pos hscan]
    exact iff_of_false (fun h => by cases h) fun h => absurd h.2.1 (Int.not_lt.mpr hscan)
  rw [if_neg hscan, bind_eq_ok]
  have hlists {devs : Fin n → SlaveDevice} :
      initTaskLists cfg (List.finRange n) (configuredDevices cfg bus).2 = .ok (true, devs) ↔
        ∀ i, ((configuredDevices cfg bus).2 i).initTaskList cfg = .ok (true, devs i) := by
    simpa using initTaskLists_ok (List.nodup_finRange n)
  constructor
  · rintro ⟨⟨ok, devs⟩, hdevs, h⟩
    refine ⟨Bool.eq_true_of_not_eq_false hinit, Int.not_le.mp hscan, devs, ?_⟩
    cases ok with
    | false => cases h
    | true =>
      refine ⟨hlists.mp hdevs, ?_⟩
      by_cases hop : awaitOp bus.opAnswers 50 0 = EC_STATE_OPERATIONAL
      · simp only [if_pos hop] at h ⊢
        cases h
        rfl
      · simp only [if_neg hop] at h ⊢
        cases h
        rfl
  · rintro ⟨-, -, devs, hdevs, rfl⟩
    refine ⟨(true, devs), hlists.mpr hdevs, ?_⟩
    by_cases hop : awaitOp bus.opAnswers 50 0 = EC_STATE_OPERATIONAL
    · simp only [if_pos hop]
      rfl
    · simp only [if_neg hop]
      rfl

/-- The setup returns true exactly when it gets to the request of OPERATIONAL, whatever comes of it. -/
theorem setupEcat_true_iff {cfg : ConfigurationParser} {bus : SetupBus n} :
    (∃ N, setupEcat cfg bus = .ok (true, N)) ↔ SetupAccepts cfg bus := by
  simp only [setupEcat_true, SetupAccepts, Classical.skolem]
  constructor
  · rintro ⟨N, hinit, hscan, devs, hdevs, -⟩
    exact ⟨hinit, hscan, devs, hdevs⟩
  · rintro ⟨hinit, hscan, devs, hdevs⟩
    exact ⟨_, hinit, hscan, devs, hdevs, rfl⟩

theorem awaitOp_reachesOp (bus : SetupBus n) :
    awaitOp bus.opAnswers 50 0 = EC_STATE_OPERATIONAL ↔ ReachesOp bus := by
  rw [awaitOp_operational]
  simp only [Nat.zero_add]
  rfl

/-- `init_task_list` accepts no device that `init` has refused: one that fails the revision check it
refuses itself, and without `sdo_len` it throws. -/
theorem init_of_initTaskList {cfg : ConfigurationParser} {index : ℕ} {eepId : UInt32}
    {snRead : Option UInt32} {swRevStr : List UInt8} {dev : SlaveDevice}
    (h : ((SlaveDevice.new index).init cfg eepId snRead swRevStr).2.initTaskList cfg =
      .ok (true, dev)) :
    ((SlaveDevice.new index).init cfg eepId snRead swRevStr).1 = 1 := by
  have hnew : ¬ ((SlaveDevice.new index).sn ≠ 0 ∧
      (SlaveDevice.new index).sn ≠ snRead.getD (SlaveDevice.new index).sn) :=
    fun hrej => hrej.1 rfl
  rw [SlaveDevice.init_accepts]
  unfold SlaveDevice.init at h
  simp only [if_neg hnew] at h
  split at h
  · cases h
  · next hrev =>
    refine ⟨Or.inl rfl, hrev, ?_⟩
    unfold SlaveDevice.writeSdoLen at h
    simp only at h
    cases hlen : getFieldAs UInt16 cfg
        (slaveKey (snRead.getD (SlaveDevice.new index).sn) "sdo_len") with
    | error e =>
      simp only [hlen, SlaveDevice.initTaskList, Bool.true_eq_false, if_false, bind_eq_ok] at h
      obtain ⟨len, h, -⟩ := h
      cases h
    | ok len => rfl

/-- A device that `init_task_list` accepts behind `ec_config_map` is configured. -/
theorem configuredDevices_configured {cfg : ConfigurationParser} {bus : SetupBus n} {i : Fin n}
    {dev : SlaveDevice}
    (h : ((configuredDevices cfg bus).2 i).initTaskList cfg = .ok (true, dev)) :
    SlaveDevice.Configured cfg (bus.slaves i).eepId dev := by
  obtain hnew | ⟨-, snRead, rev, hini⟩ :=
    configMap_dev cfg bus (List.finRange n) (List.nodup_finRange n) [0, 0, 0, 0] (newDevices n) i
  · have hdev : (configuredDevices cfg bus).2 i = SlaveDevice.new (i + 1) := hnew
    rw [hdev] at h
    cases h
  · have hdev : (configuredDevices cfg bus).2 i =
        ((SlaveDevice.new (i + 1)).init cfg (bus.slaves i).eepId snRead rev).2 := hini
    rw [hdev] at h
    exact ⟨i + 1, snRead, rev, _, Prod.ext (init_of_initTaskList h) rfl, h⟩

/-- **The setup hands over an initial node** when a slave bus reaches OPERATIONAL. -/
theorem setupEcat_initial {cfg : ConfigurationParser} {bus : SetupBus n} {N : Node n}
    (h : setupEcat cfg bus = .ok (true, N)) (hop : ReachesOp bus) : Initial cfg N := by
  obtain ⟨-, -, devs, hdevs, rfl⟩ := setupEcat_true.mp h
  rw [← awaitOp_reachesOp] at hop
  simp only [if_pos hop]
  exact
    { configured := fun i => configuredDevices_configured (hdevs i)
      islost := fun _ => rfl
      running := rfl
      exiting := rfl
      exitingResetCalled := rfl
      inOperational := rfl
      ok := rfl
      data := rfl
      check := rfl }

end Node
end EcatMaster
