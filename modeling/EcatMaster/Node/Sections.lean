import EcatMaster.Lib.Run
import EcatMaster.Node.Step

/-! # A run of the node, seen from one slave

`sectionOf` names the section a step runs on slave `i`, and `step_dev` says that a step changes the
device of slave `i` by that section and by nothing else. A history of slave `i` is therefore updated
section by section (`watchSlave`), and a property of all sections of every run is proved from an
invariant that each section keeps (`along_sections`, `along_sections_iff`).
-/

namespace EcatMaster
set_option autoImplicit false
open EventRun

namespace Node
variable {n : ℕ}

/-- The section `checkVisit` runs on the slave it visits. -/
def visitSection (slot : Slot) : Option Section :=
  if slot.ec.state ≠ EC_STATE_OPERATIONAL then
    if slot.ec.state = EC_STATE_SAFE_OP ∧ ¬ slot.dev.isRecoverRejected then some .preRecover
    else if slot.ec.state = EC_STATE_INIT then none
    else if slot.ec.islost = false ∧ slot.ec.state = EC_STATE_NONE then some .lost
    else none
  else none

/-- The section `checkFound` runs on the slave it ends the visit of. -/
def foundSection (slot : Slot) (recovered : Bool) : Option Section :=
  if slot.ec.islost then
    if slot.ec.state = EC_STATE_NONE then if recovered then some .recoverState else none
    else some .recoverState
  else none

/-- The device after a section, or as it was where there is none. -/
def after (cfg : ConfigurationParser) (s : Option Section) (dev : SlaveDevice) : SlaveDevice :=
  s.elim dev fun s => s.run cfg dev

/-! ## What a step does to one slot -/

theorem setSlot_slots (N : Node n) (i j : Fin n) (slot : Slot) :
    (N.setSlot i slot).slots j = if j = i then slot else N.slots j := by
  simp only [setSlot, Function.update_apply]

theorem setEc_ec (N : Node n) (i : Fin n) (ec : EcSlave) : ((N.setEc i ec).slots i).ec = ec := by
  unfold setEc
  rw [setSlot_slots, if_pos rfl]

theorem runSection_ec (cfg : ConfigurationParser) (N : Node n) (i j : Fin n) (s : Section) :
    ((N.runSection cfg i s).slots j).ec = (N.slots j).ec := by
  unfold runSection
  rw [setSlot_slots]
  split
  · next hj => rw [hj]
  · rfl

/-- `N'` is a step that runs `s` on slave `i` and leaves the other devices alone. -/
def Runs (cfg : ConfigurationParser) (N : Node n) (i : Fin n) (s : Option Section) (N' : Node n) :
    Prop :=
  ∀ j, (N'.slots j).dev = after cfg (if i = j then s else none) (N.slots j).dev ∧
    (N'.slots j).ec.eepId = (N.slots j).ec.eepId

theorem runs_setEc (cfg : ConfigurationParser) (N : Node n) (i : Fin n) (ec : EcSlave)
    (h : ec.eepId = (N.slots i).ec.eepId) : Runs cfg N i none (N.setEc i ec) := by
  intro j
  simp only [setEc, setSlot_slots, ite_self]
  by_cases hj : j = i
  · subst hj
    rw [if_pos rfl]
    exact ⟨rfl, h⟩
  · rw [if_neg hj]
    exact ⟨rfl, rfl⟩

theorem runs_runSection (cfg : ConfigurationParser) (N : Node n) (i : Fin n) (s : Section) :
    Runs cfg N i (some s) (N.runSection cfg i s) := by
  intro j
  simp only [runSection, setSlot_slots]
  by_cases hj : j = i
  · subst hj
    rw [if_pos rfl, if_pos rfl]
    exact ⟨rfl, rfl⟩
  · rw [if_neg hj, if_neg (Ne.symm hj)]
    exact ⟨rfl, rfl⟩

theorem Runs.comp {cfg : ConfigurationParser} {N M N' : Node n} {i : Fin n} {s : Option Section}
    (h : Runs cfg N i none M) (k : Runs cfg M i s N') : Runs cfg N i s N' := by
  intro j
  obtain ⟨hdev, heep⟩ := h j
  obtain ⟨kdev, keep⟩ := k j
  rw [ite_self] at hdev
  exact ⟨kdev.trans (congrArg _ hdev), keep.trans heep⟩

theorem Runs.goData {cfg : ConfigurationParser} {N M : Node n} {i : Fin n} {s : Option Section}
    (h : Runs cfg N i s M) (pc : DataPc) : Runs cfg N i s (M.goData pc) := h

theorem Runs.goCheck {cfg : ConfigurationParser} {N M : Node n} {i : Fin n} {s : Option Section}
    (h : Runs cfg N i s M) (pc : CheckPc) : Runs cfg N i s (M.goCheck pc) := h

theorem runs_none {cfg : ConfigurationParser} {N N' : Node n} (h : N'.slots = N.slots) (i : Fin n) :
    Runs cfg N i none N' := by
  intro j
  rw [h, ite_self]
  exact ⟨rfl, rfl⟩

theorem runs_setEc_runSection (cfg : ConfigurationParser) (N : Node n) (i : Fin n) (ec : EcSlave)
    (s : Section) (h : ec.eepId = (N.slots i).ec.eepId) :
    Runs cfg N i (some s) ((N.setEc i ec).runSection cfg i s) :=
  (runs_setEc cfg N i ec h).comp (runs_runSection cfg _ i s)

theorem visitSlave_runs (cfg : ConfigurationParser) (N : Node n) (k : ℕ) (answer : UInt16)
    (i : Fin n) : Runs cfg N i (visitSection (N.slots i)) (N.visitSlave cfg i k answer) := by
  unfold visitSlave visitSection
  simp only
  split
  · split
    · exact runs_runSection cfg N i _
    split
    · exact runs_setEc cfg N i { (N.slots i).ec with state := answer } rfl
    split
    · exact runs_setEc_runSection cfg N i { (N.slots i).ec with islost := true } .lost rfl
    · exact runs_none rfl i
  · exact runs_none rfl i

/-- The section of `reconfigSlave`. -/
def reconfigSection (N : Node n) (i : Fin n) : Reconfig → Option Section
  | .hook snRead swRevRead =>
      some (.init (N.slots i).ec.eepId snRead (swRevRead.getD N.swRevStr))
  | _ => none

theorem reconfigSlave_runs (cfg : ConfigurationParser) (N : Node n) (k : ℕ) (r : Reconfig)
    (i : Fin n) : Runs cfg N i (N.reconfigSection i r) (N.reconfigSlave cfg i k r) := by
  cases r with
  | noReply => exact runs_none rfl i
  | stopped answer => exact runs_setEc cfg N i { (N.slots i).ec with state := answer } rfl
  | hook snRead swRevRead =>
    exact runs_setEc_runSection cfg N i { (N.slots i).ec with state := EC_STATE_PRE_OP } _ rfl

theorem afterReconfig_runs (cfg : ConfigurationParser) (N : Node n) (state : UInt16) (i : Fin n) :
    Runs cfg N i (some .resetState) (N.afterReconfig cfg i state) := by
  unfold afterReconfig
  simp only
  split
  · split
    · exact runs_setEc_runSection cfg N i { (N.slots i).ec with state := EC_STATE_INIT } _ rfl
    · exact runs_setEc_runSection cfg N i { (N.slots i).ec with islost := false } _ rfl
  · exact runs_runSection cfg N i _

theorem foundSlave_runs (cfg : ConfigurationParser) (N : Node n) (recovered : Bool) (i : Fin n) :
    Runs cfg N i (foundSection (N.slots i) recovered) (N.foundSlave cfg i recovered) := by
  have hfound : Runs cfg N i (some .recoverState)
      ((N.setEc i { (N.slots i).ec with islost := false }).runSection cfg i .recoverState) :=
    runs_setEc_runSection cfg N i _ _ rfl
  unfold foundSlave foundSection
  simp only
  split
  · split
    · split
      · exact hfound
      · exact runs_none rfl i
    · exact hfound
  · exact runs_none rfl i

/-- One round of a loop over the slaves runs the section of the slave it is at. -/
theorem forSlave_dev {cfg : ConfigurationParser} {N rest : Node n} {k : ℕ} {body : Fin n → Node n}
    {s : Fin n → Option Section} (hbody : ∀ j, Runs cfg N j (s j) (body j))
    (hrest : rest.slots = N.slots) (i : Fin n) :
    ((forSlave k body rest).slots i).dev =
        after cfg (if k = i then s i else none) (N.slots i).dev ∧
      ((forSlave k body rest).slots i).ec.eepId = (N.slots i).ec.eepId := by
  unfold forSlave
  split
  · next hk =>
    obtain ⟨hdev, heep⟩ := hbody ⟨k, hk⟩ i
    refine ⟨hdev.trans ?_, heep⟩
    by_cases hi : k = i
    · have he : (⟨k, hk⟩ : Fin n) = i := Fin.ext hi
      rw [if_pos hi, if_pos he, he]
    · rw [if_neg hi, if_neg fun he => hi (congrArg Fin.val he)]
  · next hk =>
    have hi : k ≠ i := by
      have h := i.isLt
      omega
    rw [if_neg hi, hrest]
    exact ⟨rfl, rfl⟩

theorem forSlave_none {cfg : ConfigurationParser} {N rest : Node n} {k : ℕ} {body : Fin n → Node n}
    (hbody : ∀ j, Runs cfg N j none (body j)) (hrest : rest.slots = N.slots) (i : Fin n) :
    ((forSlave k body rest).slots i).dev = (N.slots i).dev ∧
      ((forSlave k body rest).slots i).ec.eepId = (N.slots i).ec.eepId := by
  have h := forSlave_dev (k := k) hbody hrest i
  rw [ite_self] at h
  exact h

/-! ## What a step does to one slave -/

/-- The section a step runs on slave `i`. -/
def sectionOf (N : Node n) (e : Event n) (i : Fin n) : Option Section :=
  match e, N.data, N.check with
  | .dataReceive, .receive k, _ =>
      if k = i then some (.receive (N.slots i).ec.inputs) else none
  | .dataProcess currentTime, .process k, _ =>
      if k = i then some (.process currentTime) else none
  | .dataExitReset, .exitReset k, _ => if k = i then some .exitReset else none
  | .dataTransfer, .transfer k, _ => if k = i then some .transfer else none
  | .checkVisit _, _, .visit k => if k = i then visitSection (N.slots i) else none
  | .checkReconfig r, _, .reconfig k => if k = i then N.reconfigSection i r else none
  | .checkReset, _, .reconfigDone k _ => if k = i then some .resetState else none
  | .checkFound recovered, _, .found k =>
      if k = i then foundSection (N.slots i) recovered else none
  | .command j task msg, _, _ => if j = i then some (.command task msg) else none
  | _, _, _ => none

/-- What the data cycle can do. -/
inductive DataStep (cfg : ConfigurationParser) (N : Node n) : Event n → Node n → Prop
  | start (hpc : N.data = .start) :
      DataStep cfg N .dataStart { N with inOperational := true, data := .loop }
  | receiveProcessdata (wkc : ℤ) (inputs : Fin n → List UInt8) (hpc : N.data = .loop)
      (hrunning : N.running = true) :
      DataStep cfg N (.dataReceiveProcessdata wkc inputs) { N with
        wkc := wkc
        slots := fun i => { N.slots i with ec := { (N.slots i).ec with inputs := inputs i } }
        data := .receive 0 }
  | receive (k : ℕ) (hpc : N.data = .receive k) :
      DataStep cfg N .dataReceive <| forSlave k
        (fun i => (N.runSection cfg i (.receive (N.slots i).ec.inputs)).goData (.receive (k + 1)))
        (N.goData (.process 0))
  | process (currentTime : ℤ) (k : ℕ) (hpc : N.data = .process k) :
      DataStep cfg N (.dataProcess currentTime) <| forSlave k
        (fun i => (N.runSection cfg i (.process currentTime)).goData (.process (k + 1)))
        (N.goData .exitCheck)
  | exitCheck (hpc : N.data = .exitCheck) :
      DataStep cfg N .dataExitCheck
        (N.goData (if N.exiting ∧ ¬ N.exitingResetCalled then .exitReset 0 else .transfer 0))
  | exitReset (k : ℕ) (hpc : N.data = .exitReset k) :
      DataStep cfg N .dataExitReset <| forSlave k
        (fun i => (N.runSection cfg i .exitReset).goData (.exitReset (k + 1)))
        { N with exitingResetCalled := true, data := .transfer 0 }
  | transfer (k : ℕ) (hpc : N.data = .transfer k) :
      DataStep cfg N .dataTransfer <| forSlave k
        (fun i => (N.setEc i { (N.slots i).ec with
          outputs := (N.slots i).dev.transferToSlave }).goData (.transfer (k + 1)))
        (N.goData .send)
  | send (hpc : N.data = .send) : DataStep cfg N .dataSend (N.goData .loop)
  | stop (hpc : N.data = .loop) (hstop : ¬ N.running = true) :
      DataStep cfg N .dataStop (N.goData .done)

/-- What the checker can do. -/
inductive CheckStep (cfg : ConfigurationParser) (N : Node n) : Event n → Node n → Prop
  | pass (states : Fin n → UInt16) (hpc : N.check = .loop)
      (hread : N.inOperational ∧ (N.wkc < N.expectedWkc ∨ N.docheckstate)) :
      CheckStep cfg N (.checkPass states) { N with
        docheckstate := false
        slots := fun i => { N.slots i with ec := { (N.slots i).ec with state := states i } }
        check := .visit 0 }
  | idle (states : Fin n → UInt16) (hpc : N.check = .loop)
      (hread : ¬ (N.inOperational ∧ (N.wkc < N.expectedWkc ∨ N.docheckstate))) :
      CheckStep cfg N (.checkPass states) N
  | visit (answer : UInt16) (k : ℕ) (hpc : N.check = .visit k) :
      CheckStep cfg N (.checkVisit answer) <| forSlave k
        (fun i => N.visitSlave cfg i k answer) (N.goCheck .loop)
  | opRequest (answer : UInt16) (k : ℕ) (hpc : N.check = .opRequest k) :
      CheckStep cfg N (.checkOpRequest answer) <| forSlave k
        (fun i => (N.setEc i { (N.slots i).ec with state := answer }).goCheck (.found k)) N
  | reconfig (r : Reconfig) (k : ℕ) (hpc : N.check = .reconfig k) :
      CheckStep cfg N (.checkReconfig r) <| forSlave k (fun i => N.reconfigSlave cfg i k r) N
  | reconfigTail (answer : UInt16) (k : ℕ) (hpc : N.check = .reconfigTail k) :
      CheckStep cfg N (.checkReconfigTail answer) <| forSlave k
        (fun i => (N.setEc i { (N.slots i).ec with state := answer }).goCheck
          (.reconfigDone k (answer &&& 0xf))) N
  | reset (k : ℕ) (state : UInt16) (hpc : N.check = .reconfigDone k state) :
      CheckStep cfg N .checkReset <| forSlave k
        (fun i => (N.afterReconfig cfg i state).goCheck (.found k)) N
  | found (recovered : Bool) (k : ℕ) (hpc : N.check = .found k) :
      CheckStep cfg N (.checkFound recovered) <| forSlave k
        (fun i => (N.foundSlave cfg i recovered).goCheck (.visit (k + 1))) N
  | stop (hpc : N.check = .loop) (hstop : ¬ (N.running ∧ N.ok)) :
      CheckStep cfg N .checkStop (N.goCheck .done)

/-- What the callbacks and the shutdown can do. -/
inductive OtherStep (cfg : ConfigurationParser) (N : Node n) : Event n → Node n → Prop
  | command (i : Fin n) (task : ℕ) (msg : Command)
      (hsome : ((N.slots i).dev.onCommand task msg).isSome) :
      OtherStep cfg N (.command i task msg) (N.runSection cfg i (.command task msg))
  | rclcppShutdown : OtherStep cfg N .rclcppShutdown { N with ok := false }
  | onShutdown (hok : ¬ N.ok = true) : OtherStep cfg N .onShutdown { N with exiting := true }
  | stopRunning (hreset : N.exiting ∧ N.exitingResetCalled) :
      OtherStep cfg N .stopRunning { N with running := false }

theorem dataStep_cases {cfg : ConfigurationParser} {N N' : Node n} {e : Event n}
    (h : N.dataStep cfg e = some N') : DataStep cfg N e N' := by
  unfold dataStep at h
  split at h
  · obtain ⟨hpc, h⟩ := Option.ite_none_right_eq_some.mp h
    cases h
    exact .start hpc
  · obtain ⟨⟨hpc, hrunning⟩, h⟩ := Option.ite_none_right_eq_some.mp h
    cases h
    exact .receiveProcessdata _ _ hpc hrunning
  · split at h <;> cases h
    next k hpc => exact .receive k hpc
  · split at h <;> cases h
    next k hpc => exact .process _ k hpc
  · obtain ⟨hpc, h⟩ := Option.ite_none_right_eq_some.mp h
    cases h
    exact .exitCheck hpc
  · split at h <;> cases h
    next k hpc => exact .exitReset k hpc
  · split at h <;> cases h
    next k hpc => exact .transfer k hpc
  · obtain ⟨hpc, h⟩ := Option.ite_none_right_eq_some.mp h
    cases h
    exact .send hpc
  · obtain ⟨⟨hpc, hstop⟩, h⟩ := Option.ite_none_right_eq_some.mp h
    cases h
    exact .stop hpc hstop
  · cases h

theorem checkStep_cases {cfg : ConfigurationParser} {N N' : Node n} {e : Event n}
    (h : N.checkStep cfg e = some N') : CheckStep cfg N e N' := by
  unfold checkStep at h
  split at h
  · obtain ⟨⟨hpc, -⟩, h⟩ := Option.ite_none_right_eq_some.mp h
    split at h
    · next hread =>
      cases h
      exact .pass _ hpc hread
    · next hread =>
      cases h
      exact .idle _ hpc hread
  · split at h <;> cases h
    next k hpc => exact .visit _ k hpc
  · split at h <;> cases h
    next k hpc => exact .opRequest _ k hpc
  · split at h <;> cases h
    next k hpc => exact .reconfig _ k hpc
  · split at h <;> cases h
    next k hpc => exact .reconfigTail _ k hpc
  · split at h <;> cases h
    next k state hpc => exact .reset k state hpc
  · split at h <;> cases h
    next k hpc => exact .found _ k hpc
  · obtain ⟨⟨hpc, hstop⟩, h⟩ := Option.ite_none_right_eq_some.mp h
    cases h
    exact .stop hpc hstop
  · cases h

theorem otherStep_cases {cfg : ConfigurationParser} {N N' : Node n} {e : Event n}
    (h : N.otherStep cfg e = some N') : OtherStep cfg N e N' := by
  unfold otherStep at h
  split at h
  · obtain ⟨hsome, h⟩ := Option.ite_none_right_eq_some.mp h
    cases h
    exact .command _ _ _ hsome
  · cases h
    exact .rclcppShutdown
  · obtain ⟨hok, h⟩ := Option.ite_none_left_eq_some.mp h
    cases h
    exact .onShutdown hok
  · obtain ⟨hreset, h⟩ := Option.ite_none_right_eq_some.mp h
    cases h
    exact .stopRunning hreset
  · cases h

/-- **A step is one of the three threads'.** -/
theorem step_cases {cfg : ConfigurationParser} {N N' : Node n} {e : Event n}
    (h : step cfg N e = some N') :
    CheckStep cfg N e N' ∨ DataStep cfg N e N' ∨ OtherStep cfg N e N' := by
  cases e <;> first
    | exact Or.inl (checkStep_cases h)
    | exact Or.inr (Or.inl (dataStep_cases h))
    | exact Or.inr (Or.inr (otherStep_cases h))

theorem DataStep.dev {cfg : ConfigurationParser} {N N' : Node n} {e : Event n}
    (h : DataStep cfg N e N') (i : Fin n) :
    (N'.slots i).dev = after cfg (sectionOf N e i) (N.slots i).dev ∧
      (N'.slots i).ec.eepId = (N.slots i).ec.eepId := by
  cases h with
  | start | receiveProcessdata | exitCheck | send | stop => exact ⟨rfl, rfl⟩
  | receive k hpc =>
    simp only [sectionOf, hpc]
    have hbody (j : Fin n) := (runs_runSection cfg N j (.receive (N.slots j).ec.inputs)).goData
      (.receive (k + 1))
    exact forSlave_dev hbody (by rfl) i
  | process currentTime k hpc =>
    simp only [sectionOf, hpc]
    have hbody (j : Fin n) := (runs_runSection cfg N j (.process currentTime)).goData
      (.process (k + 1))
    exact forSlave_dev hbody (by rfl) i
  | exitReset k hpc =>
    simp only [sectionOf, hpc]
    have hbody (j : Fin n) := (runs_runSection cfg N j .exitReset).goData (.exitReset (k + 1))
    exact forSlave_dev hbody (by rfl) i
  | transfer k hpc =>
    simp only [sectionOf, hpc]
    have hbody (j : Fin n) := (runs_setEc cfg N j { (N.slots j).ec with
      outputs := (N.slots j).dev.transferToSlave } rfl).goData (.transfer (k + 1))
    have hrest : (N.goData .send).slots = N.slots := rfl
    obtain ⟨hdev, heep⟩ := forSlave_none (k := k) hbody hrest i
    refine ⟨hdev.trans ?_, heep⟩
    split <;> rfl

theorem CheckStep.dev {cfg : ConfigurationParser} {N N' : Node n} {e : Event n}
    (h : CheckStep cfg N e N') (i : Fin n) :
    (N'.slots i).dev = after cfg (sectionOf N e i) (N.slots i).dev ∧
      (N'.slots i).ec.eepId = (N.slots i).ec.eepId := by
  cases h with
  | pass | idle | stop => exact ⟨rfl, rfl⟩
  | visit answer k hpc =>
    simp only [sectionOf, hpc]
    have hbody (j : Fin n) := visitSlave_runs cfg N k answer j
    exact forSlave_dev hbody (by rfl) i
  | opRequest answer k hpc =>
    have hbody (j : Fin n) := (runs_setEc cfg N j
      { (N.slots j).ec with state := answer } rfl).goCheck (.found k)
    exact forSlave_none hbody rfl i
  | reconfig r k hpc =>
    simp only [sectionOf, hpc]
    have hbody (j : Fin n) := reconfigSlave_runs cfg N k r j
    exact forSlave_dev hbody rfl i
  | reconfigTail answer k hpc =>
    have hbody (j : Fin n) := (runs_setEc cfg N j
      { (N.slots j).ec with state := answer } rfl).goCheck (.reconfigDone k (answer &&& 0xf))
    exact forSlave_none hbody rfl i
  | reset k state hpc =>
    simp only [sectionOf, hpc]
    have hbody (j : Fin n) := (afterReconfig_runs cfg N state j).goCheck (.found k)
    exact forSlave_dev hbody rfl i
  | found recovered k hpc =>
    simp only [sectionOf, hpc]
    have hbody (j : Fin n) := (foundSlave_runs cfg N recovered j).goCheck (.visit (k + 1))
    exact forSlave_dev hbody rfl i

theorem OtherStep.dev {cfg : ConfigurationParser} {N N' : Node n} {e : Event n}
    (h : OtherStep cfg N e N') (i : Fin n) :
    (N'.slots i).dev = after cfg (sectionOf N e i) (N.slots i).dev ∧
      (N'.slots i).ec.eepId = (N.slots i).ec.eepId := by
  cases h with
  | command j task msg hsome => exact runs_runSection cfg N j (.command task msg) i
  | rclcppShutdown | onShutdown | stopRunning => exact ⟨rfl, rfl⟩

/-- **A step changes a device by its section and by nothing else.** -/
theorem step_dev {cfg : ConfigurationParser} {N N' : Node n} {e : Event n}
    (h : step cfg N e = some N') (i : Fin n) :
    (N'.slots i).dev = after cfg (sectionOf N e i) (N.slots i).dev ∧
      (N'.slots i).ec.eepId = (N.slots i).ec.eepId := by
  obtain h | h | h := step_cases h
  · exact h.dev i
  · exact h.dev i
  · exact h.dev i

/-! ## Histories of one slave -/

/-- The sections of a slave with module identity `eepId`. -/
def OnModule (eepId : UInt32) : Section → Prop
  | .init eep _ _ => eep = eepId
  | _ => True

/-- What brings a section of slave `i` about: the state of the slave and the position of the checker. -/
def Placed (N : Node n) (i : Fin n) : Section → Prop
  | .preRecover => (N.slots i).ec.state = EC_STATE_SAFE_OP ∧
      (N.slots i).dev.isRecoverRejected = false
  | .init eepId _ _ => eepId = (N.slots i).ec.eepId ∧ N.check = .reconfig i
  | .lost => (N.slots i).ec.islost = false ∧ (N.slots i).ec.state = EC_STATE_NONE
  | .recoverState => (N.slots i).ec.islost = true
  | _ => True

theorem visitSection_placed {N : Node n} {i : Fin n} {s : Section}
    (h : visitSection (N.slots i) = some s) : Placed N i s := by
  unfold visitSection at h
  split at h
  · split at h
    · next hsafe =>
      cases h
      exact ⟨hsafe.1, Bool.eq_false_of_not_eq_true hsafe.2⟩
    split at h
    · cases h
    split at h
    · next hlost =>
      cases h
      exact hlost
    · cases h
  · cases h

theorem foundSection_placed {N : Node n} {i : Fin n} {recovered : Bool} {s : Section}
    (h : foundSection (N.slots i) recovered = some s) : Placed N i s := by
  unfold foundSection at h
  split at h
  · next hlost =>
    split at h
    · split at h <;> cases h
      exact hlost
    · cases h
      exact hlost
  · cases h

theorem sectionOf_placed {N : Node n} {e : Event n} {i : Fin n} {s : Section}
    (h : sectionOf N e i = some s) : Placed N i s := by
  unfold sectionOf at h
  split at h
  case h_5 => exact visitSection_placed (Option.ite_none_right_eq_some.mp h).2
  case h_8 => exact foundSection_placed (Option.ite_none_right_eq_some.mp h).2
  case h_6 r k hc =>
    obtain ⟨hk, h⟩ := Option.ite_none_right_eq_some.mp h
    cases r <;> cases h
    exact ⟨rfl, by rw [hc, hk]⟩
  case h_10 => cases h
  all_goals
    obtain ⟨-, h⟩ := Option.ite_none_right_eq_some.mp h
    cases h
    trivial

theorem sectionOf_onModule {N : Node n} {e : Event n} {i : Fin n} {s : Section}
    (h : sectionOf N e i = some s) : OnModule (N.slots i).ec.eepId s := by
  have hplaced := sectionOf_placed h
  cases s with
  | init eepId snRead swRevStr => exact hplaced.1
  | _ => trivial

section History
variable {γ : Type} (cfg : ConfigurationParser) (i : Fin n)

/-- The node with a history of slave `i`, updated at each of its sections. -/
def watchSlave (upd : γ → SlaveDevice → Section → γ) :
    Node n × γ → Event n → Option (Node n × γ) :=
  watch (step cfg) fun g N e _ => (sectionOf N e i).elim g (upd g (N.slots i).dev)

/-- A step that runs a section on slave `i` satisfies `P` (device before, history, section). -/
def OnSection (P : SlaveDevice → γ → Section → Prop) (p : Node n × γ) (e : Event n)
    (_ : Node n × γ) : Prop :=
  ∀ s ∈ sectionOf p.1 e i, P (p.1.slots i).dev p.2 s

instance (P : SlaveDevice → γ → Section → Prop) [∀ d g s, Decidable (P d g s)] (p : Node n × γ)
    (e : Event n) (q : Node n × γ) : Decidable (OnSection i P p e q) :=
  Option.decidableForallMem _

variable {cfg i} {upd : γ → SlaveDevice → Section → γ}

theorem onSection_none {P : SlaveDevice → γ → Section → Prop} {p q : Node n × γ} {e : Event n}
    (hs : sectionOf p.1 e i = none) : OnSection i P p e q := by
  intro s h
  rw [hs] at h
  cases h

theorem onSection_some {P : SlaveDevice → γ → Section → Prop} {p q : Node n × γ} {e : Event n}
    {s : Section} (hs : sectionOf p.1 e i = some s) :
    OnSection i P p e q ↔ P (p.1.slots i).dev p.2 s := by
  constructor
  · intro h
    exact h s hs
  · intro h t ht
    obtain rfl : s = t := Option.some.inj (hs.symm.trans ht)
    exact h

theorem watchSlave_some {p q : Node n × γ} {e : Event n} (h : watchSlave cfg i upd p e = some q) :
    (q.1.slots i).ec.eepId = (p.1.slots i).ec.eepId ∧
    ((sectionOf p.1 e i = none ∧ (q.1.slots i).dev = (p.1.slots i).dev ∧ q.2 = p.2) ∨
     ∃ s, sectionOf p.1 e i = some s ∧ (q.1.slots i).dev = s.run cfg (p.1.slots i).dev ∧
       q.2 = upd p.2 (p.1.slots i).dev s) := by
  obtain ⟨hstep, hg⟩ := watch_eq_some.mp h
  obtain ⟨hdev, heep⟩ := step_dev hstep i
  refine ⟨heep, ?_⟩
  cases hs : sectionOf p.1 e i with
  | none =>
    rw [hs] at hdev hg
    exact Or.inl ⟨rfl, hdev, hg⟩
  | some s =>
    rw [hs] at hdev hg
    exact Or.inr ⟨s, rfl, hdev, hg⟩

/-- **The section rule.** A section from an `I`-state that meets `P` also meets `Q` and keeps `I`. -/
theorem along_sections (I : SlaveDevice → γ → Prop) {P Q : SlaveDevice → γ → Section → Prop}
    {N : Node n} {g : γ}
    (hsec : ∀ d g s, OnModule (N.slots i).ec.eepId s → I d g → P d g s →
      Q d g s ∧ I (s.run cfg d) (upd g d s))
    (hI : I (N.slots i).dev g) {es : List (Event n)}
    (h : Along (watchSlave cfg i upd) (OnSection i P) (N, g) es) :
    Along (watchSlave cfg i upd) (OnSection i Q) (N, g) es := by
  refine along_of_invariant (fun p : Node n × γ => I (p.1.slots i).dev p.2 ∧
    (p.1.slots i).ec.eepId = (N.slots i).ec.eepId) ?_ ⟨hI, rfl⟩ h
  rintro p e q ⟨hp, heep⟩ hstep hP
  obtain ⟨heep', ⟨hs, hdev, hg⟩ | ⟨s, hs, hdev, hg⟩⟩ := watchSlave_some hstep
  · refine ⟨onSection_none hs, ?_, heep'.trans heep⟩
    rw [hdev, hg]
    exact hp
  · have hmod : OnModule (N.slots i).ec.eepId s := heep ▸ sectionOf_onModule hs
    obtain ⟨hQ, hI'⟩ := hsec _ _ s hmod hp (hP s hs)
    refine ⟨(onSection_some hs).mpr hQ, ?_, heep'.trans heep⟩
    rw [hdev, hg]
    exact hI'

theorem along_sections_closed (I : SlaveDevice → γ → Prop) {Q : SlaveDevice → γ → Section → Prop}
    {N : Node n} {g : γ}
    (hsec : ∀ d g s, OnModule (N.slots i).ec.eepId s → I d g →
      Q d g s ∧ I (s.run cfg d) (upd g d s))
    (hI : I (N.slots i).dev g) (es : List (Event n)) :
    Along (watchSlave cfg i upd) (OnSection i Q) (N, g) es := by
  refine along_sections (P := fun _ _ _ => True) I (fun d g s hs h _ => hsec d g s hs h) hI ?_
  exact along_of_closed (fun _ => True) (fun _ _ _ _ _ => ⟨fun _ _ => trivial, trivial⟩) trivial es

/-- Two properties that agree on the sections from `I`-states, one of which keeps `I`. -/
theorem along_sections_iff (I : SlaveDevice → γ → Prop) {P Q : SlaveDevice → γ → Section → Prop}
    {N : Node n} {g : γ}
    (hsec : ∀ d g s, OnModule (N.slots i).ec.eepId s → I d g →
      (P d g s ↔ Q d g s) ∧ (P d g s → I (s.run cfg d) (upd g d s)))
    (hI : I (N.slots i).dev g) (es : List (Event n)) :
    Along (watchSlave cfg i upd) (OnSection i P) (N, g) es ↔
      Along (watchSlave cfg i upd) (OnSection i Q) (N, g) es := by
  refine along_iff_of_invariant (fun p : Node n × γ => I (p.1.slots i).dev p.2 ∧
    (p.1.slots i).ec.eepId = (N.slots i).ec.eepId) ?_ ⟨hI, rfl⟩ es
  rintro p e q ⟨hp, heep⟩ hstep
  obtain ⟨heep', ⟨hs, hdev, hg⟩ | ⟨s, hs, hdev, hg⟩⟩ := watchSlave_some hstep
  · refine ⟨iff_of_true (onSection_none hs) (onSection_none hs), fun _ => ⟨?_, heep'.trans heep⟩⟩
    rw [hdev, hg]
    exact hp
  · have hmod : OnModule (N.slots i).ec.eepId s := heep ▸ sectionOf_onModule hs
    obtain ⟨hPQ, hkeep⟩ := hsec _ _ s hmod hp
    rw [onSection_some hs, onSection_some hs]
    refine ⟨hPQ, fun h => ⟨?_, heep'.trans heep⟩⟩
    rw [hdev, hg]
    exact hkeep h

end History

/-! ## Properties that need no history -/

section Plain
variable {cfg : ConfigurationParser} {i : Fin n}

/-- A step that runs a section on slave `i` satisfies `P` (device before, section). -/
def OnSlave (i : Fin n) (P : SlaveDevice → Section → Prop) (N : Node n) (e : Event n)
    (_ : Node n) : Prop :=
  ∀ s ∈ sectionOf N e i, P (N.slots i).dev s

instance (P : SlaveDevice → Section → Prop) [∀ d s, Decidable (P d s)] (N : Node n)
    (e : Event n) (N' : Node n) : Decidable (OnSlave i P N e N') :=
  Option.decidableForallMem _

theorem along_onSlave (P : SlaveDevice → Section → Prop) (N : Node n) (es : List (Event n)) :
    Along (watchSlave cfg i fun (_ : Unit) _ _ => ()) (OnSection i fun d _ s => P d s) (N, ()) es ↔
      Along (step cfg) (OnSlave i P) N es :=
  along_watch (P := OnSlave i P)

theorem along_slave_iff (I : SlaveDevice → Prop) {P Q : SlaveDevice → Section → Prop} {N : Node n}
    (hsec : ∀ d s, OnModule (N.slots i).ec.eepId s → I d →
      (P d s ↔ Q d s) ∧ (P d s → I (s.run cfg d)))
    (hI : I (N.slots i).dev) (es : List (Event n)) :
    Along (step cfg) (OnSlave i P) N es ↔ Along (step cfg) (OnSlave i Q) N es := by
  rw [← along_onSlave, ← along_onSlave]
  exact along_sections_iff (fun d _ => I d) (fun d _ s => hsec d s) hI es

end Plain

end Node
end EcatMaster
