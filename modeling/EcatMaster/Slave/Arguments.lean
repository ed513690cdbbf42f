import EcatMaster.Slave.Setup
import EcatMaster.Tasks.Arguments

/-! # `init_task_list` write by write

The run of `init_task_list` over the argument buffer and `arg_buf_idx`, with what it has written when
it throws. It agrees with `initTaskList` where it returns, and it does what `argPlan` lists: the task
count and then, for each configured task, its type and the plan of its `init_sdo`.
-/

namespace EcatMaster
set_option autoImplicit false
open ByteBuf ArgM Piece

namespace SlaveDevice

/-- The loop over the tasks. -/
def initTasksM (cfg : ConfigurationParser) (sn : UInt32) : ℕ → ℕ → ArgM (List TaskWrapper)
  | 0, _ => return []
  | count + 1, appIdx => do
    let taskType ← getFieldAs UInt8 cfg (appKey sn appIdx "sdowrite_task_type")
    let sdo ← sdoBuf cfg (appKey sn appIdx "sdowrite_") ["task_type"]
    modify fun c => (put c.1 c.2 (sdo.1.take sdo.2), c.2 + 1)
    let task ← initSdoM cfg taskType (appKey sn appIdx "")
    let tasks ← initTasksM cfg sn count (appIdx + 1)
    return task :: tasks

/-- `init_task_list` from the line that has made the argument buffer. -/
def writeArgs (cfg : ConfigurationParser) (self : SlaveDevice) : ArgM (Bool × SlaveDevice) := do
  let _ ← getFieldAs String cfg (slaveKey self.sn "latency_pub_topic")
  let taskCount ← getFieldAs UInt8 cfg (slaveKey self.sn "task_count")
  if taskCount = 0 then return (false, self)
  else
    modify (writeUint8 taskCount)
    let tasks ← initTasksM cfg self.sn taskCount.toNat 1
    let c ← get
    return (true, { self with argBuf := c.1, taskList := tasks, isConfRosDone := true })

/-- `init_task_list`: its result, and the argument buffer and `arg_buf_idx` when it returns or
throws. -/
def initTaskListRun (cfg : ConfigurationParser) (self : SlaveDevice) :
    Except Fault (Bool × SlaveDevice) × Cursor :=
  if self.isSwRevCheckPassed = false then (.ok (false, self), (self.argBuf, 0))
  else
    match getFieldAs UInt16 cfg (slaveKey self.sn "sdo_len") with
    | .error e => (.error e, (self.argBuf, 0))
    | .ok argBufLen =>
        let self := { self with
          argBufLen := argBufLen, argBuf := List.replicate argBufLen.toNat 0 }
        runs (self.writeArgs cfg) (self.argBuf, 0)

/-! ## Agreement with `initTaskList` -/

theorem initTasksM_returned (cfg : ConfigurationParser) (sn : UInt32) (count appIdx : ℕ)
    (c : Cursor) : returned (initTasksM cfg sn count appIdx) c = initTasks cfg sn count appIdx c := by
  induction count generalizing appIdx c with
  | zero => rfl
  | succ count ih =>
    unfold initTasksM initTasks
    rw [returned_lift_bind]
    refine congrArg _ (funext fun taskType => ?_)
    rw [returned_lift_bind]
    refine congrArg _ (funext fun sdo => ?_)
    rw [returned_bind]
    show (returned (initSdoM cfg taskType (appKey sn appIdx "") >>= _) _) = _
    rw [returned_bind, initSdoM_returned]
    refine congrArg _ (funext fun r => ?_)
    rw [returned_bind, ih]
    rfl

theorem writeArgs_fst (cfg : ConfigurationParser) (self : SlaveDevice) :
    (runs (self.writeArgs cfg) (self.argBuf, 0)).1 = (do
      let _ ← getFieldAs String cfg (slaveKey self.sn "latency_pub_topic")
      let taskCount ← getFieldAs UInt8 cfg (slaveKey self.sn "task_count")
      if taskCount = 0 then return (false, self)
      else
        let (tasks, c) ← initTasks cfg self.sn taskCount.toNat 1 (writeUint8 taskCount (self.argBuf, 0))
        return (true, { self with argBuf := c.1, taskList := tasks, isConfRosDone := true })) := by
  unfold writeArgs
  cases htopic : getFieldAs String cfg (slaveKey self.sn "latency_pub_topic") with
  | error e => rfl
  | ok topic =>
    cases hcount : getFieldAs UInt8 cfg (slaveKey self.sn "task_count") with
    | error e => rfl
    | ok taskCount =>
      show (runs (if _ then _ else _) _).1 = (if _ then _ else _)
      split
      · rfl
      · have htasks := initTasksM_returned cfg self.sn taskCount.toNat 1
          (writeUint8 taskCount (self.argBuf, 0))
        unfold returned at htasks
        rw [← htasks]
        rw [runs_bind_ok (runs_modify (writeUint8 taskCount) (self.argBuf, 0)), runs_bind]
        rcases runs (initTasksM cfg self.sn taskCount.toNat 1)
          (writeUint8 taskCount (self.argBuf, 0)) with ⟨r, c⟩
        cases r with
        | error e => rfl
        | ok tasks => rfl

/-- The run ends as `initTaskList` says. -/
theorem initTaskListRun_fst (cfg : ConfigurationParser) (self : SlaveDevice) :
    (self.initTaskListRun cfg).1 = self.initTaskList cfg := by
  unfold initTaskListRun initTaskList
  split
  · rfl
  · cases getFieldAs UInt16 cfg (slaveKey self.sn "sdo_len") with
    | error e => rfl
    | ok argBufLen => exact writeArgs_fst cfg _

/-! ## What the configuration lists -/

/-- The plan of the loop over the tasks. -/
def tasksPlan (cfg : ConfigurationParser) (sn : UInt32) : ℕ → ℕ → List Piece
  | 0, _ => []
  | count + 1, appIdx =>
    after (getFieldAs UInt8 cfg (appKey sn appIdx "sdowrite_task_type")) fun taskType =>
      .bytes [taskType] :: (initSdoPlan cfg taskType (appKey sn appIdx "") ++
        tasksPlan cfg sn count (appIdx + 1))

/-- The task count and the tasks. -/
def argPlan (cfg : ConfigurationParser) (sn : UInt32) (taskCount : UInt8) : List Piece :=
  .bytes [taskCount] :: tasksPlan cfg sn taskCount.toNat 1

theorem follows_initTasksM (cfg : ConfigurationParser) (sn : UInt32) (count appIdx : ℕ) :
    Follows (initTasksM cfg sn count appIdx) (tasksPlan cfg sn count appIdx) := by
  induction count generalizing appIdx with
  | zero => exact .pure []
  | succ count ih =>
    unfold initTasksM tasksPlan
    refine Follows.lift_bind fun taskType htype => ?_
    have hsdo : sdoBuf cfg (appKey sn appIdx "sdowrite_") ["task_type"] =
        .ok (putC [taskType] (List.replicate 1024 0, 0)) := by
      have hfield := getFieldAs_uint8 htype
      have hvalues : cfg.fieldValues (appKey sn appIdx "sdowrite_") ["task_type"] =
          .ok [.uint8 taskType] := by
        rw [ConfigurationParser.fieldValues_eq_ok, List.forall₂_cons, appKey_append]
        exact ⟨hfield, .nil⟩
      rw [sdoBuf_eq, hvalues]
      rfl
    rw [hsdo]
    have hrest : Follows (initSdoM cfg taskType (appKey sn appIdx "") >>= fun task =>
        initTasksM cfg sn count (appIdx + 1) >>= fun tasks => pure (task :: tasks))
        (initSdoPlan cfg taskType (appKey sn appIdx "") ++ tasksPlan cfg sn count (appIdx + 1)) := by
      refine (follows_initSdoM cfg _ taskType).bind fun task _ _ => ?_
      have htail := (ih (appIdx + 1)).bind (f := fun tasks => pure (task :: tasks))
        fun tasks _ _ => Follows.pure _
      rw [List.append_nil] at htail
      exact htail
    intro c
    have hwrite := (Follows.modify [taskType]).bind fun _ _ _ => hrest
    exact hwrite c

/-- **The run over a configuration that names a task count**: what the plan lists is written from the
start of the buffer, and the plan ends as the run does. -/
theorem writeArgs_runs {cfg : ConfigurationParser} {self : SlaveDevice} {taskCount : UInt8}
    (htopic : (getFieldAs String cfg (slaveKey self.sn "latency_pub_topic")).isOk = true)
    (hcount : getFieldAs UInt8 cfg (slaveKey self.sn "task_count") = .ok taskCount)
    (hne : taskCount ≠ 0) :
    (runs (self.writeArgs cfg) (self.argBuf, 0)).2 =
        putC (emitted (argPlan cfg self.sn taskCount)) (self.argBuf, 0) ∧
      match (runs (self.writeArgs cfg) (self.argBuf, 0)).1 with
      | .ok r => ends (argPlan cfg self.sn taskCount) = none ∧
          r.1 = true ∧ r.2.argBufLen = self.argBufLen ∧ r.2.taskList.length = taskCount.toNat ∧
          r.2.argBuf = put self.argBuf 0 (emitted (argPlan cfg self.sn taskCount)) ∧
          r.2.sn = self.sn
      | .error e => ends (argPlan cfg self.sn taskCount) = some e := by
  have hfollows : Follows (modify (writeUint8 taskCount) >>= fun _ =>
      initTasksM cfg self.sn taskCount.toNat 1) (argPlan cfg self.sn taskCount) :=
    (Follows.modify [taskCount]).bind fun _ _ _ => follows_initTasksM cfg self.sn _ 1
  have hrun : runs (self.writeArgs cfg) (self.argBuf, 0) =
      runs (modify (writeUint8 taskCount) >>= fun _ => initTasksM cfg self.sn taskCount.toNat 1 >>=
        fun tasks => get >>= fun c => pure (true, { self with
          argBuf := c.1, taskList := tasks, isConfRosDone := true })) (self.argBuf, 0) := by
    unfold writeArgs
    cases htop : getFieldAs String cfg (slaveKey self.sn "latency_pub_topic") with
    | error e =>
      rw [htop] at htopic
      cases htopic
    | ok topic =>
      rw [hcount]
      show runs (if _ then _ else _) _ = _
      rw [if_neg hne]
  obtain ⟨hcursor, hend⟩ := hfollows (self.argBuf, 0)
  have htasks := initTasksM_returned cfg self.sn taskCount.toNat 1
    (writeUint8 taskCount (self.argBuf, 0))
  unfold returned at htasks
  rw [runs_bind_ok (runs_modify _ _)] at hcursor hend
  rw [hrun, runs_bind_ok (runs_modify _ _), runs_bind]
  rcases hr : runs (initTasksM cfg self.sn taskCount.toNat 1)
    (writeUint8 taskCount (self.argBuf, 0)) with ⟨r, c⟩
  rw [hr] at hcursor hend htasks
  cases r with
  | error e => exact ⟨hcursor, hend⟩
  | ok tasks =>
    obtain ⟨hlength, -⟩ := initTasks_length htasks.symm
    exact ⟨hcursor, hend, rfl, rfl, hlength, congrArg Prod.fst hcursor, rfl⟩

/-- The run behind the check of the revision and the look-up of `sdo_len`. -/
theorem initTaskListRun_sized {cfg : ConfigurationParser} {self : SlaveDevice} {sdoLen : UInt16}
    (hrev : self.isSwRevCheckPassed = true)
    (hlen : getFieldAs UInt16 cfg (slaveKey self.sn "sdo_len") = .ok sdoLen) :
    self.initTaskListRun cfg =
      runs (({ self with argBufLen := sdoLen, argBuf := List.replicate sdoLen.toNat 0 }).writeArgs cfg)
        (List.replicate sdoLen.toNat 0, 0) := by
  have hpassed : ¬ self.isSwRevCheckPassed = false := by
    rw [hrev]
    decide
  unfold initTaskListRun
  rw [if_neg hpassed, hlen]

/-- **A run that returns `true`** has written what the plan lists, to its end. -/
theorem initTaskListRun_true {cfg : ConfigurationParser} {self dev : SlaveDevice}
    (h : (self.initTaskListRun cfg).1 = .ok (true, dev)) :
    ∃ taskCount, getFieldAs UInt8 cfg (slaveKey dev.sn "task_count") = .ok taskCount ∧
      ends (argPlan cfg dev.sn taskCount) = none ∧
      (self.initTaskListRun cfg).2.2 = (emitted (argPlan cfg dev.sn taskCount)).length ∧
      dev.argBuf = put (List.replicate dev.argBufLen.toNat 0) 0
        (emitted (argPlan cfg dev.sn taskCount)) := by
  unfold initTaskListRun at h ⊢
  split at h
  · cases h
  next hrev =>
  rw [if_neg hrev]
  split at h
  · cases h
  next argBufLen hlen =>
  let start := { self with argBufLen := argBufLen, argBuf := List.replicate argBufLen.toNat 0 }
  have hreturn : (runs (start.writeArgs cfg) (start.argBuf, 0)).1 = .ok (true, dev) := h
  have hfst := writeArgs_fst cfg start
  rw [hreturn] at hfst
  obtain ⟨topic, htopic, hfst⟩ := bind_eq_ok.mp hfst.symm
  obtain ⟨taskCount, hcount, hfst⟩ := bind_eq_ok.mp hfst
  have hne : taskCount ≠ 0 := by
    intro h0
    rw [if_pos h0] at hfst
    cases hfst
  have hisOk : (getFieldAs String cfg (slaveKey start.sn "latency_pub_topic")).isOk = true := by
    rw [htopic]
    rfl
  obtain ⟨hcursor, hend⟩ := writeArgs_runs hisOk hcount hne
  rw [hreturn] at hend
  obtain ⟨hnone, -, hargLen, -, hbuf, hsn⟩ := hend
  have hargLen : dev.argBufLen = argBufLen := hargLen
  have hsn : dev.sn = start.sn := hsn
  rw [hsn]
  refine ⟨taskCount, hcount, hnone, ?_, ?_⟩
  · show (runs (start.writeArgs cfg) (start.argBuf, 0)).2.2 = _
    rw [hcursor]
    exact Nat.zero_add _
  · rw [hargLen]
    exact hbuf

end SlaveDevice
end EcatMaster
