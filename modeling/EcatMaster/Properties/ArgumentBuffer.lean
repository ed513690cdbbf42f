import EcatMaster.Slave.Arguments

/-! # The argument buffer is as long as declared

`arg_buf_` has `sdo_len` bytes, and what is written into it depends on the task types, the type tags,
the control modes and the enabled motors; nothing compares the two, and the switch on the task type
falls through for an unknown one. `init_task_list` builds exactly the declared buffer, or refuses,
exactly for the configurations whose listed fields have that many bytes.
-/

namespace EcatMaster
set_option autoImplicit false
open ByteBuf ArgM Piece

namespace SlaveDevice

/-- No null `task_wrapper` is called; the writes, which are those below `arg_buf_idx`, lie inside the
buffer; `false` leaves `is_conf_ros_done_` alone; and `true` comes with a task for each configured type
and a buffer that is written to its end. -/
structure BuildsExactly (cfg : ConfigurationParser) (d : SlaveDevice) : Prop where
  noNull : (d.initTaskListRun cfg).1 ≠ .error .nullTaskWrapper
  inside : (d.initTaskListRun cfg).2.2 ≤ (d.initTaskListRun cfg).2.1.length
  refused : ∀ dev, (d.initTaskListRun cfg).1 = .ok (false, dev) →
    dev.isConfRosDone = d.isConfRosDone
  built : ∀ dev, (d.initTaskListRun cfg).1 = .ok (true, dev) →
    (∃ taskCount, getFieldAs UInt8 cfg (slaveKey dev.sn "task_count") = .ok taskCount ∧
      dev.taskList.length = taskCount.toNat) ∧
    (d.initTaskListRun cfg).2.2 = dev.argBufLen.toNat

/-- Where the arguments get written: no task type is unknown up to the first missing field, what is
listed up to there fits `sdo_len`, and if no field is missing it is `sdo_len` bytes. -/
def DeclaresLength (cfg : ConfigurationParser) (self : SlaveDevice) : Prop :=
  ∀ sdoLen taskCount, self.isSwRevCheckPassed = true →
    getFieldAs UInt16 cfg (slaveKey self.sn "sdo_len") = .ok sdoLen →
    (getFieldAs String cfg (slaveKey self.sn "latency_pub_topic")).isOk = true →
    getFieldAs UInt8 cfg (slaveKey self.sn "task_count") = .ok taskCount → taskCount ≠ 0 →
    ends (argPlan cfg self.sn taskCount) ≠ some .nullTaskWrapper ∧
      (emitted (argPlan cfg self.sn taskCount)).length ≤ sdoLen.toNat ∧
      (ends (argPlan cfg self.sn taskCount) = none →
        (emitted (argPlan cfg self.sn taskCount)).length = sdoLen.toNat)

/-- Nothing stops the run before its first write. -/
structure Writing (cfg : ConfigurationParser) (d : SlaveDevice) (sdoLen : UInt16)
    (taskCount : UInt8) : Prop where
  rev : d.isSwRevCheckPassed = true
  len : getFieldAs UInt16 cfg (slaveKey d.sn "sdo_len") = .ok sdoLen
  topic : (getFieldAs String cfg (slaveKey d.sn "latency_pub_topic")).isOk = true
  count : getFieldAs UInt8 cfg (slaveKey d.sn "task_count") = .ok taskCount
  nonzero : taskCount ≠ 0

section Writes
variable {cfg : ConfigurationParser} {self : SlaveDevice} {sdoLen : UInt16} {taskCount : UInt8}

/-- What a run that writes leaves behind, and how it ends. -/
theorem initTaskListRun_writes (h : Writing cfg self sdoLen taskCount) :
    (self.initTaskListRun cfg).2.2 = (emitted (argPlan cfg self.sn taskCount)).length ∧
    (self.initTaskListRun cfg).2.1.length = sdoLen.toNat ∧
    (∀ r, (self.initTaskListRun cfg).1 = .ok r → ends (argPlan cfg self.sn taskCount) = none ∧
      r.1 = true ∧ r.2.argBufLen = sdoLen ∧ r.2.taskList.length = taskCount.toNat ∧
      r.2.sn = self.sn) ∧
    ∀ e, (self.initTaskListRun cfg).1 = .error e →
      ends (argPlan cfg self.sn taskCount) = some e := by
  let start := { self with argBufLen := sdoLen, argBuf := List.replicate sdoLen.toNat 0 }
  have hrun : self.initTaskListRun cfg = runs (start.writeArgs cfg) (start.argBuf, 0) :=
    initTaskListRun_sized h.rev h.len
  have hwrites : (runs (start.writeArgs cfg) (start.argBuf, 0)).2 =
        putC (emitted (argPlan cfg self.sn taskCount)) (start.argBuf, 0) ∧ _ :=
    writeArgs_runs h.topic h.count h.nonzero
  obtain ⟨hcursor, hend⟩ := hwrites
  rw [← hrun] at hcursor hend
  refine ⟨?_, ?_, fun r hr => ?_, fun e hr => ?_⟩
  · rw [hcursor]
    exact Nat.zero_add _
  · rw [hcursor]
    show (put (List.replicate sdoLen.toNat 0) 0 _).length = _
    rw [put_length, List.length_replicate]
  · rw [hr] at hend
    obtain ⟨hnone, htrue, hargLen, htasks, -, hsn⟩ := hend
    exact ⟨hnone, htrue, hargLen, htasks, hsn⟩
  · rw [hr] at hend
    exact hend

/-- **A run that writes.** -/
theorem buildsExactly_of_writes (hw : Writing cfg self sdoLen taskCount) :
    self.BuildsExactly cfg ↔ ends (argPlan cfg self.sn taskCount) ≠ some .nullTaskWrapper ∧
      (emitted (argPlan cfg self.sn taskCount)).length ≤ sdoLen.toNat ∧
      (ends (argPlan cfg self.sn taskCount) = none →
        (emitted (argPlan cfg self.sn taskCount)).length = sdoLen.toNat) := by
  obtain ⟨hidx, hbuf, hok, herror⟩ := initTaskListRun_writes hw
  cases hr : (self.initTaskListRun cfg).1 with
  | ok r =>
    obtain ⟨hnone, htrue, hargLen, htasks, hsn⟩ := hok r hr
    constructor
    · intro h
      have hbuilt := (h.built r.2 (by rw [hr, ← htrue])).2
      rw [hidx, hargLen] at hbuilt
      refine ⟨by rw [hnone]; nofun, hbuilt.le, fun _ => hbuilt⟩
    · rintro ⟨-, -, hexact⟩
      refine ⟨?_, ?_, fun dev h => ?_, fun dev h => ?_⟩
      · rw [hr]
        exact fun h => by cases h
      · rw [hidx, hbuf, hexact hnone]
      · rw [hr] at h
        cases h
        cases htrue
      · rw [hr] at h
        cases h
        refine ⟨⟨taskCount, ?_, htasks⟩, ?_⟩
        · rw [hsn]
          exact hw.count
        · rw [hidx, hexact hnone, hargLen]
  | error e =>
    have hend := herror e hr
    constructor
    · intro h
      refine ⟨?_, ?_, fun hnone => ?_⟩
      · rw [hend]
        intro hnull
        exact h.noNull (by rw [hr, Option.some.inj hnull])
      · have hin := h.inside
        rw [hidx, hbuf] at hin
        exact hin
      · rw [hnone] at hend
        cases hend
    · rintro ⟨hnull, hle, -⟩
      refine ⟨?_, ?_, fun dev h => ?_, fun dev h => ?_⟩
      · rw [hr]
        intro h
        exact hnull (by rw [hend, Except.error.inj h])
      · rw [hidx, hbuf]
        exact hle
      · rw [hr] at h
        cases h
      · rw [hr] at h
        cases h

end Writes

/-- A run that does not get to the first write refuses or throws there. -/
theorem initTaskListRun_early {cfg : ConfigurationParser} {self : SlaveDevice}
    (h : ¬ ∃ sdoLen taskCount, Writing cfg self sdoLen taskCount) :
    (self.initTaskListRun cfg).2.2 = 0 ∧
    ((∃ dev, (self.initTaskListRun cfg).1 = .ok (false, dev) ∧
        dev.isConfRosDone = self.isConfRosDone) ∨
      ∃ e, (self.initTaskListRun cfg).1 = .error e ∧ e ≠ .nullTaskWrapper) := by
  cases hrev : self.isSwRevCheckPassed with
  | false =>
    have hrun : self.initTaskListRun cfg = (.ok (false, self), (self.argBuf, 0)) := by
      unfold initTaskListRun
      exact if_pos hrev
    rw [hrun]
    exact ⟨rfl, Or.inl ⟨self, rfl, rfl⟩⟩
  | true =>
  cases hlen : getFieldAs UInt16 cfg (slaveKey self.sn "sdo_len") with
  | error e =>
    have hrun : self.initTaskListRun cfg = (.error e, (self.argBuf, 0)) := by
      unfold initTaskListRun
      rw [if_neg (by rw [hrev]; decide), hlen]
    rw [hrun]
    exact ⟨rfl, Or.inr ⟨e, rfl, getFieldAs_error hlen⟩⟩
  | ok sdoLen =>
  let start := { self with argBufLen := sdoLen, argBuf := List.replicate sdoLen.toNat 0 }
  have hsn : start.sn = self.sn := rfl
  rw [initTaskListRun_sized hrev hlen]
  show (runs (start.writeArgs cfg) (start.argBuf, 0)).2.2 = 0 ∧ _
  cases htopic : getFieldAs String cfg (slaveKey self.sn "latency_pub_topic") with
  | error e =>
    have hthrow : runs (start.writeArgs cfg) (start.argBuf, 0) = (.error e, (start.argBuf, 0)) := by
      unfold writeArgs
      rw [hsn, htopic]
      rfl
    rw [hthrow]
    exact ⟨rfl, Or.inr ⟨e, rfl, getFieldAs_error htopic⟩⟩
  | ok topic =>
  cases hcount : getFieldAs UInt8 cfg (slaveKey self.sn "task_count") with
  | error e =>
    have hthrow : runs (start.writeArgs cfg) (start.argBuf, 0) = (.error e, (start.argBuf, 0)) := by
      unfold writeArgs
      rw [hsn, htopic, hcount]
      rfl
    rw [hthrow]
    exact ⟨rfl, Or.inr ⟨e, rfl, getFieldAs_error hcount⟩⟩
  | ok taskCount =>
  have hzero : taskCount = 0 := by
    by_contra hne
    exact h ⟨sdoLen, taskCount, hrev, hlen, by rw [htopic]; rfl, hcount, hne⟩
  have hnone : runs (start.writeArgs cfg) (start.argBuf, 0) =
      (.ok (false, start), (start.argBuf, 0)) := by
    unfold writeArgs
    rw [hsn, htopic, hcount, hzero]
    rfl
  rw [hnone]
  exact ⟨rfl, Or.inl ⟨start, rfl, rfl⟩⟩

theorem buildsExactly_of_early {cfg : ConfigurationParser} {self : SlaveDevice}
    (hearly : ¬ ∃ sdoLen taskCount, Writing cfg self sdoLen taskCount) :
    self.BuildsExactly cfg := by
  obtain ⟨hidx, hend⟩ := initTaskListRun_early hearly
  have hinside : (self.initTaskListRun cfg).2.2 ≤ (self.initTaskListRun cfg).2.1.length := by
    rw [hidx]
    exact Nat.zero_le _
  obtain ⟨dev, hr, hconf⟩ | ⟨e, hr, hne⟩ := hend
  · refine ⟨?_, hinside, fun dev' h => ?_, fun dev' h => ?_⟩
    · rw [hr]
      exact fun h => by cases h
    · rw [hr] at h
      cases h
      exact hconf
    · rw [hr] at h
      cases h
  · refine ⟨?_, hinside, fun dev h => ?_, fun dev h => ?_⟩
    · rw [hr]
      exact fun h => hne (Except.error.inj h)
    · rw [hr] at h
      cases h
    · rw [hr] at h
      cases h

/-- **The argument buffer.** `init_task_list` builds exactly the declared buffer or refuses, exactly if
the configuration lists as many bytes as it declares. -/
theorem builds_iff (cfg : ConfigurationParser) (self : SlaveDevice) :
    self.BuildsExactly cfg ↔ self.DeclaresLength cfg := by
  by_cases h : ∃ sdoLen taskCount, Writing cfg self sdoLen taskCount
  · obtain ⟨sdoLen, taskCount, hw⟩ := h
    rw [buildsExactly_of_writes hw]
    constructor
    · intro h sdoLen' taskCount' _ hlen _ hcount _
      obtain rfl := Except.ok.inj (hw.len.symm.trans hlen)
      obtain rfl := Except.ok.inj (hw.count.symm.trans hcount)
      exact h
    · intro h
      exact h sdoLen taskCount hw.rev hw.len hw.topic hw.count hw.nonzero
  · refine iff_of_true (buildsExactly_of_early h) ?_
    intro sdoLen taskCount hrev hlen htopic hcount hne
    exact absurd ⟨sdoLen, taskCount, hrev, hlen, htopic, hcount, hne⟩ h

/-- The DSHOT board of `dshotConfig` with one field of the configuration changed. -/
def dshotWith (key : String) (v : Variant) : ConfigurationParser := dshotConfig.set key v

/-- The board before `init_task_list`. -/
def dshotInit (cfg : ConfigurationParser) : SlaveDevice := ((new 1).init cfg 3 (some 7) [56]).2

/-- Six bytes are written where `sdo_len` is 5, the seventh byte of a buffer of 7 is written by nobody,
and the task type 9 calls a null `task_wrapper`. -/
theorem builds_dshot :
    ¬ (dshotInit (dshotWith "sn7_sdo_len" (.uint16 5))).BuildsExactly
      (dshotWith "sn7_sdo_len" (.uint16 5)) ∧
    ¬ (dshotInit (dshotWith "sn7_sdo_len" (.uint16 7))).BuildsExactly
      (dshotWith "sn7_sdo_len" (.uint16 7)) ∧
    ¬ (dshotInit (dshotWith "sn7_app_1_sdowrite_task_type" (.uint8 9))).BuildsExactly
      (dshotWith "sn7_app_1_sdowrite_task_type" (.uint8 9)) := by
  refine ⟨fun h => ?_, fun h => ?_, fun h => ?_⟩
  · have hinside := h.inside
    revert hinside
    decide +kernel
  · have hidx := (h.built _ rfl).2
    revert hidx
    decide +kernel
  · exact h.noNull rfl

end SlaveDevice
end EcatMaster
