import EcatMaster.Slave.Setup

/-! # The tasks `init_task_list` makes

Every task of the list comes from one `init_sdo`, which takes the offsets from the configuration as
they are and ties the broadcast flag of an `LK_MOTOR` to its control type.
-/

namespace EcatMaster
set_option autoImplicit false

/-- An `LK_MOTOR` is in broadcast mode for the control type of that name only. -/
def TaskWrapper.ModeAgrees (t : TaskWrapper) : Prop :=
  ∀ isBroadcastMode controlType, t.cls = .lkMotor isBroadcastMode controlType →
    isBroadcastMode = (controlType == 0x08)

/-- The offsets the configuration gives under a prefix, 0 where it gives none. -/
structure Offsets (cfg : ConfigurationParser) (pfx : String) (t : TaskWrapper) : Prop where
  pdoread : getFieldAsOr cfg (pfx ++ "pdoread_offset") (0 : UInt16) = .ok t.pdoreadOffset
  pdowrite : getFieldAsOr cfg (pfx ++ "pdowrite_offset") (0 : UInt16) = .ok t.pdowriteOffset

theorem loadSlaveInfo_made {cfg : ConfigurationParser} {pfx : String}
    {task : TaskClass → TaskWrapper} (h : loadSlaveInfo cfg pfx = .ok task) (cls : TaskClass) :
    (task cls).cls = cls ∧ Offsets cfg pfx (task cls) := by
  simp only [loadSlaveInfo, bind_eq_ok] at h
  obtain ⟨r, hr, w, hw, ra, -, wa, -, h⟩ := h
  cases h
  exact ⟨rfl, hr, hw⟩

theorem Made.agrees {cfg : ConfigurationParser} {pfx : String} {c : Cursor}
    {r : TaskWrapper × Cursor} (h : Made cfg pfx c r) : r.1.ModeAgrees ∧ Offsets cfg pfx r.1 := by
  obtain ⟨task, cls, htask, hr, hcls⟩ := h.task
  obtain ⟨heq, hoffsets⟩ := loadSlaveInfo_made htask cls
  rw [hr]
  refine ⟨fun b ct h => hcls b ct ?_, hoffsets⟩
  rw [← heq]
  exact h

namespace SlaveDevice

theorem initTasks_get {cfg : ConfigurationParser} {sn : UInt32} {count appIdx : ℕ} {c : Cursor}
    {r : List TaskWrapper × Cursor} (h : initTasks cfg sn count appIdx c = .ok r) {k : ℕ}
    {task : TaskWrapper} (htask : r.1[k]? = some task) :
    task.ModeAgrees ∧ Offsets cfg (appKey sn (appIdx + k) "") task := by
  induction count generalizing appIdx c r k with
  | zero =>
    cases h
    cases htask
  | succ count ih =>
    simp only [initTasks, bind_eq_ok] at h
    obtain ⟨taskType, -, sdo, -, made, hmade, rest, hrest, h⟩ := h
    cases h
    cases k with
    | zero =>
      obtain rfl := Option.some.inj htask
      exact (initSdo_made hmade).agrees
    | succ k =>
      have htail := ih hrest htask
      rw [Nat.add_right_comm, Nat.add_assoc] at htail
      exact htail

/-- The task at position `k` has the number `k + 1` in the configuration. -/
theorem initTaskList_get {cfg : ConfigurationParser} {self dev : SlaveDevice}
    (h : self.initTaskList cfg = .ok (true, dev)) {k : ℕ} {task : TaskWrapper}
    (htask : dev.taskList[k]? = some task) :
    task.ModeAgrees ∧ Offsets cfg (appKey dev.sn (1 + k) "") task := by
  unfold initTaskList at h
  split at h
  · cases h
  · obtain ⟨argBufLen, -, h⟩ := bind_eq_ok.mp h
    obtain ⟨topic, -, h⟩ := bind_eq_ok.mp h
    obtain ⟨taskCount, -, h⟩ := bind_eq_ok.mp h
    split at h
    · cases h
    · obtain ⟨r, hr, h⟩ := bind_eq_ok.mp h
      cases h
      exact initTasks_get hr htask

theorem modeAgrees_of_mem {cfg : ConfigurationParser} {self dev : SlaveDevice}
    (h : self.initTaskList cfg = .ok (true, dev)) : ∀ task ∈ dev.taskList, task.ModeAgrees := by
  intro task htask
  obtain ⟨k, hk⟩ := List.getElem?_of_mem htask
  exact (initTaskList_get h hk).1

end SlaveDevice
end EcatMaster
