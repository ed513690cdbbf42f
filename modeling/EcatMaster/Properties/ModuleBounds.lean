import EcatMaster.Slave.TaskList
import EcatMaster.Tasks.Extent

/-! # Process data accesses and the length of the module

The offsets of a task are whatever 16-bit values the configuration has, and nothing compares them with
the buffers. The accesses of a device stay inside them exactly when the configuration leaves every task
the bytes its class, its control mode and its enabled motors take.
-/

namespace EcatMaster
set_option autoImplicit false
open ByteBuf

namespace SlaveDevice

/-- Every byte a `read`, an `on_command` or an `init_value` of a task uses is inside its buffer. -/
def AccessesFit (dev : SlaveDevice) : Prop :=
  ∀ t ∈ dev.taskList,
    (∀ stamp self i, Uses (fun buf => t.read stamp buf self) i → i < dev.slaveToMasterBufLen) ∧
    ∀ i, t.CommandWrites i ∨ Writes t.initValue i → i < dev.masterToSlaveBufLen

/-- The configured offsets of task `k + 1` leave room on the module for what the task reads and writes. -/
def LeavesRoom (cfg : ConfigurationParser) (eepId : UInt32) (dev : SlaveDevice) : Prop :=
  ∀ k t pdoread pdowrite, dev.taskList[k]? = some t →
    getFieldAsOr cfg (appKey dev.sn (1 + k) "pdoread_offset") (0 : UInt16) = .ok pdoread →
    getFieldAsOr cfg (appKey dev.sn (1 + k) "pdowrite_offset") (0 : UInt16) = .ok pdowrite →
    (t.readLength = 0 ∨
      pdoread.toNat + t.readLength ≤ (registeredModule eepId).slaveToMasterBufLen) ∧
    (t.writeLength = 0 ∨
      pdowrite.toNat + t.writeLength ≤ (registeredModule eepId).masterToSlaveBufLen)

theorem offsets_get {cfg : ConfigurationParser} {eepId : UInt32} {dev : SlaveDevice}
    (h : Configured cfg eepId dev) {k : ℕ} {t : TaskWrapper} (ht : dev.taskList[k]? = some t) :
    getFieldAsOr cfg (appKey dev.sn (1 + k) "pdoread_offset") (0 : UInt16) = .ok t.pdoreadOffset ∧
    getFieldAsOr cfg (appKey dev.sn (1 + k) "pdowrite_offset") (0 : UInt16) = .ok t.pdowriteOffset := by
  obtain ⟨index, snRead, swRevStr, ini, -, hbuilt⟩ := h
  obtain ⟨-, hoffsets⟩ := initTaskList_get hbuilt ht
  have hread := hoffsets.pdoread
  have hwrite := hoffsets.pdowrite
  rw [appKey_append] at hread hwrite
  exact ⟨hread, hwrite⟩

/-- What a task reads and writes fits the device when its extents do. -/
theorem accessesFit_iff (dev : SlaveDevice) : dev.AccessesFit ↔ ∀ t ∈ dev.taskList,
    (t.readLength = 0 ∨ t.pdoreadOffset.toNat + t.readLength ≤ dev.slaveToMasterBufLen) ∧
    (t.writeLength = 0 ∨ t.pdowriteOffset.toNat + t.writeLength ≤ dev.masterToSlaveBufLen) := by
  refine forall₂_congr fun t _ => and_congr ?_ (t.writes_lt_iff _)
  have hself : Nonempty Shared := ⟨⟨0, ⟨0, SBUS_RC.emptyMessage⟩, ⟨0, DBUS_RC.emptyMessage⟩,
    ⟨0, DJI_MOTOR.emptyMessage⟩, ⟨0, LK_MOTOR.emptySingle⟩, ⟨0, LK_MOTOR.emptyMulti⟩,
    ⟨0, DM_MOTOR.emptyMessage⟩, ⟨0, HIPNUC_IMU_CAN.emptyMessage ""⟩, ⟨0, SUPER_CAP.emptyMessage⟩⟩⟩
  obtain ⟨self⟩ := hself
  constructor
  · intro h
    exact (t.uses_read_lt_iff 0 self _).mp (h 0 self)
  · intro h stamp self
    exact (t.uses_read_lt_iff stamp self _).mpr h

/-- **Accesses fit exactly where the configuration leaves room.** A task reads at most 36 bytes and
writes at most 12, so offsets with that much room always do. -/
theorem accessesFit_iff_leavesRoom {cfg : ConfigurationParser} {eepId : UInt32} {dev : SlaveDevice}
    (h : Configured cfg eepId dev) :
    (dev.AccessesFit ↔ LeavesRoom cfg eepId dev) ∧
      ∀ t ∈ dev.taskList, t.readLength ≤ 36 ∧ t.writeLength ≤ 12 := by
  have hfresh := h.fresh
  refine ⟨?_, fun t _ => ⟨t.readLength_le, t.writeLength_le⟩⟩
  rw [accessesFit_iff, hfresh.s2mLen, hfresh.m2sLen]
  constructor
  · intro hfit k t pdoread pdowrite ht hread hwrite
    obtain ⟨hread', hwrite'⟩ := offsets_get h ht
    obtain rfl := Except.ok.inj (hread'.symm.trans hread)
    obtain rfl := Except.ok.inj (hwrite'.symm.trans hwrite)
    exact hfit t (List.mem_of_getElem? ht)
  · intro hroom t ht
    obtain ⟨k, hk⟩ := List.getElem?_of_mem ht
    obtain ⟨hread, hwrite⟩ := offsets_get h hk
    exact hroom k t _ _ hk hread hwrite

theorem accessesFit_iff_leavesRoom_dshot :
    (dshotDevice.AccessesFit ↔ LeavesRoom dshotConfig 3 dshotDevice) ∧
      ∀ t ∈ dshotDevice.taskList, t.readLength ≤ 36 ∧ t.writeLength ≤ 12 :=
  accessesFit_iff_leavesRoom dshotDevice_configured

/-- The board of `dshotConfig` with its eight command bytes from byte 79 on, of 80. -/
def dshotAtEnd : ConfigurationParser := dshotConfig.set "sn7_app_1_pdowrite_offset" (.uint16 79)

theorem accessesFit_dshotAtEnd : ∃ dev, Configured dshotAtEnd 3 dev ∧ ¬ dev.AccessesFit := by
  refine ⟨{ dshotDevice with taskList := [{ dshotTask with pdowriteOffset := 79 }] },
    ⟨1, some 7, [56], ((new 1).init dshotAtEnd 3 (some 7) [56]).2, by decide +kernel, by rfl⟩, ?_⟩
  rw [accessesFit_iff]
  decide

end SlaveDevice
end EcatMaster
