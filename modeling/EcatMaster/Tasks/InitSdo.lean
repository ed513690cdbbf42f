import Mathlib.Data.Fin.VecNotation
import EcatMaster.Tasks.Command

/-! # Building a task from the configuration: `load_slave_info` and `init_sdo`

`init_sdo` copies the arguments of one task into the argument buffer at the cursor and fills the
members of the task. Every `create_publisher` and `create_subscription` looks its topic up first, so
a missing topic is a fault like any other missing key; the topic itself plays no further part.
-/

namespace EcatMaster
set_option autoImplicit false
open ByteBuf

/-- The result of `build_buf`: it is copied out before the next call clears the scratch buffer. -/
def sdoBuf (cfg : ConfigurationParser) (pfx : String) (names : List String) : Except Fault Cursor := do
  let (sdo, _) ← cfg.buildBuf pfx names
  return sdo

/-- `memcpy(buf + *offset, sdo_buf, sdo_len); *offset += sdo_len`. -/
def memcpyBuf (sdo : Cursor) (c : Cursor) : Cursor := (put c.1 c.2 (sdo.1.take sdo.2), c.2 + sdo.2)

/-- The four members `load_slave_info` reads, each with default 0. -/
def loadSlaveInfo (cfg : ConfigurationParser) (pfx : String) :
    Except Fault (TaskClass → TaskWrapper) := do
  let pdoreadOffset ← getFieldAsOr cfg (pfx ++ "pdoread_offset") (0 : UInt16)
  let pdowriteOffset ← getFieldAsOr cfg (pfx ++ "pdowrite_offset") (0 : UInt16)
  let readAction ← getFieldAsOr cfg (pfx ++ "conf_connection_lost_read_action") (0 : UInt8)
  let writeAction ← getFieldAsOr cfg (pfx ++ "sdowrite_connection_lost_write_action") (0 : UInt8)
  return fun cls =>
    { cls := cls, pdowriteOffset := pdowriteOffset, pdoreadOffset := pdoreadOffset,
      connectionLostReadAction := readAction, connectionLostWriteAction := writeAction }

def createPublisher (cfg : ConfigurationParser) (pfx : String) : Except Fault Unit := do
  let _ ← getFieldAs String cfg (pfx ++ "pub_topic")
  return ()

def createSubscription (cfg : ConfigurationParser) (pfx : String) : Except Fault Unit := do
  let _ ← getFieldAs String cfg (pfx ++ "sub_topic")
  return ()

def createSubscriptionIf (p : Prop) [Decidable p] (cfg : ConfigurationParser) (pfx : String) :
    Except Fault Unit :=
  if p then createSubscription cfg pfx else return ()

/-- M_PI narrowed to float. -/
def M_PI : F32 := ⟨0x40490FDB⟩

/-- The arguments of one DJI motor: none when its CAN id is 0 or its control type is unknown. -/
def motorArgs (cfg : ConfigurationParser) (pfx : String) (i : ℕ) (c : Cursor) :
    Except Fault (Bool × Cursor) := do
  let motorArgPfx := pfx ++ "sdowrite_motor" ++ toString i ++ "_"
  if (← getFieldAs UInt32 cfg (motorArgPfx ++ "can_id")) > 0 then
    let controlType ← getFieldAs UInt8 cfg (motorArgPfx ++ "control_type")
    if controlType = DJIMOTOR_CTRL_TYPE_CURRENT then
      return (true, memcpyBuf (← sdoBuf cfg motorArgPfx ["control_type"]) c)
    else if controlType = DJIMOTOR_CTRL_TYPE_SPEED then
      return (true, memcpyBuf (← sdoBuf cfg motorArgPfx
        ["control_type", "speed_pid_kp", "speed_pid_ki", "speed_pid_kd", "speed_pid_max_out",
         "speed_pid_max_iout"]) c)
    else if controlType = DJIMOTOR_CTRL_TYPE_SINGLE_ROUND_POSITION then
      return (true, memcpyBuf (← sdoBuf cfg motorArgPfx
        ["control_type", "speed_pid_kp", "speed_pid_ki", "speed_pid_kd", "speed_pid_max_out",
         "speed_pid_max_iout", "angle_pid_kp", "angle_pid_ki", "angle_pid_kd", "angle_pid_max_out",
         "angle_pid_max_iout"]) c)
    else return (true, c)
  else return (false, c)

/-! ## `init_sdo` of each class -/

/-- What `init_sdo` yields: the members it has set and where the arguments end. -/
abbrev InitSdo := Except Fault (TaskWrapper × Cursor)

def DBUS_RC.initSdo (cfg : ConfigurationParser) (pfx : String) (c : Cursor) : InitSdo := do
  let task ← loadSlaveInfo cfg pfx
  createPublisher cfg pfx
  return (task .dbusRc, c)

def LK_MOTOR.initSdo (cfg : ConfigurationParser) (pfx : String) (c : Cursor) : InitSdo := do
  let isBroadcastMode := (← getFieldAs UInt8 cfg (pfx ++ "sdowrite_control_type")) == 0x08
  let sdo ← sdoBuf cfg (pfx ++ "sdowrite_")
    (if isBroadcastMode then
      ["connection_lost_write_action", "control_period", "control_type", "can_inst"]
    else
      ["connection_lost_write_action", "control_period", "control_type", "can_packet_id",
       "can_inst"])
  let task ← loadSlaveInfo cfg pfx
  let controlType ← getFieldAs UInt8 cfg (pfx ++ "sdowrite_control_type")
  createSubscriptionIf
    (LK_CTRL_TYPE_OPENLOOP_CURRENT ≤ controlType ∧ controlType ≤ LK_CTRL_TYPE_BROADCAST_CURRENT)
    cfg pfx
  createPublisher cfg pfx
  return (task (.lkMotor isBroadcastMode controlType), memcpyBuf sdo c)

def HIPNUC_IMU_CAN.initSdo (cfg : ConfigurationParser) (pfx : String) (c : Cursor) : InitSdo := do
  let sdo ← sdoBuf cfg (pfx ++ "sdowrite_") ["can_inst", "packet1_id", "packet2_id", "packet3_id"]
  let task ← loadSlaveInfo cfg pfx
  let confFrameName ← getFieldAsOr cfg (pfx ++ "conf_frame_name") "imu_link"
  createPublisher cfg pfx
  return (task (.hipnucImuCan confFrameName), memcpyBuf sdo c)

def DSHOT.initSdo (cfg : ConfigurationParser) (pfx : String) (c : Cursor) : InitSdo := do
  let sdo ← sdoBuf cfg (pfx ++ "sdowrite_")
    ["connection_lost_write_action", "dshot_id", "init_value"]
  let task ← loadSlaveInfo cfg pfx
  let initValue ← getFieldAs UInt16 cfg (pfx ++ "sdowrite_init_value")
  createSubscription cfg pfx
  return (task (.dshot initValue), memcpyBuf sdo c)

def DJI_MOTOR.initSdo (cfg : ConfigurationParser) (pfx : String) (c : Cursor) : InitSdo := do
  let sdo ← sdoBuf cfg (pfx ++ "sdowrite_")
    ["connection_lost_write_action", "control_period", "can_packet_id", "motor1_can_id",
     "motor2_can_id", "motor3_can_id", "motor4_can_id", "can_inst"]
  let m1 ← motorArgs cfg pfx 1 (memcpyBuf sdo c)
  let m2 ← motorArgs cfg pfx 2 m1.2
  let m3 ← motorArgs cfg pfx 3 m2.2
  let m4 ← motorArgs cfg pfx 4 m3.2
  let task ← loadSlaveInfo cfg pfx
  createPublisher cfg pfx
  createSubscription cfg pfx
  return (task (.djiMotor ![m1.1, m2.1, m3.1, m4.1]), m4.2)

def ONBOARD_PWM.initSdo (cfg : ConfigurationParser) (pfx : String) (c : Cursor) : InitSdo := do
  let sdo ← sdoBuf cfg (pfx ++ "sdowrite_")
    ["connection_lost_write_action", "port_id", "pwm_period", "init_value"]
  let task ← loadSlaveInfo cfg pfx
  let initValue ← getFieldAs UInt16 cfg (pfx ++ "sdowrite_init_value")
  createSubscription cfg pfx
  return (task (.onboardPwm initValue), memcpyBuf sdo c)

def SBUS_RC.initSdo (cfg : ConfigurationParser) (pfx : String) (c : Cursor) : InitSdo := do
  let task ← loadSlaveInfo cfg pfx
  createPublisher cfg pfx
  return (task .sbusRc, c)

def DM_MOTOR.initSdo (cfg : ConfigurationParser) (pfx : String) (c : Cursor) : InitSdo := do
  let sdo ← sdoBuf cfg (pfx ++ "sdowrite_")
    ["connection_lost_write_action", "control_period", "can_id", "master_id", "can_inst",
     "control_type"]
  let task ← loadSlaveInfo cfg pfx
  let controlType ← getFieldAs UInt8 cfg (pfx ++ "sdowrite_control_type")
  createSubscriptionIf (DM_CTRL_TYPE_MIT ≤ controlType ∧ controlType ≤ DM_CTRL_TYPE_SPEED) cfg pfx
  let pmax ← getFieldAsOr cfg (pfx ++ "conf_pmax") M_PI
  let vmax ← getFieldAs F32 cfg (pfx ++ "conf_vmax")
  let tmax ← getFieldAs F32 cfg (pfx ++ "conf_tmax")
  createPublisher cfg pfx
  return (task (.dmMotor controlType pmax.toRat vmax.toRat tmax.toRat), memcpyBuf sdo c)

def SUPER_CAP.initSdo (cfg : ConfigurationParser) (pfx : String) (c : Cursor) : InitSdo := do
  let sdo ← sdoBuf cfg (pfx ++ "sdowrite_")
    ["connection_lost_write_action", "can_inst", "chassis_to_cap_id", "cap_to_chassis_id"]
  let task ← loadSlaveInfo cfg pfx
  createSubscription cfg pfx
  createPublisher cfg pfx
  return (task .superCap, memcpyBuf sdo c)

/-- The switch of `init_task_list` on the task type, and `init_sdo` of the object it makes. -/
def initSdo (cfg : ConfigurationParser) (taskType : UInt8) (pfx : String) (c : Cursor) : InitSdo :=
  if taskType = DJIRC_APP_ID then DBUS_RC.initSdo cfg pfx c
  else if taskType = LK_APP_ID then LK_MOTOR.initSdo cfg pfx c
  else if taskType = HIPNUC_IMU_CAN_APP_ID then HIPNUC_IMU_CAN.initSdo cfg pfx c
  else if taskType = DSHOT_APP_ID then DSHOT.initSdo cfg pfx c
  else if taskType = DJICAN_APP_ID then DJI_MOTOR.initSdo cfg pfx c
  else if taskType = ONBOARD_PWM_APP_ID then ONBOARD_PWM.initSdo cfg pfx c
  else if taskType = SBUS_RC_APP_ID then SBUS_RC.initSdo cfg pfx c
  else if taskType = DM_MOTOR_APP_ID then DM_MOTOR.initSdo cfg pfx c
  else if taskType = SUPER_CAP_APP_ID then SUPER_CAP.initSdo cfg pfx c
  else throw .nullTaskWrapper

/-! ## What an `init_sdo` that returns has done -/

@[simp] theorem memcpyBuf_length (sdo c : Cursor) : (memcpyBuf sdo c).1.length = c.1.length := by
  simp only [memcpyBuf, put_length]

/-- A task of one of the classes, with what `load_slave_info` reads; only an `LK_MOTOR` of the broadcast
control type is in broadcast mode. The argument buffer is only written. -/
structure Made (cfg : ConfigurationParser) (pfx : String) (c : Cursor) (r : TaskWrapper × Cursor) :
    Prop where
  task : ∃ task cls, loadSlaveInfo cfg pfx = .ok task ∧ r.1 = task cls ∧
    ∀ isBroadcastMode controlType, cls = .lkMotor isBroadcastMode controlType →
      isBroadcastMode = (controlType == 0x08)
  length : r.2.1.length = c.1.length

section Made
variable {cfg : ConfigurationParser} {pfx : String} {c : Cursor} {r : TaskWrapper × Cursor}

theorem motorArgs_length {i : ℕ} {r : Bool × Cursor} (h : motorArgs cfg pfx i c = .ok r) :
    r.2.1.length = c.1.length := by
  have hcopy {motorArgPfx : String} {names : List String}
      (h : (do return (true, memcpyBuf (← sdoBuf cfg motorArgPfx names) c)) = Except.ok r) :
      r.2.1.length = c.1.length := by
    obtain ⟨sdo, -, h⟩ := bind_eq_ok.mp h
    cases h
    exact memcpyBuf_length sdo c
  unfold motorArgs at h
  obtain ⟨id, -, h⟩ := bind_eq_ok.mp h
  split at h
  · obtain ⟨ct, -, h⟩ := bind_eq_ok.mp h
    split at h
    · exact hcopy h
    split at h
    · exact hcopy h
    split at h
    · exact hcopy h
    · cases h
      rfl
  · cases h
    rfl

theorem DBUS_RC.initSdo_made (h : DBUS_RC.initSdo cfg pfx c = .ok r) : Made cfg pfx c r := by
  simp only [DBUS_RC.initSdo, bind_eq_ok] at h
  obtain ⟨task, htask, _, -, h⟩ := h
  cases h
  exact ⟨⟨task, _, htask, rfl, fun _ _ hcls => by cases hcls⟩, rfl⟩

theorem LK_MOTOR.initSdo_made (h : LK_MOTOR.initSdo cfg pfx c = .ok r) : Made cfg pfx c r := by
  simp only [LK_MOTOR.initSdo, bind_eq_ok] at h
  obtain ⟨b, hb, sdo, -, task, htask, ct, hct, _, -, _, -, h⟩ := h
  cases h
  obtain rfl := Except.ok.inj (hb.symm.trans hct)
  refine ⟨⟨task, _, htask, rfl, fun _ _ hcls => ?_⟩, memcpyBuf_length sdo c⟩
  cases hcls
  rfl

theorem HIPNUC_IMU_CAN.initSdo_made (h : HIPNUC_IMU_CAN.initSdo cfg pfx c = .ok r) :
    Made cfg pfx c r := by
  simp only [HIPNUC_IMU_CAN.initSdo, bind_eq_ok] at h
  obtain ⟨sdo, -, task, htask, _, -, _, -, h⟩ := h
  cases h
  exact ⟨⟨task, _, htask, rfl, fun _ _ hcls => by cases hcls⟩, memcpyBuf_length sdo c⟩

theorem DSHOT.initSdo_made (h : DSHOT.initSdo cfg pfx c = .ok r) : Made cfg pfx c r := by
  simp only [DSHOT.initSdo, bind_eq_ok] at h
  obtain ⟨sdo, -, task, htask, _, -, _, -, h⟩ := h
  cases h
  exact ⟨⟨task, _, htask, rfl, fun _ _ hcls => by cases hcls⟩, memcpyBuf_length sdo c⟩

theorem DJI_MOTOR.initSdo_made (h : DJI_MOTOR.initSdo cfg pfx c = .ok r) : Made cfg pfx c r := by
  simp only [DJI_MOTOR.initSdo, bind_eq_ok] at h
  obtain ⟨sdo, -, m1, h1, m2, h2, m3, h3, m4, h4, task, htask, _, -, _, -, h⟩ := h
  cases h
  refine ⟨⟨task, _, htask, rfl, fun _ _ hcls => by cases hcls⟩, ?_⟩
  rw [motorArgs_length h4, motorArgs_length h3, motorArgs_length h2, motorArgs_length h1]
  exact memcpyBuf_length sdo c

theorem ONBOARD_PWM.initSdo_made (h : ONBOARD_PWM.initSdo cfg pfx c = .ok r) : Made cfg pfx c r := by
  simp only [ONBOARD_PWM.initSdo, bind_eq_ok] at h
  obtain ⟨sdo, -, task, htask, _, -, _, -, h⟩ := h
  cases h
  exact ⟨⟨task, _, htask, rfl, fun _ _ hcls => by cases hcls⟩, memcpyBuf_length sdo c⟩

theorem SBUS_RC.initSdo_made (h : SBUS_RC.initSdo cfg pfx c = .ok r) : Made cfg pfx c r := by
  simp only [SBUS_RC.initSdo, bind_eq_ok] at h
  obtain ⟨task, htask, _, -, h⟩ := h
  cases h
  exact ⟨⟨task, _, htask, rfl, fun _ _ hcls => by cases hcls⟩, rfl⟩

theorem DM_MOTOR.initSdo_made (h : DM_MOTOR.initSdo cfg pfx c = .ok r) : Made cfg pfx c r := by
  simp only [DM_MOTOR.initSdo, bind_eq_ok] at h
  obtain ⟨sdo, -, task, htask, ct, -, _, -, _, -, _, -, _, -, _, -, h⟩ := h
  cases h
  exact ⟨⟨task, _, htask, rfl, fun _ _ hcls => by cases hcls⟩, memcpyBuf_length sdo c⟩

theorem SUPER_CAP.initSdo_made (h : SUPER_CAP.initSdo cfg pfx c = .ok r) : Made cfg pfx c r := by
  simp only [SUPER_CAP.initSdo, bind_eq_ok] at h
  obtain ⟨sdo, -, task, htask, _, -, _, -, h⟩ := h
  cases h
  exact ⟨⟨task, _, htask, rfl, fun _ _ hcls => by cases hcls⟩, memcpyBuf_length sdo c⟩

/-- **The switch on the task type.** -/
theorem initSdo_made {taskType : UInt8} (h : initSdo cfg taskType pfx c = .ok r) :
    Made cfg pfx c r := by
  unfold initSdo at h
  split at h
  · exact DBUS_RC.initSdo_made h
  split at h
  · exact LK_MOTOR.initSdo_made h
  split at h
  · exact HIPNUC_IMU_CAN.initSdo_made h
  split at h
  · exact DSHOT.initSdo_made h
  split at h
  · exact DJI_MOTOR.initSdo_made h
  split at h
  · exact ONBOARD_PWM.initSdo_made h
  split at h
  · exact SBUS_RC.initSdo_made h
  split at h
  · exact DM_MOTOR.initSdo_made h
  split at h
  · exact SUPER_CAP.initSdo_made h
  · cases h

end Made
end EcatMaster
