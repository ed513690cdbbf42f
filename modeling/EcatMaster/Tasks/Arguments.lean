import EcatMaster.Tasks.InitSdo

/-! # `init_sdo` write by write

`initSdo` says what a task writes when it is built. A lookup that fails leaves in the buffer what was
copied before it, so here the same functions run on the cursor step by step and keep it when they
throw. A plan lists what the configuration makes such a run do: the bytes it copies, in order, up to
the first fault. `Follows` says that a run does what a plan lists, and is proved line by line.
-/

namespace EcatMaster
set_option autoImplicit false
open ByteBuf

/-- A computation that writes at the cursor, also when it throws. -/
abbrev ArgM := ExceptT Fault (StateM Cursor)

namespace ArgM

/-- The result of a computation, and the cursor it leaves. -/
def runs {α : Type} (m : ArgM α) (c : Cursor) : Except Fault α × Cursor := (ExceptT.run m).run c

/-- `memcpy(buf + *offset, sdo_buf, sdo_len); *offset += sdo_len` for the result of `build_buf`. -/
def copySdo (cfg : ConfigurationParser) (pfx : String) (names : List String) : ArgM Unit := do
  let sdo ← sdoBuf cfg pfx names
  modify (memcpyBuf sdo)

end ArgM

open ArgM

/-! ## The functions of the source -/

def motorArgsM (cfg : ConfigurationParser) (pfx : String) (i : ℕ) : ArgM Bool := do
  let motorArgPfx := pfx ++ "sdowrite_motor" ++ toString i ++ "_"
  if (← getFieldAs UInt32 cfg (motorArgPfx ++ "can_id")) > 0 then
    let controlType ← getFieldAs UInt8 cfg (motorArgPfx ++ "control_type")
    if controlType = DJIMOTOR_CTRL_TYPE_CURRENT then
      copySdo cfg motorArgPfx ["control_type"]
      return true
    else if controlType = DJIMOTOR_CTRL_TYPE_SPEED then
      copySdo cfg motorArgPfx
        ["control_type", "speed_pid_kp", "speed_pid_ki", "speed_pid_kd", "speed_pid_max_out",
         "speed_pid_max_iout"]
      return true
    else if controlType = DJIMOTOR_CTRL_TYPE_SINGLE_ROUND_POSITION then
      copySdo cfg motorArgPfx
        ["control_type", "speed_pid_kp", "speed_pid_ki", "speed_pid_kd", "speed_pid_max_out",
         "speed_pid_max_iout", "angle_pid_kp", "angle_pid_ki", "angle_pid_kd", "angle_pid_max_out",
         "angle_pid_max_iout"]
      return true
    else return true
  else return false

def DBUS_RC.initSdoM (cfg : ConfigurationParser) (pfx : String) : ArgM TaskWrapper := do
  let task ← loadSlaveInfo cfg pfx
  createPublisher cfg pfx
  return task .dbusRc

def LK_MOTOR.initSdoM (cfg : ConfigurationParser) (pfx : String) : ArgM TaskWrapper := do
  let isBroadcastMode := (← getFieldAs UInt8 cfg (pfx ++ "sdowrite_control_type")) == 0x08
  copySdo cfg (pfx ++ "sdowrite_")
    (if isBroadcastMode then
      ["connection_lost_write_action", "control_period", "control_type", "can_inst"]
    else
      ["connection_lost_write_action", "control_period", "control_type", "can_packet_id",
       "can_inst"])
  let task ← loadSlaveInfo cfg pfx
  let controlType ← getFieldAs UInt8 cfg (pfx ++ "sdowrite_control_type")
  createSubscriptionIf
    (LK_CTRL_TYPE_OPENLOOP_CURRENT ≤ controlType ∧ controlType ≤ LK_CTRL_TYPE_BROADCAST_CURRENT)
    cfg pfx
  createPublisher cfg pfx
  return task (.lkMotor isBroadcastMode controlType)

def HIPNUC_IMU_CAN.initSdoM (cfg : ConfigurationParser) (pfx : String) : ArgM TaskWrapper := do
  copySdo cfg (pfx ++ "sdowrite_") ["can_inst", "packet1_id", "packet2_id", "packet3_id"]
  let task ← loadSlaveInfo cfg pfx
  let confFrameName ← getFieldAsOr cfg (pfx ++ "conf_frame_name") "imu_link"
  createPublisher cfg pfx
  return task (.hipnucImuCan confFrameName)

def DSHOT.initSdoM (cfg : ConfigurationParser) (pfx : String) : ArgM TaskWrapper := do
  copySdo cfg (pfx ++ "sdowrite_") ["connection_lost_write_action", "dshot_id", "init_value"]
  let task ← loadSlaveInfo cfg pfx
  let initValue ← getFieldAs UInt16 cfg (pfx ++ "sdowrite_init_value")
  createSubscription cfg pfx
  return task (.dshot initValue)

def DJI_MOTOR.initSdoM (cfg : ConfigurationParser) (pfx : String) : ArgM TaskWrapper := do
  copySdo cfg (pfx ++ "sdowrite_")
    ["connection_lost_write_action", "control_period", "can_packet_id", "motor1_can_id",
     "motor2_can_id", "motor3_can_id", "motor4_can_id", "can_inst"]
  let m1 ← motorArgsM cfg pfx 1
  let m2 ← motorArgsM cfg pfx 2
  let m3 ← motorArgsM cfg pfx 3
  let m4 ← motorArgsM cfg pfx 4
  let task ← loadSlaveInfo cfg pfx
  createPublisher cfg pfx
  createSubscription cfg pfx
  return task (.djiMotor ![m1, m2, m3, m4])

def ONBOARD_PWM.initSdoM (cfg : ConfigurationParser) (pfx : String) : ArgM TaskWrapper := do
  copySdo cfg (pfx ++ "sdowrite_")
    ["connection_lost_write_action", "port_id", "pwm_period", "init_value"]
  let task ← loadSlaveInfo cfg pfx
  let initValue ← getFieldAs UInt16 cfg (pfx ++ "sdowrite_init_value")
  createSubscription cfg pfx
  return task (.onboardPwm initValue)

def SBUS_RC.initSdoM (cfg : ConfigurationParser) (pfx : String) : ArgM TaskWrapper := do
  let task ← loadSlaveInfo cfg pfx
  createPublisher cfg pfx
  return task .sbusRc

def DM_MOTOR.initSdoM (cfg : ConfigurationParser) (pfx : String) : ArgM TaskWrapper := do
  copySdo cfg (pfx ++ "sdowrite_")
    ["connection_lost_write_action", "control_period", "can_id", "master_id", "can_inst",
     "control_type"]
  let task ← loadSlaveInfo cfg pfx
  let controlType ← getFieldAs UInt8 cfg (pfx ++ "sdowrite_control_type")
  createSubscriptionIf (DM_CTRL_TYPE_MIT ≤ controlType ∧ controlType ≤ DM_CTRL_TYPE_SPEED) cfg pfx
  let pmax ← getFieldAsOr cfg (pfx ++ "conf_pmax") M_PI
  let vmax ← getFieldAs F32 cfg (pfx ++ "conf_vmax")
  let tmax ← getFieldAs F32 cfg (pfx ++ "conf_tmax")
  createPublisher cfg pfx
  return task (.dmMotor controlType pmax.toRat vmax.toRat tmax.toRat)

def SUPER_CAP.initSdoM (cfg : ConfigurationParser) (pfx : String) : ArgM TaskWrapper := do
  copySdo cfg (pfx ++ "sdowrite_")
    ["connection_lost_write_action", "can_inst", "chassis_to_cap_id", "cap_to_chassis_id"]
  let task ← loadSlaveInfo cfg pfx
  createSubscription cfg pfx
  createPublisher cfg pfx
  return task .superCap

/-- The switch on the task type; for an unknown type `task_wrapper` stays null and is called. -/
def initSdoM (cfg : ConfigurationParser) (taskType : UInt8) (pfx : String) : ArgM TaskWrapper :=
  if taskType = DJIRC_APP_ID then DBUS_RC.initSdoM cfg pfx
  else if taskType = LK_APP_ID then LK_MOTOR.initSdoM cfg pfx
  else if taskType = HIPNUC_IMU_CAN_APP_ID then HIPNUC_IMU_CAN.initSdoM cfg pfx
  else if taskType = DSHOT_APP_ID then DSHOT.initSdoM cfg pfx
  else if taskType = DJICAN_APP_ID then DJI_MOTOR.initSdoM cfg pfx
  else if taskType = ONBOARD_PWM_APP_ID then ONBOARD_PWM.initSdoM cfg pfx
  else if taskType = SBUS_RC_APP_ID then SBUS_RC.initSdoM cfg pfx
  else if taskType = DM_MOTOR_APP_ID then DM_MOTOR.initSdoM cfg pfx
  else if taskType = SUPER_CAP_APP_ID then SUPER_CAP.initSdoM cfg pfx
  else throw .nullTaskWrapper

/-! ## Running a computation -/

namespace ArgM
variable {α β : Type}

@[simp] theorem runs_pure (a : α) (c : Cursor) : runs (pure a) c = (.ok a, c) := rfl

@[simp] theorem runs_throw (e : Fault) (c : Cursor) :
    runs (throw e : ArgM α) c = (.error e, c) := rfl

@[simp] theorem runs_lift (x : Except Fault α) (c : Cursor) :
    runs (liftM x : ArgM α) c = (x, c) := rfl

@[simp] theorem runs_modify (f : Cursor → Cursor) (c : Cursor) :
    runs (modify f : ArgM Unit) c = (.ok (), f c) := rfl

theorem runs_bind (m : ArgM α) (f : α → ArgM β) (c : Cursor) :
    runs (m >>= f) c =
      match runs m c with
      | (.ok a, c') => runs (f a) c'
      | (.error e, c') => (.error e, c') := by
  show (match (m c : Except Fault α × Cursor) with
      | (r, c') => (ExceptT.bindCont f r c' : Except Fault β × Cursor)) =
    match (m c : Except Fault α × Cursor) with
      | (.ok a, c') => runs (f a) c'
      | (.error e, c') => (.error e, c')
  rcases (m c : Except Fault α × Cursor) with ⟨r, c'⟩
  cases r with
  | ok a => rfl
  | error e => rfl

theorem runs_bind_ok {m : ArgM α} {f : α → ArgM β} {c c' : Cursor} {a : α}
    (h : runs m c = (.ok a, c')) : runs (m >>= f) c = runs (f a) c' := by
  rw [runs_bind, h]

theorem runs_bind_error {m : ArgM α} {f : α → ArgM β} {c c' : Cursor} {e : Fault}
    (h : runs m c = (.error e, c')) : runs (m >>= f) c = (.error e, c') := by
  rw [runs_bind, h]

/-! ## What a computation yields if it returns -/

/-- The result and the cursor. -/
def returned (m : ArgM α) (c : Cursor) : Except Fault (α × Cursor) :=
  (runs m c).1.map fun a => (a, (runs m c).2)

theorem returned_pure (a : α) (c : Cursor) : returned (pure a) c = .ok (a, c) := rfl

theorem returned_lift (x : Except Fault α) (c : Cursor) :
    returned (liftM x : ArgM α) c = x.map fun a => (a, c) := rfl

theorem returned_bind (m : ArgM α) (f : α → ArgM β) (c : Cursor) :
    returned (m >>= f) c = returned m c >>= fun r => returned (f r.1) r.2 := by
  unfold returned
  rw [runs_bind]
  rcases runs m c with ⟨r, c'⟩
  cases r with
  | ok a => rfl
  | error e => rfl

theorem returned_lift_bind (x : Except Fault α) (f : α → ArgM β) (c : Cursor) :
    returned ((liftM x : ArgM α) >>= f) c = x >>= fun a => returned (f a) c := by
  rw [returned_bind, returned_lift]
  cases x with
  | ok a => rfl
  | error e => rfl

theorem returned_copySdo_bind (cfg : ConfigurationParser) (pfx : String) (names : List String)
    (f : Unit → ArgM β) (c : Cursor) :
    returned (copySdo cfg pfx names >>= f) c =
      sdoBuf cfg pfx names >>= fun sdo => returned (f ()) (memcpyBuf sdo c) := by
  unfold copySdo
  rw [returned_bind, returned_lift_bind]
  cases sdoBuf cfg pfx names with
  | ok sdo => rfl
  | error e => rfl

end ArgM

theorem motorArgsM_returned (cfg : ConfigurationParser) (pfx : String) (i : ℕ) (c : Cursor) :
    returned (motorArgsM cfg pfx i) c = motorArgs cfg pfx i c := by
  unfold motorArgsM motorArgs
  simp only [returned_lift_bind]
  refine congrArg _ (funext fun id => ?_)
  split
  · rw [returned_lift_bind]
    refine congrArg _ (funext fun controlType => ?_)
    split
    · exact returned_copySdo_bind _ _ _ _ _
    split
    · exact returned_copySdo_bind _ _ _ _ _
    split
    · exact returned_copySdo_bind _ _ _ _ _
    · rfl
  · rfl

theorem returned_motorArgsM_bind {β : Type} (cfg : ConfigurationParser) (pfx : String) (i : ℕ)
    (f : Bool → ArgM β) (c : Cursor) :
    returned (motorArgsM cfg pfx i >>= f) c =
      motorArgs cfg pfx i c >>= fun r => returned (f r.1) r.2 := by
  rw [returned_bind, motorArgsM_returned]

/-- **The two models agree**: a run that returns yields what `initSdo` says. -/
theorem initSdoM_returned (cfg : ConfigurationParser) (taskType : UInt8) (pfx : String)
    (c : Cursor) : returned (initSdoM cfg taskType pfx) c = initSdo cfg taskType pfx c := by
  unfold initSdoM initSdo
  split
  · simp only [DBUS_RC.initSdoM, DBUS_RC.initSdo, returned_lift_bind, returned_pure]
    rfl
  split
  · simp only [LK_MOTOR.initSdoM, LK_MOTOR.initSdo, returned_lift_bind, returned_copySdo_bind,
      returned_pure]
    rfl
  split
  · simp only [HIPNUC_IMU_CAN.initSdoM, HIPNUC_IMU_CAN.initSdo, returned_lift_bind,
      returned_copySdo_bind, returned_pure]
    rfl
  split
  · simp only [DSHOT.initSdoM, DSHOT.initSdo, returned_lift_bind, returned_copySdo_bind,
      returned_pure]
    rfl
  split
  · simp only [DJI_MOTOR.initSdoM, DJI_MOTOR.initSdo, returned_lift_bind, returned_copySdo_bind,
      returned_motorArgsM_bind, returned_pure]
    rfl
  split
  · simp only [ONBOARD_PWM.initSdoM, ONBOARD_PWM.initSdo, returned_lift_bind,
      returned_copySdo_bind, returned_pure]
    rfl
  split
  · simp only [SBUS_RC.initSdoM, SBUS_RC.initSdo, returned_lift_bind, returned_pure]
    rfl
  split
  · simp only [DM_MOTOR.initSdoM, DM_MOTOR.initSdo, returned_lift_bind, returned_copySdo_bind,
      returned_pure]
    rfl
  split
  · simp only [SUPER_CAP.initSdoM, SUPER_CAP.initSdo, returned_lift_bind, returned_copySdo_bind,
      returned_pure]
    rfl
  · rfl

/-! ## Plans -/

/-- What one line of a function does to the argument buffer: it copies bytes, or it throws. -/
inductive Piece where
  | bytes (bytes : List UInt8)
  | fault (e : Fault)
deriving DecidableEq

namespace Piece

/-- What is copied before the first fault. -/
def emitted : List Piece → List UInt8
  | [] => []
  | .bytes bs :: ps => bs ++ emitted ps
  | .fault _ :: _ => []

/-- The first fault. -/
def ends : List Piece → Option Fault
  | [] => none
  | .bytes _ :: ps => ends ps
  | .fault e :: _ => some e

/-- A lookup, and what is listed for the value it finds. -/
def after {α : Type} (x : Except Fault α) (rest : α → List Piece) : List Piece :=
  match x with
  | .ok a => rest a
  | .error e => [.fault e]

/-- The fields of one `build_buf`. -/
def chunk (cfg : ConfigurationParser) (pfx : String) (names : List String) : List Piece :=
  match cfg.fieldValues pfx names with
  | .ok vs => [.bytes (vs.flatMap Variant.bytes)]
  | .error e => [.fault e]

theorem emitted_append (p q : List Piece) :
    emitted (p ++ q) = emitted p ++ if ends p = none then emitted q else [] := by
  induction p with
  | nil => rfl
  | cons piece p ih =>
    cases piece with
    | bytes bs =>
      show bs ++ emitted (p ++ q) = (bs ++ emitted p) ++ _
      rw [ih, List.append_assoc]
      rfl
    | fault e => rfl

theorem ends_append (p q : List Piece) : ends (p ++ q) = (ends p).or (ends q) := by
  induction p with
  | nil => rfl
  | cons piece p ih =>
    cases piece with
    | bytes bs => exact ih
    | fault e => rfl

end Piece

open Piece

/-- The run of `m` from any cursor writes what the plan lists and ends as the plan ends. -/
def Follows {α : Type} (m : ArgM α) (plan : List Piece) : Prop :=
  ∀ c, (runs m c).2 = putC (emitted plan) c ∧
    match (runs m c).1 with
    | .ok _ => ends plan = none
    | .error e => ends plan = some e

namespace Follows
variable {α β : Type}

theorem pure (a : α) : Follows (Pure.pure a) [] := fun _ => ⟨rfl, rfl⟩

theorem throw (e : Fault) : Follows (MonadExcept.throw e : ArgM α) [.fault e] := fun _ => ⟨rfl, rfl⟩

theorem modify (bs : List UInt8) : Follows (modify (putC bs) : ArgM Unit) [.bytes bs] := by
  intro c
  refine ⟨?_, rfl⟩
  show putC bs c = putC (bs ++ []) c
  rw [List.append_nil]

/-- The bind rule: what comes after a line is listed after it, for the value the line yields. -/
theorem bind {m : ArgM α} {f : α → ArgM β} {p q : List Piece} (hm : Follows m p)
    (hf : ∀ a c, (runs m c).1 = .ok a → Follows (f a) q) : Follows (m >>= f) (p ++ q) := by
  intro c
  obtain ⟨hcursor, hend⟩ := hm c
  rw [emitted_append, ends_append]
  cases hr : (runs m c).1 with
  | ok a =>
    rw [hr] at hend
    have hend : ends p = none := hend
    have hrun : runs m c = (.ok a, putC (emitted p) c) := Prod.ext hr hcursor
    obtain ⟨hcursor', hend'⟩ := hf a c hr (putC (emitted p) c)
    rw [runs_bind_ok hrun, hend, if_pos rfl, ← putC_putC]
    exact ⟨hcursor', hend'⟩
  | error e =>
    rw [hr] at hend
    have hend : ends p = some e := hend
    have hrun : runs m c = (.error e, putC (emitted p) c) := Prod.ext hr hcursor
    rw [runs_bind_error hrun, hend, if_neg (Option.some_ne_none e), List.append_nil]
    exact ⟨rfl, rfl⟩

/-- A lookup whose value may decide how the run goes on. -/
theorem lift_bind {x : Except Fault α} {f : α → ArgM β} {rest : α → List Piece}
    (hf : ∀ a, x = .ok a → Follows (f a) (rest a)) :
    Follows ((liftM x : ArgM α) >>= f) (after x rest) := by
  cases x with
  | ok a => exact hf a rfl
  | error e => exact fun _ => ⟨rfl, rfl⟩

end Follows

/-! ## Copies -/

theorem memcpyBuf_putC (bs : List UInt8) (h : bs.length ≤ 1024) (c : Cursor) :
    memcpyBuf (putC bs (List.replicate 1024 0, 0)) c = putC bs c := by
  have htake : (put (List.replicate 1024 0) 0 bs).take bs.length = bs := by
    have hself := window_put_self (List.replicate 1024 0) 0 bs
      (by rw [Nat.zero_add, List.length_replicate]; exact h)
    exact hself
  unfold memcpyBuf putC
  simp only [Nat.zero_add, htake]

theorem sdoBuf_eq (cfg : ConfigurationParser) (pfx : String) (names : List String) :
    sdoBuf cfg pfx names = (cfg.fieldValues pfx names).map fun vs =>
      putC (vs.flatMap Variant.bytes) (List.replicate 1024 0, 0) := by
  unfold sdoBuf ConfigurationParser.buildBuf
  rw [ConfigurationParser.buildFields_eq]
  cases cfg.fieldValues pfx names with
  | ok vs => rfl
  | error e => rfl

theorem follows_copySdo (cfg : ConfigurationParser) (pfx : String) (names : List String)
    (h : names.length ≤ 256) : Follows (copySdo cfg pfx names) (chunk cfg pfx names) := by
  intro c
  unfold copySdo chunk
  rw [sdoBuf_eq]
  cases hvs : cfg.fieldValues pfx names with
  | error e => exact ⟨rfl, rfl⟩
  | ok vs =>
    have hlen := ConfigurationParser.fieldValues_bytes_length hvs
    refine ⟨?_, rfl⟩
    show memcpyBuf (putC (vs.flatMap Variant.bytes) _) c = putC (vs.flatMap Variant.bytes ++ []) c
    rw [memcpyBuf_putC _ (by omega), List.append_nil]

/-! ## The plan of each class -/

/-- The fields of one DJI motor in the stream. -/
def motorArgNames (controlType : UInt8) : List String :=
  if controlType = DJIMOTOR_CTRL_TYPE_CURRENT then ["control_type"]
  else if controlType = DJIMOTOR_CTRL_TYPE_SPEED then
    ["control_type", "speed_pid_kp", "speed_pid_ki", "speed_pid_kd", "speed_pid_max_out",
     "speed_pid_max_iout"]
  else if controlType = DJIMOTOR_CTRL_TYPE_SINGLE_ROUND_POSITION then
    ["control_type", "speed_pid_kp", "speed_pid_ki", "speed_pid_kd", "speed_pid_max_out",
     "speed_pid_max_iout", "angle_pid_kp", "angle_pid_ki", "angle_pid_kd", "angle_pid_max_out",
     "angle_pid_max_iout"]
  else []

def motorPlan (cfg : ConfigurationParser) (pfx : String) (i : ℕ) : List Piece :=
  let motorArgPfx := pfx ++ "sdowrite_motor" ++ toString i ++ "_"
  after (getFieldAs UInt32 cfg (motorArgPfx ++ "can_id")) fun id =>
    if id > 0 then
      after (getFieldAs UInt8 cfg (motorArgPfx ++ "control_type")) fun controlType =>
        chunk cfg motorArgPfx (motorArgNames controlType)
    else []

def DBUS_RC.plan (cfg : ConfigurationParser) (pfx : String) : List Piece :=
  after (loadSlaveInfo cfg pfx) fun _ => after (createPublisher cfg pfx) fun _ => []

def LK_MOTOR.names (controlType : UInt8) : List String :=
  if controlType == 0x08 then
    ["connection_lost_write_action", "control_period", "control_type", "can_inst"]
  else
    ["connection_lost_write_action", "control_period", "control_type", "can_packet_id", "can_inst"]

def LK_MOTOR.plan (cfg : ConfigurationParser) (pfx : String) : List Piece :=
  after (getFieldAs UInt8 cfg (pfx ++ "sdowrite_control_type")) fun controlType =>
    chunk cfg (pfx ++ "sdowrite_") (LK_MOTOR.names controlType) ++
      after (loadSlaveInfo cfg pfx) fun _ =>
      after (getFieldAs UInt8 cfg (pfx ++ "sdowrite_control_type")) fun controlType =>
      after (createSubscriptionIf (LK_CTRL_TYPE_OPENLOOP_CURRENT ≤ controlType ∧
        controlType ≤ LK_CTRL_TYPE_BROADCAST_CURRENT) cfg pfx) fun _ =>
      after (createPublisher cfg pfx) fun _ => []

def HIPNUC_IMU_CAN.names : List String := ["can_inst", "packet1_id", "packet2_id", "packet3_id"]

def HIPNUC_IMU_CAN.plan (cfg : ConfigurationParser) (pfx : String) : List Piece :=
  chunk cfg (pfx ++ "sdowrite_") HIPNUC_IMU_CAN.names ++
    after (loadSlaveInfo cfg pfx) fun _ =>
    after (getFieldAsOr cfg (pfx ++ "conf_frame_name") "imu_link") fun _ =>
    after (createPublisher cfg pfx) fun _ => []

def DSHOT.names : List String := ["connection_lost_write_action", "dshot_id", "init_value"]

def DSHOT.plan (cfg : ConfigurationParser) (pfx : String) : List Piece :=
  chunk cfg (pfx ++ "sdowrite_") DSHOT.names ++
    after (loadSlaveInfo cfg pfx) fun _ =>
    after (getFieldAs UInt16 cfg (pfx ++ "sdowrite_init_value")) fun _ =>
    after (createSubscription cfg pfx) fun _ => []

def DJI_MOTOR.names : List String :=
  ["connection_lost_write_action", "control_period", "can_packet_id", "motor1_can_id",
   "motor2_can_id", "motor3_can_id", "motor4_can_id", "can_inst"]

def DJI_MOTOR.plan (cfg : ConfigurationParser) (pfx : String) : List Piece :=
  chunk cfg (pfx ++ "sdowrite_") DJI_MOTOR.names ++
    (motorPlan cfg pfx 1 ++ (motorPlan cfg pfx 2 ++ (motorPlan cfg pfx 3 ++ (motorPlan cfg pfx 4 ++
      after (loadSlaveInfo cfg pfx) fun _ =>
      after (createPublisher cfg pfx) fun _ =>
      after (createSubscription cfg pfx) fun _ => []))))

def ONBOARD_PWM.names : List String :=
  ["connection_lost_write_action", "port_id", "pwm_period", "init_value"]

def ONBOARD_PWM.plan (cfg : ConfigurationParser) (pfx : String) : List Piece :=
  chunk cfg (pfx ++ "sdowrite_") ONBOARD_PWM.names ++
    after (loadSlaveInfo cfg pfx) fun _ =>
    after (getFieldAs UInt16 cfg (pfx ++ "sdowrite_init_value")) fun _ =>
    after (createSubscription cfg pfx) fun _ => []

def SBUS_RC.plan (cfg : ConfigurationParser) (pfx : String) : List Piece :=
  after (loadSlaveInfo cfg pfx) fun _ => after (createPublisher cfg pfx) fun _ => []

def DM_MOTOR.names : List String :=
  ["connection_lost_write_action", "control_period", "can_id", "master_id", "can_inst",
   "control_type"]

def DM_MOTOR.plan (cfg : ConfigurationParser) (pfx : String) : List Piece :=
  chunk cfg (pfx ++ "sdowrite_") DM_MOTOR.names ++
    after (loadSlaveInfo cfg pfx) fun _ =>
    after (getFieldAs UInt8 cfg (pfx ++ "sdowrite_control_type")) fun controlType =>
    after (createSubscriptionIf (DM_CTRL_TYPE_MIT ≤ controlType ∧
      controlType ≤ DM_CTRL_TYPE_SPEED) cfg pfx) fun _ =>
    after (getFieldAsOr cfg (pfx ++ "conf_pmax") M_PI) fun _ =>
    after (getFieldAs F32 cfg (pfx ++ "conf_vmax")) fun _ =>
    after (getFieldAs F32 cfg (pfx ++ "conf_tmax")) fun _ =>
    after (createPublisher cfg pfx) fun _ => []

def SUPER_CAP.names : List String :=
  ["connection_lost_write_action", "can_inst", "chassis_to_cap_id", "cap_to_chassis_id"]

def SUPER_CAP.plan (cfg : ConfigurationParser) (pfx : String) : List Piece :=
  chunk cfg (pfx ++ "sdowrite_") SUPER_CAP.names ++
    after (loadSlaveInfo cfg pfx) fun _ =>
    after (createSubscription cfg pfx) fun _ =>
    after (createPublisher cfg pfx) fun _ => []

/-- What the configuration makes `init_sdo` of a task do. -/
def initSdoPlan (cfg : ConfigurationParser) (taskType : UInt8) (pfx : String) : List Piece :=
  if taskType = DJIRC_APP_ID then DBUS_RC.plan cfg pfx
  else if taskType = LK_APP_ID then LK_MOTOR.plan cfg pfx
  else if taskType = HIPNUC_IMU_CAN_APP_ID then HIPNUC_IMU_CAN.plan cfg pfx
  else if taskType = DSHOT_APP_ID then DSHOT.plan cfg pfx
  else if taskType = DJICAN_APP_ID then DJI_MOTOR.plan cfg pfx
  else if taskType = ONBOARD_PWM_APP_ID then ONBOARD_PWM.plan cfg pfx
  else if taskType = SBUS_RC_APP_ID then SBUS_RC.plan cfg pfx
  else if taskType = DM_MOTOR_APP_ID then DM_MOTOR.plan cfg pfx
  else if taskType = SUPER_CAP_APP_ID then SUPER_CAP.plan cfg pfx
  else [.fault .nullTaskWrapper]

section Classes
variable (cfg : ConfigurationParser) (pfx : String)

theorem Follows.copy_bind {β : Type} {f : Unit → ArgM β} {names : List String} {q : List Piece}
    (h : names.length ≤ 256) (hf : Follows (f ()) q) :
    Follows (copySdo cfg pfx names >>= f) (chunk cfg pfx names ++ q) :=
  (follows_copySdo cfg pfx names h).bind fun _ _ _ => hf

theorem follows_motorArgsM (i : ℕ) : Follows (motorArgsM cfg pfx i) (motorPlan cfg pfx i) := by
  have hcopy (argPfx : String) (names : List String) (hlen : names.length ≤ 256) :
      Follows (copySdo cfg argPfx names >>= fun _ => pure true) (chunk cfg argPfx names) := by
    have h := Follows.copy_bind (f := fun _ => pure true) cfg argPfx hlen (Follows.pure true)
    rw [List.append_nil] at h
    exact h
  unfold motorArgsM motorPlan
  refine Follows.lift_bind fun id _ => ?_
  split
  · refine Follows.lift_bind fun controlType _ => ?_
    unfold motorArgNames
    split
    · exact hcopy _ _ (by decide)
    split
    · exact hcopy _ _ (by decide)
    split
    · exact hcopy _ _ (by decide)
    · exact fun _ => ⟨rfl, rfl⟩
  · exact Follows.pure false

/-- **Every `init_sdo` does what its plan lists.** -/
theorem follows_initSdoM (taskType : UInt8) :
    Follows (initSdoM cfg taskType pfx) (initSdoPlan cfg taskType pfx) := by
  unfold initSdoM initSdoPlan
  split
  · exact .lift_bind fun _ _ => .lift_bind fun _ _ => .pure _
  split
  · refine .lift_bind fun controlType _ => ?_
    refine Follows.copy_bind cfg _ (by split <;> decide) ?_
    exact .lift_bind fun _ _ => .lift_bind fun _ _ => .lift_bind fun _ _ => .lift_bind fun _ _ =>
      .pure _
  split
  · refine Follows.copy_bind cfg _ (by decide) ?_
    exact .lift_bind fun _ _ => .lift_bind fun _ _ => .lift_bind fun _ _ => .pure _
  split
  · refine Follows.copy_bind cfg _ (by decide) ?_
    exact .lift_bind fun _ _ => .lift_bind fun _ _ => .lift_bind fun _ _ => .pure _
  split
  · refine Follows.copy_bind cfg _ (by decide) ?_
    refine (follows_motorArgsM cfg pfx 1).bind fun m1 _ _ => ?_
    refine (follows_motorArgsM cfg pfx 2).bind fun m2 _ _ => ?_
    refine (follows_motorArgsM cfg pfx 3).bind fun m3 _ _ => ?_
    refine (follows_motorArgsM cfg pfx 4).bind fun m4 _ _ => ?_
    exact .lift_bind fun _ _ => .lift_bind fun _ _ => .lift_bind fun _ _ => .pure _
  split
  · refine Follows.copy_bind cfg _ (by decide) ?_
    exact .lift_bind fun _ _ => .lift_bind fun _ _ => .lift_bind fun _ _ => .pure _
  split
  · exact .lift_bind fun _ _ => .lift_bind fun _ _ => .pure _
  split
  · refine Follows.copy_bind cfg _ (by decide) ?_
    exact .lift_bind fun _ _ => .lift_bind fun _ _ => .lift_bind fun _ _ => .lift_bind fun _ _ =>
      .lift_bind fun _ _ => .lift_bind fun _ _ => .lift_bind fun _ _ => .pure _
  split
  · refine Follows.copy_bind cfg _ (by decide) ?_
    exact .lift_bind fun _ _ => .lift_bind fun _ _ => .lift_bind fun _ _ => .pure _
  · exact Follows.throw _

end Classes

end EcatMaster
