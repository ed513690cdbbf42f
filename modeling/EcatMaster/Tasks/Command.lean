import Mathlib.Data.Rat.Floor
import EcatMaster.Tasks.Defs

/-! # What the tasks write: `init_value` and the `on_command` callbacks

Each writer of `src/tasks/` is kept in the source's order on a cursor that starts at
`pdowrite_offset_`. `onCommand` is `none` for a message type the task has no subscription for.
The spec lemmas say what a writer does in one `put`: `initValue_eq` writes `initBytes` and
`onCommand_eq` writes the bytes of `encode`, both from `pdowrite_offset_` on, and the number of
bytes a command writes depends on the task only (`encode_length`).
-/

namespace EcatMaster
set_option autoImplicit false
open ByteBuf

/-! ## `dm_motor.cpp` -/

/-- `static_cast<int>` of a float drops the fraction. The cast is defined where an `int` holds the result, and
the properties are stated for such values. -/
def truncToInt (q : ℚ) : ℤ := if 0 ≤ q then ⌊q⌋ else ⌈q⌉

def floatToUint (xFloat xMin xMax : ℚ) (bits : ℕ) : ℤ :=
  let span := xMax - xMin
  let offset := xMin
  truncToInt ((xFloat - offset) * ((2 ^ bits - 1 : ℕ) : ℚ) / span)

def uintToFloat (xInt : ℤ) (xMin xMax : ℚ) (bits : ℕ) : ℚ :=
  let span := xMax - xMin
  let offset := xMin
  (xInt : ℚ) * span / ((2 ^ bits - 1 : ℕ) : ℚ) + offset

/-- The eight bytes `on_command_mit_control` packs; each code is narrowed to `uint16_t` first. -/
def mitData (pmax vmax tmax pDes vDes kp kd torque : ℚ) : List UInt8 :=
  let pos := UInt16.ofInt (floatToUint pDes (-pmax) pmax 16)
  let vel := UInt16.ofInt (floatToUint vDes (-vmax) vmax 12)
  let tor := UInt16.ofInt (floatToUint torque (-tmax) tmax 12)
  let kp := UInt16.ofInt (floatToUint kp 0 500 12)
  let kd := UInt16.ofInt (floatToUint kd 0 5 12)
  [(pos >>> 8).toUInt8,
   pos.toUInt8,
   (vel >>> 4).toUInt8,
   ((vel &&& 0xF) <<< 4 ||| kp >>> 8).toUInt8,
   kp.toUInt8,
   (kd >>> 4).toUInt8,
   ((kd &&& 0xF) <<< 4 ||| tor >>> 8).toUInt8,
   tor.toUInt8]

/-! ## The writers -/

/-- One motor's slot of `DJI_MOTOR::on_command`. -/
def writeMotor (on : Bool) (enable : UInt8) (cmd : Int16) (c : Cursor) : Cursor :=
  if on then writeInt16 cmd (writeUint8 enable c) else c

namespace TaskWrapper

/-- `init_value`; the classes without commands inherit the one that only logs. -/
def initValue (t : TaskWrapper) (buf : List UInt8) : List UInt8 :=
  let c : Cursor := (buf, t.pdowriteOffset.toNat)
  match t.cls with
  | .dshot v | .onboardPwm v =>
      (writeUint16 v (writeUint16 v (writeUint16 v (writeUint16 v c)))).1
  | .djiMotor _ =>
      (writeInt16 0 <| writeUint8 0 <| writeInt16 0 <| writeUint8 0 <|
        writeInt16 0 <| writeUint8 0 <| writeInt16 0 <| writeUint8 0 c).1
  | .lkMotor true _ => (writeInt16 0 <| writeInt16 0 <| writeInt16 0 <| writeInt16 0 c).1
  | .lkMotor false _ | .dmMotor _ _ _ _ => (writeUint8 0 c).1
  | .superCap => (writeUint8 0 <| writeUint8 0 <| writeUint8 0 <| writeUint8 0 c).1
  | .dbusRc | .hipnucImuCan _ | .sbusRc => buf

def onCommand (t : TaskWrapper) (msg : Command) (buf : List UInt8) : Option (List UInt8) :=
  let c : Cursor := (buf, t.pdowriteOffset.toNat)
  match t.cls, msg with
  | .djiMotor on, .writeDJIMotor enable cmd =>
      some (writeMotor (on motor4) (enable motor4) (cmd motor4) <|
        writeMotor (on motor3) (enable motor3) (cmd motor3) <|
        writeMotor (on motor2) (enable motor2) (cmd motor2) <|
        writeMotor (on motor1) (enable motor1) (cmd motor1) c).1
  | .onboardPwm _, .writeOnBoardPWM c1 c2 c3 c4 =>
      some (writeUint16 c4 <| writeUint16 c3 <| writeUint16 c2 <| writeUint16 c1 c).1
  | .dshot _, .writeDSHOT c1 c2 c3 c4 =>
      some (writeUint16 c4 <| writeUint16 c3 <| writeUint16 c2 <| writeUint16 c1 c).1
  | .lkMotor _ ct, .writeLkMotorOpenloopControl enable torque =>
      if ct = LK_CTRL_TYPE_OPENLOOP_CURRENT then
        some (writeInt16 torque <| writeUint8 enable c).1
      else none
  | .lkMotor _ ct, .writeLkMotorTorqueControl enable torque =>
      if ct = LK_CTRL_TYPE_TORQUE then some (writeInt16 torque <| writeUint8 enable c).1 else none
  | .lkMotor _ ct, .writeLkMotorSpeedControlWithTorqueLimit enable torqueLimit speed =>
      if ct = LK_CTRL_TYPE_SPEED_WITH_TORQUE_LIMIT then
        some (writeInt32 speed <| writeInt16 torqueLimit <| writeUint8 enable c).1
      else none
  | .lkMotor _ ct, .writeLkMotorMultiRoundPositionControl enable angle =>
      if ct = LK_CTRL_TYPE_MULTI_ROUND_POSITION then
        some (writeInt32 angle <| writeUint8 enable c).1
      else none
  | .lkMotor _ ct, .writeLkMotorMultiRoundPositionControlWithSpeedLimit enable speedLimit angle =>
      if ct = LK_CTRL_TYPE_MULTI_ROUND_POSITION_WITH_SPEED_LIMIT then
        some (writeInt32 angle <| writeInt16 speedLimit <| writeUint8 enable c).1
      else none
  | .lkMotor _ ct, .writeLkMotorSingleRoundPositionControl enable direction angle =>
      if ct = LK_CTRL_TYPE_SINGLE_ROUND_POSITION then
        some (writeUint32 angle <| writeUint8 direction <| writeUint8 enable c).1
      else none
  | .lkMotor _ ct,
      .writeLkMotorSingleRoundPositionControlWithSpeedLimit enable direction speedLimit angle =>
      if ct = LK_CTRL_TYPE_SINGLE_ROUND_POSITION_WITH_SPEED_LIMIT then
        some (writeUint32 angle <| writeInt16 speedLimit <| writeUint8 direction <|
          writeUint8 enable c).1
      else none
  | .lkMotor _ ct, .writeLkMotorBroadcastCurrentControl m1 m2 m3 m4 =>
      if ct = LK_CTRL_TYPE_BROADCAST_CURRENT then
        some (writeInt16 m4 <| writeInt16 m3 <| writeInt16 m2 <| writeInt16 m1 c).1
      else none
  | .dmMotor ct pmax vmax tmax, .writeDmMotorMITControl enable pDes vDes kp kd torque =>
      if ct = DM_CTRL_TYPE_MIT then
        let c := writeUint8 enable c
        some (put c.1 c.2 (mitData pmax vmax tmax pDes vDes kp kd torque))
      else none
  | .dmMotor ct _ _ _, .writeDmMotorPositionControlWithSpeedLimit enable position speed =>
      if ct = DM_CTRL_TYPE_POSITION_WITH_SPEED_LIMIT then
        some (writeFloat speed <| writeFloat position <| writeUint8 enable c).1
      else none
  | .dmMotor ct _ _ _, .writeDmMotorSpeedControl enable speed =>
      if ct = DM_CTRL_TYPE_SPEED then some (writeFloat speed <| writeUint8 enable c).1 else none
  | .superCap, .writeSuperCap capEnable doCharge maxChargePower allowChargePower =>
      some (writeUint8 allowChargePower <| writeUint8 maxChargePower <| writeUint8 doCharge <|
        writeUint8 capEnable c).1
  | _, _ => none

/-! ## The bytes they write -/

def initBytes (t : TaskWrapper) : List UInt8 :=
  match t.cls with
  | .dshot v | .onboardPwm v => le16 v ++ le16 v ++ le16 v ++ le16 v
  | .djiMotor _ => List.replicate 12 0
  | .lkMotor true _ => List.replicate 8 0
  | .lkMotor false _ | .dmMotor _ _ _ _ => [0]
  | .superCap => List.replicate 4 0
  | .dbusRc | .hipnucImuCan _ | .sbusRc => []

theorem initValue_eq (t : TaskWrapper) (buf : List UInt8) :
    t.initValue buf = put buf t.pdowriteOffset.toNat t.initBytes := by
  obtain ⟨cls, w, r, ra, wa⟩ := t
  cases cls with
  | lkMotor b ct =>
    cases b <;> rfl
  | _ => rfl

@[simp] theorem initValue_length (t : TaskWrapper) (buf : List UInt8) :
    (t.initValue buf).length = buf.length := by
  rw [initValue_eq, put_length]

def motorBytes (on : Bool) (enable : UInt8) (cmd : Int16) : List UInt8 :=
  if on then enable :: le16 cmd.toUInt16 else []

theorem writeMotor_eq (on : Bool) (enable : UInt8) (cmd : Int16) (c : Cursor) :
    writeMotor on enable cmd c = putC (motorBytes on enable cmd) c := by
  cases on <;> rfl

/-- The bytes one command writes, `none` for a message the task does not subscribe to. -/
def encode (t : TaskWrapper) (msg : Command) : Option (List UInt8) :=
  match t.cls, msg with
  | .djiMotor on, .writeDJIMotor enable cmd =>
      some (motorBytes (on motor1) (enable motor1) (cmd motor1) ++
        motorBytes (on motor2) (enable motor2) (cmd motor2) ++
        motorBytes (on motor3) (enable motor3) (cmd motor3) ++
        motorBytes (on motor4) (enable motor4) (cmd motor4))
  | .onboardPwm _, .writeOnBoardPWM c1 c2 c3 c4 => some (le16 c1 ++ le16 c2 ++ le16 c3 ++ le16 c4)
  | .dshot _, .writeDSHOT c1 c2 c3 c4 => some (le16 c1 ++ le16 c2 ++ le16 c3 ++ le16 c4)
  | .lkMotor _ ct, .writeLkMotorOpenloopControl enable torque =>
      if ct = LK_CTRL_TYPE_OPENLOOP_CURRENT then some (enable :: le16 torque.toUInt16) else none
  | .lkMotor _ ct, .writeLkMotorTorqueControl enable torque =>
      if ct = LK_CTRL_TYPE_TORQUE then some (enable :: le16 torque.toUInt16) else none
  | .lkMotor _ ct, .writeLkMotorSpeedControlWithTorqueLimit enable torqueLimit speed =>
      if ct = LK_CTRL_TYPE_SPEED_WITH_TORQUE_LIMIT then
        some (enable :: le16 torqueLimit.toUInt16 ++ le32 speed.toUInt32)
      else none
  | .lkMotor _ ct, .writeLkMotorMultiRoundPositionControl enable angle =>
      if ct = LK_CTRL_TYPE_MULTI_ROUND_POSITION then some (enable :: le32 angle.toUInt32) else none
  | .lkMotor _ ct, .writeLkMotorMultiRoundPositionControlWithSpeedLimit enable speedLimit angle =>
      if ct = LK_CTRL_TYPE_MULTI_ROUND_POSITION_WITH_SPEED_LIMIT then
        some (enable :: le16 speedLimit.toUInt16 ++ le32 angle.toUInt32)
      else none
  | .lkMotor _ ct, .writeLkMotorSingleRoundPositionControl enable direction angle =>
      if ct = LK_CTRL_TYPE_SINGLE_ROUND_POSITION then some (enable :: direction :: le32 angle)
      else none
  | .lkMotor _ ct,
      .writeLkMotorSingleRoundPositionControlWithSpeedLimit enable direction speedLimit angle =>
      if ct = LK_CTRL_TYPE_SINGLE_ROUND_POSITION_WITH_SPEED_LIMIT then
        some (enable :: direction :: le16 speedLimit.toUInt16 ++ le32 angle)
      else none
  | .lkMotor _ ct, .writeLkMotorBroadcastCurrentControl m1 m2 m3 m4 =>
      if ct = LK_CTRL_TYPE_BROADCAST_CURRENT then
        some (le16 m1.toUInt16 ++ le16 m2.toUInt16 ++ le16 m3.toUInt16 ++ le16 m4.toUInt16)
      else none
  | .dmMotor ct pmax vmax tmax, .writeDmMotorMITControl enable pDes vDes kp kd torque =>
      if ct = DM_CTRL_TYPE_MIT then
        some (enable :: mitData pmax vmax tmax pDes vDes kp kd torque)
      else none
  | .dmMotor ct _ _ _, .writeDmMotorPositionControlWithSpeedLimit enable position speed =>
      if ct = DM_CTRL_TYPE_POSITION_WITH_SPEED_LIMIT then
        some (enable :: le32 position.bits ++ le32 speed.bits)
      else none
  | .dmMotor ct _ _ _, .writeDmMotorSpeedControl enable speed =>
      if ct = DM_CTRL_TYPE_SPEED then some (enable :: le32 speed.bits) else none
  | .superCap, .writeSuperCap capEnable doCharge maxChargePower allowChargePower =>
      some [capEnable, doCharge, maxChargePower, allowChargePower]
  | _, _ => none

theorem onCommand_eq (t : TaskWrapper) (msg : Command) (buf : List UInt8) :
    t.onCommand msg buf = (t.encode msg).map (put buf t.pdowriteOffset.toNat) := by
  obtain ⟨cls, w, r, ra, wa⟩ := t
  cases cls <;> cases msg <;> first
    | rfl
    | (simp only [onCommand, encode]; split <;> rfl)
    | (simp only [onCommand, encode, writeMotor_eq, putC_putC, Option.map_some]; rfl)

/-- How many bytes a command of the task writes: the extent of its `on_command` range. -/
def commandLength (t : TaskWrapper) : ℕ :=
  match t.cls with
  | .djiMotor on => 3 * ((List.finRange 4).countP fun k => on k)
  | .onboardPwm _ | .dshot _ => 8
  | .lkMotor _ ct =>
      if ct = LK_CTRL_TYPE_OPENLOOP_CURRENT then 3
      else if ct = LK_CTRL_TYPE_TORQUE then 3
      else if ct = LK_CTRL_TYPE_SPEED_WITH_TORQUE_LIMIT then 7
      else if ct = LK_CTRL_TYPE_MULTI_ROUND_POSITION then 5
      else if ct = LK_CTRL_TYPE_MULTI_ROUND_POSITION_WITH_SPEED_LIMIT then 7
      else if ct = LK_CTRL_TYPE_SINGLE_ROUND_POSITION then 6
      else if ct = LK_CTRL_TYPE_SINGLE_ROUND_POSITION_WITH_SPEED_LIMIT then 8
      else if ct = LK_CTRL_TYPE_BROADCAST_CURRENT then 8
      else 0
  | .dmMotor ct _ _ _ =>
      if ct = DM_CTRL_TYPE_MIT then 9
      else if ct = DM_CTRL_TYPE_POSITION_WITH_SPEED_LIMIT then 9
      else if ct = DM_CTRL_TYPE_SPEED then 5
      else 0
  | .superCap => 4
  | .dbusRc | .hipnucImuCan _ | .sbusRc => 0

theorem motorBytes_length (on : Bool) (enable : UInt8) (cmd : Int16) :
    (motorBytes on enable cmd).length = if on then 3 else 0 := by
  cases on <;> rfl

theorem finRange_motors : List.finRange 4 = [motor1, motor2, motor3, motor4] := by decide

theorem encode_length (t : TaskWrapper) (msg : Command) (bytes : List UInt8)
    (h : t.encode msg = some bytes) : bytes.length = t.commandLength := by
  obtain ⟨cls, w, r, ra, wa⟩ := t
  cases cls with
  | djiMotor on =>
    cases msg <;> simp only [encode, reduceCtorEq, Option.some.injEq] at h
    subst h
    simp only [List.length_append, motorBytes_length, commandLength, finRange_motors]
    cases h1 : on motor1 <;> cases h2 : on motor2 <;> cases h3 : on motor3 <;>
      cases h4 : on motor4 <;> simp [h1, h2, h3, h4]
  | lkMotor b ct =>
    cases msg <;> simp only [encode, reduceCtorEq, Option.ite_none_right_eq_some,
      Option.some.injEq] at h
    all_goals
      obtain ⟨rfl, rfl⟩ := h
      rfl
  | dmMotor ct pmax vmax tmax =>
    cases msg <;> simp only [encode, reduceCtorEq, Option.ite_none_right_eq_some,
      Option.some.injEq] at h
    all_goals
      obtain ⟨rfl, rfl⟩ := h
      rfl
  | _ =>
    cases msg <;> simp only [encode, reduceCtorEq, Option.some.injEq] at h
    all_goals
      subst h
      rfl

end TaskWrapper
end EcatMaster
