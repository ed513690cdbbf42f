import EcatMaster.Tasks.Command
import EcatMaster.Utils.Codec

/-! # The fields of the commands

Which values the bytes of a command carry, in the order of its writers, and the types with which a
reader of the task's region gets them back: they depend on the task only. The five quantities of a MIT
command are packed without regard to bytes and stay the eight bytes they are.
-/

namespace EcatMaster
set_option autoImplicit false

namespace DJI_MOTOR

/-- The motors that have a slot, in the order of their slots. -/
def slotted (isMotorEnabled : Fin 4 → Bool) : List (Fin 4) := (List.finRange 4).filter isMotorEnabled

/-- The number of enabled motors before motor `k`. -/
def slot (isMotorEnabled : Fin 4 → Bool) (k : Fin 4) : ℕ :=
  (List.finRange 4).countP fun j => j < k ∧ isMotorEnabled j

/-- Where slot `k` begins when each slot has `w` bytes. -/
theorem mul_slot (w : ℕ) (on : Fin 4 → Bool) (k : Fin 4) : w * slot on k =
    (if motor1 < k ∧ on motor1 then w else 0) + (if motor2 < k ∧ on motor2 then w else 0) +
      (if motor3 < k ∧ on motor3 then w else 0) := by
  have h4 : ¬ motor4 < k := Fin.not_lt.mpr (Fin.le_last k)
  simp only [slot, TaskWrapper.finRange_motors, List.countP_cons, List.countP_nil, h4, false_and,
    decide_eq_true_eq, if_false]
  split <;> split <;> split <;> omega

theorem mul_slot_motor1 (w : ℕ) (on : Fin 4 → Bool) : w * slot on motor1 = 0 := by
  have h1 : ¬ motor1 < motor1 := by decide
  have h2 : ¬ motor2 < motor1 := by decide
  have h3 : ¬ motor3 < motor1 := by decide
  simp only [mul_slot, h1, h2, h3, false_and, if_false, Nat.add_zero]

theorem mul_slot_motor2 (w : ℕ) (on : Fin 4 → Bool) :
    w * slot on motor2 = if on motor1 then w else 0 := by
  have h1 : motor1 < motor2 := by decide
  have h2 : ¬ motor2 < motor2 := by decide
  have h3 : ¬ motor3 < motor2 := by decide
  simp only [mul_slot, h1, h2, h3, true_and, false_and, if_false, Nat.add_zero]

theorem mul_slot_motor3 (w : ℕ) (on : Fin 4 → Bool) :
    w * slot on motor3 = (if on motor1 then w else 0) + if on motor2 then w else 0 := by
  have h1 : motor1 < motor3 := by decide
  have h2 : motor2 < motor3 := by decide
  have h3 : ¬ motor3 < motor3 := by decide
  simp only [mul_slot, h1, h2, h3, true_and, false_and, if_false, Nat.add_zero]

theorem mul_slot_motor4 (w : ℕ) (on : Fin 4 → Bool) : w * slot on motor4 =
    (if on motor1 then w else 0) + (if on motor2 then w else 0) + if on motor3 then w else 0 := by
  have h1 : motor1 < motor4 := by decide
  have h2 : motor2 < motor4 := by decide
  have h3 : motor3 < motor4 := by decide
  simp only [mul_slot, h1, h2, h3, true_and]

theorem motor_cases (k : Fin 4) : k = motor1 ∨ k = motor2 ∨ k = motor3 ∨ k = motor4 := by
  revert k
  decide

end DJI_MOTOR

namespace TaskWrapper

/-- The values a command writes. -/
def commandFields (t : TaskWrapper) (msg : Command) : List Variant :=
  match t.cls, msg with
  | .djiMotor on, .writeDJIMotor enable cmd =>
      (DJI_MOTOR.slotted on).flatMap fun k => [.uint8 (enable k), .int16 (cmd k)]
  | _, .writeDJIMotor _ _ => []
  | _, .writeOnBoardPWM c1 c2 c3 c4 => [.uint16 c1, .uint16 c2, .uint16 c3, .uint16 c4]
  | _, .writeDSHOT c1 c2 c3 c4 => [.uint16 c1, .uint16 c2, .uint16 c3, .uint16 c4]
  | _, .writeLkMotorOpenloopControl enable torque => [.uint8 enable, .int16 torque]
  | _, .writeLkMotorTorqueControl enable torque => [.uint8 enable, .int16 torque]
  | _, .writeLkMotorSpeedControlWithTorqueLimit enable torqueLimit speed =>
      [.uint8 enable, .int16 torqueLimit, .int32 speed]
  | _, .writeLkMotorMultiRoundPositionControl enable angle => [.uint8 enable, .int32 angle]
  | _, .writeLkMotorMultiRoundPositionControlWithSpeedLimit enable speedLimit angle =>
      [.uint8 enable, .int16 speedLimit, .int32 angle]
  | _, .writeLkMotorSingleRoundPositionControl enable direction angle =>
      [.uint8 enable, .uint8 direction, .uint32 angle]
  | _, .writeLkMotorSingleRoundPositionControlWithSpeedLimit enable direction speedLimit angle =>
      [.uint8 enable, .uint8 direction, .int16 speedLimit, .uint32 angle]
  | _, .writeLkMotorBroadcastCurrentControl m1 m2 m3 m4 => [.int16 m1, .int16 m2, .int16 m3, .int16 m4]
  | .dmMotor _ pmax vmax tmax, .writeDmMotorMITControl enable pDes vDes kp kd torque =>
      .uint8 enable :: (mitData pmax vmax tmax pDes vDes kp kd torque).map .uint8
  | _, .writeDmMotorMITControl _ _ _ _ _ _ => []
  | _, .writeDmMotorPositionControlWithSpeedLimit enable position speed =>
      [.uint8 enable, .float position, .float speed]
  | _, .writeDmMotorSpeedControl enable speed => [.uint8 enable, .float speed]
  | _, .writeSuperCap capEnable doCharge maxChargePower allowChargePower =>
      [.uint8 capEnable, .uint8 doCharge, .uint8 maxChargePower, .uint8 allowChargePower]

/-- The types of these values. -/
def commandTags (t : TaskWrapper) : List Tag :=
  match t.cls with
  | .djiMotor on => (DJI_MOTOR.slotted on).flatMap fun _ => [.uint8, .int16]
  | .onboardPwm _ | .dshot _ => [.uint16, .uint16, .uint16, .uint16]
  | .lkMotor _ ct =>
      if ct = LK_CTRL_TYPE_OPENLOOP_CURRENT then [.uint8, .int16]
      else if ct = LK_CTRL_TYPE_TORQUE then [.uint8, .int16]
      else if ct = LK_CTRL_TYPE_SPEED_WITH_TORQUE_LIMIT then [.uint8, .int16, .int32]
      else if ct = LK_CTRL_TYPE_MULTI_ROUND_POSITION then [.uint8, .int32]
      else if ct = LK_CTRL_TYPE_MULTI_ROUND_POSITION_WITH_SPEED_LIMIT then [.uint8, .int16, .int32]
      else if ct = LK_CTRL_TYPE_SINGLE_ROUND_POSITION then [.uint8, .uint8, .uint32]
      else if ct = LK_CTRL_TYPE_SINGLE_ROUND_POSITION_WITH_SPEED_LIMIT then
        [.uint8, .uint8, .int16, .uint32]
      else if ct = LK_CTRL_TYPE_BROADCAST_CURRENT then [.int16, .int16, .int16, .int16]
      else []
  | .dmMotor ct _ _ _ =>
      if ct = DM_CTRL_TYPE_MIT then List.replicate 9 .uint8
      else if ct = DM_CTRL_TYPE_POSITION_WITH_SPEED_LIMIT then [.uint8, .float, .float]
      else if ct = DM_CTRL_TYPE_SPEED then [.uint8, .float]
      else []
  | .superCap => [.uint8, .uint8, .uint8, .uint8]
  | .dbusRc | .hipnucImuCan _ | .sbusRc => []

theorem slotted_bytes (on : Fin 4 → Bool) (enable : Fin 4 → UInt8) (cmd : Fin 4 → Int16) :
    valueBytes ((DJI_MOTOR.slotted on).flatMap fun k => [.uint8 (enable k), .int16 (cmd k)]) =
      motorBytes (on motor1) (enable motor1) (cmd motor1) ++
        motorBytes (on motor2) (enable motor2) (cmd motor2) ++
        motorBytes (on motor3) (enable motor3) (cmd motor3) ++
        motorBytes (on motor4) (enable motor4) (cmd motor4) := by
  have hmotor (k : Fin 4) (ks : List (Fin 4)) :
      valueBytes (((k :: ks).filter on).flatMap fun k => [.uint8 (enable k), .int16 (cmd k)]) =
        motorBytes (on k) (enable k) (cmd k) ++
          valueBytes ((ks.filter on).flatMap fun k => [.uint8 (enable k), .int16 (cmd k)]) := by
    rw [List.filter_cons]
    cases on k <;> rfl
  rw [DJI_MOTOR.slotted, finRange_motors, hmotor, hmotor, hmotor, hmotor]
  simp only [List.filter_nil, List.flatMap_nil, valueBytes, List.append_nil, List.append_assoc]

theorem typed_slotted {ks : List (Fin 4)} (enable : Fin 4 → UInt8) (cmd : Fin 4 → Int16) :
    Typed (ks.flatMap fun k => [.uint8 (enable k), .int16 (cmd k)])
      (ks.flatMap fun _ => [.uint8, .int16]) := by
  induction ks with
  | nil => exact .nil
  | cons k ks ih => exact .cons rfl (.cons rfl ih)

/-- **A command is its fields**, and the task knows their types. -/
theorem encode_fields {t : TaskWrapper} {msg : Command} {bytes : List UInt8}
    (h : t.encode msg = some bytes) :
    valueBytes (t.commandFields msg) = bytes ∧ Typed (t.commandFields msg) t.commandTags := by
  obtain ⟨cls, w, r, ra, wa⟩ := t
  cases cls with
  | djiMotor on =>
    cases msg <;> simp only [encode, reduceCtorEq, Option.some.injEq] at h
    subst h
    exact ⟨slotted_bytes on _ _, typed_slotted _ _⟩
  | lkMotor b ct =>
    cases msg <;> simp only [encode, reduceCtorEq, Option.ite_none_right_eq_some,
      Option.some.injEq] at h
    all_goals
      obtain ⟨rfl, rfl⟩ := h
      exact ⟨rfl, by repeat' constructor⟩
  | dmMotor ct pmax vmax tmax =>
    cases msg <;> simp only [encode, reduceCtorEq, Option.ite_none_right_eq_some,
      Option.some.injEq] at h
    all_goals
      obtain ⟨rfl, rfl⟩ := h
      exact ⟨rfl, by repeat' constructor⟩
  | _ =>
    cases msg <;> simp only [encode, reduceCtorEq, Option.some.injEq] at h
    all_goals
      subst h
      exact ⟨rfl, by repeat' constructor⟩

/-- The types cover exactly the region of the task. -/
theorem width_commandTags {t : TaskWrapper} {msg : Command} {bytes : List UInt8}
    (h : t.encode msg = some bytes) : width t.commandTags = t.commandLength := by
  obtain ⟨hbytes, htyped⟩ := encode_fields h
  rw [← valueBytes_length htyped, hbytes, encode_length t msg bytes h]

end TaskWrapper

namespace DJI_MOTOR

/-- The bytes of an enabled motor are in its slot of three bytes. -/
theorem bytesAt_slot {on : Fin 4 → Bool} {enable : Fin 4 → UInt8} {cmd : Fin 4 → Int16}
    {buf : List UInt8} {off : ℕ}
    (h : BytesAt buf off (TaskWrapper.motorBytes (on motor1) (enable motor1) (cmd motor1) ++
      TaskWrapper.motorBytes (on motor2) (enable motor2) (cmd motor2) ++
      TaskWrapper.motorBytes (on motor3) (enable motor3) (cmd motor3) ++
      TaskWrapper.motorBytes (on motor4) (enable motor4) (cmd motor4)))
    {k : Fin 4} (hk : on k = true) :
    BytesAt buf (off + 3 * slot on k) (valueBytes [.uint8 (enable k), .int16 (cmd k)]) := by
  obtain ⟨h, h4⟩ := bytesAt_append h
  obtain ⟨h, h3⟩ := bytesAt_append h
  obtain ⟨h1, h2⟩ := bytesAt_append h
  simp only [List.length_append, TaskWrapper.motorBytes_length] at h2 h3 h4
  have hslot {m : Fin 4} {o : ℕ} (hm : on m = true)
      (hb : BytesAt buf o (TaskWrapper.motorBytes (on m) (enable m) (cmd m))) :
      BytesAt buf o (valueBytes [.uint8 (enable m), .int16 (cmd m)]) := by
    rw [hm] at hb
    exact hb
  obtain rfl | rfl | rfl | rfl := motor_cases k
  · rw [mul_slot_motor1]
    exact hslot hk h1
  · rw [mul_slot_motor2]
    exact hslot hk h2
  · rw [mul_slot_motor3]
    exact hslot hk h3
  · rw [mul_slot_motor4]
    exact hslot hk h4

end DJI_MOTOR
end EcatMaster
