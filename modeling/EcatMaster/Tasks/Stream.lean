import EcatMaster.Lib.Schema
import EcatMaster.Tasks.Arguments
import EcatMaster.Utils.Codec

/-! # The format of the argument stream

What a reader of the stream has to know: the type tag of each field, and for each task type which
fields come in which order, given the values of those before. The stream is the task count and then,
for each task, its type and its fields.
-/

namespace EcatMaster
set_option autoImplicit false
open Schema

/-! ## Values -/

def readByte : Parser UInt8 UInt8
  | b :: rest => some (b, rest)
  | [] => none

/-- A number of so many bytes, the lowest first. -/
def readNat : ℕ → Parser UInt8 ℕ
  | 0 => pure 0
  | k + 1 => do
    let b ← readByte
    let n ← readNat k
    return b.toNat + 256 * n

/-- Reading a value with a tag. -/
def Tag.read : Tag → Parser UInt8 Variant
  | .uint8 => do return .uint8 (UInt8.ofNat (← readNat 1))
  | .int8 => do return .int8 (UInt8.ofNat (← readNat 1)).toInt8
  | .uint16 => do return .uint16 (UInt16.ofNat (← readNat 2))
  | .int16 => do return .int16 (UInt16.ofNat (← readNat 2)).toInt16
  | .uint32 => do return .uint32 (UInt32.ofNat (← readNat 4))
  | .int32 => do return .int32 (UInt32.ofNat (← readNat 4)).toInt32
  | .float => do return .float ⟨UInt32.ofNat (← readNat 4)⟩

theorem parses_readByte (b : UInt8) : Parses readByte [b] b := fun _ => rfl

theorem parses_readNat (bs : List UInt8) : Parses (readNat bs.length) bs (leNat bs) := by
  induction bs with
  | nil => exact Parses.pure 0
  | cons b bs ih => exact (parses_readByte b).bind (ih.map fun n => b.toNat + 256 * n)

theorem parses_uint16 (v : UInt16) {f : ℕ → Variant} :
    Parses (readNat 2 >>= fun n => pure (f n)) (le16 v) (f v.toNat) := by
  have h := (parses_readNat (le16 v)).map f
  rw [leNat_le16] at h
  exact h

theorem parses_uint32 (v : UInt32) {f : ℕ → Variant} :
    Parses (readNat 4 >>= fun n => pure (f n)) (le32 v) (f v.toNat) := by
  have h := (parses_readNat (le32 v)).map f
  rw [leNat_le32] at h
  exact h

theorem parses_uint8 (v : UInt8) {f : ℕ → Variant} :
    Parses (readNat 1 >>= fun n => pure (f n)) [v] (f v.toNat) := by
  have h := (parses_readNat [v]).map f
  exact h

/-- **A value is read back by its tag.** -/
theorem parses_read_tag {v : Variant} {t : Tag} (h : v.tag = some t) :
    Parses t.read v.bytes v := by
  cases v with
  | uint8 v =>
    obtain rfl := Option.some.inj h
    have hv := parses_uint8 v (f := fun n => .uint8 (UInt8.ofNat n))
    rw [UInt8.ofNat_toNat] at hv
    exact hv
  | int8 v =>
    obtain rfl := Option.some.inj h
    have hv := parses_uint8 v.toUInt8 (f := fun n => .int8 (UInt8.ofNat n).toInt8)
    rw [UInt8.ofNat_toNat] at hv
    exact hv
  | uint16 v =>
    obtain rfl := Option.some.inj h
    have hv := parses_uint16 v (f := fun n => .uint16 (UInt16.ofNat n))
    rw [UInt16.ofNat_toNat] at hv
    exact hv
  | int16 v =>
    obtain rfl := Option.some.inj h
    have hv := parses_uint16 v.toUInt16 (f := fun n => .int16 (UInt16.ofNat n).toInt16)
    rw [UInt16.ofNat_toNat] at hv
    exact hv
  | uint32 v =>
    obtain rfl := Option.some.inj h
    have hv := parses_uint32 v (f := fun n => .uint32 (UInt32.ofNat n))
    rw [UInt32.ofNat_toNat] at hv
    exact hv
  | int32 v =>
    obtain rfl := Option.some.inj h
    have hv := parses_uint32 v.toUInt32 (f := fun n => .int32 (UInt32.ofNat n).toInt32)
    rw [UInt32.ofNat_toNat] at hv
    exact hv
  | float v =>
    obtain rfl := Option.some.inj h
    have hv := parses_uint32 v.bits (f := fun n => .float ⟨UInt32.ofNat n⟩)
    rw [UInt32.ofNat_toNat] at hv
    exact hv
  | string v => cases h
  | bool v => cases h

/-! ## Records -/

/-- A field of motor `i`. -/
def motorName (i : ℕ) (name : String) : String := "motor" ++ toString i ++ "_" ++ name

/-- The block of one DJI motor: none for a CAN id 0, else the control type and what belongs to it. -/
def motorSchema (i : ℕ) (canId : Variant) (next : Schema String Variant) : Schema String Variant :=
  if canId = .uint32 0 then next
  else .field (motorName i "control_type") fun controlType =>
    match controlType with
    | .uint8 ct => fields ((motorArgNames ct).tail.map (motorName i)) next
    | _ => next

def DJI_MOTOR.schema : Schema String Variant :=
  fields ["connection_lost_write_action", "control_period", "can_packet_id"] <|
    .field (motorName 1 "can_id") fun id1 => .field (motorName 2 "can_id") fun id2 =>
    .field (motorName 3 "can_id") fun id3 => .field (motorName 4 "can_id") fun id4 =>
    .field "can_inst" fun _ =>
      motorSchema 1 id1 <| motorSchema 2 id2 <| motorSchema 3 id3 <| motorSchema 4 id4 .stop

def LK_MOTOR.schema : Schema String Variant :=
  fields ["connection_lost_write_action", "control_period"] <|
    .field "control_type" fun controlType =>
      if controlType = .uint8 0x08 then fields ["can_inst"] .stop
      else fields ["can_packet_id", "can_inst"] .stop

/-- The record of a task of each type. -/
def taskSchema (taskType : UInt8) : Schema String Variant :=
  if taskType = LK_APP_ID then LK_MOTOR.schema
  else if taskType = HIPNUC_IMU_CAN_APP_ID then fields HIPNUC_IMU_CAN.names .stop
  else if taskType = DSHOT_APP_ID then fields DSHOT.names .stop
  else if taskType = DJICAN_APP_ID then DJI_MOTOR.schema
  else if taskType = ONBOARD_PWM_APP_ID then fields ONBOARD_PWM.names .stop
  else if taskType = DM_MOTOR_APP_ID then fields DM_MOTOR.names .stop
  else if taskType = SUPER_CAP_APP_ID then fields SUPER_CAP.names .stop
  else .stop

/-- A task as the stream tells it: its type, and its fields by name. -/
structure TaskRecord where
  taskType : UInt8
  fields : List (String × Variant)
deriving DecidableEq

/-! ## Reading the stream -/

section Reader
variable (tags : UInt8 → String → Tag)

def readTask : Parser UInt8 TaskRecord := do
  let taskType ← readByte
  let fields ← (taskSchema taskType).read fun name => (tags taskType name).read
  return ⟨taskType, fields⟩

def readTasks : ℕ → Parser UInt8 (List TaskRecord)
  | 0 => pure []
  | count + 1 => do
    let task ← readTask tags
    let tasks ← readTasks count
    return task :: tasks

/-- The task list from the bytes alone. -/
def readArgs : Parser UInt8 (List TaskRecord) := do
  let taskCount ← readByte
  readTasks tags taskCount.toNat

end Reader

end EcatMaster
