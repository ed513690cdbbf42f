import Mathlib.Data.Fin.VecNotation
import EcatMaster.Tasks.Command

/-! # What the tasks report: `read` and `publish_empty_message`

Each class fills one static message, shared by its instances, and publishes it. `Shared` holds these
messages and the static `shared_offset_`; a report of a task is a function of it, of the time stamp and
of the `slave_to_master_buf_` of its slave. A `float` of a report is the rational its formula yields.
-/

namespace EcatMaster
set_option autoImplicit false

/-- A message with the time stamp of its header. -/
structure Stamped (M : Type) where
  stamp : ℤ
  body : M
deriving DecidableEq

structure ReadSBUSRC where
  online : UInt8
  channels : Fin 16 → UInt16
  ch17 : UInt8
  ch18 : UInt8
  failSafe : UInt8
  frameLost : UInt8
deriving DecidableEq

structure ReadDJIRC where
  online : UInt8
  leftX : ℚ
  leftY : ℚ
  rightX : ℚ
  rightY : ℚ
  dial : ℚ
  leftSwitch : UInt8
  rightSwitch : UInt8
  w : UInt8
  s : UInt8
  a : UInt8
  d : UInt8
  q : UInt8
  e : UInt8
  r : UInt8
  f : UInt8
  g : UInt8
  z : UInt8
  x : UInt8
  c : UInt8
  v : UInt8
  b : UInt8
  shift : UInt8
  ctrl : UInt8
  mouseX : Int16
  mouseY : Int16
  mouseLeftClicked : UInt8
  mouseRightClicked : UInt8
deriving DecidableEq

/-- The six fields `ReadDJIMotor` has for each motor. -/
structure DJIMotorState where
  online : UInt8
  ecd : UInt16
  rpm : Int16
  current : Int16
  temperature : UInt8
  errorCode : UInt8
deriving DecidableEq

structure ReadDJIMotor where
  motor : Fin 4 → DJIMotorState
deriving DecidableEq

structure ReadLkMotor where
  online : UInt8
  enabled : UInt8
  current : Int16
  speed : Int16
  encoder : UInt16
  temperature : UInt8
deriving DecidableEq

/-- The five fields `ReadLkMotorMulti` has for each motor. -/
structure LkMotorState where
  online : UInt8
  current : Int16
  speed : Int16
  encoder : UInt16
  temperature : UInt8
deriving DecidableEq

structure ReadLkMotorMulti where
  motor : Fin 4 → LkMotorState
deriving DecidableEq

structure ReadDmMotor where
  online : UInt8
  disabled : UInt8
  enabled : UInt8
  overvoltage : UInt8
  undervoltage : UInt8
  overcurrent : UInt8
  mosOvertemperature : UInt8
  rotorOvertemperature : UInt8
  communicationLost : UInt8
  overload : UInt8
  position : ℚ
  velocity : ℚ
  torque : ℚ
  mosTemperature : UInt8
  rotorTemperature : UInt8
deriving DecidableEq

/-- `sensor_msgs::msg::Imu`, without the covariances that no task writes. -/
structure Imu where
  frameId : String
  orientationW : ℚ
  orientationX : ℚ
  orientationY : ℚ
  orientationZ : ℚ
  linearAccelerationX : ℚ
  linearAccelerationY : ℚ
  linearAccelerationZ : ℚ
  angularVelocityX : ℚ
  angularVelocityY : ℚ
  angularVelocityZ : ℚ
deriving DecidableEq

structure ReadSuperCap where
  online : UInt8
  capValid : UInt8
  capStatus : UInt8
  capRemainPercentage : UInt8
  chassisPower : UInt8
  batteryVoltage : UInt8
  chassisOnlyPower : UInt8
deriving DecidableEq

/-- The static members the task classes report through. -/
structure Shared where
  sharedOffset : ℕ
  readsbusrc : Stamped ReadSBUSRC
  readdjirc : Stamped ReadDJIRC
  readdjimotor : Stamped ReadDJIMotor
  readlkmotor : Stamped ReadLkMotor
  readlkmotormulti : Stamped ReadLkMotorMulti
  readdmmotor : Stamped ReadDmMotor
  imu : Stamped Imu
  readsupercap : Stamped ReadSuperCap
deriving DecidableEq

/-- A published message. -/
inductive Message where
  | readSBUSRC (m : ReadSBUSRC)
  | readDJIRC (m : ReadDJIRC)
  | readDJIMotor (m : ReadDJIMotor)
  | readLkMotor (m : ReadLkMotor)
  | readLkMotorMulti (m : ReadLkMotorMulti)
  | readDmMotor (m : ReadDmMotor)
  | imu (m : Imu)
  | readSuperCap (m : ReadSuperCap)
deriving DecidableEq

/-! ## `sbus_rc.cpp` -/

namespace SBUS_RC

def emptyMessage : ReadSBUSRC where
  channels := fun _ => 0
  ch17 := 0
  ch18 := 0
  failSafe := 0
  frameLost := 0
  online := 0

/-- The sixteen 11-bit channels in the 22 bytes `b 0`, .., `b 21`. -/
def channels (b : ℕ → ℕ) : Fin 16 → UInt16 :=
  let channel (v : ℕ) := UInt16.ofNat (v &&& 0x07FF)
  ![channel (b 0 ||| b 1 <<< 8),
    channel (b 1 >>> 3 ||| b 2 <<< 5),
    channel (b 2 >>> 6 ||| b 3 <<< 2 ||| b 4 <<< 10),
    channel (b 4 >>> 1 ||| b 5 <<< 7),
    channel (b 5 >>> 4 ||| b 6 <<< 4),
    channel (b 6 >>> 7 ||| b 7 <<< 1 ||| b 8 <<< 9),
    channel (b 8 >>> 2 ||| b 9 <<< 6),
    channel (b 9 >>> 5 ||| b 10 <<< 3),
    channel (b 11 ||| b 12 <<< 8),
    channel (b 12 >>> 3 ||| b 13 <<< 5),
    channel (b 13 >>> 6 ||| b 14 <<< 2 ||| b 15 <<< 10),
    channel (b 15 >>> 1 ||| b 16 <<< 7),
    channel (b 16 >>> 4 ||| b 17 <<< 4),
    channel (b 17 >>> 7 ||| b 18 <<< 1 ||| b 19 <<< 9),
    channel (b 19 >>> 2 ||| b 20 <<< 6),
    channel (b 20 >>> 5 ||| b 21 <<< 3)]

/-- The receiver is online. -/
def online (buf : List UInt8) (offset : ℕ) : Bool := byteAt buf (offset + 23) ≠ 0

def read (buf : List UInt8) (offset : ℕ) (m : ReadSBUSRC) : ReadSBUSRC :=
  if online buf offset then
    let flags := byteAt buf (offset + 22)
    { m with
      channels := channels fun i => (byteAt buf (offset + i)).toNat
      ch17 := if flags &&& 0x01 ≠ 0 then 1 else 0
      ch18 := if flags &&& 0x02 ≠ 0 then 1 else 0
      failSafe := if flags &&& 0x04 ≠ 0 then 1 else 0
      frameLost := if flags &&& 0x08 ≠ 0 then 1 else 0
      online := 1 }
  else { m with online := 0 }

end SBUS_RC

/-! ## `dji_rc.cpp` -/

namespace DBUS_RC

def emptyMessage : ReadDJIRC where
  rightX := 0
  rightY := 0
  leftX := 0
  leftY := 0
  dial := 0
  rightSwitch := 0
  leftSwitch := 0
  mouseX := 0
  mouseY := 0
  mouseLeftClicked := 0
  mouseRightClicked := 0
  w := 0
  s := 0
  a := 0
  d := 0
  shift := 0
  ctrl := 0
  q := 0
  e := 0
  r := 0
  f := 0
  g := 0
  z := 0
  x := 0
  c := 0
  v := 0
  b := 0
  online := 0

def getPercentage (rawData : ℕ) : ℚ :=
  let targetSpd : ℚ := ((rawData - 1024 : ℤ) : ℚ)
  if -5 ≤ targetSpd ∧ targetSpd ≤ 5 then 0 else targetSpd / 660

/-- The receiver is online. -/
def online (buf : List UInt8) (offset : ℕ) : Bool := byteAt buf (offset + 18) ≠ 0

def read (buf : List UInt8) (offset : ℕ) (m : ReadDJIRC) : ReadDJIRC :=
  if online buf offset then
    let byte (i : ℕ) := byteAt buf (offset + i)
    let b (i : ℕ) := (byte i).toNat
    let int16 (i : ℕ) : Int16 := (UInt16.ofNat (b i ||| b (i + 1) <<< 8)).toInt16
    let keyValue := UInt16.ofNat (b 14 ||| b 15 <<< 8)
    let key (i : UInt16) := (keyValue >>> i &&& 0x01).toUInt8
    { m with
      rightX := getPercentage ((b 0 ||| b 1 <<< 8) &&& 0x07ff)
      rightY := getPercentage ((b 1 >>> 3 ||| b 2 <<< 5) &&& 0x07ff)
      leftX := getPercentage ((b 2 >>> 6 ||| b 3 <<< 2 ||| b 4 <<< 10) &&& 0x07ff)
      leftY := getPercentage ((b 4 >>> 1 ||| b 5 <<< 7) &&& 0x07ff)
      dial := getPercentage ((b 16 ||| b 17 <<< 8) &&& 0x07ff)
      rightSwitch := byte 5 >>> 4 &&& 0x03
      leftSwitch := byte 5 >>> 6 &&& 0x03
      mouseX := int16 6
      mouseY := int16 8
      mouseLeftClicked := byte 12
      mouseRightClicked := byte 13
      w := key 0
      s := key 1
      a := key 2
      d := key 3
      shift := key 4
      ctrl := key 5
      q := key 6
      e := key 7
      r := key 8
      f := key 9
      g := key 10
      z := key 11
      x := key 12
      c := key 13
      v := key 14
      b := key 15
      online := 1 }
  else { m with online := 0 }

end DBUS_RC

/-! ## `dji_motor.cpp` -/

namespace DJI_MOTOR

/-- One motor of `read`; a disabled one has no bytes in the buffer. -/
def motorState (isMotorEnabled : Bool) (buf : List UInt8) (offset : ℕ) : DJIMotorState × ℕ :=
  if isMotorEnabled then
    let (online, offset) := readUint8 buf offset
    let (ecd, offset) := readUint16 buf offset
    let (rpm, offset) := readInt16 buf offset
    let (current, offset) := readInt16 buf offset
    let (temperature, offset) := readUint8 buf offset
    let (errorCode, offset) := readUint8 buf offset
    (⟨online, ecd, rpm, current, temperature, errorCode⟩, offset)
  else (⟨0, 0, 0, 0, 0, 0⟩, offset)

def emptyMessage : ReadDJIMotor := ⟨fun _ => ⟨0, 0, 0, 0, 0, 0⟩⟩

def read (isMotorEnabled : Fin 4 → Bool) (buf : List UInt8) (offset : ℕ) : ReadDJIMotor × ℕ :=
  let (state1, offset) := motorState (isMotorEnabled motor1) buf offset
  let (state2, offset) := motorState (isMotorEnabled motor2) buf offset
  let (state3, offset) := motorState (isMotorEnabled motor3) buf offset
  let (state4, offset) := motorState (isMotorEnabled motor4) buf offset
  (⟨![state1, state2, state3, state4]⟩, offset)

end DJI_MOTOR

/-! ## `lk_motor.cpp` -/

namespace LK_MOTOR

def motorState (buf : List UInt8) (offset : ℕ) : LkMotorState × ℕ :=
  let (online, offset) := readUint8 buf offset
  let (current, offset) := readInt16 buf offset
  let (speed, offset) := readInt16 buf offset
  let (encoder, offset) := readUint16 buf offset
  let (temperature, offset) := readUint8 buf offset
  (⟨online, current, speed, encoder, temperature⟩, offset)

def emptyMulti : ReadLkMotorMulti := ⟨fun _ => ⟨0, 0, 0, 0, 0⟩⟩

def emptySingle : ReadLkMotor := ⟨0, 0, 0, 0, 0, 0⟩

def readMulti (buf : List UInt8) (offset : ℕ) : ReadLkMotorMulti × ℕ :=
  let (motor1, offset) := motorState buf offset
  let (motor2, offset) := motorState buf offset
  let (motor3, offset) := motorState buf offset
  let (motor4, offset) := motorState buf offset
  (⟨![motor1, motor2, motor3, motor4]⟩, offset)

def readSingle (buf : List UInt8) (offset : ℕ) : ReadLkMotor × ℕ :=
  let (stateByte, offset) := readUint8 buf offset
  let (current, offset) := readInt16 buf offset
  let (speed, offset) := readInt16 buf offset
  let (encoder, offset) := readUint16 buf offset
  let (temperature, offset) := readUint8 buf offset
  (⟨stateByte &&& 0x01, stateByte >>> 2 &&& 0x01, current, speed, encoder, temperature⟩, offset)

end LK_MOTOR

/-! ## `dm_motor.cpp` -/

namespace DM_MOTOR

def emptyMessage : ReadDmMotor where
  disabled := 0
  enabled := 0
  overvoltage := 0
  undervoltage := 0
  overcurrent := 0
  mosOvertemperature := 0
  rotorOvertemperature := 0
  communicationLost := 0
  overload := 0
  online := 0
  position := 0
  velocity := 0
  torque := 0
  mosTemperature := 0
  rotorTemperature := 0

def read (pmax vmax tmax : ℚ) (buf : List UInt8) (offset : ℕ) : ReadDmMotor :=
  let byte (i : ℕ) := byteAt buf (offset + i)
  let b (i : ℕ) := (byte i).toNat
  let state (code : UInt8) : UInt8 := if byte 0 >>> 4 = code then 1 else 0
  { disabled := state 0x0
    enabled := state 0x1
    overvoltage := state 0x8
    undervoltage := state 0x9
    overcurrent := state 0xA
    mosOvertemperature := state 0xB
    rotorOvertemperature := state 0xC
    communicationLost := state 0xD
    overload := state 0xE
    online := byte 8
    position := uintToFloat (b 1 <<< 8 ||| b 2 : ℕ) (-pmax) pmax 16
    velocity := uintToFloat (b 3 <<< 4 ||| b 4 >>> 4 : ℕ) (-vmax) vmax 12
    torque := uintToFloat ((b 4 &&& 0xF) <<< 8 ||| b 5 : ℕ) (-tmax) tmax 12
    mosTemperature := byte 6
    rotorTemperature := byte 7 }

end DM_MOTOR

/-! ## `hipnuc_imu_can.cpp` -/

namespace HIPNUC_IMU_CAN

def emptyMessage (confFrameName : String) : Imu where
  frameId := confFrameName
  orientationW := 1
  orientationX := 0
  orientationY := 0
  orientationZ := 0
  linearAccelerationX := 0
  linearAccelerationY := 0
  linearAccelerationZ := 0
  angularVelocityX := 0
  angularVelocityY := 0
  angularVelocityZ := 0

def read (confFrameName : String) (buf : List UInt8) (offset : ℕ) : Imu :=
  let value (i : ℕ) : ℚ := ((readInt16 buf (offset + 2 * i)).1.toInt : ℚ)
  { frameId := confFrameName
    orientationW := 0.0001 * value 0
    orientationX := 0.0001 * value 1
    orientationY := 0.0001 * value 2
    orientationZ := 0.0001 * value 3
    linearAccelerationX := 0.0048828 * value 4
    linearAccelerationY := 0.0048828 * value 5
    linearAccelerationZ := 0.0048828 * value 6
    angularVelocityX := 0.001 * value 7
    angularVelocityY := 0.001 * value 8
    angularVelocityZ := 0.001 * value 9 }

end HIPNUC_IMU_CAN

/-! ## `super_cap.cpp` -/

namespace SUPER_CAP

def emptyMessage : ReadSuperCap := ⟨0, 0, 0, 0, 0, 0, 0⟩

def read (buf : List UInt8) (offset : ℕ) : ReadSuperCap :=
  let value (i : ℕ) := (readUint8 buf (offset + i)).1
  { online := value 0
    capValid := value 1
    capStatus := value 2
    capRemainPercentage := value 3
    chassisPower := value 4
    batteryVoltage := value 5
    chassisOnlyPower := value 6 }

end SUPER_CAP

/-! ## The virtual methods -/

namespace TaskWrapper

/-- The static members before the first call, the channels resized. -/
def sharedStart : Shared where
  sharedOffset := 0
  readsbusrc := ⟨0, SBUS_RC.emptyMessage⟩
  readdjirc := ⟨0, DBUS_RC.emptyMessage⟩
  readdjimotor := ⟨0, DJI_MOTOR.emptyMessage⟩
  readlkmotor := ⟨0, LK_MOTOR.emptySingle⟩
  readlkmotormulti := ⟨0, LK_MOTOR.emptyMulti⟩
  readdmmotor := ⟨0, DM_MOTOR.emptyMessage⟩
  imu := ⟨0, HIPNUC_IMU_CAN.emptyMessage ""⟩
  readsupercap := ⟨0, SUPER_CAP.emptyMessage⟩

/-- `read`: the static members after it and the message it publishes. -/
def read (t : TaskWrapper) (stamp : ℤ) (buf : List UInt8) (self : Shared) :
    Shared × Option (Stamped Message) :=
  let offset := t.pdoreadOffset.toNat
  match t.cls with
  | .sbusRc =>
      let m := SBUS_RC.read buf offset self.readsbusrc.body
      ({ self with readsbusrc := ⟨stamp, m⟩ }, some ⟨stamp, .readSBUSRC m⟩)
  | .dbusRc =>
      let m := DBUS_RC.read buf offset self.readdjirc.body
      ({ self with readdjirc := ⟨stamp, m⟩ }, some ⟨stamp, .readDJIRC m⟩)
  | .djiMotor isMotorEnabled =>
      let (m, sharedOffset) := DJI_MOTOR.read isMotorEnabled buf offset
      ({ self with readdjimotor := ⟨stamp, m⟩, sharedOffset := sharedOffset },
        some ⟨stamp, .readDJIMotor m⟩)
  | .lkMotor true _ =>
      let (m, sharedOffset) := LK_MOTOR.readMulti buf offset
      ({ self with readlkmotormulti := ⟨stamp, m⟩, sharedOffset := sharedOffset },
        some ⟨stamp, .readLkMotorMulti m⟩)
  | .lkMotor false _ =>
      let (m, sharedOffset) := LK_MOTOR.readSingle buf offset
      ({ self with readlkmotor := ⟨stamp, m⟩, sharedOffset := sharedOffset },
        some ⟨stamp, .readLkMotor m⟩)
  | .dmMotor _ pmax vmax tmax =>
      let m := DM_MOTOR.read pmax vmax tmax buf offset
      ({ self with readdmmotor := ⟨stamp, m⟩ }, some ⟨stamp, .readDmMotor m⟩)
  | .hipnucImuCan confFrameName =>
      let m := HIPNUC_IMU_CAN.read confFrameName buf offset
      ({ self with imu := ⟨stamp, m⟩ }, some ⟨stamp, .imu m⟩)
  | .superCap =>
      let m := SUPER_CAP.read buf offset
      ({ self with readsupercap := ⟨stamp, m⟩ }, some ⟨stamp, .readSuperCap m⟩)
  | .dshot _ | .onboardPwm _ => (self, none)

/-- `publish_empty_message`. -/
def publishEmptyMessage (t : TaskWrapper) (stamp : ℤ) (self : Shared) :
    Shared × Option (Stamped Message) :=
  match t.cls with
  | .sbusRc =>
      let m := SBUS_RC.emptyMessage
      ({ self with readsbusrc := ⟨stamp, m⟩ }, some ⟨stamp, .readSBUSRC m⟩)
  | .dbusRc =>
      let m := DBUS_RC.emptyMessage
      ({ self with readdjirc := ⟨stamp, m⟩ }, some ⟨stamp, .readDJIRC m⟩)
  | .djiMotor _ =>
      let m := DJI_MOTOR.emptyMessage
      ({ self with readdjimotor := ⟨stamp, m⟩ }, some ⟨stamp, .readDJIMotor m⟩)
  | .lkMotor true _ =>
      let m := LK_MOTOR.emptyMulti
      ({ self with readlkmotormulti := ⟨stamp, m⟩ }, some ⟨stamp, .readLkMotorMulti m⟩)
  | .lkMotor false _ =>
      let m := LK_MOTOR.emptySingle
      ({ self with readlkmotor := ⟨stamp, m⟩ }, some ⟨stamp, .readLkMotor m⟩)
  | .dmMotor _ _ _ _ =>
      let m := DM_MOTOR.emptyMessage
      ({ self with readdmmotor := ⟨stamp, m⟩ }, some ⟨stamp, .readDmMotor m⟩)
  | .hipnucImuCan confFrameName =>
      let m := HIPNUC_IMU_CAN.emptyMessage confFrameName
      ({ self with imu := ⟨stamp, m⟩ }, some ⟨stamp, .imu m⟩)
  | .superCap =>
      let m := SUPER_CAP.emptyMessage
      ({ self with readsupercap := ⟨stamp, m⟩ }, some ⟨stamp, .readSuperCap m⟩)
  | .dshot _ | .onboardPwm _ => (self, none)

end TaskWrapper
end EcatMaster
