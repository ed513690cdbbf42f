import EcatMaster.Lib.Access
import EcatMaster.Tasks.Read

/-! # How far a task reads and writes

`readLength` is the number of bytes `read` takes from `pdoread_offset_` on, and `writeLength` how far
`on_command` and `init_value` write from `pdowrite_offset_` on. A report depends on these bytes only and
on the last of them, and the writers reach the last of theirs.
-/

namespace EcatMaster
set_option autoImplicit false
open ByteBuf

namespace TaskWrapper

/-- The bytes `read` consumes. -/
def readLength (t : TaskWrapper) : ℕ :=
  match t.cls with
  | .sbusRc => 24
  | .dbusRc => 19
  | .djiMotor on => 9 * ((List.finRange 4).countP fun k => on k)
  | .lkMotor true _ => 32
  | .lkMotor false _ => 8
  | .dmMotor _ _ _ _ => 9
  | .hipnucImuCan _ => 20
  | .superCap => 7
  | .dshot _ | .onboardPwm _ => 0

/-- The bytes from `pdowrite_offset_` on that a command or a reset writes. -/
def writeLength (t : TaskWrapper) : ℕ := max t.commandLength t.initBytes.length

end TaskWrapper

/-! ## The readers see their bytes only -/

section Readers
variable {buf buf' : List UInt8} {off len : ℕ}

/-- The two buffers agree on `len` bytes from `off` on. -/
def Agree (buf buf' : List UInt8) (off len : ℕ) : Prop :=
  ∀ j, off ≤ j → j < off + len → byteAt buf j = byteAt buf' j

theorem Agree.mono {off' len' : ℕ} (h : Agree buf buf' off len) (hlo : off ≤ off')
    (hhi : off' + len' ≤ off + len) : Agree buf buf' off' len' :=
  fun j h1 h2 => h j (by omega) (by omega)

theorem SBUS_RC.read_agree (h : Agree buf buf' off 24) (m : ReadSBUSRC) :
    SBUS_RC.read buf off m = SBUS_RC.read buf' off m := by
  unfold Agree at h
  simp (disch := omega) only [SBUS_RC.read, SBUS_RC.online, SBUS_RC.channels, h]
  rfl

theorem DBUS_RC.read_agree (h : Agree buf buf' off 19) (m : ReadDJIRC) :
    DBUS_RC.read buf off m = DBUS_RC.read buf' off m := by
  unfold Agree at h
  simp (disch := omega) only [DBUS_RC.read, DBUS_RC.online, h]
  rfl

theorem DJI_MOTOR.motorState_agree (on : Bool) (h : Agree buf buf' off (if on then 9 else 0)) :
    motorState on buf off = motorState on buf' off := by
  cases on with
  | false => rfl
  | true =>
    have h9 : ∀ j, off ≤ j → j < off + 9 → byteAt buf j = byteAt buf' j := h
    simp (disch := omega) only [motorState, readUint8, readUint16, readInt16, h9]

theorem DJI_MOTOR.motorState_snd (on : Bool) (buf : List UInt8) (off : ℕ) :
    (motorState on buf off).2 = off + if on then 9 else 0 := by
  cases on <;> rfl

theorem LK_MOTOR.motorState_agree (h : Agree buf buf' off 8) :
    LK_MOTOR.motorState buf off = LK_MOTOR.motorState buf' off := by
  unfold Agree at h
  simp (disch := omega) only [LK_MOTOR.motorState, readUint8, readUint16, readInt16, h]

theorem LK_MOTOR.motorState_snd (buf : List UInt8) (off : ℕ) :
    (LK_MOTOR.motorState buf off).2 = off + 8 := rfl

theorem LK_MOTOR.readSingle_agree (h : Agree buf buf' off 8) :
    LK_MOTOR.readSingle buf off = LK_MOTOR.readSingle buf' off := by
  unfold Agree at h
  simp (disch := omega) only [LK_MOTOR.readSingle, readUint8, readUint16, readInt16, h]

theorem LK_MOTOR.readMulti_agree (h : Agree buf buf' off 32) :
    LK_MOTOR.readMulti buf off = LK_MOTOR.readMulti buf' off := by
  simp only [LK_MOTOR.readMulti, LK_MOTOR.motorState_snd]
  rw [LK_MOTOR.motorState_agree (h.mono le_rfl (by omega) : Agree buf buf' off 8),
    LK_MOTOR.motorState_agree (h.mono (by omega) (by omega) : Agree buf buf' (off + 8) 8),
    LK_MOTOR.motorState_agree (h.mono (by omega) (by omega) : Agree buf buf' (off + 8 + 8) 8),
    LK_MOTOR.motorState_agree (h.mono (by omega) (by omega) : Agree buf buf' (off + 8 + 8 + 8) 8)]

theorem DM_MOTOR.read_agree (h : Agree buf buf' off 9) (pmax vmax tmax : ℚ) :
    DM_MOTOR.read pmax vmax tmax buf off = DM_MOTOR.read pmax vmax tmax buf' off := by
  unfold Agree at h
  simp (disch := omega) only [DM_MOTOR.read, h]

theorem HIPNUC_IMU_CAN.read_agree (h : Agree buf buf' off 20) (confFrameName : String) :
    HIPNUC_IMU_CAN.read confFrameName buf off = HIPNUC_IMU_CAN.read confFrameName buf' off := by
  unfold Agree at h
  simp (disch := omega) only [HIPNUC_IMU_CAN.read, readInt16, readUint16, h]

theorem SUPER_CAP.read_agree (h : Agree buf buf' off 7) :
    SUPER_CAP.read buf off = SUPER_CAP.read buf' off := by
  unfold Agree at h
  simp (disch := omega) only [SUPER_CAP.read, readUint8, h]

theorem nine_countP (on : Fin 4 → Bool) : 9 * (List.finRange 4).countP (fun k => on k) =
    (if on motor1 then 9 else 0) + (if on motor2 then 9 else 0) + (if on motor3 then 9 else 0) +
      (if on motor4 then 9 else 0) := by
  simp only [TaskWrapper.finRange_motors, List.countP_cons, List.countP_nil]
  split_ifs <;> rfl

theorem DJI_MOTOR.read_agree (on : Fin 4 → Bool)
    (h : Agree buf buf' off (9 * (List.finRange 4).countP fun k => on k)) :
    DJI_MOTOR.read on buf off = DJI_MOTOR.read on buf' off := by
  rw [nine_countP] at h
  simp only [DJI_MOTOR.read, DJI_MOTOR.motorState_snd]
  rw [DJI_MOTOR.motorState_agree (on motor1) (h.mono (by omega) (by omega)),
    DJI_MOTOR.motorState_agree (on motor2) (h.mono (by omega) (by omega)),
    DJI_MOTOR.motorState_agree (on motor3) (h.mono (by omega) (by omega)),
    DJI_MOTOR.motorState_agree (on motor4) (h.mono (by omega) (by omega))]

end Readers
namespace TaskWrapper

theorem read_agree (t : TaskWrapper) {buf buf' : List UInt8}
    (h : Agree buf buf' t.pdoreadOffset.toNat t.readLength) (stamp : ℤ) (self : Shared) :
    t.read stamp buf self = t.read stamp buf' self := by
  obtain ⟨cls, w, r, ra, wa⟩ := t
  cases cls with
  | sbusRc => simp only [read, SBUS_RC.read_agree h]
  | dbusRc => simp only [read, DBUS_RC.read_agree h]
  | djiMotor on => simp only [read, DJI_MOTOR.read_agree on h]
  | lkMotor b ct =>
    cases b with
    | true => simp only [read, LK_MOTOR.readMulti_agree h]
    | false => simp only [read, LK_MOTOR.readSingle_agree h]
  | dmMotor ct pmax vmax tmax => simp only [read, DM_MOTOR.read_agree h]
  | hipnucImuCan name => simp only [read, HIPNUC_IMU_CAN.read_agree h]
  | superCap => simp only [read, SUPER_CAP.read_agree h]
  | dshot v | onboardPwm v => rfl

end TaskWrapper

/-! ## The last byte matters -/

section Last
variable {n k : ℕ} (j : ℕ)

theorem byteAt_blank : byteAt (List.replicate n 0) j = 0 := by
  unfold byteAt
  rw [List.getD_eq_getElem?_getD, List.getElem?_replicate]
  split <;> rfl

theorem byteAt_marked (hk : k < n) :
    byteAt ((List.replicate n 0).set k 1) j = if j = k then 1 else 0 := by
  unfold byteAt
  rw [List.getD_eq_getElem?_getD]
  by_cases hj : j = k
  · subst hj
    rw [List.getElem?_set_self (by rw [List.length_replicate]; exact hk), if_pos rfl]
    rfl
  · rw [List.getElem?_set_ne (Ne.symm hj), if_neg hj, ← List.getD_eq_getElem?_getD]
    exact byteAt_blank j

end Last

/-- A value that a report takes from the last byte of its task: the online byte, the sum of the error
codes, a temperature, the last rate or the last power. -/
def lastValue (r : Shared × Option (Stamped Message)) : ℚ :=
  match r.2 with
  | some ⟨_, .readSBUSRC m⟩ => m.online.toNat
  | some ⟨_, .readDJIRC m⟩ => m.online.toNat
  | some ⟨_, .readDJIMotor m⟩ => (m.motor motor1).errorCode.toNat + (m.motor motor2).errorCode.toNat +
      (m.motor motor3).errorCode.toNat + (m.motor motor4).errorCode.toNat
  | some ⟨_, .readLkMotor m⟩ => m.temperature.toNat
  | some ⟨_, .readLkMotorMulti m⟩ => (m.motor motor4).temperature.toNat
  | some ⟨_, .readDmMotor m⟩ => m.online.toNat
  | some ⟨_, .imu m⟩ => m.angularVelocityZ
  | some ⟨_, .readSuperCap m⟩ => m.chassisOnlyPower.toNat
  | none => 0

theorem DJI_MOTOR.read_errorCodes (on : Fin 4 → Bool) {zeros marked : List UInt8} {off : ℕ}
    (h : 0 < 9 * (List.finRange 4).countP fun k => on k) (hblank : ∀ j, byteAt zeros j = 0)
    (hmarked : ∀ j, byteAt marked j =
      if j = off + 9 * ((List.finRange 4).countP fun k => on k) - 1 then 1 else 0)
    (stamp : ℤ) (self : Shared) :
    lastValue (self, some ⟨stamp, .readDJIMotor (DJI_MOTOR.read on marked off).1⟩) ≠
      lastValue (self, some ⟨stamp, .readDJIMotor (DJI_MOTOR.read on zeros off).1⟩) := by
  have hcode (on : Bool) (buf : List UInt8) (o : ℕ) :
      (DJI_MOTOR.motorState on buf o).1.errorCode = if on then byteAt buf (o + 8) else 0 := by
    cases on <;> rfl
  rw [nine_countP] at h hmarked
  have hstate (m1 m2 m3 m4 : DJIMotorState) : (![m1, m2, m3, m4] motor1 = m1 ∧ ![m1, m2, m3, m4] motor2 = m2) ∧
      ![m1, m2, m3, m4] motor3 = m3 ∧ ![m1, m2, m3, m4] motor4 = m4 := ⟨⟨rfl, rfl⟩, rfl, rfl⟩
  simp only [lastValue, DJI_MOTOR.read, DJI_MOTOR.motorState_snd, hstate, hcode, hblank, hmarked]
  cases h4 : on motor4 <;> cases h3 : on motor3 <;> cases h2 : on motor2 <;> cases h1 : on motor1 <;>
    simp [h1, h2, h3, h4] at h ⊢

namespace TaskWrapper

/-- A one in the last byte a task reads shows in its report. -/
theorem lastValue_read (t : TaskWrapper) {zeros marked : List UInt8} (h : 0 < t.readLength)
    (hblank : ∀ j, byteAt zeros j = 0)
    (hmarked : ∀ j, byteAt marked j = if j = t.pdoreadOffset.toNat + t.readLength - 1 then 1 else 0)
    (stamp : ℤ) (self : Shared) :
    lastValue (t.read stamp marked self) ≠ lastValue (t.read stamp zeros self) := by
  obtain ⟨cls, w, r, ra, wa⟩ := t
  cases cls with
  | sbusRc =>
    simp [read, SBUS_RC.read, SBUS_RC.online, lastValue, hblank, hmarked, readLength]
  | dbusRc =>
    simp [read, DBUS_RC.read, DBUS_RC.online, lastValue, hblank, hmarked, readLength]
  | djiMotor on => exact DJI_MOTOR.read_errorCodes on h hblank hmarked stamp _
  | lkMotor b ct =>
    cases b with
    | true =>
      simp [read, LK_MOTOR.readMulti, LK_MOTOR.motorState, lastValue, hblank, hmarked, readLength,
        readUint8, readUint16, readInt16, motor4]
    | false =>
      simp [read, LK_MOTOR.readSingle, lastValue, hblank, hmarked, readLength, readUint8, readUint16,
        readInt16]
  | dmMotor ct pmax vmax tmax =>
    simp [read, DM_MOTOR.read, lastValue, hblank, hmarked, readLength]
  | hipnucImuCan name =>
    simp [read, HIPNUC_IMU_CAN.read, lastValue, hblank, hmarked, readLength, readInt16, readUint16]
    exact ⟨by norm_num, by decide⟩
  | superCap =>
    simp [read, SUPER_CAP.read, lastValue, hblank, hmarked, readLength, readUint8]
  | dshot v | onboardPwm v => exact absurd h (lt_irrefl 0)

/-- A report depends on the last byte its task reads. -/
theorem uses_last (t : TaskWrapper) (h : 0 < t.readLength) (stamp : ℤ) (self : Shared) :
    Uses (fun buf => t.read stamp buf self) (t.pdoreadOffset.toNat + t.readLength - 1) := by
  refine ⟨List.replicate (t.pdoreadOffset.toNat + t.readLength) 0, 1, fun heq => ?_⟩
  exact t.lastValue_read h byteAt_blank (fun j => byteAt_marked j (by omega)) stamp self
    (congrArg lastValue heq)

/-! ## What the tasks use and write -/

/-- `read` uses its bytes only, and the last of them. -/
theorem uses_read_lt_iff (t : TaskWrapper) (stamp : ℤ) (self : Shared) (n : ℕ) :
    (∀ i, Uses (fun buf => t.read stamp buf self) i → i < n) ↔
      t.readLength = 0 ∨ t.pdoreadOffset.toNat + t.readLength ≤ n := by
  constructor
  · intro h
    by_cases h0 : t.readLength = 0
    · exact .inl h0
    · have hlast := h _ (t.uses_last (Nat.pos_of_ne_zero h0) stamp self)
      exact .inr (by omega)
  · intro h i huse
    have hinside : t.pdoreadOffset.toNat ≤ i ∧ i < t.pdoreadOffset.toNat + t.readLength := by
      refine huse.inside fun buf buf' hsame => t.read_agree (fun j hlo hhi => ?_) stamp self
      unfold byteAt
      rw [List.getD_eq_getElem?_getD, List.getD_eq_getElem?_getD, hsame j hlo hhi]
    exact forall_range_lt.mpr h i hinside

instance : Nontrivial UInt8 := ⟨0, 1, by decide⟩

theorem writes_initValue (t : TaskWrapper) (i : ℕ) : Writes t.initValue i ↔
    t.pdowriteOffset.toNat ≤ i ∧ i < t.pdowriteOffset.toNat + t.initBytes.length := by
  have heq : t.initValue = fun buf => put buf t.pdowriteOffset.toNat t.initBytes :=
    funext t.initValue_eq
  rw [heq]
  exact writes_put

/-- Some command of the task can change cell `i`. -/
def CommandWrites (t : TaskWrapper) (i : ℕ) : Prop :=
  ∃ msg buf buf', t.onCommand msg buf = some buf' ∧ buf'[i]? ≠ buf[i]?

/-- A task with a command range has a message that fills it. -/
theorem exists_encode (t : TaskWrapper) (h : 0 < t.commandLength) : ∃ msg bytes, t.encode msg = some bytes := by
  obtain ⟨cls, w, r, ra, wa⟩ := t
  cases cls with
  | djiMotor on => exact ⟨.writeDJIMotor (fun _ => 0) (fun _ => 0), _, rfl⟩
  | onboardPwm v => exact ⟨.writeOnBoardPWM 0 0 0 0, _, rfl⟩
  | dshot v => exact ⟨.writeDSHOT 0 0 0 0, _, rfl⟩
  | superCap => exact ⟨.writeSuperCap 0 0 0 0, _, rfl⟩
  | lkMotor b ct =>
    unfold commandLength at h
    simp only at h
    split at h
    · next hct => exact ⟨.writeLkMotorOpenloopControl 0 0, _, if_pos hct⟩
    split at h
    · next hct => exact ⟨.writeLkMotorTorqueControl 0 0, _, if_pos hct⟩
    split at h
    · next hct => exact ⟨.writeLkMotorSpeedControlWithTorqueLimit 0 0 0, _, if_pos hct⟩
    split at h
    · next hct => exact ⟨.writeLkMotorMultiRoundPositionControl 0 0, _, if_pos hct⟩
    split at h
    · next hct => exact ⟨.writeLkMotorMultiRoundPositionControlWithSpeedLimit 0 0 0, _, if_pos hct⟩
    split at h
    · next hct => exact ⟨.writeLkMotorSingleRoundPositionControl 0 0 0, _, if_pos hct⟩
    split at h
    · next hct => exact ⟨.writeLkMotorSingleRoundPositionControlWithSpeedLimit 0 0 0 0, _, if_pos hct⟩
    split at h
    · next hct => exact ⟨.writeLkMotorBroadcastCurrentControl 0 0 0 0, _, if_pos hct⟩
    · cases h
  | dmMotor ct pmax vmax tmax =>
    unfold commandLength at h
    simp only at h
    split at h
    · next hct => exact ⟨.writeDmMotorMITControl 0 0 0 0 0 0, _, if_pos hct⟩
    split at h
    · next hct => exact ⟨.writeDmMotorPositionControlWithSpeedLimit 0 ⟨0⟩ ⟨0⟩, _, if_pos hct⟩
    split at h
    · next hct => exact ⟨.writeDmMotorSpeedControl 0 ⟨0⟩, _, if_pos hct⟩
    · cases h
  | dbusRc | hipnucImuCan name | sbusRc => cases h

theorem commandWrites_iff (t : TaskWrapper) (i : ℕ) : t.CommandWrites i ↔
    t.pdowriteOffset.toNat ≤ i ∧ i < t.pdowriteOffset.toNat + t.commandLength := by
  unfold CommandWrites
  simp only [onCommand_eq, Option.map_eq_some_iff]
  constructor
  · rintro ⟨msg, buf, buf', ⟨bytes, hbytes, rfl⟩, hne⟩
    rw [← encode_length t msg bytes hbytes]
    exact writes_put.mp ⟨buf, hne⟩
  · intro hi
    obtain ⟨msg, bytes, hbytes⟩ := t.exists_encode (by omega)
    rw [← encode_length t msg bytes hbytes] at hi
    obtain ⟨buf, hne⟩ := writes_put.mpr hi
    exact ⟨msg, buf, _, ⟨bytes, hbytes, rfl⟩, hne⟩

theorem writes_lt_iff (t : TaskWrapper) (n : ℕ) :
    (∀ i, t.CommandWrites i ∨ Writes t.initValue i → i < n) ↔
      t.writeLength = 0 ∨ t.pdowriteOffset.toNat + t.writeLength ≤ n := by
  rw [← forall_range_lt]
  refine forall_congr' fun i => ?_
  rw [t.commandWrites_iff, t.writes_initValue]
  unfold writeLength
  have hor : (t.pdowriteOffset.toNat ≤ i ∧ i < t.pdowriteOffset.toNat + t.commandLength ∨
      t.pdowriteOffset.toNat ≤ i ∧ i < t.pdowriteOffset.toNat + t.initBytes.length) ↔
      t.pdowriteOffset.toNat ≤ i ∧
        i < t.pdowriteOffset.toNat + max t.commandLength t.initBytes.length := by
    omega
  rw [hor]

theorem readLength_le (t : TaskWrapper) : t.readLength ≤ 36 := by
  obtain ⟨cls, w, r, ra, wa⟩ := t
  cases cls with
  | djiMotor on =>
    have hle : (List.finRange 4).countP (fun k => on k) ≤ (List.finRange 4).length :=
      List.countP_le_length
    rw [List.length_finRange] at hle
    show 9 * (List.finRange 4).countP (fun k => on k) ≤ 36
    omega
  | lkMotor b ct => cases b <;> exact Nat.le_of_ble_eq_true rfl
  | _ => exact Nat.le_of_ble_eq_true rfl

theorem commandLength_le (t : TaskWrapper) : t.commandLength ≤ 12 := by
  obtain ⟨cls, w, r, ra, wa⟩ := t
  cases cls with
  | djiMotor on =>
    have hle : (List.finRange 4).countP (fun k => on k) ≤ (List.finRange 4).length :=
      List.countP_le_length
    rw [List.length_finRange] at hle
    show 3 * (List.finRange 4).countP (fun k => on k) ≤ 12
    omega
  | lkMotor b ct | dmMotor ct pmax vmax tmax =>
    simp only [commandLength]
    split_ifs <;> omega
  | _ => exact Nat.le_of_ble_eq_true rfl

theorem initBytes_length_le_twelve (t : TaskWrapper) : t.initBytes.length ≤ 12 := by
  obtain ⟨cls, w, r, ra, wa⟩ := t
  cases cls with
  | lkMotor b ct => cases b <;> exact Nat.le_of_ble_eq_true rfl
  | _ => exact Nat.le_of_ble_eq_true rfl

theorem writeLength_le (t : TaskWrapper) : t.writeLength ≤ 12 :=
  max_le t.commandLength_le t.initBytes_length_le_twelve

end TaskWrapper
end EcatMaster
