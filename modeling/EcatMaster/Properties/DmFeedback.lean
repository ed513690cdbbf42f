import EcatMaster.Tasks.Read
import EcatMaster.Utils.Codec
import EcatMaster.Properties.MitPacking

/-! # The feedback of a DM motor

A feedback frame is a status, an identifier and three codes packed big-endian into six bytes, then two
temperatures and the online byte. `DM_MOTOR::read` takes the codes apart again, and `uint_to_float` is
undone by `float_to_uint` on each of them.
-/

namespace EcatMaster
set_option autoImplicit false

/-- The states `read` has a flag for. -/
inductive DmStatus where
  | disabled
  | enabled
  | overvoltage
  | undervoltage
  | overcurrent
  | mosOvertemperature
  | rotorOvertemperature
  | communicationLost
  | overload
deriving DecidableEq

namespace DmStatus

def code : DmStatus → BitVec 4
  | disabled => 0x0
  | enabled => 0x1
  | overvoltage => 0x8
  | undervoltage => 0x9
  | overcurrent => 0xA
  | mosOvertemperature => 0xB
  | rotorOvertemperature => 0xC
  | communicationLost => 0xD
  | overload => 0xE

def flag : DmStatus → ReadDmMotor → UInt8
  | disabled => ReadDmMotor.disabled
  | enabled => ReadDmMotor.enabled
  | overvoltage => ReadDmMotor.overvoltage
  | undervoltage => ReadDmMotor.undervoltage
  | overcurrent => ReadDmMotor.overcurrent
  | mosOvertemperature => ReadDmMotor.mosOvertemperature
  | rotorOvertemperature => ReadDmMotor.rotorOvertemperature
  | communicationLost => ReadDmMotor.communicationLost
  | overload => ReadDmMotor.overload

theorem code_inj {s s' : DmStatus} (h : s.code = s'.code) : s = s' := by
  cases s <;> cases s' <;> first
    | rfl
    | exact absurd h (by decide)

end DmStatus

/-- What a motor packs. -/
structure DmFeedback where
  status : BitVec 4
  id : BitVec 4
  position : BitVec 16
  velocity : BitVec 12
  torque : BitVec 12
  mosTemperature : UInt8
  rotorTemperature : UInt8
  online : UInt8

/-- The three quantities of a frame. -/
inductive DmQuantity where
  | position
  | velocity
  | torque
deriving DecidableEq

namespace DmQuantity

def bits : DmQuantity → ℕ
  | position => 16
  | velocity => 12
  | torque => 12

/-- `pmax_`, `vmax_` or `tmax_`. -/
def limit (r : MitRanges) : DmQuantity → ℚ
  | position => r.pmax
  | velocity => r.vmax
  | torque => r.tmax

def code (f : DmFeedback) : DmQuantity → ℕ
  | position => f.position.toNat
  | velocity => f.velocity.toNat
  | torque => f.torque.toNat

def published (m : ReadDmMotor) : DmQuantity → ℚ
  | position => m.position
  | velocity => m.velocity
  | torque => m.torque

def top (q : DmQuantity) : ℕ := 2 ^ q.bits - 1

theorem top_pos (q : DmQuantity) : 0 < q.top := by
  cases q <;> decide

theorem top_cast (q : DmQuantity) : (q.top : ℚ) = 2 ^ q.bits - 1 := by
  unfold top
  rw [Nat.cast_sub Nat.one_le_two_pow, Nat.cast_pow, Nat.cast_ofNat, Nat.cast_one]

theorem code_le_top (f : DmFeedback) (q : DmQuantity) : q.code f ≤ q.top := by
  cases q with
  | position => exact Nat.le_sub_one_of_lt f.position.isLt
  | velocity => exact Nat.le_sub_one_of_lt f.velocity.isLt
  | torque => exact Nat.le_sub_one_of_lt f.torque.isLt

end DmQuantity

namespace DmFeedback

/-- Status, identifier, position, velocity and torque as one number of 48 bits. -/
def number (f : DmFeedback) : ℕ :=
  (((f.status.toNat * 2 ^ 4 + f.id.toNat) * 2 ^ 16 + f.position.toNat) * 2 ^ 12 +
    f.velocity.toNat) * 2 ^ 12 + f.torque.toNat

/-- The nine bytes, the highest one of the number first. -/
def bytes (f : DmFeedback) : List UInt8 :=
  let digit (i : ℕ) := UInt8.ofNat (f.number / 256 ^ i)
  [digit 5, digit 4, digit 3, digit 2, digit 1, digit 0, f.mosTemperature, f.rotorTemperature, f.online]

def message (r : MitRanges) (f : DmFeedback) : ReadDmMotor :=
  let state (s : DmStatus) : UInt8 := if f.status = s.code then 1 else 0
  let quantity (q : DmQuantity) : ℚ := uintToFloat (q.code f) (-(q.limit r)) (q.limit r) q.bits
  { online := f.online
    disabled := state .disabled
    enabled := state .enabled
    overvoltage := state .overvoltage
    undervoltage := state .undervoltage
    overcurrent := state .overcurrent
    mosOvertemperature := state .mosOvertemperature
    rotorOvertemperature := state .rotorOvertemperature
    communicationLost := state .communicationLost
    overload := state .overload
    position := quantity .position
    velocity := quantity .velocity
    torque := quantity .torque
    mosTemperature := f.mosTemperature
    rotorTemperature := f.rotorTemperature }

theorem flag_message (r : MitRanges) (f : DmFeedback) (s : DmStatus) :
    s.flag (f.message r) = if f.status = s.code then 1 else 0 := by
  cases s <;> rfl

theorem published_message (r : MitRanges) (f : DmFeedback) (q : DmQuantity) :
    q.published (f.message r) = Quantize.value q.top (-(q.limit r)) (q.limit r) (q.code f) := by
  cases q <;> rfl

/-! ## The bytes of a frame -/

section Bytes
variable (f : DmFeedback)

theorem bytes_toNat :
    (byteAt f.bytes 0).toNat = 16 * f.status.toNat + f.id.toNat ∧
    (byteAt f.bytes 1).toNat = f.position.toNat / 256 ∧
    (byteAt f.bytes 2).toNat = f.position.toNat % 256 ∧
    (byteAt f.bytes 3).toNat = f.velocity.toNat / 16 ∧
    (byteAt f.bytes 4).toNat = 16 * (f.velocity.toNat % 16) + f.torque.toNat / 256 ∧
    (byteAt f.bytes 5).toNat = f.torque.toNat % 256 := by
  have hstatus := f.status.isLt
  have hid := f.id.isLt
  have hposition := f.position.isLt
  have hvelocity := f.velocity.isLt
  have htorque := f.torque.isLt
  have digit (i : ℕ) : (UInt8.ofNat (f.number / 256 ^ i)).toNat = f.number / 256 ^ i % 2 ^ 8 :=
    UInt8.toNat_ofNat'
  refine ⟨(digit 5).trans ?_, (digit 4).trans ?_, (digit 3).trans ?_, (digit 2).trans ?_,
    (digit 1).trans ?_, (digit 0).trans ?_⟩
  all_goals
    unfold number
    omega

theorem status_eq (s : DmStatus) :
    byteAt f.bytes 0 >>> 4 = UInt8.ofNat s.code.toNat ↔ f.status = s.code := by
  have hid := f.id.isLt
  have hs := s.code.isLt
  have hshift : (byteAt f.bytes 0 >>> 4).toNat = f.status.toNat := by
    rw [UInt8.toNat_shiftRight, f.bytes_toNat.1]
    show (16 * f.status.toNat + f.id.toNat) >>> 4 = _
    rw [Nat.shiftRight_eq_div_pow]
    omega
  rw [← UInt8.toNat_inj, hshift, UInt8.toNat_ofNat', Nat.mod_eq_of_lt (by omega), BitVec.toNat_inj]

theorem position_eq :
    (byteAt f.bytes 1).toNat <<< 8 ||| (byteAt f.bytes 2).toNat = f.position.toNat := by
  obtain ⟨-, h1, h2, -⟩ := f.bytes_toNat
  rw [Nat.or_comm, or_shiftLeft (byteAt f.bytes 2).toNat_lt, h1, h2]
  omega

theorem velocity_eq :
    (byteAt f.bytes 3).toNat <<< 4 ||| (byteAt f.bytes 4).toNat >>> 4 = f.velocity.toNat := by
  obtain ⟨-, -, -, h3, h4, -⟩ := f.bytes_toNat
  have htorque := f.torque.isLt
  have hlow : (byteAt f.bytes 4).toNat >>> 4 = f.velocity.toNat % 16 := by
    rw [Nat.shiftRight_eq_div_pow, h4]
    omega
  rw [Nat.or_comm, hlow, or_shiftLeft (by omega), h3]
  omega

theorem torque_eq :
    ((byteAt f.bytes 4).toNat &&& 0xF) <<< 8 ||| (byteAt f.bytes 5).toNat = f.torque.toNat := by
  obtain ⟨-, -, -, -, h4, h5⟩ := f.bytes_toNat
  have htorque := f.torque.isLt
  have hhigh : (byteAt f.bytes 4).toNat &&& 0xF = f.torque.toNat / 256 := by
    rw [show (0xF : ℕ) = 2 ^ 4 - 1 from rfl, Nat.and_two_pow_sub_one_eq_mod, h4]
    omega
  rw [Nat.or_comm, or_shiftLeft (byteAt f.bytes 5).toNat_lt, hhigh, h5]
  omega

theorem read_bytes (r : MitRanges) {buf : List UInt8} {offset : ℕ}
    (h : BytesAt buf offset f.bytes) :
    DM_MOTOR.read r.pmax r.vmax r.tmax buf offset = f.message r := by
  have hbyte (i : ℕ) (hi : i < 9) : byteAt buf (offset + i) = byteAt f.bytes i := h i hi
  have hstate (s : DmStatus) : (if byteAt f.bytes 0 >>> 4 = UInt8.ofNat s.code.toNat
      then (1 : UInt8) else 0) = if f.status = s.code then 1 else 0 := by
    simp only [f.status_eq s]
  unfold DM_MOTOR.read
  simp only [hbyte 0 (by decide), hbyte 1 (by decide), hbyte 2 (by decide), hbyte 3 (by decide),
    hbyte 4 (by decide), hbyte 5 (by decide), hbyte 6 (by decide), hbyte 7 (by decide),
    hbyte 8 (by decide), f.position_eq, f.velocity_eq, f.torque_eq]
  exact (ReadDmMotor.mk.injEq ..).mpr ⟨rfl, hstate .disabled, hstate .enabled,
    hstate .overvoltage, hstate .undervoltage, hstate .overcurrent, hstate .mosOvertemperature,
    hstate .rotorOvertemperature, hstate .communicationLost, hstate .overload, rfl, rfl, rfl, rfl, rfl⟩

end Bytes

end DmFeedback

/-- **DM feedback.** A packed frame is published with its own codes. At most one flag is set, the one of
the status. Each quantity lies in its range, grows strictly with its code and is taken back to that
code by `float_to_uint`; the other way round less than one step of the range is lost. -/
theorem dm_feedback (t : TaskWrapper) (ctrlType : UInt8) (r : MitRanges)
    (hcls : t.cls = .dmMotor ctrlType r.pmax r.vmax r.tmax) (hr : ∀ q : DmQuantity, 0 < q.limit r) :
    (∀ (f : DmFeedback) (buf : List UInt8) (stamp : ℤ) (self : Shared),
      BytesAt buf t.pdoreadOffset.toNat f.bytes →
      (t.read stamp buf self).2 = some ⟨stamp, .readDmMotor (f.message r)⟩) ∧
    (∀ (f : DmFeedback) (s : DmStatus),
      s.flag (f.message r) = if f.status = s.code then 1 else 0) ∧
    (∀ (f : DmFeedback) (s s' : DmStatus),
      s.flag (f.message r) ≠ 0 → s'.flag (f.message r) ≠ 0 → s = s') ∧
    ∀ q : DmQuantity,
      (∀ f : DmFeedback, -(q.limit r) ≤ q.published (f.message r) ∧
        q.published (f.message r) ≤ q.limit r) ∧
      (∀ f g : DmFeedback, q.code f < q.code g →
        q.published (f.message r) < q.published (g.message r)) ∧
      (∀ f : DmFeedback,
        floatToUint (q.published (f.message r)) (-(q.limit r)) (q.limit r) q.bits = q.code f) ∧
      ∀ x : ℚ, -(q.limit r) ≤ x → x ≤ q.limit r →
        |uintToFloat (floatToUint x (-(q.limit r)) (q.limit r) q.bits) (-(q.limit r)) (q.limit r)
          q.bits - x| < (q.limit r - -(q.limit r)) / (2 ^ q.bits - 1) := by
  refine ⟨fun f buf stamp self hbytes => ?_, fun f => f.flag_message r,
    fun f s s' hs hs' => ?_, fun q => ?_⟩
  · obtain ⟨cls, w, offset, ra, wa⟩ := t
    obtain rfl : cls = .dmMotor ctrlType r.pmax r.vmax r.tmax := hcls
    simp only [TaskWrapper.read, f.read_bytes r hbytes]
  · rw [f.flag_message] at hs hs'
    have hcode : f.status = s.code := of_not_not fun hne => hs (if_neg hne)
    have hcode' : f.status = s'.code := of_not_not fun hne => hs' (if_neg hne)
    exact DmStatus.code_inj (hcode.symm.trans hcode')
  · have hlimit : -(q.limit r) < q.limit r := neg_lt_self (hr q)
    refine ⟨fun f => ?_, fun f g hfg => ?_, fun f => ?_, fun x hx _ => ?_⟩
    · rw [f.published_message]
      exact Quantize.value_mem q.top_pos hlimit (Int.natCast_nonneg _)
        (Int.ofNat_le.mpr (q.code_le_top f))
    · rw [f.published_message, g.published_message]
      exact Quantize.value_lt q.top_pos hlimit (Int.ofNat_lt.mpr hfg)
    · rw [f.published_message]
      exact Quantize.level_value q.top_pos hlimit _
    · rw [← q.top_cast]
      exact Quantize.abs_value_sub_lt q.top_pos hlimit hx

/-- A motor at offset 3. -/
def dmTask : TaskWrapper where
  cls := .dmMotor DM_CTRL_TYPE_MIT 12.5 30 10
  pdowriteOffset := 0
  pdoreadOffset := 3
  connectionLostReadAction := 1
  connectionLostWriteAction := 0

/-- Overcurrent, at the upper end of the velocity. -/
def dmFrame : DmFeedback where
  status := 0xA
  id := 0x5
  position := 0x1234
  velocity := 0xFFF
  torque := 0x678
  mosTemperature := 40
  rotorTemperature := 50
  online := 1

theorem dm_feedback_frame :
    (dmTask.read 5 [0, 0, 0, 0xA5, 0x12, 0x34, 0xFF, 0xF6, 0x78, 40, 50, 1]
      TaskWrapper.sharedStart).2 =
        some ⟨5, .readDmMotor (dmFrame.message ⟨12.5, 30, 10⟩)⟩ ∧
    (dmFrame.message ⟨12.5, 30, 10⟩).overcurrent = 1 ∧
    floatToUint (dmFrame.message ⟨12.5, 30, 10⟩).velocity (-30) 30 12 = 0xFFF := by
  obtain ⟨hread, hflag, -, hquantity⟩ := dm_feedback dmTask DM_CTRL_TYPE_MIT ⟨12.5, 30, 10⟩ rfl
    (fun q => by cases q <;> norm_num [DmQuantity.limit])
  refine ⟨hread dmFrame _ 5 _ ?_, hflag dmFrame .overcurrent, (hquantity .velocity).2.2.1 dmFrame⟩
  unfold BytesAt
  decide +kernel

end EcatMaster
