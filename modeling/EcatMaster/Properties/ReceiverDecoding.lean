import Mathlib.Tactic.FinCases
import EcatMaster.Lib.BitStream
import EcatMaster.Tasks.Read

/-! # The receivers

The sixteen shift-and-mask expressions of `SBUS_RC::read` are the sixteen consecutive 11-bit fields of
22 bytes. So the published channels are the packed ones, and they determine every bit. `DBUS_RC::read`
decodes a DR16 frame: four sticks and two switches share the first six bytes without a gap.
-/

namespace EcatMaster
set_option autoImplicit false
open BitStream

def region (buf : List UInt8) (offset i : ℕ) : ℕ := (byteAt buf (offset + i)).toNat

theorem region_lt (buf : List UInt8) (offset i : ℕ) : region buf offset i < 2 ^ 8 :=
  (byteAt buf (offset + i)).toNat_lt

/-- The test of one bit of a byte with a mask. -/
theorem flag_eq (byte mask : UInt8) (j : ℕ) (hmask : mask.toNat = 2 ^ j) :
    (if byte &&& mask ≠ 0 then (1 : UInt8) else 0) = if byte.toNat.testBit j then 1 else 0 := by
  have hand : (byte &&& mask).toNat = (byte.toNat.testBit j).toNat * 2 ^ j := by
    rw [UInt8.toNat_and, hmask, Nat.and_two_pow]
  have hiff : byte &&& mask ≠ 0 ↔ byte.toNat.testBit j = true := by
    rw [Ne, ← UInt8.toNat_inj, hand]
    cases byte.toNat.testBit j <;> simp
  simp only [hiff]

namespace SBUS_RC

/-- **The channels are the fields of the stream.** -/
theorem channels_eq {b : ℕ → ℕ} (hb : ∀ i, b i < 2 ^ 8) (k : Fin 16) :
    channels b k = UInt16.ofNat (field b (11 * k) 11) := by
  have two (q r : ℕ) (hr : r < 8) (h : r + 11 ≤ 16) :
      UInt16.ofNat ((b q >>> r ||| b (q + 1) <<< (8 - r)) &&& 0x07FF) =
        UInt16.ofNat (field b (8 * q + r) 11) :=
    congrArg UInt16.ofNat (extract_two hb hr h)
  have three (q r : ℕ) (hr : r < 8) (h : r + 11 ≤ 24) :
      UInt16.ofNat ((b q >>> r ||| b (q + 1) <<< (8 - r) ||| b (q + 2) <<< (16 - r)) &&& 0x07FF) =
        UInt16.ofNat (field b (8 * q + r) 11) :=
    congrArg UInt16.ofNat (extract_three hb hr h)
  fin_cases k
  · exact two 0 0 (by decide) (by decide)
  · exact two 1 3 (by decide) (by decide)
  · exact three 2 6 (by decide) (by decide)
  · exact two 4 1 (by decide) (by decide)
  · exact two 5 4 (by decide) (by decide)
  · exact three 6 7 (by decide) (by decide)
  · exact two 8 2 (by decide) (by decide)
  · exact two 9 5 (by decide) (by decide)
  · exact two 11 0 (by decide) (by decide)
  · exact two 12 3 (by decide) (by decide)
  · exact three 13 6 (by decide) (by decide)
  · exact two 15 1 (by decide) (by decide)
  · exact two 16 4 (by decide) (by decide)
  · exact three 17 7 (by decide) (by decide)
  · exact two 19 2 (by decide) (by decide)
  · exact two 20 5 (by decide) (by decide)

theorem channels_toNat {b : ℕ → ℕ} (hb : ∀ i, b i < 2 ^ 8) (k : Fin 16) :
    (channels b k).toNat = field b (11 * k) 11 := by
  have hlt := field_lt b (11 * k) 11
  rw [channels_eq hb, UInt16.toNat_ofNat', Nat.mod_eq_of_lt (by omega)]

/-- Bit `i` of the stream is bit `i % 11` of channel `i / 11`. -/
theorem testBit_channels {b : ℕ → ℕ} (hb : ∀ i, b i < 2 ^ 8) {i : ℕ} (hi : i < 176) :
    (channels b ⟨i / 11, by omega⟩).toNat.testBit (i % 11) = bit b i := by
  have hmod : i % 11 < 11 := Nat.mod_lt _ (by decide)
  rw [channels_toNat hb, testBit_field, decide_eq_true hmod, Bool.true_and, Nat.div_add_mod]

theorem read_channels {buf : List UInt8} {offset : ℕ} (h : online buf offset = true)
    (m : ReadSBUSRC) : (read buf offset m).channels = channels (region buf offset) := by
  unfold read
  rw [if_pos h]
  rfl

/-- The channels determine the bytes. -/
theorem bytes_of_channels {buf buf' : List UInt8} {offset offset' : ℕ}
    (h : channels (region buf' offset') = channels (region buf offset)) {q : ℕ} (hq : q < 22) :
    byteAt buf' (offset' + q) = byteAt buf (offset + q) := by
  apply UInt8.toNat_inj.mp
  refine byte_eq_of_bits (region_lt buf' offset') (region_lt buf offset) fun j hj => ?_
  have hi : 8 * q + j < 176 := by omega
  rw [← testBit_channels (region_lt buf' offset') hi, ← testBit_channels (region_lt buf offset) hi, h]

end SBUS_RC

/-- **SBUS.** Where the stream carries channel `k` from bit `11 k` on, the flags are in the low bits of
byte 22 and byte 23 is not zero, the published message has these channels and flags. The channels
determine the 22 bytes, each bit of which is one bit of one channel. -/
theorem sbus_decoding (t : TaskWrapper) (hcls : t.cls = .sbusRc) (buf : List UInt8)
    (ch : Fin 16 → BitVec 11) (flag : Fin 4 → Bool)
    (hstream : ∀ k : Fin 16, Carries (region buf t.pdoreadOffset.toNat) (11 * k) (ch k))
    (hflag : ∀ j : Fin 4, (byteAt buf (t.pdoreadOffset.toNat + 22)).toNat.testBit j = flag j)
    (honline : byteAt buf (t.pdoreadOffset.toNat + 23) ≠ 0) (stamp : ℤ) (self : Shared) :
    (t.read stamp buf self).2 = some ⟨stamp, .readSBUSRC
      { channels := fun k => UInt16.ofNat (ch k).toNat
        ch17 := if flag 0 then 1 else 0
        ch18 := if flag 1 then 1 else 0
        failSafe := if flag 2 then 1 else 0
        frameLost := if flag 3 then 1 else 0
        online := 1 }⟩ ∧
    (∀ buf' offset' m', SBUS_RC.online buf' offset' = true →
      (SBUS_RC.read buf' offset' m').channels = (fun k => UInt16.ofNat (ch k).toNat) →
      ∀ q < 22, byteAt buf' (offset' + q) = byteAt buf (t.pdoreadOffset.toNat + q)) ∧
    ∀ buf' offset' m', SBUS_RC.online buf' offset' = true → ∀ (i : ℕ) (hi : i < 176),
      ((SBUS_RC.read buf' offset' m').channels ⟨i / 11, by omega⟩).toNat.testBit (i % 11) =
        bit (region buf' offset') i := by
  have hchannels : SBUS_RC.channels (region buf t.pdoreadOffset.toNat) =
      fun k => UInt16.ofNat (ch k).toNat := by
    funext k
    rw [SBUS_RC.channels_eq (region_lt buf _), field_of_carries (hstream k)]
  have hon : SBUS_RC.online buf t.pdoreadOffset.toNat = true := decide_eq_true honline
  refine ⟨?_, fun buf' offset' m' hon' hsame q hq => ?_, fun buf' offset' m' hon' i hi => ?_⟩
  · obtain ⟨cls, w, r, ra, wa⟩ := t
    obtain rfl : cls = .sbusRc := hcls
    have h0 := flag_eq (byteAt buf (r.toNat + 22)) 0x01 0 rfl
    have h1 := flag_eq (byteAt buf (r.toNat + 22)) 0x02 1 rfl
    have h2 := flag_eq (byteAt buf (r.toNat + 22)) 0x04 2 rfl
    have h3 := flag_eq (byteAt buf (r.toNat + 22)) 0x08 3 rfl
    simp only [TaskWrapper.read, SBUS_RC.read, if_pos hon, h0, h1, h2, h3, ← hflag,
      Option.some.injEq, Stamped.mk.injEq, true_and, Message.readSBUSRC.injEq, ReadSBUSRC.mk.injEq]
    exact ⟨hchannels, rfl, rfl, rfl, rfl⟩
  · rw [SBUS_RC.read_channels hon', ← hchannels] at hsame
    exact SBUS_RC.bytes_of_channels hsame hq
  · rw [SBUS_RC.read_channels hon']
    exact SBUS_RC.testBit_channels (region_lt buf' offset') hi

/-- A receiver at offset 2. -/
def sbusTask : TaskWrapper where
  cls := .sbusRc
  pdowriteOffset := 0
  pdoreadOffset := 2
  connectionLostReadAction := 1
  connectionLostWriteAction := 0

/-- Channel `k` is `172 + 100 k`, the second and the third flag are set, and so are spare bits. -/
def sbusFrame : List UInt8 :=
  [255, 255, 172, 128, 8, 93, 176, 195, 35, 80, 17, 12, 109, 204,
  131, 33, 37, 241, 201, 85, 224, 146, 24, 209, 0xF6, 1]

def sbusChannels : Fin 16 → BitVec 11 := fun k => 172 + 100 * BitVec.ofNat 11 k

theorem sbus_decoding_frame : (sbusTask.read 5 sbusFrame TaskWrapper.sharedStart).2 =
    some ⟨5, .readSBUSRC ⟨1, fun k => UInt16.ofNat (sbusChannels k).toNat, 0, 1, 1, 0⟩⟩ :=
  (sbus_decoding sbusTask rfl sbusFrame sbusChannels ![false, true, true, false]
    (by unfold Carries; decide +kernel) (by decide) (by decide) 5 TaskWrapper.sharedStart).1

/-! ## DBUS -/

/-- What a DR16 transmitter packs. -/
structure Dr16 where
  rightX : BitVec 11
  rightY : BitVec 11
  leftX : BitVec 11
  leftY : BitVec 11
  rightSwitch : BitVec 2
  leftSwitch : BitVec 2
  mouseX : Int16
  mouseY : Int16
  mouseLeft : UInt8
  mouseRight : UInt8
  keys : BitVec 16
  dial : BitVec 11

/-- The stream has the layout of the frame: the mouse in bytes 6 to 9, 12 and 13, the keys in bytes 14
and 15, the dial in bytes 16 and 17. -/
structure Dr16.Packed (f : Dr16) (b : ℕ → ℕ) : Prop where
  rightX : Carries b 0 f.rightX
  rightY : Carries b 11 f.rightY
  leftX : Carries b 22 f.leftX
  leftY : Carries b 33 f.leftY
  rightSwitch : Carries b 44 f.rightSwitch
  leftSwitch : Carries b 46 f.leftSwitch
  mouseX : Carries b (8 * 6) f.mouseX.toBitVec
  mouseY : Carries b (8 * 8) f.mouseY.toBitVec
  mouseLeft : Carries b (8 * 12) f.mouseLeft.toBitVec
  mouseRight : Carries b (8 * 13) f.mouseRight.toBitVec
  keys : Carries b (8 * 14) f.keys
  dial : Carries b (8 * 16) f.dial

def Dr16.message (f : Dr16) : ReadDJIRC :=
  let key (i : ℕ) : UInt8 := if f.keys.getLsbD i then 1 else 0
  { online := 1
    rightX := DBUS_RC.getPercentage f.rightX.toNat
    rightY := DBUS_RC.getPercentage f.rightY.toNat
    leftX := DBUS_RC.getPercentage f.leftX.toNat
    leftY := DBUS_RC.getPercentage f.leftY.toNat
    dial := DBUS_RC.getPercentage f.dial.toNat
    rightSwitch := UInt8.ofNat f.rightSwitch.toNat
    leftSwitch := UInt8.ofNat f.leftSwitch.toNat
    mouseX := f.mouseX
    mouseY := f.mouseY
    mouseLeftClicked := f.mouseLeft
    mouseRightClicked := f.mouseRight
    w := key 0
    s := key 1
    a := key 2
    d := key 3
    shift := key 4
    ctrl := key 5
    q := key 6
    e := key 7
    r := key 8
    f := key 9
    g := key 10
    z := key 11
    x := key 12
    c := key 13
    v := key 14
    b := key 15 }

namespace DBUS_RC

/-- The fields of the first six bytes. -/
inductive Stick where
  | rightX
  | rightY
  | leftX
  | leftY
  | rightSwitch
  | leftSwitch
deriving DecidableEq

namespace Stick

def pos : Stick → ℕ
  | rightX => 0
  | rightY => 11
  | leftX => 22
  | leftY => 33
  | rightSwitch => 44
  | leftSwitch => 46

def width : Stick → ℕ
  | rightX | rightY | leftX | leftY => 11
  | rightSwitch | leftSwitch => 2

/-- Bit `i` belongs to the field. -/
def Covers (f : Stick) (i : ℕ) : Prop := f.pos ≤ i ∧ i < f.pos + f.width

def code (f : Stick) (b : ℕ → ℕ) : ℕ := field b f.pos f.width

theorem code_of_carries (f : Stick) {b : ℕ → ℕ} {v : BitVec f.width} (h : Carries b f.pos v) :
    f.code b = v.toNat := field_of_carries h

/-- Each of the 48 bits belongs to exactly one field. -/
theorem covers_unique {i : ℕ} (hi : i < 48) : ∃! f : Stick, f.Covers i := by
  have hex : ∃ f : Stick, f.Covers i := by
    by_cases h1 : i < 11
    · exact ⟨rightX, Nat.zero_le _, h1⟩
    by_cases h2 : i < 22
    · exact ⟨rightY, Nat.le_of_not_lt h1, h2⟩
    by_cases h3 : i < 33
    · exact ⟨leftX, Nat.le_of_not_lt h2, h3⟩
    by_cases h4 : i < 44
    · exact ⟨leftY, Nat.le_of_not_lt h3, h4⟩
    by_cases h5 : i < 46
    · exact ⟨rightSwitch, Nat.le_of_not_lt h4, h5⟩
    · exact ⟨leftSwitch, Nat.le_of_not_lt h5, hi⟩
  obtain ⟨f, hf⟩ := hex
  refine ⟨f, hf, fun g hg => ?_⟩
  unfold Covers at hf hg
  cases f <;> cases g <;> first
    | rfl
    | (simp only [pos, width] at hf hg; omega)

end Stick

theorem word_toInt16 {b : ℕ → ℕ} (hb : ∀ i, b i < 2 ^ 8) {q : ℕ} {v : Int16}
    (h : Carries b (8 * q) v.toBitVec) :
    (UInt16.ofNat (b q ||| b (q + 1) <<< 8)).toInt16 = v := by
  rw [field_word hb, field_of_carries h]
  show (UInt16.ofNat v.toUInt16.toNat).toInt16 = v
  rw [UInt16.ofNat_toNat, Int16.toInt16_toUInt16]

theorem byte_of_carries {buf : List UInt8} {offset q : ℕ} {v : UInt8}
    (h : Carries (region buf offset) (8 * q) v.toBitVec) : byteAt buf (offset + q) = v := by
  apply UInt8.toNat_inj.mp
  exact (field_byte (region_lt buf offset) q).symm.trans (field_of_carries h)

theorem switch_eq {buf : List UInt8} {offset q : ℕ} (r : UInt8) (hr : r.toNat + 2 ≤ 8) :
    byteAt buf (offset + q) >>> r &&& 0x03 =
      UInt8.ofNat (field (region buf offset) (8 * q + r.toNat) 2) := by
  have hlt := field_lt (region buf offset) (8 * q + r.toNat) 2
  have hmod : r.toNat % 8 = r.toNat := Nat.mod_eq_of_lt (by omega)
  apply UInt8.toNat_inj.mp
  rw [UInt8.toNat_and, UInt8.toNat_shiftRight, hmod, UInt8.toNat_ofNat', Nat.mod_eq_of_lt (by omega)]
  exact extract_one (region buf offset) hr

theorem key_eq (v : UInt16) (i : UInt16) (hi : i.toNat < 16) :
    (v >>> i &&& 0x01).toUInt8 = if v.toNat.testBit i.toNat then 1 else 0 := by
  apply UInt8.toNat_inj.mp
  have hbit : (v >>> i &&& 0x01).toUInt8.toNat = v.toNat / 2 ^ i.toNat % 2 := by
    rw [UInt16.toNat_toUInt8, UInt16.toNat_and, UInt16.toNat_shiftRight, Nat.mod_eq_of_lt hi,
      Nat.shiftRight_eq_div_pow]
    show (v.toNat / 2 ^ i.toNat &&& 1) % 2 ^ 8 = _
    rw [Nat.and_one_is_mod]
    omega
  rw [hbit, Nat.testBit_eq_decide_div_mod_eq]
  obtain h | h := Nat.mod_two_eq_zero_or_one (v.toNat / 2 ^ i.toNat) <;> rw [h] <;> rfl

section Read
variable {buf : List UInt8} {offset : ℕ}

/-- The sticks and switches `read` publishes are the fields of the stream. -/
theorem read_sticks (h : online buf offset = true) (m : ReadDJIRC) :
    (read buf offset m).rightX = getPercentage (Stick.rightX.code (region buf offset)) ∧
    (read buf offset m).rightY = getPercentage (Stick.rightY.code (region buf offset)) ∧
    (read buf offset m).leftX = getPercentage (Stick.leftX.code (region buf offset)) ∧
    (read buf offset m).leftY = getPercentage (Stick.leftY.code (region buf offset)) ∧
    (read buf offset m).rightSwitch = UInt8.ofNat (Stick.rightSwitch.code (region buf offset)) ∧
    (read buf offset m).leftSwitch = UInt8.ofNat (Stick.leftSwitch.code (region buf offset)) := by
  have hb := region_lt buf offset
  have two (q r : ℕ) (hr : r < 8) (hw : r + 11 ≤ 16) :=
    congrArg getPercentage (extract_two hb (q := q) hr hw)
  have three (q r : ℕ) (hr : r < 8) (hw : r + 11 ≤ 24) :=
    congrArg getPercentage (extract_three hb (q := q) hr hw)
  unfold read
  rw [if_pos h]
  exact ⟨two 0 0 (by decide) (by decide), two 1 3 (by decide) (by decide),
    three 2 6 (by decide) (by decide), two 4 1 (by decide) (by decide),
    switch_eq 4 (by decide), switch_eq 6 (by decide)⟩

theorem read_packed {f : Dr16} (hf : f.Packed (region buf offset)) (h : online buf offset = true)
    (m : ReadDJIRC) : read buf offset m = f.message := by
  have hb := region_lt buf offset
  obtain ⟨hrightX, hrightY, hleftX, hleftY, hrightSwitch, hleftSwitch⟩ := read_sticks h m
  rw [Stick.code_of_carries .rightX hf.rightX] at hrightX
  rw [Stick.code_of_carries .rightY hf.rightY] at hrightY
  rw [Stick.code_of_carries .leftX hf.leftX] at hleftX
  rw [Stick.code_of_carries .leftY hf.leftY] at hleftY
  rw [Stick.code_of_carries .rightSwitch hf.rightSwitch] at hrightSwitch
  rw [Stick.code_of_carries .leftSwitch hf.leftSwitch] at hleftSwitch
  have hdial : (region buf offset 16 ||| region buf offset 17 <<< 8) &&& 0x07ff = f.dial.toNat :=
    (extract_two hb (q := 16) (r := 0) (w := 11) (by decide) (by decide)).trans
      (field_of_carries hf.dial)
  have hkeys : region buf offset 14 ||| region buf offset 15 <<< 8 = f.keys.toNat :=
    (field_word hb 14).trans (field_of_carries hf.keys)
  have hkey (i : UInt16) (hi : i.toNat < 16) :
      (UInt16.ofNat (region buf offset 14 ||| region buf offset 15 <<< 8) >>> i &&& 0x01).toUInt8 =
        if f.keys.getLsbD i.toNat then 1 else 0 := by
    have hlt := f.keys.isLt
    rw [key_eq _ i hi, hkeys, UInt16.toNat_ofNat', Nat.mod_eq_of_lt hlt, BitVec.testBit_toNat]
  unfold read at hrightX hrightY hleftX hleftY hrightSwitch hleftSwitch ⊢
  rw [if_pos h] at hrightX hrightY hleftX hleftY hrightSwitch hleftSwitch ⊢
  unfold Dr16.message
  rw [ReadDJIRC.mk.injEq]
  exact ⟨rfl, hleftX, hleftY, hrightX, hrightY, congrArg getPercentage hdial, hleftSwitch,
    hrightSwitch, hkey 0 (by decide), hkey 1 (by decide), hkey 2 (by decide), hkey 3 (by decide),
    hkey 6 (by decide), hkey 7 (by decide), hkey 8 (by decide), hkey 9 (by decide),
    hkey 10 (by decide), hkey 11 (by decide), hkey 12 (by decide), hkey 13 (by decide),
    hkey 14 (by decide), hkey 15 (by decide), hkey 4 (by decide), hkey 5 (by decide),
    word_toInt16 hb hf.mouseX, word_toInt16 hb hf.mouseY, byte_of_carries hf.mouseLeft,
    byte_of_carries hf.mouseRight⟩

end Read

end DBUS_RC

/-! ## The scale of a stick -/

namespace DBUS_RC

theorem getPercentage_eq (rawData : ℕ) : getPercentage rawData =
    if 1019 ≤ rawData ∧ rawData ≤ 1029 then 0 else ((rawData : ℚ) - 1024) / 660 := by
  have hdead : (-5 : ℚ) ≤ ((rawData - 1024 : ℤ) : ℚ) ∧ ((rawData - 1024 : ℤ) : ℚ) ≤ 5 ↔
      1019 ≤ rawData ∧ rawData ≤ 1029 := by
    rw [show (-5 : ℚ) = ((-5 : ℤ) : ℚ) by norm_num, show (5 : ℚ) = ((5 : ℤ) : ℚ) by norm_num,
      Int.cast_le, Int.cast_le]
    omega
  unfold getPercentage
  simp only [hdead]
  push_cast
  rfl

/-- A stick stands still in the dead zone only. -/
theorem getPercentage_eq_zero_iff (rawData : ℕ) :
    getPercentage rawData = 0 ↔ 1019 ≤ rawData ∧ rawData ≤ 1029 := by
  rw [getPercentage_eq]
  split
  · next h => simp [h]
  · next h =>
    refine iff_of_false (fun hzero => h ?_) h
    have hcode : (rawData : ℚ) = 1024 := by linarith
    have hnat : rawData = 1024 := by exact_mod_cast hcode
    omega

theorem getPercentage_mono : Monotone getPercentage := by
  intro a b hab
  have hcast : (a : ℚ) ≤ b := by exact_mod_cast hab
  rw [getPercentage_eq, getPercentage_eq]
  split
  · next ha =>
    split
    · exact le_refl 0
    · next hb =>
      have hlow : (1024 : ℚ) ≤ b := by exact_mod_cast (show 1024 ≤ b by omega)
      linarith
  · next ha =>
    split
    · next hb =>
      have hhigh : (a : ℚ) ≤ 1024 := by exact_mod_cast (show a ≤ 1024 by omega)
      linarith
    · linarith

/-- The codes 364 to 1684 of a stick are the range from -1 to 1. -/
theorem getPercentage_mem {rawData : ℕ} (hlow : 364 ≤ rawData) (hhigh : rawData ≤ 1684) :
    -1 ≤ getPercentage rawData ∧ getPercentage rawData ≤ 1 := by
  have hbottom : getPercentage 364 = -1 := by decide +kernel
  have htop : getPercentage 1684 = 1 := by decide +kernel
  rw [← hbottom, ← htop]
  exact ⟨getPercentage_mono hlow, getPercentage_mono hhigh⟩

end DBUS_RC

def Dr16.codes (f : Dr16) : List ℕ :=
  [f.rightX.toNat, f.rightY.toNat, f.leftX.toNat, f.leftY.toNat, f.dial.toNat]

def ReadDJIRC.channels (m : ReadDJIRC) : List ℚ := [m.rightX, m.rightY, m.leftX, m.leftY, m.dial]

/-- A channel of the message is 0 in the dead zone of its stick only, and from -1 to 1 for the codes that a
stick has. -/
theorem Dr16.channels_scale (f : Dr16) :
    List.Forall₂ (fun c x => (x = 0 ↔ 1019 ≤ c ∧ c ≤ 1029) ∧ (364 ≤ c → c ≤ 1684 → -1 ≤ x ∧ x ≤ 1))
      f.codes f.message.channels := by
  have hchannels : f.message.channels = f.codes.map DBUS_RC.getPercentage := rfl
  rw [hchannels, List.forall₂_map_right_iff, List.forall₂_same]
  exact fun c _ => ⟨DBUS_RC.getPercentage_eq_zero_iff c, DBUS_RC.getPercentage_mem⟩

/-- **DBUS.** Where the stream has the layout of a DR16 frame and byte 18 is not zero, the message of
the frame is published. What is published of sticks and switches are the six fields of the first 48
bits, each of which belongs to exactly one field. -/
theorem dbus_decoding (t : TaskWrapper) (hcls : t.cls = .dbusRc) (buf : List UInt8) (f : Dr16)
    (hf : f.Packed (region buf t.pdoreadOffset.toNat))
    (honline : byteAt buf (t.pdoreadOffset.toNat + 18) ≠ 0) (stamp : ℤ) (self : Shared) :
    (t.read stamp buf self).2 = some ⟨stamp, .readDJIRC f.message⟩ ∧
    (∀ buf' offset' m', DBUS_RC.online buf' offset' = true →
      let code (s : DBUS_RC.Stick) := s.code (region buf' offset')
      (DBUS_RC.read buf' offset' m').rightX = DBUS_RC.getPercentage (code .rightX) ∧
      (DBUS_RC.read buf' offset' m').rightY = DBUS_RC.getPercentage (code .rightY) ∧
      (DBUS_RC.read buf' offset' m').leftX = DBUS_RC.getPercentage (code .leftX) ∧
      (DBUS_RC.read buf' offset' m').leftY = DBUS_RC.getPercentage (code .leftY) ∧
      (DBUS_RC.read buf' offset' m').rightSwitch = UInt8.ofNat (code .rightSwitch) ∧
      (DBUS_RC.read buf' offset' m').leftSwitch = UInt8.ofNat (code .leftSwitch)) ∧
    ∀ i < 48, ∃! s : DBUS_RC.Stick, s.Covers i := by
  refine ⟨?_, fun buf' offset' m' h => DBUS_RC.read_sticks h m', fun i hi => DBUS_RC.Stick.covers_unique hi⟩
  obtain ⟨cls, w, r, ra, wa⟩ := t
  obtain rfl : cls = .dbusRc := hcls
  simp only [TaskWrapper.read, DBUS_RC.read_packed hf (decide_eq_true honline)]

def dbusTask : TaskWrapper where
  cls := .dbusRc
  pdowriteOffset := 0
  pdoreadOffset := 1
  connectionLostReadAction := 1
  connectionLostWriteAction := 0

def dr16Frame : Dr16 where
  rightX := 1024
  rightY := 364
  leftX := 1684
  leftY := 1100
  rightSwitch := 1
  leftSwitch := 3
  mouseX := -5
  mouseY := 300
  mouseLeft := 1
  mouseRight := 0
  keys := 0x8011
  dial := 1024

/-- The frame at offset 1, with other bits where it has none. -/
def dr16Bytes : List UInt8 :=
  [255, 0, 100, 11, 165, 153, 216, 251, 255, 44, 1, 7, 7, 1, 0, 17, 128, 0, 252, 1]

theorem dr16Bytes_packed : dr16Frame.Packed (region dr16Bytes 1) := by
  constructor <;> unfold Carries <;> decide +kernel

theorem dbus_decoding_frame : (dbusTask.read 5 dr16Bytes TaskWrapper.sharedStart).2 =
    some ⟨5, .readDJIRC dr16Frame.message⟩ :=
  (dbus_decoding dbusTask rfl dr16Bytes dr16Frame dr16Bytes_packed (by decide) 5
    TaskWrapper.sharedStart).1

end EcatMaster
