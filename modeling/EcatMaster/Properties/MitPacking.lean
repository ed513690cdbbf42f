import EcatMaster.Lib.Quantize
import EcatMaster.Tasks.Command

/-! # The fields of a DM motor's MIT frame

`on_command_mit_control` narrows five truncated linear maps to 16 bits and packs them into eight bytes.
The cast to `int` is defined for the levels that an `int` holds (`FitsInt`). Nothing clamps them: a level
past the last code wraps, and what is left of it above the twelfth bit falls into the field that shares the
byte. As long as the levels are codes the fields are separate, and that includes every quantity in its range.
-/

namespace EcatMaster
set_option autoImplicit false

/-- The five quantities of a MIT command. -/
inductive MitField where
  | pos | vel | kp | kd | tor
deriving DecidableEq

structure MitRanges where
  pmax : ℚ
  vmax : ℚ
  tmax : ℚ

namespace MitField

def lower (r : MitRanges) : MitField → ℚ
  | pos => -r.pmax
  | vel => -r.vmax
  | kp => 0
  | kd => 0
  | tor => -r.tmax

def upper (r : MitRanges) : MitField → ℚ
  | pos => r.pmax
  | vel => r.vmax
  | kp => 500
  | kd => 5
  | tor => r.tmax

def bits : MitField → ℕ
  | pos => 16
  | _ => 12

def top (f : MitField) : ℕ := 2 ^ f.bits - 1

/-- The field whose upper bits share a byte with the low bits of this one. -/
def spill : MitField → Option MitField
  | vel => some kp
  | kd => some tor
  | _ => none

end MitField

abbrev MitCommand := MitField → ℚ

def packed (r : MitRanges) (m : MitCommand) : List UInt8 :=
  mitData r.pmax r.vmax r.tmax (m .pos) (m .vel) (m .kp) (m .kd) (m .tor)

/-- They follow the enable byte of the command. -/
theorem encode_mit (r : MitRanges) (m : MitCommand) (enable : UInt8) (w d : UInt16) (ra wa : UInt8) :
    (TaskWrapper.mk (.dmMotor DM_CTRL_TYPE_MIT r.pmax r.vmax r.tmax) w d ra wa).encode
      (.writeDmMotorMITControl enable (m .pos) (m .vel) (m .kp) (m .kd) (m .tor)) =
      some (enable :: packed r m) := rfl

/-- The bytes as one big-endian number. -/
def bigEndian (data : List UInt8) : ℕ := data.foldl (fun n b => 256 * n + b.toNat) 0

/-- The codes of 16, 12, 12, 12 and 12 bits, from the first byte on. -/
def code (data : List UInt8) : MitField → ℕ
  | .pos => bigEndian data / 2 ^ 48 % 2 ^ 16
  | .vel => bigEndian data / 2 ^ 36 % 2 ^ 12
  | .kp => bigEndian data / 2 ^ 24 % 2 ^ 12
  | .kd => bigEndian data / 2 ^ 12 % 2 ^ 12
  | .tor => bigEndian data % 2 ^ 12

/-- The level of a quantity, as `float_to_uint` returns it. -/
def level (r : MitRanges) (m : MitCommand) (f : MitField) : ℤ :=
  floatToUint (m f) (f.lower r) (f.upper r) f.bits

theorem level_eq (r : MitRanges) (m : MitCommand) (f : MitField) :
    level r m f = Quantize.level f.top (f.lower r) (f.upper r) (m f) := rfl

/-- A level after the narrowing to `uint16_t`. -/
def narrowed (r : MitRanges) (m : MitCommand) (f : MitField) : ℕ := (level r m f % 2 ^ 16).toNat

/-- The level is one of the codes of the field. -/
def IsCode (r : MitRanges) (m : MitCommand) (f : MitField) : Prop :=
  0 ≤ level r m f ∧ level r m f ≤ f.top

/-- `static_cast<int>` is defined for every level of the message. -/
def FitsInt (r : MitRanges) (m : MitCommand) : Prop :=
  ∀ f, -2 ^ 31 ≤ level r m f ∧ level r m f < 2 ^ 31

/-! ## The bytes -/

theorem bigEndian_eight (b0 b1 b2 b3 b4 b5 b6 b7 : UInt8) :
    bigEndian [b0, b1, b2, b3, b4, b5, b6, b7] =
      2 ^ 56 * b0.toNat + 2 ^ 48 * b1.toNat + 2 ^ 40 * b2.toNat + 2 ^ 32 * b3.toNat +
        2 ^ 24 * b4.toNat + 2 ^ 16 * b5.toNat + 2 ^ 8 * b6.toNat + b7.toNat := by
  simp only [bigEndian, List.foldl_cons, List.foldl_nil]
  ring

theorem toNat_ofInt (t : ℤ) : (UInt16.ofInt t).toNat = (t % 2 ^ 16).toNat := by
  have hlt : (t % 2 ^ 16).toNat < 2 ^ 16 := by omega
  show (UInt16.ofNat (t % 2 ^ 16).toNat).toNat = _
  rw [UInt16.toNat_ofNat', Nat.mod_eq_of_lt hlt]

theorem or_split (k a b : ℕ) :
    a ||| b = 2 ^ k * (a / 2 ^ k ||| b / 2 ^ k) + (a % 2 ^ k ||| b % 2 ^ k) := by
  rw [← Nat.or_div_two_pow, ← Nat.or_mod_two_pow, Nat.div_add_mod]

/-- A byte shared by the low nibble of `a` and the upper bits of `b`. -/
theorem shared_byte (a b : UInt16) :
    ((a &&& 0xF) <<< 4 ||| b >>> 8).toUInt8.toNat =
      2 ^ 4 * (a.toNat % 2 ^ 4 ||| b.toNat / 2 ^ 12) + b.toNat / 2 ^ 8 % 2 ^ 4 := by
  have hb := b.toNat_lt
  have hand (n : ℕ) : n &&& 15 = n % 16 := Nat.and_two_pow_sub_one_eq_mod n 4
  have hbyte : ((a &&& 0xF) <<< 4 ||| b >>> 8).toUInt8.toNat =
      a.toNat % 16 * 16 % 256 ||| b.toNat / 256 % 256 := by
    simp [hand, Nat.shiftLeft_eq, Nat.shiftRight_eq_div_pow]
  have hhigh : a.toNat % 16 * 16 % 256 / 2 ^ 4 = a.toNat % 2 ^ 4 := by omega
  have hhigh' : b.toNat / 256 % 256 / 2 ^ 4 = b.toNat / 2 ^ 12 := by omega
  have hlow : a.toNat % 16 * 16 % 256 % 2 ^ 4 = 0 := by omega
  have hlow' : b.toNat / 256 % 256 % 2 ^ 4 = b.toNat / 2 ^ 8 % 2 ^ 4 := by omega
  rw [hbyte, or_split 4, hhigh, hhigh', hlow, hlow', Nat.zero_or]

/-- The bits of another field that fall into this one. -/
def spilled (r : MitRanges) (m : MitCommand) (f : MitField) : ℕ :=
  match f.spill with
  | some g => narrowed r m g / 2 ^ 12
  | none => 0

theorem low_or {a b : ℕ} (hb : b < 2 ^ 4) :
    a % 2 ^ 12 ||| b = 2 ^ 4 * (a / 2 ^ 4 % 2 ^ 8) + (a % 2 ^ 4 ||| b) := by
  have hhigh : a % 2 ^ 12 / 2 ^ 4 = a / 2 ^ 4 % 2 ^ 8 := by omega
  have hlow : a % 2 ^ 12 % 2 ^ 4 = a % 2 ^ 4 := by omega
  rw [or_split 4, Nat.div_eq_of_lt hb, Nat.mod_eq_of_lt hb, Nat.or_zero, hhigh, hlow]

theorem packed_eq (r : MitRanges) (m : MitCommand) :
    bigEndian (packed r m) = 2 ^ 48 * narrowed r m .pos +
      2 ^ 36 * (narrowed r m .vel % 2 ^ 12 ||| narrowed r m .kp / 2 ^ 12) +
      2 ^ 24 * (narrowed r m .kp % 2 ^ 12) +
      2 ^ 12 * (narrowed r m .kd % 2 ^ 12 ||| narrowed r m .tor / 2 ^ 12) +
      narrowed r m .tor % 2 ^ 12 := by
  have hlt (f : MitField) : narrowed r m f < 2 ^ 16 := by
    unfold narrowed
    omega
  have hnarrow (f : MitField) :
      (UInt16.ofInt (floatToUint (m f) (f.lower r) (f.upper r) f.bits)).toNat = narrowed r m f :=
    toNat_ofInt _
  have hpos := hnarrow .pos
  have hvel := hnarrow .vel
  have hkp := hnarrow .kp
  have hkd := hnarrow .kd
  have htor := hnarrow .tor
  have hkpLt := hlt .kp
  have htorLt := hlt .tor
  have hposLt := hlt .pos
  rw [low_or (by omega), low_or (by omega)]
  have hor (a b : ℕ) (hb : b < 2 ^ 16) : a % 2 ^ 4 ||| b / 2 ^ 12 < 2 ^ 4 :=
    Nat.or_lt_two_pow (by omega) (by omega)
  have hvelOr := hor (narrowed r m .vel) (narrowed r m .kp) hkpLt
  have hkdOr := hor (narrowed r m .kd) (narrowed r m .tor) htorLt
  unfold packed mitData
  simp only [MitField.lower, MitField.upper, MitField.bits] at hpos hvel hkp hkd htor
  rw [bigEndian_eight, shared_byte, shared_byte]
  simp only [UInt16.toNat_toUInt8, UInt16.toNat_shiftRight, hpos, hvel, hkp, hkd, htor]
  generalize narrowed r m .vel % 2 ^ 4 ||| narrowed r m .kp / 2 ^ 12 = x at *
  generalize narrowed r m .kd % 2 ^ 4 ||| narrowed r m .tor / 2 ^ 12 = y at *
  simp [Nat.shiftRight_eq_div_pow]
  omega

/-- The code of a field is what is left of its level, with the spilled bits over it. -/
theorem code_packed (r : MitRanges) (m : MitCommand) (f : MitField) :
    code (packed r m) f = narrowed r m f % 2 ^ f.bits ||| spilled r m f := by
  have hlt (f : MitField) : narrowed r m f < 2 ^ 16 := by
    unfold narrowed
    omega
  have hor (a b : ℕ) (hb : b < 2 ^ 16) : a % 2 ^ 12 ||| b / 2 ^ 12 < 2 ^ 12 :=
    Nat.or_lt_two_pow (by omega) (by omega)
  have hpos := hlt .pos
  have hvel := hor (narrowed r m .vel) (narrowed r m .kp) (hlt .kp)
  have hkd := hor (narrowed r m .kd) (narrowed r m .tor) (hlt .tor)
  cases f with
  | pos =>
    simp only [code, packed_eq, MitField.bits, spilled, MitField.spill, Nat.or_zero]
    omega
  | vel =>
    simp only [code, packed_eq, MitField.bits, spilled, MitField.spill]
    omega
  | kp =>
    simp only [code, packed_eq, MitField.bits, spilled, MitField.spill, Nat.or_zero]
    omega
  | kd =>
    simp only [code, packed_eq, MitField.bits, spilled, MitField.spill]
    omega
  | tor =>
    simp only [code, packed_eq, MitField.bits, spilled, MitField.spill, Nat.or_zero]
    omega

/-! ## Levels that are codes -/

section Codes
variable {r : MitRanges} {m m' : MitCommand} {f : MitField}

/-- No field with a code spills into this one. -/
def Unspilled (r : MitRanges) (m : MitCommand) (f : MitField) : Prop :=
  ∀ g ∈ f.spill, IsCode r m g

theorem top_lt (f : MitField) : f.top < 2 ^ f.bits := by
  cases f <;> decide

theorem bits_le (f : MitField) : 2 ^ f.bits ≤ 2 ^ 16 := by
  cases f <;> decide

theorem narrowed_of_isCode (h : IsCode r m f) : (narrowed r m f : ℤ) = level r m f := by
  have htop := top_lt f
  have hbits := bits_le f
  obtain ⟨h0, hle⟩ := h
  unfold narrowed
  omega

theorem spilled_of_unspilled (h : Unspilled r m f) : spilled r m f = 0 := by
  have hzero {g : MitField} (hg : IsCode r m g) (htop : g.top = 4095) : narrowed r m g / 2 ^ 12 = 0 := by
    have hlevel := narrowed_of_isCode hg
    have hle := hg.2
    rw [htop] at hle
    omega
  cases f with
  | vel => exact hzero (h .kp rfl) rfl
  | kd => exact hzero (h .tor rfl) rfl
  | _ => rfl

/-- A field is on its own as long as the levels in its bytes are codes. -/
theorem code_of_isCode (h : IsCode r m f) (hspill : Unspilled r m f) :
    (code (packed r m) f : ℤ) = level r m f := by
  have hlevel := narrowed_of_isCode h
  have htop := top_lt f
  have hlt : narrowed r m f < 2 ^ f.bits := by
    have hle := h.2
    omega
  rw [code_packed, spilled_of_unspilled hspill, Nat.or_zero, Nat.mod_eq_of_lt hlt, hlevel]

end Codes

/-- Every code is the clamped map of its quantity. -/
def Saturates (r : MitRanges) : Prop :=
  ∀ m f, code (packed r m) f = Quantize.clamped f.top (f.lower r) (f.upper r) (m f)

/-- The frame of a MIT command. Levels wrap, and above the twelfth bit they spill; where the levels in
the bytes of a field are codes, as they are for quantities in range, its code depends on its own
quantity only, is monotone in it, and is the truncated linear map, clamped at both ends. -/
structure MitPacking (r : MitRanges) : Prop where
  wraps : ∀ m f, FitsInt r m → code (packed r m) f = (level r m f % 2 ^ f.bits).toNat ||| spilled r m f
  inRange : ∀ m f, f.lower r ≤ m f → m f ≤ f.upper r → IsCode r m f
  linear : ∀ m f, FitsInt r m → IsCode r m f → Unspilled r m f →
    (code (packed r m) f : ℤ) = level r m f
  own : ∀ m m' f, FitsInt r m → FitsInt r m' → m f = m' f → Unspilled r m f → Unspilled r m' f →
    code (packed r m) f = code (packed r m') f
  monotone : ∀ m m' f, FitsInt r m → FitsInt r m' → m f ≤ m' f → IsCode r m f → IsCode r m' f →
    Unspilled r m f → Unspilled r m' f → code (packed r m) f ≤ code (packed r m') f
  clamped : ∀ m f, FitsInt r m → IsCode r m f → Unspilled r m f →
    code (packed r m) f = Quantize.clamped f.top (f.lower r) (f.upper r) (m f)
  below : ∀ m f, FitsInt r m → m f ≤ f.lower r → IsCode r m f → Unspilled r m f →
    code (packed r m) f = 0
  above : ∀ m f, FitsInt r m → f.upper r ≤ m f → IsCode r m f → Unspilled r m f →
    code (packed r m) f = f.top

/-- **The fields of a MIT frame.** -/
theorem mitPacking {r : MitRanges} (hp : 0 < r.pmax) (hv : 0 < r.vmax) (ht : 0 < r.tmax) :
    MitPacking r := by
  have hrange (f : MitField) : f.lower r < f.upper r := by
    cases f <;> simp only [MitField.lower, MitField.upper] <;> linarith
  have hclamped (m : MitCommand) (f : MitField) (h : IsCode r m f) (hspill : Unspilled r m f) :
      code (packed r m) f = Quantize.clamped f.top (f.lower r) (f.upper r) (m f) := by
    have hcode := code_of_isCode h hspill
    have hclamp : (Quantize.clamped f.top (f.lower r) (f.upper r) (m f) : ℤ) =
        Quantize.level f.top (f.lower r) (f.upper r) (m f) := Quantize.clamped_of_mem h.1 h.2
    rw [level_eq, ← hclamp] at hcode
    exact_mod_cast hcode
  refine ⟨fun m f _ => ?_, fun m f hlo hhi => ?_, fun m f _ h hspill => code_of_isCode h hspill,
    fun m m' f _ _ hm hs hs' => ?_, fun m m' f _ _ hm h h' hs hs' => ?_, fun m f _ => hclamped m f,
    fun m f _ hm h hs => ?_, fun m f _ hm h hs => ?_⟩
  · have hlow : narrowed r m f % 2 ^ f.bits = (level r m f % 2 ^ f.bits).toNat := by
      unfold narrowed
      cases f <;> simp only [MitField.bits] <;> omega
    rw [code_packed, hlow]
  · exact ⟨Quantize.level_nonneg (hrange f) hlo, Quantize.level_le (hrange f) hhi⟩
  · have hsame : narrowed r m f = narrowed r m' f := by
      unfold narrowed level
      rw [hm]
    rw [code_packed, code_packed, spilled_of_unspilled hs, spilled_of_unspilled hs', hsame]
  · rw [hclamped m f h hs, hclamped m' f h' hs']
    exact Quantize.clamped_mono (hrange f) hm
  · rw [hclamped m f h hs, Quantize.clamped_below (hrange f) hm]
  · rw [hclamped m f h hs, Quantize.clamped_above (hrange f) hm]

theorem mitPacking_small : MitPacking ⟨1, 1, 10⟩ :=
  mitPacking (by decide +kernel) (by decide +kernel) (by decide +kernel)

/-- A torque one part in a thousand over its maximum, everything else at zero. -/
def overTorque : MitCommand
  | .tor => 1001 / 100
  | _ => 0

/-- It comes out near the opposite end and sets the lowest bit of `kd`. -/
theorem saturates_overTorque : ¬ Saturates ⟨1, 1, 10⟩ ∧ FitsInt ⟨1, 1, 10⟩ overTorque ∧
    code (packed ⟨1, 1, 10⟩ overTorque) .tor = 1 ∧ code (packed ⟨1, 1, 10⟩ overTorque) .kd = 1 ∧
    Quantize.clamped 4095 (-10 : ℚ) 10 (overTorque .tor) = 4095 ∧
    Quantize.clamped 4095 (0 : ℚ) 5 (overTorque .kd) = 0 := by
  refine ⟨fun h => ?_, fun f => ?_, by decide +kernel, by decide +kernel, by decide +kernel, by decide +kernel⟩
  · have htor := h overTorque .tor
    revert htor
    decide +kernel
  · cases f <;> decide +kernel

end EcatMaster
