import Mathlib.Data.List.GetD
import EcatMaster.Utils.Config

/-! # Typed values, written and read back

A list of values goes through the writers of their types one after the other, as in `build_buf`, and
comes back through the readers of the same types in the same order. There is no `read_int8`: an
`int8_t` is read with `read_uint8` and reinterpreted.
-/

namespace EcatMaster
set_option autoImplicit false
open ByteBuf

/-! ## Types -/

/-- The numeric type tags of a configuration. -/
inductive Tag where
  | uint8
  | int8
  | uint16
  | int16
  | uint32
  | int32
  | float
deriving DecidableEq

/-- The tag a value carries; strings and booleans carry no numeric one. -/
def Variant.tag : Variant → Option Tag
  | .uint8 _ => some .uint8
  | .int8 _ => some .int8
  | .uint16 _ => some .uint16
  | .int16 _ => some .int16
  | .uint32 _ => some .uint32
  | .int32 _ => some .int32
  | .float _ => some .float
  | .string _ => none
  | .bool _ => none

/-- How many bytes a value of the type takes. -/
def Tag.width : Tag → ℕ
  | .uint8 | .int8 => 1
  | .uint16 | .int16 => 2
  | .uint32 | .int32 | .float => 4

theorem Variant.bytes_length {v : Variant} {t : Tag} (h : v.tag = some t) :
    v.bytes.length = t.width := by
  cases v with
  | string _ | bool _ => cases h
  | _ =>
    obtain rfl := Option.some.inj h
    rfl

/-- The reader of a type. -/
def Tag.readAt (buf : List UInt8) (offset : ℕ) : Tag → Variant × ℕ
  | .uint8 => (readUint8 buf offset).map .uint8 id
  | .int8 => (readUint8 buf offset).map (fun v => .int8 v.toInt8) id
  | .uint16 => (readUint16 buf offset).map .uint16 id
  | .int16 => (readInt16 buf offset).map .int16 id
  | .uint32 => (readUint32 buf offset).map .uint32 id
  | .int32 => (readInt32 buf offset).map .int32 id
  | .float => (readFloat buf offset).map .float id

/-- The readers of several types, one after the other. -/
def readValues (buf : List UInt8) : List Tag → ℕ → List Variant × ℕ
  | [], offset => ([], offset)
  | t :: ts, offset =>
      let (v, offset) := t.readAt buf offset
      let (vs, offset) := readValues buf ts offset
      (v :: vs, offset)

/-- The writers of several values, one after the other. -/
def writeValues (vs : List Variant) (c : Cursor) : Cursor :=
  vs.foldl (fun c v => ConfigurationParser.writeVariant v c) c

/-- The bytes of a list of values. -/
def valueBytes (vs : List Variant) : List UInt8 := vs.flatMap Variant.bytes

theorem writeValues_eq (vs : List Variant) (c : Cursor) :
    writeValues vs c = putC (valueBytes vs) c := by
  induction vs generalizing c with
  | nil => rfl
  | cons v vs ih =>
    have hstep : writeValues (v :: vs) c = writeValues vs (ConfigurationParser.writeVariant v c) := rfl
    rw [hstep, ih, ConfigurationParser.writeVariant_eq, putC_putC]
    rfl

/-! ## The numbers behind the bytes -/

/-- The number the bytes stand for. -/
def leNat (bs : List UInt8) : ℕ := bs.foldr (fun b n => b.toNat + 256 * n) 0

theorem leNat_le16 (v : UInt16) : leNat (le16 v) = v.toNat := by
  have hv := v.toNat_lt
  have hand (n : ℕ) : n &&& 255 = n % 256 := Nat.and_two_pow_sub_one_eq_mod n 8
  simp [leNat, le16, hand, Nat.shiftRight_eq_div_pow]
  omega

theorem leNat_le32 (v : UInt32) : leNat (le32 v) = v.toNat := by
  have hv := v.toNat_lt
  have hand (n : ℕ) : n &&& 255 = n % 256 := Nat.and_two_pow_sub_one_eq_mod n 8
  simp [leNat, le32, List.range_succ, hand, Nat.shiftRight_eq_div_pow]
  omega

/-- Bytes that do not overlap are assembled by adding them. -/
theorem or_shiftLeft {a k : ℕ} (ha : a < 2 ^ k) (b : ℕ) : a ||| b <<< k = a + 2 ^ k * b := by
  rw [Nat.or_comm, Nat.shiftLeft_eq, Nat.mul_comm, ← Nat.two_pow_add_eq_or_of_lt ha, Nat.add_comm]

theorem readUint16_toNat (buf : List UInt8) (offset : ℕ) :
    (readUint16 buf offset).1.toNat = leNat [byteAt buf offset, byteAt buf (offset + 1)] := by
  have h0 := (byteAt buf offset).toNat_lt
  have h1 := (byteAt buf (offset + 1)).toNat_lt
  have hhigh : (byteAt buf (offset + 1)).toNat <<< 8 % 2 ^ 16 =
      (byteAt buf (offset + 1)).toNat <<< 8 := by
    rw [Nat.shiftLeft_eq]
    omega
  have hor : (readUint16 buf offset).1.toNat = (byteAt buf offset).toNat |||
      (byteAt buf (offset + 1)).toNat <<< 8 % 2 ^ 16 := by
    simp [readUint16]
  rw [hor, hhigh, or_shiftLeft h0]
  simp [leNat]

theorem readUint32_toNat (buf : List UInt8) (offset : ℕ) :
    (readUint32 buf offset).1.toNat = leNat [byteAt buf offset, byteAt buf (offset + 1),
      byteAt buf (offset + 2), byteAt buf (offset + 3)] := by
  have h0 := (byteAt buf offset).toNat_lt
  have h1 := (byteAt buf (offset + 1)).toNat_lt
  have h2 := (byteAt buf (offset + 2)).toNat_lt
  have h3 := (byteAt buf (offset + 3)).toNat_lt
  have hfit (b : UInt8) {k : ℕ} (hk : k ≤ 24) : b.toNat <<< k % 2 ^ 32 = b.toNat <<< k := by
    have hb := b.toNat_lt
    rw [Nat.shiftLeft_eq]
    refine Nat.mod_eq_of_lt ?_
    calc b.toNat * 2 ^ k < 2 ^ 8 * 2 ^ k := Nat.mul_lt_mul_of_pos_right hb (Nat.two_pow_pos k)
      _ ≤ 2 ^ 8 * 2 ^ 24 := Nat.mul_le_mul_left _ (Nat.pow_le_pow_right (by decide) hk)
      _ = 2 ^ 32 := rfl
  have hor : (readUint32 buf offset).1.toNat = (byteAt buf offset).toNat |||
      (byteAt buf (offset + 1)).toNat <<< 8 % 2 ^ 32 |||
      (byteAt buf (offset + 2)).toNat <<< 16 % 2 ^ 32 |||
      (byteAt buf (offset + 3)).toNat <<< 24 % 2 ^ 32 := by
    simp [readUint32, List.range_succ]
  have h01 : (byteAt buf offset).toNat + 2 ^ 8 * (byteAt buf (offset + 1)).toNat < 2 ^ 16 := by omega
  have h012 : (byteAt buf offset).toNat + 2 ^ 8 * (byteAt buf (offset + 1)).toNat +
      2 ^ 16 * (byteAt buf (offset + 2)).toNat < 2 ^ 24 := by omega
  rw [hor, hfit _ (by decide), hfit _ (by decide), hfit _ (by decide), or_shiftLeft h0,
    or_shiftLeft h01, or_shiftLeft h012]
  simp only [leNat, List.foldr_cons, List.foldr_nil]
  omega

/-! ## Reading back -/

/-- The buffer holds the bytes from `off` on. -/
def BytesAt (buf : List UInt8) (off : ℕ) (bytes : List UInt8) : Prop :=
  ∀ j < bytes.length, byteAt buf (off + j) = byteAt bytes j

theorem bytesAt_append {buf : List UInt8} {off : ℕ} {as bs : List UInt8}
    (h : BytesAt buf off (as ++ bs)) : BytesAt buf off as ∧ BytesAt buf (off + as.length) bs := by
  refine ⟨fun j hj => ?_, fun j hj => ?_⟩
  · rw [h j (by rw [List.length_append]; omega), byteAt, byteAt, List.getD_append _ _ _ _ hj]
  · rw [Nat.add_assoc, h (as.length + j) (by rw [List.length_append]; omega), byteAt, byteAt,
      List.getD_append_right _ _ _ _ (Nat.le_add_right _ _), Nat.add_sub_cancel_left]

theorem bytesAt_put {buf : List UInt8} {off : ℕ} {bytes : List UInt8}
    (h : off + bytes.length ≤ buf.length) : BytesAt (put buf off bytes) off bytes := by
  intro j hj
  rw [byteAt, byteAt, List.getD_eq_getElem?_getD, put_getElem?_inside buf off bytes j hj (by omega),
    ← List.getD_eq_getElem?_getD]

theorem readUint8_of_bytesAt {v : UInt8} {buf : List UInt8} {off : ℕ} (h : BytesAt buf off [v]) :
    (readUint8 buf off).1 = v := h 0 Nat.one_pos

theorem readUint16_of_bytesAt {v : UInt16} {buf : List UInt8} {off : ℕ}
    (h : BytesAt buf off (le16 v)) : (readUint16 buf off).1 = v := by
  have h0 := h 0 (by simp)
  have h1 := h 1 (by simp)
  rw [Nat.add_zero] at h0
  rw [← UInt16.toNat_inj, readUint16_toNat, ← leNat_le16 v, h0, h1]
  rfl

theorem readUint32_of_bytesAt {v : UInt32} {buf : List UInt8} {off : ℕ}
    (h : BytesAt buf off (le32 v)) : (readUint32 buf off).1 = v := by
  have h0 := h 0 (by simp)
  have h1 := h 1 (by simp)
  have h2 := h 2 (by simp)
  have h3 := h 3 (by simp)
  rw [Nat.add_zero] at h0
  rw [← UInt32.toNat_inj, readUint32_toNat, ← leNat_le32 v, h0, h1, h2, h3]
  rfl

/-- **One value**: where its bytes are, the reader of its type returns it. -/
theorem readAt_of_bytesAt {v : Variant} {t : Tag} (ht : v.tag = some t) {buf : List UInt8} {off : ℕ}
    (h : BytesAt buf off v.bytes) : t.readAt buf off = (v, off + t.width) := by
  cases v with
  | uint8 w =>
    obtain rfl := Option.some.inj ht
    exact Prod.ext (congrArg Variant.uint8 (readUint8_of_bytesAt h)) rfl
  | int8 w =>
    obtain rfl := Option.some.inj ht
    refine Prod.ext (congrArg Variant.int8 ?_) rfl
    exact (congrArg UInt8.toInt8 (readUint8_of_bytesAt h)).trans (Int8.toInt8_toUInt8 w)
  | uint16 w =>
    obtain rfl := Option.some.inj ht
    exact Prod.ext (congrArg Variant.uint16 (readUint16_of_bytesAt h)) rfl
  | int16 w =>
    obtain rfl := Option.some.inj ht
    refine Prod.ext (congrArg Variant.int16 ?_) rfl
    exact (congrArg UInt16.toInt16 (readUint16_of_bytesAt h)).trans (Int16.toInt16_toUInt16 w)
  | uint32 w =>
    obtain rfl := Option.some.inj ht
    exact Prod.ext (congrArg Variant.uint32 (readUint32_of_bytesAt h)) rfl
  | int32 w =>
    obtain rfl := Option.some.inj ht
    refine Prod.ext (congrArg Variant.int32 ?_) rfl
    exact (congrArg UInt32.toInt32 (readUint32_of_bytesAt h)).trans (Int32.toInt32_toUInt32 w)
  | float w =>
    obtain rfl := Option.some.inj ht
    exact Prod.ext (congrArg (fun bits => Variant.float ⟨bits⟩) (readUint32_of_bytesAt h)) rfl
  | string _ | bool _ => cases ht

/-- `ts` are the types of `vs`. -/
abbrev Typed (vs : List Variant) (ts : List Tag) : Prop :=
  List.Forall₂ (fun v t => v.tag = some t) vs ts

def width (ts : List Tag) : ℕ := (ts.map Tag.width).sum

theorem valueBytes_length {vs : List Variant} {ts : List Tag} (h : Typed vs ts) :
    (valueBytes vs).length = width ts := by
  induction h with
  | nil => rfl
  | cons hv _ ih =>
    have hlen := Variant.bytes_length hv
    simp only [valueBytes, width, List.flatMap_cons, List.length_append, List.map_cons,
      List.sum_cons] at ih ⊢
    rw [hlen, ih]

/-- **Several values**: where their bytes are, the readers of their types return them. -/
theorem readValues_of_bytesAt {vs : List Variant} {ts : List Tag} (hts : Typed vs ts)
    {buf : List UInt8} {off : ℕ} (h : BytesAt buf off (valueBytes vs)) :
    readValues buf ts off = (vs, off + width ts) := by
  induction hts generalizing off with
  | nil => rfl
  | cons hv hvs ih =>
    obtain ⟨hhead, htail⟩ := bytesAt_append h
    rw [Variant.bytes_length hv] at htail
    simp only [readValues, readAt_of_bytesAt hv hhead, ih htail, width, List.map_cons,
      List.sum_cons, Nat.add_assoc]

end EcatMaster
