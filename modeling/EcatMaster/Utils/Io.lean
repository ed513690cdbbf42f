import EcatMaster.Lib.Bytes

/-! # `utils/io_utils.cpp`: little-endian readers and writers

A reader or writer works on a buffer and an offset that it advances. A `float` is carried as its bit
pattern (`F32`): `read_float` and `write_float` copy the four bytes of its representation, and
`F32.toRat` is the number a finite one stands for. Each writer is `putC` of the bytes it writes.
-/

namespace EcatMaster
set_option autoImplicit false
open ByteBuf

structure F32 where
  bits : UInt32
deriving DecidableEq, Repr

/-- Infinities and NaNs stand for no number and read as 0. -/
def F32.toRat (f : F32) : ℚ :=
  let exp := (f.bits.toNat / 2 ^ 23) % 2 ^ 8
  let frac : ℚ := ((f.bits.toNat % 2 ^ 23 : ℕ) : ℚ) / 2 ^ 23
  let sign : ℚ := if f.bits.toNat / 2 ^ 31 = 0 then 1 else -1
  if exp = 255 then 0
  else if exp = 0 then sign * frac / 2 ^ 126
  else if 127 ≤ exp then sign * (1 + frac) * 2 ^ (exp - 127)
  else sign * (1 + frac) / 2 ^ (127 - exp)

/-- `buf` and `*offset`. -/
abbrev Cursor := List UInt8 × ℕ

/-! ## Writers -/

def writeUint8 (value : UInt8) (c : Cursor) : Cursor := (c.1.set c.2 value, c.2 + 1)

def writeInt8 (value : Int8) (c : Cursor) : Cursor := writeUint8 value.toUInt8 c

def writeUint16 (value : UInt16) (c : Cursor) : Cursor :=
  writeUint8 (value >>> 8).toUInt8 (writeUint8 (value &&& 0xFF).toUInt8 c)

def writeInt16 (value : Int16) (c : Cursor) : Cursor := writeUint16 value.toUInt16 c

def writeUint32 (value : UInt32) (c : Cursor) : Cursor :=
  (List.range 4).foldl
    (fun c i => writeUint8 (value >>> UInt32.ofNat (8 * i) &&& 0xFF).toUInt8 c) c

def writeInt32 (value : Int32) (c : Cursor) : Cursor := writeUint32 value.toUInt32 c

def writeFloat (value : F32) (c : Cursor) : Cursor := writeUint32 value.bits c

/-! ## Readers -/

/-- The buffers are read through `data()` or an unchecked `operator[]`. -/
def byteAt (buf : List UInt8) (i : ℕ) : UInt8 := buf.getD i 0

def readUint8 (buf : List UInt8) (offset : ℕ) : UInt8 × ℕ := (byteAt buf offset, offset + 1)

def readUint16 (buf : List UInt8) (offset : ℕ) : UInt16 × ℕ :=
  ((byteAt buf offset).toUInt16 ||| (byteAt buf (offset + 1)).toUInt16 <<< 8, offset + 2)

def readInt16 (buf : List UInt8) (offset : ℕ) : Int16 × ℕ :=
  let (v, offset) := readUint16 buf offset
  (v.toInt16, offset)

def readUint32 (buf : List UInt8) (offset : ℕ) : UInt32 × ℕ :=
  ((List.range 4).foldl
    (fun res i => res ||| (byteAt buf (offset + i)).toUInt32 <<< UInt32.ofNat (8 * i)) 0, offset + 4)

def readInt32 (buf : List UInt8) (offset : ℕ) : Int32 × ℕ :=
  let (v, offset) := readUint32 buf offset
  (v.toInt32, offset)

def readFloat (buf : List UInt8) (offset : ℕ) : F32 × ℕ :=
  let (v, offset) := readUint32 buf offset
  (⟨v⟩, offset)

/-! ## The bytes a writer puts at the offset -/

def le16 (value : UInt16) : List UInt8 := [(value &&& 0xFF).toUInt8, (value >>> 8).toUInt8]

def le32 (value : UInt32) : List UInt8 :=
  (List.range 4).map fun i => (value >>> UInt32.ofNat (8 * i) &&& 0xFF).toUInt8

@[simp] theorem le16_length (value : UInt16) : (le16 value).length = 2 := rfl
@[simp] theorem le32_length (value : UInt32) : (le32 value).length = 4 := rfl

/-- Writing one list of bytes at the cursor. -/
def putC (bytes : List UInt8) (c : Cursor) : Cursor := (put c.1 c.2 bytes, c.2 + bytes.length)

theorem putC_putC (as bs : List UInt8) (c : Cursor) : putC bs (putC as c) = putC (as ++ bs) c := by
  simp only [putC, put_append, List.length_append, Nat.add_assoc]

end EcatMaster
