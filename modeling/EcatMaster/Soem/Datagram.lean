import EcatMaster.Utils.Io

/-! # Datagrams

An EtherCAT frame is one Ethernet frame with a chain of datagrams. `ecx_setupdatagram` makes a frame with
one datagram and `ecx_adddatagram` adds one behind the others. A slave processes the frame while it
passes: each datagram tells its length and whether another one follows, and the slave may change its
address, its data and its working counter.
-/

namespace EcatMaster.Soem
set_option autoImplicit false
open ByteBuf

def EC_MAXBUF : ℕ := 16
def EC_BUFSIZE : ℕ := 1518
def EC_NOFRAME : ℤ := -1
def ETH_HEADERSIZE : ℕ := 14
def EC_HEADERSIZE : ℕ := 12
def EC_ELENGTHSIZE : ℕ := 2
def EC_WKCSIZE : ℕ := 2
def EC_ECATTYPE : UInt16 := 0x1000
def EC_DATAGRAMFOLLOWS : UInt16 := 0x8000

/-- `ec_cmdtype` -/
inductive Cmd
  | NOP | APRD | APWR | APRW | FPRD | FPWR | FPRW | BRD | BWR | BRW | LRD | LWR | LRW | ARMW | FRMW
deriving Repr, DecidableEq

def Cmd.code : Cmd → UInt8
  | .NOP => 0x00
  | .APRD => 0x01
  | .APWR => 0x02
  | .APRW => 0x03
  | .FPRD => 0x04
  | .FPWR => 0x05
  | .FPRW => 0x06
  | .BRD => 0x07
  | .BWR => 0x08
  | .BRW => 0x09
  | .LRD => 0x0a
  | .LWR => 0x0b
  | .LRW => 0x0c
  | .ARMW => 0x0d
  | .FRMW => 0x0e

/-- `ecx_writedatagramdata` -/
def writedatagramdata (com : Cmd) (data : List UInt8) : List UInt8 :=
  match com with
  | .NOP | .APRD | .FPRD | .BRD | .LRD => List.replicate data.length 0
  | _ => data

theorem writedatagramdata_length (com : Cmd) (data : List UInt8) :
    (writedatagramdata com data).length = data.length := by
  cases com
  case NOP | APRD | FPRD | BRD | LRD => exact List.length_replicate
  all_goals rfl

/-! ## The master's side -/

/-- The arguments of `ecx_setupdatagram` and `ecx_adddatagram` that are the datagram. -/
structure Subframe where
  com : Cmd
  ADP : UInt16
  ADO : UInt16
  data : List UInt8
deriving Repr, DecidableEq

/-- A transmit buffer and its `txbuflength`. -/
structure FrameBuf where
  bytes : List UInt8
  length : ℕ
deriving Repr, DecidableEq

def FrameBuf.sent (f : FrameBuf) : List UInt8 := f.bytes.take f.length

/-- `ec_setupheader`, with the words of `priMAC` -/
def setupheader (priMAC : List UInt8) (p : List UInt8) : List UInt8 :=
  put p 0 (List.replicate 6 0xff ++ priMAC ++ [0x88, 0xa4])

namespace Subframe
variable (d : Subframe)

/-- `length` -/
def length : UInt16 := UInt16.ofNat d.data.length

/-- The header from `command` to `dlength`; `irpt` is left as it is. -/
def header (index : UInt8) (dlength : UInt16) : List UInt8 :=
  [d.com.code, index] ++ le16 d.ADP ++ le16 d.ADO ++ le16 dlength

/-- The datagram with its command at `offset`. -/
def write (frame : List UInt8) (index : UInt8) (offset : ℕ) (dlength : UInt16) : List UInt8 :=
  let frame := put frame offset (d.header index dlength)
  let frame := put frame (offset + EC_HEADERSIZE - EC_ELENGTHSIZE) (writedatagramdata d.com d.data)
  put frame (offset + EC_HEADERSIZE - EC_ELENGTHSIZE + d.data.length) [0x00, 0x00]

/-- `ecx_setupdatagram` -/
def setupdatagram (frame : List UInt8) (idx : UInt8) : FrameBuf where
  bytes :=
    let frame := put frame ETH_HEADERSIZE (le16 (EC_ECATTYPE + UInt16.ofNat EC_HEADERSIZE + d.length))
    d.write frame idx (ETH_HEADERSIZE + EC_ELENGTHSIZE) d.length
  length := ETH_HEADERSIZE + EC_HEADERSIZE + EC_WKCSIZE + d.data.length

/-- `ecx_adddatagram`: the frame, and the offset to the data in the received frame -/
def adddatagram (frame : FrameBuf) (idx : UInt8) (more : Bool) : FrameBuf × ℕ :=
  let prevlength := frame.length % 2 ^ 16
  let elength := (readUint16 frame.bytes ETH_HEADERSIZE).1
  let bytes := put frame.bytes ETH_HEADERSIZE (le16 (elength + UInt16.ofNat EC_HEADERSIZE + d.length))
  let first := (readUint16 bytes (ETH_HEADERSIZE + 8)).1
  let bytes := put bytes (ETH_HEADERSIZE + 8) (le16 (first ||| EC_DATAGRAMFOLLOWS))
  let bytes := d.write bytes idx prevlength (if more then d.length ||| EC_DATAGRAMFOLLOWS else d.length)
  (⟨bytes, prevlength + EC_HEADERSIZE - EC_ELENGTHSIZE + EC_WKCSIZE + d.data.length⟩,
    prevlength + EC_HEADERSIZE - EC_ELENGTHSIZE - ETH_HEADERSIZE)

end Subframe

/-- Some more datagrams, the last without `more`, with their offsets in the received frame. -/
def adddatagrams (idx : UInt8) : FrameBuf → List Subframe → FrameBuf × List ℕ
  | frame, [] => (frame, [])
  | frame, d :: ds =>
    let (frame, offset) := d.adddatagram frame idx (!ds.isEmpty)
    let (frame, offsets) := adddatagrams idx frame ds
    (frame, offset :: offsets)

/-- A frame with the datagrams `d :: ds`. -/
def framedatagrams (frame : List UInt8) (idx : UInt8) (d : Subframe) (ds : List Subframe) :
    FrameBuf × List ℕ :=
  let (frame, offsets) := adddatagrams idx (d.setupdatagram frame idx) ds
  (frame, EC_HEADERSIZE :: offsets)

/-! ## The slaves' side -/

/-- A datagram while it passes a slave. -/
structure Passing where
  command : UInt8
  index : UInt8
  ADP : UInt16
  ADO : UInt16
  data : List UInt8
  wkc : UInt16
deriving Repr, DecidableEq

section Slaves
variable (buf : List UInt8) (off : ℕ)

def dlength : UInt16 := (readUint16 buf (off + 6)).1

/-- 11 bits are the length. -/
def size : ℕ := (dlength buf off).toNat % 2 ^ 11

def follows : Bool := dlength buf off &&& EC_DATAGRAMFOLLOWS ≠ 0

def passing (n : ℕ) : Passing where
  command := byteAt buf off
  index := byteAt buf (off + 1)
  ADP := (readUint16 buf (off + 2)).1
  ADO := (readUint16 buf (off + 4)).1
  data := window buf (off + 10) n
  wkc := (readUint16 buf (off + 10 + n)).1

/-- What a slave may change of a datagram with `n` bytes. -/
def rewrite (n : ℕ) (p : Passing) : List UInt8 :=
  put (put (put buf (off + 2) (le16 p.ADP)) (off + 10) p.data) (off + 10 + n) (le16 p.wkc)

end Slaves

def chain (buf : List UInt8) : (fuel off : ℕ) → List Passing
  | 0, _ => []
  | fuel + 1, off =>
    passing buf off (size buf off) ::
      if follows buf off then chain buf fuel (off + 12 + size buf off) else []

/-- A slave changes one datagram after the other. -/
def serve (slave : Passing → Passing) : (fuel off : ℕ) → List UInt8 → List UInt8
  | 0, _, buf => buf
  | fuel + 1, off, buf =>
    let n := size buf off
    let buf' := rewrite buf off n (slave (passing buf off n))
    if follows buf off then serve slave fuel (off + 12 + n) buf' else buf'

def datagrams (frame : List UInt8) : List Passing := chain frame frame.length (ETH_HEADERSIZE + 2)

/-- A frame passes the slaves and comes back. -/
def passSlaves (slaves : List (Passing → Passing)) (frame : List UInt8) : List UInt8 :=
  slaves.foldl (fun frame slave => serve slave frame.length (ETH_HEADERSIZE + 2) frame) frame

/-- What a slave leaves alone in every datagram. -/
def Keeps (slave : Passing → Passing) : Prop :=
  ∀ p, (slave p).command = p.command ∧ (slave p).index = p.index ∧ (slave p).ADO = p.ADO ∧
    (slave p).data.length = p.data.length

end EcatMaster.Soem
