import EcatMaster.Utils.Io

/-! # CoE: service data objects

`ecx_SDOwrite` and `ecx_SDOread` transfer an object of a slave through its mailbox: at most 4 bytes in
the first telegram, more in a normal transfer, and what does not fit in the mailbox in segments with a
toggle bit. The mailbox is what `ecx_mbxsend` and `ecx_mbxreceive` make of it, with any slave behind it.
-/

namespace EcatMaster.Soem
set_option autoImplicit false
open ByteBuf

def EC_MAXMBX : ℕ := 1486
def ECT_MBXT_COE : ℕ := 0x03
def ECT_COES_SDOREQ : ℕ := 0x02
def ECT_COES_SDORES : ℕ := 0x03
def ECT_SDO_DOWN_INIT : ℕ := 0x21
def ECT_SDO_DOWN_EXP : ℕ := 0x23
def ECT_SDO_DOWN_INIT_CA : ℕ := 0x31
def ECT_SDO_UP_REQ : ℕ := 0x40
def ECT_SDO_UP_REQ_CA : ℕ := 0x50
def ECT_SDO_SEG_UP_REQ : ℕ := 0x60
def ECT_SDO_ABORT : ℕ := 0x80

/-- `ec_SDOt`: the fields of the mailbox header that are used, the service and the command; `body` is the
memory from `Index` on, which a segment fills with its data. -/
structure Sdo where
  length : ℕ
  mbxtype : ℕ
  CANOpen : ℕ
  Command : ℕ
  body : List UInt8
deriving Repr, DecidableEq

namespace Sdo

/-- `ec_clearmbx` -/
def clear : Sdo := ⟨0, 0, 0, 0, List.replicate (EC_MAXMBX - 9) 0⟩

def Index (a : Sdo) : UInt16 := (readUint16 a.body 0).1
def SubIndex (a : Sdo) : UInt8 := byteAt a.body 2
def ldata0 (a : Sdo) : UInt32 := (readUint32 a.body 3).1

/-- CoE, and an SDO response. -/
def IsResponse (a : Sdo) : Prop := a.mbxtype &&& 0x0f = ECT_MBXT_COE ∧ a.CANOpen >>> 12 = ECT_COES_SDORES

instance (a : Sdo) : Decidable a.IsResponse := inferInstanceAs (Decidable (_ ∧ _))

end Sdo

/-- What is pushed on the error list. -/
inductive SdoError
  | sdo (index : UInt16) (subIdx : UInt8) (abortCode : Int32)
  | packet (index : UInt16) (subIdx : UInt8) (errorCode : ℕ)
deriving Repr, DecidableEq

/-- `ecx_mbxsend` and `ecx_mbxreceive` with the slave they talk to: working counters, a timeout, and what
has been received. -/
structure Mailbox (σ : Type) where
  send : Sdo → σ → ℤ × σ
  receive : (timeout : ℕ) → σ → (ℤ × Sdo) × σ

/-- The mailbox counter of the slave, the error list, and the slave. -/
structure Coe (σ : Type) where
  mbx_cnt : ℕ
  errors : List SdoError
  peer : σ

/-- `ec_nextmbxcnt` -/
def nextmbxcnt (cnt : ℕ) : ℕ := if 7 < (cnt + 1) % 256 then 1 else (cnt + 1) % 256

section Master
variable {σ : Type} (m : Mailbox σ) (timeout : ℕ)

def Coe.mbxtype (st : Coe σ) : ℕ := ECT_MBXT_COE + (nextmbxcnt st.mbx_cnt <<< 4) % 256

def Coe.count (st : Coe σ) : Coe σ := { st with mbx_cnt := nextmbxcnt st.mbx_cnt }

/-- Empty the slave's out mailbox. -/
def Coe.empty (st : Coe σ) : Coe σ := { st with peer := (m.receive 0 st.peer).2 }

/-- A request is sent and its response read, if there is one; the working counter of the last of them. -/
def transfer (req : Sdo) (st : Coe σ) : (ℤ × Option Sdo) × Coe σ :=
  let (wkc, peer) := m.send req st.peer
  if 0 < wkc then
    let ((wkc, a), peer) := m.receive timeout peer
    ((wkc, if 0 < wkc then some a else none), { st with peer := peer })
  else ((wkc, none), { st with peer := peer })

/-- An abort, or an unexpected frame. -/
def Coe.fail (st : Coe σ) (index : UInt16) (subindex : UInt8) (a : Sdo) : Coe σ :=
  { st with
    errors := st.errors ++ [if a.Command = ECT_SDO_ABORT then .sdo index subindex a.ldata0.toInt32
      else .packet index subindex 1] }

/-- The request for the next segment, in the buffer `SDOp` of the last request. -/
def Coe.segmentRequest (st : Coe σ) (maxdata : ℕ) (SDOp : Sdo) (rest : List UInt8) (toggle : ℕ) : Sdo :=
  let NotLast := maxdata < rest.length
  let framedatasize := if NotLast then maxdata else rest.length
  { length := if ¬ NotLast ∧ framedatasize < 7 then 0x0a else (framedatasize + 3) % 2 ^ 16
    mbxtype := st.mbxtype
    CANOpen := ECT_COES_SDOREQ <<< 12
    Command := (if NotLast then 0x00
      else if framedatasize < 7 then 0x01 + ((7 - framedatasize) <<< 1) else 0x01) + toggle
    body := put SDOp.body 0 (rest.take framedatasize) }

def downloadSegments (maxdata : ℕ) (index : UInt16) (subindex : UInt8) :
    (fuel : ℕ) → (SDOp : Sdo) → (rest : List UInt8) → (toggle : ℕ) → Coe σ → ℤ × Coe σ
  | 0, _, _, _, st => (0, st)
  | fuel + 1, SDOp, rest, toggle, st =>
    let SDOp := st.segmentRequest maxdata SDOp rest toggle
    match transfer m timeout SDOp st.count with
    | ((wkc, none), st) =>
      if maxdata < rest.length then
        downloadSegments maxdata index subindex fuel SDOp (rest.drop maxdata) (toggle ^^^ 0x10) st
      else (wkc, st)
    | ((wkc, some a), st) =>
      if a.IsResponse ∧ a.Command &&& 0xe0 = 0x20 then
        if maxdata < rest.length then
          downloadSegments maxdata index subindex fuel SDOp (rest.drop maxdata) (toggle ^^^ 0x10) st
        else (wkc, st)
      else (0, st.fail index subindex a)

def Coe.expeditedRequest (st : Coe σ) (Index : UInt16) (SubIndex : UInt8) (p : List UInt8) : Sdo :=
  { length := 0x0a
    mbxtype := st.mbxtype
    CANOpen := ECT_COES_SDOREQ <<< 12
    Command := ECT_SDO_DOWN_EXP ||| (((4 - p.length) <<< 2) &&& 0x0c)
    body := put Sdo.clear.body 0 (le16 Index ++ [SubIndex] ++ p) }

/-- The request of a normal download, with the first bytes. -/
def Coe.downloadRequest (st : Coe σ) (maxdata : ℕ) (Index : UInt16) (SubIndex : UInt8) (CA : Bool)
    (p : List UInt8) : Sdo :=
  let framedatasize := if maxdata < p.length then maxdata else p.length
  { length := (0x0a + framedatasize) % 2 ^ 16
    mbxtype := st.mbxtype
    CANOpen := ECT_COES_SDOREQ <<< 12
    Command := if CA then ECT_SDO_DOWN_INIT_CA else ECT_SDO_DOWN_INIT
    body := put Sdo.clear.body 0 (le16 Index ++ [if CA ∧ 1 < SubIndex then 1 else SubIndex] ++
      le32 (UInt32.ofNat p.length) ++ p.take framedatasize) }

/-- `ecx_SDOwrite`, for a mailbox of `mbx_l` bytes -/
def sdoWrite (mbx_l : ℕ) (Index : UInt16) (SubIndex : UInt8) (CA : Bool) (p : List UInt8) (st : Coe σ) :
    ℤ × Coe σ :=
  let st := st.empty m
  let maxdata := mbx_l - 0x10
  if p.length ≤ 4 ∧ CA = false then
    let SDOp := st.expeditedRequest Index SubIndex p
    match transfer m timeout SDOp st.count with
    | ((wkc, none), st) => (wkc, st)
    | ((wkc, some a), st) =>
      if a.IsResponse ∧ a.Index = SDOp.Index ∧ a.SubIndex = SDOp.SubIndex then (wkc, st)
      else (0, st.fail Index SubIndex a)
  else
    let SDOp := st.downloadRequest maxdata Index SubIndex CA p
    match transfer m timeout SDOp st.count with
    | ((wkc, none), st) => (wkc, st)
    | ((wkc, some a), st) =>
      if a.IsResponse ∧ a.Index = SDOp.Index ∧ a.SubIndex = SDOp.SubIndex then
        if maxdata < p.length then
          downloadSegments m timeout (maxdata + 7) Index SubIndex p.length SDOp (p.drop maxdata) 0x00 st
        else (wkc, st)
      else (0, st.fail Index SubIndex a)

/-- What `ecx_SDOread` returns: the working counter, the size, and the parameter buffer. -/
structure SdoReadResult where
  wkc : ℤ
  psize : ℕ
  p : List UInt8
deriving Repr, DecidableEq

/-- A request with index and subindex only, of an upload or of its next segment. -/
def Coe.uploadRequest (st : Coe σ) (Command : ℕ) (index : UInt16) (subindex : UInt8) : Sdo :=
  { length := 0x0a
    mbxtype := st.mbxtype
    CANOpen := ECT_COES_SDOREQ <<< 12
    Command := Command
    body := put Sdo.clear.body 0 (le16 index ++ [subindex] ++ le32 0) }

/-- The loop over the segments of an upload, which ends with the last segment or an unexpected frame;
`none` when `fuel` rounds have not ended it. `psize` bytes have been copied so far. -/
def uploadSegments (index : UInt16) (subindex : UInt8) :
    (fuel psize toggle : ℕ) → (p : List UInt8) → Coe σ → Option (SdoReadResult × Coe σ)
  | 0, _, _, _, _ => none
  | fuel + 1, psize, toggle, p, st =>
    let SDOp := st.uploadRequest (ECT_SDO_SEG_UP_REQ + toggle) index subindex
    match transfer m timeout SDOp st.count with
    | ((_, none), st) => uploadSegments index subindex fuel psize (toggle ^^^ 0x10) p st
    | ((wkc, some a), st) =>
      if a.IsResponse ∧ a.Command &&& 0xe0 = 0x00 then
        let Framedatasize : ℕ := (a.length + (2 ^ 16 - 3)) % 2 ^ 16
        if 0 < a.Command &&& 0x01 then
          let Framedatasize := if Framedatasize = 7 then 7 - (a.Command &&& 0x0e) >>> 1 else Framedatasize
          some (⟨wkc, psize + Framedatasize, put p psize (window a.body 0 Framedatasize)⟩, st)
        else
          uploadSegments index subindex fuel (psize + Framedatasize) (toggle ^^^ 0x10)
            (put p psize (window a.body 0 Framedatasize)) st
      else some (⟨0, psize, p⟩, st.fail index subindex a)

/-- `ecx_SDOread` into a buffer `p` of `psize` bytes -/
def sdoRead (index : UInt16) (subindex : UInt8) (CA : Bool) (psize : ℕ) (p : List UInt8) (fuel : ℕ)
    (st : Coe σ) : Option (SdoReadResult × Coe σ) :=
  let st := st.empty m
  let subindex := if CA ∧ 1 < subindex then 1 else subindex
  let SDOp := st.uploadRequest (if CA then ECT_SDO_UP_REQ_CA else ECT_SDO_UP_REQ) index subindex
  let tooSmall (st : Coe σ) : SdoReadResult × Coe σ :=
    (⟨0, psize, p⟩, { st with errors := st.errors ++ [.packet index subindex 3] })
  match transfer m timeout SDOp st.count with
  | ((wkc, none), st) => some (⟨wkc, psize, p⟩, st)
  | ((wkc, some a), st) =>
    if a.IsResponse ∧ a.Index = SDOp.Index then
      if 0 < a.Command &&& 0x02 then
        let bytesize := 4 - ((a.Command >>> 2) &&& 0x03)
        if bytesize ≤ psize then some (⟨wkc, bytesize, put p 0 (window a.body 3 bytesize)⟩, st)
        else some (tooSmall st)
      else
        let SDOlen := a.ldata0.toInt32.toInt
        if SDOlen ≤ psize then
          let Framedatasize : ℕ := (a.length + (2 ^ 16 - 10)) % 2 ^ 16
          if (Framedatasize : ℤ) < SDOlen then
            uploadSegments m timeout index subindex fuel Framedatasize 0x00
              (put p 0 (window a.body 7 Framedatasize)) st
          else some (⟨wkc, SDOlen.toNat, put p 0 (window a.body 7 SDOlen.toNat)⟩, st)
        else some (tooSmall st)
    else some (⟨0, psize, p⟩, st.fail index subindex a)

end Master
end EcatMaster.Soem
