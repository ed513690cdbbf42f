import EcatMaster.Soem.NicDriver

/-! # The states of the slaves

`ecx_readstate` asks for the AL status of all slaves: with one broadcast datagram, and if that does not
tell the state of every slave, with one datagram for each slave, `MAX_FPRD_MULTI` of them in a frame.
-/

namespace EcatMaster.Soem
set_option autoImplicit false
open ByteBuf

def ECT_REG_ALSTAT : UInt16 := 0x0130
def MAX_FPRD_MULTI : ℕ := 64
def EC_STATE_INIT : UInt16 := 0x01
def EC_STATE_PRE_OP : UInt16 := 0x02
def EC_STATE_SAFE_OP : UInt16 := 0x04
def EC_STATE_OPERATIONAL : UInt16 := 0x08
def EC_STATE_ERROR : UInt16 := 0x10

/-! ## Blocking primitives -/

/-- The other end of the socket: the frame that comes back for one that is sent. -/
abbrev Wire (σ : Type) := List UInt8 → σ → Option (List UInt8) × σ

section Primitives
variable {σ : Type} (wire : Wire σ)

/-- `ecx_srconfirm`, with time for `tries` frames -/
def srconfirm (idx : ℕ) : (tries : ℕ) → Port → σ → ℤ × Port × σ
  | 0, port, bus => (EC_NOFRAME, port, bus)
  | tries + 1, port, bus =>
    let port := port.outframe idx true
    let (packet, bus) := wire (FrameBuf.sent ⟨port.txbuf idx, port.txbuflength idx⟩) bus
    let (wkc, port) := port.inframeSocket idx packet
    if wkc ≤ EC_NOFRAME then srconfirm idx tries port bus else (wkc, port, bus)

/-- A frame in the transmit buffer of its index. -/
def Port.settxbuf (port : Port) (idx : ℕ) (frame : FrameBuf) : Port :=
  { port with
    txbuf := Function.update port.txbuf idx frame.bytes
    txbuflength := Function.update port.txbuflength idx frame.length }

/-- `ecx_BRD` -/
def BRD (ADP ADO : UInt16) (data : List UInt8) (tries : ℕ) (port : Port) (bus : σ) :
    (ℤ × List UInt8) × Port × σ :=
  let (idx, port) := port.getindex
  let port := port.settxbuf idx (Subframe.setupdatagram ⟨.BRD, ADP, ADO, data⟩ (port.txbuf idx) (UInt8.ofNat idx))
  let (wkc, port, bus) := srconfirm wire idx tries port bus
  let data := if 0 < wkc then window (port.rxbuf idx) EC_HEADERSIZE data.length else data
  ((wkc, data), port.setbufstat idx .EMPTY, bus)

/-- A datagram for the AL status of one slave; `sizeof(ec_alstatust)` is 6. -/
def statusDatagram (configadr : UInt16) : Subframe := ⟨.FPRD, configadr, ECT_REG_ALSTAT, List.replicate 6 0⟩

/-- `ecx_FPRD_multi`: the working counter, and `slstatlst`, which is zero before -/
def FPRD_multi (configadr : UInt16) (configlst : List UInt16) (tries : ℕ) (port : Port) (bus : σ) :
    (ℤ × List (List UInt8)) × Port × σ :=
  let (idx, port) := port.getindex
  let (frame, sldatapos) := framedatagrams (port.txbuf idx) (UInt8.ofNat idx) (statusDatagram configadr)
    (configlst.map statusDatagram)
  let (wkc, port, bus) := srconfirm wire idx tries (port.settxbuf idx frame) bus
  let slstatlst :=
    if 0 ≤ wkc then sldatapos.map fun pos => window (port.rxbuf idx) pos 6
    else sldatapos.map fun _ => List.replicate 6 0
  ((wkc, slstatlst), port.setbufstat idx .EMPTY, bus)

end Primitives

/-! ## Reading the states -/

/-- The fields of `ec_slavet` that are used. -/
structure SlaveInfo where
  state : UInt16
  ALstatuscode : UInt16
  configadr : UInt16
deriving Repr, DecidableEq

/-- What `ecx_readstate` keeps while it goes through the slaves. -/
structure StateScan where
  slaves : List SlaveInfo
  lowest : UInt16
  ALstatuscode : UInt16
deriving Repr, DecidableEq

/-- The AL status and the AL status code of `ec_alstatust`. -/
def alstatus (status : List UInt8) : UInt16 := (readUint16 status 0).1
def alstatuscode (status : List UInt8) : UInt16 := (readUint16 status 4).1

def SlaveInfo.found (s : SlaveInfo) (status : List UInt8) : SlaveInfo :=
  { s with state := alstatus status, ALstatuscode := alstatuscode status }

/-- One slave with what has been read for it. -/
def StateScan.slave (scan : StateScan) (s : SlaveInfo) (status : List UInt8) : StateScan :=
  let rval := alstatus status
  { slaves := scan.slaves ++ [s.found status]
    lowest := if rval &&& 0xf < scan.lowest then rval &&& 0xf else scan.lowest
    ALstatuscode := scan.ALstatuscode ||| alstatuscode status }

section ReadState
variable {σ : Type} (wire : Wire σ) (tries : ℕ)

/-- The loop over the slaves, with up to `MAX_FPRD_MULTI` of them at a time. -/
def scanSlaves : (fuel : ℕ) → List SlaveInfo → StateScan → Port → σ → StateScan × Port × σ
  | 0, _, scan, port, bus => (scan, port, bus)
  | _ + 1, [], scan, port, bus => (scan, port, bus)
  | fuel + 1, s :: rest, scan, port, bus =>
    let more := rest.take (MAX_FPRD_MULTI - 1)
    let ((_, sl), port, bus) := FPRD_multi wire s.configadr (more.map (·.configadr)) tries port bus
    let scan := ((s :: more).zip sl).foldl (fun scan e => scan.slave e.1 e.2) scan
    scanSlaves fuel (rest.drop (MAX_FPRD_MULTI - 1)) scan port bus

/-- `ecx_readstate`: the lowest state, `slavelist[0]` and the slaves. BOOT collides with PRE_OP | INIT and is no
state that all slaves are taken to have. -/
def readstate (tries₁ : ℕ) (all : SlaveInfo) (slaves : List SlaveInfo) (port : Port) (bus : σ) :
    (UInt16 × SlaveInfo × List SlaveInfo) × Port × σ :=
  let ((wkc, data), port, bus) := BRD wire 0 ECT_REG_ALSTAT [0, 0] tries₁ port bus
  let allslavespresent := (slaves.length : ℤ) ≤ wkc
  let rval := (readUint16 data 0).1
  let bitwisestate := rval &&& 0x0f
  let noerrorflag := rval &&& EC_STATE_ERROR = 0
  let allslavessamestate :=
    bitwisestate ∈ [EC_STATE_INIT, EC_STATE_PRE_OP, EC_STATE_SAFE_OP, EC_STATE_OPERATIONAL]
  let all := if noerrorflag then { all with ALstatuscode := 0 } else all
  let all := if allslavessamestate then { all with state := bitwisestate } else all
  if noerrorflag ∧ allslavessamestate ∧ allslavespresent then
    ((bitwisestate, all, slaves.map fun s => { s with ALstatuscode := 0, state := bitwisestate }), port, bus)
  else
    let (scan, port, bus) := scanSlaves wire tries slaves.length slaves ⟨[], 0xff, 0⟩ port bus
    ((scan.lowest, { all with state := scan.lowest, ALstatuscode := scan.ALstatuscode }, scan.slaves),
      port, bus)

end ReadState

/-! ## The slaves -/

/-- A slave with its configured address and its registers. -/
structure Esc where
  configadr : UInt16
  memory : ℕ → UInt8

namespace Esc
variable (s : Esc)

def read (ADO : UInt16) (n : ℕ) : List UInt8 := (List.range n).map fun i => s.memory (ADO.toNat + i)

/-- Reading by broadcast is a bitwise OR of all slaves. -/
def serve (p : Passing) : Passing :=
  if p.command = Cmd.BRD.code then
    { p with
      ADP := p.ADP + 1
      data := List.zipWith (· ||| ·) p.data (s.read p.ADO p.data.length)
      wkc := p.wkc + 1 }
  else if p.command = Cmd.FPRD.code ∧ p.ADP = s.configadr then
    { p with data := s.read p.ADO p.data.length, wkc := p.wkc + 1 }
  else p

def status : UInt16 := alstatus (s.read ECT_REG_ALSTAT 6)

def statuscode : UInt16 := alstatuscode (s.read ECT_REG_ALSTAT 6)

end Esc

/-- A line of slaves, which frame `k` finds as `bus k`, and which loses some frames. -/
def lossy (bus : ℕ → List Esc) (arrives : ℕ → Bool) : Wire ℕ := fun frame k =>
  (if arrives k then some (passSlaves ((bus k).map Esc.serve) frame) else none, k + 1)

end EcatMaster.Soem
