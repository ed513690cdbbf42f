import EcatMaster.Lib.LogicalBus
import EcatMaster.Soem.ConfigMap
import EcatMaster.Soem.Datagram

/-! # The exchange of process data

`ecx_send_processdata_group` sends the process image in datagrams with logical addresses, one for each
segment: LRW datagrams that take the outputs to the slaves and bring their inputs back, or LRD and then
LWR datagrams if a slave does not allow LRW. `ecx_receive_processdata_group` puts what comes back into
the IO map and adds up the working counters. The bus between them is the slaves' FMMUs as
`ecx_config_map_group` has set them, with any fate of every frame.
-/

namespace EcatMaster.Soem
set_option autoImplicit false

/-- A frame with process data. With `dc` the clock of the reference slave is distributed in a second
datagram. -/
structure Frame where
  com : Cmd
  LogAdr : ℕ
  data : List UInt8
  dc : Bool
deriving Repr, DecidableEq

/-- An entry of `ec_idxstackT`: the index of a frame, and the part of the IO map that it is for. -/
structure IdxEntry where
  idx : ℕ
  data : ℕ
  length : ℕ
  dcoffset : Bool
deriving Repr, DecidableEq

/-- `ecx_pushindex` -/
def pushindex (idxstack : List IdxEntry) (e : IdxEntry) : List IdxEntry :=
  if idxstack.length < EC_MAXBUF then idxstack ++ [e] else idxstack

/-- What has been sent in this cycle: frame `idx` is in buffer `idx`. -/
structure Sending where
  frames : List Frame
  idxstack : List IdxEntry
  first : Bool
deriving Repr, DecidableEq

/-- One frame is set up, sent and pushed. -/
def Sending.frame (iomap : List UInt8) (com : Cmd) (LogAdr data sublength : ℕ) (st : Sending) : Sending where
  frames := st.frames ++
    [⟨com, LogAdr, writedatagramdata com (ByteBuf.window iomap data sublength), st.first⟩]
  idxstack := pushindex st.idxstack ⟨st.frames.length, data, sublength, st.first⟩
  first := false

/-- The loop over the segments, whose body runs at least once. -/
def sendSegments (nsegments : ℕ) (sublength : (currentsegment : ℕ) → (length : ℤ) → ℕ) (com : Cmd)
    (iomap : List UInt8) :
    (fuel currentsegment : ℕ) → (length : ℤ) → (LogAdr data : ℕ) → Sending → Sending
  | 0, _, _, _, _, st => st
  | fuel + 1, currentsegment, length, LogAdr, data, st =>
    let size := sublength currentsegment length
    let st := st.frame iomap com LogAdr data size
    if length - size ≠ 0 ∧ currentsegment + 1 < nsegments then
      sendSegments nsegments sublength com iomap fuel (currentsegment + 1) (length - size)
        (LogAdr + size) (data + size) st
    else st

namespace MapGroup

def outputs (_ : MapGroup) : ℕ := 0

variable (g : MapGroup)

/-- `IOsegment[currentsegment]` -/
def segment (currentsegment : ℕ) : ℕ := g.IOsegment.getD currentsegment 0

def inputs : ℕ := g.Obytes

/-- The inputs start in the segment where the outputs end. -/
def lrdLength (currentsegment : ℕ) (_length : ℤ) : ℕ :=
  if currentsegment = g.Isegment then (((g.segment currentsegment : ℤ) - g.Ioffset) % 2 ^ 16).toNat
  else g.segment currentsegment % 2 ^ 16

/-- The outputs end in the middle of a segment. -/
def lwrLength (currentsegment : ℕ) (length : ℤ) : ℕ :=
  let sublength : ℕ := g.segment currentsegment % 2 ^ 16
  if length - (sublength : ℤ) < 0 then (length % 2 ^ 16).toNat else sublength

def lrwLength (currentsegment : ℕ) (_length : ℤ) : ℕ := g.segment currentsegment % 2 ^ 16

/-- If inputs are available, LRD frames. -/
def sendInputs (iomap : List UInt8) (st : Sending) : Sending :=
  if g.Ibytes ≠ 0 then
    sendSegments g.nsegments g.lrdLength .LRD iomap (g.nsegments + 1) g.Isegment g.Ibytes g.Obytes
      g.inputs st
  else st

/-- If outputs are available, LWR frames. -/
def sendOutputs (iomap : List UInt8) (st : Sending) : Sending :=
  if g.Obytes ≠ 0 then
    sendSegments g.nsegments g.lwrLength .LWR iomap (g.nsegments + 1) 0 g.Obytes 0 g.outputs st
  else st

/-- `ecx_send_processdata_group`, from an empty index stack -/
def sendProcessdata (hasdc : Bool) (iomap : List UInt8) : Sending :=
  let st : Sending := ⟨[], [], hasdc⟩
  if g.Obytes + g.Ibytes = 0 then st
  else if g.blockLRW ≠ 0 then g.sendOutputs iomap (g.sendInputs iomap st)
  else
    sendSegments g.nsegments g.lrwLength .LRW iomap (g.nsegments + 1) 0 (g.Obytes + g.Ibytes) 0
      (if g.Obytes ≠ 0 then g.outputs else g.inputs) st

end MapGroup

/-- What `ecx_waitinframe` returns for a frame that has come back, and what is in its buffer. -/
structure Answer where
  wkc2 : ℤ
  com : Cmd
  data : List UInt8
  le_wkc : ℕ
  le_DCtime : ℕ
deriving Repr, DecidableEq

/-- The state of the loop over the index stack. -/
structure Receiving where
  iomap : List UInt8
  DCtime : ℕ
  wkc : ℤ
  valid_wkc : Bool
deriving Repr, DecidableEq

/-- One entry of the index stack, and what has come back for it; the working counter of an LWR counts as the
outputs of an LRW do, two times. -/
def Receiving.pull (r : Receiving) (e : IdxEntry) : Option Answer → Receiving
  | none => r
  | some a =>
    if a.com = .LRD ∨ a.com = .LRW then
      let iomap := ByteBuf.put r.iomap e.data (a.data.take e.length)
      if e.dcoffset then { iomap := iomap, DCtime := a.le_DCtime, wkc := a.le_wkc, valid_wkc := true }
      else { r with iomap := iomap, wkc := r.wkc + a.wkc2, valid_wkc := true }
    else if a.com = .LWR then
      if e.dcoffset then { r with DCtime := a.le_DCtime, wkc := a.le_wkc * 2, valid_wkc := true }
      else { r with wkc := r.wkc + a.wkc2 * 2, valid_wkc := true }
    else r

/-- `ecx_receive_processdata_group`: the IO map and the clock behind it, and what it returns. -/
def receiveProcessdata (waitinframe : ℕ → Option Answer) (idxstack : List IdxEntry)
    (iomap : List UInt8) (DCtime : ℕ) : Receiving × ℤ :=
  let r := idxstack.foldl (fun r e => r.pull e (waitinframe e.idx)) ⟨iomap, DCtime, 0, false⟩
  (r, if r.valid_wkc then r.wkc else EC_NOFRAME)

/-! ## The bus -/

def Cmd.reads (com : Cmd) : Bool := com = .LRD ∨ com = .LRW
def Cmd.writes (com : Cmd) : Bool := com = .LWR ∨ com = .LRW

def Fmmu.window (f : Fmmu) : LogicalBus.Window := ⟨f.LogStart, f.LogLength, f.PhysStart⟩

/-- The slave on the bus, with the FMMUs that `ecx_config_map_group` has written to it. -/
def MapSlave.station (s : MapSlave) (memory : ℕ → UInt8) : LogicalBus.Station UInt8 where
  reads := (s.activeFmmus 1).map Fmmu.window
  writes := (s.activeFmmus 2).map Fmmu.window
  memory := memory

/-- The slaves with their memories. -/
def stations (slaves : List MapSlave) (memory : ℕ → ℕ → UInt8) : List (LogicalBus.Station UInt8) :=
  slaves.mapIdx fun k s => s.station (memory k)

def Frame.datagram (f : Frame) : LogicalBus.Datagram UInt8 where
  reads := f.com.reads
  writes := f.com.writes
  start := f.LogAdr
  cells := f.data

/-- What becomes of a frame: the slaves that take part in it, whether it comes back in time, and what
its datagram for the clocks brings. -/
structure Fate where
  takes : ℕ → Bool
  returns : Bool
  dcWkc : ℕ
  DCtime : ℕ

def Frame.answer (f : Frame) (fate : Fate) (reply : LogicalBus.Datagram UInt8 × ℕ) : Option Answer :=
  if fate.returns then
    some
      { wkc2 := if f.dc then fate.dcWkc else (reply.2 % 2 ^ 16 : ℕ)
        com := f.com
        data := reply.1.cells
        le_wkc := reply.2 % 2 ^ 16
        le_DCtime := fate.DCtime }
  else none

def row (frames : List Frame) (fate : ℕ → Fate) : List (LogicalBus.Datagram UInt8 × (ℕ → Bool)) :=
  frames.mapIdx fun n f => (f.datagram, (fate n).takes)

/-- What `ecx_waitinframe` finds for index `idx`. -/
def answers (frames : List Frame) (fate : ℕ → Fate) (bus : List (LogicalBus.Station UInt8)) (idx : ℕ) :
    Option Answer :=
  frames[idx]?.bind fun f =>
    (LogicalBus.replies (row frames fate) bus)[idx]?.bind fun reply => f.answer (fate idx) reply

/-- One cycle: the master behind it, the working counter, and the slaves behind it. -/
def MapGroup.cycle (g : MapGroup) (hasdc : Bool) (fate : ℕ → Fate)
    (bus : List (LogicalBus.Station UInt8)) (iomap : List UInt8) (DCtime : ℕ) :
    Receiving × ℤ × List (LogicalBus.Station UInt8) :=
  let sent := g.sendProcessdata hasdc iomap
  let received := receiveProcessdata (answers sent.frames fate bus) sent.idxstack iomap DCtime
  (received.1, received.2, LogicalBus.rounds (row sent.frames fate) bus)

end EcatMaster.Soem
