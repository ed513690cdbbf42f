import EcatMaster.Soem.Fmmu

/-! # The process image

`ecx_main_config_map_group` for group 0, without forced byte alignment: the outputs of all slaves and
then the inputs of all slaves are placed in the logical address space, which is the IO map, and the
space is cut into segments that each fit in one datagram.
-/

namespace EcatMaster.Soem
set_option autoImplicit false

def EC_MAXECATFRAME : ℕ := 1518
def EC_MAXLRWDATA : ℕ := EC_MAXECATFRAME - 14 - 2 - 10 - 2 - 4
def EC_FIRSTDCDATAGRAM : ℕ := 20
def EC_MAXIOSEGMENTS : ℕ := 64

/-- The segments closed so far, the one that is being filled, and a working counter. -/
structure Segments where
  IOsegment : List ℕ
  segmentsize : ℕ
  segmentmaxsize : ℕ
  wkc : ℕ
deriving Repr, DecidableEq

/-- The first segment must account for DC overhead. -/
def Segments.init : Segments := ⟨[], 0, EC_MAXLRWDATA - EC_FIRSTDCDATAGRAM, 0⟩

/-- The segment is closed with `size` bytes. -/
def Segments.close (seg : Segments) (size : ℕ) : Segments :=
  { seg with
    IOsegment := seg.IOsegment ++ [size]
    segmentsize := seg.segmentsize - size
    segmentmaxsize := EC_MAXLRWDATA }

/-- What is too long for one segment fills several. -/
def Segments.spill : (fuel : ℕ) → Segments → Segments
  | 0, seg => seg
  | fuel + 1, seg =>
    if seg.segmentmaxsize < seg.segmentsize then
      Segments.spill fuel { seg.close seg.segmentmaxsize with wkc := seg.wkc + 1 }
    else seg

/-- A segment that has no room for a slave that fits in one is closed. -/
def Segments.makeRoom (seg : Segments) (diff : ℕ) : Segments :=
  if seg.segmentmaxsize < seg.segmentsize + diff ∧ diff ≤ seg.segmentmaxsize ∧
      seg.IOsegment.length < EC_MAXIOSEGMENTS
    then seg.close seg.segmentsize else seg

/-- A slave with data in the segment that is being filled counts. -/
def Segments.count (seg : Segments) (diff : ℕ) : Segments :=
  if seg.segmentsize ≠ 0 ∧ diff ≠ 0 then { seg with wkc := seg.wkc + 1 } else seg

/-- The `diff` bytes of a slave are added. -/
def Segments.add (seg : Segments) (diff : ℕ) : Segments :=
  let seg := seg.makeRoom diff
  let seg := { seg with segmentsize := seg.segmentsize + diff }
  (seg.spill (EC_MAXIOSEGMENTS - seg.IOsegment.length)).count diff

/-- The last byte of bit oriented slaves. -/
def Segments.addLast (seg : Segments) : Segments :=
  let seg := if seg.segmentmaxsize < seg.segmentsize + 1 ∧ seg.IOsegment.length < EC_MAXIOSEGMENTS
    then { seg.close seg.segmentsize with wkc := seg.wkc + 1 } else seg
  { seg with segmentsize := seg.segmentsize + 1 }

structure MapState where
  pos : LogPos
  oLogAddr : ℕ
  seg : Segments
deriving Repr, DecidableEq

def mapSlave (bits : MapSlave → ℕ) (create : MapSlave → LogPos → Option (MapSlave × LogPos))
    (s : MapSlave) (st : MapState) : Option (MapSlave × MapState) :=
  if bits s = 0 then some (s, st) else
    (create s st.pos).map fun (s', pos) =>
      (s', ⟨pos, pos.LogAddr, st.seg.add (pos.LogAddr - st.oLogAddr)⟩)

def mapSlaves (bits : MapSlave → ℕ) (create : MapSlave → LogPos → Option (MapSlave × LogPos)) :
    List MapSlave → MapState → Option (List MapSlave × MapState)
  | [], st => some ([], st)
  | s :: slaves, st =>
    (mapSlave bits create s st).bind fun (s', st') =>
      (mapSlaves bits create slaves st').map fun (slaves', st'') => (s' :: slaves', st'')

def mapOutputs : List MapSlave → MapState → Option (List MapSlave × MapState) :=
  mapSlaves MapSlave.Obits createOutputMappings

def mapInputs : List MapSlave → MapState → Option (List MapSlave × MapState) :=
  mapSlaves MapSlave.Ibits createInputMappings

/-- The rest of the last byte is left free. -/
def MapState.roundUp (st : MapState) : MapState :=
  if st.pos.BitPos ≠ 0 then ⟨st.pos.round, st.pos.round.LogAddr, st.seg.addLast⟩ else st

/-- The fields of `ec_groupt` that describe the process image. -/
structure MapGroup where
  Obytes : ℕ
  Ibytes : ℕ
  nsegments : ℕ
  Isegment : ℕ
  Ioffset : ℕ
  outputsWKC : ℕ
  inputsWKC : ℕ
  IOsegment : List ℕ
  blockLRW : ℕ
deriving Repr, DecidableEq

/-- `ecx_main_config_map_group`; `none` when a slave has too few FMMUs. -/
def configMapGroup (slaves : List MapSlave) : Option (List MapSlave × MapGroup) :=
  (mapOutputs (slaves.map mapSm) ⟨⟨0, 0⟩, 0, .init⟩).bind fun (slaves, st) =>
    let out := st.roundUp
    (mapInputs slaves { out with seg := { out.seg with wkc := 0 } }).map fun (slaves, st) =>
      let inp := st.roundUp
      (slaves,
        { Obytes := out.pos.LogAddr
          Ibytes := inp.pos.LogAddr - out.pos.LogAddr
          nsegments := inp.seg.IOsegment.length + 1
          Isegment := out.seg.IOsegment.length
          Ioffset := out.seg.segmentsize
          outputsWKC := out.seg.wkc
          inputsWKC := inp.seg.wkc
          IOsegment := inp.seg.IOsegment ++ [inp.seg.segmentsize]
          blockLRW := (slaves.filter fun s => s.blockLRW ≠ 0).length })

end EcatMaster.Soem
