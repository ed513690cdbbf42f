import Mathlib.Algebra.Order.Ring.Nat
import Mathlib.Data.Option.Basic
import EcatMaster.Lib.Placement

/-! # Sync managers and FMMUs

A slave holds its process data in the memory of its sync managers. `ecx_config_map_group` gives every
slave a place in the logical address space for its outputs and one for its inputs, and programs the
slave's FMMUs to map them to that memory.
-/

namespace EcatMaster.Soem
set_option autoImplicit false

def EC_MAXSM : ℕ := 8
def EC_MAXFMMU : ℕ := 4

/-- A sync manager and its type: 0 unused, 1 and 2 mailbox, 3 outputs, 4 inputs. -/
structure SyncManager where
  StartAddr : ℕ
  SMlength : ℕ
  SMtype : ℕ
deriving Repr, DecidableEq

structure Fmmu where
  LogStart : ℕ
  LogLength : ℕ
  LogStartbit : ℕ
  LogEndbit : ℕ
  PhysStart : ℕ
  PhysStartBit : ℕ
  FMMUtype : ℕ
  FMMUactive : ℕ
deriving Repr, DecidableEq

def Fmmu.init : Fmmu := ⟨0, 0, 0, 0, 0, 0, 0, 0⟩

/-- The fields of `ec_slavet` that the mapping reads and writes. `outputs` and `inputs` are offsets in
the IO map, `none` the null pointer. -/
structure MapSlave where
  Obits : ℕ
  Obytes : ℕ
  outputs : Option ℕ
  Ostartbit : ℕ
  Ibits : ℕ
  Ibytes : ℕ
  inputs : Option ℕ
  Istartbit : ℕ
  SM : ℕ → SyncManager
  FMMU : ℕ → Fmmu
  FMMUunused : ℕ
  blockLRW : ℕ

/-- The bytes of `ecx_map_sm`: a slave with less than 8 bits is bit oriented and has none. -/
def mapSm (s : MapSlave) : MapSlave :=
  { s with
    Ibytes := if 7 < s.Ibits then (s.Ibits + 7) / 8 else s.Ibytes
    Obytes := if 7 < s.Obits then (s.Obits + 7) / 8 else s.Obytes }

/-- The next sync manager of type `ty`, the last one if there is none. -/
def nextSm (SM : ℕ → SyncManager) (ty : ℕ) : (fuel SMc : ℕ) → ℕ
  | 0, SMc => SMc
  | fuel + 1, SMc =>
    if SMc < EC_MAXSM - 1 ∧ (SM SMc).SMtype ≠ ty then nextSm SM ty fuel (SMc + 1) else SMc

structure SmScan where
  SMc : ℕ
  ByteCount : ℕ
  BitCount : ℕ
  EndAddr : ℕ
deriving Repr, DecidableEq

/-- Sync manager `SMc` contributes. -/
def SmScan.add (SM : ℕ → SyncManager) (SMc : ℕ) (scan : SmScan) : SmScan where
  SMc := SMc
  ByteCount := (scan.ByteCount + (SM SMc).SMlength) % 2 ^ 16
  BitCount := scan.BitCount + (SM SMc).SMlength * 8
  EndAddr := ((SM SMc).StartAddr + (SM SMc).SMlength) % 2 ^ 16

/-- More sync managers whose addresses connect. -/
def gatherSm (SM : ℕ → SyncManager) (ty bits : ℕ) : (fuel : ℕ) → SmScan → SmScan
  | 0, scan => scan
  | fuel + 1, scan =>
    if scan.BitCount < bits ∧ scan.SMc < EC_MAXSM - 1 then
      let SMc := nextSm SM ty EC_MAXSM (scan.SMc + 1)
      if scan.EndAddr < (SM SMc).StartAddr then { scan with SMc := SMc }
      else gatherSm SM ty bits fuel (scan.add SM SMc)
    else scan

/-- The position in the logical address space. -/
structure LogPos where
  LogAddr : ℕ
  BitPos : ℕ
deriving Repr, DecidableEq

/-- The next byte if the bit position has run over. -/
def LogPos.carry (p : LogPos) : LogPos :=
  if 7 < p.BitPos then ⟨p.LogAddr + 1, p.BitPos - 8⟩ else p

/-- The next byte boundary. -/
def LogPos.round (p : LogPos) : LogPos := if p.BitPos ≠ 0 then ⟨p.LogAddr + 1, 0⟩ else p

/-- What one direction of a slave needs: the type of its sync managers and of its FMMUs, and its size. -/
structure Direction where
  smtype : ℕ
  fmmutype : ℕ
  bits : ℕ
  bytes : ℕ
deriving Repr, DecidableEq

/-- The state of the loop over the FMMUs. `mapped` is the place of the data and its start bit. -/
structure MapLoop where
  scan : SmScan
  FMMUdone : ℕ
  FMMUc : ℕ
  FMMU : ℕ → Fmmu
  pos : LogPos
  mapped : Option (ℕ × ℕ)

/-- The logical area of one FMMU for the sync managers counted, and the position behind it. -/
def fmmuArea (d : Direction) (ByteCount FMMUdone : ℕ) (pos : LogPos) : Fmmu × LogPos :=
  if d.bytes = 0 then
    let last := (LogPos.mk pos.LogAddr (pos.BitPos + (d.bits - 1))).carry
    ({ Fmmu.init with
        LogStart := pos.LogAddr
        LogStartbit := pos.BitPos
        LogLength := last.LogAddr - pos.LogAddr + 1
        LogEndbit := last.BitPos },
      (LogPos.mk last.LogAddr (last.BitPos + 1)).carry)
  else
    let start := pos.round
    let size := if d.bytes < ByteCount + FMMUdone then d.bytes - FMMUdone else ByteCount
    ({ Fmmu.init with
        LogStart := start.LogAddr
        LogStartbit := start.BitPos
        LogLength := size
        LogEndbit := 7 },
      ⟨start.LogAddr + size, 0⟩)

/-- The next FMMU is programmed, for memory that starts at `PhysStart`. -/
def programFmmu (d : Direction) (PhysStart : ℕ) (scan : SmScan) (st : MapLoop) : MapLoop :=
  let area := (fmmuArea d scan.ByteCount st.FMMUdone st.pos).1
  let old := st.FMMU st.FMMUc
  let fmmu := { area with
    PhysStart := PhysStart
    PhysStartBit := if area.LogLength ≠ 0 then 0 else old.PhysStartBit
    FMMUtype := if area.LogLength ≠ 0 then d.fmmutype else old.FMMUtype
    FMMUactive := if area.LogLength ≠ 0 then 1 else old.FMMUactive }
  { scan := scan
    FMMUdone := st.FMMUdone + area.LogLength
    FMMUc := st.FMMUc + 1
    FMMU := Function.update st.FMMU st.FMMUc fmmu
    pos := (fmmuArea d scan.ByteCount st.FMMUdone st.pos).2
    mapped := st.mapped.orElse fun _ => some (area.LogStart, area.LogStartbit) }

/-- One round of the loop: the next sync managers, and an FMMU for them. -/
def mapFmmu (SM : ℕ → SyncManager) (d : Direction) (st : MapLoop) : MapLoop :=
  let SMc := nextSm SM d.smtype EC_MAXSM st.scan.SMc
  programFmmu d (SM SMc).StartAddr (gatherSm SM d.smtype d.bits EC_MAXSM (st.scan.add SM SMc)) st

/-- The loop over the FMMUs, `fuel` of which are left; `none` when the slave has too few. -/
def mapFmmus (SM : ℕ → SyncManager) (d : Direction) : (fuel : ℕ) → MapLoop → Option MapLoop
  | fuel, st =>
    if st.FMMUdone < (d.bits + 7) / 8 then
      match fuel with
      | 0 => none
      | fuel + 1 => mapFmmus SM d fuel (mapFmmu SM d st)
    else some st

def MapLoop.start (FMMUc : ℕ) (FMMU : ℕ → Fmmu) (pos : LogPos) (mapped : Option (ℕ × ℕ)) : MapLoop where
  scan := ⟨0, 0, 0, 0⟩
  FMMUdone := 0
  FMMUc := FMMUc
  FMMU := FMMU
  pos := pos
  mapped := mapped

/-- `ecx_config_create_output_mappings` -/
def createOutputMappings (s : MapSlave) (pos : LogPos) : Option (MapSlave × LogPos) :=
  let start := MapLoop.start s.FMMUunused s.FMMU pos (s.outputs.map fun o => (o, s.Ostartbit))
  (mapFmmus s.SM ⟨3, 2, s.Obits, s.Obytes⟩ (EC_MAXFMMU - s.FMMUunused) start).map fun st =>
    ({ s with
        FMMU := st.FMMU
        FMMUunused := st.FMMUc
        outputs := st.mapped.map Prod.fst
        Ostartbit := (st.mapped.map Prod.snd).getD s.Ostartbit }, st.pos)

/-- The first FMMU from `FMMUc` on that has no logical address. -/
def freeFmmu (FMMU : ℕ → Fmmu) : (fuel FMMUc : ℕ) → ℕ
  | 0, FMMUc => FMMUc
  | fuel + 1, FMMUc => if (FMMU FMMUc).LogStart ≠ 0 then freeFmmu FMMU fuel (FMMUc + 1) else FMMUc

/-- `ecx_config_create_input_mappings` -/
def createInputMappings (s : MapSlave) (pos : LogPos) : Option (MapSlave × LogPos) :=
  let FMMUc := if s.Obits ≠ 0 then freeFmmu s.FMMU (EC_MAXFMMU - s.FMMUunused) s.FMMUunused
    else s.FMMUunused
  let start := MapLoop.start FMMUc s.FMMU pos (s.inputs.map fun i => (i, s.Istartbit))
  (mapFmmus s.SM ⟨4, 1, s.Ibits, s.Ibytes⟩ (EC_MAXFMMU - FMMUc) start).map fun st =>
    ({ s with
        FMMU := st.FMMU
        FMMUunused := st.FMMUc
        inputs := st.mapped.map Prod.fst
        Istartbit := (st.mapped.map Prod.snd).getD s.Istartbit }, st.pos)

/-- The FMMUs of type `ty` that are active. -/
def MapSlave.activeFmmus (s : MapSlave) (ty : ℕ) : List Fmmu :=
  ((List.range EC_MAXFMMU).map s.FMMU).filter fun f => f.FMMUactive = 1 ∧ f.FMMUtype = ty

end EcatMaster.Soem
