import EcatMaster.Lib.Query
import EcatMaster.Soem.Coe
import EcatMaster.Soem.Fmmu
import EcatMaster.Utils.Codec

/-! # The process data of a slave, from its objects

A slave with an object dictionary lists there its sync managers, the PDOs that are assigned to them, and the
entries of the PDOs. `ecx_readPDOmap` reads them one by one, `ecx_readPDOmapCA` a whole object at a time.
-/

namespace EcatMaster.Soem
set_option autoImplicit false
open ByteBuf

def ECT_SDO_SMCOMMTYPE : UInt16 := 0x1c00
def ECT_SDO_PDOASSIGN : UInt16 := 0x1c10
def ECT_COEDET_SDOCA : UInt8 := 0x20

/-- A call of `ecx_SDOread` for the variable `p`, or of `ecx_packeterror`. -/
inductive CoeCall
  | SDOread (index : UInt16) (subindex : UInt8) (CA : Bool) (p : List UInt8)
  | packeterror (Index : UInt16) (SubIdx : UInt8) (ErrorCode : ℕ)
deriving Repr, DecidableEq

/-- What reads objects: a call returns the working counter and the variable. -/
abbrev CoeReader := Query CoeCall (ℤ × List UInt8)

/-- A variable of `psize` bytes, which is zero before. -/
def readObject (index : UInt16) (subindex : UInt8) (psize : ℕ) : CoeReader (ℤ × ℕ) := do
  let (wkc, p) ← Query.get (.SDOread index subindex false (List.replicate psize 0))
  return (wkc, leNat p)

/-- A whole object, into the structure `p` whose first byte `n` is cleared. -/
def readStruct (index : UInt16) (p : List UInt8) : CoeReader (ℤ × List UInt8) :=
  Query.get (.SDOread index 0 true (put p 0 [0]))

/-- The calls with the mailbox of a slave. -/
def coeAnswer {σ : Type} (m : Mailbox σ) (timeout : ℕ) : CoeCall → Coe σ → Option ((ℤ × List UInt8) × Coe σ)
  | .SDOread index subindex CA p, st =>
    (sdoRead m timeout index subindex CA p.length p p.length st).map
      fun (result, st) => ((result.wkc, result.p), st)
  | .packeterror Index SubIdx ErrorCode, st =>
    some ((0, []), { st with errors := st.errors ++ [.packet Index SubIdx ErrorCode] })

/-! ## Object by object -/

/-- The loop over the entries of PDO `idx`, with `cnt` of them left. -/
def readPDOentries (idx : UInt16) : (cnt subidxloop : ℕ) → (bsize : UInt32) → CoeReader UInt32
  | 0, _, bsize => return bsize
  | cnt + 1, subidxloop, bsize => do
    let (_, rdat2) ← readObject idx (UInt8.ofNat subidxloop) 4
    let bits := if rdat2 % 2 ^ 8 < 0xff then rdat2 % 2 ^ 8 else 0xff
    readPDOentries idx cnt (subidxloop + 1) (bsize + UInt32.ofNat bits)

def readPDO (idx : ℕ) (bsize : UInt32) : CoeReader UInt32 :=
  if 0 < idx then do
    let (_, subcnt) ← readObject (UInt16.ofNat idx) 0 1
    readPDOentries (UInt16.ofNat idx) subcnt 1 bsize
  else return bsize

/-- The loop over the PDOs that are assigned, with `cnt` of them left. -/
def readPDOs (PDOassign : UInt16) : (cnt idxloop : ℕ) → (bsize : UInt32) → CoeReader UInt32
  | 0, _, bsize => return bsize
  | cnt + 1, idxloop, bsize => do
    let (_, idx) ← readObject PDOassign (UInt8.ofNat idxloop) 2
    let bsize ← readPDO idx bsize
    readPDOs PDOassign cnt (idxloop + 1) bsize

/-- `ecx_readPDOassign`, with less than 65535 PDOs: there the loop counter of the source never ends. -/
def readPDOassign (PDOassign : UInt16) : CoeReader UInt32 := do
  let (wkc, nidx) ← readObject PDOassign 0 2
  if 0 < wkc ∧ 0 < nidx then readPDOs PDOassign nidx 1 0 else return 0

/-- What the loop over the sync managers changes. -/
structure PdoMap where
  SM : ℕ → SyncManager
  Osize : UInt32
  Isize : UInt32
  SMt_bug_add : UInt8

/-- The type of a sync manager, corrected where the slave is known to be wrong: where SM2 has type 2, the types
are 0 1 2 3 and should be 1 2 3 4. -/
def correctSMtypeCA (iSM : ℕ) (tSM SMt_bug_add : UInt8) : UInt8 × UInt8 :=
  let SMt_bug_add := if iSM = 2 ∧ tSM = 2 then 1 else SMt_bug_add
  let tSM := if tSM ≠ 0 then tSM + SMt_bug_add else tSM
  (tSM, SMt_bug_add)

/-- The correction of `ecx_readPDOmap`, where a type 0 of SM2 or SM3 is wrong too. -/
def correctSMtype (iSM : ℕ) (tSM SMt_bug_add : UInt8) : UInt8 × UInt8 :=
  let (tSM, SMt_bug_add) := correctSMtypeCA iSM tSM SMt_bug_add
  let tSM := if iSM = 2 ∧ tSM = 0 then 3 else tSM
  let tSM := if iSM = 3 ∧ tSM = 0 then 4 else tSM
  (tSM, SMt_bug_add)

def PdoMap.setType (st : PdoMap) (iSM : ℕ) (tSM SMt_bug_add : UInt8) : PdoMap :=
  { st with
    SM := Function.update st.SM iSM { st.SM iSM with SMtype := tSM.toNat }
    SMt_bug_add := SMt_bug_add }

/-- The size of a sync manager, if a mapping is found. -/
def PdoMap.setSize (st : PdoMap) (iSM : ℕ) (tSM : UInt8) (Tsize : UInt32) : PdoMap :=
  if Tsize ≠ 0 then
    { st with
      SM := Function.update st.SM iSM { st.SM iSM with SMlength := ((Tsize + 7) / 8).toNat % 2 ^ 16 }
      Osize := if tSM = 3 then st.Osize + Tsize else st.Osize
      Isize := if tSM = 3 then st.Isize else st.Isize + Tsize }
  else st

def readSM (iSM : ℕ) (st : PdoMap) : CoeReader PdoMap := do
  let (wkc, tSM) ← readObject ECT_SDO_SMCOMMTYPE (UInt8.ofNat (iSM + 1)) 1
  if 0 < wkc then
    let (tSM, SMt_bug_add) := correctSMtype iSM (UInt8.ofNat tSM) st.SMt_bug_add
    let st := st.setType iSM tSM SMt_bug_add
    if tSM = 3 ∨ tSM = 4 then do
      let Tsize ← readPDOassign (ECT_SDO_PDOASSIGN + UInt16.ofNat iSM)
      return st.setSize iSM tSM Tsize
    else return st
  else return st

/-- The loop over the sync managers, with `cnt` of them left. -/
def readSMs : (cnt iSM : ℕ) → PdoMap → CoeReader PdoMap
  | 0, _, st => return st
  | cnt + 1, iSM, st => do
    let st ← readSM iSM st
    readSMs cnt (iSM + 1) st

def PdoMap.retVal (st : PdoMap) : ℤ := if 0 < st.Isize ∨ 0 < st.Osize then 1 else 0

/-- `ecx_readPDOmap` -/
def readPDOmap (SM : ℕ → SyncManager) : CoeReader (ℤ × PdoMap) := do
  let (wkc, nSM) ← readObject ECT_SDO_SMCOMMTYPE 0 1
  let st : PdoMap := ⟨SM, 0, 0, 0⟩
  if 0 < wkc ∧ 2 < nSM then do
    let st ← readSMs (min nSM EC_MAXSM - 2) 2 st
    return (st.retVal, st)
  else return (st.retVal, st)

/-! ## Complete Access -/

/-- The structures of a thread: `ec_SMcommtypet`, `ec_PDOassignt` and `ec_PDOdesct`. Each has the count `n` in
its first byte and its entries from byte 2 on. -/
structure CaStructs where
  SMcommtype : List UInt8
  PDOassign : List UInt8
  PDOdesc : List UInt8

/-- The bit lengths of the entries in `PDOdesc`, with `cnt` of them left from entry `k` on. -/
def descBits (PDOdesc : List UInt8) : (cnt k : ℕ) → (bsize : UInt32) → UInt32
  | 0, _, bsize => bsize
  | cnt + 1, k, bsize => descBits PDOdesc cnt (k + 1) (bsize + (byteAt PDOdesc (2 + 4 * k)).toUInt32)

/-- The loop over the PDOs in `PDOassign`, with `cnt` of them left from entry `k` on. -/
def readPDOsCA (PDOassign : List UInt8) : (cnt k : ℕ) → (bsize : UInt32) → (PDOdesc : List UInt8) →
    CoeReader (UInt32 × List UInt8)
  | 0, _, bsize, PDOdesc => return (bsize, PDOdesc)
  | cnt + 1, k, bsize, PDOdesc =>
    let idx := (readUint16 PDOassign (2 + 2 * k)).1
    if 0 < idx then do
      let (_, PDOdesc) ← readStruct idx PDOdesc
      readPDOsCA PDOassign cnt (k + 1) (descBits PDOdesc (byteAt PDOdesc 0).toNat 0 bsize) PDOdesc
    else readPDOsCA PDOassign cnt (k + 1) bsize PDOdesc

/-- `ecx_readPDOassignCA` -/
def readPDOassignCA (PDOassign : UInt16) (ca : CaStructs) : CoeReader (UInt32 × CaStructs) := do
  let (wkc, assign) ← readStruct PDOassign ca.PDOassign
  if 0 < wkc ∧ 0 < byteAt assign 0 then do
    let (bsize, desc) ← readPDOsCA assign (byteAt assign 0).toNat 0 0 ca.PDOdesc
    return (bsize, { ca with PDOassign := assign, PDOdesc := desc })
  else return (0, { ca with PDOassign := assign })

def readSMCA (iSM : ℕ) (st : PdoMap) (ca : CaStructs) : CoeReader (PdoMap × CaStructs) :=
  let (tSM, SMt_bug_add) := correctSMtypeCA iSM (byteAt ca.SMcommtype (2 + iSM)) st.SMt_bug_add
  let st := st.setType iSM tSM SMt_bug_add
  if tSM = 3 ∨ tSM = 4 then do
    let (Tsize, ca) ← readPDOassignCA (ECT_SDO_PDOASSIGN + UInt16.ofNat iSM) ca
    return (st.setSize iSM tSM Tsize, ca)
  else return (st, ca)

def readSMsCA : (cnt iSM : ℕ) → PdoMap → CaStructs → CoeReader (PdoMap × CaStructs)
  | 0, _, st, ca => return (st, ca)
  | cnt + 1, iSM, st, ca => do
    let (st, ca) ← readSMCA iSM st ca
    readSMsCA cnt (iSM + 1) st ca

/-- The number of sync managers: more than `EC_MAXSM` of them are an error. -/
def limitSM (nSM : ℕ) : CoeReader ℕ :=
  if EC_MAXSM < nSM then do
    let _ ← Query.get (.packeterror 0 0 10)
    return EC_MAXSM
  else return nSM

/-- `ecx_readPDOmapCA` -/
def readPDOmapCA (SM : ℕ → SyncManager) (ca : CaStructs) : CoeReader (ℤ × PdoMap × CaStructs) := do
  let (wkc, types) ← readStruct ECT_SDO_SMCOMMTYPE ca.SMcommtype
  let ca := { ca with SMcommtype := types }
  let st : PdoMap := ⟨SM, 0, 0, 0⟩
  if 0 < wkc ∧ 2 < byteAt types 0 then do
    let nSM ← limitSM (byteAt types 0).toNat
    let (st, ca) ← readSMsCA (nSM - 2) 2 st ca
    return (st.retVal, st, ca)
  else return (st.retVal, st, ca)

/-! ## The slave -/

/-- The mapping of a slave with CoE: by Complete Access, and object by object where that is not available or
finds nothing. -/
def readMapping (CoEdetails : UInt8) (SM : ℕ → SyncManager) (ca : CaStructs) : CoeReader (PdoMap × CaStructs) :=
  if CoEdetails &&& ECT_COEDET_SDOCA ≠ 0 then do
    let (rval, st, ca) ← readPDOmapCA SM ca
    if rval = 0 then do
      let (_, st) ← readPDOmap st.SM
      return (st, ca)
    else return (st, ca)
  else do
    let (_, st) ← readPDOmap SM
    return (st, ca)

/-- What `ecx_map_coe_soe` does with it, for a slave with CoE. -/
def mapCoe (CoEdetails : UInt8) (ca : CaStructs) (s : MapSlave) : CoeReader (MapSlave × CaStructs) := do
  let (st, ca) ← readMapping CoEdetails s.SM ca
  return ({ s with SM := st.SM, Obits := st.Osize.toNat % 2 ^ 16, Ibits := st.Isize.toNat % 2 ^ 16 }, ca)

end EcatMaster.Soem
