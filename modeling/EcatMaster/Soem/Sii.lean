import EcatMaster.Lib.Query
import EcatMaster.Soem.Fmmu
import EcatMaster.Utils.Io

/-! # The EEPROM of a slave

What a slave is, the master reads in its EEPROM, byte by byte and through a cache that is for one slave at
a time. The EEPROM is a list of sections, and each has its own reader.
-/

namespace EcatMaster.Soem
set_option autoImplicit false
open ByteBuf

def EC_MAXEEPBITMAP : ℕ := 128
def EC_MAXEEPBUF : ℕ := EC_MAXEEPBITMAP * 2 ^ 5
def EC_MAXEEPDO : ℕ := 0x200
def ECT_SII_START : UInt16 := 0x0040
def ECT_SII_FMMU : UInt16 := 40
def ECT_SII_SM : UInt16 := 41
def ECT_SII_PDO : UInt16 := 50

/-! ## The cache -/

/-- A slave that answers with 8 bytes or with 4, and its EEPROM. -/
structure SiiSlave where
  eep_8byte : Bool
  rom : ℕ → UInt8

/-- `ecx_readeepromFP`: the bytes of `edat64`, of which a slave without 8 bytes sends the first half -/
def SiiSlave.readeeprom (s : SiiSlave) (eadr : ℕ) : List UInt8 :=
  (List.range 8).map fun j => if s.eep_8byte ∨ j < 4 then s.rom (2 * eadr + j) else 0

/-- The fields of `ecx_contextt` that are the cache. -/
structure EsiCache where
  esibuf : List UInt8
  esimap : ℕ → ℕ
  esislave : ℕ

def EsiCache.start : EsiCache := ⟨List.replicate EC_MAXEEPBUF 0, fun _ => 0, 0⟩

/-- The bitmap with the bits of `cnt` bytes set, from bit `mapb` of word `mapw` on. -/
def setesimap : (cnt mapw mapb : ℕ) → (esimap : ℕ → ℕ) → ℕ → ℕ
  | 0, _, _, esimap => esimap
  | cnt + 1, mapw, mapb, esimap =>
    let esimap := Function.update esimap mapw (esimap mapw ||| 2 ^ mapb)
    if 31 < mapb + 1 then setesimap cnt (mapw + 1) 0 esimap else setesimap cnt mapw (mapb + 1) esimap

/-- `ecx_siigetbyte` -/
def siigetbyte (slaves : ℕ → SiiSlave) (slave : ℕ) (address : UInt16) (c : EsiCache) : UInt8 × EsiCache :=
  let c := if slave ≠ c.esislave then { c with esimap := fun _ => 0, esislave := slave } else c
  let address := address.toNat
  if address < EC_MAXEEPBUF then
    let mapw := address / 2 ^ 5
    let mapb := address - mapw * 2 ^ 5
    if (c.esimap mapw).testBit mapb then (byteAt c.esibuf address, c)
    else
      let eadr := address / 2
      let cnt := if (slaves slave).eep_8byte then 8 else 4
      let esibuf := put c.esibuf (eadr * 2) (((slaves slave).readeeprom eadr).take cnt)
      let mapw := eadr / 2 ^ 4
      let mapb := eadr * 2 - mapw * 2 ^ 5
      (byteAt esibuf address, { c with esibuf := esibuf, esimap := setesimap cnt mapw mapb c.esimap })
  else (0xff, c)

/-! ## The sections -/

/-- What is read byte by byte. -/
abbrev SiiReader := Query UInt16 UInt8

/-- Two bytes, the low one first. -/
def siigetword (a : UInt16) : SiiReader UInt16 := do
  let lo ← Query.get a
  let hi ← Query.get (a + 1)
  return lo.toUInt16 + (hi.toUInt16 <<< (8 : UInt16))

/-- The loop over the sections; `none` when `fuel` sections have not ended it. -/
def siifindFrom (cat : UInt16) : (fuel : ℕ) → (a p : UInt16) → SiiReader (Option UInt16)
  | 0, _, _ => return none
  | fuel + 1, a, p =>
    if p ≠ cat ∧ p ≠ 0xffff then do
      let len ← siigetword a
      let a := a + 2 + (len <<< (1 : UInt16))
      let p ← siigetword a
      siifindFrom cat fuel (a + 2) p
    else return some (if p ≠ cat then 0 else a)

/-- `ecx_siifind` -/
def siifind (fuel : ℕ) (cat : UInt16) : SiiReader (Option UInt16) := do
  let a := ECT_SII_START <<< 1
  let p ← siigetword a
  siifindFrom cat fuel (a + 2) p

/-- `ec_eepromFMMUt` -/
structure EepromFMMU where
  Startpos : UInt16
  nFMMU : UInt8
  FMMU0 : UInt8
  FMMU1 : UInt8
  FMMU2 : UInt8
  FMMU3 : UInt8
deriving Repr, DecidableEq

/-- The FMMU section at `a`; the high byte of its length does not fit in `nFMMU`. -/
def siiFMMUAt (a : UInt16) : SiiReader EepromFMMU := do
  let lo ← Query.get a
  let _ ← Query.get (a + 1)
  let nFMMU := lo * 2
  let FMMU0 ← Query.get (a + 2)
  let FMMU1 ← Query.get (a + 3)
  if 2 < nFMMU then do
    let FMMU2 ← Query.get (a + 4)
    let FMMU3 ← Query.get (a + 5)
    return ⟨a, nFMMU, FMMU0, FMMU1, FMMU2, FMMU3⟩
  else return ⟨a, nFMMU, FMMU0, FMMU1, 0, 0⟩

/-- `ecx_siiFMMU` -/
def siiFMMU (fuel : ℕ) : SiiReader (Option EepromFMMU) := do
  match ← siifind fuel ECT_SII_FMMU with
  | none => return none
  | some a => if 0 < a then some <$> siiFMMUAt a else return some ⟨a, 0, 0, 0, 0, 0⟩

/-- A sync manager of `ec_eepromSMt`. -/
structure EepromSM where
  PhStart : UInt16
  Plength : UInt16
  Creg : UInt8
  Sreg : UInt8
  Activate : UInt8
  PDIctrl : UInt8
deriving Repr, DecidableEq

/-- A sync manager at `a`. -/
def siiSMAt (a : UInt16) : SiiReader EepromSM := do
  let PhStart ← siigetword a
  let Plength ← siigetword (a + 2)
  let Creg ← Query.get (a + 4)
  let Sreg ← Query.get (a + 5)
  let Activate ← Query.get (a + 6)
  let PDIctrl ← Query.get (a + 7)
  return ⟨PhStart, Plength, Creg, Sreg, Activate, PDIctrl⟩

/-- `ecx_siiSM`: `Startpos`, `nSM` and the first sync manager; `SM` is what is there before -/
def siiSM (fuel : ℕ) (SM : EepromSM) : SiiReader (Option (UInt16 × UInt8 × EepromSM)) := do
  match ← siifind fuel ECT_SII_SM with
  | none => return none
  | some a =>
    if 0 < a then do
      let w ← siigetword a
      let SM ← siiSMAt (a + 2)
      return some (a, (w / 4).toUInt8, SM)
    else return some (a, 0, SM)

/-- `ecx_siiSMnext` -/
def siiSMnext (Startpos : UInt16) (nSM : UInt8) (SM : EepromSM) (n : UInt16) :
    SiiReader (UInt16 × EepromSM) :=
  if n < nSM.toUInt16 then do
    let SM ← siiSMAt (Startpos + 2 + n * 8)
    return (1, SM)
  else return (0, SM)

/-- The other sync managers, from number `SMc` on. -/
def siiSMs (Startpos : UInt16) (nSM : UInt8) : (fuel : ℕ) → (SMc : UInt16) → EepromSM → SiiReader (List EepromSM)
  | 0, _, _ => return []
  | fuel + 1, SMc, SM => do
    let (retVal, SM) ← siiSMnext Startpos nSM SM SMc
    if retVal ≠ 0 then do
      let rest ← siiSMs Startpos nSM fuel (SMc + 1) SM
      return SM :: rest
    else return []

/-- The sync managers that `ecx_config_init` takes from the EEPROM, at most `EC_MAXSM`; `eepSM` is left from
the slave before -/
def configSMs (fuel : ℕ) (eepSM : EepromSM) : SiiReader (Option (List EepromSM)) := do
  match ← siiSM fuel eepSM with
  | none => return none
  | some (Startpos, nSM, SM) =>
    if 0 < nSM then do
      let rest ← siiSMs Startpos nSM (EC_MAXSM - 1) 1 SM
      return some (SM :: rest)
    else return some []

/-- The SM section and the FMMU section, in the order of `ecx_config_init` -/
def configSii (fuel : ℕ) (eepSM : EepromSM) : SiiReader (Option (List EepromSM × EepromFMMU)) := do
  match ← configSMs fuel eepSM with
  | none => return none
  | some SMs =>
    match ← siiFMMU fuel with
    | none => return none
    | some FMMU => return some (SMs, FMMU)

/-- The part of `ec_eepromPDOt` that is for one PDO. -/
structure SiiPDO where
  Index : UInt16
  SyncM : UInt16
  BitSize : UInt16
deriving Repr, DecidableEq

/-- `ec_eepromPDOt`, with the PDOs that have been found, and the size that `ecx_siiPDO` returns. -/
structure EepromPDO where
  Startpos : UInt16
  Length : UInt16
  PDOs : List SiiPDO
  SMbitsize : ℕ → UInt16
  Size : UInt16

def siiEntries : (e : ℕ) → (a BitSize : UInt16) → SiiReader UInt16
  | 0, _, BitSize => return BitSize
  | e + 1, a, BitSize => do
    let bits ← Query.get (a + 5)
    siiEntries e (a + 8) (BitSize + bits.toUInt16)

/-- The bits of a PDO; one that is deactivated has none. -/
def siiBitSize (SyncM e : UInt8) (a : UInt16) : SiiReader UInt16 :=
  if SyncM < 8 then siiEntries e.toNat a 0 else return 0

/-- One PDO, the address behind it, and the words counted. -/
def siiPDOAt (a c : UInt16) : SiiReader (SiiPDO × UInt16 × UInt16) := do
  let Index ← siigetword a
  let e ← Query.get (a + 2)
  let SyncM ← Query.get (a + 3)
  let BitSize ← siiBitSize SyncM e (a + 8)
  return (⟨Index, SyncM.toUInt16, BitSize⟩, a + 8 + 8 * e.toUInt16, c + 4 + 4 * e.toUInt16)

/-- A PDO is recorded; if it is active it counts for its sync manager. -/
def EepromPDO.add (PDO : EepromPDO) (p : SiiPDO) : EepromPDO :=
  let PDO := { PDO with PDOs := PDO.PDOs ++ [p] }
  if p.SyncM < 8 then
    { PDO with
      SMbitsize := Function.update PDO.SMbitsize p.SyncM.toNat (PDO.SMbitsize p.SyncM.toNat + p.BitSize)
      Size := PDO.Size + p.BitSize }
  else PDO

/-- The loop over the PDOs, whose body runs at least once and at most `EC_MAXEEPDO - 1` times. -/
def siiPDOs : (fuel : ℕ) → (a c : UInt16) → EepromPDO → SiiReader EepromPDO
  | 0, _, _, PDO => return PDO
  | fuel + 1, a, c, PDO => do
    let (p, a, c) ← siiPDOAt a c
    let PDO := PDO.add p
    let c := if EC_MAXEEPDO - 1 ≤ PDO.PDOs.length then PDO.Length else c
    if c < PDO.Length then siiPDOs fuel a c PDO else return PDO

/-- `ecx_siiPDO` -/
def siiPDO (fuel : ℕ) (t : UInt8) : SiiReader (Option EepromPDO) := do
  let t := if 1 < t then 1 else t
  match ← siifind fuel (ECT_SII_PDO + t.toUInt16) with
  | none => return none
  | some a =>
    if 0 < a then do
      let Length ← siigetword a
      some <$> siiPDOs (EC_MAXEEPDO - 1) (a + 2) 1 ⟨a, Length, [], fun _ => 0, 0⟩
    else return some ⟨a, 0, [], fun _ => 0, 0⟩

/-! ## The process data of a slave -/

/-- The sync managers that have data get their length and their type. -/
def setSMs (SMtype : ℕ) (SMbitsize : ℕ → UInt16) (SM : ℕ → SyncManager) (nSM : ℕ) : SyncManager :=
  if nSM < EC_MAXSM ∧ 0 < SMbitsize nSM then
    { SM nSM with SMlength := ((SMbitsize nSM).toNat + 7) / 8, SMtype := SMtype }
  else SM nSM

/-- A slave of `slavelist`: its identity and its process data. -/
structure ListedSlave where
  eep_man : UInt32
  eep_id : UInt32
  eep_rev : UInt32
  io : MapSlave

namespace ListedSlave
variable (i s : ListedSlave)

def sameId : Prop := i.eep_man = s.eep_man ∧ i.eep_id = s.eep_id ∧ i.eep_rev = s.eep_rev

instance : Decidable (i.sameId s) := inferInstanceAs (Decidable (_ ∧ _))

/-- Its process data is not known. -/
def Unknown : Prop := s.io.Ibits = 0 ∧ s.io.Obits = 0

instance : Decidable s.Unknown := inferInstanceAs (Decidable (_ ∧ _))

def setIo (SM : ℕ → SyncManager) (Obits Ibits : ℕ) : ListedSlave :=
  { s with io := { s.io with SM := SM, Obits := Obits, Ibits := Ibits } }

def copySM (nSM : ℕ) : SyncManager :=
  if nSM < EC_MAXSM then
    { s.io.SM nSM with SMlength := (i.io.SM nSM).SMlength, SMtype := (i.io.SM nSM).SMtype }
  else s.io.SM nSM

/-- The slave with the mapping of `i`. -/
def copyMapping : ListedSlave := s.setIo (i.copySM s) i.io.Obits i.io.Ibits

end ListedSlave

/-- `ecx_lookup_mapping`: the mapping of the first slave before `s` that has its identity -/
def lookupMapping (before : List ListedSlave) (s : ListedSlave) : ListedSlave :=
  match before.find? fun i => i.sameId s with
  | none => s
  | some i => i.copyMapping s

/-- `ecx_map_sii`: an unknown mapping is looked up in the slaves before it, then in its own EEPROM -/
def mapSii (fuel : ℕ) (before : List ListedSlave) (s : ListedSlave) : SiiReader (Option ListedSlave) :=
  let s := if s.Unknown then lookupMapping before s else s
  if s.Unknown then do
    match ← siiPDO fuel 0 with
    | none => return none
    | some I =>
      match ← siiPDO fuel 1 with
      | none => return none
      | some O =>
        let SM := setSMs 3 O.SMbitsize (setSMs 4 I.SMbitsize s.io.SM)
        return some (s.setIo SM O.Size.toNat I.Size.toNat)
  else return some s

/-- The loop over the slaves in `ecx_config_find_mappings` that calls `ecx_map_sii`. What `ecx_map_sm` does
between two calls leaves the sizes, lengths and types that are looked up. -/
def findMappings (slaves : ℕ → SiiSlave) (fuel : ℕ) :
    (before rest : List ListedSlave) → EsiCache → Option (List ListedSlave) × EsiCache
  | before, [], c => (some before, c)
  | before, s :: rest, c =>
    match (mapSii fuel before s).run (siigetbyte slaves (before.length + 1)) c with
    | (none, c) => (none, c)
    | (some s, c) => findMappings slaves fuel (before ++ [s]) rest c

end EcatMaster.Soem
