import EcatMaster.Properties.SiiSections

/-! # The process data that an EEPROM describes

The PDO sections list the PDOs with their entries. The master gets from them the bits of each sync manager
and of each direction.
-/

namespace EcatMaster.Soem
set_option autoImplicit false
open ByteBuf

/-! ## PDOs in the EEPROM -/

structure EntryDescription where
  Index : UInt16
  SubIndex : UInt8
  Name : UInt8
  DataType : UInt8
  BitLen : UInt8
  Flags : UInt16
deriving Repr, DecidableEq

def EntryDescription.bytes (e : EntryDescription) : List UInt8 :=
  le16 e.Index ++ ([e.SubIndex, e.Name, e.DataType, e.BitLen] ++ le16 e.Flags)

structure PdoDescription where
  Index : UInt16
  SyncM : UInt8
  Synchronization : UInt8
  Name : UInt8
  Flags : UInt16
  entries : List EntryDescription
deriving Repr, DecidableEq

namespace PdoDescription

def bytes (p : PdoDescription) : List UInt8 :=
  le16 p.Index ++ ([UInt8.ofNat p.entries.length, p.SyncM, p.Synchronization, p.Name] ++
    (le16 p.Flags ++ p.entries.flatMap EntryDescription.bytes))

/-- The bits of its entries. -/
def bits (p : PdoDescription) : ℕ := (p.entries.map fun e => e.BitLen.toNat).sum

/-- The bits it has on sync manager `k`; one with another number is not active. -/
def bitsOn (k : ℕ) (p : PdoDescription) : ℕ := if p.SyncM.toNat = k ∧ k < EC_MAXSM then p.bits else 0

/-- Its bits, if it is active. -/
def activeBits (p : PdoDescription) : ℕ := if p.SyncM.toNat < EC_MAXSM then p.bits else 0

/-- What the master records. -/
def found (p : PdoDescription) : SiiPDO :=
  ⟨p.Index, p.SyncM.toUInt16, if p.SyncM < 8 then UInt16.ofNat p.bits else 0⟩

theorem bytes_length (p : PdoDescription) : p.bytes.length = 8 + 8 * p.entries.length := by
  have hentries (es : List EntryDescription) :
      (es.flatMap EntryDescription.bytes).length = 8 * es.length := by
    induction es with
    | nil => rfl
    | cons e es ih =>
      rw [List.flatMap_cons, List.length_append, ih, List.length_cons]
      change 8 + 8 * es.length = _
      omega
  have hhead : p.bytes.length = 8 + (p.entries.flatMap EntryDescription.bytes).length := by
    simp only [bytes, List.length_append, List.length_cons, List.length_nil, le16]
    omega
  rw [hhead, hentries]

end PdoDescription

/-! ## One PDO -/

theorem ofNat_byte (b : UInt8) : UInt16.ofNat b.toNat = b.toUInt16 := by
  apply UInt16.toNat_inj.mp
  have hb := b.toNat_lt
  rw [UInt16.toNat_ofNat', UInt8.toNat_toUInt16, Nat.mod_eq_of_lt (by omega)]

section Readers
variable {rom : ℕ → UInt8} {n : ℕ}

theorem reads_entries {es : List EntryDescription} (h : RomHas rom n (es.flatMap EntryDescription.bytes))
    (hn : n + 8 * es.length + 7 ≤ EC_MAXEEPBUF) (BitSize : ℕ) :
    SiiReads rom (siiEntries es.length (UInt16.ofNat n) (UInt16.ofNat BitSize))
      (UInt16.ofNat (BitSize + (es.map fun e => e.BitLen.toNat).sum)) := by
  induction es generalizing n BitSize with
  | nil => exact Query.Yields.pure _
  | cons e es ih =>
    rw [List.flatMap_cons] at h
    rw [List.length_cons] at hn
    obtain ⟨hentry, hrest⟩ := romHas_append.mp h
    obtain ⟨-, -, -, -, hlen, -⟩ := romHas_word.mp hentry
    have h5 : UInt16.ofNat n + 5 = UInt16.ofNat (n + 5) := addr_add n 5
    have h8 : UInt16.ofNat n + 8 = UInt16.ofNat (n + 8) := addr_add n 8
    have hbits : UInt16.ofNat BitSize + e.BitLen.toUInt16 = UInt16.ofNat (BitSize + e.BitLen.toNat) := by
      rw [UInt16.ofNat_add, ofNat_byte]
    have hsize : e.bytes.length = 8 := rfl
    rw [hsize] at hrest
    rw [List.length_cons, siiEntries, h5, h8]
    refine (reads_byte hlen (by omega)).bind ?_
    rw [hbits, List.map_cons, List.sum_cons, ← Nat.add_assoc]
    exact ih hrest (by omega) _

theorem reads_PDOAt {p : PdoDescription} (h : RomHas rom n p.bytes)
    (hn : n + p.bytes.length + 7 ≤ EC_MAXEEPBUF) (hcount : p.entries.length < 256) (c : ℕ) :
    SiiReads rom (siiPDOAt (UInt16.ofNat n) (UInt16.ofNat c))
      (p.found, UInt16.ofNat (n + p.bytes.length), UInt16.ofNat (c + p.bytes.length / 2)) := by
  rw [p.bytes_length] at hn ⊢
  obtain ⟨hindex, h⟩ := romHas_word.mp h
  obtain ⟨hnum, hsync, -, -, h⟩ := h
  obtain ⟨-, hentries⟩ := romHas_word.mp h
  have h2 : UInt16.ofNat n + 2 = UInt16.ofNat (n + 2) := addr_add n 2
  have h3 : UInt16.ofNat n + 3 = UInt16.ofNat (n + 3) := addr_add n 3
  have h8 : UInt16.ofNat n + 8 = UInt16.ofNat (n + 8) := addr_add n 8
  have hnat : (UInt8.ofNat p.entries.length).toNat = p.entries.length := by
    rw [UInt8.toNat_ofNat', Nat.mod_eq_of_lt hcount]
  have hword : (UInt8.ofNat p.entries.length).toUInt16 = UInt16.ofNat p.entries.length := by
    rw [← ofNat_byte, hnat]
  have hbehind : UInt16.ofNat (n + 8) + 8 * UInt16.ofNat p.entries.length =
      UInt16.ofNat (n + (8 + 8 * p.entries.length)) := by
    rw [← Nat.add_assoc, UInt16.ofNat_add (n + 8), UInt16.ofNat_mul]
    rfl
  have hwords : UInt16.ofNat c + 4 + 4 * UInt16.ofNat p.entries.length =
      UInt16.ofNat (c + (8 + 8 * p.entries.length) / 2) := by
    rw [show c + (8 + 8 * p.entries.length) / 2 = c + 4 + 4 * p.entries.length by omega,
      UInt16.ofNat_add (c + 4), UInt16.ofNat_mul, UInt16.ofNat_add]
    rfl
  have hbits : SiiReads rom (siiBitSize p.SyncM (UInt8.ofNat p.entries.length) (UInt16.ofNat (n + 8)))
      p.found.BitSize := by
    unfold siiBitSize PdoDescription.found
    by_cases hactive : p.SyncM < 8
    · have hsum := reads_entries hentries (by omega) 0
      rw [Nat.zero_add] at hsum
      rw [if_pos hactive, if_pos hactive, hnat]
      exact hsum
    · rw [if_neg hactive, if_neg hactive]
      exact Query.Yields.pure 0
  unfold siiPDOAt
  rw [h2, h3, h8]
  refine (reads_word hindex (by omega)).bind ((reads_byte hnum (by omega)).bind ?_)
  refine (reads_byte hsync (by omega)).bind (hbits.bind ?_)
  rw [hword, hbehind, hwords]
  exact Query.Yields.pure _

end Readers

/-! ## All PDOs of a section -/

namespace EepromPDO
variable (PDO : EepromPDO) (p : PdoDescription)

theorem add_PDOs (q : SiiPDO) : (PDO.add q).PDOs = PDO.PDOs ++ [q] := by
  unfold add
  split <;> rfl

theorem add_Length (q : SiiPDO) : (PDO.add q).Length = PDO.Length := by
  unfold add
  split <;> rfl

theorem found_active : p.found.SyncM < 8 ↔ p.SyncM.toNat < EC_MAXSM := by
  change p.SyncM.toUInt16 < 8 ↔ _
  rw [UInt16.lt_iff_toNat_lt, UInt8.toNat_toUInt16]
  rfl

theorem found_bits (h : p.SyncM.toNat < EC_MAXSM) : p.found.BitSize = UInt16.ofNat p.bits := by
  have hlt : p.SyncM < 8 := UInt8.lt_iff_toNat_lt.mpr h
  exact if_pos hlt

theorem add_SMbitsize (k : ℕ) :
    (PDO.add p.found).SMbitsize k = PDO.SMbitsize k + UInt16.ofNat (p.bitsOn k) := by
  have hnum : p.found.SyncM.toNat = p.SyncM.toNat := UInt8.toNat_toUInt16 _
  unfold add PdoDescription.bitsOn
  by_cases hactive : p.SyncM.toNat < EC_MAXSM
  · rw [if_pos ((found_active p).mpr hactive)]
    dsimp only
    rw [hnum, found_bits p hactive]
    by_cases hk : p.SyncM.toNat = k
    · rw [if_pos ⟨hk, hk ▸ hactive⟩, hk, Function.update_self]
    · rw [if_neg (fun h => hk h.1), Function.update_of_ne (Ne.symm hk)]
      exact (UInt16.add_zero _).symm
  · have hoff : ¬ (p.SyncM.toNat = k ∧ k < EC_MAXSM) := fun h => hactive (h.1 ▸ h.2)
    rw [if_neg (mt (found_active p).mp hactive), if_neg hoff]
    exact (UInt16.add_zero _).symm

theorem add_Size : (PDO.add p.found).Size = PDO.Size + UInt16.ofNat p.activeBits := by
  unfold add PdoDescription.activeBits
  by_cases hactive : p.SyncM.toNat < EC_MAXSM
  · rw [if_pos ((found_active p).mpr hactive), if_pos hactive, found_bits p hactive]
  · rw [if_neg (mt (found_active p).mp hactive), if_neg hactive]
    exact (UInt16.add_zero _).symm

def addAll (pdos : List PdoDescription) : EepromPDO := pdos.foldl (fun PDO p => PDO.add p.found) PDO

theorem addAll_PDOs (pdos : List PdoDescription) :
    (PDO.addAll pdos).PDOs = PDO.PDOs ++ pdos.map PdoDescription.found := by
  induction pdos generalizing PDO with
  | nil => exact (List.append_nil _).symm
  | cons p pdos ih =>
    rw [addAll, List.foldl_cons, ← addAll, ih, add_PDOs, List.map_cons, List.append_assoc,
      List.singleton_append]

theorem addAll_SMbitsize (pdos : List PdoDescription) (k : ℕ) : (PDO.addAll pdos).SMbitsize k =
    PDO.SMbitsize k + UInt16.ofNat (pdos.map (PdoDescription.bitsOn k)).sum := by
  induction pdos generalizing PDO with
  | nil => exact (UInt16.add_zero _).symm
  | cons p pdos ih =>
    rw [addAll, List.foldl_cons, ← addAll, ih, add_SMbitsize, List.map_cons, List.sum_cons, UInt16.ofNat_add,
      UInt16.add_assoc]

theorem addAll_Size (pdos : List PdoDescription) : (PDO.addAll pdos).Size =
    PDO.Size + UInt16.ofNat (pdos.map PdoDescription.activeBits).sum := by
  induction pdos generalizing PDO with
  | nil => exact (UInt16.add_zero _).symm
  | cons p pdos ih =>
    rw [addAll, List.foldl_cons, ← addAll, ih, add_Size, List.map_cons, List.sum_cons, UInt16.ofNat_add,
      UInt16.add_assoc]

end EepromPDO

section Loop
variable {rom : ℕ → UInt8}

theorem pdoBytes_length (pdos : List PdoDescription) :
    8 * pdos.length ≤ (pdos.flatMap PdoDescription.bytes).length ∧
      (pdos.flatMap PdoDescription.bytes).length % 8 = 0 := by
  induction pdos with
  | nil => exact ⟨Nat.le_refl _, rfl⟩
  | cons p pdos ih =>
    rw [List.flatMap_cons, List.length_append, p.bytes_length, List.length_cons]
    omega

/-- The loop ends with the last PDO: the words that are counted are one more than those of the PDOs. -/
theorem reads_PDOs {L : ℕ} : ∀ (pdos : List PdoDescription) {fuel n c : ℕ} (PDO : EepromPDO), pdos ≠ [] →
    RomHas rom n (pdos.flatMap PdoDescription.bytes) →
    n + (pdos.flatMap PdoDescription.bytes).length + 7 ≤ EC_MAXEEPBUF →
    (∀ p ∈ pdos, p.entries.length < 256) → pdos.length ≤ fuel →
    PDO.PDOs.length + pdos.length ≤ EC_MAXEEPDO - 1 → PDO.Length = UInt16.ofNat L →
    c + (pdos.flatMap PdoDescription.bytes).length / 2 = L + 1 → L < 2 ^ 15 →
    SiiReads rom (siiPDOs fuel (UInt16.ofNat n) (UInt16.ofNat c) PDO) (PDO.addAll pdos) := by
  intro pdos
  induction pdos with
  | nil =>
    intro _ _ _ _ hne
    exact absurd rfl hne
  | cons p pdos ih =>
    intro fuel n c PDO _ h hn hcount hfuel hmax hL hc hlt
    obtain ⟨fuel, rfl⟩ : ∃ k, fuel = k + 1 := ⟨fuel - 1, by simp at hfuel; omega⟩
    rw [List.flatMap_cons, List.length_append, p.bytes_length] at hn hc
    rw [List.flatMap_cons] at h
    rw [List.length_cons] at hfuel hmax
    obtain ⟨hfirst, hrest⟩ := romHas_append.mp h
    obtain ⟨hlong, height⟩ := pdoBytes_length pdos
    have hlength : (PDO.add p.found).PDOs.length = PDO.PDOs.length + 1 := by
      rw [PDO.add_PDOs, List.length_append, List.length_singleton]
    have hword (m : ℕ) (hm : m < 2 ^ 16) : (UInt16.ofNat m).toNat = m := by
      rw [UInt16.toNat_ofNat', Nat.mod_eq_of_lt hm]
    rw [siiPDOs]
    refine (reads_PDOAt hfirst (by rw [p.bytes_length]; omega) (hcount p List.mem_cons_self) c).bind ?_
    dsimp only
    rw [hlength, PDO.add_Length, hL, p.bytes_length]
    cases pdos with
    | nil =>
      have hstop : ¬ (if EC_MAXEEPDO - 1 ≤ PDO.PDOs.length + 1 then UInt16.ofNat L
          else UInt16.ofNat (c + (8 + 8 * p.entries.length) / 2)) < UInt16.ofNat L := by
        simp only [List.flatMap_nil, List.length_nil] at hc
        split
        · exact UInt16.lt_irrefl _
        · rw [UInt16.lt_iff_toNat_lt, hword _ (by omega), hword _ (by omega)]
          omega
      rw [if_neg hstop]
      exact Query.Yields.pure _
    | cons q rest =>
      rw [List.length_cons] at hmax hlong
      have hgoes : UInt16.ofNat (c + (8 + 8 * p.entries.length) / 2) < UInt16.ofNat L := by
        rw [UInt16.lt_iff_toNat_lt, hword _ (by omega), hword _ (by omega)]
        omega
      rw [if_neg (show ¬ EC_MAXEEPDO - 1 ≤ PDO.PDOs.length + 1 by omega), if_pos hgoes]
      rw [p.bytes_length] at hrest
      exact ih (PDO.add p.found) (List.cons_ne_nil q rest) hrest (by omega)
        (fun r hr => hcount r (List.mem_cons_of_mem _ hr)) (by omega) (by rw [hlength, List.length_cons]; omega)
        ((PDO.add_Length _).trans hL) (by omega) hlt

/-- The section of a category, if there is one, has these PDOs. -/
def DescribesPDOs (secs : List SiiSection) (cat : UInt16) (pdos : List PdoDescription) : Prop :=
  match firstSection cat secs with
  | none => pdos = []
  | some s => pdos ≠ [] ∧ s.data = pdos.flatMap PdoDescription.bytes ∧ ∀ p ∈ pdos, p.entries.length < 256

theorem reads_siiPDO {secs : List SiiSection} (h : HasSections rom secs) {t : UInt8} (ht : t = 0 ∨ t = 1)
    {pdos : List PdoDescription} (hpdos : DescribesPDOs secs (ECT_SII_PDO + t.toUInt16) pdos) {fuel : ℕ}
    (hfuel : secs.length < fuel) : ∃ PDO : EepromPDO, SiiReads rom (siiPDO fuel t) (some PDO) ∧
      PDO.PDOs = pdos.map PdoDescription.found ∧
      (∀ k, PDO.SMbitsize k = UInt16.ofNat (pdos.map (PdoDescription.bitsOn k)).sum) ∧
      PDO.Size = UInt16.ofNat (pdos.map PdoDescription.activeBits).sum := by
  have hcat : ECT_SII_PDO + t.toUInt16 ≠ 0xffff := by rcases ht with rfl | rfl <;> decide
  have hkind : (if 1 < t then 1 else t) = t := by rcases ht with rfl | rfl <;> rfl
  have hfind := reads_siifind h _ hcat hfuel
  obtain ⟨hrom, hn, -⟩ := h
  unfold DescribesPDOs at hpdos
  unfold siiPDO
  dsimp only
  rw [hkind]
  generalize ECT_SII_PDO + t.toUInt16 = cat at hfind hpdos
  cases hsec : firstSection cat secs with
  | none =>
    rw [hsec] at hpdos
    obtain rfl := hpdos
    rw [sectionAt_none hsec] at hfind
    exact ⟨_, hfind.bind (Query.Yields.pure _), rfl, fun _ => rfl, rfl⟩
  | some s =>
    rw [hsec] at hpdos
    obtain ⟨hne, hdata, hcount⟩ := hpdos
    obtain ⟨hhas, hpos, hend⟩ := sectionAt_some hsec hrom
    rw [hdata] at hhas hend
    obtain ⟨hlen, hbytes⟩ := romHas_word.mp hhas
    generalize sectionAt cat secs 0x80 = A at hfind hlen hbytes hpos hend
    obtain ⟨hlong, height⟩ := pdoBytes_length pdos
    have hbuf : EC_MAXEEPBUF = 4096 := rfl
    have hmax : EC_MAXEEPDO = 512 := rfl
    have hposA : (0 : UInt16) < UInt16.ofNat A := by
      rw [UInt16.lt_iff_toNat_lt, addr_toNat (by omega)]
      exact hpos
    have h2 : UInt16.ofNat A + 2 = UInt16.ofNat (A + 2) := addr_add A 2
    let start : EepromPDO := ⟨UInt16.ofNat A,
      UInt16.ofNat ((pdos.flatMap PdoDescription.bytes).length / 2), [], fun _ => 0, 0⟩
    have hloop : SiiReads rom (siiPDOs (EC_MAXEEPDO - 1) (UInt16.ofNat (A + 2)) (UInt16.ofNat 1) start)
        (start.addAll pdos) :=
      reads_PDOs pdos start hne hbytes (by omega) hcount (by omega) (by change 0 + _ ≤ _; omega) rfl
        (by omega) (by omega)
    refine ⟨start.addAll pdos, ?_, start.addAll_PDOs pdos, fun k => ?_, ?_⟩
    · refine hfind.bind ?_
      dsimp only
      rw [if_pos hposA, h2]
      refine (reads_word hlen (by omega)).bind ?_
      exact hloop.bind (Query.Yields.pure _)
    · rw [EepromPDO.addAll_SMbitsize]
      exact UInt16.zero_add _
    · rw [EepromPDO.addAll_Size]
      exact UInt16.zero_add _

end Loop

/-! ## The slave behind its EEPROM -/

/-- The bits of all PDOs on sync manager `k`, and of all active PDOs, as the master counts them. -/
def bitsOn (pdos : List PdoDescription) (k : ℕ) : ℕ := (pdos.map (PdoDescription.bitsOn k)).sum % 2 ^ 16

def activeSize (pdos : List PdoDescription) : ℕ := (pdos.map PdoDescription.activeBits).sum % 2 ^ 16

/-- Sync manager `k` of a slave with these outputs and inputs. -/
def describedSM (outputs inputs : List PdoDescription) (SM : SyncManager) (k : ℕ) : SyncManager :=
  if 0 < bitsOn outputs k then { SM with SMlength := (bitsOn outputs k + 7) / 8, SMtype := 3 }
  else if 0 < bitsOn inputs k then { SM with SMlength := (bitsOn inputs k + 7) / 8, SMtype := 4 }
  else SM

theorem bitsOn_far (pdos : List PdoDescription) {k : ℕ} (hk : ¬ k < EC_MAXSM) : bitsOn pdos k = 0 := by
  have hzero : pdos.map (PdoDescription.bitsOn k) = pdos.map fun _ => 0 :=
    List.map_congr_left fun p _ => if_neg fun h => hk h.2
  rw [bitsOn, hzero]
  simp

theorem setSMs_eq {pdos : List PdoDescription} {SMbitsize : ℕ → UInt16}
    (h : ∀ k, SMbitsize k = UInt16.ofNat (pdos.map (PdoDescription.bitsOn k)).sum) (SMtype : ℕ)
    (SM : ℕ → SyncManager) (k : ℕ) : setSMs SMtype SMbitsize SM k =
      if 0 < bitsOn pdos k then { SM k with SMlength := (bitsOn pdos k + 7) / 8, SMtype := SMtype }
      else SM k := by
  have hnat : (SMbitsize k).toNat = bitsOn pdos k := by
    rw [h, UInt16.toNat_ofNat']
    rfl
  have hpos : 0 < SMbitsize k ↔ 0 < bitsOn pdos k := by
    rw [UInt16.lt_iff_toNat_lt, hnat]
    rfl
  unfold setSMs
  rw [hnat]
  by_cases hk : k < EC_MAXSM
  · simp only [hk, hpos, true_and]
  · rw [if_neg (fun h => hk h.1), bitsOn_far pdos hk, if_neg (Nat.lt_irrefl 0)]

/-- A slave whose EEPROM has sections that describe its process data. -/
structure Described where
  s : ListedSlave
  secs : List SiiSection
  inputs : List PdoDescription
  outputs : List PdoDescription

namespace Described
variable (d e : Described)

/-- The EEPROM is needed where the process data is not known from elsewhere. -/
def Ok (slave : SiiSlave) (fuel : ℕ) : Prop :=
  d.s.Unknown → HasSections slave.rom d.secs ∧ d.secs.length < fuel ∧
    DescribesPDOs d.secs ECT_SII_PDO d.inputs ∧ DescribesPDOs d.secs (ECT_SII_PDO + 1) d.outputs

/-- The slave `s` with the sizes and the sync managers that the PDOs make. -/
def describe (s : ListedSlave) : ListedSlave :=
  s.setIo (fun k => describedSM d.outputs d.inputs (s.io.SM k) k) (activeSize d.outputs) (activeSize d.inputs)

/-- The slave after those of `before`: a known mapping stays, an unknown one is that of the first slave with
the same identity, and one that is unknown even then is what the slave's own EEPROM describes. -/
def mapped (before : List ListedSlave) : ListedSlave :=
  if d.s.Unknown then
    if (lookupMapping before d.s).Unknown then d.describe (lookupMapping before d.s)
    else lookupMapping before d.s
  else d.s

theorem reads_mapSii {slave : SiiSlave} {fuel : ℕ} (hd : d.Ok slave fuel) (before : List ListedSlave) :
    SiiReads slave.rom (mapSii fuel before d.s) (some (d.mapped before)) := by
  unfold mapSii mapped
  by_cases hsize : d.s.Unknown
  · obtain ⟨hsecs, hfuel, hin, hout⟩ := hd hsize
    rw [if_pos hsize, if_pos hsize]
    generalize lookupMapping before d.s = s
    by_cases hzero : s.Unknown
    · obtain ⟨I, hreadI, -, hbitsI, hsizeI⟩ := reads_siiPDO hsecs (t := 0) (Or.inl rfl) hin hfuel
      obtain ⟨O, hreadO, -, hbitsO, hsizeO⟩ := reads_siiPDO hsecs (t := 1) (Or.inr rfl) hout hfuel
      have hSM : setSMs 3 O.SMbitsize (setSMs 4 I.SMbitsize s.io.SM) =
          fun k => describedSM d.outputs d.inputs (s.io.SM k) k := by
        funext k
        rw [setSMs_eq hbitsO, setSMs_eq hbitsI, describedSM]
        split
        · split <;> rfl
        · rfl
      have hO : O.Size.toNat = activeSize d.outputs := by
        rw [hsizeO, UInt16.toNat_ofNat']
        rfl
      have hI : I.Size.toNat = activeSize d.inputs := by
        rw [hsizeI, UInt16.toNat_ofNat']
        rfl
      rw [if_pos hzero, if_pos hzero, describe, ← hSM, ← hO, ← hI]
      exact hreadI.bind (hreadO.bind (Query.Yields.pure _))
    · rw [if_neg hzero, if_neg hzero]
      exact Query.Yields.pure _
  · rw [if_neg hsize, if_neg hsize, if_neg hsize]
    exact Query.Yields.pure _

/-- The slaves `ds`, mapped after those of `before`. -/
def mapAll (before : List ListedSlave) : List Described → List ListedSlave
  | [] => before
  | d :: ds => mapAll (before ++ [d.mapped before]) ds

theorem mapAll_prefix (ds : List Described) (before : List ListedSlave) : before <+: mapAll before ds := by
  induction ds generalizing before with
  | nil => exact List.prefix_rfl
  | cons d ds ih => exact (List.prefix_append before _).trans (ih _)

theorem mapAll_length (ds : List Described) (before : List ListedSlave) :
    (mapAll before ds).length = before.length + ds.length := by
  induction ds generalizing before with
  | nil => rfl
  | cons d ds ih =>
    rw [mapAll, ih, List.length_append, List.length_singleton, List.length_cons]
    omega

theorem mapAll_get (ds : List Described) (before : List ListedSlave) {k : ℕ} {d : Described}
    (hd : ds[k]? = some d) : (mapAll before ds)[before.length + k]? =
      some (d.mapped ((mapAll before ds).take (before.length + k))) := by
  induction ds generalizing before k with
  | nil => simp at hd
  | cons e ds ih =>
    rw [mapAll]
    cases k with
    | zero =>
      obtain rfl : e = d := by simpa using hd
      have hpre := mapAll_prefix ds (before ++ [e.mapped before])
      have hfirst : (before ++ [e.mapped before])[before.length]? = some (e.mapped before) :=
        List.getElem?_concat_length
      have htake : (mapAll (before ++ [e.mapped before]) ds).take before.length = before := by
        obtain ⟨rest, hrest⟩ := hpre
        rw [← hrest, List.append_assoc, List.take_left]
      rw [Nat.add_zero, htake]
      obtain ⟨rest, hrest⟩ := hpre
      rw [← hrest, List.getElem?_append_left (by simp)]
      exact hfirst
    | succ k =>
      have hrest := ih (before ++ [e.mapped before]) (k := k) (by simpa using hd)
      rw [List.length_append, List.length_singleton, Nat.add_assoc, Nat.add_comm 1 k] at hrest
      exact hrest

/-! ## Slaves of one identity -/

/-- Two slaves with one identity have the same PDOs, and sync managers of the same lengths and types. -/
def Agrees : Prop :=
  d.s.sameId e.s → d.outputs = e.outputs ∧ d.inputs = e.inputs ∧
    ∀ k < EC_MAXSM, (d.s.io.SM k).SMlength = (e.s.io.SM k).SMlength ∧
      (d.s.io.SM k).SMtype = (e.s.io.SM k).SMtype

theorem describedSM_far (outputs inputs : List PdoDescription) (SM : SyncManager) {k : ℕ} (hk : ¬ k < EC_MAXSM) :
    describedSM outputs inputs SM k = SM := by
  rw [describedSM, bitsOn_far _ hk, bitsOn_far _ hk]
  rfl

theorem describedSM_congr (outputs inputs : List PdoDescription) {SM SM' : SyncManager} (k : ℕ)
    (hlength : SM.SMlength = SM'.SMlength) (htype : SM.SMtype = SM'.SMtype) :
    { SM' with
        SMlength := (describedSM outputs inputs SM k).SMlength
        SMtype := (describedSM outputs inputs SM k).SMtype } = describedSM outputs inputs SM' k := by
  unfold describedSM
  split
  · rfl
  · split
    · rfl
    · rw [hlength, htype]

/-- The mapping of a slave is that of any other with its identity. -/
theorem describe_copy (h : d.Agrees e) (hid : d.s.sameId e.s) :
    (d.describe d.s).copyMapping e.s = e.describe e.s := by
  obtain ⟨hout, hin, hagree⟩ := h hid
  have hSM : (d.describe d.s).copySM e.s = fun k => describedSM e.outputs e.inputs (e.s.io.SM k) k := by
    funext k
    unfold ListedSlave.copySM
    split
    next hk =>
      rw [← describedSM_congr e.outputs e.inputs k (hagree k hk).1 (hagree k hk).2, ← hout, ← hin]
      rfl
    next hk => rw [describedSM_far _ _ _ hk]
  rw [ListedSlave.copyMapping, hSM, describe, describe, hout, hin]
  rfl

/-- A second description of the same slave changes nothing. -/
theorem describe_twice : d.describe (d.describe d.s) = d.describe d.s := by
  have hSM : (fun k => describedSM d.outputs d.inputs (describedSM d.outputs d.inputs (d.s.io.SM k) k) k) =
      fun k => describedSM d.outputs d.inputs (d.s.io.SM k) k := by
    funext k
    unfold describedSM
    split
    · rfl
    · split <;> rfl
  rw [describe, describe]
  exact congrArg (fun SM => d.s.setIo SM (activeSize d.outputs) (activeSize d.inputs)) hSM

/-- Where the slaves with one identity agree, each is mapped as its own EEPROM describes. -/
theorem mapped_own {before : List Described} (hagree : ∀ d ∈ before, d.Agrees e) (he : e.s.Unknown) :
    e.mapped (before.map fun d => d.describe d.s) = e.describe e.s := by
  have hlook : lookupMapping (before.map fun d => d.describe d.s) e.s = e.s ∨
      lookupMapping (before.map fun d => d.describe d.s) e.s = e.describe e.s := by
    unfold lookupMapping
    cases hfind : (before.map fun d => d.describe d.s).find? fun i => decide (i.sameId e.s) with
    | none => exact Or.inl rfl
    | some i =>
      right
      obtain ⟨d, hd, rfl⟩ := List.mem_map.mp (List.mem_of_find?_eq_some hfind)
      have hid : d.s.sameId e.s := by
        have hsome := List.find?_some hfind
        exact of_decide_eq_true hsome
      exact describe_copy d e (hagree d hd) hid
  unfold mapped
  rw [if_pos he]
  rcases hlook with h | h
  · rw [h, if_pos he]
  · rw [h, e.describe_twice, ite_self]

theorem mapAll_own (ds : List Described) (before : List Described)
    (hunknown : ∀ d ∈ ds, d.s.Unknown) (hagree : ∀ d ∈ before ++ ds, ∀ e ∈ ds, d.Agrees e) :
    mapAll (before.map fun d => d.describe d.s) ds = (before ++ ds).map fun d => d.describe d.s := by
  induction ds generalizing before with
  | nil => rw [List.append_nil, mapAll]
  | cons e ds ih =>
    have hfirst : e.mapped (before.map fun d => d.describe d.s) = e.describe e.s :=
      e.mapped_own (fun d hd => hagree d (List.mem_append_left _ hd) e List.mem_cons_self)
        (hunknown e List.mem_cons_self)
    have hrest := ih (before ++ [e]) (fun d hd => hunknown d (List.mem_cons_of_mem _ hd))
      (fun d hd f hf => hagree d (by simpa using hd) f (List.mem_cons_of_mem _ hf))
    rw [List.map_append, List.append_assoc] at hrest
    rw [mapAll, hfirst]
    exact hrest

end Described

/-! ## All slaves -/

theorem findMappings_cons (slaves : ℕ → SiiSlave) (fuel : ℕ) (before : List ListedSlave) (s s' : ListedSlave)
    (rest : List ListedSlave) (c c' : EsiCache)
    (h : (mapSii fuel before s).run (siigetbyte slaves (before.length + 1)) c = (some s', c')) :
    findMappings slaves fuel before (s :: rest) c = findMappings slaves fuel (before ++ [s']) rest c' := by
  rw [findMappings, h]

theorem findMappings_mapAll (slaves : ℕ → SiiSlave) (fuel : ℕ) (ds : List Described) (before : List ListedSlave)
    (hds : ∀ (k : ℕ) (d : Described), ds[k]? = some d → d.Ok (slaves (before.length + 1 + k)) fuel) (c : EsiCache)
    (hc : c.Ok slaves) :
    (findMappings slaves fuel before (ds.map Described.s) c).1 = some (Described.mapAll before ds) ∧
      (findMappings slaves fuel before (ds.map Described.s) c).2.Ok slaves := by
  induction ds generalizing before c with
  | nil => exact ⟨rfl, hc⟩
  | cons d ds ih =>
    obtain ⟨hmapped, hkept⟩ := (d.reads_mapSii (hds 0 d rfl) before).cached hc
    rw [List.map_cons, findMappings_cons slaves fuel before d.s _ _ c _ (Prod.ext hmapped rfl)]
    refine ih (before ++ [d.mapped before]) (fun k e he => ?_) _ hkept
    rw [List.length_append, List.length_singleton, Nat.add_assoc, Nat.add_comm 1 k]
    exact hds (k + 1) e (by simpa using he)

/-- 16 and 8 bits on sync manager 3, and a PDO that is not active. -/
def demoInputs : List PdoDescription :=
  [⟨0x1a00, 3, 0, 0, 0, [⟨0x6000, 1, 0, 6, 16, 0⟩, ⟨0x6000, 2, 0, 5, 8, 0⟩]⟩,
    ⟨0x1a01, 0xff, 0, 0, 0, [⟨0x6010, 1, 0, 7, 32, 0⟩]⟩]

def demoOutputs : List PdoDescription := [⟨0x1600, 2, 0, 0, 0, [⟨0x7000, 1, 0, 5, 8, 0⟩]⟩]

def unmapped (eep_id : UInt32) : ListedSlave :=
  ⟨0x47, eep_id, 1,
    ⟨0, 0, none, 0, 0, 0, none, 0, fun k => ⟨0x1000 + 0x100 * k, 0, 0⟩, fun _ => Fmmu.init, 0, 0⟩⟩

def demoBoth : Described := ⟨unmapped 1, [⟨50, demoInputs.flatMap PdoDescription.bytes⟩,
  ⟨51, demoOutputs.flatMap PdoDescription.bytes⟩], demoInputs, demoOutputs⟩

def demoOut : Described :=
  ⟨unmapped 2, [⟨51, demoOutputs.flatMap PdoDescription.bytes⟩], [], demoOutputs⟩

/-- The third slave is another board of the kind of the first. -/
def demoSlaves (slave : ℕ) : SiiSlave := sectionSlave (if slave = 2 then demoOut.secs else demoBoth.secs)

theorem demoBoth_ok : demoBoth.Ok (sectionSlave demoBoth.secs) 3 := fun _ =>
  ⟨⟨sectionSlave_has demoBoth.secs, by decide, by decide⟩, by decide,
    show _ ≠ _ ∧ _ = _ ∧ _ from ⟨by decide, rfl, by decide⟩,
    show _ ≠ _ ∧ _ = _ ∧ _ from ⟨by decide, rfl, by decide⟩⟩

theorem demoOut_ok : demoOut.Ok (sectionSlave demoOut.secs) 3 := fun _ =>
  ⟨⟨sectionSlave_has demoOut.secs, by decide, by decide⟩, by decide, rfl,
    show _ ≠ _ ∧ _ = _ ∧ _ from ⟨by decide, rfl, by decide⟩⟩

example : (demoBoth.describe demoBoth.s).io.Ibits = 24 ∧ (demoBoth.describe demoBoth.s).io.Obits = 8 := by
  decide

end EcatMaster.Soem
