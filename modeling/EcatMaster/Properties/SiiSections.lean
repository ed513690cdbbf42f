import EcatMaster.Properties.SiiCache

/-! # What the readers of the sections find

Every reader is followed over an EEPROM that has what it looks for, for fixed answers (`SiiReads`). Behind
the cache the answers are these (`SiiReads.cached`).
-/

namespace EcatMaster.Soem
set_option autoImplicit false
open ByteBuf

/-! ## Bytes in the EEPROM -/

def RomHas (rom : ℕ → UInt8) : ℕ → List UInt8 → Prop
  | _, [] => True
  | n, b :: bytes => rom n = b ∧ RomHas rom (n + 1) bytes

/-- What a reader finds in an EEPROM. -/
abbrev SiiReads (rom : ℕ → UInt8) {α : Type} (q : SiiReader α) (a : α) : Prop :=
  q.Yields (fun address => rom address.toNat) InBuffer a

/-- A reader finds it behind the cache too, whatever the cache is for. -/
theorem SiiReads.cached {slaves : ℕ → SiiSlave} {slave : ℕ} {α : Type} {q : SiiReader α} {a : α}
    (h : SiiReads (slaves slave).rom q a) {c : EsiCache} (hc : c.Ok slaves) :
    (q.run (siigetbyte slaves slave) c).1 = a ∧ (q.run (siigetbyte slaves slave) c).2.Ok slaves :=
  Query.Yields.run (I := fun c : EsiCache => c.Ok slaves) (fun _ _ hfit hok => siigetbyte_ok slave hfit hok) h hc

variable {rom : ℕ → UInt8} {n : ℕ}

theorem romHas_append {as bs : List UInt8} :
    RomHas rom n (as ++ bs) ↔ RomHas rom n as ∧ RomHas rom (n + as.length) bs := by
  induction as generalizing n with
  | nil => simp [RomHas]
  | cons a as ih =>
    rw [List.cons_append, RomHas, RomHas, ih, List.length_cons, and_assoc]
    rw [show n + 1 + as.length = n + (as.length + 1) by omega]

theorem romHas_getD (bytes : List UInt8) (n : ℕ) (d : UInt8) :
    RomHas (fun i => bytes.getD (i - n) d) n bytes := by
  suffices h : ∀ before, RomHas (fun i => (before ++ bytes).getD (i - n) d) (n + before.length) bytes from
    h []
  induction bytes with
  | nil => exact fun _ => trivial
  | cons b bytes ih =>
    intro before
    refine ⟨by simp, ?_⟩
    have hrest := ih (before ++ [b])
    rw [List.append_assoc, List.length_append] at hrest
    exact hrest

theorem romHas_word {w : UInt16} {bs : List UInt8} :
    RomHas rom n (le16 w ++ bs) ↔ RomHas rom n (le16 w) ∧ RomHas rom (n + 2) bs := romHas_append

theorem addr_add (n k : ℕ) : UInt16.ofNat n + UInt16.ofNat k = UInt16.ofNat (n + k) :=
  (UInt16.ofNat_add n k).symm

theorem addr_toNat (hn : n + 8 ≤ EC_MAXEEPBUF) : (UInt16.ofNat n).toNat = n := by
  have hlt : n < 2 ^ 16 := by
    unfold EC_MAXEEPBUF EC_MAXEEPBITMAP at hn
    omega
  rw [UInt16.toNat_ofNat', Nat.mod_eq_of_lt hlt]

theorem reads_byte {b : UInt8} (h : rom n = b) (hn : n + 8 ≤ EC_MAXEEPBUF) :
    SiiReads rom (Query.get (UInt16.ofNat n)) b := by
  have hnat := addr_toNat hn
  have hget := Query.Yields.get (f := fun address : UInt16 => rom address.toNat) (P := InBuffer)
    (i := UInt16.ofNat n) (by rw [InBuffer, hnat]; exact hn)
  rwa [hnat, h] at hget

theorem le16_word (w : UInt16) : (w &&& 0xFF).toUInt8.toUInt16 + ((w >>> 8).toUInt8.toUInt16 <<< 8) = w := by
  have hw := w.toNat_lt
  have hand (n : ℕ) : n &&& 255 = n % 256 := Nat.and_two_pow_sub_one_eq_mod n 8
  apply UInt16.toNat_inj.mp
  simp [hand, Nat.shiftRight_eq_div_pow, Nat.shiftLeft_eq]
  omega

theorem reads_word {w : UInt16} (h : RomHas rom n (le16 w)) (hn : n + 9 ≤ EC_MAXEEPBUF) :
    SiiReads rom (siigetword (UInt16.ofNat n)) w := by
  obtain ⟨hlo, hhi, -⟩ := h
  have hnext : UInt16.ofNat n + 1 = UInt16.ofNat (n + 1) := addr_add n 1
  have hword := le16_word w
  unfold siigetword
  rw [hnext]
  refine (reads_byte hlo (by omega)).bind ((reads_byte hhi (by omega)).bind ?_)
  rw [hword]
  exact Query.Yields.pure w

/-! ## The list of sections -/

/-- A section with its category; the length is in words. -/
structure SiiSection where
  category : UInt16
  data : List UInt8

def SiiSection.bytes (s : SiiSection) : List UInt8 :=
  le16 s.category ++ (le16 (UInt16.ofNat (s.data.length / 2)) ++ s.data)

/-- A section that is not the end of the list. -/
def SiiSection.Ok (s : SiiSection) : Prop := s.category ≠ 0xffff ∧ s.data.length % 2 = 0

instance (s : SiiSection) : Decidable s.Ok := inferInstanceAs (Decidable (_ ∧ _))

/-- The sections and the end of the list. -/
def siiImage (secs : List SiiSection) : List UInt8 := secs.flatMap SiiSection.bytes ++ le16 0xffff

/-- The category that a list of sections begins with. -/
def headCategory : List SiiSection → UInt16
  | [] => 0xffff
  | s :: _ => s.category

/-- Where the first section of a category is, from its length on; 0 if there is none. -/
def sectionAt (cat : UInt16) : List SiiSection → (n : ℕ) → ℕ
  | [], _ => 0
  | s :: secs, n => if s.category = cat then n + 2 else sectionAt cat secs (n + 4 + s.data.length)

theorem siiImage_cons (s : SiiSection) (secs : List SiiSection) :
    siiImage (s :: secs) = le16 s.category ++
      (le16 (UInt16.ofNat (s.data.length / 2)) ++ (s.data ++ siiImage secs)) := by
  simp only [siiImage, SiiSection.bytes, List.flatMap_cons, List.append_assoc]

theorem siiImage_head (secs : List SiiSection) (h : RomHas rom n (siiImage secs)) :
    RomHas rom n (le16 (headCategory secs)) := by
  cases secs with
  | nil => exact h
  | cons s secs =>
    rw [siiImage_cons] at h
    exact (romHas_append.mp h).1

theorem siiImage_length (secs : List SiiSection) : 2 ≤ (siiImage secs).length := by
  rw [siiImage, List.length_append]
  exact Nat.le_add_left _ _

theorem words_twice {d : ℕ} (heven : d % 2 = 0) : UInt16.ofNat (d / 2) <<< 1 = UInt16.ofNat d := by
  apply UInt16.toNat_inj.mp
  simp [Nat.shiftLeft_eq]
  omega

/-- The search, with the category of the first section already read. -/
theorem reads_siifindFrom {cat : UInt16} (hcat : cat ≠ 0xffff) : ∀ (secs : List SiiSection) {fuel n : ℕ},
    secs.length < fuel → (∀ s ∈ secs, s.Ok) → RomHas rom n (siiImage secs) →
    n + (siiImage secs).length + 7 ≤ EC_MAXEEPBUF →
    SiiReads rom (siifindFrom cat fuel (UInt16.ofNat (n + 2)) (headCategory secs))
      (some (UInt16.ofNat (sectionAt cat secs n))) := by
  intro secs
  induction secs with
  | nil =>
    intro fuel n hfuel _ _ _
    obtain ⟨fuel, rfl⟩ : ∃ k, fuel = k + 1 := ⟨fuel - 1, by simp at hfuel; omega⟩
    have hne : headCategory [] ≠ cat := fun h => hcat h.symm
    rw [siifindFrom, if_neg (fun h => h.2 rfl), if_pos hne]
    exact Query.Yields.pure _
  | cons s secs ih =>
    intro fuel n hfuel hok h hn
    obtain ⟨fuel, rfl⟩ : ∃ k, fuel = k + 1 := ⟨fuel - 1, by simp at hfuel; omega⟩
    have hend : headCategory (s :: secs) = s.category := rfl
    rw [siifindFrom, hend, sectionAt]
    by_cases heq : s.category = cat
    · rw [if_neg (fun h => h.1 heq), if_pos heq, if_neg (not_not.mpr heq)]
      exact Query.Yields.pure _
    · obtain ⟨hother, heven⟩ := hok s List.mem_cons_self
      rw [if_pos ⟨heq, hother⟩, if_neg heq]
      rw [siiImage_cons] at h hn
      have hlen16 (w : UInt16) : (le16 w).length = 2 := rfl
      simp only [List.length_append, hlen16] at hn
      have hrest := siiImage_length secs
      obtain ⟨-, h⟩ := romHas_append.mp h
      obtain ⟨hlen, h⟩ := romHas_append.mp h
      obtain ⟨-, h⟩ := romHas_append.mp h
      rw [hlen16] at hlen
      rw [hlen16, hlen16, show n + 2 + 2 + s.data.length = n + 4 + s.data.length by omega] at h
      refine (reads_word hlen (by omega)).bind ?_
      have hnext : UInt16.ofNat (n + 2) + 2 + (UInt16.ofNat (s.data.length / 2) <<< (1 : UInt16)) =
          UInt16.ofNat (n + 4 + s.data.length) := by
        rw [words_twice heven]
        exact (congrArg (· + _) (addr_add (n + 2) 2)).trans (addr_add (n + 2 + 2) s.data.length)
      dsimp only
      rw [hnext]
      refine (reads_word (siiImage_head secs h) (by omega)).bind ?_
      have hbehind : UInt16.ofNat (n + 4 + s.data.length) + 2 = UInt16.ofNat (n + 4 + s.data.length + 2) :=
        addr_add _ 2
      rw [hbehind]
      exact ih (by simp at hfuel; omega) (fun t ht => hok t (List.mem_cons_of_mem _ ht)) h (by omega)

/-- The EEPROM has the sections where the search starts. -/
def HasSections (rom : ℕ → UInt8) (secs : List SiiSection) : Prop :=
  RomHas rom 0x80 (siiImage secs) ∧ 0x80 + (siiImage secs).length + 7 ≤ EC_MAXEEPBUF ∧ ∀ s ∈ secs, s.Ok

theorem reads_siifind {secs : List SiiSection} (h : HasSections rom secs) (cat : UInt16)
    (hcat : cat ≠ 0xffff) {fuel : ℕ} (hfuel : secs.length < fuel) :
    SiiReads rom (siifind fuel cat) (some (UInt16.ofNat (sectionAt cat secs 0x80))) := by
  obtain ⟨hrom, hn, hok⟩ := h
  have hlen := siiImage_length secs
  have hstart : ECT_SII_START <<< 1 = UInt16.ofNat 0x80 := rfl
  unfold siifind
  dsimp only
  rw [hstart]
  refine (reads_word (siiImage_head secs hrom) (by omega)).bind ?_
  exact reads_siifindFrom hcat secs hfuel hok hrom hn

def firstSection (cat : UInt16) (secs : List SiiSection) : Option SiiSection :=
  secs.find? fun s => s.category = cat

theorem sectionAt_none {cat : UInt16} {secs : List SiiSection} (h : firstSection cat secs = none) (n : ℕ) :
    sectionAt cat secs n = 0 := by
  induction secs generalizing n with
  | nil => rfl
  | cons s secs ih =>
    have hne : s.category ≠ cat := fun heq => by simp [firstSection, heq] at h
    have hrest : firstSection cat secs = none := by simpa [firstSection, hne] using h
    rw [sectionAt, if_neg hne]
    exact ih hrest _

theorem sectionAt_some {cat : UInt16} {secs : List SiiSection} {s : SiiSection}
    (h : firstSection cat secs = some s) (hrom : RomHas rom n (siiImage secs)) :
    RomHas rom (sectionAt cat secs n) (le16 (UInt16.ofNat (s.data.length / 2)) ++ s.data) ∧
      0 < sectionAt cat secs n ∧
      sectionAt cat secs n + 2 + s.data.length ≤ n + (siiImage secs).length := by
  induction secs generalizing n with
  | nil => cases h
  | cons u secs ih =>
    have hlen16 (w : UInt16) : (le16 w).length = 2 := rfl
    rw [siiImage_cons] at hrom ⊢
    obtain ⟨-, hrom⟩ := romHas_append.mp hrom
    rw [← List.append_assoc] at hrom
    obtain ⟨hbody, hrest⟩ := romHas_append.mp hrom
    simp only [List.length_append, hlen16] at hbody hrest ⊢
    rw [sectionAt]
    by_cases heq : u.category = cat
    · obtain rfl : u = s := by simpa [firstSection, heq] using h
      rw [if_pos heq]
      exact ⟨hbody, by omega, by omega⟩
    · have hlater : firstSection cat secs = some s := by simpa [firstSection, heq] using h
      rw [if_neg heq]
      rw [show n + 2 + (2 + u.data.length) = n + 4 + u.data.length by omega] at hrest
      obtain ⟨hhas, hpos, hend⟩ := ih hlater hrest
      exact ⟨hhas, hpos, by omega⟩

/-! ## Sync managers -/

def EepromSM.bytes (SM : EepromSM) : List UInt8 :=
  le16 SM.PhStart ++ (le16 SM.Plength ++ [SM.Creg, SM.Sreg, SM.Activate, SM.PDIctrl])

theorem reads_SMAt {SM : EepromSM} (h : RomHas rom n SM.bytes) (hn : n + 15 ≤ EC_MAXEEPBUF) :
    SiiReads rom (siiSMAt (UInt16.ofNat n)) SM := by
  obtain ⟨hstart, h⟩ := romHas_word.mp h
  obtain ⟨hlength, hcreg, hsreg, hactivate, hctrl, -⟩ := romHas_word.mp h
  have h2 : UInt16.ofNat n + 2 = UInt16.ofNat (n + 2) := addr_add n 2
  have h4 : UInt16.ofNat n + 4 = UInt16.ofNat (n + 4) := addr_add n 4
  have h5 : UInt16.ofNat n + 5 = UInt16.ofNat (n + 5) := addr_add n 5
  have h6 : UInt16.ofNat n + 6 = UInt16.ofNat (n + 6) := addr_add n 6
  have h7 : UInt16.ofNat n + 7 = UInt16.ofNat (n + 7) := addr_add n 7
  unfold siiSMAt
  rw [h2, h4, h5, h6, h7]
  refine (reads_word hstart (by omega)).bind ((reads_word hlength (by omega)).bind ?_)
  refine (reads_byte hcreg (by omega)).bind ((reads_byte hsreg (by omega)).bind ?_)
  refine (reads_byte hactivate (by omega)).bind ((reads_byte hctrl (by omega)).bind ?_)
  exact Query.Yields.pure SM

theorem smBytes_length (sms : List EepromSM) : (sms.flatMap EepromSM.bytes).length = 8 * sms.length := by
  induction sms with
  | nil => rfl
  | cons SM sms ih =>
    rw [List.flatMap_cons, List.length_append, ih, List.length_cons]
    change 8 + 8 * sms.length = _
    omega

theorem romHas_SM {sms : List EepromSM} (h : RomHas rom n (sms.flatMap EepromSM.bytes)) {k : ℕ} {SM : EepromSM}
    (hk : sms[k]? = some SM) : RomHas rom (n + 8 * k) SM.bytes := by
  induction sms generalizing n k with
  | nil => cases hk
  | cons S sms ih =>
    rw [List.flatMap_cons] at h
    obtain ⟨hfirst, hrest⟩ := romHas_append.mp h
    cases k with
    | zero =>
      obtain rfl : S = SM := by simpa using hk
      exact hfirst
    | succ k =>
      have hlater := ih hrest (by simpa using hk)
      rwa [show n + S.bytes.length + 8 * k = n + 8 * (k + 1) by change n + 8 + 8 * k = _; omega] at hlater

theorem reads_SMnext {sms : List EepromSM} (h : RomHas rom (n + 2) (sms.flatMap EepromSM.bytes))
    (hn : n + 2 + 8 * sms.length + 7 ≤ EC_MAXEEPBUF) (hsms : sms.length < 256) (SM : EepromSM) {k : ℕ}
    (hk : k < 256) :
    SiiReads rom (siiSMnext (UInt16.ofNat n) (UInt8.ofNat sms.length) SM (UInt16.ofNat k))
      (match sms[k]? with | some next => (1, next) | none => (0, SM)) := by
  have hlt : UInt16.ofNat k < (UInt8.ofNat sms.length).toUInt16 ↔ k < sms.length := by
    rw [UInt16.lt_iff_toNat_lt, UInt8.toNat_toUInt16, UInt8.toNat_ofNat', UInt16.toNat_ofNat',
      Nat.mod_eq_of_lt (by omega), Nat.mod_eq_of_lt (by omega)]
  unfold siiSMnext
  by_cases hin : k < sms.length
  · have hget : sms[k]? = some sms[k] := List.getElem?_eq_getElem hin
    have haddr : UInt16.ofNat n + 2 + UInt16.ofNat k * 8 = UInt16.ofNat (n + 2 + 8 * k) := by
      rw [Nat.mul_comm 8 k, UInt16.ofNat_add, UInt16.ofNat_add, UInt16.ofNat_mul]
      rfl
    rw [if_pos (hlt.mpr hin), hget, haddr]
    exact (reads_SMAt (romHas_SM h hget) (by omega)).bind (Query.Yields.pure _)
  · rw [if_neg (mt hlt.mp hin), List.getElem?_eq_none (by omega)]
    exact Query.Yields.pure _

theorem reads_SMs {sms : List EepromSM} (h : RomHas rom (n + 2) (sms.flatMap EepromSM.bytes))
    (hn : n + 2 + 8 * sms.length + 7 ≤ EC_MAXEEPBUF) (hsms : sms.length < 256) : ∀ (fuel SMc : ℕ)
    (SM : EepromSM), SMc + fuel < 256 →
    SiiReads rom (siiSMs (UInt16.ofNat n) (UInt8.ofNat sms.length) fuel (UInt16.ofNat SMc) SM)
      ((sms.drop SMc).take fuel) := by
  intro fuel
  induction fuel with
  | zero =>
    intro SMc SM _
    rw [List.take_zero]
    exact Query.Yields.pure _
  | succ fuel ih =>
    intro SMc SM hSMc
    have hnext := reads_SMnext h hn hsms SM (k := SMc) (by omega)
    rw [siiSMs]
    refine hnext.bind ?_
    by_cases hin : SMc < sms.length
    · have hget : sms[SMc]? = some sms[SMc] := List.getElem?_eq_getElem hin
      have hadd : UInt16.ofNat SMc + 1 = UInt16.ofNat (SMc + 1) := addr_add SMc 1
      rw [hget, List.drop_eq_getElem_cons hin, List.take_succ_cons]
      dsimp only
      rw [if_pos (by decide), hadd]
      exact (ih _ _ (by omega)).bind (Query.Yields.pure _)
    · rw [List.getElem?_eq_none (by omega), List.drop_eq_nil_of_le (by omega), List.take_nil]
      exact Query.Yields.pure _

/-- The section of the sync managers, if there is one, has these and no others. -/
def DescribesSMs (secs : List SiiSection) (sms : List EepromSM) : Prop :=
  match firstSection ECT_SII_SM secs with
  | none => sms = []
  | some s => sms ≠ [] ∧ s.data = sms.flatMap EepromSM.bytes

theorem reads_siiSM_none {secs : List SiiSection} (h : HasSections rom secs)
    (hsec : firstSection ECT_SII_SM secs = none) {fuel : ℕ} (hfuel : secs.length < fuel) (eepSM : EepromSM) :
    SiiReads rom (siiSM fuel eepSM) (some (0, 0, eepSM)) := by
  have hfind := reads_siifind h ECT_SII_SM (by decide) hfuel
  rw [sectionAt_none hsec] at hfind
  exact hfind.bind (Query.Yields.pure _)

/-- The first sync manager, the number of them, and where the others are. -/
theorem reads_siiSM_some {secs : List SiiSection} (h : HasSections rom secs) {sec : SiiSection}
    (hsec : firstSection ECT_SII_SM secs = some sec) {SM : EepromSM} {sms : List EepromSM}
    (hdata : sec.data = (SM :: sms).flatMap EepromSM.bytes) {fuel : ℕ} (hfuel : secs.length < fuel)
    (eepSM : EepromSM) : ∃ A, RomHas rom (A + 2) ((SM :: sms).flatMap EepromSM.bytes) ∧
      A + 2 + 8 * (SM :: sms).length + 7 ≤ EC_MAXEEPBUF ∧
      SiiReads rom (siiSM fuel eepSM)
        (some (UInt16.ofNat A, UInt8.ofNat (SM :: sms).length, SM)) := by
  have hfind := reads_siifind h ECT_SII_SM (by decide) hfuel
  obtain ⟨hrom, hn, -⟩ := h
  obtain ⟨hhas, hpos, hend⟩ := sectionAt_some hsec hrom
  rw [hdata, smBytes_length] at hhas hend
  obtain ⟨hlen, hsms⟩ := romHas_word.mp hhas
  refine ⟨sectionAt ECT_SII_SM secs 0x80, hsms, by omega, ?_⟩
  generalize sectionAt ECT_SII_SM secs 0x80 = A at hfind hlen hsms hpos hend
  rw [List.length_cons] at hend
  have hposA : (0 : UInt16) < UInt16.ofNat A := by
    rw [UInt16.lt_iff_toNat_lt, addr_toNat (by omega)]
    exact hpos
  have hnum : (UInt16.ofNat (8 * (SM :: sms).length / 2) / 4).toUInt8 = UInt8.ofNat (SM :: sms).length := by
    have hfit : EC_MAXEEPBUF = 4096 := rfl
    apply UInt8.toNat_inj.mp
    simp only [List.length_cons, UInt16.toNat_toUInt8, UInt16.toNat_div, UInt16.toNat_ofNat',
      UInt8.toNat_ofNat', UInt16.reduceToNat]
    omega
  have h2 : UInt16.ofNat A + 2 = UInt16.ofNat (A + 2) := addr_add A 2
  unfold siiSM
  refine hfind.bind ?_
  dsimp only
  rw [if_pos hposA, h2, ← hnum]
  refine (reads_word hlen (by omega)).bind ?_
  exact (reads_SMAt (romHas_SM hsms (k := 0) rfl) (by omega)).bind (Query.Yields.pure _)

/-- The sync managers are those of the section, up to `EC_MAXSM` of them. -/
theorem reads_configSMs {secs : List SiiSection} (h : HasSections rom secs) {sms : List EepromSM}
    (hsms : DescribesSMs secs sms) (hcount : sms.length < 256) {fuel : ℕ} (hfuel : secs.length < fuel)
    (eepSM : EepromSM) : SiiReads rom (configSMs fuel eepSM) (some (sms.take EC_MAXSM)) := by
  unfold DescribesSMs at hsms
  unfold configSMs
  cases hsec : firstSection ECT_SII_SM secs with
  | none =>
    rw [hsec] at hsms
    obtain rfl := hsms
    exact (reads_siiSM_none h hsec hfuel eepSM).bind (Query.Yields.pure _)
  | some s =>
    rw [hsec] at hsms
    obtain ⟨hne, hdata⟩ := hsms
    obtain ⟨SM, rest, rfl⟩ := List.exists_cons_of_ne_nil hne
    obtain ⟨A, hrom, hn, hfirst⟩ := reads_siiSM_some h hsec hdata hfuel eepSM
    have hpos : 0 < UInt8.ofNat (SM :: rest).length := by
      rw [UInt8.lt_iff_toNat_lt, UInt8.toNat_ofNat', Nat.mod_eq_of_lt hcount]
      exact Nat.succ_pos _
    refine hfirst.bind ?_
    dsimp only
    rw [if_pos hpos]
    exact (reads_SMs hrom hn hcount (EC_MAXSM - 1) 1 SM (by decide)).bind (Query.Yields.pure _)

/-! ## FMMUs -/

/-- The section of the FMMUs, if there is one, has these functions. -/
def DescribesFMMUs (secs : List SiiSection) (funcs : List UInt8) : Prop :=
  match firstSection ECT_SII_FMMU secs with
  | none => funcs = []
  | some s => funcs ≠ [] ∧ s.data = funcs

/-- What is recorded of FMMUs with these functions. -/
def EepromFMMU.ofFuncs (Startpos : UInt16) (funcs : List UInt8) : EepromFMMU :=
  ⟨Startpos, UInt8.ofNat funcs.length, funcs.getD 0 0, funcs.getD 1 0, funcs.getD 2 0, funcs.getD 3 0⟩

theorem reads_FMMUAt {funcs : List UInt8} (h : RomHas rom n (le16 (UInt16.ofNat (funcs.length / 2)) ++ funcs))
    (hn : n + 2 + funcs.length + 7 ≤ EC_MAXEEPBUF) (hne : funcs ≠ []) (heven : funcs.length % 2 = 0)
    (hcount : funcs.length < 256) :
    SiiReads rom (siiFMMUAt (UInt16.ofNat n)) (EepromFMMU.ofFuncs (UInt16.ofNat n) funcs) := by
  obtain ⟨⟨hlo, hhi, -⟩, hfuncs⟩ := romHas_word.mp h
  have hnum : (UInt16.ofNat (funcs.length / 2) &&& 0xFF).toUInt8 * 2 = UInt8.ofNat funcs.length := by
    have hand (n : ℕ) : n &&& 255 = n % 256 := Nat.and_two_pow_sub_one_eq_mod n 8
    apply UInt8.toNat_inj.mp
    simp [hand]
    omega
  have h1 : UInt16.ofNat n + 1 = UInt16.ofNat (n + 1) := addr_add n 1
  have h2 : UInt16.ofNat n + 2 = UInt16.ofNat (n + 2) := addr_add n 2
  have h3 : UInt16.ofNat n + 3 = UInt16.ofNat (n + 3) := addr_add n 3
  have h4 : UInt16.ofNat n + 4 = UInt16.ofNat (n + 4) := addr_add n 4
  have h5 : UInt16.ofNat n + 5 = UInt16.ofNat (n + 5) := addr_add n 5
  have hmany : 2 < UInt8.ofNat funcs.length ↔ 2 < funcs.length := by
    rw [UInt8.lt_iff_toNat_lt, UInt8.toNat_ofNat', Nat.mod_eq_of_lt hcount]
    rfl
  unfold siiFMMUAt EepromFMMU.ofFuncs
  dsimp only
  rw [h1, h2, h3, h4, h5]
  refine (reads_byte hlo (by omega)).bind ((reads_byte hhi (by omega)).bind ?_)
  rw [hnum]
  rcases funcs with _ | ⟨f0, _ | ⟨f1, _ | ⟨f2, _ | ⟨f3, rest⟩⟩⟩⟩
  · exact absurd rfl hne
  · exact absurd heven (by simp)
  · obtain ⟨hf0, hf1, -⟩ := hfuncs
    simp only [List.length_cons, List.length_nil] at hn
    refine (reads_byte hf0 (by omega)).bind ((reads_byte hf1 (by omega)).bind ?_)
    rw [if_neg (mt hmany.mp (by simp))]
    exact Query.Yields.pure _
  · exact absurd heven (by simp)
  · obtain ⟨hf0, hf1, hf2, hf3, -⟩ := hfuncs
    simp only [List.length_cons] at hn
    refine (reads_byte hf0 (by omega)).bind ((reads_byte hf1 (by omega)).bind ?_)
    rw [if_pos (hmany.mpr (by simp))]
    refine (reads_byte hf2 (by omega)).bind ((reads_byte hf3 (by omega)).bind ?_)
    exact Query.Yields.pure _

theorem reads_siiFMMU {secs : List SiiSection} (h : HasSections rom secs) {funcs : List UInt8}
    (hfuncs : DescribesFMMUs secs funcs) (hcount : funcs.length < 256) {fuel : ℕ}
    (hfuel : secs.length < fuel) :
    SiiReads rom (siiFMMU fuel)
      (some (EepromFMMU.ofFuncs (UInt16.ofNat (sectionAt ECT_SII_FMMU secs 0x80)) funcs)) := by
  have hfind := reads_siifind h ECT_SII_FMMU (by decide) hfuel
  obtain ⟨hrom, hn, hok⟩ := h
  unfold DescribesFMMUs at hfuncs
  unfold siiFMMU
  cases hsec : firstSection ECT_SII_FMMU secs with
  | none =>
    rw [hsec] at hfuncs
    obtain rfl := hfuncs
    rw [sectionAt_none hsec] at hfind ⊢
    exact hfind.bind (Query.Yields.pure _)
  | some s =>
    rw [hsec] at hfuncs
    obtain ⟨hne, rfl⟩ := hfuncs
    obtain ⟨hhas, hpos, hend⟩ := sectionAt_some hsec hrom
    have heven := (hok s (List.mem_of_find?_eq_some hsec)).2
    generalize sectionAt ECT_SII_FMMU secs 0x80 = A at hfind hhas hpos hend
    have hposA : (0 : UInt16) < UInt16.ofNat A := by
      rw [UInt16.lt_iff_toNat_lt, addr_toNat (by omega)]
      exact hpos
    refine hfind.bind ?_
    dsimp only
    rw [if_pos hposA]
    exact (reads_FMMUAt hhas (by omega) hne heven hcount).bind (Query.Yields.pure _)

/-- A slave with two mailboxes, outputs and inputs. -/
def mailboxSMs : List EepromSM :=
  [⟨0x1000, 128, 0x26, 0, 1, 0⟩, ⟨0x1080, 128, 0x22, 0, 1, 0⟩, ⟨0x1100, 80, 0x64, 0, 1, 0⟩,
    ⟨0x1400, 112, 0x20, 0, 1, 0⟩]

def mailboxSections : List SiiSection := [⟨10, [0, 0]⟩, ⟨40, [1, 2, 3, 0xff]⟩,
  ⟨41, mailboxSMs.flatMap EepromSM.bytes⟩]

/-- A slave whose EEPROM has these sections and nothing else. -/
def sectionSlave (secs : List SiiSection) : SiiSlave := ⟨true, fun i => (siiImage secs).getD (i - 0x80) 0xff⟩

theorem sectionSlave_has (secs : List SiiSection) : RomHas (sectionSlave secs).rom 0x80 (siiImage secs) :=
  romHas_getD (siiImage secs) 0x80 0xff

end EcatMaster.Soem
