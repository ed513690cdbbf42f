import EcatMaster.Soem.Sii

/-! # The cache for the EEPROM returns what is in the EEPROM

The bitmap marks bytes of the buffer that are those of the slave the cache is for. A request for another
slave clears it first; a byte that is not marked is read with its neighbours, which are marked then.
-/

namespace EcatMaster.Soem
set_option autoImplicit false
open ByteBuf

/-! ## The bitmap -/

def marked (esimap : ℕ → ℕ) (i : ℕ) : Bool := (esimap (i / 32)).testBit (i % 32)

/-- The bytes from `32 * mapw + mapb` on are marked, and no others. -/
theorem marked_setesimap (cnt : ℕ) : ∀ {mapw mapb : ℕ} (_ : mapb < 32) (esimap : ℕ → ℕ) (i : ℕ),
    marked (setesimap cnt mapw mapb esimap) i =
      (marked esimap i || (32 * mapw + mapb ≤ i ∧ i < 32 * mapw + mapb + cnt : Bool)) := by
  induction cnt with
  | zero =>
    intro mapw mapb _ esimap i
    have hno : ¬ (32 * mapw + mapb ≤ i ∧ i < 32 * mapw + mapb + 0) := by omega
    rw [setesimap, decide_eq_false hno, Bool.or_false]
  | succ cnt ih =>
    intro mapw mapb hb esimap i
    have hone : marked (Function.update esimap mapw (esimap mapw ||| 2 ^ mapb)) i =
        (marked esimap i || (i = 32 * mapw + mapb : Bool)) := by
      unfold marked
      by_cases hw : i / 32 = mapw
      · have hbit : (mapb = i % 32) ↔ i = 32 * mapw + mapb := by omega
        rw [hw, Function.update_self, Nat.testBit_or, Nat.testBit_two_pow, decide_eq_decide.mpr hbit]
      · have hne : ¬ i = 32 * mapw + mapb := by omega
        rw [Function.update_of_ne hw, decide_eq_false hne, Bool.or_false]
    rw [setesimap]
    split
    · rw [ih (by omega), hone, Bool.or_assoc, ← Bool.decide_or]
      congr 2
      apply propext
      omega
    · rw [ih (by omega), hone, Bool.or_assoc, ← Bool.decide_or]
      congr 2
      apply propext
      omega

/-! ## One request -/

/-- A request whose answer stays inside the buffer, whichever answer the slave gives. -/
def InBuffer (address : UInt16) : Prop := address.toNat + 8 ≤ EC_MAXEEPBUF

instance (address : UInt16) : Decidable (InBuffer address) := inferInstanceAs (Decidable (_ ≤ _))

/-- What is marked is in the buffer. -/
structure EsiCache.Ok (slaves : ℕ → SiiSlave) (c : EsiCache) : Prop where
  size : c.esibuf.length = EC_MAXEEPBUF
  byte : ∀ i, i < EC_MAXEEPBUF → marked c.esimap i = true → byteAt c.esibuf i = (slaves c.esislave).rom i

variable {slaves : ℕ → SiiSlave}

theorem EsiCache.start_ok (slaves : ℕ → SiiSlave) : EsiCache.start.Ok slaves :=
  ⟨List.length_replicate, fun _ _ h => by simp [EsiCache.start, marked] at h⟩

theorem EsiCache.Ok.select {c : EsiCache} (h : c.Ok slaves) (slave : ℕ) :
    (if slave ≠ c.esislave then { c with esimap := fun _ => 0, esislave := slave } else c : EsiCache).Ok
      slaves := by
  split
  · refine ⟨h.size, fun i _ hi => ?_⟩
    simp [marked] at hi
  · exact h

theorem readeeprom_get (s : SiiSlave) (eadr : ℕ) {j : ℕ} (hj : j < if s.eep_8byte then 8 else 4) :
    ((s.readeeprom eadr).take (if s.eep_8byte then 8 else 4))[j]? = some (s.rom (2 * eadr + j)) := by
  have hlt : j < 8 := lt_of_lt_of_le hj (by split <;> omega)
  have hsent : s.eep_8byte = true ∨ j < 4 := by
    by_cases h : s.eep_8byte = true
    · exact Or.inl h
    · rw [if_neg h] at hj
      exact Or.inr hj
  rw [List.getElem?_take_of_lt hj]
  simp [SiiSlave.readeeprom, hlt, hsent]

theorem EsiCache.Ok.fetch {c : EsiCache} (h : c.Ok slaves) (eadr : ℕ) {cnt : ℕ}
    (hcnt : cnt = if (slaves c.esislave).eep_8byte then 8 else 4) (hfit : eadr * 2 + 8 ≤ EC_MAXEEPBUF) :
    (EsiCache.mk (put c.esibuf (eadr * 2) (((slaves c.esislave).readeeprom eadr).take cnt))
      (setesimap cnt (eadr / 2 ^ 4) (eadr * 2 - eadr / 2 ^ 4 * 2 ^ 5) c.esimap) c.esislave).Ok slaves ∧
      ∀ i, eadr * 2 ≤ i → i < eadr * 2 + cnt →
        byteAt (put c.esibuf (eadr * 2) (((slaves c.esislave).readeeprom eadr).take cnt)) i =
          (slaves c.esislave).rom i := by
  have hsize : (((slaves c.esislave).readeeprom eadr).take cnt).length = cnt := by
    rw [List.length_take, SiiSlave.readeeprom, List.length_map, List.length_range, hcnt]
    split <;> rfl
  have hle : cnt ≤ 8 := by
    rw [hcnt]
    split <;> omega
  have hread : ∀ i, eadr * 2 ≤ i → i < eadr * 2 + cnt →
      byteAt (put c.esibuf (eadr * 2) (((slaves c.esislave).readeeprom eadr).take cnt)) i =
        (slaves c.esislave).rom i := by
    intro i hi hlt
    obtain ⟨j, rfl⟩ : ∃ j, i = eadr * 2 + j := ⟨i - eadr * 2, by omega⟩
    have hget := put_getElem?_inside c.esibuf (eadr * 2) (((slaves c.esislave).readeeprom eadr).take cnt) j
      (by omega) (by rw [h.size]; omega)
    subst hcnt
    rw [readeeprom_get _ _ (by omega)] at hget
    rw [byteAt, List.getD_eq_getElem?_getD, hget, Nat.mul_comm]
    rfl
  refine ⟨⟨(put_length _ _ _).trans h.size, fun i hi hmark => ?_⟩, hread⟩
  rw [marked_setesimap cnt (by omega)] at hmark
  by_cases hin : eadr * 2 ≤ i ∧ i < eadr * 2 + cnt
  · exact hread i hin.1 hin.2
  · have hout : ¬ (32 * (eadr / 2 ^ 4) + (eadr * 2 - eadr / 2 ^ 4 * 2 ^ 5) ≤ i ∧
        i < 32 * (eadr / 2 ^ 4) + (eadr * 2 - eadr / 2 ^ 4 * 2 ^ 5) + cnt) := by omega
    rw [decide_eq_false hout, Bool.or_false] at hmark
    have hold := h.byte i hi hmark
    rw [byteAt, List.getD_eq_getElem?_getD] at hold ⊢
    rw [put_getElem?_outside _ _ _ _ (by rw [hsize]; omega)]
    exact hold

theorem siigetbyte_ok (slave : ℕ) {address : UInt16} {c : EsiCache} (hfit : InBuffer address)
    (h : c.Ok slaves) : (siigetbyte slaves slave address c).1 = (slaves slave).rom address.toNat ∧
      (siigetbyte slaves slave address c).2.Ok slaves := by
  unfold InBuffer at hfit
  have hsel := h.select slave
  have hslave : (if slave ≠ c.esislave then { c with esimap := fun _ => 0, esislave := slave }
      else c : EsiCache).esislave = slave := by
    split
    · rfl
    · next heq => exact (not_not.mp heq).symm
  unfold siigetbyte
  generalize (if slave ≠ c.esislave then { c with esimap := fun _ => 0, esislave := slave }
    else c : EsiCache) = d at hsel hslave
  subst hslave
  dsimp only
  rw [if_pos (by omega)]
  have hbit : marked d.esimap address.toNat =
      (d.esimap (address.toNat / 2 ^ 5)).testBit (address.toNat - address.toNat / 2 ^ 5 * 2 ^ 5) := by
    unfold marked
    congr 1
    omega
  rw [← hbit]
  split
  · next hmark => exact ⟨hsel.byte _ (by omega) hmark, hsel⟩
  · obtain ⟨hok, hread⟩ := hsel.fetch (address.toNat / 2) rfl (by omega)
    refine ⟨hread _ (by omega) ?_, hok⟩
    split <;> omega

/-! ## Requests one after the other -/

/-- The bytes for a list of requests. -/
def siigetbytes (slaves : ℕ → SiiSlave) : List (ℕ × UInt16) → EsiCache → List UInt8 × EsiCache
  | [], c => ([], c)
  | r :: requests, c =>
    let (b, c) := siigetbyte slaves r.1 r.2 c
    let (bs, c) := siigetbytes slaves requests c
    (b :: bs, c)

theorem siigetbytes_cons (r : ℕ × UInt16) (requests : List (ℕ × UInt16)) (c : EsiCache) :
    siigetbytes slaves (r :: requests) c =
      ((siigetbyte slaves r.1 r.2 c).1 :: (siigetbytes slaves requests (siigetbyte slaves r.1 r.2 c).2).1,
        (siigetbytes slaves requests (siigetbyte slaves r.1 r.2 c).2).2) := rfl

/-- Whatever is asked for, of whichever slave and in whatever order, is what is in the EEPROM. -/
theorem sii_reads (slaves : ℕ → SiiSlave) (requests : List (ℕ × UInt16)) (c : EsiCache)
    (hok : c.Ok slaves) (hfit : ∀ r ∈ requests, InBuffer r.2) :
    (siigetbytes slaves requests c).1 = requests.map (fun r => (slaves r.1).rom r.2.toNat) ∧
      (siigetbytes slaves requests c).2.Ok slaves := by
  induction requests generalizing c with
  | nil => exact ⟨rfl, hok⟩
  | cons r requests ih =>
    obtain ⟨hbyte, hkept⟩ := siigetbyte_ok r.1 (hfit r List.mem_cons_self) hok
    obtain ⟨hrest, hlast⟩ := ih _ hkept fun s hs => hfit s (List.mem_cons_of_mem _ hs)
    rw [siigetbytes_cons, hbyte, hrest]
    exact ⟨rfl, hlast⟩

/-- Two slaves, one with each answer, whose EEPROMs count from 1 and 2. -/
def countingSlaves (slave : ℕ) : SiiSlave := ⟨slave = 1, fun i => UInt8.ofNat (i + slave)⟩

theorem sii_reads_two :
    (siigetbytes countingSlaves [(1, 0x81), (1, 0x85), (2, 0x85), (2, 0x80), (1, 0x81)] .start).1 =
      [0x82, 0x86, 0x87, 0x82, 0x82] :=
  (sii_reads countingSlaves _ .start (EsiCache.start_ok _) (by decide)).1

end EcatMaster.Soem
