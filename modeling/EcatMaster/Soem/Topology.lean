import Mathlib.Data.BitVec
import EcatMaster.Lib.Forest

/-! # The bus as a tree

`ecx_config_init` numbers the slaves in the order in which a frame passes them and learns from the
DL status of each which of its four ports have a link. From the numbers of links alone it finds the
slave each one hangs from.
-/

namespace EcatMaster.Soem
set_option autoImplicit false

/-- The fields of `ec_slavet` that describe where a slave is on the bus and when a frame passed it. -/
structure Slave where
  hasdc : Bool
  topology : ℕ
  activeports : BitVec 8
  consumedports : BitVec 8
  parent : ℕ
  parentport : ℕ
  entryport : ℕ
  DCrtA : ℤ
  DCrtB : ℤ
  DCrtC : ℤ
  DCrtD : ℤ
  pdelay : ℤ
deriving Repr, DecidableEq

/-- What `ecx_init_context` leaves in every slave. -/
def Slave.init : Slave where
  hasdc := false
  topology := 0
  activeports := 0
  consumedports := 0
  parent := 0
  parentport := 0
  entryport := 0
  DCrtA := 0
  DCrtB := 0
  DCrtC := 0
  DCrtD := 0
  pdelay := 0

abbrev SlaveList := ℕ → Slave

def PORTM0 : BitVec 8 := 0x01
def PORTM1 : BitVec 8 := 0x02
def PORTM2 : BitVec 8 := 0x04
def PORTM3 : BitVec 8 := 0x08

/-- One port of a DL status: counted and marked when it is open and communication is established. -/
def link (topology mask established : BitVec 16) (bit : BitVec 8) (hb : ℕ × BitVec 8) :
    ℕ × BitVec 8 :=
  if topology &&& mask = established then (hb.1 + 1, hb.2 ||| bit) else hb

/-- The links a DL status shows: how many, and the bitmap of their ports. -/
def links (topology : BitVec 16) : ℕ × BitVec 8 :=
  link topology 0xc000 0x8000 0x08 <| link topology 0x3000 0x2000 0x04 <|
    link topology 0x0c00 0x0800 0x02 <| link topology 0x0300 0x0200 0x01 (0, 0)

theorem link_fst_le (topology mask established : BitVec 16) (bit : BitVec 8) (hb : ℕ × BitVec 8) :
    (link topology mask established bit hb).1 ≤ hb.1 + 1 := by
  unfold link
  split
  · exact Nat.le_refl _
  · exact Nat.le_succ _

theorem links_le (topology : BitVec 16) : (links topology).1 ≤ 4 := by
  have h0 := link_fst_le topology 0x0300 0x0200 0x01 (0, 0)
  have h1 := link_fst_le topology 0x0c00 0x0800 0x02 (link topology 0x0300 0x0200 0x01 (0, 0))
  have h2 := link_fst_le topology 0x3000 0x2000 0x04 (link topology 0x0c00 0x0800 0x02 <|
    link topology 0x0300 0x0200 0x01 (0, 0))
  have h3 := link_fst_le topology 0xc000 0x8000 0x08 (link topology 0x3000 0x2000 0x04 <|
    link topology 0x0c00 0x0800 0x02 <| link topology 0x0300 0x0200 0x01 (0, 0))
  unfold links
  omega

/-- The search for the parent, from slave `slavec` back. -/
def searchParent (topology : ℕ → ℕ) : (slavec : ℕ) → (topoc : ℤ) → ℕ
  | 0, _ => 0
  | slavec + 1, topoc =>
    let t := topology (slavec + 1)
    let topoc := if t = 1 then topoc - 1 else topoc
    let topoc := if t = 3 then topoc + 1 else topoc
    let topoc := if t = 4 then topoc + 2 else topoc
    if (0 ≤ topoc ∧ 1 < t) ∨ slavec + 1 = 1 then slavec + 1 else searchParent topology slavec topoc

/-- What a slave answers when it is asked for its features and its links. -/
structure DlStatus where
  dc : Bool
  dlstat : BitVec 16
deriving Repr, DecidableEq

/-- The part of `ecx_config_init` that places one slave. -/
def configSlave (status : ℕ → DlStatus) (slavelist : SlaveList) (slave : ℕ) : SlaveList :=
  Function.update slavelist slave
    { slavelist slave with
      hasdc := (status slave).dc
      topology := (links (status slave).dlstat).1
      activeports := (links (status slave).dlstat).2
      parent :=
        if 1 < slave then searchParent (fun i => (slavelist i).topology) (slave - 1) 0 else 0 }

/-- Slaves 1 to `n`, one after the other. -/
def configSlaves (status : ℕ → DlStatus) : ℕ → SlaveList
  | 0 => fun _ => Slave.init
  | n + 1 => configSlave status (configSlaves status n) (n + 1)

/-- A slave that has answered `status` and hangs from slave `parent`. -/
def placed (status : DlStatus) (parent : ℕ) : Slave :=
  { Slave.init with
    hasdc := status.dc
    topology := (links status.dlstat).1
    activeports := (links status.dlstat).2
    parent := parent }

section Placed
variable {status : ℕ → DlStatus} {n i : ℕ}

theorem configSlaves_of_lt (h : n < i) : configSlaves status n i = Slave.init := by
  induction n with
  | zero => rfl
  | succ n ih =>
    rw [configSlaves, configSlave, Function.update_of_ne (by omega)]
    exact ih (by omega)

/-- A slave keeps the place it was given. -/
theorem configSlaves_of_le (h : i ≤ n) : configSlaves status n i = configSlaves status i i := by
  induction n with
  | zero =>
    obtain rfl : i = 0 := by omega
    rfl
  | succ n ih =>
    rcases Nat.eq_or_lt_of_le h with rfl | hlt
    · rfl
    · rw [configSlaves, configSlave, Function.update_of_ne (by omega)]
      exact ih (by omega)

theorem configSlaves_self (h : 0 < i) : configSlaves status i i = placed (status i)
    (if 1 < i then searchParent (fun j => (configSlaves status (i - 1) j).topology) (i - 1) 0
      else 0) := by
  obtain ⟨m, rfl⟩ : ∃ m, i = m + 1 := ⟨i - 1, by omega⟩
  rw [configSlaves, configSlave, Function.update_self, configSlaves_of_lt (by omega)]
  rfl

theorem searchParent_congr {t t' : ℕ → ℕ} {slavec : ℕ} {topoc : ℤ}
    (h : ∀ j, 0 < j → j ≤ slavec → t j = t' j) :
    searchParent t slavec topoc = searchParent t' slavec topoc := by
  induction slavec generalizing topoc with
  | zero => rfl
  | succ slavec ih =>
    rw [searchParent, searchParent, h (slavec + 1) (by omega) (by omega)]
    simp only [ih fun j hpos hle => h j hpos (by omega)]

theorem configSlaves_eq (hpos : 0 < i) (hle : i ≤ n) : configSlaves status n i = placed (status i)
    (if 1 < i then searchParent (fun j => (links (status j).dlstat).1) (i - 1) 0 else 0) := by
  rw [configSlaves_of_le hle, configSlaves_self hpos]
  congr 2
  apply searchParent_congr
  intro j hj hji
  rw [configSlaves_of_le hji, configSlaves_self hj]
  rfl

end Placed

section Search
variable {d : ℕ → ℕ} {q i : ℕ}

/-- One more link than children: every slave passed counts as its number of children less one. -/
theorem searchParent_succ {t : ℕ → ℕ} {slavec : ℕ} {topoc : ℤ} (ht : t (slavec + 1) = 1 + d (slavec + 1))
    (hports : d (slavec + 1) ≤ 3) :
    searchParent t (slavec + 1) topoc =
      if (0 ≤ topoc + ((d (slavec + 1) : ℤ) - 1) ∧ 0 < d (slavec + 1)) ∨ slavec + 1 = 1 then slavec + 1
      else searchParent t slavec (topoc + ((d (slavec + 1) : ℤ) - 1)) := by
  rw [searchParent, ht]
  have hcases : d (slavec + 1) = 0 ∨ d (slavec + 1) = 1 ∨ d (slavec + 1) = 2 ∨ d (slavec + 1) = 3 := by
    omega
  rcases hcases with h | h | h | h <;> simp [h, sub_eq_add_neg]

/-- The search stops at the first slave back at which the count is not negative. -/
theorem searchParent_eq {t : ℕ → ℕ} (hq : 0 < q)
    (ht : ∀ j, q ≤ j → j < i → t j = 1 + d j ∧ d j ≤ 3)
    (hstop : 0 ≤ Forest.excess d q i) (hpass : ∀ j, q < j → j < i → Forest.excess d j i < 0) :
    ∀ j, q < j → j ≤ i → searchParent t (j - 1) (Forest.excess d j i) = q := by
  intro j hqj hji
  induction j with
  | zero => omega
  | succ j ih =>
    obtain ⟨slavec, rfl⟩ : ∃ slavec, j = slavec + 1 := ⟨j - 1, by omega⟩
    obtain ⟨hj, hports⟩ := ht (slavec + 1) (by omega) (by omega)
    have hhead := Forest.excess_head (d := d) (j := slavec + 1) (i := i) (by omega)
    rw [Nat.add_sub_cancel, searchParent_succ hj hports, add_comm (Forest.excess _ _ _), ← hhead]
    rcases Nat.eq_or_lt_of_le (Nat.lt_succ_iff.mp hqj) with rfl | hlt
    · have hchild : 0 < d (slavec + 1) := by
        rcases Nat.eq_or_lt_of_le hji with heq | hlt
        · rw [heq, Forest.excess_self] at hhead
          omega
        · have := hpass (slavec + 1 + 1) (by omega) hlt
          omega
      rw [if_pos (.inl ⟨hstop, hchild⟩)]
    · have hneg := hpass (slavec + 1) hlt (by omega)
      rw [if_neg (by omega)]
      exact ih hlt (by omega)

end Search
end EcatMaster.Soem
