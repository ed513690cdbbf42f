import Mathlib.Algebra.Order.Ring.Nat

/-! # A bus with logical addresses

A datagram that covers a range of logical addresses runs through the stations of a bus, one after the
other. A station maps windows of the logical address space to its own memory: where the datagram reads,
a station puts the cells of its read windows into it, and where it writes, the station stores the cells
of its write windows. Each station adds to the working counter what it has read and written. Not every
station need take part, and what a station stores is what has come to it: `carry` is the datagram behind
the stations, `after` the stations behind the datagram.

An address that no station reads from is carried unchanged (`carry_at_silent`), so a station stores there
what was sent; an address of one station's window comes back with that station's cell
(`carry_at_answer`). `rounds` is the same for a row of datagrams.
-/

namespace LogicalBus
set_option autoImplicit false

universe u
variable {α : Type u}

/-- `length` logical addresses from `start` on, mapped to the memory from `phys` on. -/
structure Window where
  start : ℕ
  length : ℕ
  phys : ℕ
deriving Repr, DecidableEq

def Window.Has (w : Window) (a : ℕ) : Prop := w.start ≤ a ∧ a < w.start + w.length

instance (w : Window) (a : ℕ) : Decidable (w.Has a) := inferInstanceAs (Decidable (_ ∧ _))

/-- A datagram for the addresses from `start` on. -/
structure Datagram (α : Type u) where
  reads : Bool
  writes : Bool
  start : ℕ
  cells : List α
deriving Repr, DecidableEq

def Datagram.Has (d : Datagram α) (a : ℕ) : Prop := d.start ≤ a ∧ a < d.start + d.cells.length

instance (d : Datagram α) (a : ℕ) : Decidable (d.Has a) := inferInstanceAs (Decidable (_ ∧ _))

def Datagram.at (d : Datagram α) (a : ℕ) : Option α := if d.start ≤ a then d.cells[a - d.start]? else none

/-- The window and the datagram have an address in common. -/
def Window.Meets (w : Window) (d : Datagram α) : Prop :=
  w.start < d.start + d.cells.length ∧ d.start < w.start + w.length ∧ 0 < w.length ∧ 0 < d.cells.length

instance (w : Window) (d : Datagram α) : Decidable (w.Meets d) :=
  inferInstanceAs (Decidable (_ ∧ _ ∧ _ ∧ _))

structure Station (α : Type u) where
  reads : List Window
  writes : List Window
  memory : ℕ → α

/-- What the station has for address `a`. -/
def Station.fetch (s : Station α) (a : ℕ) : Option α :=
  (s.reads.find? fun w => w.Has a).map fun w => s.memory (w.phys + (a - w.start))

/-- What the datagram has for cell `p` of the memory. -/
def stored (writes : List Window) (d : Datagram α) (p : ℕ) : Option α :=
  writes.findSome? fun w =>
    if w.phys ≤ p ∧ p < w.phys + w.length then d.at (w.start + (p - w.phys)) else none

/-- The datagram behind a station that takes part. -/
def Station.fill (s : Station α) (d : Datagram α) : Datagram α :=
  { d with
    cells := if d.reads then d.cells.mapIdx fun j c => (s.fetch (d.start + j)).getD c else d.cells }

/-- The station behind a datagram that it takes part in. -/
def Station.take (s : Station α) (d : Datagram α) : Station α :=
  { s with memory := if d.writes then fun p => (stored s.writes d p).getD (s.memory p) else s.memory }

/-- What the station adds to the working counter: a write counts twice where reads count as well. -/
def Station.count (s : Station α) (d : Datagram α) : ℕ :=
  (if d.reads ∧ ∃ w ∈ s.reads, w.Meets d then 1 else 0) +
    if d.writes ∧ ∃ w ∈ s.writes, w.Meets d then if d.reads then 2 else 1 else 0

/-- The datagram behind the stations; `takes k` says whether station `k` takes part. -/
def carry : (takes : ℕ → Bool) → List (Station α) → Datagram α → Datagram α
  | _, [], d => d
  | takes, s :: stations, d =>
    carry (fun k => takes (k + 1)) stations (if takes 0 then s.fill d else d)

/-- The stations behind the datagram. -/
def after : (takes : ℕ → Bool) → List (Station α) → Datagram α → List (Station α)
  | _, [], _ => []
  | takes, s :: stations, d =>
    (if takes 0 then s.take d else s) ::
      after (fun k => takes (k + 1)) stations (if takes 0 then s.fill d else d)

def counted : (takes : ℕ → Bool) → List (Station α) → Datagram α → ℕ
  | _, [], _ => 0
  | takes, s :: stations, d =>
    (if takes 0 then s.count d else 0) + counted (fun k => takes (k + 1)) stations d

/-! ## One station -/

section Station
variable (s : Station α) (d : Datagram α) {a p : ℕ}

@[simp] theorem fill_start : (s.fill d).start = d.start := rfl
@[simp] theorem fill_reads : (s.fill d).reads = d.reads := rfl
@[simp] theorem fill_writes : (s.fill d).writes = d.writes := rfl
@[simp] theorem take_reads : (s.take d).reads = s.reads := rfl
@[simp] theorem take_writes : (s.take d).writes = s.writes := rfl

@[simp] theorem fill_length : (s.fill d).cells.length = d.cells.length := by
  unfold Station.fill
  split <;> simp

theorem at_of_not_has (h : ¬ d.Has a) : d.at a = none := by
  unfold Datagram.at
  unfold Datagram.Has at h
  split
  · rw [List.getElem?_eq_none]
    omega
  · rfl

theorem fill_at : (s.fill d).at a =
    (d.at a).map fun c => if d.reads then (s.fetch a).getD c else c := by
  unfold Datagram.at
  rw [fill_start]
  split
  · next hle =>
    unfold Station.fill
    cases hreads : d.reads with
    | true =>
      simp only [if_true, List.getElem?_mapIdx]
      rw [Nat.add_sub_cancel' hle]
    | false => simp
  · rfl

theorem fetch_none (h : ∀ w ∈ s.reads, ¬ w.Has a) : s.fetch a = none := by
  unfold Station.fetch
  rw [List.find?_eq_none.mpr fun w hw => by simpa using h w hw]
  rfl

theorem fetch_one {w : Window} (hone : s.reads = [w]) (h : w.Has a) :
    s.fetch a = some (s.memory (w.phys + (a - w.start))) := by
  unfold Station.fetch
  rw [hone, List.find?_singleton, if_pos (decide_eq_true h)]
  rfl

theorem fill_at_silent (h : ∀ w ∈ s.reads, ¬ w.Has a) : (s.fill d).at a = d.at a := by
  rw [fill_at, fetch_none s h]
  simp

theorem stored_one {writes : List Window} {w : Window} (hone : writes = [w]) (hp : w.phys ≤ p)
    (hlt : p < w.phys + w.length) : stored writes d p = d.at (w.start + (p - w.phys)) := by
  unfold stored
  rw [hone, List.findSome?_singleton, if_pos ⟨hp, hlt⟩]

end Station

/-! ## All stations -/

section Stations
variable {s : Station α} {a k : ℕ}

/-- No station reads from the address. -/
def Silent (stations : List (Station α)) (a : ℕ) : Prop := ∀ s ∈ stations, ∀ w ∈ s.reads, ¬ w.Has a

@[simp] theorem carry_start (takes : ℕ → Bool) (stations : List (Station α)) (d : Datagram α) :
    (carry takes stations d).start = d.start := by
  induction stations generalizing takes d with
  | nil => rfl
  | cons s stations ih =>
    rw [carry, ih]
    split <;> rfl

@[simp] theorem carry_length (takes : ℕ → Bool) (stations : List (Station α)) (d : Datagram α) :
    (carry takes stations d).cells.length = d.cells.length := by
  induction stations generalizing takes d with
  | nil => rfl
  | cons s stations ih =>
    rw [carry, ih]
    split
    · exact fill_length s d
    · rfl

@[simp] theorem carry_writes (takes : ℕ → Bool) (stations : List (Station α)) (d : Datagram α) :
    (carry takes stations d).writes = d.writes := by
  induction stations generalizing takes d with
  | nil => rfl
  | cons s stations ih =>
    rw [carry, ih]
    split <;> rfl

theorem carry_at_silent {stations : List (Station α)} (takes : ℕ → Bool) (d : Datagram α)
    (h : Silent stations a) : (carry takes stations d).at a = d.at a := by
  induction stations generalizing takes d with
  | nil => rfl
  | cons s stations ih =>
    rw [carry, ih _ _ fun t ht => h t (List.mem_cons_of_mem _ ht)]
    split
    · exact fill_at_silent s d (h s List.mem_cons_self)
    · rfl

/-- Only station `k` reads from the address. -/
def Alone (stations : List (Station α)) (k a : ℕ) : Prop :=
  ∀ n s, stations[n]? = some s → n ≠ k → ∀ w ∈ s.reads, ¬ w.Has a

/-- What comes back for an address of one station. -/
theorem carry_at_answer {stations : List (Station α)} {takes : ℕ → Bool} {d : Datagram α}
    (hreads : d.reads = true) (hs : stations[k]? = some s) (halone : Alone stations k a) {v : α}
    (hv : s.fetch a = some v) :
    (carry takes stations d).at a = (d.at a).map fun c => if takes k then v else c := by
  induction stations generalizing takes d k with
  | nil => cases hs
  | cons t stations ih =>
    rw [carry]
    cases k with
    | zero =>
      obtain rfl : t = s := by simpa using hs
      rw [carry_at_silent]
      · split
        · rw [fill_at, hreads, hv]
          simp
        · simp
      · intro u hu
        obtain ⟨n, hn⟩ := List.mem_iff_getElem?.mp hu
        exact halone (n + 1) u (by simpa using hn) (by omega)
    | succ k =>
      have hfirst : ∀ w ∈ t.reads, ¬ w.Has a := halone 0 t rfl (by omega)
      rw [ih (by split <;> simp [hreads]) (by simpa using hs)]
      · congr 1
        split
        · exact fill_at_silent t d hfirst
        · rfl
      · intro n u hu hne
        exact halone (n + 1) u (by simpa using hu) (by omega)

/-- A station behind the datagram, which has come to it through the stations before it. -/
theorem after_get (takes : ℕ → Bool) {stations : List (Station α)} (d : Datagram α)
    (hs : stations[k]? = some s) : (after takes stations d)[k]? =
      some (if takes k then s.take (carry takes (stations.take k) d) else s) := by
  induction stations generalizing takes d k with
  | nil => cases hs
  | cons t stations ih =>
    rw [after]
    cases k with
    | zero =>
      obtain rfl : t = s := by simpa using hs
      rfl
    | succ k =>
      rw [List.getElem?_cons_succ, ih _ _ (by simpa using hs)]
      rfl

theorem after_windows (takes : ℕ → Bool) (stations : List (Station α)) (d : Datagram α) :
    (after takes stations d).map (fun s => (s.reads, s.writes)) =
      stations.map fun s => (s.reads, s.writes) := by
  induction stations generalizing takes d with
  | nil => rfl
  | cons s stations ih =>
    rw [after, List.map_cons, List.map_cons, ih]
    split <;> rfl

theorem counted_eq (takes : ℕ → Bool) (stations : List (Station α)) (d : Datagram α) :
    counted takes stations d = (stations.mapIdx fun k s => if takes k then s.count d else 0).sum := by
  induction stations generalizing takes with
  | nil => rfl
  | cons s stations ih => rw [counted, ih, List.mapIdx_cons, List.sum_cons]

theorem counted_congr {stations stations' : List (Station α)} (takes : ℕ → Bool) (d : Datagram α)
    (h : stations'.map (fun s => (s.reads, s.writes)) = stations.map fun s => (s.reads, s.writes)) :
    counted takes stations' d = counted takes stations d := by
  induction stations generalizing takes stations' with
  | nil =>
    rw [List.map_eq_nil_iff.mp h]
  | cons s stations ih =>
    cases stations' with
    | nil => cases h
    | cons s' stations' =>
      rw [List.map_cons, List.map_cons, List.cons.injEq, Prod.mk.injEq] at h
      rw [counted, counted, ih _ h.2]
      simp only [Station.count, h.1.1, h.1.2]

end Stations

/-! ## A row of datagrams -/

section Rounds
variable {s : Station α} {a k p : ℕ}

/-- The stations behind a row of datagrams, each with the stations that take part in it. -/
def rounds : List (Datagram α × (ℕ → Bool)) → List (Station α) → List (Station α)
  | [], stations => stations
  | (d, takes) :: row, stations => rounds row (after takes stations d)

/-- The datagrams behind the stations, with their working counters. -/
def replies : List (Datagram α × (ℕ → Bool)) → List (Station α) → List (Datagram α × ℕ)
  | [], _ => []
  | (d, takes) :: row, stations =>
    (carry takes stations d, counted takes stations d) :: replies row (after takes stations d)

theorem rounds_append (row row' : List (Datagram α × (ℕ → Bool))) (stations : List (Station α)) :
    rounds (row ++ row') stations = rounds row' (rounds row stations) := by
  induction row generalizing stations with
  | nil => rfl
  | cons d row ih => exact ih _

theorem rounds_windows (row : List (Datagram α × (ℕ → Bool))) (stations : List (Station α)) :
    (rounds row stations).map (fun s => (s.reads, s.writes)) =
      stations.map fun s => (s.reads, s.writes) := by
  induction row generalizing stations with
  | nil => rfl
  | cons d row ih => rw [rounds, ih, after_windows]

theorem replies_get {row : List (Datagram α × (ℕ → Bool))} {n : ℕ} {d : Datagram α} {takes : ℕ → Bool}
    (stations : List (Station α)) (h : row[n]? = some (d, takes)) :
    (replies row stations)[n]? =
      some (carry takes (rounds (row.take n) stations) d, counted takes stations d) := by
  induction row generalizing n stations with
  | nil => cases h
  | cons first row ih =>
    cases n with
    | zero =>
      obtain rfl : first = (d, takes) := by simpa using h
      rfl
    | succ n =>
      rw [replies, List.getElem?_cons_succ, ih _ (by simpa using h), List.take_succ_cons, rounds,
        counted_congr _ _ (after_windows _ _ _)]

theorem silent_congr {stations stations' : List (Station α)}
    (h : stations'.map (fun s => (s.reads, s.writes)) = stations.map fun s => (s.reads, s.writes))
    (hsilent : Silent stations a) : Silent stations' a := by
  intro s hs w hw
  have hmem : (s.reads, s.writes) ∈ stations.map fun s => (s.reads, s.writes) :=
    h ▸ List.mem_map_of_mem hs
  obtain ⟨t, ht, heq⟩ := List.mem_map.mp hmem
  have hreads : t.reads = s.reads := congrArg Prod.fst heq
  exact hsilent t ht w (hreads ▸ hw)

theorem alone_congr {stations stations' : List (Station α)}
    (h : stations'.map (fun s => (s.reads, s.writes)) = stations.map fun s => (s.reads, s.writes))
    (halone : Alone stations k a) : Alone stations' k a := by
  intro n s hs hne w hw
  have hget := congrArg (fun l => l[n]?) h
  simp only [List.getElem?_map, hs] at hget
  obtain ⟨t, ht, heq⟩ := Option.map_eq_some_iff.mp hget.symm
  have hreads : t.reads = s.reads := congrArg Prod.fst heq
  exact halone n t ht hne w (hreads ▸ hw)

/-- A cell of a station's memory that a row of datagrams leaves alone. -/
theorem rounds_memory_skip (row : List (Datagram α × (ℕ → Bool))) {stations : List (Station α)}
    (hs : stations[k]? = some s)
    (hskip : ∀ x ∈ row, x.1.writes = true → ∀ w ∈ s.writes, w.phys ≤ p → p < w.phys + w.length →
      ¬ x.1.Has (w.start + (p - w.phys))) :
    ∃ s', (rounds row stations)[k]? = some s' ∧ s'.reads = s.reads ∧ s'.writes = s.writes ∧
      s'.memory p = s.memory p := by
  induction row generalizing stations s with
  | nil => exact ⟨s, hs, rfl, rfl, rfl⟩
  | cons x row ih =>
    obtain ⟨d, takes⟩ := x
    have hnone : d.writes = true → stored s.writes (carry takes (stations.take k) d) p = none := by
      intro hwrites
      apply List.findSome?_eq_none_iff.mpr
      intro w hw
      split
      · next hp =>
        apply at_of_not_has
        have := hskip _ List.mem_cons_self hwrites w hw hp.1 hp.2
        simpa [Datagram.Has] using this
      · rfl
    have hnext := after_get takes d hs
    obtain ⟨s', hs', hreads, hwrites, hmem⟩ := ih hnext (by
      intro x hx hwr w hw
      refine hskip x (List.mem_cons_of_mem _ hx) hwr w ?_
      split at hw <;> exact hw)
    refine ⟨s', hs', ?_, ?_, ?_⟩
    · rw [hreads]
      split <;> rfl
    · rw [hwrites]
      split <;> rfl
    · rw [hmem]
      split
      · simp only [Station.take, carry_writes]
        split
        · next hwr =>
          simp only [hnone hwr, Option.getD_none]
        · rfl
      · rfl

/-- A cell of a station's memory that one datagram of the row writes. -/
theorem rounds_memory_write {pre post : List (Datagram α × (ℕ → Bool))} {d : Datagram α}
    {takes : ℕ → Bool} {stations : List (Station α)} {w : Window} {c : α} (hs : stations[k]? = some s)
    (hone : s.writes = [w]) (hp : w.phys ≤ p) (hlt : p < w.phys + w.length)
    (hothers : ∀ x ∈ pre ++ post, x.1.writes = true → ¬ x.1.Has (w.start + (p - w.phys)))
    (hwrites : d.writes = true) (hc : d.at (w.start + (p - w.phys)) = some c)
    (hsilent : Silent stations (w.start + (p - w.phys))) :
    ∃ s', (rounds (pre ++ (d, takes) :: post) stations)[k]? = some s' ∧
      s'.memory p = if takes k then c else s.memory p := by
  have hskip : ∀ row : List (Datagram α × (ℕ → Bool)), (∀ x ∈ row, x ∈ pre ++ post) → ∀ x ∈ row,
      x.1.writes = true → ∀ v ∈ s.writes, v.phys ≤ p → p < v.phys + v.length →
        ¬ x.1.Has (v.start + (p - v.phys)) := by
    intro row hsub x hx hwr v hv _ _
    obtain rfl : v = w := by simpa [hone] using hv
    exact hothers x (hsub x hx) hwr
  obtain ⟨s₁, hs₁, -, hwr₁, hmem₁⟩ :=
    rounds_memory_skip pre hs (hskip pre fun x hx => List.mem_append_left _ hx)
  have hs₂ := after_get takes d hs₁
  obtain ⟨s', hs', -, -, hmem⟩ := rounds_memory_skip (p := p) post hs₂ (by
    intro x hx hwr v hv
    refine hskip post (fun x hx => List.mem_append_right _ hx) x hx hwr v ?_
    rw [← hwr₁]
    split at hv <;> exact hv)
  refine ⟨s', by rw [rounds_append]; exact hs', ?_⟩
  rw [hmem]
  split
  · simp only [Station.take, carry_writes, hwrites, if_true]
    rw [stored_one _ (hwr₁.trans hone) hp hlt, carry_at_silent, hc]
    · rfl
    · intro t ht
      exact silent_congr (rounds_windows pre stations) hsilent t (List.mem_of_mem_take ht)
  · exact hmem₁

end Rounds
end LogicalBus
