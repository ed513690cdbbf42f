import Mathlib.Data.List.Basic

/-! # Records whose fields decide what follows

A `Parser` takes a value off the front of a list of symbols. `Parses p bs a` says that `p` takes
exactly `bs` off and yields `a`, whatever comes after, so what two parsers do in sequence follows from
what each does, and a list of symbols is never parsed in two ways.

A `Schema` is a record format without lengths: each field is read next, and its value decides what the
rest of the record is. Whatever record has been written field by field, the schema reads it back.
-/

namespace Schema
set_option autoImplicit false

universe u
variable {σ : Type u} {α β : Type u}

/-- What takes a value off the front. -/
abbrev Parser (σ α : Type u) := StateT (List σ) Option α

/-- `p` takes exactly `bs` off the front and yields `a`. -/
def Parses (p : Parser σ α) (bs : List σ) (a : α) : Prop :=
  ∀ rest, p (bs ++ rest) = some (a, rest)

theorem Parses.pure (a : α) : Parses (Pure.pure a : Parser σ α) [] a := fun _ => rfl

theorem Parses.bind {p : Parser σ α} {f : α → Parser σ β} {bs cs : List σ} {a : α} {b : β}
    (hp : Parses p bs a) (hf : Parses (f a) cs b) : Parses (p >>= f) (bs ++ cs) b := by
  intro rest
  show (p (bs ++ cs ++ rest) >>= fun r => f r.1 r.2) = _
  rw [List.append_assoc, hp]
  exact hf rest

theorem Parses.map {p : Parser σ α} {bs : List σ} {a : α} (hp : Parses p bs a) (f : α → β) :
    Parses (p >>= fun a => Pure.pure (f a)) bs (f a) := by
  have h := hp.bind (f := fun a => (Pure.pure (f a) : Parser σ β)) (Parses.pure (f a))
  rw [List.append_nil] at h
  exact h

/-- The value of a whole list of symbols. -/
def decode (p : Parser σ α) (bs : List σ) : Option α := (p bs).map Prod.fst

theorem Parses.decode {p : Parser σ α} {bs : List σ} {a : α} (h : Parses p bs a) :
    decode p bs = some a := by
  have hrun := h []
  rw [List.append_nil] at hrun
  unfold Schema.decode
  rw [hrun]
  rfl

end Schema

/-- Read the field called `name`; what comes after it depends on its value. -/
inductive Schema (N V : Type) where
  | stop
  | field (name : N) (next : V → Schema N V)

namespace Schema
variable {N V σ : Type}

/-- Fields that decide nothing, and what comes after them. -/
def fields : List N → Schema N V → Schema N V
  | [], next => next
  | name :: names, next => .field name fun _ => fields names next

/-- The record that the values `get` give, if every field it needs is there. -/
def record (get : N → Option V) : Schema N V → Option (List (N × V))
  | .stop => some []
  | .field name next => do
    let v ← get name
    let rest ← (next v).record get
    return (name, v) :: rest

/-- Reading a record, field by field. -/
def read (parse : N → Parser σ V) : Schema N V → Parser σ (List (N × V))
  | .stop => pure []
  | .field name next => do
    let v ← parse name
    let rest ← (next v).read parse
    return (name, v) :: rest

/-- The symbols of a record. -/
def symbols (write : V → List σ) (r : List (N × V)) : List σ := r.flatMap fun f => write f.2

theorem record_field {get : N → Option V} {name : N} {next : V → Schema N V}
    {r : List (N × V)} : (Schema.field name next).record get = some r ↔
      ∃ v rest, get name = some v ∧ (next v).record get = some rest ∧ r = (name, v) :: rest := by
  show ((get name).bind fun v => ((next v).record get).bind fun rest => some ((name, v) :: rest)) =
    some r ↔ _
  rw [Option.bind_eq_some_iff]
  constructor
  · rintro ⟨v, hv, h⟩
    obtain ⟨rest, hrest, h⟩ := Option.bind_eq_some_iff.mp h
    exact ⟨v, rest, hv, hrest, (Option.some.inj h).symm⟩
  · rintro ⟨v, rest, hv, hrest, rfl⟩
    exact ⟨v, hv, Option.bind_eq_some_iff.mpr ⟨rest, hrest, rfl⟩⟩

/-- Fields with the values `vs`, and then the rest of the record. -/
theorem record_fields {get : N → Option V} {names : List N} {vs : List V} {next : Schema N V}
    {r : List (N × V)} (h : List.Forall₂ (fun name v => get name = some v) names vs)
    (hr : next.record get = some r) :
    (fields names next).record get = some (names.zip vs ++ r) := by
  induction h with
  | nil => exact hr
  | cons hv _ ih => exact record_field.mpr ⟨_, _, hv, ih, rfl⟩

theorem get_of_mem_record {get : N → Option V} {s : Schema N V} {r : List (N × V)}
    (hr : s.record get = some r) : ∀ f ∈ r, get f.1 = some f.2 := by
  induction s generalizing r with
  | stop =>
    obtain rfl := Option.some.inj hr
    exact fun f hf => absurd hf List.not_mem_nil
  | field name next ih =>
    obtain ⟨v, rest, hv, hrest, rfl⟩ := record_field.mp hr
    intro f hf
    obtain rfl | hf := List.mem_cons.mp hf
    · exact hv
    · exact ih v hrest f hf

/-- Only the value that is there decides what follows a field. -/
theorem record_of_get {get : N → Option V} {name : N} {v : V} (h : get name = some v)
    (next : V → Schema N V) :
    (Schema.field name next).record get = (Schema.field name fun _ => next v).record get := by
  show ((get name).bind fun v => _) = ((get name).bind fun _ => _)
  rw [h]
  rfl

theorem record_fields_congr {get : N → Option V} (names : List N) {s t : Schema N V}
    (h : s.record get = t.record get) :
    (fields names s).record get = (fields names t).record get := by
  induction names with
  | nil => exact h
  | cons name names ih =>
    show ((get name).bind fun v => ((fields names s).record get).bind _) =
      ((get name).bind fun v => ((fields names t).record get).bind _)
    rw [ih]

theorem symbols_append (write : V → List σ) (r s : List (N × V)) :
    symbols write (r ++ s) = symbols write r ++ symbols write s := List.flatMap_append

theorem symbols_zip (write : V → List σ) {names : List N} {vs : List V}
    (h : vs.length ≤ names.length) : symbols write (names.zip vs) = vs.flatMap write := by
  induction vs generalizing names with
  | nil => rw [List.zip_nil_right]; rfl
  | cons v vs ih =>
    cases names with
    | nil => exact absurd h (Nat.not_succ_le_zero _)
    | cons name names =>
      show write v ++ symbols write (names.zip vs) = _
      rw [ih (Nat.le_of_succ_le_succ h), List.flatMap_cons]

/-- **What a schema has written it reads back**, if each field can be read back. -/
theorem parses_read {get : N → Option V} {parse : N → Parser σ V} {write : V → List σ}
    {s : Schema N V} {r : List (N × V)} (hr : s.record get = some r)
    (hfield : ∀ f ∈ r, Parses (parse f.1) (write f.2) f.2) :
    Parses (s.read parse) (symbols write r) r := by
  induction s generalizing r with
  | stop =>
    obtain rfl := Option.some.inj hr
    exact Parses.pure []
  | field name next ih =>
    obtain ⟨v, rest, -, hrest, rfl⟩ := record_field.mp hr
    have htail := ih v hrest fun f hf => hfield f (List.mem_cons_of_mem _ hf)
    exact (hfield (name, v) List.mem_cons_self).bind (htail.map fun rest => (name, v) :: rest)

end Schema
