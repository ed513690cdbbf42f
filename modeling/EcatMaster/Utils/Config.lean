import EcatMaster.Utils.Io

/-! # `utils/config_utils.cpp`: the configuration store

The configuration is one map from flattened keys to typed values. `getFieldAs` looks a key up and
unwraps one alternative of the variant; a missing key is a `std::runtime_error`, a value of another
type a `std::bad_variant_access`, and only the first is caught where a default is given. `build_buf`
works in a scratch buffer of the store that it clears on entry.
-/

namespace EcatMaster
set_option autoImplicit false
open ByteBuf

/-- How an operation of the program can end other than by returning; `nullTaskWrapper` is a call through the
`unique_ptr` that an unknown task type leaves empty. -/
inductive Fault where
  | runtimeError (what : String)
  | badVariantAccess
  | nullTaskWrapper
deriving DecidableEq, Repr

theorem bind_eq_ok {α β : Type} {x : Except Fault α} {f : α → Except Fault β} {b : β} :
    (x >>= f) = .ok b ↔ ∃ a, x = .ok a ∧ f a = .ok b := by
  cases x with
  | error e =>
    constructor
    · intro h
      cases h
    · rintro ⟨a, ha, -⟩
      cases ha
  | ok a =>
    constructor
    · intro h
      exact ⟨a, rfl, h⟩
    · rintro ⟨a', ha, h⟩
      cases ha
      exact h

inductive Variant where
  | uint8 (v : UInt8)
  | uint16 (v : UInt16)
  | int8 (v : Int8)
  | int16 (v : Int16)
  | uint32 (v : UInt32)
  | int32 (v : Int32)
  | float (v : F32)
  | string (v : String)
  | bool (v : Bool)
deriving DecidableEq, Repr

/-- `std::get<T>` on the variant. -/
class VariantGet (T : Type) where
  get? : Variant → Option T

instance : VariantGet UInt8 := ⟨fun | .uint8 v => some v | _ => none⟩
instance : VariantGet UInt16 := ⟨fun | .uint16 v => some v | _ => none⟩
instance : VariantGet UInt32 := ⟨fun | .uint32 v => some v | _ => none⟩
instance : VariantGet F32 := ⟨fun | .float v => some v | _ => none⟩
instance : VariantGet String := ⟨fun | .string v => some v | _ => none⟩

structure ConfigurationParser where
  fields : String → Option Variant
  tempBuf : List UInt8
  offset : ℕ

namespace ConfigurationParser

def new : ConfigurationParser := ⟨fun _ => none, List.replicate 1024 0, 0⟩

def set (self : ConfigurationParser) (key : String) (value : Variant) : ConfigurationParser :=
  { self with fields := fun k => if k = key then some value else self.fields k }

def get (self : ConfigurationParser) (key : String) : Except Fault Variant :=
  match self.fields key with
  | some v => .ok v
  | none => .error (.runtimeError ("get Key not found: " ++ key))

/-- What `std::visit` writes for one value; a string or a bool writes nothing. -/
def writeVariant : Variant → Cursor → Cursor
  | .uint8 v, c => writeUint8 v c
  | .int8 v, c => writeInt8 v c
  | .uint16 v, c => writeUint16 v c
  | .int16 v, c => writeInt16 v c
  | .uint32 v, c => writeUint32 v c
  | .int32 v, c => writeInt32 v c
  | .float v, c => writeFloat v c
  | .string _, c => c
  | .bool _, c => c

def buildFields (self : ConfigurationParser) (pfx : String) :
    List String → Cursor → Except Fault Cursor
  | [], c => .ok c
  | name :: names, c => do
    let v ← self.get (pfx ++ name)
    self.buildFields pfx names (writeVariant v c)

/-- `build_buf`: the scratch buffer and how much of it is filled, and the store that owns them. -/
def buildBuf (self : ConfigurationParser) (pfx : String) (names : List String) :
    Except Fault (Cursor × ConfigurationParser) := do
  let c ← self.buildFields pfx names (List.replicate 1024 0, 0)
  return (c, { self with tempBuf := c.1, offset := c.2 })

end ConfigurationParser

/-- `get_field_as<T>(data, whole_key)` -/
def getFieldAs (T : Type) [VariantGet T] (data : ConfigurationParser) (wholeKey : String) :
    Except Fault T := do
  match VariantGet.get? (← data.get wholeKey) with
  | some v => return v
  | none => throw .badVariantAccess

/-- `get_field_as<T>(data, whole_key, default_value)` -/
def getFieldAsOr {T : Type} [VariantGet T] (data : ConfigurationParser) (wholeKey : String)
    (defaultValue : T) : Except Fault T :=
  match getFieldAs T data wholeKey with
  | .error (.runtimeError _) => .ok defaultValue
  | r => r

/-- `sn{}_{}` -/
def slaveKey (sn : UInt32) (suffix : String) : String :=
  "sn" ++ toString sn.toNat ++ "_" ++ suffix

/-- `sn{}_app_{}_{}` -/
def appKey (sn : UInt32) (appIdx : ℕ) (suffix : String) : String :=
  "sn" ++ toString sn.toNat ++ "_app_" ++ toString appIdx ++ "_" ++ suffix

/-! ## The bytes `build_buf` collects -/

/-- The bytes of one value in the argument stream. -/
def Variant.bytes : Variant → List UInt8
  | .uint8 v => [v]
  | .int8 v => [v.toUInt8]
  | .uint16 v => le16 v
  | .int16 v => le16 v.toUInt16
  | .uint32 v => le32 v
  | .int32 v => le32 v.toUInt32
  | .float v => le32 v.bits
  | .string _ => []
  | .bool _ => []

theorem Variant.bytes_length_le (v : Variant) : v.bytes.length ≤ 4 := by
  cases v <;> simp [Variant.bytes]

namespace ConfigurationParser

theorem writeVariant_eq (v : Variant) (c : Cursor) : writeVariant v c = putC v.bytes c := by
  cases v <;> rfl

/-- The values under the names, in order. -/
def fieldValues (self : ConfigurationParser) (pfx : String) (names : List String) :
    Except Fault (List Variant) :=
  names.mapM fun name => self.get (pfx ++ name)

theorem buildFields_eq (self : ConfigurationParser) (pfx : String) (names : List String)
    (c : Cursor) :
    self.buildFields pfx names c =
      (self.fieldValues pfx names).map fun vs => putC (vs.flatMap Variant.bytes) c := by
  induction names generalizing c with
  | nil => rfl
  | cons name names ih =>
    unfold fieldValues at ih ⊢
    rw [List.mapM_cons]
    show (self.get (pfx ++ name) >>= fun v => self.buildFields pfx names (writeVariant v c)) = _
    cases self.get (pfx ++ name) with
    | error e => rfl
    | ok v =>
      show self.buildFields pfx names (writeVariant v c) = _
      rw [ih, writeVariant_eq]
      show _ = ((names.mapM fun name => self.get (pfx ++ name)) >>= fun vs =>
        pure (v :: vs)).map _
      cases names.mapM fun name => self.get (pfx ++ name) with
      | error e => rfl
      | ok vs =>
        show Except.ok (putC (vs.flatMap Variant.bytes) (putC v.bytes c)) =
          Except.ok (putC ((v :: vs).flatMap Variant.bytes) c)
        rw [List.flatMap_cons, putC_putC]

theorem get_eq_ok {self : ConfigurationParser} {key : String} {v : Variant} :
    self.get key = .ok v ↔ self.fields key = some v := by
  unfold get
  cases self.fields key with
  | none => simp
  | some w => simp

theorem fieldValues_eq_ok {self : ConfigurationParser} {pfx : String} {names : List String}
    {vs : List Variant} : self.fieldValues pfx names = .ok vs ↔
      List.Forall₂ (fun name v => self.fields (pfx ++ name) = some v) names vs := by
  induction names generalizing vs with
  | nil =>
    constructor
    · intro h
      obtain rfl := Except.ok.inj h
      exact .nil
    · intro h
      cases h
      rfl
  | cons name names ih =>
    unfold fieldValues at ih ⊢
    rw [List.mapM_cons, bind_eq_ok]
    constructor
    · rintro ⟨v, hv, h⟩
      obtain ⟨ws, hws, h⟩ := bind_eq_ok.mp h
      cases h
      exact .cons (get_eq_ok.mp hv) (ih.mp hws)
    · intro h
      cases h with
      | cons hv hws => exact ⟨_, get_eq_ok.mpr hv, bind_eq_ok.mpr ⟨_, ih.mpr hws, rfl⟩⟩

theorem fieldValues_bytes_length {self : ConfigurationParser} {pfx : String} {names : List String}
    {vs : List Variant} (h : self.fieldValues pfx names = .ok vs) :
    (vs.flatMap Variant.bytes).length ≤ 4 * names.length := by
  rw [fieldValues_eq_ok] at h
  induction h with
  | nil => exact Nat.zero_le _
  | cons _ _ ih =>
    have hle := Variant.bytes_length_le ‹_›
    rw [List.flatMap_cons, List.length_append, List.length_cons]
    omega

end ConfigurationParser

/-! ## Typed lookups and keys -/

section Lookup
variable {T : Type} [VariantGet T] {cfg : ConfigurationParser} {key : String}

theorem getFieldAs_eq_ok {a : T} (h : getFieldAs T cfg key = .ok a) :
    ∃ v, cfg.fields key = some v ∧ VariantGet.get? v = some a := by
  unfold getFieldAs at h
  obtain ⟨v, hv, h⟩ := bind_eq_ok.mp h
  refine ⟨v, ConfigurationParser.get_eq_ok.mp hv, ?_⟩
  split at h
  · next hget =>
    cases h
    exact hget
  · cases h

theorem getFieldAs_uint8 {v : UInt8} (h : getFieldAs UInt8 cfg key = .ok v) :
    cfg.fields key = some (.uint8 v) := by
  obtain ⟨w, hw, hget⟩ := getFieldAs_eq_ok h
  cases w <;> cases hget
  exact hw

theorem getFieldAs_uint32 {v : UInt32} (h : getFieldAs UInt32 cfg key = .ok v) :
    cfg.fields key = some (.uint32 v) := by
  obtain ⟨w, hw, hget⟩ := getFieldAs_eq_ok h
  cases w <;> cases hget
  exact hw

/-- A lookup never calls a task. -/
theorem getFieldAs_error {e : Fault} (h : getFieldAs T cfg key = .error e) :
    e ≠ .nullTaskWrapper := by
  rintro rfl
  unfold getFieldAs ConfigurationParser.get at h
  cases hkey : cfg.fields key with
  | none =>
    rw [hkey] at h
    cases h
  | some v =>
    cases hget : (VariantGet.get? v : Option T) with
    | none => simp [hkey, hget, bind, Except.bind, throw, throwThe, MonadExceptOf.throw] at h
    | some a => simp [hkey, hget, bind, Except.bind, pure, Except.pure] at h

end Lookup

theorem appKey_append (sn : UInt32) (appIdx : ℕ) (s t : String) :
    appKey sn appIdx s ++ t = appKey sn appIdx (s ++ t) := by
  unfold appKey
  simp only [String.append_assoc]

end EcatMaster
