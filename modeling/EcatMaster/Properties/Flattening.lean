import Mathlib.Data.List.Nodup
import EcatMaster.Lib.Store
import EcatMaster.Utils.Yaml

/-! # Flattening loses and confuses nothing

The names of the slaves, the tasks and the fields are joined into one key, and the name of the task
list is dropped. Numbers end at the first underscore and no field of a slave starts with `app_`, so
the scalars of the file keep keys of their own, and each of them is found again by the format strings
of the lookups.
-/

namespace EcatMaster
set_option autoImplicit false

/-! ## The documents -/

/-- A tagged scalar under its key. -/
structure YamlScalar where
  key : String
  tag : String
  text : String

structure YamlTask where
  app : UInt16
  fields : List YamlScalar

/-- What stands in the map of a slave: scalars, and the list of its tasks. -/
inductive SlaveEntry where
  | scalar (s : YamlScalar)
  | tasks (name : String) (items : List (List YamlTask))

structure YamlSlave where
  sn : UInt32
  entries : List SlaveEntry

def YamlScalar.pair (s : YamlScalar) : String × YamlNode := (s.key, .scalar s.tag s.text)

def YamlTask.pair (t : YamlTask) : String × YamlNode :=
  ("app_" ++ toString t.app.toNat, .map (t.fields.map YamlScalar.pair))

def SlaveEntry.pair : SlaveEntry → String × YamlNode
  | .scalar s => s.pair
  | .tasks name items => (name, .sequence (items.map fun item => .map (item.map YamlTask.pair)))

def YamlSlave.pair (s : YamlSlave) : String × YamlNode :=
  ("sn" ++ toString s.sn.toNat, .map (s.entries.map SlaveEntry.pair))

/-- The node under `slaves`. -/
def slavesNode (slaves : List (List YamlSlave)) : YamlNode :=
  .sequence (slaves.map fun item => .map (item.map YamlSlave.pair))

def YamlSlave.fields (s : YamlSlave) : List YamlScalar :=
  s.entries.flatMap fun
    | .scalar f => [f]
    | .tasks _ _ => []

def YamlSlave.tasks (s : YamlSlave) : List YamlTask :=
  s.entries.flatMap fun
    | .scalar _ => []
    | .tasks _ items => items.flatten

/-- The numbers and the keys are distinct where they stand together, and every scalar has a supported
tag and a text of that type. -/
structure WellFormed (yaml : YamlAs) (slaves : List YamlSlave) : Prop where
  numbers : (slaves.map YamlSlave.sn).Nodup
  keys : ∀ s ∈ slaves, (s.fields.map YamlScalar.key).Nodup
  noApp : ∀ s ∈ slaves, ∀ f ∈ s.fields, ¬ "app_".toList <+: f.key.toList
  apps : ∀ s ∈ slaves, (s.tasks.map YamlTask.app).Nodup
  taskKeys : ∀ s ∈ slaves, ∀ t ∈ s.tasks, (t.fields.map YamlScalar.key).Nodup
  typed : ∀ s ∈ slaves, ∀ f ∈ s.fields, ∃ v, yaml.value f.tag f.text = .ok v
  taskTyped : ∀ s ∈ slaves, ∀ t ∈ s.tasks, ∀ f ∈ t.fields, ∃ v, yaml.value f.tag f.text = .ok v

/-- The typed scalar `v` is written under this key. -/
def Holds (yaml : YamlAs) (fields : List YamlScalar) (key : String) (v : Variant) : Prop :=
  ∃ f ∈ fields, f.key = key ∧ yaml.value f.tag f.text = .ok v

def SlaveHolds (yaml : YamlAs) (slaves : List YamlSlave) (sn : UInt32) (key : String) (v : Variant) :
    Prop :=
  ∃ s ∈ slaves, s.sn = sn ∧ Holds yaml s.fields key v

def TaskHolds (yaml : YamlAs) (slaves : List YamlSlave) (sn : UInt32) (app : UInt16) (key : String)
    (v : Variant) : Prop :=
  ∃ s ∈ slaves, s.sn = sn ∧ ∃ t ∈ s.tasks, t.app = app ∧ Holds yaml t.fields key v

/-- A lookup returns exactly the scalars that satisfy `P`, as a variant and by its type, and fails when
there is none. -/
structure Returns (cfg : ConfigurationParser) (key : String) (P : Variant → Prop) : Prop where
  get : ∀ v, cfg.get key = .ok v ↔ P v
  getAs : ∀ (T : Type) [VariantGet T] (a : T),
    getFieldAs T cfg key = .ok a ↔ ∃ v, P v ∧ VariantGet.get? v = some a
  missing : (∀ v, ¬ P v) → cfg.get key = .error (.runtimeError ("get Key not found: " ++ key))

/-! ## What a step of the parser sets -/

namespace ConfigurationParser
variable {yaml : YamlAs}

def setAll (self : ConfigurationParser) (ws : List (String × Variant)) : ConfigurationParser :=
  { self with fields := Store.assignAll self.fields ws }

/-- `f` returns, and does nothing but make these assignments. -/
def Sets (f : ConfigurationParser → Except Fault ConfigurationParser)
    (ws : List (String × Variant)) : Prop :=
  ∀ self, f self = .ok (self.setAll ws)

theorem Sets.nil : Sets (fun self => return self) [] := fun _ => rfl

theorem Sets.bind {f g : ConfigurationParser → Except Fault ConfigurationParser}
    {ws us : List (String × Variant)} (hf : Sets f ws) (hg : Sets g us) :
    Sets (fun self => do g (← f self)) (ws ++ us) := by
  intro self
  show (f self >>= g) = _
  rw [hf]
  show g (self.setAll ws) = _
  rw [hg]
  unfold setAll
  rw [Store.assignAll_append]

/-- What a scalar sets under its path. -/
def scalarSets (yaml : YamlAs) (path : String) (s : YamlScalar) : List (String × Variant) :=
  match yaml.value s.tag s.text with
  | .ok v => [(joined path s.key, v)]
  | .error _ => []

def fieldsSets (yaml : YamlAs) (path : String) (fields : List YamlScalar) : List (String × Variant) :=
  fields.flatMap (scalarSets yaml path)

def taskSets (yaml : YamlAs) (path : String) (tasks : List YamlTask) : List (String × Variant) :=
  tasks.flatMap fun t => fieldsSets yaml (joined path ("app_" ++ toString t.app.toNat)) t.fields

def entrySets (yaml : YamlAs) (path : String) : SlaveEntry → List (String × Variant)
  | .scalar s => scalarSets yaml path s
  | .tasks _ items => taskSets yaml path items.flatten

def slaveSets (yaml : YamlAs) (s : YamlSlave) : List (String × Variant) :=
  s.entries.flatMap (entrySets yaml ("sn" ++ toString s.sn.toNat))

theorem sets_scalar {path : String} {s : YamlScalar} (h : ∃ v, yaml.value s.tag s.text = .ok v) :
    Sets (parseValue yaml path s.key (.scalar s.tag s.text)) (scalarSets yaml path s) := by
  intro self
  obtain ⟨v, hv⟩ := h
  unfold parseValue scalarSets
  rw [hv]
  rfl

theorem sets_fields {path : String} {fields : List YamlScalar}
    (h : ∀ f ∈ fields, ∃ v, yaml.value f.tag f.text = .ok v) :
    Sets (parsePairs yaml path (fields.map YamlScalar.pair)) (fieldsSets yaml path fields) := by
  induction fields with
  | nil => exact Sets.nil
  | cons f fields ih =>
    exact (sets_scalar (h f List.mem_cons_self)).bind (ih fun g hg => h g (List.mem_cons_of_mem f hg))

theorem sets_tasks {path : String} {tasks : List YamlTask}
    (h : ∀ t ∈ tasks, ∀ f ∈ t.fields, ∃ v, yaml.value f.tag f.text = .ok v) :
    Sets (parseEach yaml path (tasks.map YamlTask.pair)) (taskSets yaml path tasks) := by
  induction tasks with
  | nil => exact Sets.nil
  | cons t tasks ih =>
    have htask : Sets (parseMap yaml (joined path ("app_" ++ toString t.app.toNat))
        (.map (t.fields.map YamlScalar.pair))) _ := sets_fields (h t List.mem_cons_self)
    exact htask.bind (ih fun u hu => h u (List.mem_cons_of_mem t hu))

theorem sets_items {path : String} {items : List (List YamlTask)}
    (h : ∀ t ∈ items.flatten, ∀ f ∈ t.fields, ∃ v, yaml.value f.tag f.text = .ok v) :
    Sets (parseItems yaml path (items.map fun item => .map (item.map YamlTask.pair)))
      (taskSets yaml path items.flatten) := by
  induction items with
  | nil => exact Sets.nil
  | cons item items ih =>
    rw [List.flatten_cons] at h ⊢
    have hitem : Sets (parseItem yaml path (.map (item.map YamlTask.pair))) _ :=
      sets_tasks fun t ht => h t (List.mem_append_left _ ht)
    unfold taskSets at hitem ih ⊢
    rw [List.flatMap_append]
    exact hitem.bind (ih fun t ht => h t (List.mem_append_right _ ht))

theorem sets_entry {path : String} {entry : SlaveEntry}
    (h : ∀ s, entry = .scalar s → ∃ v, yaml.value s.tag s.text = .ok v)
    (htasks : ∀ name items, entry = .tasks name items → ∀ t ∈ items.flatten, ∀ f ∈ t.fields,
      ∃ v, yaml.value f.tag f.text = .ok v) :
    Sets (parseValue yaml path entry.pair.1 entry.pair.2) (entrySets yaml path entry) := by
  cases entry with
  | scalar s => exact sets_scalar (h s rfl)
  | tasks name items => exact sets_items (htasks name items rfl)

theorem sets_slave {s : YamlSlave} (h : ∀ f ∈ s.fields, ∃ v, yaml.value f.tag f.text = .ok v)
    (htasks : ∀ t ∈ s.tasks, ∀ f ∈ t.fields, ∃ v, yaml.value f.tag f.text = .ok v) :
    Sets (parseMap yaml s.pair.1 s.pair.2) (slaveSets yaml s) := by
  have hentries (entries : List SlaveEntry) (hsub : ∀ entry ∈ entries, entry ∈ s.entries) :
      Sets (parsePairs yaml s.pair.1 (entries.map SlaveEntry.pair))
        (entries.flatMap (entrySets yaml s.pair.1)) := by
    induction entries with
    | nil => exact Sets.nil
    | cons entry entries ih =>
      have hmem := hsub entry List.mem_cons_self
      refine (sets_entry (fun f hf => ?_) fun name items hitems t ht => ?_).bind
        (ih fun other hother => hsub other (List.mem_cons_of_mem entry hother))
      · subst hf
        exact h f (List.mem_flatMap.mpr ⟨_, hmem, List.mem_singleton.mpr rfl⟩)
      · subst hitems
        exact htasks t (List.mem_flatMap.mpr ⟨_, hmem, ht⟩)
  exact hentries s.entries fun _ h => h

theorem sets_slaves {slaves : List (List YamlSlave)} (h : WellFormed yaml slaves.flatten) :
    Sets (fun self => (slaves.map fun item => YamlNode.map (item.map YamlSlave.pair)).foldlM
      (fun self slave => parseSlave yaml slave self) self) (slaves.flatten.flatMap (slaveSets yaml)) := by
  have hslave : ∀ s ∈ slaves.flatten, Sets (parseMap yaml s.pair.1 s.pair.2) (slaveSets yaml s) :=
    fun s hs => sets_slave (h.typed s hs) (h.taskTyped s hs)
  clear h
  induction slaves with
  | nil => exact Sets.nil
  | cons item slaves ih =>
    rw [List.flatten_cons] at hslave ⊢
    have hitem : Sets (parseSlave yaml (.map (item.map YamlSlave.pair)))
        (item.flatMap (slaveSets yaml)) := by
      have hitem : ∀ s ∈ item, Sets (parseMap yaml s.pair.1 s.pair.2) (slaveSets yaml s) :=
        fun s hs => hslave s (List.mem_append_left _ hs)
      clear ih hslave
      induction item with
      | nil => exact Sets.nil
      | cons s item ih =>
        exact (hitem s List.mem_cons_self).bind (ih fun u hu => hitem u (List.mem_cons_of_mem s hu))
    rw [List.flatMap_append]
    exact hitem.bind (ih fun s hs => hslave s (List.mem_append_right _ hs))

/-! ## Under which keys -/

theorem mem_scalarSets {path k : String} {s : YamlScalar} {v : Variant} :
    (k, v) ∈ scalarSets yaml path s ↔ k = joined path s.key ∧ yaml.value s.tag s.text = .ok v := by
  unfold scalarSets
  cases hv : yaml.value s.tag s.text with
  | ok w =>
    rw [List.mem_singleton, Prod.mk.injEq, Except.ok.injEq]
    exact and_congr_right fun _ => eq_comm
  | error e => simp

theorem mem_fieldsSets {path k : String} {fields : List YamlScalar} {v : Variant} :
    (k, v) ∈ fieldsSets yaml path fields ↔ ∃ key, k = joined path key ∧ Holds yaml fields key v := by
  unfold fieldsSets Holds
  rw [List.mem_flatMap]
  constructor
  · rintro ⟨f, hf, hmem⟩
    obtain ⟨hk, hv⟩ := mem_scalarSets.mp hmem
    exact ⟨f.key, hk, f, hf, rfl, hv⟩
  · rintro ⟨key, hk, f, hf, rfl, hv⟩
    exact ⟨f, hf, mem_scalarSets.mpr ⟨hk, hv⟩⟩

theorem appKey_eq_slaveKey (sn : UInt32) (app : ℕ) (key : String) :
    appKey sn app key = slaveKey sn ("app_" ++ (toString app ++ "_" ++ key)) := by
  have hsep : "_app_" = "_" ++ "app_" := rfl
  unfold appKey slaveKey
  rw [hsep]
  simp only [String.append_assoc]

theorem joined_app (sn : UInt32) (app : ℕ) (key : String) :
    joined (joined ("sn" ++ toString sn.toNat) ("app_" ++ toString app)) key = appKey sn app key := by
  rw [appKey_eq_slaveKey]
  unfold joined slaveKey
  simp only [String.append_assoc]

theorem mem_slaveSets {s : YamlSlave} {k : String} {v : Variant} :
    (k, v) ∈ slaveSets yaml s ↔ (∃ key, k = slaveKey s.sn key ∧ Holds yaml s.fields key v) ∨
      ∃ t ∈ s.tasks, ∃ key, k = appKey s.sn t.app.toNat key ∧ Holds yaml t.fields key v := by
  unfold slaveSets YamlSlave.fields YamlSlave.tasks
  rw [List.mem_flatMap]
  constructor
  · rintro ⟨entry, hentry, hmem⟩
    cases entry with
    | scalar f =>
      obtain ⟨hk, hv⟩ := mem_scalarSets.mp hmem
      exact .inl ⟨f.key, hk, f, List.mem_flatMap.mpr ⟨_, hentry, List.mem_singleton.mpr rfl⟩, rfl, hv⟩
    | tasks name items =>
      obtain ⟨t, ht, hmem⟩ := List.mem_flatMap.mp hmem
      obtain ⟨key, hk, hholds⟩ := mem_fieldsSets.mp hmem
      rw [joined_app] at hk
      exact .inr ⟨t, List.mem_flatMap.mpr ⟨_, hentry, ht⟩, key, hk, hholds⟩
  · rintro (⟨key, hk, f, hf, rfl, hv⟩ | ⟨t, ht, key, hk, hholds⟩)
    · obtain ⟨entry, hentry, hf⟩ := List.mem_flatMap.mp hf
      cases entry with
      | scalar g =>
        obtain rfl := List.mem_singleton.mp hf
        exact ⟨_, hentry, mem_scalarSets.mpr ⟨hk, hv⟩⟩
      | tasks name items => cases hf
    · obtain ⟨entry, hentry, ht⟩ := List.mem_flatMap.mp ht
      cases entry with
      | scalar g => cases ht
      | tasks name items =>
        rw [← joined_app] at hk
        exact ⟨_, hentry, List.mem_flatMap.mpr ⟨t, ht, mem_fieldsSets.mpr ⟨key, hk, hholds⟩⟩⟩

theorem slaveKey_inj {sn sn' : UInt32} {key key' : String}
    (h : slaveKey sn key = slaveKey sn' key') : sn = sn' ∧ key = key' := by
  unfold slaveKey at h
  simp only [String.append_assoc, String.append_right_inj] at h
  obtain ⟨hsn, hkey⟩ := Store.decimal_joined_inj (by simpa only [String.append_assoc] using h)
  exact ⟨UInt32.toNat_inj.mp hsn, hkey⟩

theorem appKey_inj {sn sn' : UInt32} {app app' : UInt16} {key key' : String}
    (h : appKey sn app.toNat key = appKey sn' app'.toNat key') :
    sn = sn' ∧ app = app' ∧ key = key' := by
  rw [appKey_eq_slaveKey, appKey_eq_slaveKey] at h
  obtain ⟨hsn, htail⟩ := slaveKey_inj h
  obtain ⟨happ, hkey⟩ := Store.decimal_joined_inj ((String.append_right_inj _).mp htail)
  exact ⟨hsn, UInt16.toNat_inj.mp happ, hkey⟩

theorem slaveKey_ne_appKey {sn sn' : UInt32} {app : ℕ} {key key' : String}
    (hkey : ¬ "app_".toList <+: key.toList) : slaveKey sn key ≠ appKey sn' app key' := by
  rw [appKey_eq_slaveKey]
  intro h
  rw [(slaveKey_inj h).2, String.toList_append] at hkey
  exact hkey (List.prefix_append _ _)

/-! ## Who sets a key -/

variable {slaves : List YamlSlave}

theorem mem_sets_slaveKey {sn : UInt32} {key : String} {v : Variant}
    (hkey : ¬ "app_".toList <+: key.toList) :
    (slaveKey sn key, v) ∈ slaves.flatMap (slaveSets yaml) ↔ SlaveHolds yaml slaves sn key v := by
  rw [List.mem_flatMap]
  constructor
  · rintro ⟨s, hs, hmem⟩
    obtain ⟨key', hk, hholds⟩ | ⟨t, -, key', hk, -⟩ := mem_slaveSets.mp hmem
    · obtain ⟨rfl, rfl⟩ := slaveKey_inj hk
      exact ⟨s, hs, rfl, hholds⟩
    · exact absurd hk (slaveKey_ne_appKey hkey)
  · rintro ⟨s, hs, rfl, hholds⟩
    exact ⟨s, hs, mem_slaveSets.mpr (.inl ⟨key, rfl, hholds⟩)⟩

theorem mem_sets_appKey (h : WellFormed yaml slaves) {sn : UInt32} {app : UInt16} {key : String}
    {v : Variant} :
    (appKey sn app.toNat key, v) ∈ slaves.flatMap (slaveSets yaml) ↔
      TaskHolds yaml slaves sn app key v := by
  rw [List.mem_flatMap]
  constructor
  · rintro ⟨s, hs, hmem⟩
    obtain ⟨key', hk, f, hf, rfl, -⟩ | ⟨t, ht, key', hk, hholds⟩ := mem_slaveSets.mp hmem
    · exact absurd hk.symm (slaveKey_ne_appKey (h.noApp s hs f hf))
    · obtain ⟨rfl, rfl, rfl⟩ := appKey_inj hk
      exact ⟨s, hs, rfl, t, ht, rfl, hholds⟩
  · rintro ⟨s, hs, rfl, t, ht, rfl, hholds⟩
    exact ⟨s, hs, mem_slaveSets.mpr (.inr ⟨t, ht, key, rfl, hholds⟩)⟩

theorem Holds.unique {fields : List YamlScalar} {key : String} {v w : Variant}
    (h : (fields.map YamlScalar.key).Nodup) (hv : Holds yaml fields key v)
    (hw : Holds yaml fields key w) : v = w := by
  obtain ⟨f, hf, hfk, hv⟩ := hv
  obtain ⟨g, hg, hgk, hw⟩ := hw
  obtain rfl := List.inj_on_of_nodup_map h hf hg (hfk.trans hgk.symm)
  exact Except.ok.inj (hv.symm.trans hw)

theorem SlaveHolds.unique (h : WellFormed yaml slaves) {sn : UInt32} {key : String} {v w : Variant}
    (hv : SlaveHolds yaml slaves sn key v) (hw : SlaveHolds yaml slaves sn key w) : v = w := by
  obtain ⟨s, hs, hsn, hv⟩ := hv
  obtain ⟨s', hs', hsn', hw⟩ := hw
  obtain rfl := List.inj_on_of_nodup_map h.numbers hs hs' (hsn.trans hsn'.symm)
  exact Holds.unique (h.keys s hs) hv hw

theorem TaskHolds.unique (h : WellFormed yaml slaves) {sn : UInt32} {app : UInt16} {key : String}
    {v w : Variant} (hv : TaskHolds yaml slaves sn app key v)
    (hw : TaskHolds yaml slaves sn app key w) : v = w := by
  obtain ⟨s, hs, hsn, t, ht, happ, hv⟩ := hv
  obtain ⟨s', hs', hsn', t', ht', happ', hw⟩ := hw
  obtain rfl := List.inj_on_of_nodup_map h.numbers hs hs' (hsn.trans hsn'.symm)
  obtain rfl := List.inj_on_of_nodup_map (h.apps s hs) ht ht' (happ.trans happ'.symm)
  exact Holds.unique (h.taskKeys s hs t ht) hv hw

/-- A lookup in a store that only these assignments have filled. -/
theorem returns_setAll {ws : List (String × Variant)} {key : String} {P : Variant → Prop}
    (hmem : ∀ v, (key, v) ∈ ws ↔ P v) (hunique : ∀ v w, P v → P w → v = w) :
    Returns (new.setAll ws) key P := by
  have hfields (v : Variant) : (new.setAll ws).fields key = some v ↔ P v := by
    rw [← hmem]
    exact Store.assignAll_eq_some rfl fun v w hv hw =>
      hunique v w ((hmem v).mp hv) ((hmem w).mp hw)
  have hget (v : Variant) : (new.setAll ws).get key = .ok v ↔ P v := get_eq_ok.trans (hfields v)
  refine ⟨hget, fun T _ a => ?_, fun hnone => ?_⟩
  · unfold getFieldAs
    rw [bind_eq_ok]
    refine exists_congr fun v => ?_
    rw [hget]
    refine and_congr_right fun _ => ?_
    cases VariantGet.get? (T := T) v with
    | none => exact iff_of_false (by rintro ⟨⟩) (by rintro ⟨⟩)
    | some b =>
      show (Except.ok b : Except Fault T) = .ok a ↔ some b = some a
      rw [Except.ok.injEq, Option.some.injEq]
  · have hmissing : (new.setAll ws).fields key = none := by
      cases hv : (new.setAll ws).fields key with
      | none => rfl
      | some v => exact absurd ((hfields v).mp hv) (hnone v)
    unfold get
    rw [hmissing]

/-- **Flattening loses and confuses nothing.** After the load, the two lookups return exactly the typed
scalars of the file. -/
theorem load_lookup {root : YamlNode} {slaves : List (List YamlSlave)}
    (hroot : root.index "slaves" = .ok (some (slavesNode slaves)))
    (h : WellFormed yaml slaves.flatten) :
    ∃ cfg, new.loadInitialValueFromConfig yaml root = .ok cfg ∧
      (∀ sn key, ¬ "app_".toList <+: key.toList →
        Returns cfg (slaveKey sn key) (SlaveHolds yaml slaves.flatten sn key)) ∧
      ∀ sn (app : UInt16) key,
        Returns cfg (appKey sn app.toNat key) (TaskHolds yaml slaves.flatten sn app key) := by
  refine ⟨new.setAll (slaves.flatten.flatMap (slaveSets yaml)), ?_, fun sn key hkey => ?_,
    fun sn app key => ?_⟩
  · unfold loadInitialValueFromConfig
    rw [hroot]
    exact sets_slaves h new
  · exact returns_setAll (fun v => mem_sets_slaveKey hkey) fun v w => SlaveHolds.unique h
  · exact returns_setAll (fun v => mem_sets_appKey h) fun v w => TaskHolds.unique h

/-! ## Two slaves whose keys could meet -/

/-- The digits of a text, read as a number below a bound; every other text is refused. -/
def decimalBelow (bound : ℕ) (text : String) : Except Fault ℕ :=
  let n := text.toList.foldl (fun n c => 10 * n + (c.toNat - 48)) 0
  if text.toList.all Char.isDigit ∧ n < bound then .ok n else .error (.runtimeError "bad conversion")

/-- The conversions of decimal integers and of strings. -/
def decimalAs : YamlAs where
  uint8 text := return UInt8.ofNat (← decimalBelow 256 text)
  int8 text := return Int8.ofNat (← decimalBelow 128 text)
  uint16 text := return UInt16.ofNat (← decimalBelow 65536 text)
  int16 text := return Int16.ofNat (← decimalBelow 32768 text)
  uint32 text := return UInt32.ofNat (← decimalBelow 4294967296 text)
  int32 text := return Int32.ofNat (← decimalBelow 2147483648 text)
  float _ := throw (.runtimeError "bad conversion")
  string text := return text

def nearSlaves : List (List YamlSlave) :=
  [[⟨1, [.scalar ⟨"2_x", "!uint8_t", "1"⟩,
      .tasks "tasks" [[⟨1, [⟨"1_x", "!uint8_t", "2"⟩]⟩], [⟨11, [⟨"x", "!uint16_t", "3"⟩]⟩]]]⟩],
    [⟨12, [.scalar ⟨"x", "!std::string", "four"⟩]⟩]]

theorem exists_of_isOk {x : Except Fault Variant} (h : x.isOk = true) : ∃ v, x = .ok v := by
  cases x with
  | ok v => exact ⟨v, rfl⟩
  | error e => cases h

theorem nearSlaves_wellFormed : WellFormed decimalAs nearSlaves.flatten where
  numbers := by decide
  keys := by decide
  noApp := by decide
  apps := by decide
  taskKeys := by decide
  typed := by
    have hok : ∀ s ∈ nearSlaves.flatten, ∀ f ∈ s.fields, (decimalAs.value f.tag f.text).isOk = true := by
      decide
    exact fun s hs f hf => exists_of_isOk (hok s hs f hf)
  taskTyped := by
    have hok : ∀ s ∈ nearSlaves.flatten, ∀ t ∈ s.tasks, ∀ f ∈ t.fields,
        (decimalAs.value f.tag f.text).isOk = true := by
      decide
    exact fun s hs t ht f hf => exists_of_isOk (hok s hs t ht f hf)

theorem load_lookup_near :
    ∃ cfg, new.loadInitialValueFromConfig decimalAs (.map [("slaves", slavesNode nearSlaves)]) = .ok cfg ∧
      cfg.get (slaveKey 1 "2_x") = .ok (.uint8 1) ∧ cfg.get (appKey 1 1 "1_x") = .ok (.uint8 2) ∧
      cfg.get (appKey 1 11 "x") = .ok (.uint16 3) ∧ cfg.get (slaveKey 12 "x") = .ok (.string "four") ∧
      cfg.get (slaveKey 1 "x") = .error (.runtimeError "get Key not found: sn1_x") := by
  have hroot : (YamlNode.map [("slaves", slavesNode nearSlaves)]).index "slaves" =
      .ok (some (slavesNode nearSlaves)) := rfl
  obtain ⟨cfg, hload, hslave, htask⟩ := load_lookup hroot nearSlaves_wellFormed
  refine ⟨cfg, hload, ?_, ?_, ?_, ?_, ?_⟩
  · exact ((hslave 1 "2_x" (by decide)).get _).mpr
      ⟨_, List.mem_cons_self, rfl, _, List.mem_cons_self, rfl, rfl⟩
  · exact ((htask 1 1 "1_x").get _).mpr
      ⟨_, List.mem_cons_self, rfl, _, List.mem_cons_self, rfl, _, List.mem_cons_self, rfl, rfl⟩
  · exact ((htask 1 11 "x").get _).mpr ⟨_, List.mem_cons_self, rfl, _,
      List.mem_cons_of_mem _ List.mem_cons_self, rfl, _, List.mem_cons_self, rfl, rfl⟩
  · exact ((hslave 12 "x" (by decide)).get _).mpr ⟨_, List.mem_cons_of_mem _ List.mem_cons_self, rfl, _,
      List.mem_cons_self, rfl, rfl⟩
  · refine (hslave 1 "x" (by decide)).missing fun v hv => ?_
    have hnone : ∀ s ∈ nearSlaves.flatten, s.sn = 1 → ∀ f ∈ s.fields, f.key ≠ "x" := by decide
    obtain ⟨s, hs, hsn, f, hf, hkey, -⟩ := hv
    exact hnone s hs hsn f hf hkey

end ConfigurationParser
end EcatMaster
