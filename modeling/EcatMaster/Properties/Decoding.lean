import EcatMaster.Lib.Store
import EcatMaster.Slave.Arguments
import EcatMaster.Tasks.Stream

/-! # The argument stream is uniquely decodable

The stream has no length fields, but a reader that knows the type tags recovers the whole task list
from it: each `init_sdo` writes the record its schema describes. Two configurations with the same
stream therefore have the same tasks, with the same types and the same value in every encoded field.
-/

namespace EcatMaster
set_option autoImplicit false
open ByteBuf ArgM Piece Schema

/-! ## Plans that end well -/

section Plans
variable {α : Type} {cfg : ConfigurationParser} {pfx : String} {names : List String}
variable {q : List Piece}

theorem ends_after {x : Except Fault α} {rest : α → List Piece} (h : ends (after x rest) = none) :
    ∃ a, x = .ok a ∧ ends (rest a) = none ∧ emitted (after x rest) = emitted (rest a) := by
  cases x with
  | ok a => exact ⟨a, rfl, h, rfl⟩
  | error e => cases h

theorem emitted_after_nil {x : Except Fault α} {rest : α → List Piece}
    (h : ∀ a, emitted (rest a) = []) : emitted (after x rest) = [] := by
  cases x with
  | ok a => exact h a
  | error e => rfl

theorem ends_chunk_append (h : ends (chunk cfg pfx names ++ q) = none) :
    ∃ vs, List.Forall₂ (fun name v => cfg.fields (pfx ++ name) = some v) names vs ∧
      ends q = none ∧
      emitted (chunk cfg pfx names ++ q) = vs.flatMap Variant.bytes ++ emitted q := by
  unfold chunk at h ⊢
  cases hvs : cfg.fieldValues pfx names with
  | ok vs =>
    rw [hvs] at h
    exact ⟨vs, ConfigurationParser.fieldValues_eq_ok.mp hvs, h, rfl⟩
  | error e =>
    rw [hvs] at h
    cases h

theorem ends_append_none {p : List Piece} (h : ends (p ++ q) = none) :
    ends p = none ∧ ends q = none ∧ emitted (p ++ q) = emitted p ++ emitted q := by
  rw [ends_append] at h
  obtain ⟨hp, hq⟩ := Option.or_eq_none_iff.mp h
  refine ⟨hp, hq, ?_⟩
  rw [emitted_append, hp, if_pos rfl]

end Plans

/-! ## Each task writes its record -/

/-- The value of a field in the configuration of a task. -/
def sdoField (cfg : ConfigurationParser) (pfx : String) (name : String) : Option Variant :=
  cfg.fields (pfx ++ "sdowrite_" ++ name)

/-- The control types of the enabled motors are the three known ones. -/
def KnownControl (cfg : ConfigurationParser) (pfx : String) : Prop :=
  ∀ i, 1 ≤ i → i ≤ 4 → ∀ canId controlType,
    sdoField cfg pfx (motorName i "can_id") = some (.uint32 canId) → canId > 0 →
    sdoField cfg pfx (motorName i "control_type") = some (.uint8 controlType) →
    controlType = DJIMOTOR_CTRL_TYPE_CURRENT ∨ controlType = DJIMOTOR_CTRL_TYPE_SPEED ∨
      controlType = DJIMOTOR_CTRL_TYPE_SINGLE_ROUND_POSITION

section Tasks
variable {cfg : ConfigurationParser} {pfx : String}

/-- The plan ends well and copies what the record of `s` consists of. -/
def Writes (cfg : ConfigurationParser) (pfx : String) (s : Schema String Variant)
    (plan : List Piece) : Prop :=
  ends plan = none →
    ∃ r, s.record (sdoField cfg pfx) = some r ∧ emitted plan = symbols Variant.bytes r

theorem writes_stop {plan : List Piece} (h : emitted plan = []) : Writes cfg pfx .stop plan :=
  fun _ => ⟨[], rfl, h⟩

theorem symbols_zip_forall₂ {names : List String} {vs : List Variant}
    {get : String → Option Variant} (h : List.Forall₂ (fun name v => get name = some v) names vs) :
    symbols Variant.bytes (names.zip vs) = vs.flatMap Variant.bytes :=
  symbols_zip _ h.length_eq.ge

theorem Writes.fields {names : List String} {q : List Piece} {next : Schema String Variant}
    (h : Writes cfg pfx next q) :
    Writes cfg pfx (Schema.fields names next) (chunk cfg (pfx ++ "sdowrite_") names ++ q) := by
  intro hend
  obtain ⟨vs, hvs, hq, hemit⟩ := ends_chunk_append hend
  obtain ⟨r, hr, hbytes⟩ := h hq
  refine ⟨names.zip vs ++ r, record_fields hvs hr, ?_⟩
  rw [hemit, hbytes, symbols_append, symbols_zip_forall₂ hvs]

theorem writes_plain {names : List String} {q : List Piece} (h : emitted q = []) :
    Writes cfg pfx (Schema.fields names .stop) (chunk cfg (pfx ++ "sdowrite_") names ++ q) :=
  (writes_stop h).fields

theorem sdoField_of_key {name : String} {v : Variant}
    (h : cfg.fields (pfx ++ ("sdowrite_" ++ name)) = some v) : sdoField cfg pfx name = some v := by
  unfold sdoField
  rw [String.append_assoc]
  exact h

theorem writes_lk : Writes cfg pfx LK_MOTOR.schema (LK_MOTOR.plan cfg pfx) := by
  intro hend
  obtain ⟨ct, hct, hrest, hemit⟩ := ends_after hend
  have hfield : sdoField cfg pfx "control_type" = some (.uint8 ct) :=
    sdoField_of_key (getFieldAs_uint8 hct)
  have hschema : LK_MOTOR.schema.record (sdoField cfg pfx) =
      (Schema.fields (LK_MOTOR.names ct) .stop).record (sdoField cfg pfx) := by
    unfold LK_MOTOR.schema LK_MOTOR.names
    by_cases h8 : ct = 0x08
    · rw [if_pos (beq_iff_eq.mpr h8)]
      refine record_fields_congr ["connection_lost_write_action", "control_period"] ?_
      rw [record_of_get hfield, if_pos (by rw [h8])]
    · rw [if_neg (by rw [beq_iff_eq]; exact h8)]
      refine record_fields_congr ["connection_lost_write_action", "control_period"] ?_
      rw [record_of_get hfield, if_neg fun h => h8 (Variant.uint8.inj h)]
  obtain ⟨r, hr, hbytes⟩ := writes_plain (emitted_after_nil fun _ => emitted_after_nil fun _ =>
    emitted_after_nil fun _ => emitted_after_nil fun _ => rfl) hrest
  exact ⟨r, hschema.trans hr, hemit.trans hbytes⟩

/-! The motors of a `DJI_MOTOR`. -/

theorem motorKey (i : ℕ) (name : String) :
    pfx ++ "sdowrite_motor" ++ toString i ++ "_" ++ name = pfx ++ ("sdowrite_" ++ motorName i name) := by
  have hmotor : "sdowrite_motor" = "sdowrite_" ++ "motor" := rfl
  unfold motorName
  rw [hmotor]
  simp only [String.append_assoc]

theorem motorArgNames_known {ct : UInt8} (h : ct = DJIMOTOR_CTRL_TYPE_CURRENT ∨
    ct = DJIMOTOR_CTRL_TYPE_SPEED ∨ ct = DJIMOTOR_CTRL_TYPE_SINGLE_ROUND_POSITION) :
    motorArgNames ct = "control_type" :: (motorArgNames ct).tail := by
  obtain rfl | rfl | rfl := h <;> rfl

/-- The plan of one motor: nothing without a CAN id, otherwise the fields of its control type, under
their names in the record of the task. -/
theorem motorPlan_cases {i : ℕ} (hend : ends (motorPlan cfg pfx i) = none) :
    ∃ canId, sdoField cfg pfx (motorName i "can_id") = some (.uint32 canId) ∧
      ((canId = 0 ∧ emitted (motorPlan cfg pfx i) = []) ∨
        (canId > 0 ∧ ∃ ct vs, sdoField cfg pfx (motorName i "control_type") = some (.uint8 ct) ∧
          List.Forall₂ (fun name v => sdoField cfg pfx name = some v)
            ((motorArgNames ct).map (motorName i)) vs ∧
          emitted (motorPlan cfg pfx i) = vs.flatMap Variant.bytes)) := by
  have hkey {name : String} {v : Variant}
      (h : cfg.fields (pfx ++ "sdowrite_motor" ++ toString i ++ "_" ++ name) = some v) :
      sdoField cfg pfx (motorName i name) = some v := by
    rw [motorKey] at h
    exact sdoField_of_key h
  obtain ⟨canId, hid, hplan, hid_emit⟩ := ends_after hend
  refine ⟨canId, hkey (getFieldAs_uint32 hid), ?_⟩
  by_cases hpos : canId > 0
  · rw [if_pos hpos] at hplan hid_emit
    obtain ⟨ct, hct, hplan, hct_emit⟩ := ends_after hplan
    rw [← List.append_nil (chunk _ _ _)] at hplan hct_emit
    obtain ⟨vs, hvs, -, hchunk⟩ := ends_chunk_append hplan
    refine Or.inr ⟨hpos, ct, vs, hkey (getFieldAs_uint8 hct), ?_, ?_⟩
    · rw [List.forall₂_map_left_iff]
      exact hvs.imp fun name v hfield => hkey hfield
    · exact ((hid_emit.trans hct_emit).trans hchunk).trans (List.append_nil _)
  · have h0 : canId = 0 := by
      refine UInt32.toNat_inj.mp ?_
      have hle : ¬ 0 < canId.toNat := hpos
      show canId.toNat = 0
      omega
    rw [if_neg hpos] at hid_emit
    exact Or.inl ⟨h0, hid_emit⟩

theorem Writes.motor {i : ℕ} {v : Variant} {next : Schema String Variant} {q : List Piece}
    (hknown : KnownControl cfg pfx) (hi : 1 ≤ i ∧ i ≤ 4)
    (hv : sdoField cfg pfx (motorName i "can_id") = some v) (h : Writes cfg pfx next q) :
    Writes cfg pfx (motorSchema i v next) (motorPlan cfg pfx i ++ q) := by
  intro hend
  obtain ⟨hplan, hq, hemit⟩ := ends_append_none hend
  obtain ⟨r, hr, hbytes⟩ := h hq
  obtain ⟨canId, hid, hcases⟩ := motorPlan_cases hplan
  obtain rfl : v = .uint32 canId := Option.some.inj (hv.symm.trans hid)
  obtain ⟨rfl, hblock⟩ | ⟨hpos, ct, vs, hct, hfields, hblock⟩ := hcases
  · refine ⟨r, ?_, ?_⟩
    · unfold motorSchema
      rw [if_pos rfl]
      exact hr
    · rw [hemit, hblock, hbytes]
      rfl
  · have hne : ¬ Variant.uint32 canId = .uint32 0 := by
      intro h0
      rw [Variant.uint32.inj h0] at hpos
      exact absurd hpos (by decide)
    have hnames := motorArgNames_known (hknown i hi.1 hi.2 canId ct hid hpos hct)
    refine ⟨((motorArgNames ct).map (motorName i)).zip vs ++ r, ?_, ?_⟩
    · unfold motorSchema
      rw [if_neg hne, record_of_get hct]
      have hrecord := record_fields hfields hr
      rw [hnames] at hrecord
      exact hnames ▸ hrecord
    · rw [hemit, hblock, hbytes, symbols_append, symbols_zip_forall₂ hfields]

theorem writes_dji (hknown : KnownControl cfg pfx) :
    Writes cfg pfx DJI_MOTOR.schema (DJI_MOTOR.plan cfg pfx) := by
  intro hend
  obtain ⟨vs, hvs, -, -⟩ := ends_chunk_append hend
  have hget (j : ℕ) (name : String) (hname : DJI_MOTOR.names[j]? = some name) :
      ∃ v, sdoField cfg pfx name = some v := by
    obtain ⟨hj, rfl⟩ := List.getElem?_eq_some_iff.mp hname
    exact ⟨_, hvs.get hj (hvs.length_eq ▸ hj)⟩
  obtain ⟨v1, h1⟩ := hget 3 (motorName 1 "can_id") rfl
  obtain ⟨v2, h2⟩ := hget 4 (motorName 2 "can_id") rfl
  obtain ⟨v3, h3⟩ := hget 5 (motorName 3 "can_id") rfl
  obtain ⟨v4, h4⟩ := hget 6 (motorName 4 "can_id") rfl
  have htail : emitted (after (loadSlaveInfo cfg pfx) fun _ => after (createPublisher cfg pfx) fun _ =>
      after (createSubscription cfg pfx) fun _ => []) = [] :=
    emitted_after_nil fun _ => emitted_after_nil fun _ => emitted_after_nil fun _ => rfl
  have hmotor4 := Writes.motor hknown (by decide : 1 ≤ 4 ∧ 4 ≤ 4) h4 (writes_stop htail)
  have hmotor3 := Writes.motor hknown (by decide : 1 ≤ 3 ∧ 3 ≤ 4) h3 hmotor4
  have hmotor2 := Writes.motor hknown (by decide : 1 ≤ 2 ∧ 2 ≤ 4) h2 hmotor3
  have hmotor1 := Writes.motor hknown (by decide : 1 ≤ 1 ∧ 1 ≤ 4) h1 hmotor2
  obtain ⟨r, hr, hbytes⟩ := hmotor1.fields hend
  refine ⟨r, ?_, hbytes⟩
  rw [← hr]
  unfold DJI_MOTOR.schema
  refine record_fields_congr ["connection_lost_write_action", "control_period", "can_packet_id"] ?_
  rw [record_of_get h1]
  refine record_fields_congr [motorName 1 "can_id"] ?_
  rw [record_of_get h2]
  refine record_fields_congr [motorName 2 "can_id"] ?_
  rw [record_of_get h3]
  refine record_fields_congr [motorName 3 "can_id"] ?_
  rw [record_of_get h4]
  rfl

/-- **Every `init_sdo` writes the record of its schema.** -/
theorem writes_task (taskType : UInt8) (hknown : taskType = DJICAN_APP_ID → KnownControl cfg pfx) :
    Writes cfg pfx (taskSchema taskType) (initSdoPlan cfg taskType pfx) := by
  unfold initSdoPlan
  split
  · next h =>
    subst h
    exact writes_stop (emitted_after_nil fun _ => emitted_after_nil fun _ => rfl)
  split
  · next h =>
    subst h
    exact writes_lk
  split
  · next h =>
    subst h
    exact writes_plain (emitted_after_nil fun _ => emitted_after_nil fun _ =>
      emitted_after_nil fun _ => rfl)
  split
  · next h =>
    subst h
    exact writes_plain (emitted_after_nil fun _ => emitted_after_nil fun _ =>
      emitted_after_nil fun _ => rfl)
  split
  · next h =>
    subst h
    exact writes_dji (hknown rfl)
  split
  · next h =>
    subst h
    exact writes_plain (emitted_after_nil fun _ => emitted_after_nil fun _ =>
      emitted_after_nil fun _ => rfl)
  split
  · next h =>
    subst h
    exact writes_stop (emitted_after_nil fun _ => emitted_after_nil fun _ => rfl)
  split
  · next h =>
    subst h
    exact writes_plain (emitted_after_nil fun _ => emitted_after_nil fun _ =>
      emitted_after_nil fun _ => emitted_after_nil fun _ => emitted_after_nil fun _ =>
      emitted_after_nil fun _ => emitted_after_nil fun _ => rfl)
  split
  · next h =>
    subst h
    exact writes_plain (emitted_after_nil fun _ => emitted_after_nil fun _ =>
      emitted_after_nil fun _ => rfl)
  · intro h
    cases h

end Tasks

/-! ## The whole stream -/

/-- The tasks a configuration declares, with the fields `init_sdo` encodes. -/
def taskRecords (cfg : ConfigurationParser) (sn : UInt32) : ℕ → ℕ → Option (List TaskRecord)
  | 0, _ => some []
  | count + 1, appIdx =>
    (getFieldAs UInt8 cfg (appKey sn appIdx "sdowrite_task_type")).toOption.bind fun taskType =>
      ((taskSchema taskType).record (sdoField cfg (appKey sn appIdx ""))).bind fun fields =>
        (taskRecords cfg sn count (appIdx + 1)).map fun tasks => ⟨taskType, fields⟩ :: tasks

/-- Every `sdowrite` field of the task carries the tag fixed for it, and the enabled DJI motors have
known control types. -/
def TaggedTask (tags : UInt8 → String → Tag) (cfg : ConfigurationParser) (sn : UInt32) (k : ℕ) :
    Prop :=
  ∀ taskType, getFieldAs UInt8 cfg (appKey sn k "sdowrite_task_type") = .ok taskType →
    (∀ name v, sdoField cfg (appKey sn k "") name = some v → v.tag = some (tags taskType name)) ∧
      (taskType = DJICAN_APP_ID → KnownControl cfg (appKey sn k ""))

/-- `init_task_list` has built `dev` from a configuration with the fixed tags, and `sdo_len` is the
number of bytes it has written. -/
structure Encodes (tags : UInt8 → String → Tag) (cfg : ConfigurationParser)
    (start dev : SlaveDevice) (taskCount : UInt8) : Prop where
  built : (start.initTaskListRun cfg).1 = .ok (true, dev)
  sdoLen : (start.initTaskListRun cfg).2.2 = dev.argBufLen.toNat
  count : getFieldAs UInt8 cfg (slaveKey dev.sn "task_count") = .ok taskCount
  tagged : ∀ k, 1 ≤ k → k ≤ taskCount.toNat → TaggedTask tags cfg dev.sn k

section Stream
variable {tags : UInt8 → String → Tag} {cfg : ConfigurationParser}

theorem parses_tasksPlan {sn : UInt32} {count appIdx : ℕ}
    (htagged : ∀ k, appIdx ≤ k → k < appIdx + count → TaggedTask tags cfg sn k)
    (hend : ends (SlaveDevice.tasksPlan cfg sn count appIdx) = none) :
    ∃ tasks, taskRecords cfg sn count appIdx = some tasks ∧
      Parses (readTasks tags count) (emitted (SlaveDevice.tasksPlan cfg sn count appIdx)) tasks := by
  induction count generalizing appIdx with
  | zero => exact ⟨[], rfl, Parses.pure []⟩
  | succ count ih =>
    obtain ⟨taskType, htype, hend, hemit⟩ := ends_after hend
    obtain ⟨htask, htasks, hsplit⟩ :=
      ends_append_none (p := initSdoPlan cfg taskType (appKey sn appIdx "")) hend
    obtain ⟨htags, hknown⟩ := htagged appIdx le_rfl (by omega) taskType htype
    obtain ⟨fields, hfields, hbytes⟩ := writes_task taskType hknown htask
    obtain ⟨tasks, htail, hparse⟩ := ih (fun k hk hlt => htagged k (by omega) (by omega)) htasks
    refine ⟨⟨taskType, fields⟩ :: tasks, ?_, ?_⟩
    · unfold taskRecords
      rw [htype, htail]
      show (((taskSchema taskType).record _).bind _) = _
      rw [hfields]
      rfl
    · have hread : Parses ((taskSchema taskType).read fun name => (tags taskType name).read)
          (symbols Variant.bytes fields) fields :=
        parses_read hfields fun f hf => parses_read_tag (htags f.1 f.2 (get_of_mem_record hfields f hf))
      have htaskRead : Parses (readTask tags) ([taskType] ++ symbols Variant.bytes fields)
          ⟨taskType, fields⟩ :=
        (parses_readByte taskType).bind (hread.map fun fields => (⟨taskType, fields⟩ : TaskRecord))
      have hall := htaskRead.bind (f := fun task => do
        let tasks ← readTasks tags count
        pure (task :: tasks)) (hparse.map fun tasks => (⟨taskType, fields⟩ : TaskRecord) :: tasks)
      have hemitted : emitted (SlaveDevice.tasksPlan cfg sn (count + 1) appIdx) =
          [taskType] ++ symbols Variant.bytes fields ++
            emitted (SlaveDevice.tasksPlan cfg sn count (appIdx + 1)) := by
        rw [← hbytes, List.append_assoc, ← hsplit]
        exact hemit
      rw [hemitted]
      exact hall

/-- **A reader recovers the task list from the bytes alone.** -/
theorem Encodes.parses {start dev : SlaveDevice} {taskCount : UInt8}
    (h : Encodes tags cfg start dev taskCount) :
    ∃ tasks, taskRecords cfg dev.sn taskCount.toNat 1 = some tasks ∧
      dev.argBuf.head? = some taskCount ∧ Parses (readArgs tags) dev.argBuf tasks := by
  obtain ⟨count, hcount, hend, hidx, hbuf⟩ := SlaveDevice.initTaskListRun_true h.built
  obtain rfl : taskCount = count := Except.ok.inj (h.count.symm.trans hcount)
  have hlen : (emitted (SlaveDevice.argPlan cfg dev.sn taskCount)).length =
      (List.replicate dev.argBufLen.toNat (0 : UInt8)).length := by
    rw [← hidx, h.sdoLen, List.length_replicate]
  rw [put_full _ _ hlen] at hbuf
  have hbytes : dev.argBuf =
      [taskCount] ++ emitted (SlaveDevice.tasksPlan cfg dev.sn taskCount.toNat 1) := hbuf
  obtain ⟨tasks, htasks, hparse⟩ := parses_tasksPlan
    (fun k hk hlt => h.tagged k hk (by omega)) hend
  refine ⟨tasks, htasks, by rw [hbytes]; rfl, ?_⟩
  rw [hbytes]
  exact (parses_readByte taskCount).bind hparse

/-- **Unique decoding.** Two configurations with the same argument buffer have the same task count and
the same tasks, with the same type and the same value in every encoded field, and these are what a
reader decodes from the bytes. -/
theorem arguments_decodable {cfg₁ cfg₂ : ConfigurationParser} {start₁ start₂ d₁ d₂ : SlaveDevice}
    {n₁ n₂ : UInt8} (h₁ : Encodes tags cfg₁ start₁ d₁ n₁) (h₂ : Encodes tags cfg₂ start₂ d₂ n₂)
    (heq : d₁.argBuf = d₂.argBuf) :
    n₁ = n₂ ∧ ∃ tasks, taskRecords cfg₁ d₁.sn n₁.toNat 1 = some tasks ∧
      taskRecords cfg₂ d₂.sn n₂.toNat 1 = some tasks ∧
      decode (readArgs tags) d₁.argBuf = some tasks := by
  obtain ⟨tasks₁, hrec₁, hhead₁, hparse₁⟩ := h₁.parses
  obtain ⟨tasks₂, hrec₂, hhead₂, hparse₂⟩ := h₂.parses
  have hdecode := hparse₂.decode
  rw [← heq, hparse₁.decode] at hdecode
  obtain rfl := Option.some.inj hdecode
  refine ⟨?_, tasks₁, hrec₁, hrec₂, hparse₁.decode⟩
  rw [heq, hhead₂] at hhead₁
  exact (Option.some.inj hhead₁).symm

end Stream

/-! ## A board with three tasks, decoded -/

/-- An `LK_MOTOR` in broadcast mode, a `DJI_MOTOR` with motor 2 at speed and motor 4 at a current, and a DSHOT
task. -/
def mixedFields : ℕ → List (String × Variant)
  | 1 => [("task_type", .uint8 LK_APP_ID), ("connection_lost_write_action", .uint8 2),
      ("control_period", .uint16 1), ("control_type", .uint8 8), ("can_inst", .uint8 0)]
  | 2 => [("task_type", .uint8 DJICAN_APP_ID), ("connection_lost_write_action", .uint8 1),
      ("control_period", .uint16 2), ("can_packet_id", .uint32 0x200), ("motor1_can_id", .uint32 0),
      ("motor2_can_id", .uint32 0x202), ("motor3_can_id", .uint32 0), ("motor4_can_id", .uint32 0x204),
      ("can_inst", .uint8 1), ("motor2_control_type", .uint8 2), ("motor2_speed_pid_kp", .float ⟨0x3f800000⟩),
      ("motor2_speed_pid_ki", .float ⟨0⟩), ("motor2_speed_pid_kd", .float ⟨0⟩),
      ("motor2_speed_pid_max_out", .float ⟨0x44fa0000⟩), ("motor2_speed_pid_max_iout", .float ⟨0⟩),
      ("motor4_control_type", .uint8 1)]
  | 3 => [("task_type", .uint8 DSHOT_APP_ID), ("connection_lost_write_action", .uint8 1),
      ("dshot_id", .uint8 1), ("init_value", .uint16 48)]
  | _ => []

def mixedSdo (k : ℕ) : List (String × Variant) :=
  (mixedFields k).map fun e => (appKey 7 k ("sdowrite_" ++ e.1), e.2)

/-- The fields that the arguments do not mention. -/
def mixedPlain (topic : String) : List (String × Variant) :=
  [("sn7_sdo_len", .uint16 59), ("sn7_latency_pub_topic", .string "latency"), ("sn7_task_count", .uint8 3),
    ("sn7_app_1_pub_topic", .string topic), ("sn7_app_1_sub_topic", .string topic),
    ("sn7_app_2_pub_topic", .string topic), ("sn7_app_2_sub_topic", .string topic),
    ("sn7_app_3_sub_topic", .string topic)]

def mixedOn (topic : String) : ConfigurationParser :=
  (mixedPlain topic ++ (mixedSdo 1 ++ (mixedSdo 2 ++ mixedSdo 3))).foldl (fun cfg e => cfg.set e.1 e.2) .new

def mixedTags (_ : UInt8) (name : String) : Tag :=
  if name ∈ ["control_period", "init_value"] then .uint16
  else if name ∈ ["can_packet_id", "motor1_can_id", "motor2_can_id", "motor3_can_id", "motor4_can_id"] then
    .uint32
  else if name ∈ ["motor2_speed_pid_kp", "motor2_speed_pid_ki", "motor2_speed_pid_kd",
      "motor2_speed_pid_max_out", "motor2_speed_pid_max_iout"] then .float
  else .uint8

theorem fields_foldl (entries : List (String × Variant)) (cfg : ConfigurationParser) {key : String} {v : Variant}
    (h : (entries.foldl (fun cfg e => cfg.set e.1 e.2) cfg).fields key = some v) :
    (key, v) ∈ entries ∨ cfg.fields key = some v := by
  induction entries generalizing cfg with
  | nil => exact Or.inr h
  | cons e entries ih =>
    obtain hmem | hset := ih (cfg.set e.1 e.2) h
    · exact Or.inl (List.mem_cons_of_mem e hmem)
    · have hfields : (if key = e.1 then some e.2 else cfg.fields key) = some v := hset
      split at hfields
      · next hkey =>
        rw [hkey, ← Option.some.inj hfields]
        exact Or.inl List.mem_cons_self
      · exact Or.inr hfields

theorem mixedSdo_mem {j k : ℕ} {name : String} {v : Variant}
    (h : (appKey 7 k ("sdowrite_" ++ name), v) ∈ mixedSdo j) : (name, v) ∈ mixedFields k := by
  obtain ⟨e, he, heq⟩ := List.mem_map.mp h
  obtain ⟨hkey, rfl⟩ := Prod.mk.inj heq
  unfold appKey at hkey
  simp only [String.append_assoc, String.append_right_inj] at hkey
  obtain ⟨rfl, htail⟩ := Store.decimal_joined_inj (by simpa only [String.append_assoc] using hkey)
  obtain rfl : e.1 = name := (String.append_right_inj _).mp htail
  exact he

theorem mixedOn_field {topic : String} {k : ℕ} (hk : k ∈ [1, 2, 3]) {name : String} {v : Variant}
    (h : sdoField (mixedOn topic) (appKey 7 k "") name = some v) : (name, v) ∈ mixedFields k := by
  have hplain : ∀ k ∈ [1, 2, 3], ∀ key ∈ (mixedPlain "").map Prod.fst,
      ¬ (appKey 7 k "sdowrite_").toList <+: key.toList := by decide
  have hkeys : (mixedPlain topic).map Prod.fst = (mixedPlain "").map Prod.fst := rfl
  unfold sdoField at h
  rw [appKey_append, appKey_append, String.append_assoc, String.empty_append] at h
  obtain hmem | hnone := fields_foldl _ _ h
  · simp only [List.mem_append] at hmem
    obtain hmem | hmem | hmem | hmem := hmem
    · refine absurd ?_ (hplain k hk _ (hkeys ▸ List.mem_map_of_mem hmem))
      rw [← appKey_append, String.toList_append]
      exact List.prefix_append _ _
    · exact mixedSdo_mem hmem
    · exact mixedSdo_mem hmem
    · exact mixedSdo_mem hmem
  · cases hnone

theorem mixedOn_tagged (topic : String) {k : ℕ} (hk : k ∈ [1, 2, 3]) :
    TaggedTask mixedTags (mixedOn topic) 7 k := by
  have htags : ∀ k ∈ [1, 2, 3], ∀ e ∈ mixedFields k, e.2.tag = some (mixedTags 0 e.1) := by decide
  have hcontrol : ∀ k ∈ [1, 2, 3], ∀ i ∈ [1, 2, 3, 4], ∀ e ∈ mixedFields k,
      e.1 = motorName i "control_type" → e.2 = .uint8 1 ∨ e.2 = .uint8 2 ∨ e.2 = .uint8 3 := by decide
  intro taskType _
  refine ⟨fun name v h => htags k hk _ (mixedOn_field hk h), fun _ i h1 h4 _ controlType _ _ h => ?_⟩
  have hi : i ∈ [1, 2, 3, 4] := by
    simp only [List.mem_cons, List.not_mem_nil, or_false]
    omega
  rcases hcontrol k hk i hi _ (mixedOn_field hk h) rfl with hct | hct | hct
  · exact Or.inl (Variant.uint8.inj hct)
  · exact Or.inr (Or.inl (Variant.uint8.inj hct))
  · exact Or.inr (Or.inr (Variant.uint8.inj hct))

def mixedStart (topic : String) : SlaveDevice := ((SlaveDevice.new 1).init (mixedOn topic) 3 (some 7) [56]).2

def mixedBytes : List UInt8 :=
  [3, 2, 2, 1, 0, 8, 0, 5, 1, 2, 0, 0, 2, 0, 0, 0, 0, 0, 0, 2, 2, 0, 0, 0, 0, 0, 0, 4, 2, 0, 0, 1, 2, 0, 0, 128, 63,
    0, 0, 0, 0, 0, 0, 0, 0, 0, 0, 250, 68, 0, 0, 0, 0, 1, 4, 1, 1, 48, 0]

theorem mixedOn_built : ∀ topic ∈ ["left", "right"],
    ((mixedStart topic).initTaskListRun (mixedOn topic)).2.2 = 59 ∧
      ((mixedStart topic).initTaskListRun (mixedOn topic)).1.toOption.map
        (fun r => (r.1, r.2.sn, r.2.argBufLen, r.2.argBuf)) = some (true, 7, 59, mixedBytes) := by
  decide +kernel

theorem mixedOn_encodes (topic : String) (htopic : topic ∈ ["left", "right"]) :
    ∃ dev, Encodes mixedTags (mixedOn topic) (mixedStart topic) dev 3 ∧ dev.sn = 7 ∧ dev.argBuf = mixedBytes := by
  obtain ⟨hcount, hmap⟩ := mixedOn_built topic htopic
  obtain ⟨⟨ok, dev⟩, hrun, hdev⟩ := Option.map_eq_some_iff.mp hmap
  obtain ⟨rfl, hsn, hlen, hbuf⟩ : ok = true ∧ dev.sn = 7 ∧ dev.argBufLen = 59 ∧ dev.argBuf = mixedBytes := by
    simpa only [Prod.mk.injEq] using hdev
  refine ⟨dev, ⟨?_, ?_, ?_, fun k h1 h3 => ?_⟩, hsn, hbuf⟩
  · cases hx : ((mixedStart topic).initTaskListRun (mixedOn topic)).1 with
    | ok r =>
      rw [hx] at hrun
      rw [Option.some.inj hrun]
    | error e =>
      rw [hx] at hrun
      cases hrun
  · rw [hcount, hlen]
    rfl
  · rw [hsn]
    rfl
  · rw [hsn]
    have hthree : k ≤ 3 := h3
    refine mixedOn_tagged topic ?_
    simp only [List.mem_cons, List.not_mem_nil, or_false]
    omega

theorem arguments_decodable_mixed : ∃ tasks, taskRecords (mixedOn "left") 7 3 1 = some tasks ∧
    taskRecords (mixedOn "right") 7 3 1 = some tasks ∧
    decode (readArgs mixedTags) mixedBytes = some tasks := by
  obtain ⟨left, hleft, hsn, hbuf⟩ := mixedOn_encodes "left" (by decide)
  obtain ⟨right, hright, hsn', hbuf'⟩ := mixedOn_encodes "right" (by decide)
  have hall := (arguments_decodable hleft hright (hbuf.trans hbuf'.symm)).2
  rw [hsn, hsn', hbuf] at hall
  exact hall
end EcatMaster
