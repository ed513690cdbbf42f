import Mathlib.Order.Interval.Finset.Nat
import EcatMaster.Slave.TaskList

/-! # A reset and the command region of its task

`on_command` writes from `pdowrite_offset_` on, and a partially enabled `DJI_MOTOR` leaves no room for
its disabled motors; `init_value` starts at the same offset but always writes all four of them. On a
packed buffer the resets stay inside their regions exactly when no such task is in the list, nor one
whose control type has no command at all.
-/

namespace EcatMaster
set_option autoImplicit false
open ByteBuf SlaveDevice

namespace TaskWrapper

def commandRange (t : TaskWrapper) : Finset ℕ :=
  Finset.Ico t.pdowriteOffset.toNat (t.pdowriteOffset.toNat + t.commandLength)

theorem not_mem_commandRange {t : TaskWrapper} {i : ℕ} : i ∉ t.commandRange ↔
    i < t.pdowriteOffset.toNat ∨ t.pdowriteOffset.toNat + t.commandLength ≤ i := by
  unfold commandRange
  rw [Finset.mem_Ico]
  omega

theorem hasSubscribers_of_mem {t : TaskWrapper} {i : ℕ} (hi : i ∈ t.commandRange) :
    t.hasSubscribers = true := by
  obtain ⟨cls, w, r, ra, wa⟩ := t
  cases cls with
  | dbusRc | hipnucImuCan _ | sbusRc => simp [commandRange, commandLength] at hi
  | _ => rfl

/-- The task has a command, and it covers every motor. -/
def WholeCommand (t : TaskWrapper) : Prop :=
  match t.cls with
  | .djiMotor isMotorEnabled => ∀ k, isMotorEnabled k = true
  | .lkMotor _ controlType =>
      LK_CTRL_TYPE_OPENLOOP_CURRENT ≤ controlType ∧ controlType ≤ LK_CTRL_TYPE_BROADCAST_CURRENT
  | .dmMotor controlType _ _ _ => DM_CTRL_TYPE_MIT ≤ controlType ∧ controlType ≤ DM_CTRL_TYPE_SPEED
  | _ => True

theorem lk_modes (ct : UInt8) :
    LK_CTRL_TYPE_OPENLOOP_CURRENT ≤ ct ∧ ct ≤ LK_CTRL_TYPE_BROADCAST_CURRENT ↔
      ct = LK_CTRL_TYPE_OPENLOOP_CURRENT ∨ ct = LK_CTRL_TYPE_TORQUE ∨
        ct = LK_CTRL_TYPE_SPEED_WITH_TORQUE_LIMIT ∨ ct = LK_CTRL_TYPE_MULTI_ROUND_POSITION ∨
        ct = LK_CTRL_TYPE_MULTI_ROUND_POSITION_WITH_SPEED_LIMIT ∨
        ct = LK_CTRL_TYPE_SINGLE_ROUND_POSITION ∨
        ct = LK_CTRL_TYPE_SINGLE_ROUND_POSITION_WITH_SPEED_LIMIT ∨
        ct = LK_CTRL_TYPE_BROADCAST_CURRENT := by
  simp only [UInt8.le_iff_toNat_le, ← UInt8.toNat_inj]
  show 1 ≤ ct.toNat ∧ ct.toNat ≤ 8 ↔ ct.toNat = 1 ∨ ct.toNat = 2 ∨ ct.toNat = 3 ∨ ct.toNat = 4 ∨
    ct.toNat = 5 ∨ ct.toNat = 6 ∨ ct.toNat = 7 ∨ ct.toNat = 8
  omega

theorem dm_modes (ct : UInt8) : DM_CTRL_TYPE_MIT ≤ ct ∧ ct ≤ DM_CTRL_TYPE_SPEED ↔
    ct = DM_CTRL_TYPE_MIT ∨ ct = DM_CTRL_TYPE_POSITION_WITH_SPEED_LIMIT ∨ ct = DM_CTRL_TYPE_SPEED := by
  simp only [UInt8.le_iff_toNat_le, ← UInt8.toNat_inj]
  show 1 ≤ ct.toNat ∧ ct.toNat ≤ 3 ↔ ct.toNat = 1 ∨ ct.toNat = 2 ∨ ct.toNat = 3
  omega

/-- `init_value` writes no more than a command does, exactly for the tasks with a whole command. -/
theorem initBytes_length_le (t : TaskWrapper) (ht : t.ModeAgrees) :
    t.initBytes.length ≤ t.commandLength ↔ t.WholeCommand := by
  obtain ⟨cls, w, r, ra, wa⟩ := t
  cases cls with
  | djiMotor on =>
    have hle : (List.finRange 4).countP (fun k => on k) ≤ (List.finRange 4).length :=
      List.countP_le_length
    have hall : (List.finRange 4).countP (fun k => on k) = (List.finRange 4).length ↔ ∀ k, on k := by
      rw [List.countP_eq_length]
      exact ⟨fun h k => h k (List.mem_finRange k), fun h k _ => h k⟩
    show (List.replicate 12 (0 : UInt8)).length ≤ 3 * (List.finRange 4).countP (fun k => on k) ↔ ∀ k, on k
    rw [← hall, List.length_replicate]
    rw [List.length_finRange] at hle ⊢
    omega
  | lkMotor b ct =>
    obtain rfl : b = (ct == 0x08) := ht b ct rfl
    show _ ↔ LK_CTRL_TYPE_OPENLOOP_CURRENT ≤ ct ∧ ct ≤ LK_CTRL_TYPE_BROADCAST_CURRENT
    rw [lk_modes]
    constructor
    · intro h
      by_contra hno
      simp only [not_or] at hno
      obtain ⟨h1, h2, h3, h4, h5, h6, h7, h8⟩ := hno
      have hflag : (ct == 0x08) = false := beq_eq_false_iff_ne.mpr h8
      simp only [commandLength, if_neg h1, if_neg h2, if_neg h3, if_neg h4, if_neg h5, if_neg h6,
        if_neg h7, if_neg h8] at h
      simp [initBytes, hflag] at h
    · rintro (rfl | rfl | rfl | rfl | rfl | rfl | rfl | rfl) <;> exact Nat.le_of_ble_eq_true rfl
  | dmMotor ct pmax vmax tmax =>
    show 1 ≤ commandLength _ ↔ DM_CTRL_TYPE_MIT ≤ ct ∧ ct ≤ DM_CTRL_TYPE_SPEED
    rw [dm_modes]
    constructor
    · intro h
      by_contra hno
      simp only [not_or] at hno
      obtain ⟨h1, h2, h3⟩ := hno
      simp only [commandLength, if_neg h1, if_neg h2, if_neg h3] at h
      omega
    · rintro (rfl | rfl | rfl) <;> exact Nat.le_of_ble_eq_true rfl
  | _ => exact iff_of_true (by simp [initBytes, commandLength, le16]) trivial

end TaskWrapper

/-- The command regions of the tasks are pairwise disjoint and inside the buffer. -/
structure Packed (tasks : List TaskWrapper) (len : ℕ) : Prop where
  disjoint : tasks.Pairwise fun s t => Disjoint s.commandRange t.commandRange
  inside : ∀ t ∈ tasks, t.commandRange ⊆ Finset.range len

/-- A reset changes no byte outside the region of its task, a lost connection no byte of a task that
keeps its command, and after `write_init_values` every region is as its own `init_value` leaves it in a
cleared buffer, in whatever order the tasks are listed. `mem` is the memory from `data()` on, which
may go on past the buffer. -/
structure ResetsInside (tasks : List TaskWrapper) (len : ℕ) : Prop where
  initValue : ∀ t ∈ tasks, ∀ mem i, i ∉ t.commandRange → (t.initValue mem)[i]? = mem[i]?
  lost : ∀ t ∈ tasks, t.connectionLostWriteAction ≠ 0x02 →
    ∀ mem, ∀ i ∈ t.commandRange, (lostPayload tasks mem)[i]? = mem[i]?
  initValues : ∀ order, order.Perm tasks → ∀ t ∈ tasks, ∀ mem : List UInt8, len ≤ mem.length →
    ∀ i ∈ t.commandRange, (initPayload order len mem)[i]? = (t.initValue (List.replicate len 0))[i]?

section Reset
variable {tasks : List TaskWrapper} {len : ℕ} {t : TaskWrapper}

theorem not_mem_of_le (hle : t.initBytes.length ≤ t.commandLength) {i : ℕ} (hi : i ∉ t.commandRange) :
    i < t.pdowriteOffset.toNat ∨ t.pdowriteOffset.toNat + t.initBytes.length ≤ i := by
  have hi := TaskWrapper.not_mem_commandRange.mp hi
  omega

/-- A reset that writes more than a command changes the first byte after the region of the task. -/
theorem length_le_of_initValue
    (h : ∀ mem i, i ∉ t.commandRange → (t.initValue mem)[i]? = mem[i]?) :
    t.initBytes.length ≤ t.commandLength := by
  by_contra hlt
  rw [Nat.not_le] at hlt
  have hafter : t.pdowriteOffset.toNat + t.commandLength ∉ t.commandRange :=
    TaskWrapper.not_mem_commandRange.mpr (.inr le_rfl)
  let mem := List.replicate (t.pdowriteOffset.toNat + t.commandLength + 1)
    (t.initBytes[t.commandLength] + 1)
  have hmem : t.pdowriteOffset.toNat + t.commandLength < mem.length := by
    rw [List.length_replicate]
    omega
  have hsame := h mem _ hafter
  rw [TaskWrapper.initValue_eq, put_getElem?_inside _ _ _ _ hlt hmem, List.getElem?_eq_getElem hlt,
    List.getElem?_eq_getElem hmem, Option.some.injEq, List.getElem_replicate] at hsame
  have hne : ∀ b : UInt8, b ≠ b + 1 := by
    intro b hb
    have hnat := congrArg UInt8.toNat hb
    rw [UInt8.toNat_add] at hnat
    have hlt := b.toNat_lt
    simp at hnat
    omega
  exact hne _ hsame

theorem initValue_outside (hle : t.initBytes.length ≤ t.commandLength) (mem : List UInt8) (i : ℕ)
    (hi : i ∉ t.commandRange) : (t.initValue mem)[i]? = mem[i]? := by
  rw [TaskWrapper.initValue_eq]
  exact put_getElem?_outside _ _ _ _ (not_mem_of_le hle hi)

/-- A cell of the region of `t` after resets whose own regions do not meet it. -/
theorem foldl_initValue (order : List TaskWrapper) (mem : List UInt8) {i : ℕ} (hi : i ∈ t.commandRange)
    (hle : ∀ s ∈ order, s.initBytes.length ≤ s.commandLength)
    (hd : ∀ s ∈ order, s ≠ t → Disjoint s.commandRange t.commandRange) :
    (order.foldl (fun buf task => task.initValue buf) mem)[i]? =
      if t ∈ order then (t.initValue mem)[i]? else mem[i]? := by
  simp only [TaskWrapper.initValue_eq]
  exact foldl_put_getElem? _ _ order mem fun s hs hne =>
    not_mem_of_le (hle s hs) fun hmem => Finset.disjoint_left.mp (hd s hs hne) hmem hi

theorem Packed.disjoint_of_ne (h : Packed tasks len) {s : TaskWrapper} (hs : s ∈ tasks) (ht : t ∈ tasks)
    (hne : s ≠ t) : Disjoint s.commandRange t.commandRange := by
  have : Std.Symm fun s t : TaskWrapper => Disjoint s.commandRange t.commandRange :=
    ⟨fun _ _ h => h.symm⟩
  exact h.disjoint.forall hs ht hne

theorem lostPayload_other (h : Packed tasks len) (hle : ∀ s ∈ tasks, s.initBytes.length ≤ s.commandLength)
    (ht : t ∈ tasks) (hkeep : t.connectionLostWriteAction ≠ 0x02) (mem : List UInt8) {i : ℕ}
    (hi : i ∈ t.commandRange) : (lostPayload tasks mem)[i]? = mem[i]? := by
  have hfilter : lostPayload tasks mem = (tasks.filter fun task =>
      task.connectionLostWriteAction = 0x02).foldl (fun buf task => task.initValue buf) mem := by
    rw [List.foldl_filter]
    simp only [decide_eq_true_eq]
    rfl
  have hmem : t ∉ tasks.filter fun task => task.connectionLostWriteAction = 0x02 := by
    rw [List.mem_filter, decide_eq_true_eq]
    exact fun h => hkeep h.2
  rw [hfilter, foldl_initValue _ mem hi (fun s hs => hle s (List.mem_of_mem_filter hs)) fun s hs hne =>
    h.disjoint_of_ne (List.mem_of_mem_filter hs) ht hne, if_neg hmem]

theorem initPayload_own (h : Packed tasks len) (hle : ∀ s ∈ tasks, s.initBytes.length ≤ s.commandLength)
    {order : List TaskWrapper} (horder : order.Perm tasks) (ht : t ∈ tasks) {mem : List UInt8}
    (hlen : len ≤ mem.length) {i : ℕ} (hi : i ∈ t.commandRange) :
    (initPayload order len mem)[i]? = (t.initValue (List.replicate len 0))[i]? := by
  have hsub := TaskWrapper.hasSubscribers_of_mem hi
  have hfilter : initPayload order len mem = (order.filter fun task => task.hasSubscribers).foldl
      (fun buf task => task.initValue buf) (put mem 0 (List.replicate len 0)) := by
    rw [List.foldl_filter]
    rfl
  have hmem (s : TaskWrapper) (hs : s ∈ order.filter fun task => task.hasSubscribers) : s ∈ tasks :=
    horder.mem_iff.mp (List.mem_of_mem_filter hs)
  have hcleared : (put mem 0 (List.replicate len 0))[i]? = (List.replicate len (0 : UInt8))[i]? := by
    have hlt : i < len := Finset.mem_range.mp (h.inside t ht hi)
    have hput := put_getElem?_inside mem 0 (List.replicate len 0) i
      (by rw [List.length_replicate]; exact hlt) (by omega)
    rw [Nat.zero_add] at hput
    exact hput
  rw [hfilter, foldl_initValue _ _ hi (fun s hs => hle s (hmem s hs)) fun s hs hne =>
    h.disjoint_of_ne (hmem s hs) ht hne,
    if_pos (List.mem_filter.mpr ⟨horder.mem_iff.mpr ht, hsub⟩), TaskWrapper.initValue_eq,
    TaskWrapper.initValue_eq]
  exact put_getElem?_congr hcleared _ _

end Reset

/-- **Exactly the lists of whole commands keep their resets apart.** -/
theorem resetsInside_iff {cfg : ConfigurationParser} {self dev : SlaveDevice}
    (h : self.initTaskList cfg = .ok (true, dev)) (hp : Packed dev.taskList dev.masterToSlaveBufLen) :
    ResetsInside dev.taskList dev.masterToSlaveBufLen ↔ ∀ t ∈ dev.taskList, t.WholeCommand := by
  have hmode := modeAgrees_of_mem h
  constructor
  · intro hreset t ht
    exact (t.initBytes_length_le (hmode t ht)).mp (length_le_of_initValue (hreset.initValue t ht))
  · intro hwhole
    have hle : ∀ t ∈ dev.taskList, t.initBytes.length ≤ t.commandLength := fun t ht =>
      (t.initBytes_length_le (hmode t ht)).mpr (hwhole t ht)
    exact {
      initValue := fun t ht => initValue_outside (hle t ht)
      lost := fun t ht hkeep mem i hi => lostPayload_other hp hle ht hkeep mem hi
      initValues := fun order horder t ht mem hlen i hi => initPayload_own hp hle horder ht hlen hi }

/-! ## A DJI group with one motor before a DSHOT task that keeps its command -/

/-- Motor 1 of the group is enabled, so its command takes bytes 0 to 2, and the DSHOT command follows. -/
def djiDshotConfig : ConfigurationParser :=
  ConfigurationParser.new
    |>.set "sn7_sdo_len" (.uint16 31)
    |>.set "sn7_latency_pub_topic" (.string "latency")
    |>.set "sn7_task_count" (.uint8 2)
    |>.set "sn7_app_1_sdowrite_task_type" (.uint8 DJICAN_APP_ID)
    |>.set "sn7_app_1_sdowrite_connection_lost_write_action" (.uint8 2)
    |>.set "sn7_app_1_sdowrite_control_period" (.uint8 1)
    |>.set "sn7_app_1_sdowrite_can_packet_id" (.uint32 0x200)
    |>.set "sn7_app_1_sdowrite_motor1_can_id" (.uint32 0x201)
    |>.set "sn7_app_1_sdowrite_motor2_can_id" (.uint32 0)
    |>.set "sn7_app_1_sdowrite_motor3_can_id" (.uint32 0)
    |>.set "sn7_app_1_sdowrite_motor4_can_id" (.uint32 0)
    |>.set "sn7_app_1_sdowrite_can_inst" (.uint8 1)
    |>.set "sn7_app_1_sdowrite_motor1_control_type" (.uint8 DJIMOTOR_CTRL_TYPE_CURRENT)
    |>.set "sn7_app_1_pub_topic" (.string "dji")
    |>.set "sn7_app_1_sub_topic" (.string "dji_write")
    |>.set "sn7_app_2_sdowrite_task_type" (.uint8 DSHOT_APP_ID)
    |>.set "sn7_app_2_sdowrite_connection_lost_write_action" (.uint8 1)
    |>.set "sn7_app_2_sdowrite_dshot_id" (.uint8 1)
    |>.set "sn7_app_2_sdowrite_init_value" (.uint16 48)
    |>.set "sn7_app_2_pdowrite_offset" (.uint16 3)
    |>.set "sn7_app_2_sub_topic" (.string "dshot")

def djiTask : TaskWrapper where
  cls := .djiMotor ![true, false, false, false]
  pdowriteOffset := 0
  pdoreadOffset := 0
  connectionLostReadAction := 0
  connectionLostWriteAction := 2

def secondDshotTask : TaskWrapper where
  cls := .dshot 48
  pdowriteOffset := 3
  pdoreadOffset := 0
  connectionLostReadAction := 0
  connectionLostWriteAction := 1

theorem djiDshot_built : ∃ dev,
    ((new 1).init djiDshotConfig 3 (some 7) [56]).2.initTaskList djiDshotConfig = .ok (true, dev) ∧
      dev.taskList = [djiTask, secondDshotTask] ∧ dev.masterToSlaveBufLen = 80 :=
  ⟨_, rfl, by decide +kernel, rfl⟩

theorem djiDshot_packed : Packed [djiTask, secondDshotTask] 80 where
  disjoint := by decide
  inside := by decide

/-- The reset of the group on a lost connection overwrites the command its neighbour keeps. -/
theorem resets_djiDshot : ∃ dev,
    ((new 1).init djiDshotConfig 3 (some 7) [56]).2.initTaskList djiDshotConfig = .ok (true, dev) ∧
      Packed dev.taskList dev.masterToSlaveBufLen ∧
      ¬ ResetsInside dev.taskList dev.masterToSlaveBufLen := by
  obtain ⟨dev, hbuilt, htasks, hlen⟩ := djiDshot_built
  refine ⟨dev, hbuilt, ?_, ?_⟩
  · rw [htasks, hlen]
    exact djiDshot_packed
  · rw [htasks, hlen]
    intro h
    have hkept := h.lost secondDshotTask (by decide) (by decide) (List.replicate 80 1) 3 (by decide)
    revert hkept
    decide

theorem resetsInside_iff_djiDshot : ∃ dev,
    ((new 1).init djiDshotConfig 3 (some 7) [56]).2.initTaskList djiDshotConfig = .ok (true, dev) ∧
      (ResetsInside dev.taskList dev.masterToSlaveBufLen ↔ ∀ t ∈ dev.taskList, t.WholeCommand) := by
  obtain ⟨dev, hbuilt, htasks, hlen⟩ := djiDshot_built
  refine ⟨dev, hbuilt, resetsInside_iff hbuilt ?_⟩
  rw [htasks, hlen]
  exact djiDshot_packed

end EcatMaster
