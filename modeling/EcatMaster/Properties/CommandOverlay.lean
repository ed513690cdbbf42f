import EcatMaster.Lib.Overlay
import EcatMaster.Properties.ResetRange
import EcatMaster.Slave.Section
import EcatMaster.Tasks.CommandFields
import EcatMaster.Tasks.Extent

/-! # Commands on a packed buffer

Where the command regions of the tasks are disjoint, any interleaving of commands leaves the last one
of each task in its region, and the readers of the task's types return the fields of that command. In a
`DJI_MOTOR` the slots of the motors are counted the same way when commands are written and when
feedback is read.
-/

namespace EcatMaster
set_option autoImplicit false
open ByteBuf

/-- A command for the task at a position of the list. -/
abbrev TaskCommand := ℕ × Command

/-- The bytes a command writes, if there is such a task and it subscribes to the message. -/
def commandBytes (tasks : List TaskWrapper) (e : TaskCommand) : Option (List UInt8) :=
  tasks[e.1]?.bind fun t => t.encode e.2

def commandWrites (tasks : List TaskWrapper) (es : List TaskCommand) : List (ℕ × List UInt8) :=
  es.filterMap fun e => (commandBytes tasks e).map fun bytes => (e.1, bytes)

def commandOffset (tasks : List TaskWrapper) (k : ℕ) : ℕ :=
  (tasks[k]?.map fun t => t.pdowriteOffset.toNat).getD 0

def commandExtent (tasks : List TaskWrapper) (k : ℕ) : ℕ :=
  (tasks[k]?.map fun t => t.commandLength).getD 0

def lastCommand (tasks : List TaskWrapper) (es : List TaskCommand) (k : ℕ) : Option Command :=
  ((es.filter fun e => e.1 = k ∧ (commandBytes tasks e).isSome).getLast?).map Prod.snd

/-- The callbacks of the commands, one after the other; a message nobody subscribes to has none. -/
def SlaveDevice.commands (d : SlaveDevice) (es : List TaskCommand) : SlaveDevice :=
  es.foldl (fun d e => (d.onCommand e.1 e.2).getD d) d

/-! ## The callbacks as writes -/

theorem commandWrites_filter (tasks : List TaskWrapper) (es : List TaskCommand) (k : ℕ) :
    (commandWrites tasks es).filter (fun w => w.1 = k) =
      commandWrites tasks (es.filter fun e => e.1 = k) := by
  unfold commandWrites
  induction es with
  | nil => rfl
  | cons e es ih =>
    rw [List.filterMap_cons, List.filter_cons]
    cases hb : commandBytes tasks e with
    | none =>
      by_cases hk : e.1 = k
      · rw [if_pos (decide_eq_true hk), List.filterMap_cons, hb]
        exact ih
      · rw [if_neg (by simpa using hk)]
        exact ih
    | some bytes =>
      by_cases hk : e.1 = k
      · simp [hk, hb, ih]
      · simp [hk, ih]

theorem lastWrite_commandWrites (tasks : List TaskWrapper) (es : List TaskCommand) (k : ℕ) :
    lastWrite (commandWrites tasks es) k =
      (lastCommand tasks es k).bind fun msg => commandBytes tasks (k, msg) := by
  induction es using List.reverseRecOn with
  | nil => rfl
  | append_singleton es e ih =>
    have hsplit : commandWrites tasks (es ++ [e]) = commandWrites tasks es ++
        commandWrites tasks [e] := List.filterMap_append
    have hlast : lastCommand tasks (es ++ [e]) k =
        if e.1 = k ∧ (commandBytes tasks e).isSome then some e.2 else lastCommand tasks es k := by
      unfold lastCommand
      rw [List.filter_append, List.filter_singleton]
      split
      · next h => simp [h]
      · next h => simp [h]
    rw [hsplit, hlast]
    cases hb : commandBytes tasks e with
    | none =>
      have hnone : commandWrites tasks [e] = [] := by simp [commandWrites, hb]
      rw [hnone, List.append_nil, ih]
      simp
    | some bytes =>
      have hone : commandWrites tasks [e] = [(e.1, bytes)] := by simp [commandWrites, hb]
      rw [hone, lastWrite_concat, ih]
      by_cases hk : e.1 = k
      · subst hk
        simp [hb]
      · simp [hk]

theorem commands_eq (d : SlaveDevice) (es : List TaskCommand) : d.commands es =
    d.withM2s (writeAll (commandOffset d.taskList) (commandWrites d.taskList es) d.m2s) := by
  induction es using List.reverseRecOn with
  | nil => rfl
  | append_singleton es e ih =>
    have hsplit : commandWrites d.taskList (es ++ [e]) = commandWrites d.taskList es ++
        commandWrites d.taskList [e] := List.filterMap_append
    have hstep : d.commands (es ++ [e]) =
        ((d.commands es).onCommand e.1 e.2).getD (d.commands es) := by
      unfold SlaveDevice.commands
      rw [List.foldl_append, List.foldl_cons, List.foldl_nil]
    rw [hstep, hsplit, ih, SlaveDevice.onCommand_eq]
    show Option.getD (d.taskList[e.1]?.bind _) _ = _
    cases htask : d.taskList[e.1]? with
    | none =>
      have hnone : commandWrites d.taskList [e] = [] := by simp [commandWrites, commandBytes, htask]
      rw [hnone, List.append_nil]
      rfl
    | some t =>
      cases henc : t.encode e.2 with
      | none =>
        have hnone : commandWrites d.taskList [e] = [] := by
          simp [commandWrites, commandBytes, htask, henc]
        rw [hnone, List.append_nil, Option.bind_some, henc]
        rfl
      | some bytes =>
        have hone : commandWrites d.taskList [e] = [(e.1, bytes)] := by
          simp [commandWrites, commandBytes, htask, henc]
        have hoff : commandOffset d.taskList e.1 = t.pdowriteOffset.toNat := by
          rw [commandOffset, htask]
          rfl
        rw [hone, writeAll_concat, hoff, Option.bind_some, henc]
        rfl

/-! ## Regions -/

section Packed
variable {tasks : List TaskWrapper} {len : ℕ}

theorem inRegion_iff {k i : ℕ} {t : TaskWrapper} (ht : tasks[k]? = some t) :
    InRegion (commandOffset tasks) (commandExtent tasks) k i ↔ i ∈ t.commandRange := by
  unfold InRegion TaskWrapper.commandRange commandOffset commandExtent
  rw [ht, Finset.mem_Ico]
  exact Iff.rfl

theorem Packed.disjointRegions (h : Packed tasks len) :
    ∀ a ∈ List.range tasks.length, ∀ b ∈ List.range tasks.length, a ≠ b → ∀ i,
      InRegion (commandOffset tasks) (commandExtent tasks) a i →
      ¬ InRegion (commandOffset tasks) (commandExtent tasks) b i := by
  have hlt {a b : ℕ} (hb : b < tasks.length) (hab : a < b) {i : ℕ}
      (hai : InRegion (commandOffset tasks) (commandExtent tasks) a i) :
      ¬ InRegion (commandOffset tasks) (commandExtent tasks) b i := by
    have ha := Nat.lt_trans hab hb
    rw [inRegion_iff (List.getElem?_eq_getElem ha)] at hai
    rw [inRegion_iff (List.getElem?_eq_getElem hb)]
    exact Finset.disjoint_left.mp (List.pairwise_iff_getElem.mp h.disjoint a b ha hb hab) hai
  intro a ha b hb hne i hai hbi
  rw [List.mem_range] at ha hb
  obtain hab | hba := Nat.lt_or_gt_of_ne hne
  · exact hlt hb hab hai hbi
  · exact hlt ha hba hbi hai

theorem commandWrites_spec {es : List TaskCommand} {w : ℕ × List UInt8}
    (hw : w ∈ commandWrites tasks es) : ∃ t msg, tasks[w.1]? = some t ∧ t.encode msg = some w.2 := by
  obtain ⟨e, -, he⟩ := List.mem_filterMap.mp hw
  obtain ⟨bytes, hbytes, rfl⟩ := Option.map_eq_some_iff.mp he
  obtain ⟨t, ht, henc⟩ := Option.bind_eq_some_iff.mp hbytes
  exact ⟨t, e.2, ht, henc⟩

theorem commandWrites_mem {es : List TaskCommand} {w : ℕ × List UInt8}
    (hw : w ∈ commandWrites tasks es) : w.1 ∈ List.range tasks.length := by
  obtain ⟨t, -, ht, -⟩ := commandWrites_spec hw
  exact List.mem_range.mpr (List.getElem?_eq_some_iff.mp ht).1

theorem commandWrites_length {es : List TaskCommand} {w : ℕ × List UInt8}
    (hw : w ∈ commandWrites tasks es) : w.2.length = commandExtent tasks w.1 := by
  obtain ⟨t, msg, ht, henc⟩ := commandWrites_spec hw
  rw [commandExtent, ht, t.encode_length msg w.2 henc]
  rfl

/-- The order of the commands of each task decides the buffer. -/
theorem Packed.writeAll_congr (h : Packed tasks len) {es es' : List TaskCommand}
    (hsame : ∀ k, es'.filter (fun e => e.1 = k) = es.filter fun e => e.1 = k) (buf : List UInt8) :
    writeAll (commandOffset tasks) (commandWrites tasks es') buf =
      writeAll (commandOffset tasks) (commandWrites tasks es) buf := by
  refine ByteBuf.writeAll_congr (fun w hw => commandWrites_mem hw)
    (fun w hw => commandWrites_length hw) h.disjointRegions (fun k => ?_) buf
  rw [commandWrites_filter, commandWrites_filter, hsame]

/-- After any interleaving the last command of a task is in its region. -/
theorem Packed.bytesAt_last {buf : List UInt8} (h : Packed tasks buf.length) {es : List TaskCommand}
    {k : ℕ} {t : TaskWrapper} {msg : Command} {bytes : List UInt8} (ht : tasks[k]? = some t)
    (hlast : lastCommand tasks es k = some msg) (henc : t.encode msg = some bytes) :
    BytesAt (writeAll (commandOffset tasks) (commandWrites tasks es) buf) t.pdowriteOffset.toNat
      bytes := by
  have hwrite : lastWrite (commandWrites tasks es) k = some bytes := by
    rw [lastWrite_commandWrites, hlast, Option.bind_some, commandBytes, ht, Option.bind_some, henc]
  have hk : k ∈ List.range tasks.length :=
    List.mem_range.mpr (List.getElem?_eq_some_iff.mp ht).1
  have hoff : commandOffset tasks k = t.pdowriteOffset.toNat := by
    rw [commandOffset, ht]
    rfl
  intro j hj
  have hrange : t.pdowriteOffset.toNat + j ∈ t.commandRange := by
    rw [t.encode_length msg bytes henc] at hj
    exact Finset.mem_Ico.mpr ⟨Nat.le_add_right _ _, Nat.add_lt_add_left hj _⟩
  have hfit := Finset.mem_range.mp (h.inside t (List.mem_of_getElem? ht) hrange)
  have hregion := (inRegion_iff ht).mpr hrange
  have hcell := writeAll_getElem?
    (fun w (hw : w ∈ commandWrites tasks es) => commandWrites_length hw) buf hregion
    fun w hw hne => h.disjointRegions k hk w.1 (commandWrites_mem hw) hne.symm _ hregion
  rw [byteAt, List.getD_eq_getElem?_getD, hcell, hwrite, Option.getD_some, hoff,
    put_getElem?_inside buf _ bytes j hj hfit, ← List.getD_eq_getElem?_getD]
  rfl

end Packed

/-! ## The feedback of a DJI group -/

def DJIMotorState.values (m : DJIMotorState) : List Variant :=
  [.uint8 m.online, .uint16 m.ecd, .int16 m.rpm, .int16 m.current, .uint8 m.temperature,
   .uint8 m.errorCode]

def DJIMotorState.tags : List Tag := [.uint8, .uint16, .int16, .int16, .uint8, .uint8]

namespace DJI_MOTOR

/-- Motor `k` is read from its slot of nine bytes. -/
theorem read_motor (on : Fin 4 → Bool) (buf : List UInt8) (off : ℕ) (k : Fin 4) :
    (read on buf off).1.motor k = (motorState (on k) buf (off + 9 * slot on k)).1 := by
  obtain rfl | rfl | rfl | rfl := motor_cases k
  · rw [mul_slot_motor1]
    rfl
  · rw [mul_slot_motor2, ← motorState_snd]
    rfl
  · rw [mul_slot_motor3, ← Nat.add_assoc, ← motorState_snd, ← motorState_snd]
    rfl
  · rw [mul_slot_motor4, ← Nat.add_assoc, ← Nat.add_assoc, ← motorState_snd, ← motorState_snd,
      ← motorState_snd]
    rfl

theorem read_slot {on : Fin 4 → Bool} {k : Fin 4} (hk : on k = true) (buf : List UInt8) (off : ℕ) :
    readValues buf DJIMotorState.tags (off + 9 * slot on k) =
      (((read on buf off).1.motor k).values, off + 9 * slot on k + 9) := by
  rw [read_motor, hk]
  rfl

end DJI_MOTOR

/-- **Commands overlay independently and decodably.** On a packed buffer any interleaving of commands
leaves the initial bytes overlaid with the last command of each task, and that depends on the order
of each task's own commands only. The readers of a task's types return the fields of its last command,
and both for commands and for feedback the slot of a DJI motor is the number of enabled motors before
it. -/
theorem commands_overlay (d : SlaveDevice) (h : Packed d.taskList d.m2s.length)
    (es : List TaskCommand) :
    d.commands es = d.withM2s (overlay (commandOffset d.taskList)
      (fun k => (lastCommand d.taskList es k).bind fun msg => commandBytes d.taskList (k, msg))
      (List.range d.taskList.length) d.m2s) ∧
    (∀ es', (∀ k, es'.filter (fun e => e.1 = k) = es.filter fun e => e.1 = k) →
      d.commands es' = d.commands es) ∧
    (∀ k t msg, d.taskList[k]? = some t → lastCommand d.taskList es k = some msg →
      readValues (d.commands es).m2s t.commandTags t.pdowriteOffset.toNat =
        (t.commandFields msg, t.pdowriteOffset.toNat + t.commandLength)) ∧
    (∀ k t on enable cmd, d.taskList[k]? = some t → t.cls = .djiMotor on →
      lastCommand d.taskList es k = some (.writeDJIMotor enable cmd) → ∀ m, on m = true →
      readValues (d.commands es).m2s [.uint8, .int16]
          (t.pdowriteOffset.toNat + 3 * DJI_MOTOR.slot on m) =
        ([.uint8 (enable m), .int16 (cmd m)],
          t.pdowriteOffset.toNat + 3 * DJI_MOTOR.slot on m + 3)) ∧
    ∀ on buf off m, on m = true →
      readValues buf DJIMotorState.tags (off + 9 * DJI_MOTOR.slot on m) =
        (((DJI_MOTOR.read on buf off).1.motor m).values, off + 9 * DJI_MOTOR.slot on m + 9) := by
  have henc {k : ℕ} {t : TaskWrapper} {msg : Command} (ht : d.taskList[k]? = some t)
      (hlast : lastCommand d.taskList es k = some msg) : ∃ bytes, t.encode msg = some bytes := by
    obtain ⟨e, he, rfl⟩ := Option.map_eq_some_iff.mp hlast
    have hmem := List.mem_of_getLast? he
    rw [List.mem_filter, decide_eq_true_eq] at hmem
    obtain ⟨-, rfl, hsome⟩ := hmem
    rw [commandBytes, ht, Option.bind_some, Option.isSome_iff_exists] at hsome
    exact hsome
  refine ⟨?_, fun es' hsame => ?_, fun k t msg ht hlast => ?_,
    fun k t on enable cmd ht hcls hlast m hm => ?_, fun on buf off m hm => DJI_MOTOR.read_slot hm buf off⟩
  · rw [commands_eq, writeAll_eq_overlay (fun w hw => commandWrites_mem hw)
      (fun w hw => commandWrites_length hw) h.disjointRegions, funext (lastWrite_commandWrites _ es)]
  · rw [commands_eq, commands_eq, h.writeAll_congr hsame]
  · obtain ⟨bytes, hbytes⟩ := henc ht hlast
    obtain ⟨hfields, htyped⟩ := TaskWrapper.encode_fields hbytes
    have hat := h.bytesAt_last ht hlast hbytes
    rw [← hfields] at hat
    rw [commands_eq, ← TaskWrapper.width_commandTags hbytes]
    exact readValues_of_bytesAt htyped hat
  · obtain ⟨cls, w, r, ra, wa⟩ := t
    obtain rfl : cls = .djiMotor on := hcls
    have hat := h.bytesAt_last ht hlast rfl
    rw [commands_eq]
    exact readValues_of_bytesAt (.cons rfl (.cons rfl .nil)) (DJI_MOTOR.bytesAt_slot hat hm)

/-- A DJI group with its second and fourth motor, and a DSHOT task behind it. -/
def groupTask : TaskWrapper where
  cls := .djiMotor ![false, true, false, true]
  pdowriteOffset := 0
  pdoreadOffset := 0
  connectionLostReadAction := 0
  connectionLostWriteAction := 1

def groupDevice : SlaveDevice :=
  { SlaveDevice.dshotDevice with
    taskList := [groupTask, { SlaveDevice.dshotTask with pdowriteOffset := 6 }] }

/-- A DSHOT command before and after one of the group. -/
def groupCommands : List TaskCommand :=
  [(1, .writeDSHOT 48 48 48 48), (0, .writeDJIMotor ![0, 1, 0, 2] ![0, 300, 0, -300]),
   (1, .writeDSHOT 1000 1001 1002 1003)]

theorem commands_overlay_group :
    readValues (groupDevice.commands groupCommands).m2s [.uint8, .int16, .uint8, .int16] 0 =
      ([.uint8 1, .int16 300, .uint8 2, .int16 (-300)], 6) ∧
    readValues (groupDevice.commands groupCommands).m2s [.uint8, .int16] 3 =
      ([.uint8 2, .int16 (-300)], 6) := by
  have h := commands_overlay groupDevice ⟨by decide, by decide⟩ groupCommands
  exact ⟨h.2.2.1 0 groupTask (.writeDJIMotor ![0, 1, 0, 2] ![0, 300, 0, -300]) rfl rfl,
    h.2.2.2.1 0 groupTask _ _ _ rfl rfl rfl motor4 rfl⟩

end EcatMaster
