import EcatMaster.Properties.BufferEvents

/-! # Argument bytes and actuator commands

`send_arg` uses the first three bytes of the command buffer. Here every byte of the buffer and of its
snapshot carries the name of its last writer, through the copies of backup and recover; the bytes
themselves are those of the device (`Tagged`). Whether the buffer holds command bytes only when the status
leaves SENDING_ARGUMENTS is a matter of the order of events: a snapshot must have been taken before the
arguments of the session, and no echo of status 2 and no re-init may announce READY after them.
-/

namespace EcatMaster
set_option autoImplicit false
open ByteBuf EventRun

/-- Who wrote a byte of the command buffer last. -/
inductive Writer where
  | resize
  | writeInitValues
  | initValue
  | onCommand
  | sendArg
deriving DecidableEq

/-- The writers of actuator commands. -/
def Writer.commands : Writer → Bool
  | writeInitValues | initValue | onCommand => true
  | resize | sendArg => false

abbrev Cell := UInt8 × Writer

def tag (w : Writer) (bytes : List UInt8) : List Cell := bytes.map fun b => (b, w)

def Clean (cells : List Cell) : Prop := ∀ c ∈ cells, c.2.commands = true

instance (cells : List Cell) : Decidable (Clean cells) := List.decidableBAll _ _

/-- The command buffer and its snapshot, byte by byte with the last writers. -/
structure Provenance where
  buf : List Cell
  snapshot : List Cell
deriving DecidableEq

/-! ## The writers at work -/

/-- `write_init_values` on tagged bytes. -/
def initCells (tasks : List TaskWrapper) (len : ℕ) (cells : List Cell) : List Cell :=
  tasks.foldl
    (fun cells task =>
      if task.hasSubscribers then
        put cells task.pdowriteOffset.toNat (tag .initValue task.initBytes)
      else cells)
    (put cells 0 (tag .writeInitValues (List.replicate len 0)))

/-- The write actions of a loss on tagged bytes. -/
def lostCells (tasks : List TaskWrapper) (cells : List Cell) : List Cell :=
  tasks.foldl
    (fun cells task =>
      if task.connectionLostWriteAction = 0x02 then
        put cells task.pdowriteOffset.toNat (tag .initValue task.initBytes)
      else cells)
    cells

namespace Provenance

def start (d : SlaveDevice) : Provenance := ⟨tag .resize d.m2s, tag .resize d.masterToSlaveBufBackup⟩

/-- The buffer behind section `s`, by its event. -/
def cellsAfter (g : Provenance) (d : SlaveDevice) (s : Section) : BufEvent → List Cell
  | .kept => g.buf
  | .initValues => initCells d.taskList d.masterToSlaveBufLen g.buf
  | .recovered => g.snapshot
  | .argument => d.sentArg.elim g.buf fun bytes => put g.buf 0 (tag .sendArg bytes)
  | .command =>
      match s with
      | .command k msg => (d.taskList[k]?.bind fun task => (task.encode msg).map fun bytes =>
          put g.buf task.pdowriteOffset.toNat (tag .onCommand bytes)).getD g.buf
      | _ => g.buf
  | .cleared => tag .resize (List.replicate d.masterToSlaveBufLen 0)
  | .lossActions => lostCells d.taskList g.buf

def update (cfg : ConfigurationParser) (g : Provenance) (d : SlaveDevice) (s : Section) :
    Provenance where
  buf := g.cellsAfter d s (d.bufEvent cfg s)
  snapshot := if s = .lost then lostCells d.taskList g.buf else g.snapshot

end Provenance

/-- The bytes with their writers; whether the buffer has been made again or written by `send_arg` since it
was last rewritten as a whole; and whether it had when the last snapshot was taken. -/
structure ArgHistory where
  cells : Provenance
  args : Bool
  savedArgs : Bool
deriving DecidableEq

namespace ArgHistory

def start (d : SlaveDevice) : ArgHistory := ⟨Provenance.start d, true, false⟩

def argsAfter (g : ArgHistory) : BufEvent → Bool
  | .kept | .command | .lossActions => g.args
  | .initValues => false
  | .recovered => g.savedArgs
  | .argument | .cleared => true

def update (cfg : ConfigurationParser) (g : ArgHistory) (d : SlaveDevice) (s : Section) :
    ArgHistory where
  cells := g.cells.update cfg d s
  args := g.argsAfter (d.bufEvent cfg s)
  savedArgs := if s = .lost then g.args else g.savedArgs

end ArgHistory

namespace Section
open SlaveDevice

/-- A section that takes the status from SENDING_ARGUMENTS to READY or beyond leaves command bytes
only in the buffer. -/
def LeavesClean (cfg : ConfigurationParser) (d : SlaveDevice) (g : Provenance) (s : Section) :
    Prop :=
  d.masterStatus = MASTER_SENDING_ARGUMENTS → MASTER_READY ≤ (s.run cfg d).masterStatus →
    (g.update cfg d s).buf.map Prod.fst = (s.run cfg d).m2s ∧ Clean (g.update cfg d s).buf

instance (cfg : ConfigurationParser) (d : SlaveDevice) (g : Provenance) (s : Section) :
    Decidable (LeavesClean cfg d g s) :=
  inferInstanceAs (Decidable (_ → _ → _ ∧ _))

/-- A READY branch after a `pre_recover` recovers a snapshot that was taken before any argument, or finds a
buffer that no argument has come into; and with arguments in the buffer neither an echo of status 2 nor an
`init` announces READY. -/
def LeavesArgs (cfg : ConfigurationParser) (d : SlaveDevice) (g : ArgHistory) : Section → Prop
  | .process _ => d.masterStatus = MASTER_SENDING_ARGUMENTS →
      (d.ByReadyBranch → d.reconnectedTimes ≠ 0 →
        (if d.HasSnapshot then g.savedArgs else g.args) = false) ∧
      (d.TakesStatusTwo → g.args = false ∧ ¬ d.SendsArg)
  | .init eepId snRead swRevStr => d.masterStatus = MASTER_SENDING_ARGUMENTS →
      d.SkipsArguments cfg eepId snRead swRevStr → d.sn ≠ 0 ∧ g.args = false
  | _ => True

instance (cfg : ConfigurationParser) (d : SlaveDevice) (g : ArgHistory) :
    DecidablePred (LeavesArgs cfg d g)
  | .process _ => inferInstanceAs (Decidable (_ → (_ → _ → _) ∧ (_ → _ ∧ _)))
  | .init _ _ _ => inferInstanceAs (Decidable (_ → _ → _ ∧ _))
  | .receive _ | .exitReset | .transfer | .command _ _ | .preRecover | .resetState | .lost
  | .recoverState => .isTrue trivial

/-- No command and no write action of a loss comes over the first byte. -/
def SparesFirst (d : SlaveDevice) : Section → Prop
  | .command k _ => ∀ task ∈ d.taskList[k]?, 0 < task.pdowriteOffset.toNat
  | .lost => ∀ task ∈ d.taskList, task.connectionLostWriteAction = 0x02 →
      0 < task.pdowriteOffset.toNat
  | _ => True

end Section

/-! ## Tagged bytes are the bytes of the device -/

@[simp] theorem tag_map_fst (w : Writer) (bytes : List UInt8) : (tag w bytes).map Prod.fst = bytes := by
  unfold tag
  rw [List.map_map]
  exact List.map_id bytes

theorem clean_tag {w : Writer} (hw : w.commands = true) (bytes : List UInt8) : Clean (tag w bytes) := by
  intro c hc
  obtain ⟨b, -, rfl⟩ := List.mem_map.mp hc
  exact hw

theorem clean_put {cells written : List Cell} {off : ℕ} (h : Clean cells) (hw : Clean written) :
    Clean (put cells off written) := by
  intro c hc
  obtain hc | hc := mem_put hc
  · exact h c hc
  · exact hw c hc

theorem initCells_map (tasks : List TaskWrapper) (len : ℕ) (cells : List Cell) :
    (initCells tasks len cells).map Prod.fst =
      SlaveDevice.initPayload tasks len (cells.map Prod.fst) := by
  unfold initCells SlaveDevice.initPayload
  have hstart : (put cells 0 (tag .writeInitValues (List.replicate len 0))).map Prod.fst =
      put (cells.map Prod.fst) 0 (List.replicate len 0) := by
    rw [put_map, tag_map_fst]
  rw [← hstart]
  generalize put cells 0 (tag .writeInitValues (List.replicate len 0)) = cells
  induction tasks generalizing cells with
  | nil => rfl
  | cons t ts ih =>
    rw [List.foldl_cons, List.foldl_cons, ih]
    split
    · rw [put_map, tag_map_fst, TaskWrapper.initValue_eq]
    · rfl

theorem lostCells_map (tasks : List TaskWrapper) (cells : List Cell) :
    (lostCells tasks cells).map Prod.fst = SlaveDevice.lostPayload tasks (cells.map Prod.fst) := by
  unfold lostCells SlaveDevice.lostPayload
  induction tasks generalizing cells with
  | nil => rfl
  | cons t ts ih =>
    rw [List.foldl_cons, List.foldl_cons, ih]
    split
    · rw [put_map, tag_map_fst, TaskWrapper.initValue_eq]
    · rfl

theorem clean_initCells (tasks : List TaskWrapper) (len : ℕ) (cells : List Cell)
    (hlen : cells.length = len) : Clean (initCells tasks len cells) := by
  have hfull : put cells 0 (tag .writeInitValues (List.replicate len 0)) =
      tag .writeInitValues (List.replicate len 0) := by
    refine put_full _ _ ?_
    unfold tag
    rw [List.length_map, List.length_replicate, hlen]
  have hstart : Clean (put cells 0 (tag .writeInitValues (List.replicate len 0))) := by
    rw [hfull]
    exact clean_tag rfl _
  unfold initCells
  generalize put cells 0 (tag .writeInitValues (List.replicate len 0)) = start at hstart ⊢
  induction tasks generalizing start with
  | nil => exact hstart
  | cons t ts ih =>
    rw [List.foldl_cons]
    refine ih _ ?_
    split
    · exact clean_put hstart (clean_tag rfl _)
    · exact hstart

theorem clean_lostCells (tasks : List TaskWrapper) {cells : List Cell} (h : Clean cells) :
    Clean (lostCells tasks cells) := by
  unfold lostCells
  induction tasks generalizing cells with
  | nil => exact h
  | cons t ts ih =>
    rw [List.foldl_cons]
    refine ih ?_
    split
    · exact clean_put h (clean_tag rfl _)
    · exact h

/-- Whether the first byte, if there is one, is not a command byte. -/
def FirstIsArg (cells : List Cell) (args : Bool) : Prop := ∀ c ∈ cells[0]?, c.2.commands = !args

theorem Clean.firstIsArg {cells : List Cell} (h : Clean cells) : FirstIsArg cells false :=
  fun c hc => h c (List.mem_of_getElem? hc)

theorem firstIsArg_tag {w : Writer} (hw : w.commands = false) (bytes : List UInt8) :
    FirstIsArg (tag w bytes) true := by
  intro c hc
  obtain ⟨b, -, rfl⟩ := List.mem_map.mp (List.mem_of_getElem? hc)
  exact hw

theorem firstIsArg_put {cells written : List Cell} {args : Bool} {off : ℕ} (h : FirstIsArg cells args)
    (hoff : 0 < off) : FirstIsArg (put cells off written) args := by
  unfold FirstIsArg
  rw [put_getElem?_outside _ _ _ _ (Or.inl hoff)]
  exact h

theorem firstIsArg_sent (cells : List Cell) {bytes : List UInt8} (hlen : 0 < bytes.length) :
    FirstIsArg (put cells 0 (tag .sendArg bytes)) true := by
  intro c hc
  have htag : (tag .sendArg bytes).length = bytes.length := List.length_map _
  rw [put_getElem?] at hc
  split at hc
  · exact firstIsArg_tag rfl bytes c hc
  · next hout =>
    rw [List.getElem?_eq_none (by omega)] at hc
    cases hc

theorem firstIsArg_lost {tasks : List TaskWrapper} {cells : List Cell} {args : Bool}
    (h : FirstIsArg cells args)
    (hoff : ∀ task ∈ tasks, task.connectionLostWriteAction = 0x02 → 0 < task.pdowriteOffset.toNat) :
    FirstIsArg (lostCells tasks cells) args := by
  unfold lostCells
  induction tasks generalizing cells with
  | nil => exact h
  | cons t ts ih =>
    rw [List.foldl_cons]
    refine ih ?_ fun task ht => hoff task (List.mem_cons_of_mem t ht)
    split
    · next hact => exact firstIsArg_put h (hoff t List.mem_cons_self hact)
    · exact h

namespace SlaveDevice

/-- The history holds the bytes of the device. -/
structure Tagged (eepId : UInt32) (d : SlaveDevice) (g : Provenance) : Prop where
  storage : Storage eepId d
  buf : g.buf.map Prod.fst = d.m2s
  snapshot : g.snapshot.map Prod.fst = d.masterToSlaveBufBackup

section Device
variable {cfg : ConfigurationParser} {eepId : UInt32} {d : SlaveDevice}

theorem Fresh.tagged (h : Fresh cfg eepId d) : Tagged eepId d (Provenance.start d) where
  storage := h.storage
  buf := tag_map_fst _ _
  snapshot := tag_map_fst _ _

theorem cellsAfter_map {g : Provenance} (h : Tagged eepId d g) {s : Section}
    (hs : Node.OnModule eepId s) :
    (g.cellsAfter d s (d.bufEvent cfg s)).map Prod.fst = (s.run cfg d).m2s := by
  have hleaves := leaves_run cfg hs h.storage
  generalize d.bufEvent cfg s = e at hleaves
  cases e with
  | kept => exact h.buf.trans hleaves.symm
  | initValues => rw [hleaves, ← h.buf, ← initCells_map]; rfl
  | recovered => exact h.snapshot.trans hleaves.symm
  | argument =>
    obtain ⟨bytes, hbytes, hbuf⟩ := hleaves
    unfold Provenance.cellsAfter
    rw [hbuf, hbytes, Option.elim_some, put_map, tag_map_fst, h.buf]
  | command =>
    obtain ⟨k, msg, task, bytes, rfl, htask, hbytes, hbuf⟩ := hleaves
    unfold Provenance.cellsAfter
    simp only
    rw [hbuf, htask, Option.bind_some, hbytes, Option.map_some, Option.getD_some, put_map,
      tag_map_fst, h.buf]
  | cleared => exact (tag_map_fst _ _).trans hleaves.symm
  | lossActions => rw [hleaves, ← h.buf, ← lostCells_map]; rfl

/-- **Every section keeps the history on the bytes of the device.** -/
theorem Tagged.run {g : Provenance} {s : Section} (hs : Node.OnModule eepId s)
    (h : Tagged eepId d g) : Tagged eepId (s.run cfg d) (g.update cfg d s) := by
  refine ⟨h.storage.run hs, cellsAfter_map h hs, ?_⟩
  rw [run_backup cfg h.storage]
  unfold Provenance.update
  simp only
  split
  · rw [lostCells_map, h.buf]
  · exact h.snapshot

/-! ## Arguments in the buffer -/

/-- Without arguments in the buffer, or in the snapshot, all its bytes are command bytes. -/
structure ArgsKnown (eepId : UInt32) (d : SlaveDevice) (g : ArgHistory) : Prop where
  tagged : Tagged eepId d g.cells
  buf : g.args = false → Clean g.cells.buf
  snapshot : g.savedArgs = false → Clean g.cells.snapshot

/-- As long as nothing comes over it the first byte says whether there are arguments. -/
structure FirstTells (eepId : UInt32) (d : SlaveDevice) (g : ArgHistory) : Prop where
  known : ArgsKnown eepId d g
  buf : FirstIsArg g.cells.buf g.args
  snapshot : FirstIsArg g.cells.snapshot g.savedArgs

variable {g : ArgHistory}

theorem Fresh.firstTells (h : Fresh cfg eepId d) : FirstTells eepId d (ArgHistory.start d) where
  known := {
    tagged := h.tagged
    buf := nofun
    snapshot := fun _ => by
      show Clean (tag .resize d.masterToSlaveBufBackup)
      rw [h.backup]
      exact fun _ hc => nomatch hc }
  buf := firstIsArg_tag rfl _
  snapshot := by
    show FirstIsArg (tag .resize d.masterToSlaveBufBackup) false
    rw [h.backup]
    exact fun _ hc => nomatch hc

theorem clean_cellsAfter (h : ArgsKnown eepId d g) (s : Section) {e : BufEvent}
    (hargs : g.argsAfter e = false) : Clean (g.cells.cellsAfter d s e) := by
  cases e with
  | kept => exact h.buf hargs
  | initValues =>
    refine clean_initCells _ _ _ ?_
    have hbuf := congrArg List.length h.tagged.buf
    rw [List.length_map] at hbuf
    rw [hbuf, h.tagged.storage.m2s]
  | recovered => exact h.snapshot hargs
  | argument | cleared => cases hargs
  | command =>
    have hclean := h.buf hargs
    unfold Provenance.cellsAfter
    simp only
    split
    · next k msg =>
      cases htask : d.taskList[k]? with
      | none => exact hclean
      | some task =>
        rw [Option.bind_some]
        cases task.encode msg with
        | none => exact hclean
        | some bytes => exact clean_put hclean (clean_tag rfl _)
    · exact hclean
  | lossActions => exact clean_lostCells _ (h.buf hargs)

theorem ArgsKnown.run {s : Section} (hs : Node.OnModule eepId s) (h : ArgsKnown eepId d g) :
    ArgsKnown eepId (s.run cfg d) (g.update cfg d s) where
  tagged := h.tagged.run hs
  buf := clean_cellsAfter h s
  snapshot hsaved := by
    unfold ArgHistory.update Provenance.update at *
    simp only at hsaved ⊢
    split at hsaved
    · next hlost =>
      rw [if_pos hlost]
      exact clean_lostCells _ (h.buf hsaved)
    · next hlost =>
      rw [if_neg hlost]
      exact h.snapshot hsaved

theorem firstIsArg_cellsAfter {s : Section} (hs : Node.OnModule eepId s) (h : FirstTells eepId d g)
    (hspare : s.SparesFirst d) :
    FirstIsArg (g.cells.cellsAfter d s (d.bufEvent cfg s)) (g.argsAfter (d.bufEvent cfg s)) := by
  have hleaves := leaves_run cfg hs h.known.tagged.storage
  have hlost := bufEvent_lossActions cfg d (s := s)
  generalize d.bufEvent cfg s = e at hleaves hlost ⊢
  cases e with
  | kept => exact h.buf
  | initValues => exact (clean_cellsAfter h.known s rfl).firstIsArg
  | recovered => exact h.snapshot
  | argument =>
    obtain ⟨bytes, hbytes, -⟩ := hleaves
    unfold Provenance.cellsAfter
    rw [hbytes]
    exact firstIsArg_sent _ (by rw [sentArg_length hbytes]; decide)
  | command =>
    obtain ⟨k, msg, task, bytes, rfl, htask, hbytes, -⟩ := hleaves
    unfold Provenance.cellsAfter
    simp only
    rw [htask, Option.bind_some, hbytes, Option.map_some, Option.getD_some]
    exact firstIsArg_put h.buf (hspare task htask)
  | cleared => exact firstIsArg_tag rfl _
  | lossActions =>
    obtain rfl := hlost rfl
    exact firstIsArg_lost h.buf hspare

theorem FirstTells.run {s : Section} (hs : Node.OnModule eepId s) (h : FirstTells eepId d g)
    (hspare : s.SparesFirst d) : FirstTells eepId (s.run cfg d) (g.update cfg d s) where
  known := h.known.run hs
  buf := firstIsArg_cellsAfter hs h hspare
  snapshot := by
    unfold ArgHistory.update Provenance.update
    simp only
    split
    · next hlost =>
      subst hlost
      exact firstIsArg_lost h.buf hspare
    · exact h.snapshot

/-! ## Leaving SENDING_ARGUMENTS -/

theorem not_byReadyBranch_of_ready (h : d.confirmReady.isReady = true) : ¬ d.ByReadyBranch := by
  intro hb
  rw [hb.waiting] at h
  cases h

/-- The condition is that a section which leaves SENDING_ARGUMENTS leaves no arguments in the buffer. -/
theorem leavesArgs_iff (hst : Storage eepId d) (s : Section) :
    s.LeavesArgs cfg d g ↔ (d.masterStatus = MASTER_SENDING_ARGUMENTS →
      MASTER_READY ≤ (s.run cfg d).masterStatus → g.argsAfter (d.bufEvent cfg s) = false) := by
  have hready : ¬ MASTER_READY ≤ MASTER_SENDING_ARGUMENTS := by decide
  constructor
  · intro h h2 hle
    obtain ⟨⟨t, rfl⟩, hb⟩ | ⟨⟨t, rfl⟩, hb, htwo⟩ | ⟨eep, snRead, rev, rfl, hskip⟩ :=
      run_leavesSending cfg hst h2 (fun hms => hready (hms ▸ hle))
    · rw [bufEvent_process, if_pos hb]
      by_cases ht : d.reconnectedTimes = 0
      · rw [if_pos ht]
        rfl
      · have hsource := (h h2).1 hb ht
        rw [if_neg ht]
        split
        · next hsnap => rwa [if_pos hsnap] at hsource
        · next hsnap => rwa [if_neg hsnap] at hsource
    · obtain ⟨hargs, hns⟩ := (h h2).2 htwo
      rw [bufEvent_process, if_neg hb, if_neg fun hsa => hns hsa.2]
      exact hargs
    · obtain ⟨hsn, hargs⟩ := h h2 hskip
      rw [bufEvent_init, if_neg fun hacc => hsn hacc.2]
      exact hargs
  · intro h
    cases s with
    | process t =>
      intro h2
      have hafter := h h2
      rw [bufEvent_process] at hafter
      refine ⟨fun hb ht => ?_, fun htwo => ?_⟩
      · have hms : ((Section.process t).run cfg d).masterStatus = MASTER_READY := by
          show (d.processSection t).masterStatus = _
          rw [(d.processSection_of_branch t hb).2.2]
        have hafter := hafter (by rw [hms]; decide)
        rw [if_pos hb, if_neg ht] at hafter
        split at hafter
        · next hsnap => rwa [if_pos hsnap]
        · next hsnap => rwa [if_neg hsnap]
      · obtain ⟨hc, hr, -, hslave⟩ := htwo
        have hr' := (confirmReady_isReady_of_two hslave).trans hr
        have hms : ((Section.process t).run cfg d).masterStatus = nextStatus d.masterStatus :=
          d.processSection_echo t hc hr' (hslave.trans h2.symm)
        have hafter := hafter (by rw [hms, h2]; decide)
        rw [if_neg (not_byReadyBranch_of_ready hr')] at hafter
        split at hafter
        · cases hafter
        · next hns => exact ⟨hafter, fun hsa => hns ⟨hc, hsa⟩⟩
    | init eep snRead swRevStr =>
      intro h2 hskip
      obtain ⟨hrefuses, -⟩ | ⟨hacc, sdoLen, hlen, hms⟩ := init_masterStatus cfg eep snRead swRevStr d
      · exact absurd hskip.1 hrefuses
      · have hzero : sdoLen = 0 := Except.ok.inj (hlen.symm.trans hskip.2)
        rw [if_pos hzero] at hms
        have hrun : ((Section.init eep snRead swRevStr).run cfg d).masterStatus = MASTER_READY := hms
        have hafter := h h2 (by rw [hrun]; decide)
        rw [bufEvent_init] at hafter
        split at hafter
        · cases hafter
        · next hkept => exact ⟨fun hsn => hkept ⟨hacc, hsn⟩, hafter⟩
    | _ => trivial

theorem leavesClean_of_leavesArgs {s : Section} (hs : Node.OnModule eepId s)
    (h : ArgsKnown eepId d g) (hargs : s.LeavesArgs cfg d g) : s.LeavesClean cfg d g.cells := by
  intro h2 hle
  have hafter := (leavesArgs_iff h.tagged.storage s).mp hargs h2 hle
  exact ⟨cellsAfter_map h.tagged hs, clean_cellsAfter h s hafter⟩

theorem leavesArgs_of_leavesClean {s : Section} (hs : Node.OnModule eepId s)
    (h : FirstTells eepId d g) (hspare : s.SparesFirst d) (hlen : 0 < d.masterToSlaveBufLen)
    (hclean : s.LeavesClean cfg d g.cells) : s.LeavesArgs cfg d g := by
  refine (leavesArgs_iff h.known.tagged.storage s).mpr fun h2 hle => ?_
  obtain ⟨hmap, hclean⟩ := hclean h2 hle
  have hfirst : FirstTells eepId (s.run cfg d) (g.update cfg d s) := h.run hs hspare
  have hpos : 0 < (g.cells.update cfg d s).buf.length := by
    have hlength := congrArg List.length hmap
    have hst : Storage eepId (s.run cfg d) := h.known.tagged.storage.run hs
    rw [List.length_map, hst.m2s, hst.m2sLen, ← h.known.tagged.storage.m2sLen] at hlength
    omega
  have hcell := hfirst.buf _ (List.getElem?_eq_getElem hpos)
  rw [hclean _ (List.getElem_mem hpos)] at hcell
  exact (Bool.not_eq_true' _).mp hcell.symm

end Device
end SlaveDevice

namespace Node
variable {n : ℕ}

/-- **Argument bytes.** In every run in which no READY is announced with arguments in the buffer, every
section that leaves SENDING_ARGUMENTS leaves a buffer of command bytes only. Where no command comes over
the first byte these are the only such runs. -/
theorem argumentBytes {cfg : ConfigurationParser} {N : Node n} (h : Initial cfg N) (i : Fin n)
    (es : List (Event n)) :
    (Along (watchSlave cfg i (ArgHistory.update cfg))
        (OnSection i fun d g s => s.LeavesArgs cfg d g)
        (N, ArgHistory.start (N.slots i).dev) es →
      Along (watchSlave cfg i (ArgHistory.update cfg))
        (OnSection i fun d g s => s.LeavesClean cfg d g.cells)
        (N, ArgHistory.start (N.slots i).dev) es) ∧
    (0 < (N.slots i).dev.masterToSlaveBufLen →
      Along (watchSlave cfg i (ArgHistory.update cfg))
        (OnSection i fun d _ s => s.SparesFirst d)
        (N, ArgHistory.start (N.slots i).dev) es →
      Along (watchSlave cfg i (ArgHistory.update cfg))
        (OnSection i fun d g s => s.LeavesClean cfg d g.cells)
        (N, ArgHistory.start (N.slots i).dev) es →
      Along (watchSlave cfg i (ArgHistory.update cfg))
        (OnSection i fun d g s => s.LeavesArgs cfg d g)
        (N, ArgHistory.start (N.slots i).dev) es) := by
  have hstart := (h.configured i).fresh.firstTells
  refine ⟨fun hc => ?_, fun hlen hspare hclean => ?_⟩
  · refine along_sections (SlaveDevice.ArgsKnown (N.slots i).ec.eepId) ?_ hstart.known hc
    intro d g s hs hI hargs
    exact ⟨SlaveDevice.leavesClean_of_leavesArgs hs hI hargs, hI.run hs⟩
  · have hboth : Along (watchSlave cfg i (ArgHistory.update cfg))
        (OnSection i fun d g s => s.SparesFirst d ∧ s.LeavesClean cfg d g.cells)
        (N, ArgHistory.start (N.slots i).dev) es :=
      along_imp₂ (fun _ _ _ hs hc s h => ⟨hs s h, hc s h⟩) hspare hclean
    refine along_sections (fun d g => SlaveDevice.FirstTells (N.slots i).ec.eepId d g ∧
      0 < d.masterToSlaveBufLen) ?_ ⟨hstart, hlen⟩ hboth
    rintro d g s hs ⟨hI, hpos⟩ ⟨hspare, hclean⟩
    refine ⟨SlaveDevice.leavesArgs_of_leavesClean hs hI hspare hpos hclean, hI.run hs hspare, ?_⟩
    rwa [(hI.known.tagged.storage.run hs).m2sLen, ← hI.known.tagged.storage.m2sLen]

/-- The board is found lost, configured again, and recovered from the snapshot. -/
def seenRestart : List (Event 1) :=
  startUp ++ throttle ++ loss ++ reconfiguration ++ safeOpPass ++ argumentTurns

theorem argumentBytes_seenRestart :
    Along (watchSlave SlaveDevice.dshotConfig 0 (ArgHistory.update SlaveDevice.dshotConfig))
      (OnSection 0 fun d g s => s.LeavesClean SlaveDevice.dshotConfig d g.cells)
      (dshotNode, ArgHistory.start SlaveDevice.dshotDevice) seenRestart :=
  (argumentBytes dshotNode_initial 0 seenRestart).1 (by decide +kernel)

/-- The board restarts and answers in INIT before a pass of the checker has found it lost. -/
def unseenRestart : List (Event 1) :=
  startUp ++ turn [0] 0 ++ reconfiguration ++ safeOpPass ++ argumentTurns

/-- No snapshot has been taken, and READY is announced over the last argument. -/
theorem argumentBytes_unseenRestart : Initial SlaveDevice.dshotConfig dshotNode ∧
    ¬ Along (watchSlave SlaveDevice.dshotConfig 0 (ArgHistory.update SlaveDevice.dshotConfig))
      (OnSection 0 fun d g s => s.LeavesClean SlaveDevice.dshotConfig d g.cells)
      (dshotNode, ArgHistory.start SlaveDevice.dshotDevice) unseenRestart :=
  ⟨dshotNode_initial, by decide +kernel⟩

end Node
end EcatMaster
