import EcatMaster.Properties.Buffers

/-! # What a section does to the command buffer

Five methods write the command buffer: `write_init_values`, `recover_master_to_slave_buf`, `send_arg`,
`on_command` and `init_value` at a loss; and the first `init` of a board makes it again. Which of them a
section runs is decided by flags, sizes and inputs (`bufEvent`), not by what the buffer holds.
-/

namespace EcatMaster
set_option autoImplicit false
open ByteBuf

inductive BufEvent where
  | kept
  | initValues
  | recovered
  | argument
  | command
  | cleared
  | lossActions
deriving DecidableEq

namespace SlaveDevice

/-- `send_arg` is due, and the inputs do not confirm the last argument. -/
def SendsArg (d : SlaveDevice) : Prop :=
  d.masterStatus = MASTER_SENDING_ARGUMENTS ∧ d.isArgSent = false ∧
    ¬ (d.argConfirmed ∧ d.sendingArgBufIdx = d.argBufLen)

instance (d : SlaveDevice) : Decidable d.SendsArg := inferInstanceAs (Decidable (_ ∧ _ ∧ _))

/-- The size check of `recover_master_to_slave_buf`. -/
def HasSnapshot (d : SlaveDevice) : Prop := d.masterToSlaveBufBackup.length = d.masterToSlaveBufLen

instance (d : SlaveDevice) : Decidable d.HasSnapshot := inferInstanceAs (Decidable (_ = _))

/-- The echo of status 2 is taken for one of a ready slave. -/
def TakesStatusTwo (d : SlaveDevice) : Prop :=
  d.configured = true ∧ d.isReady = true ∧ d.masterStatus = MASTER_SENDING_ARGUMENTS ∧
    d.slaveStatus = MASTER_SENDING_ARGUMENTS

instance (d : SlaveDevice) : Decidable d.TakesStatusTwo :=
  inferInstanceAs (Decidable (_ ∧ _ ∧ _ ∧ _))

/-- `init` accepts the board, and its configuration has no arguments for it. -/
def SkipsArguments (cfg : ConfigurationParser) (eepId : UInt32) (snRead : Option UInt32)
    (swRevStr : List UInt8) (d : SlaveDevice) : Prop :=
  d.InitAccepts cfg eepId snRead swRevStr ∧
    getFieldAs UInt16 cfg (slaveKey (snRead.getD d.sn) "sdo_len") = .ok 0

instance (cfg : ConfigurationParser) (eepId : UInt32) (snRead : Option UInt32)
    (swRevStr : List UInt8) (d : SlaveDevice) :
    Decidable (d.SkipsArguments cfg eepId snRead swRevStr) :=
  inferInstanceAs (Decidable (_ ∧ _))

def bufEvent (cfg : ConfigurationParser) (d : SlaveDevice) : Section → BufEvent
  | .process _ =>
      if d.ByReadyBranch then
        if d.reconnectedTimes = 0 then .initValues else if d.HasSnapshot then .recovered else .kept
      else if d.configured = true ∧ d.SendsArg then .argument
      else .kept
  | .exitReset => if d.isArgSent then .initValues else .kept
  | .command k msg => if (d.onCommand k msg).isSome then .command else .kept
  | .init eepId snRead swRevStr =>
      if d.InitAccepts cfg eepId snRead swRevStr ∧ d.sn = 0 then .cleared else .kept
  | .lost => .lossActions
  | _ => .kept

section Events
variable (cfg : ConfigurationParser) (d : SlaveDevice)

theorem bufEvent_process (t : ℤ) : d.bufEvent cfg (.process t) =
    if d.ByReadyBranch then
      if d.reconnectedTimes = 0 then .initValues else if d.HasSnapshot then .recovered else .kept
    else if d.configured = true ∧ d.SendsArg then .argument
    else .kept := rfl

theorem bufEvent_init (eepId : UInt32) (snRead : Option UInt32) (swRevStr : List UInt8) :
    d.bufEvent cfg (.init eepId snRead swRevStr) =
      if d.InitAccepts cfg eepId snRead swRevStr ∧ d.sn = 0 then .cleared else .kept := rfl

theorem bufEvent_lossActions {s : Section} : d.bufEvent cfg s = .lossActions → s = .lost := by
  intro h
  cases s with
  | process t =>
    rw [bufEvent_process] at h
    repeat' split at h
    all_goals cases h
  | exitReset | command k msg | init eepId snRead swRevStr =>
    unfold bufEvent at h
    simp only at h
    split at h <;> cases h
  | lost => rfl
  | receive inputs | transfer | preRecover | resetState | recoverState => cases h

end Events

/-! ## The bytes behind the events -/

theorem sentArg_isSome (d : SlaveDevice) : d.sentArg.isSome = true ↔ d.SendsArg := by
  unfold sentArg SendsArg
  by_cases hdue : d.masterStatus = MASTER_SENDING_ARGUMENTS ∧ ¬ d.isArgSent = true
  · have hsent : d.isArgSent = false := Bool.eq_false_of_not_eq_true hdue.2
    rw [if_pos hdue]
    unfold confirmArg
    by_cases hc : d.argConfirmed
    · rw [if_pos hc]
      by_cases hl : d.sendingArgBufIdx = d.argBufLen
      · simp [hl, hc]
      · simp [hl, hsent, hdue.1]
    · simp [hc, hsent, hdue.1]
  · rw [if_neg hdue]
    refine iff_of_false (by decide) fun h => hdue ⟨h.1, ?_⟩
    rw [h.2.1]
    exact Bool.false_ne_true

theorem sentArg_length {d : SlaveDevice} {bytes : List UInt8} (h : d.sentArg = some bytes) :
    bytes.length = 3 := by
  unfold sentArg at h
  obtain ⟨-, h⟩ := Option.ite_none_right_eq_some.mp h
  obtain ⟨-, h⟩ := Option.ite_none_left_eq_some.mp h
  cases h
  rfl

/-- The bytes a section leaves in the command buffer, by its event. -/
def Leaves (d : SlaveDevice) (s : Section) (buf : List UInt8) : BufEvent → Prop
  | .kept => buf = d.m2s
  | .initValues => buf = initPayload d.taskList d.masterToSlaveBufLen d.m2s
  | .recovered => buf = d.masterToSlaveBufBackup
  | .argument => ∃ bytes, d.sentArg = some bytes ∧ buf = put d.m2s 0 bytes
  | .command => ∃ k msg task bytes, s = .command k msg ∧ d.taskList[k]? = some task ∧
      task.encode msg = some bytes ∧ buf = put d.m2s task.pdowriteOffset.toNat bytes
  | .cleared => buf = List.replicate d.masterToSlaveBufLen 0
  | .lossActions => buf = lostPayload d.taskList d.m2s

section Device
variable (cfg : ConfigurationParser) {eepId : UInt32} {d : SlaveDevice}

theorem leaves_process (h : Storage eepId d) (t : ℤ) :
    d.Leaves (.process t) (d.processSection t).m2s (d.bufEvent cfg (.process t)) := by
  rw [bufEvent_process]
  obtain ⟨hb, -, hm, -⟩ | ⟨hb, hm, -⟩ := d.processSection_summary t h.m2s
  · rw [if_pos hb, hm]
    unfold readySource
    by_cases ht : d.reconnectedTimes = 0
    · rw [if_pos ht, if_pos ht]
      rfl
    · rw [if_neg ht, if_neg ht]
      by_cases hs : d.HasSnapshot
      · have hlen : d.masterToSlaveBufBackup.length = d.masterToSlaveBufLen := hs
        rw [if_pos hs, if_pos hlen]
        rfl
      · have hlen : ¬ d.masterToSlaveBufBackup.length = d.masterToSlaveBufLen := hs
        rw [if_neg hs, if_neg hlen]
        rfl
  · rw [if_neg hb, hm, sendArgIfPending_m2s]
    by_cases hsend : d.configured = true ∧ d.SendsArg
    · obtain ⟨bytes, hbytes⟩ := Option.isSome_iff_exists.mp (d.sentArg_isSome.mpr hsend.2)
      rw [if_pos hsend, if_pos hsend.1, hbytes]
      exact ⟨bytes, hbytes, rfl⟩
    · rw [if_neg hsend]
      by_cases hc : d.configured = true
      · have hnone : d.sentArg = none := by
          rw [← Option.not_isSome_iff_eq_none, d.sentArg_isSome]
          exact fun hs => hsend ⟨hc, hs⟩
        rw [if_pos hc, hnone]
        rfl
      · rw [if_neg hc]
        rfl

theorem leaves_command (k : ℕ) (msg : Command) :
    d.Leaves (.command k msg) ((Section.command k msg).run cfg d).m2s
      (d.bufEvent cfg (.command k msg)) := by
  have hrun : (Section.command k msg).run cfg d = (d.onCommand k msg).getD d := rfl
  have hevent : d.bufEvent cfg (.command k msg) =
      if (d.onCommand k msg).isSome then .command else .kept := rfl
  rw [hrun, hevent]
  cases hcmd : d.onCommand k msg with
  | none =>
    rw [if_neg (by decide)]
    rfl
  | some e =>
    rw [onCommand_eq] at hcmd
    obtain ⟨task, htask, hcmd⟩ := Option.bind_eq_some_iff.mp hcmd
    obtain ⟨bytes, hbytes, rfl⟩ := Option.map_eq_some_iff.mp hcmd
    rw [Option.isSome_some, if_pos rfl]
    exact ⟨k, msg, task, bytes, rfl, htask, hbytes, rfl⟩

theorem leaves_init (h : Storage eepId d) (snRead : Option UInt32) (swRevStr : List UInt8) :
    d.Leaves (.init eepId snRead swRevStr) (d.init cfg eepId snRead swRevStr).2.m2s
      (d.bufEvent cfg (.init eepId snRead swRevStr)) := by
  have haccepts := init_accepts cfg eepId snRead swRevStr d
  rw [bufEvent_init]
  obtain ⟨h0, -, hm, -⟩ | ⟨h1, -, hkeep, hnew⟩ := init_status cfg eepId snRead swRevStr d
  · have hrefuses : ¬ d.InitAccepts cfg eepId snRead swRevStr := by
      rw [← haccepts, h0]
      exact Nat.zero_ne_one
    rw [if_neg fun hacc => hrefuses hacc.1]
    exact congrArg Growable.data hm
  · by_cases hsn : d.sn = 0
    · rw [if_pos ⟨haccepts.mp h1, hsn⟩]
      exact (congrArg Growable.data (hnew hsn).1).trans h.initBuffers_m2s
    · rw [if_neg fun hacc => hsn hacc.2]
      exact congrArg Growable.data (hkeep hsn).1

/-- **The event of a section says what it leaves in the command buffer.** -/
theorem leaves_run {s : Section} (hs : Node.OnModule eepId s) (h : Storage eepId d) :
    d.Leaves s (s.run cfg d).m2s (d.bufEvent cfg s) := by
  cases s with
  | process t => exact leaves_process cfg h t
  | exitReset =>
    by_cases hsent : d.isArgSent = true
    · have hrun : Section.exitReset.run cfg d = d.writeInitValues := if_pos hsent
      have hevent : d.bufEvent cfg .exitReset = .initValues := if_pos hsent
      rw [hrun, hevent]
      rfl
    · have hrun : Section.exitReset.run cfg d = d := if_neg hsent
      have hevent : d.bufEvent cfg .exitReset = .kept := if_neg hsent
      rw [hrun, hevent]
      rfl
  | command k msg => exact leaves_command cfg k msg
  | init eep snRead swRevStr =>
    obtain rfl : eep = eepId := hs
    exact leaves_init cfg h snRead swRevStr
  | receive inputs | transfer | preRecover | resetState | lost | recoverState => rfl

theorem run_backup (h : Storage eepId d) (s : Section) :
    (s.run cfg d).masterToSlaveBufBackup =
      if s = .lost then lostPayload d.taskList d.m2s else d.masterToSlaveBufBackup := by
  cases s with
  | process t => exact (kept_processSection t d).backup
  | exitReset =>
    obtain ⟨bytes, hd, -⟩ := exitReset_eq cfg d
    rw [hd]
    rfl
  | command k msg =>
    obtain ⟨bytes, hd, -⟩ := command_eq cfg k msg d
    rw [hd]
    rfl
  | init eep snRead swRevStr => exact (init_kept cfg eep snRead swRevStr d).backup
  | lost =>
    have hlen : d.resetState.onConnectionLost.m2s.length =
        d.resetState.onConnectionLost.masterToSlaveBufLen :=
      (lostPayload_length _ _).trans h.m2s
    exact backupMasterToSlaveBuf_backup _ hlen
  | receive inputs | transfer | preRecover | resetState | recoverState => rfl

theorem init_masterStatus (cfg : ConfigurationParser) (eepId : UInt32) (snRead : Option UInt32)
    (swRevStr : List UInt8) (d : SlaveDevice) :
    (¬ d.InitAccepts cfg eepId snRead swRevStr ∧
      (d.init cfg eepId snRead swRevStr).2.masterStatus = d.masterStatus) ∨
    (d.InitAccepts cfg eepId snRead swRevStr ∧ ∃ sdoLen,
      getFieldAs UInt16 cfg (slaveKey (snRead.getD d.sn) "sdo_len") = .ok sdoLen ∧
      (d.init cfg eepId snRead swRevStr).2.masterStatus =
        if sdoLen = 0 then MASTER_READY else MASTER_SENDING_ARGUMENTS) := by
  have haccepts := init_accepts cfg eepId snRead swRevStr d
  obtain ⟨-, -, hd⟩ | ⟨-, passed, -, hd⟩ | ⟨-, sdoLen, hlen, hd⟩ :=
    init_cases cfg eepId snRead swRevStr d
  · refine Or.inl ⟨fun hacc => ?_, by rw [hd]⟩
    rw [← haccepts, hd] at hacc
    cases hacc
  · refine Or.inl ⟨fun hacc => ?_, by rw [hd]⟩
    rw [← haccepts, hd] at hacc
    cases hacc
  · exact Or.inr ⟨haccepts.mp (by rw [hd]), sdoLen, hlen, congrArg (·.2.masterStatus) hd⟩

/-- A section that changes the status is the READY branch, an echo or an `init`. -/
theorem run_masterStatus (h : Storage eepId d) (s : Section) :
    (s.run cfg d).masterStatus = d.masterStatus ∨
    ((∃ t, s = .process t) ∧ d.ByReadyBranch ∧ (s.run cfg d).masterStatus = MASTER_READY) ∨
    ((∃ t, s = .process t) ∧ ¬ d.ByReadyBranch ∧ d.configured = true ∧
      d.confirmReady.isReady = true ∧ d.slaveStatus = d.masterStatus ∧
      (s.run cfg d).masterStatus = nextStatus d.masterStatus) ∨
    ∃ eep snRead swRevStr sdoLen, s = .init eep snRead swRevStr ∧
      d.InitAccepts cfg eep snRead swRevStr ∧
      getFieldAs UInt16 cfg (slaveKey (snRead.getD d.sn) "sdo_len") = .ok sdoLen ∧
      (s.run cfg d).masterStatus =
        if sdoLen = 0 then MASTER_READY else MASTER_SENDING_ARGUMENTS := by
  cases s with
  | process t =>
    obtain ⟨hb, -, -, hs⟩ | ⟨hb, -, hs | ⟨hc, hr, hecho, hs⟩⟩ := d.processSection_summary t h.m2s
    · exact Or.inr (Or.inl ⟨⟨t, rfl⟩, hb, hs⟩)
    · exact Or.inl hs
    · exact Or.inr (Or.inr (Or.inl ⟨⟨t, rfl⟩, hb, hc, hr, hecho, hs⟩))
  | exitReset =>
    obtain ⟨bytes, hd, -⟩ := exitReset_eq cfg d
    rw [hd]
    exact Or.inl rfl
  | command k msg =>
    obtain ⟨bytes, hd, -⟩ := command_eq cfg k msg d
    rw [hd]
    exact Or.inl rfl
  | init eep snRead swRevStr =>
    obtain ⟨-, hs⟩ | ⟨hacc, sdoLen, hlen, hs⟩ := init_masterStatus cfg eep snRead swRevStr d
    · exact Or.inl hs
    · exact Or.inr (Or.inr (Or.inr ⟨eep, snRead, swRevStr, sdoLen, rfl, hacc, hlen, hs⟩))
  | receive inputs | transfer | preRecover | resetState | lost | recoverState => exact Or.inl rfl

theorem confirmReady_isReady_of_two (hs : d.slaveStatus = MASTER_SENDING_ARGUMENTS) :
    d.confirmReady.isReady = d.isReady := by
  obtain h | ⟨h3, -, -⟩ := d.confirmReady_cases
  · rw [h]
  · rw [hs] at h3
    exact absurd h3 (by decide)

/-- A section that takes the status from SENDING_ARGUMENTS to READY is one of these three. -/
theorem run_leavesSending (h : Storage eepId d) {s : Section}
    (h2 : d.masterStatus = MASTER_SENDING_ARGUMENTS)
    (hne : (s.run cfg d).masterStatus ≠ MASTER_SENDING_ARGUMENTS) :
    ((∃ t, s = .process t) ∧ d.ByReadyBranch) ∨
    ((∃ t, s = .process t) ∧ ¬ d.ByReadyBranch ∧ d.TakesStatusTwo) ∨
    ∃ eep snRead swRevStr, s = .init eep snRead swRevStr ∧
      d.SkipsArguments cfg eep snRead swRevStr := by
  obtain hs | ⟨hp, hb, -⟩ | ⟨hp, hb, hc, hr, hecho, -⟩ | ⟨eep, snRead, rev, sdoLen, hs, hacc, hlen, hms⟩ :=
    run_masterStatus cfg h s
  · exact absurd (hs.trans h2) hne
  · exact Or.inl ⟨hp, hb⟩
  · have hslave := hecho.trans h2
    rw [confirmReady_isReady_of_two hslave] at hr
    exact Or.inr (Or.inl ⟨hp, hb, hc, hr, h2, hslave⟩)
  · have hzero : sdoLen = 0 := by
      by_contra h0
      rw [if_neg h0] at hms
      exact hne hms
    exact Or.inr (Or.inr ⟨eep, snRead, rev, hs, hacc, hzero ▸ hlen⟩)

end Device
end SlaveDevice
end EcatMaster
