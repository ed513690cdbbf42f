import EcatMaster.Slave.Setup

/-! # The sections that run on one slave

Both threads and the command callbacks touch a `SlaveDevice` in sections, each under its mutex (the
exit reset and one `recover_state` take no lock and are sections all the same). `Section.run` is the
effect of one; whatever the threads do, a device goes through a sequence of sections. The lemmas say
which members a section leaves alone.
-/

namespace EcatMaster
set_option autoImplicit false
open ByteBuf

inductive Section where
  | receive (inputs : List UInt8)
  | process (currentTime : ℤ)
  | exitReset
  | transfer
  | command (task : ℕ) (msg : Command)
  | preRecover
  | init (eepId : UInt32) (snRead : Option UInt32) (swRevStr : List UInt8)
  | resetState
  | lost
  | recoverState
deriving DecidableEq

namespace Section

/-- The section on the slave: only a slave whose arguments are all sent is reset, and a message that the task
has no subscription for does not arrive. -/
def run (cfg : ConfigurationParser) (s : Section) (dev : SlaveDevice) : SlaveDevice :=
  match s with
  | receive inputs => dev.receiveFromSlave inputs
  | process currentTime => dev.processSection currentTime
  | exitReset => if dev.isArgSent then dev.writeInitValues else dev
  | transfer => dev
  | command task msg => (dev.onCommand task msg).getD dev
  | preRecover => dev.preRecover
  | init eepId snRead swRevStr => (dev.init cfg eepId snRead swRevStr).2
  | resetState => dev.resetState
  | lost => dev.lostSection
  | recoverState => dev.recoverState

def isProcess : Section → Bool
  | process _ => true
  | _ => false

end Section

namespace SlaveDevice

/-! ## The command buffer and everything else -/

section WithM2s
variable (self : SlaveDevice) (bytes : List UInt8)

@[simp] theorem withM2s_m2s : (self.withM2s bytes).masterToSlaveBuf.data = bytes := rfl
@[simp] theorem withM2s_size :
    (self.withM2s bytes).masterToSlaveBuf.size = self.masterToSlaveBuf.size := rfl
@[simp] theorem withM2s_sn : (self.withM2s bytes).sn = self.sn := rfl
@[simp] theorem withM2s_isRecoverRejected :
    (self.withM2s bytes).isRecoverRejected = self.isRecoverRejected := rfl
@[simp] theorem withM2s_isReady : (self.withM2s bytes).isReady = self.isReady := rfl
@[simp] theorem withM2s_masterStatus : (self.withM2s bytes).masterStatus = self.masterStatus := rfl
@[simp] theorem withM2s_backup :
    (self.withM2s bytes).masterToSlaveBufBackup = self.masterToSlaveBufBackup := rfl
@[simp] theorem withM2s_len :
    (self.withM2s bytes).masterToSlaveBufLen = self.masterToSlaveBufLen := rfl
@[simp] theorem withM2s_slaveStatus : (self.withM2s bytes).slaveStatus = self.slaveStatus := rfl
@[simp] theorem withM2s_slaveToMasterBuf :
    (self.withM2s bytes).slaveToMasterBuf = self.slaveToMasterBuf := rfl
@[simp] theorem withM2s_slaveToMasterBufLen :
    (self.withM2s bytes).slaveToMasterBufLen = self.slaveToMasterBufLen := rfl
@[simp] theorem withM2s_argBuf : (self.withM2s bytes).argBuf = self.argBuf := rfl
@[simp] theorem withM2s_argBufLen : (self.withM2s bytes).argBufLen = self.argBufLen := rfl
@[simp] theorem withM2s_sendingArgBufIdx :
    (self.withM2s bytes).sendingArgBufIdx = self.sendingArgBufIdx := rfl
@[simp] theorem withM2s_isArgSent : (self.withM2s bytes).isArgSent = self.isArgSent := rfl
@[simp] theorem withM2s_isEcatConfDone :
    (self.withM2s bytes).isEcatConfDone = self.isEcatConfDone := rfl
@[simp] theorem withM2s_isConfRosDone :
    (self.withM2s bytes).isConfRosDone = self.isConfRosDone := rfl
@[simp] theorem withM2s_reconnectedTimes :
    (self.withM2s bytes).reconnectedTimes = self.reconnectedTimes := rfl
@[simp] theorem withM2s_taskList : (self.withM2s bytes).taskList = self.taskList := rfl

end WithM2s

theorem onCommand_eq (self : SlaveDevice) (k : ℕ) (msg : Command) :
    self.onCommand k msg = (self.taskList[k]?.bind fun task => (task.encode msg).map fun bytes =>
      self.withM2s (put self.m2s task.pdowriteOffset.toNat bytes)) := by
  unfold onCommand
  cases self.taskList[k]? with
  | none => rfl
  | some task =>
    rw [Option.bind_some, Option.bind_some, TaskWrapper.onCommand_eq, Option.map_map]
    rfl

theorem initPayload_length (tasks : List TaskWrapper) (len : ℕ) (buf : List UInt8) :
    (initPayload tasks len buf).length = buf.length := by
  unfold initPayload
  generalize hb : put buf 0 (List.replicate len 0) = start
  have hstart : start.length = buf.length := by rw [← hb, put_length]
  clear hb
  induction tasks generalizing start with
  | nil => exact hstart
  | cons t ts ih =>
    rw [List.foldl_cons]
    refine ih _ ?_
    split
    · rw [TaskWrapper.initValue_length, hstart]
    · exact hstart

theorem lostPayload_length (tasks : List TaskWrapper) (buf : List UInt8) :
    (lostPayload tasks buf).length = buf.length := by
  unfold lostPayload
  induction tasks generalizing buf with
  | nil => rfl
  | cons t ts ih =>
    rw [List.foldl_cons, ih]
    split
    · rw [TaskWrapper.initValue_length]
    · rfl

/-! ## The four stages of a processing section -/

theorem confirmReady_cases (self : SlaveDevice) :
    self.confirmReady = self ∨
    (self.slaveStatus = SLAVE_CONFIRM_READY ∧ self.isReady = false ∧
      self.confirmReady = { self with isReady := true }) := by
  unfold confirmReady
  split
  · next h => exact Or.inr ⟨h.1, by simpa using h.2, rfl⟩
  · exact Or.inl rfl

/-- `send_arg` in a processing section: not due, all confirmed, one step on, or sent again. -/
theorem sendArgIfPending_cases (self : SlaveDevice) :
    self.sendArgIfPending = self ∨
    (self.masterStatus = MASTER_SENDING_ARGUMENTS ∧ self.isArgSent = false ∧
      ((self.argConfirmed ∧ self.sendingArgBufIdx = self.argBufLen ∧
          self.sendArgIfPending = { self with isArgSent := true }) ∨
       (∃ next : SlaveDevice, self.sendArgIfPending = next.withM2s (put next.m2s 0 next.argBytes) ∧
          ((self.argConfirmed ∧ self.sendingArgBufIdx ≠ self.argBufLen ∧
              next = { self with sendingArgBufIdx := self.sendingArgBufIdx + 1 }) ∨
           (¬ self.argConfirmed ∧ next = self))))) := by
  unfold sendArgIfPending
  split
  · next h =>
    have hsent : self.isArgSent = false := by simpa using h.2
    refine Or.inr ⟨h.1, hsent, ?_⟩
    unfold sendArg confirmArg
    by_cases hc : self.argConfirmed
    · rw [if_pos hc]
      by_cases hl : self.sendingArgBufIdx = self.argBufLen
      · rw [if_pos hl]
        exact Or.inl ⟨hc, hl, rfl⟩
      · rw [if_neg hl]
        refine Or.inr ⟨_, ?_, Or.inl ⟨hc, hl, rfl⟩⟩
        unfold writeArg
        rw [if_neg (by simp [hsent])]
    · rw [if_neg hc]
      refine Or.inr ⟨_, ?_, Or.inr ⟨hc, rfl⟩⟩
      unfold writeArg
      rw [if_neg (by simp [hsent])]
  · exact Or.inl rfl

theorem readyBranch_cases (self : SlaveDevice) :
    (¬ self.updatedToReady ∧ self.readyBranch = self) ∨
    (self.updatedToReady ∧ self.masterStatus = MASTER_READY ∧ self.readyBranch = self) ∨
    (self.updatedToReady ∧ self.masterStatus ≠ MASTER_READY ∧ self.reconnectedTimes = 0 ∧
      self.readyBranch = { self.writeInitValues with masterStatus := MASTER_READY }) ∨
    (self.updatedToReady ∧ self.masterStatus ≠ MASTER_READY ∧ self.reconnectedTimes ≠ 0 ∧
      self.readyBranch = { self.recoverMasterToSlaveBuf with masterStatus := MASTER_READY }) := by
  unfold readyBranch readyPayload
  by_cases h : self.updatedToReady
  · rw [if_pos h]
    refine Or.inr ?_
    by_cases hm : self.masterStatus = MASTER_READY
    · rw [if_neg (by simp [hm])]
      refine Or.inl ⟨h, hm, ?_⟩
      rw [← hm]
    · rw [if_pos hm]
      by_cases ht : self.reconnectedTimes = 0
      · rw [if_pos ht]
        exact Or.inr (Or.inl ⟨h, hm, ht, rfl⟩)
      · rw [if_neg ht]
        exact Or.inr (Or.inr ⟨h, hm, ht, rfl⟩)
  · rw [if_neg h]
    exact Or.inl ⟨h, rfl⟩

theorem recoverMasterToSlaveBuf_eq (self : SlaveDevice) :
    ∃ bytes, self.recoverMasterToSlaveBuf = self.withM2s bytes ∧
      bytes.length = self.m2s.length := by
  unfold recoverMasterToSlaveBuf
  split
  · exact ⟨self.m2s, rfl, rfl⟩
  · exact ⟨_, rfl, put_length _ _ _⟩

/-- The READY branch writes the command buffer and the status, and nothing else. -/
theorem readyBranch_eq (self : SlaveDevice) :
    ∃ bytes status, self.readyBranch = { self.withM2s bytes with masterStatus := status } ∧
      bytes.length = self.m2s.length := by
  obtain ⟨-, h⟩ | ⟨-, -, h⟩ | ⟨-, -, -, h⟩ | ⟨-, -, -, h⟩ := self.readyBranch_cases
  · exact ⟨self.m2s, self.masterStatus, h, rfl⟩
  · exact ⟨self.m2s, self.masterStatus, h, rfl⟩
  · exact ⟨_, MASTER_READY, h, initPayload_length _ _ _⟩
  · obtain ⟨bytes, hrec, hlen⟩ := self.recoverMasterToSlaveBuf_eq
    rw [hrec] at h
    exact ⟨bytes, MASTER_READY, h, hlen⟩

/-- The number `process_pdo` sends after `status`. -/
def nextStatus (status : UInt8) : UInt8 := if 250 ≤ status then MASTER_READY + 2 else status + 1

theorem processPdoIfReady_cases (currentTime : ℤ) (self : SlaveDevice) :
    (¬ (self.isReady = true ∧ self.slaveStatus = self.masterStatus) ∧
      self.processPdoIfReady currentTime = self) ∨
    (self.isReady = true ∧ self.slaveStatus = self.masterStatus ∧
      self.processPdoIfReady currentTime =
        { self with
          currentDataStamp := self.lastLatencyCheckPacketSendTime
          lastLatencyCheckPacketSendTime := currentTime
          masterStatus := nextStatus self.masterStatus }) := by
  unfold processPdoIfReady
  by_cases hr : self.isReady = true
  · rw [if_pos hr]
    unfold processPdo
    by_cases he : self.slaveStatus = self.masterStatus
    · rw [if_pos he]
      exact Or.inr ⟨hr, he, rfl⟩
    · rw [if_neg he]
      exact Or.inl ⟨fun h => he h.2, rfl⟩
  · rw [if_neg hr]
    exact Or.inl ⟨fun h => hr h.1, rfl⟩

/-! ## What processing leaves alone -/

/-- The members that no stage of a processing section writes, and the length of the command memory. -/
structure Kept (d e : SlaveDevice) : Prop where
  sn : e.sn = d.sn
  isRecoverRejected : e.isRecoverRejected = d.isRecoverRejected
  backup : e.masterToSlaveBufBackup = d.masterToSlaveBufBackup
  len : e.masterToSlaveBufLen = d.masterToSlaveBufLen
  size : e.masterToSlaveBuf.size = d.masterToSlaveBuf.size
  m2sLength : e.m2s.length = d.m2s.length
  slaveStatus : e.slaveStatus = d.slaveStatus
  slaveToMasterBuf : e.slaveToMasterBuf = d.slaveToMasterBuf
  slaveToMasterBufLen : e.slaveToMasterBufLen = d.slaveToMasterBufLen
  argBuf : e.argBuf = d.argBuf
  argBufLen : e.argBufLen = d.argBufLen
  isEcatConfDone : e.isEcatConfDone = d.isEcatConfDone
  isConfRosDone : e.isConfRosDone = d.isConfRosDone
  reconnectedTimes : e.reconnectedTimes = d.reconnectedTimes
  taskList : e.taskList = d.taskList

theorem Kept.refl (d : SlaveDevice) : Kept d d := by
  constructor <;> rfl

theorem Kept.trans {d e f : SlaveDevice} (h : Kept d e) (k : Kept e f) : Kept d f where
  sn := k.sn.trans h.sn
  isRecoverRejected := k.isRecoverRejected.trans h.isRecoverRejected
  backup := k.backup.trans h.backup
  len := k.len.trans h.len
  size := k.size.trans h.size
  m2sLength := k.m2sLength.trans h.m2sLength
  slaveStatus := k.slaveStatus.trans h.slaveStatus
  slaveToMasterBuf := k.slaveToMasterBuf.trans h.slaveToMasterBuf
  slaveToMasterBufLen := k.slaveToMasterBufLen.trans h.slaveToMasterBufLen
  argBuf := k.argBuf.trans h.argBuf
  argBufLen := k.argBufLen.trans h.argBufLen
  isEcatConfDone := k.isEcatConfDone.trans h.isEcatConfDone
  isConfRosDone := k.isConfRosDone.trans h.isConfRosDone
  reconnectedTimes := k.reconnectedTimes.trans h.reconnectedTimes
  taskList := k.taskList.trans h.taskList

theorem kept_withM2s (self : SlaveDevice) (bytes : List UInt8)
    (h : bytes.length = self.m2s.length) : Kept self (self.withM2s bytes) := by
  constructor <;> first | rfl | exact h

theorem kept_confirmReady (self : SlaveDevice) : Kept self self.confirmReady := by
  obtain h | ⟨-, -, h⟩ := self.confirmReady_cases
  · rw [h]
    exact Kept.refl self
  · rw [h]
    constructor <;> rfl

theorem kept_sendArgIfPending (self : SlaveDevice) : Kept self self.sendArgIfPending := by
  obtain h | ⟨-, -, ⟨-, -, h⟩ | ⟨next, h, hnext⟩⟩ := self.sendArgIfPending_cases
  · rw [h]
    exact Kept.refl self
  · rw [h]
    constructor <;> rfl
  · rw [h]
    have hk : Kept self next := by
      obtain ⟨-, -, rfl⟩ | ⟨-, rfl⟩ := hnext
      · constructor <;> rfl
      · exact Kept.refl _
    exact hk.trans (kept_withM2s next _ (put_length _ _ _))

theorem kept_masterStatus (self : SlaveDevice) (status : UInt8) :
    Kept self { self with masterStatus := status } := by
  constructor <;> rfl

theorem kept_readyBranch (self : SlaveDevice) : Kept self self.readyBranch := by
  obtain ⟨bytes, status, h, hlen⟩ := self.readyBranch_eq
  rw [h]
  exact (kept_withM2s self bytes hlen).trans (kept_masterStatus _ status)

theorem kept_processPdoIfReady (currentTime : ℤ) (self : SlaveDevice) :
    Kept self (self.processPdoIfReady currentTime) := by
  obtain ⟨-, h⟩ | ⟨-, -, h⟩ := self.processPdoIfReady_cases currentTime
  · rw [h]
    exact Kept.refl self
  · rw [h]
    constructor <;> rfl

theorem kept_beforeReady (self : SlaveDevice) : Kept self self.beforeReady :=
  (kept_confirmReady self).trans (kept_sendArgIfPending _)

theorem kept_processSection (currentTime : ℤ) (self : SlaveDevice) :
    Kept self (self.processSection currentTime) := by
  unfold processSection
  split
  · exact Kept.refl self
  · exact ((kept_beforeReady self).trans (kept_readyBranch _)).trans
      (kept_processPdoIfReady currentTime _)

theorem processSection_of_not_configured (currentTime : ℤ) (self : SlaveDevice)
    (h : self.configured = false) : self.processSection currentTime = self := by
  unfold processSection
  exact if_pos (Bool.and_eq_false_iff.mp h)

theorem processSection_of_configured (currentTime : ℤ) (self : SlaveDevice)
    (h : self.configured = true) :
    self.processSection currentTime = self.beforeReady.readyBranch.processPdoIfReady currentTime := by
  unfold processSection
  refine if_neg ?_
  simp only [configured, Bool.and_eq_true] at h
  simp [h.1, h.2]

/-! ## A ready slave and a waiting slave -/

section Stages
variable (self : SlaveDevice)

theorem confirmReady_eq : self.confirmReady = { self with isReady := self.confirmReady.isReady } := by
  obtain h | ⟨-, -, h⟩ := self.confirmReady_cases <;> rw [h]

@[simp] theorem confirmReady_masterStatus : self.confirmReady.masterStatus = self.masterStatus := by
  rw [confirmReady_eq]

@[simp] theorem confirmReady_isArgSent : self.confirmReady.isArgSent = self.isArgSent := by
  rw [confirmReady_eq]

/-- The first confirmation sets the flag. -/
theorem confirmReady_of_confirm (hs : self.slaveStatus = SLAVE_CONFIRM_READY)
    (hready : self.isReady = false) : self.confirmReady = { self with isReady := true } := by
  unfold confirmReady
  exact if_pos ⟨hs, by simp [hready]⟩

theorem confirmReady_of_waiting (h : self.confirmReady.isReady = false) :
    self.confirmReady = self := by
  obtain hc | ⟨-, -, hc⟩ := self.confirmReady_cases
  · exact hc
  · rw [hc] at h
    cases h

@[simp] theorem sendArgIfPending_masterStatus :
    self.sendArgIfPending.masterStatus = self.masterStatus := by
  obtain h | ⟨-, -, ⟨-, -, h⟩ | ⟨next, h, ⟨-, -, rfl⟩ | ⟨-, rfl⟩⟩⟩ := self.sendArgIfPending_cases <;>
    rw [h] <;> rfl

@[simp] theorem sendArgIfPending_isReady : self.sendArgIfPending.isReady = self.isReady := by
  obtain h | ⟨-, -, ⟨-, -, h⟩ | ⟨next, h, ⟨-, -, rfl⟩ | ⟨-, rfl⟩⟩⟩ := self.sendArgIfPending_cases <;>
    rw [h] <;> rfl

@[simp] theorem readyBranch_isReady : self.readyBranch.isReady = self.isReady := by
  obtain ⟨bytes, status, h, -⟩ := self.readyBranch_eq
  rw [h, withM2s_isReady]

@[simp] theorem readyBranch_isArgSent : self.readyBranch.isArgSent = self.isArgSent := by
  obtain ⟨bytes, status, h, -⟩ := self.readyBranch_eq
  rw [h, withM2s_isArgSent]

@[simp] theorem readyBranch_sendingArgBufIdx :
    self.readyBranch.sendingArgBufIdx = self.sendingArgBufIdx := by
  obtain ⟨bytes, status, h, -⟩ := self.readyBranch_eq
  rw [h, withM2s_sendingArgBufIdx]

theorem beforeReady_isReady : self.beforeReady.isReady = self.confirmReady.isReady :=
  self.confirmReady.sendArgIfPending_isReady

theorem beforeReady_masterStatus : self.beforeReady.masterStatus = self.masterStatus := by
  unfold beforeReady
  rw [sendArgIfPending_masterStatus, confirmReady_masterStatus]

theorem readyBranch_of_ready (h : self.isReady = true) : self.readyBranch = self := by
  unfold readyBranch
  exact if_neg fun hup => hup.1 h

theorem processSection_of_ready (t : ℤ) (hc : self.configured = true)
    (hr : self.confirmReady.isReady = true) :
    self.processSection t = (self.beforeReady.processPdo t).1 := by
  have hbefore : self.beforeReady.isReady = true := by rw [beforeReady_isReady, hr]
  rw [processSection_of_configured t self hc, readyBranch_of_ready _ hbefore]
  unfold processPdoIfReady
  exact if_pos hbefore

theorem processSection_of_waiting (t : ℤ) (hc : self.configured = true)
    (hr : self.confirmReady.isReady = false) :
    self.processSection t = self.sendArgIfPending.readyBranch := by
  have hconf := self.confirmReady_of_waiting hr
  have hready : self.isReady = false := hconf ▸ hr
  rw [processSection_of_configured t self hc]
  unfold beforeReady processPdoIfReady
  rw [hconf]
  refine if_neg ?_
  rw [readyBranch_isReady, sendArgIfPending_isReady, hready]
  decide

theorem processSection_isReady (t : ℤ) (h : self.isReady = true) :
    (self.processSection t).isReady = true := by
  cases hc : self.configured with
  | false => rw [self.processSection_of_not_configured t hc, h]
  | true =>
    have hr : self.confirmReady.isReady = true := by
      obtain hr | ⟨-, -, hr⟩ := self.confirmReady_cases
      · rw [hr, h]
      · rw [hr]
    have hbefore : self.beforeReady.isReady = true := by rw [beforeReady_isReady, hr]
    rw [self.processSection_of_ready t hc hr]
    unfold processPdo
    split <;> exact hbefore

theorem sendArgIfPending_of_sent (h : self.isArgSent = true) : self.sendArgIfPending = self := by
  unfold sendArgIfPending
  exact if_neg fun hp => hp.2 h

theorem sendArgIfPending_of_status (h : self.masterStatus ≠ MASTER_SENDING_ARGUMENTS) :
    self.sendArgIfPending = self := by
  unfold sendArgIfPending
  exact if_neg fun hp => h hp.1

theorem processPdo_cases (t : ℤ) :
    (self.slaveStatus ≠ self.masterStatus ∧ (self.processPdo t).1 = self) ∨
    (self.slaveStatus = self.masterStatus ∧ (self.processPdo t).1 =
      { self with
        currentDataStamp := self.lastLatencyCheckPacketSendTime
        lastLatencyCheckPacketSendTime := t
        masterStatus := nextStatus self.masterStatus }) := by
  unfold processPdo
  split
  · next h => exact Or.inr ⟨h, rfl⟩
  · next h => exact Or.inl ⟨h, rfl⟩

end Stages

/-- The READY branch fires in a processing section, on a buffer it initialises or recovers. -/
def ByReadyBranch (d : SlaveDevice) : Prop :=
  d.configured = true ∧ d.beforeReady.updatedToReady ∧ d.beforeReady.masterStatus ≠ MASTER_READY

instance (d : SlaveDevice) : Decidable d.ByReadyBranch := inferInstanceAs (Decidable (_ ∧ _ ∧ _))

theorem ByReadyBranch.waiting {d : SlaveDevice} (h : d.ByReadyBranch) :
    d.confirmReady.isReady = false := by
  have hready := h.2.1.1
  unfold beforeReady at hready
  rw [sendArgIfPending_isReady] at hready
  exact Bool.eq_false_iff.mpr hready

theorem processSection_of_branch (t : ℤ) (self : SlaveDevice) (h : self.ByReadyBranch) :
    self.isReady = false ∧ self.beforeReady = self.sendArgIfPending ∧
      self.processSection t = { self.beforeReady.readyPayload with masterStatus := MASTER_READY } := by
  have hr := h.waiting
  obtain ⟨hc, hup, hms⟩ := h
  have hconf := self.confirmReady_of_waiting hr
  have hbefore : self.beforeReady = self.sendArgIfPending := by
    unfold beforeReady
    rw [hconf]
  refine ⟨hconf ▸ hr, hbefore, ?_⟩
  rw [self.processSection_of_waiting t hc hr, ← hbefore]
  unfold readyBranch
  exact if_pos hup

theorem processSection_echo (t : ℤ) (self : SlaveDevice) (hc : self.configured = true)
    (hr : self.confirmReady.isReady = true) (hecho : self.slaveStatus = self.masterStatus) :
    (self.processSection t).masterStatus = nextStatus self.masterStatus := by
  rw [self.processSection_of_ready t hc hr]
  obtain ⟨hne, -⟩ | ⟨-, h⟩ := self.beforeReady.processPdo_cases t
  · refine absurd ?_ hne
    rw [(kept_beforeReady self).slaveStatus, beforeReady_masterStatus, hecho]
  · rw [h]
    show nextStatus self.beforeReady.masterStatus = _
    rw [beforeReady_masterStatus]

theorem recoverMasterToSlaveBuf_m2s (self : SlaveDevice)
    (hb : self.masterToSlaveBufBackup.length = self.masterToSlaveBufLen)
    (hm : self.m2s.length = self.masterToSlaveBufLen) :
    self.recoverMasterToSlaveBuf.m2s = self.masterToSlaveBufBackup := by
  have htake : self.masterToSlaveBufBackup.take self.masterToSlaveBufLen =
      self.masterToSlaveBufBackup := by
    rw [← hb, List.take_length]
  unfold recoverMasterToSlaveBuf
  rw [if_neg (not_not.mpr hb), htake]
  exact put_full _ _ (hb.trans hm.symm)

theorem backupMasterToSlaveBuf_backup (self : SlaveDevice)
    (hm : self.m2s.length = self.masterToSlaveBufLen) :
    self.backupMasterToSlaveBuf.masterToSlaveBufBackup = self.m2s := by
  have htake : self.m2s.take self.masterToSlaveBufLen = self.m2s := by
    rw [← hm, List.take_length]
  show put (List.replicate self.masterToSlaveBufLen 0) 0 (self.m2s.take _) = _
  rw [htake]
  exact put_full _ _ (by rw [List.length_replicate, hm])

/-! ## The sections that only write the command buffer -/

theorem onCommand_length {self e : SlaveDevice} {k : ℕ} {msg : Command}
    (h : self.onCommand k msg = some e) :
    ∃ bytes, e = self.withM2s bytes ∧ bytes.length = self.m2s.length := by
  rw [onCommand_eq] at h
  obtain ⟨task, -, h⟩ := Option.bind_eq_some_iff.mp h
  obtain ⟨bytes, -, h⟩ := Option.map_eq_some_iff.mp h
  exact ⟨_, h.symm, put_length _ _ _⟩

theorem command_eq (cfg : ConfigurationParser) (task : ℕ) (msg : Command) (d : SlaveDevice) :
    ∃ bytes, (Section.command task msg).run cfg d = d.withM2s bytes ∧
      bytes.length = d.m2s.length := by
  show ∃ bytes, (d.onCommand task msg).getD d = d.withM2s bytes ∧ _
  cases h : d.onCommand task msg with
  | none => exact ⟨d.m2s, rfl, rfl⟩
  | some e =>
    obtain ⟨bytes, he, hlen⟩ := onCommand_length h
    exact ⟨bytes, he, hlen⟩

theorem exitReset_eq (cfg : ConfigurationParser) (d : SlaveDevice) :
    ∃ bytes, Section.exitReset.run cfg d = d.withM2s bytes ∧ bytes.length = d.m2s.length := by
  show ∃ bytes, (if d.isArgSent = true then d.writeInitValues else d) = d.withM2s bytes ∧ _
  split
  · exact ⟨_, rfl, initPayload_length _ _ _⟩
  · exact ⟨d.m2s, rfl, rfl⟩

theorem run_taskList (cfg : ConfigurationParser) (s : Section) (d : SlaveDevice) :
    (s.run cfg d).taskList = d.taskList := by
  cases s with
  | process t => exact (kept_processSection t d).taskList
  | init eepId snRead swRevStr => exact (init_kept cfg eepId snRead swRevStr d).taskList
  | exitReset =>
    obtain ⟨bytes, hd, -⟩ := exitReset_eq cfg d
    rw [hd]
    rfl
  | command task msg =>
    obtain ⟨bytes, hd, -⟩ := command_eq cfg task msg d
    rw [hd]
    rfl
  | _ => rfl

/-! ## The command buffer in a processing section -/

theorem sendArgIfPending_setReady (self : SlaveDevice) (r : Bool) :
    ({ self with isReady := r } : SlaveDevice).sendArgIfPending =
      { self.sendArgIfPending with isReady := r } := by
  unfold sendArgIfPending
  split
  · unfold sendArg confirmArg
    by_cases hc : self.argConfirmed
    · have hc' : ({ self with isReady := r } : SlaveDevice).argConfirmed := hc
      rw [if_pos hc, if_pos hc']
      by_cases hl : self.sendingArgBufIdx = self.argBufLen
      · rw [if_pos hl, if_pos hl]
        rfl
      · rw [if_neg hl, if_neg hl]
        unfold writeArg
        split <;> rfl
    · have hc' : ¬ ({ self with isReady := r } : SlaveDevice).argConfirmed := hc
      rw [if_neg hc, if_neg hc']
      unfold writeArg
      split <;> rfl
  · rfl

theorem beforeReady_eq (self : SlaveDevice) :
    self.beforeReady = { self.sendArgIfPending with isReady := self.confirmReady.isReady } := by
  unfold beforeReady
  rw [confirmReady_eq, sendArgIfPending_setReady]

theorem sendArgIfPending_m2s_of_sent (self : SlaveDevice)
    (h : self.sendArgIfPending.isArgSent = true) : self.sendArgIfPending.m2s = self.m2s := by
  obtain hs | ⟨-, hsent, ⟨-, -, hs⟩ | ⟨next, hs, hnext⟩⟩ := self.sendArgIfPending_cases
  · rw [hs]
  · rw [hs]
  · have hns : next.isArgSent = false := by
      obtain ⟨-, -, rfl⟩ | ⟨-, rfl⟩ := hnext <;> exact hsent
    rw [hs, withM2s_isArgSent, hns] at h
    cases h

/-- The bytes `send_arg` writes in a processing section, if it writes. -/
def sentArg (self : SlaveDevice) : Option (List UInt8) :=
  if self.masterStatus = MASTER_SENDING_ARGUMENTS ∧ ¬ self.isArgSent then
    if self.confirmArg.isArgSent then none else some self.confirmArg.argBytes
  else none

theorem confirmArg_m2s (self : SlaveDevice) : self.confirmArg.m2s = self.m2s := by
  unfold confirmArg
  split
  · split <;> rfl
  · rfl

theorem sendArgIfPending_m2s (self : SlaveDevice) :
    self.sendArgIfPending.m2s = self.sentArg.elim self.m2s (put self.m2s 0) := by
  unfold sendArgIfPending sentArg
  split
  · unfold sendArg writeArg
    split
    · exact self.confirmArg_m2s
    · show put self.confirmArg.m2s 0 self.confirmArg.argBytes = put self.m2s 0 _
      rw [self.confirmArg_m2s]
  · rfl

/-- What a firing READY branch writes into the command buffer: the init values, the snapshot if it
has the declared length, or nothing. -/
def readySource (self : SlaveDevice) : List UInt8 :=
  if self.reconnectedTimes = 0 then initPayload self.taskList self.masterToSlaveBufLen self.m2s
  else if self.masterToSlaveBufBackup.length = self.masterToSlaveBufLen then
    self.masterToSlaveBufBackup
  else self.m2s

theorem processSection_branch_m2s (t : ℤ) (self : SlaveDevice)
    (hlen : self.m2s.length = self.masterToSlaveBufLen) (hb : self.ByReadyBranch) :
    (self.processSection t).m2s = self.readySource := by
  obtain ⟨-, hbefore, hrun⟩ := self.processSection_of_branch t hb
  have k := kept_beforeReady self
  have hm2s : self.beforeReady.m2s = self.m2s := by
    rw [hbefore]
    exact self.sendArgIfPending_m2s_of_sent (hbefore ▸ hb.2.1.2.1)
  rw [hrun]
  show self.beforeReady.readyPayload.m2s = self.readySource
  unfold readyPayload readySource
  rw [if_pos hb.2.2, k.reconnectedTimes]
  split
  · show initPayload _ _ self.beforeReady.m2s = _
    rw [k.taskList, k.len, hm2s]
  split
  · next hback =>
    have hback' : self.beforeReady.masterToSlaveBufBackup.length =
        self.beforeReady.masterToSlaveBufLen := by rw [k.backup, k.len, hback]
    rw [self.beforeReady.recoverMasterToSlaveBuf_m2s hback' (by rw [hm2s, k.len, hlen]), k.backup]
  · next hback =>
    unfold recoverMasterToSlaveBuf
    rw [if_pos (by rw [k.backup, k.len]; exact hback), hm2s]

/-- A section of a ready slave, which skips the READY branch. -/
theorem processSection_ready (t : ℤ) (self : SlaveDevice) (hc : self.configured = true)
    (hr : self.confirmReady.isReady = true) :
    (self.processSection t).m2s = self.sendArgIfPending.m2s ∧
      ((self.processSection t).masterStatus = self.masterStatus ∨
        (self.slaveStatus = self.masterStatus ∧
          (self.processSection t).masterStatus = nextStatus self.masterStatus)) := by
  have hbm : self.beforeReady.m2s = self.sendArgIfPending.m2s := by rw [beforeReady_eq]
  have hbs := self.beforeReady_masterStatus
  have hsl : self.beforeReady.slaveStatus = self.slaveStatus := (kept_beforeReady self).slaveStatus
  rw [self.processSection_of_ready t hc hr]
  obtain ⟨-, h⟩ | ⟨hecho, h⟩ := self.beforeReady.processPdo_cases t
  · rw [h]
    exact ⟨hbm, Or.inl hbs⟩
  · rw [h]
    refine ⟨hbm, Or.inr ⟨?_, ?_⟩⟩
    · rw [← hsl, hecho, hbs]
    · show nextStatus self.beforeReady.masterStatus = _
      rw [hbs]

/-- A section of a waiting slave in which the READY branch does not fire. -/
theorem processSection_waiting (t : ℤ) (self : SlaveDevice) (hc : self.configured = true)
    (hr : self.confirmReady.isReady = false) (hb : ¬ self.ByReadyBranch) :
    self.processSection t = self.sendArgIfPending := by
  have hbefore : self.beforeReady = self.sendArgIfPending := by
    unfold beforeReady
    rw [self.confirmReady_of_waiting hr]
  rw [self.processSection_of_waiting t hc hr]
  obtain ⟨-, h⟩ | ⟨-, -, h⟩ | ⟨hup, hms, -, -⟩ | ⟨hup, hms, -, -⟩ :=
    self.sendArgIfPending.readyBranch_cases
  · exact h
  · exact h
  · exact absurd ⟨hc, hbefore ▸ hup, hbefore ▸ hms⟩ hb
  · exact absurd ⟨hc, hbefore ▸ hup, hbefore ▸ hms⟩ hb

/-- The command buffer and the status after a processing section. -/
theorem processSection_summary (t : ℤ) (self : SlaveDevice)
    (hlen : self.m2s.length = self.masterToSlaveBufLen) :
    (self.ByReadyBranch ∧ self.isReady = false ∧ (self.processSection t).m2s = self.readySource ∧
      (self.processSection t).masterStatus = MASTER_READY) ∨
    (¬ self.ByReadyBranch ∧
      (self.processSection t).m2s =
        (if self.configured then self.sendArgIfPending.m2s else self.m2s) ∧
      ((self.processSection t).masterStatus = self.masterStatus ∨
        (self.configured = true ∧ self.confirmReady.isReady = true ∧
          self.slaveStatus = self.masterStatus ∧
          (self.processSection t).masterStatus = nextStatus self.masterStatus))) := by
  by_cases hb : self.ByReadyBranch
  · obtain ⟨hready, -, hrun⟩ := self.processSection_of_branch t hb
    exact Or.inl ⟨hb, hready, self.processSection_branch_m2s t hlen hb, by rw [hrun]⟩
  · refine Or.inr ⟨hb, ?_⟩
    cases hc : self.configured with
    | false =>
      rw [self.processSection_of_not_configured t hc]
      exact ⟨by rw [if_neg Bool.false_ne_true], Or.inl rfl⟩
    | true =>
      rw [if_pos rfl]
      cases hr : self.confirmReady.isReady with
      | true =>
        obtain ⟨hm, hs⟩ := self.processSection_ready t hc hr
        exact ⟨hm, hs.imp_right fun h => ⟨rfl, rfl, h⟩⟩
      | false =>
        rw [self.processSection_waiting t hc hr hb]
        exact ⟨rfl, Or.inl self.sendArgIfPending_masterStatus⟩

theorem processSection_args (t : ℤ) (self : SlaveDevice) (hc : self.configured = true) :
    (self.processSection t).isArgSent = self.sendArgIfPending.isArgSent ∧
      (self.processSection t).sendingArgBufIdx = self.sendArgIfPending.sendingArgBufIdx := by
  have hbefore : self.beforeReady.isArgSent = self.sendArgIfPending.isArgSent ∧
      self.beforeReady.sendingArgBufIdx = self.sendArgIfPending.sendingArgBufIdx := by
    rw [beforeReady_eq]
    exact ⟨rfl, rfl⟩
  rw [self.processSection_of_configured t hc, ← hbefore.1, ← hbefore.2]
  obtain ⟨-, h⟩ | ⟨-, -, h⟩ := self.beforeReady.readyBranch.processPdoIfReady_cases t
  · rw [h]
    exact ⟨readyBranch_isArgSent _, readyBranch_sendingArgBufIdx _⟩
  · rw [h]
    exact ⟨readyBranch_isArgSent _, readyBranch_sendingArgBufIdx _⟩

/-! ## Sessions -/

/-- The arguments of the session are sent and a ready number is announced. -/
def SessionDone (d : SlaveDevice) : Prop :=
  d.isArgSent = true ∧ MASTER_READY ≤ d.masterStatus

instance (d : SlaveDevice) : Decidable d.SessionDone := inferInstanceAs (Decidable (_ ∧ _))

end SlaveDevice
end EcatMaster
