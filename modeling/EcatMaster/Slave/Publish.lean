import EcatMaster.Slave.Section

/-! # What a processing section publishes

`process_pdo` publishes a latency sample and then calls `read` of each task with publishers, which
stamps its message with `current_data_stamp_`. It does so only when it takes the echo of the number
it has sent, and it sends the next number in the same step.
-/

namespace EcatMaster
set_option autoImplicit false

/-- What `process_pdo` puts out: a sample on the latency topic, or a `read` of the task at a position
of the list with this data stamp. -/
inductive Output where
  | latency (sample : ℤ)
  | read (task : ℕ) (stamp : ℤ)
deriving DecidableEq

/-- The task that publishes; the latency topic is the slave's own. -/
def Output.task : Output → Option ℕ
  | .latency _ => none
  | .read task _ => some task

namespace SlaveDevice

/-- The positions of the tasks `process_pdo` reads. -/
def readers (self : SlaveDevice) : List ℕ :=
  (List.range self.taskList.length).filter fun k => self.taskList[k]?.any TaskWrapper.hasPublishers

/-- The publications of `process_pdo`, in its order. -/
def processPdoOutputs (currentTime : ℤ) (self : SlaveDevice) : List Output :=
  if self.slaveStatus = self.masterStatus then
    .latency (currentTime - self.lastLatencyCheckPacketSendTime) ::
      self.readers.map fun k => .read k (self.processPdo currentTime).1.currentDataStamp
  else []

/-- The publications of a processing section. -/
def processOutputs (currentTime : ℤ) (self : SlaveDevice) : List Output :=
  if self.configured = true ∧ self.beforeReady.readyBranch.isReady = true then
    self.beforeReady.readyBranch.processPdoOutputs currentTime
  else []

/-- The sample is the one `process_pdo` yields. -/
theorem processPdoOutputs_latency (currentTime : ℤ) (self : SlaveDevice) :
    ((self.processPdoOutputs currentTime).filter fun o => o.task = none) =
      (self.processPdo currentTime).2.toList.map .latency := by
  unfold processPdoOutputs processPdo
  split
  · rw [List.filter_cons_of_pos rfl, List.filter_eq_nil_iff.mpr]
    · rfl
    · intro o ho
      obtain ⟨k, -, rfl⟩ := List.mem_map.mp ho
      simp [Output.task]
  · rfl

/-- The READY branch is executed in a processing section. -/
def ExecutesReady (self : SlaveDevice) : Prop :=
  self.configured = true ∧ self.beforeReady.updatedToReady

instance (self : SlaveDevice) : Decidable self.ExecutesReady := inferInstanceAs (Decidable (_ ∧ _))

/-- A processing section takes the echo of the number sent: the publish branch of `process_pdo`. -/
def TakesEcho (self : SlaveDevice) : Prop :=
  self.configured = true ∧ self.confirmReady.isReady = true ∧ self.slaveStatus = self.masterStatus

instance (self : SlaveDevice) : Decidable self.TakesEcho :=
  inferInstanceAs (Decidable (_ ∧ _ ∧ _))

/-- What a section that takes the echo publishes. -/
def echoOutputs (currentTime : ℤ) (self : SlaveDevice) : List Output :=
  .latency (currentTime - self.lastLatencyCheckPacketSendTime) ::
    self.readers.map fun k => .read k self.lastLatencyCheckPacketSendTime

theorem readers_congr {d e : SlaveDevice} (h : e.taskList = d.taskList) : e.readers = d.readers := by
  unfold readers
  rw [h]

theorem mem_readers (self : SlaveDevice) (k : ℕ) :
    k ∈ self.readers ↔ self.taskList[k]?.any TaskWrapper.hasPublishers = true := by
  unfold readers
  rw [List.mem_filter, List.mem_range]
  refine ⟨fun h => h.2, fun h => ⟨?_, h⟩⟩
  by_contra hk
  rw [List.getElem?_eq_none (by omega)] at h
  cases h

theorem readers_nodup (self : SlaveDevice) : self.readers.Nodup :=
  List.nodup_range.filter _

theorem beforeReady_lastTime (self : SlaveDevice) :
    self.beforeReady.lastLatencyCheckPacketSendTime = self.lastLatencyCheckPacketSendTime := by
  have hconf : self.confirmReady.lastLatencyCheckPacketSendTime =
      self.lastLatencyCheckPacketSendTime := by rw [confirmReady_eq]
  unfold beforeReady
  rw [← hconf]
  obtain h | ⟨-, -, ⟨-, -, h⟩ | ⟨next, h, ⟨-, -, rfl⟩ | ⟨-, rfl⟩⟩⟩ :=
    self.confirmReady.sendArgIfPending_cases <;> rw [h] <;> rfl

section Phase
variable (t : ℤ) (self : SlaveDevice)

/-- A section of a ready slave takes the echo or leaves the number as it is. -/
theorem processSection_ready_phase (hc : self.configured = true)
    (hr : self.confirmReady.isReady = true) : ¬ self.ExecutesReady ∧
    ((self.TakesEcho ∧ (self.processSection t).lastLatencyCheckPacketSendTime = t ∧
        (self.processSection t).masterStatus = nextStatus self.masterStatus ∧
        self.processOutputs t = self.echoOutputs t) ∨
      (¬ self.TakesEcho ∧ (self.processSection t).lastLatencyCheckPacketSendTime =
          self.lastLatencyCheckPacketSendTime ∧
        (self.processSection t).masterStatus = self.masterStatus ∧ self.processOutputs t = [])) := by
  have hbefore : self.beforeReady.isReady = true := by rw [beforeReady_isReady, hr]
  have hms := self.beforeReady_masterStatus
  have hss : self.beforeReady.slaveStatus = self.slaveStatus := (kept_beforeReady self).slaveStatus
  have houtputs : self.processOutputs t = self.beforeReady.processPdoOutputs t := by
    unfold processOutputs
    rw [readyBranch_of_ready _ hbefore]
    exact if_pos ⟨hc, hbefore⟩
  refine ⟨fun h => h.2.1 hbefore, ?_⟩
  rw [self.processSection_of_ready t hc hr, houtputs]
  obtain ⟨hne, h⟩ | ⟨hecho, h⟩ := self.beforeReady.processPdo_cases t
  · refine Or.inr ⟨fun htake => hne ?_, ?_, ?_, ?_⟩
    · rw [hss, hms, htake.2.2]
    · rw [h, beforeReady_lastTime]
    · rw [h, hms]
    · unfold processPdoOutputs
      exact if_neg hne
  · refine Or.inl ⟨⟨hc, hr, ?_⟩, ?_, ?_, ?_⟩
    · rw [← hss, hecho, hms]
    · rw [h]
    · rw [h, ← hms]
    · unfold processPdoOutputs echoOutputs
      rw [if_pos hecho, h, self.beforeReady_lastTime,
        readers_congr (kept_beforeReady self).taskList]

/-- A section of a waiting slave publishes nothing; the READY branch places the first number. -/
theorem processSection_waiting_phase (hc : self.configured = true)
    (hr : self.confirmReady.isReady = false) : ¬ self.TakesEcho ∧
    (self.processSection t).lastLatencyCheckPacketSendTime = self.lastLatencyCheckPacketSendTime ∧
    (self.processSection t).masterStatus =
      (if self.ExecutesReady then MASTER_READY else self.masterStatus) ∧
    self.processOutputs t = [] := by
  have hwait : self.beforeReady.readyBranch.isReady = false := by
    rw [readyBranch_isReady, beforeReady_isReady, hr]
  have hrun : self.processSection t = self.beforeReady.readyBranch := by
    rw [self.processSection_of_configured t hc]
    unfold processPdoIfReady
    exact if_neg fun h => Bool.noConfusion (hwait.symm.trans h)
  refine ⟨fun h => Bool.noConfusion (hr.symm.trans h.2.1), ?_, ?_, ?_⟩
  · obtain ⟨bytes, status, h, -⟩ := self.beforeReady.readyBranch_eq
    rw [hrun, h]
    exact self.beforeReady_lastTime
  · rw [hrun]
    unfold readyBranch
    by_cases hup : self.beforeReady.updatedToReady
    · rw [if_pos hup, if_pos ⟨hc, hup⟩]
    · rw [if_neg hup, if_neg fun h => hup h.2, beforeReady_masterStatus]
  · unfold processOutputs
    exact if_neg fun h => Bool.noConfusion (hwait.symm.trans h.2)

/-- **A processing section** takes the echo, executes the READY branch, or does neither. -/
theorem processSection_phase :
    (self.TakesEcho ∧ ¬ self.ExecutesReady ∧
      (self.processSection t).lastLatencyCheckPacketSendTime = t ∧
      (self.processSection t).masterStatus = nextStatus self.masterStatus ∧
      self.processOutputs t = self.echoOutputs t) ∨
    (¬ self.TakesEcho ∧ self.ExecutesReady ∧
      (self.processSection t).lastLatencyCheckPacketSendTime =
        self.lastLatencyCheckPacketSendTime ∧
      (self.processSection t).masterStatus = MASTER_READY ∧ self.processOutputs t = []) ∨
    (¬ self.TakesEcho ∧ ¬ self.ExecutesReady ∧
      (self.processSection t).lastLatencyCheckPacketSendTime =
        self.lastLatencyCheckPacketSendTime ∧
      (self.processSection t).masterStatus = self.masterStatus ∧ self.processOutputs t = []) := by
  cases hc : self.configured with
  | false =>
    have hnot {p : Prop} : ¬ (self.configured = true ∧ p) := fun h =>
      Bool.noConfusion (hc.symm.trans h.1)
    refine Or.inr (Or.inr ⟨hnot, hnot, ?_, ?_, if_neg hnot⟩)
    · rw [self.processSection_of_not_configured t hc]
    · rw [self.processSection_of_not_configured t hc]
  | true =>
    cases hr : self.confirmReady.isReady with
    | true =>
      obtain ⟨hexec, ⟨htake, hlast, hms, hout⟩ | ⟨htake, hlast, hms, hout⟩⟩ :=
        self.processSection_ready_phase t hc hr
      · exact Or.inl ⟨htake, hexec, hlast, hms, hout⟩
      · exact Or.inr (Or.inr ⟨htake, hexec, hlast, hms, hout⟩)
    | false =>
      obtain ⟨htake, hlast, hms, hout⟩ := self.processSection_waiting_phase t hc hr
      by_cases hexec : self.ExecutesReady
      · rw [if_pos hexec] at hms
        exact Or.inr (Or.inl ⟨htake, hexec, hlast, hms, hout⟩)
      · rw [if_neg hexec] at hms
        exact Or.inr (Or.inr ⟨htake, hexec, hlast, hms, hout⟩)

end Phase

end SlaveDevice
end EcatMaster
