import EcatMaster.Slave.Device
import EcatMaster.Tasks.InitSdo

/-! # `init` and `init_task_list`: how a `SlaveDevice` comes to be

`init` is the hook that SOEM calls between PRE_OP and SAFE_OP, once in the setup and again at every
reconfiguration. A serial read that fails leaves `sn_` as it was (`snRead = none`), and the revision
string is whatever the shared `sw_rev_str_` holds after its read. `Configured` is a device for which
the setup has succeeded.
-/

namespace EcatMaster
set_option autoImplicit false
open ByteBuf

/-! ## The registered modules -/

structure Module where
  masterToSlaveBufLen : ℕ
  slaveToMasterBufLen : ℕ
  minSwRev : ℤ
deriving DecidableEq, Repr

/-- What the three registries hold for a module: an unregistered one gets zeros. -/
def registeredModule (eepId : UInt32) : Module :=
  if eepId = 3 then ⟨80, 80, 8⟩
  else if eepId = 4 then ⟨80, 112, 8⟩
  else ⟨0, 0, 0⟩

/-! ## `atoi` -/

def isSpace (b : UInt8) : Bool := b = 32 ∨ (9 ≤ b ∧ b ≤ 13)

def isDigit (b : UInt8) : Bool := 48 ≤ b ∧ b ≤ 57

def digits (s : List UInt8) : ℕ :=
  (s.takeWhile isDigit).foldl (fun n b => 10 * n + (b.toNat - 48)) 0

/-- The string ends at its first zero byte, which is no digit, sign or space. -/
def atoi (s : List UInt8) : ℤ :=
  match s.dropWhile isSpace with
  | 45 :: rest => -(digits rest : ℤ)
  | 43 :: rest => digits rest
  | rest => digits rest

namespace SlaveDevice

/-! ## `init` -/

/-- The buffers of the first configuration: cleared, resized and cleared again. -/
def initBuffers (eepId : UInt32) (self : SlaveDevice) : SlaveDevice :=
  let m := registeredModule eepId
  { self with
    masterToSlaveBuf := (self.masterToSlaveBuf.clear.resize 0 m.masterToSlaveBufLen).clear
    masterToSlaveBufLen := m.masterToSlaveBufLen
    slaveToMasterBuf := (self.slaveToMasterBuf.clear.resize 0 m.slaveToMasterBufLen).clear
    slaveToMasterBufLen := m.slaveToMasterBufLen }

/-- `init` after the serial and the revision have been read and accepted. -/
def writeSdoLen (cfg : ConfigurationParser) (eepId : UInt32) (oldSn : UInt32) (self : SlaveDevice) :
    ℕ × SlaveDevice :=
  match getFieldAs UInt16 cfg (slaveKey self.sn "sdo_len") with
  | .error _ => (0, self)
  | .ok sdoLen =>
      let status := if sdoLen = 0 then MASTER_READY else MASTER_SENDING_ARGUMENTS
      let self := { self with masterStatus := status }
      let self := if oldSn = 0 then self.initBuffers eepId else self
      (1, { self with isEcatConfDone := true })

def init (cfg : ConfigurationParser) (eepId : UInt32) (snRead : Option UInt32)
    (swRevStr : List UInt8) (self : SlaveDevice) : ℕ × SlaveDevice :=
  let oldSn := self.sn
  let self := { self with sn := snRead.getD oldSn, swRev := atoi swRevStr }
  if oldSn ≠ 0 ∧ oldSn ≠ self.sn then (0, { self with sn := oldSn, isRecoverRejected := true })
  else
    let self := { self with isRecoverRejected := false }
    if self.swRev < (registeredModule eepId).minSwRev then (0, self)
    else { self with isSwRevCheckPassed := true }.writeSdoLen cfg eepId oldSn

/-! ## `init_task_list` -/

/-- The loop over the tasks: `count` of them, from `appIdx` on. -/
def initTasks (cfg : ConfigurationParser) (sn : UInt32) :
    ℕ → ℕ → Cursor → Except Fault (List TaskWrapper × Cursor)
  | 0, _, c => return ([], c)
  | count + 1, appIdx, c => do
    let taskType ← getFieldAs UInt8 cfg (appKey sn appIdx "sdowrite_task_type")
    let sdo ← sdoBuf cfg (appKey sn appIdx "sdowrite_") ["task_type"]
    let (task, c) ← initSdo cfg taskType (appKey sn appIdx "")
      (put c.1 c.2 (sdo.1.take sdo.2), c.2 + 1)
    let (tasks, c) ← initTasks cfg sn count (appIdx + 1) c
    return (task :: tasks, c)

def initTaskList (cfg : ConfigurationParser) (self : SlaveDevice) : Except Fault (Bool × SlaveDevice) :=
  if self.isSwRevCheckPassed = false then return (false, self)
  else do
    let argBufLen ← getFieldAs UInt16 cfg (slaveKey self.sn "sdo_len")
    let self := { self with argBufLen := argBufLen, argBuf := List.replicate argBufLen.toNat 0 }
    let _ ← getFieldAs String cfg (slaveKey self.sn "latency_pub_topic")
    let taskCount ← getFieldAs UInt8 cfg (slaveKey self.sn "task_count")
    if taskCount = 0 then return (false, self)
    else
      let (tasks, c) ← initTasks cfg self.sn taskCount.toNat 1 (writeUint8 taskCount (self.argBuf, 0))
      return (true, { self with argBuf := c.1, taskList := tasks, isConfRosDone := true })

/-- The setup has succeeded: `init` on a new device returned 1 and `init_task_list` true. -/
def Configured (cfg : ConfigurationParser) (eepId : UInt32) (dev : SlaveDevice) : Prop :=
  ∃ index snRead swRevStr ini, (new index).init cfg eepId snRead swRevStr = (1, ini) ∧
    ini.initTaskList cfg = .ok (true, dev)

/-! ## What `init` can do -/

/-- Every outcome of `init`: rejected, refused, or configured with an argument length. -/
theorem init_cases (cfg : ConfigurationParser) (eepId : UInt32) (snRead : Option UInt32)
    (swRevStr : List UInt8) (self : SlaveDevice) :
    (self.sn ≠ 0 ∧ self.sn ≠ snRead.getD self.sn ∧
      self.init cfg eepId snRead swRevStr =
        (0, { self with swRev := atoi swRevStr, isRecoverRejected := true })) ∨
    ((self.sn = 0 ∨ self.sn = snRead.getD self.sn) ∧ ∃ passed : Bool,
      (self.isSwRevCheckPassed → passed) ∧
      self.init cfg eepId snRead swRevStr =
        (0, { self with sn := snRead.getD self.sn, swRev := atoi swRevStr,
                        isRecoverRejected := false, isSwRevCheckPassed := passed })) ∨
    ((self.sn = 0 ∨ self.sn = snRead.getD self.sn) ∧ ∃ sdoLen,
      getFieldAs UInt16 cfg (slaveKey (snRead.getD self.sn) "sdo_len") = .ok sdoLen ∧
      self.init cfg eepId snRead swRevStr =
        (1, { (if self.sn = 0 then self.initBuffers eepId else self) with
                sn := snRead.getD self.sn, swRev := atoi swRevStr,
                isRecoverRejected := false, isSwRevCheckPassed := true,
                masterStatus := if sdoLen = 0 then MASTER_READY else MASTER_SENDING_ARGUMENTS,
                isEcatConfDone := true })) := by
  unfold init
  by_cases hrej : self.sn ≠ 0 ∧ self.sn ≠ snRead.getD self.sn
  · exact Or.inl ⟨hrej.1, hrej.2, if_pos hrej⟩
  have hacc : self.sn = 0 ∨ self.sn = snRead.getD self.sn := by
    by_contra hcon
    rw [not_or] at hcon
    exact hrej hcon
  refine Or.inr ?_
  simp only [if_neg hrej]
  split
  · exact Or.inl ⟨hacc, self.isSwRevCheckPassed, fun h => h, rfl⟩
  unfold writeSdoLen
  simp only
  cases hlen : getFieldAs UInt16 cfg (slaveKey (snRead.getD self.sn) "sdo_len") with
  | error e => exact Or.inl ⟨hacc, true, fun _ => rfl, rfl⟩
  | ok sdoLen =>
    refine Or.inr ⟨hacc, sdoLen, rfl, ?_⟩
    by_cases h0 : self.sn = 0
    · simp only [if_pos h0]
      rfl
    · simp only [if_neg h0]

/-- `init` accepts the board: it is not another one, its revision is new enough, and the
configuration has an argument length for it. -/
def InitAccepts (cfg : ConfigurationParser) (eepId : UInt32) (snRead : Option UInt32)
    (swRevStr : List UInt8) (self : SlaveDevice) : Prop :=
  (self.sn = 0 ∨ self.sn = snRead.getD self.sn) ∧
    ¬ atoi swRevStr < (registeredModule eepId).minSwRev ∧
    (getFieldAs UInt16 cfg (slaveKey (snRead.getD self.sn) "sdo_len")).isOk = true

instance (cfg : ConfigurationParser) (eepId : UInt32) (snRead : Option UInt32)
    (swRevStr : List UInt8) (self : SlaveDevice) :
    Decidable (self.InitAccepts cfg eepId snRead swRevStr) :=
  inferInstanceAs (Decidable (_ ∧ _ ∧ _))

theorem init_accepts (cfg : ConfigurationParser) (eepId : UInt32) (snRead : Option UInt32)
    (swRevStr : List UInt8) (self : SlaveDevice) :
    (self.init cfg eepId snRead swRevStr).1 = 1 ↔ self.InitAccepts cfg eepId snRead swRevStr := by
  unfold init InitAccepts
  simp only
  split
  · next hrej =>
    refine iff_of_false Nat.zero_ne_one fun h => ?_
    exact h.1.elim hrej.1 hrej.2
  · next hrej =>
    have hacc : self.sn = 0 ∨ self.sn = snRead.getD self.sn := by
      by_contra hcon
      rw [not_or] at hcon
      exact hrej hcon
    split
    · next hrev => exact iff_of_false Nat.zero_ne_one fun h => h.2.1 hrev
    · next hrev =>
      unfold writeSdoLen
      simp only
      cases hlen : getFieldAs UInt16 cfg (slaveKey (snRead.getD self.sn) "sdo_len") with
      | error e => exact iff_of_false Nat.zero_ne_one fun h => Bool.noConfusion h.2.2
      | ok sdoLen => exact iff_of_true rfl ⟨hacc, hrev, rfl⟩

/-- The members no `init` writes. -/
structure InitKept (d e : SlaveDevice) : Prop where
  isReady : e.isReady = d.isReady
  isConfRosDone : e.isConfRosDone = d.isConfRosDone
  isArgSent : e.isArgSent = d.isArgSent
  sendingArgBufIdx : e.sendingArgBufIdx = d.sendingArgBufIdx
  argBuf : e.argBuf = d.argBuf
  argBufLen : e.argBufLen = d.argBufLen
  taskList : e.taskList = d.taskList
  backup : e.masterToSlaveBufBackup = d.masterToSlaveBufBackup
  reconnectedTimes : e.reconnectedTimes = d.reconnectedTimes
  slaveStatus : e.slaveStatus = d.slaveStatus

theorem init_kept (cfg : ConfigurationParser) (eepId : UInt32) (snRead : Option UInt32)
    (swRevStr : List UInt8) (self : SlaveDevice) :
    InitKept self (self.init cfg eepId snRead swRevStr).2 := by
  obtain ⟨-, -, h⟩ | ⟨-, passed, -, h⟩ | ⟨-, sdoLen, -, h⟩ :=
    init_cases cfg eepId snRead swRevStr self
  · rw [h]
    constructor <;> rfl
  · rw [h]
    constructor <;> rfl
  · rw [h]
    by_cases h0 : self.sn = 0
    · simp only [if_pos h0]
      constructor <;> rfl
    · simp only [if_neg h0]
      constructor <;> rfl

/-- `init` returns 0 and keeps status and buffers, or returns 1 and sets the status for `sdo_len`;
it makes new buffers only for a device without a serial number. -/
theorem init_status (cfg : ConfigurationParser) (eepId : UInt32) (snRead : Option UInt32)
    (swRevStr : List UInt8) (self : SlaveDevice) :
    ((self.init cfg eepId snRead swRevStr).1 = 0 ∧
      (self.init cfg eepId snRead swRevStr).2.masterStatus = self.masterStatus ∧
      (self.init cfg eepId snRead swRevStr).2.masterToSlaveBuf = self.masterToSlaveBuf ∧
      (self.init cfg eepId snRead swRevStr).2.masterToSlaveBufLen = self.masterToSlaveBufLen) ∨
    ((self.init cfg eepId snRead swRevStr).1 = 1 ∧
      (∃ sn sdoLen, getFieldAs UInt16 cfg (slaveKey sn "sdo_len") = .ok sdoLen ∧
        (self.init cfg eepId snRead swRevStr).2.masterStatus =
          if sdoLen = 0 then MASTER_READY else MASTER_SENDING_ARGUMENTS) ∧
      (self.sn ≠ 0 →
        (self.init cfg eepId snRead swRevStr).2.masterToSlaveBuf = self.masterToSlaveBuf ∧
        (self.init cfg eepId snRead swRevStr).2.masterToSlaveBufLen = self.masterToSlaveBufLen) ∧
      (self.sn = 0 →
        (self.init cfg eepId snRead swRevStr).2.masterToSlaveBuf =
          (self.initBuffers eepId).masterToSlaveBuf ∧
        (self.init cfg eepId snRead swRevStr).2.masterToSlaveBufLen =
          (registeredModule eepId).masterToSlaveBufLen)) := by
  obtain ⟨-, -, h⟩ | ⟨-, passed, -, h⟩ | ⟨-, sdoLen, hlen, h⟩ :=
    init_cases cfg eepId snRead swRevStr self
  · rw [h]
    exact Or.inl ⟨rfl, rfl, rfl, rfl⟩
  · rw [h]
    exact Or.inl ⟨rfl, rfl, rfl, rfl⟩
  · rw [h]
    refine Or.inr ⟨rfl, ⟨_, sdoLen, hlen, rfl⟩, fun h0 => ⟨?_, ?_⟩, fun h0 => ⟨?_, ?_⟩⟩
    · simp only [if_neg h0]
    · simp only [if_neg h0]
    · simp only [if_pos h0]
    · simp only [if_pos h0]
      rfl

/-! ## What the setup yields -/

theorem initTasks_length {cfg : ConfigurationParser} {sn : UInt32} {count appIdx : ℕ} {c : Cursor}
    {r : List TaskWrapper × Cursor} (h : initTasks cfg sn count appIdx c = .ok r) :
    r.1.length = count ∧ r.2.1.length = c.1.length := by
  induction count generalizing appIdx c r with
  | zero =>
    cases h
    exact ⟨rfl, rfl⟩
  | succ count ih =>
    simp only [initTasks, bind_eq_ok] at h
    obtain ⟨taskType, -, sdo, -, t, ht, ts, hts, h⟩ := h
    cases h
    obtain ⟨hcount, hlen⟩ := ih hts
    have hput := (initSdo_made ht).length
    refine ⟨by rw [List.length_cons, hcount], ?_⟩
    rw [hlen, hput, put_length]

/-- A device right after the setup. -/
structure Fresh (cfg : ConfigurationParser) (eepId : UInt32) (dev : SlaveDevice) : Prop where
  isRecoverRejected : dev.isRecoverRejected = false
  isReady : dev.isReady = false
  isArgSent : dev.isArgSent = false
  isEcatConfDone : dev.isEcatConfDone = true
  isConfRosDone : dev.isConfRosDone = true
  reconnectedTimes : dev.reconnectedTimes = 0
  sendingArgBufIdx : dev.sendingArgBufIdx = 1
  slaveStatus : dev.slaveStatus = 0
  masterStatus : dev.masterStatus = if dev.argBufLen = 0 then MASTER_READY else MASTER_SENDING_ARGUMENTS
  sdoLen : getFieldAs UInt16 cfg (slaveKey dev.sn "sdo_len") = .ok dev.argBufLen
  argBuf : dev.argBuf.length = dev.argBufLen.toNat
  taskList : 0 < dev.taskList.length
  m2sLen : dev.masterToSlaveBufLen = (registeredModule eepId).masterToSlaveBufLen
  m2s : dev.masterToSlaveBuf = ⟨List.replicate dev.masterToSlaveBufLen 0, 0⟩
  backup : dev.masterToSlaveBufBackup = []
  s2mLen : dev.slaveToMasterBufLen = (registeredModule eepId).slaveToMasterBufLen
  s2m : dev.slaveToMasterBuf = ⟨List.replicate dev.slaveToMasterBufLen 0, 0⟩

theorem empty_clear_resize (n : ℕ) :
    ((Growable.empty : Growable UInt8).clear.resize 0 n).clear = ⟨List.replicate n 0, 0⟩ := by
  have h := Growable.resize_clear_data (0 : UInt8) Growable.empty n (Nat.zero_le n)
  exact congrArg (fun d => (⟨d, 0⟩ : Growable UInt8)) h

theorem Configured.fresh {cfg : ConfigurationParser} {eepId : UInt32} {dev : SlaveDevice}
    (h : Configured cfg eepId dev) : Fresh cfg eepId dev := by
  obtain ⟨index, snRead, swRevStr, ini, hini, htask⟩ := h
  have hcases := init_cases cfg eepId snRead swRevStr (new index)
  rw [hini] at hcases
  obtain ⟨-, -, h⟩ | ⟨-, passed, -, h⟩ | ⟨-, sdoLen, hlen, h⟩ := hcases
  · cases h
  · cases h
  obtain rfl := (Prod.mk.inj h).2
  unfold initTaskList at htask
  rw [if_neg (by simp)] at htask
  simp only [bind_eq_ok] at htask
  obtain ⟨argBufLen, harg, topic, -, taskCount, -, htask⟩ := htask
  obtain rfl : sdoLen = argBufLen := by
    have h := hlen.symm.trans harg
    exact Except.ok.inj h
  split at htask
  · cases htask
  next hcount =>
    rw [bind_eq_ok] at htask
    obtain ⟨r, hr, htask⟩ := htask
    obtain ⟨htasks, hargs⟩ := initTasks_length hr
    cases htask
    constructor <;> try rfl
    · exact hlen
    · rw [hargs]
      simp [writeUint8]
    · have hpos : taskCount.toNat ≠ 0 := fun h0 => hcount (UInt8.toNat_inj.mp h0)
      rw [htasks]
      omega
    · exact empty_clear_resize _
    · exact empty_clear_resize _

/-! ## A board with one DSHOT task -/

/-- Six argument bytes: the task count, the type, the write action, the output and the init value. -/
def dshotConfig : ConfigurationParser :=
  ConfigurationParser.new
    |>.set "sn7_sdo_len" (.uint16 6)
    |>.set "sn7_latency_pub_topic" (.string "latency")
    |>.set "sn7_task_count" (.uint8 1)
    |>.set "sn7_app_1_sdowrite_task_type" (.uint8 DSHOT_APP_ID)
    |>.set "sn7_app_1_sdowrite_connection_lost_write_action" (.uint8 1)
    |>.set "sn7_app_1_sdowrite_dshot_id" (.uint8 1)
    |>.set "sn7_app_1_sdowrite_init_value" (.uint16 48)
    |>.set "sn7_app_1_sub_topic" (.string "dshot")

theorem dshotConfig_uint16 (key : String) (v : UInt16)
    (h : dshotConfig.fields key = some (.uint16 v)) : v ≠ 0 := by
  simp only [dshotConfig, ConfigurationParser.set, ConfigurationParser.new] at h
  repeat' split at h
  all_goals
    cases h <;> decide

def dshotTask : TaskWrapper where
  cls := .dshot 48
  pdowriteOffset := 0
  pdoreadOffset := 0
  connectionLostReadAction := 0
  connectionLostWriteAction := 1

/-- The device `dshotConfig` gives on a module of type 3 with serial number 7 and revision 8. -/
def dshotDevice : SlaveDevice :=
  { new 1 with
    sn := 7
    swRev := 8
    isSwRevCheckPassed := true
    masterStatus := MASTER_SENDING_ARGUMENTS
    masterToSlaveBuf := ⟨List.replicate 80 0, 0⟩
    masterToSlaveBufLen := 80
    slaveToMasterBuf := ⟨List.replicate 80 0, 0⟩
    slaveToMasterBufLen := 80
    argBuf := [1, 4, 1, 1, 48, 0]
    argBufLen := 6
    isEcatConfDone := true
    isConfRosDone := true
    taskList := [dshotTask] }

theorem dshotDevice_configured : Configured dshotConfig 3 dshotDevice :=
  ⟨1, some 7, [56], ((new 1).init dshotConfig 3 (some 7) [56]).2, by decide +kernel,
    by rfl⟩

end SlaveDevice
end EcatMaster
