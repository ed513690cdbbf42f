import EcatMaster.Tasks.Command

/-! # `SlaveDevice`: the state of one slave and the methods that run on it

Each method of `soem_backend.cpp` is one function of the state, and `processSection` is what the data
cycle does to a slave while it holds its mutex. Buffers are reached through `data()` or `operator[]`
without a check, so the methods work on the memory of the two vectors and never on their sizes. A
`rclcpp::Time` is its number of nanoseconds.
-/

namespace EcatMaster
set_option autoImplicit false
open ByteBuf

def SLAVE_INITIALIZING : UInt8 := 1
def SLAVE_READY : UInt8 := 2
def SLAVE_CONFIRM_READY : UInt8 := 3

def MASTER_REQUEST_REBOOT : UInt8 := 1
def MASTER_SENDING_ARGUMENTS : UInt8 := 2
def MASTER_READY : UInt8 := 3

structure SlaveDevice where
  index : ℕ
  swRev : ℤ
  sn : UInt32
  isSwRevCheckPassed : Bool
  isRecoverRejected : Bool
  isReady : Bool
  lastLatencyCheckPacketSendTime : ℤ
  currentDataStamp : ℤ
  masterStatus : UInt8
  masterToSlaveBuf : Growable UInt8
  masterToSlaveBufBackup : List UInt8
  masterToSlaveBufLen : ℕ
  slaveStatus : UInt8
  slaveToMasterBuf : Growable UInt8
  slaveToMasterBufLen : ℕ
  argBuf : List UInt8
  argBufLen : UInt16
  sendingArgBufIdx : UInt16
  isArgSent : Bool
  isEcatConfDone : Bool
  isConfRosDone : Bool
  reconnectedTimes : UInt8
  taskList : List TaskWrapper
deriving DecidableEq

namespace SlaveDevice

/-- The constructor: the member initialisers of `wrapper.hpp`. -/
def new (index : ℕ) : SlaveDevice where
  index := index
  swRev := 0
  sn := 0
  isSwRevCheckPassed := false
  isRecoverRejected := false
  isReady := false
  lastLatencyCheckPacketSendTime := 0
  currentDataStamp := 0
  masterStatus := 0
  masterToSlaveBuf := Growable.empty
  masterToSlaveBufBackup := []
  masterToSlaveBufLen := 0
  slaveStatus := 0
  slaveToMasterBuf := Growable.empty
  slaveToMasterBufLen := 0
  argBuf := []
  argBufLen := 0
  sendingArgBufIdx := 1
  isArgSent := false
  isEcatConfDone := false
  isConfRosDone := false
  reconnectedTimes := 0
  taskList := []

/-- The memory behind `master_to_slave_buf_.data()`. -/
abbrev m2s (self : SlaveDevice) : List UInt8 := self.masterToSlaveBuf.data

/-- The memory behind `slave_to_master_buf_.data()`. -/
abbrev s2m (self : SlaveDevice) : List UInt8 := self.slaveToMasterBuf.data

def withM2s (self : SlaveDevice) (bytes : List UInt8) : SlaveDevice :=
  { self with masterToSlaveBuf := { self.masterToSlaveBuf with data := bytes } }

/-! ## Process data -/

/-- The bytes `transfer_to_slave` puts at the slave's outputs. -/
def transferToSlave (self : SlaveDevice) : List UInt8 :=
  self.masterStatus :: self.m2s.take self.masterToSlaveBufLen

def receiveFromSlave (self : SlaveDevice) (inputs : List UInt8) : SlaveDevice :=
  { self with
    slaveStatus := byteAt inputs 0
    slaveToMasterBuf := { self.slaveToMasterBuf with
      data := put self.s2m 0
        ((List.range self.slaveToMasterBufLen).map fun j => byteAt inputs (j + 1)) } }

/-! ## Arguments -/

/-- The index in the first two bytes the slave reports. -/
def echoedIdx (self : SlaveDevice) : UInt16 :=
  (byteAt self.s2m 1).toUInt16 <<< 8 ||| (byteAt self.s2m 0).toUInt16

/-- `arg_buf_[sending_arg_buf_idx_ - 1]`. -/
def sendingArg (self : SlaveDevice) : UInt8 := byteAt self.argBuf (self.sendingArgBufIdx.toNat - 1)

def argConfirmed (self : SlaveDevice) : Prop :=
  self.echoedIdx = self.sendingArgBufIdx ∧ byteAt self.s2m 2 = self.sendingArg

instance (self : SlaveDevice) : Decidable self.argConfirmed :=
  inferInstanceAs (Decidable (_ ∧ _))

/-- The first half of `send_arg`: the byte being sent may be confirmed. -/
def confirmArg (self : SlaveDevice) : SlaveDevice :=
  if self.argConfirmed then
    if self.sendingArgBufIdx = self.argBufLen then { self with isArgSent := true }
    else { self with sendingArgBufIdx := self.sendingArgBufIdx + 1 }
  else self

/-- The three bytes that carry one argument. -/
def argBytes (self : SlaveDevice) : List UInt8 :=
  [(self.sendingArgBufIdx &&& 0xFF).toUInt8, (self.sendingArgBufIdx >>> 8 &&& 0xFF).toUInt8,
   self.sendingArg]

/-- The second half of `send_arg`. -/
def writeArg (self : SlaveDevice) : SlaveDevice :=
  if self.isArgSent then self else self.withM2s (put self.m2s 0 self.argBytes)

def sendArg (self : SlaveDevice) : SlaveDevice := self.confirmArg.writeArg

/-! ## The ready phase -/

/-- `process_pdo`: the state after it and the latency it publishes, if any. -/
def processPdo (currentTime : ℤ) (self : SlaveDevice) : SlaveDevice × Option ℤ :=
  if self.slaveStatus = self.masterStatus then
    ({ self with
       currentDataStamp := self.lastLatencyCheckPacketSendTime
       lastLatencyCheckPacketSendTime := currentTime
       masterStatus :=
         if 250 ≤ self.masterStatus then MASTER_READY + 2 else self.masterStatus + 1 },
     some (currentTime - self.lastLatencyCheckPacketSendTime))
  else (self, none)

/-- The buffer `write_init_values` leaves: zeros, then the init value of each subscriber task. -/
def initPayload (tasks : List TaskWrapper) (len : ℕ) (buf : List UInt8) : List UInt8 :=
  tasks.foldl (fun buf task => if task.hasSubscribers then task.initValue buf else buf)
    (put buf 0 (List.replicate len 0))

def writeInitValues (self : SlaveDevice) : SlaveDevice :=
  self.withM2s (initPayload self.taskList self.masterToSlaveBufLen self.m2s)

def recoverMasterToSlaveBuf (self : SlaveDevice) : SlaveDevice :=
  if self.masterToSlaveBufBackup.length ≠ self.masterToSlaveBufLen then self
  else self.withM2s (put self.m2s 0 (self.masterToSlaveBufBackup.take self.masterToSlaveBufLen))

/-! ## Loss and recovery -/

def preRecover (self : SlaveDevice) : SlaveDevice :=
  { self with
    isArgSent := false
    sendingArgBufIdx := 1
    reconnectedTimes := self.reconnectedTimes + 1
    isConfRosDone := true }

def resetState (self : SlaveDevice) : SlaveDevice :=
  { self with
    isReady := false
    isConfRosDone := false
    slaveStatus := SLAVE_INITIALIZING }

def recoverState (self : SlaveDevice) : SlaveDevice :=
  { self with
    isReady := true
    isConfRosDone := true }

def backupMasterToSlaveBuf (self : SlaveDevice) : SlaveDevice :=
  { self with
    masterToSlaveBufBackup :=
      put (List.replicate self.masterToSlaveBufLen 0) 0 (self.m2s.take self.masterToSlaveBufLen) }

/-- The write actions of a lost connection: every task with action 0x02 is reset, in list order. -/
def lostPayload (tasks : List TaskWrapper) (buf : List UInt8) : List UInt8 :=
  tasks.foldl
    (fun buf task => if task.connectionLostWriteAction = 0x02 then task.initValue buf else buf) buf

/-- `on_connection_lost`: its effect on the command buffer. -/
def onConnectionLost (self : SlaveDevice) : SlaveDevice :=
  self.withM2s (lostPayload self.taskList self.m2s)

/-- The tasks whose message `on_connection_lost` publishes empty. -/
def emptiedTasks (self : SlaveDevice) : List TaskWrapper :=
  self.taskList.filter fun task => task.connectionLostReadAction = 0x02

/-- `on_command` of the task at position `k` of the list. -/
def onCommand (self : SlaveDevice) (k : ℕ) (msg : Command) : Option SlaveDevice :=
  self.taskList[k]?.bind fun task => (task.onCommand msg self.m2s).map self.withM2s

/-! ## One slave in the processing loop of the data cycle -/

/-- The slave reports that all arguments are well received. -/
def confirmReady (self : SlaveDevice) : SlaveDevice :=
  if self.slaveStatus = SLAVE_CONFIRM_READY ∧ ¬ self.isReady then { self with isReady := true }
  else self

def sendArgIfPending (self : SlaveDevice) : SlaveDevice :=
  if self.masterStatus = MASTER_SENDING_ARGUMENTS ∧ ¬ self.isArgSent then self.sendArg else self

/-- The condition of the READY branch. -/
def updatedToReady (self : SlaveDevice) : Prop :=
  ¬ self.isReady ∧ self.isArgSent ∧ self.slaveStatus = SLAVE_READY

instance (self : SlaveDevice) : Decidable self.updatedToReady :=
  inferInstanceAs (Decidable (_ ∧ _ ∧ _))

/-- What the READY branch does to the command buffer. -/
def readyPayload (self : SlaveDevice) : SlaveDevice :=
  if self.masterStatus ≠ MASTER_READY then
    if self.reconnectedTimes = 0 then self.writeInitValues else self.recoverMasterToSlaveBuf
  else self

def readyBranch (self : SlaveDevice) : SlaveDevice :=
  if self.updatedToReady then { self.readyPayload with masterStatus := MASTER_READY } else self

def processPdoIfReady (currentTime : ℤ) (self : SlaveDevice) : SlaveDevice :=
  if self.isReady then (self.processPdo currentTime).1 else self

/-- The device just before the READY branch of a processing section. -/
def beforeReady (self : SlaveDevice) : SlaveDevice := self.confirmReady.sendArgIfPending

def processSection (currentTime : ℤ) (self : SlaveDevice) : SlaveDevice :=
  if self.isConfRosDone = false ∨ self.isEcatConfDone = false then self
  else self.beforeReady.readyBranch.processPdoIfReady currentTime

/-- The condition on which `processSection` does anything. -/
abbrev configured (self : SlaveDevice) : Bool := self.isConfRosDone && self.isEcatConfDone

/-- What the checker does when it finds the slave lost. -/
def lostSection (self : SlaveDevice) : SlaveDevice :=
  self.resetState.onConnectionLost.backupMasterToSlaveBuf

end SlaveDevice
end EcatMaster
