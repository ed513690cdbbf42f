import EcatMaster.Slave.Section

/-! # `EthercatNode`: the data cycle, the state checker and the command callbacks

One event is one section of one thread. Each thread has a program counter, so its sections come in
the order of the source while the other thread and the callbacks run in between; a loop over the
slaves at position `k` of `n` takes one more event to leave. The bus is in the events: what the
inputs hold, which AL status a slave answers, what an SDO read stores.
-/

namespace EcatMaster
set_option autoImplicit false
open ByteBuf

def EC_STATE_NONE : UInt16 := 0x00
def EC_STATE_INIT : UInt16 := 0x01
def EC_STATE_PRE_OP : UInt16 := 0x02
def EC_STATE_SAFE_OP : UInt16 := 0x04
def EC_STATE_OPERATIONAL : UInt16 := 0x08

/-- What the program uses of `ec_slave[i]`. -/
structure EcSlave where
  state : UInt16
  islost : Bool
  inputs : List UInt8
  outputs : List UInt8
  eepId : UInt32
deriving DecidableEq

/-- One slave position: the program's device and SOEM's record of it. -/
structure Slot where
  dev : SlaveDevice
  ec : EcSlave
deriving DecidableEq

/-- Where `datacycle_callback` is. -/
inductive DataPc where
  | start
  | loop
  | receive (k : ℕ)
  | process (k : ℕ)
  | exitCheck
  | exitReset (k : ℕ)
  | transfer (k : ℕ)
  | send
  | done
deriving DecidableEq

/-- Where `state_check_callback` is. -/
inductive CheckPc where
  | loop
  | visit (k : ℕ)
  | opRequest (k : ℕ)
  | reconfig (k : ℕ)
  | reconfigTail (k : ℕ)
  | reconfigDone (k : ℕ) (state : UInt16)
  | found (k : ℕ)
  | done
deriving DecidableEq

structure Node (n : ℕ) where
  slots : Fin n → Slot
  swRevStr : List UInt8
  running : Bool
  exiting : Bool
  exitingResetCalled : Bool
  inOperational : Bool
  ok : Bool
  wkc : ℤ
  expectedWkc : ℤ
  docheckstate : Bool
  data : DataPc
  check : CheckPc

/-- How `ec_reconfig_slave` goes up to its hook. -/
inductive Reconfig where
  | noReply
  | stopped (answer : UInt16)
  | hook (snRead : Option UInt32) (swRevRead : Option (List UInt8))
deriving DecidableEq

inductive Event (n : ℕ) where
  | dataStart
  | dataReceiveProcessdata (wkc : ℤ) (inputs : Fin n → List UInt8)
  | dataReceive
  | dataProcess (currentTime : ℤ)
  | dataExitCheck
  | dataExitReset
  | dataTransfer
  | dataSend
  | dataStop
  | checkPass (states : Fin n → UInt16)
  | checkVisit (answer : UInt16)
  | checkOpRequest (answer : UInt16)
  | checkReconfig (r : Reconfig)
  | checkReconfigTail (answer : UInt16)
  | checkReset
  | checkFound (recovered : Bool)
  | checkStop
  | command (i : Fin n) (task : ℕ) (msg : Command)
  | rclcppShutdown
  | onShutdown
  | stopRunning

namespace Node
variable {n : ℕ}

def setSlot (N : Node n) (i : Fin n) (slot : Slot) : Node n :=
  { N with slots := Function.update N.slots i slot }

def runSection (cfg : ConfigurationParser) (N : Node n) (i : Fin n) (s : Section) : Node n :=
  N.setSlot i { N.slots i with dev := s.run cfg (N.slots i).dev }

def setEc (N : Node n) (i : Fin n) (ec : EcSlave) : Node n :=
  N.setSlot i { N.slots i with ec := ec }

def goData (N : Node n) (pc : DataPc) : Node n := { N with data := pc }

def goCheck (N : Node n) (pc : CheckPc) : Node n := { N with check := pc }

/-- The body of a loop over the slaves at position `k`, or what comes after the loop. -/
def forSlave (k : ℕ) (body : Fin n → Node n) (after : Node n) : Node n :=
  if h : k < n then body ⟨k, h⟩ else after

/-! ## The data cycle -/

def dataStep (cfg : ConfigurationParser) (N : Node n) : Event n → Option (Node n)
  | .dataStart =>
      if N.data = .start then some { N with inOperational := true, data := .loop } else none
  | .dataReceiveProcessdata wkc inputs =>
      if N.data = .loop ∧ N.running then
        some { N with
          wkc := wkc
          slots := fun i => { N.slots i with ec := { (N.slots i).ec with inputs := inputs i } }
          data := .receive 0 }
      else none
  | .dataReceive =>
      match N.data with
      | .receive k => some <| forSlave k
          (fun i => (N.runSection cfg i (.receive (N.slots i).ec.inputs)).goData (.receive (k + 1)))
          (N.goData (.process 0))
      | _ => none
  | .dataProcess currentTime =>
      match N.data with
      | .process k => some <| forSlave k
          (fun i => (N.runSection cfg i (.process currentTime)).goData (.process (k + 1)))
          (N.goData .exitCheck)
      | _ => none
  | .dataExitCheck =>
      if N.data = .exitCheck then
        some (N.goData (if N.exiting ∧ ¬ N.exitingResetCalled then .exitReset 0 else .transfer 0))
      else none
  | .dataExitReset =>
      match N.data with
      | .exitReset k => some <| forSlave k
          (fun i => (N.runSection cfg i .exitReset).goData (.exitReset (k + 1)))
          { N with exitingResetCalled := true, data := .transfer 0 }
      | _ => none
  | .dataTransfer =>
      match N.data with
      | .transfer k => some <| forSlave k
          (fun i => (N.setEc i { (N.slots i).ec with
            outputs := (N.slots i).dev.transferToSlave }).goData (.transfer (k + 1)))
          (N.goData .send)
      | _ => none
  | .dataSend => if N.data = .send then some (N.goData .loop) else none
  | .dataStop => if N.data = .loop ∧ ¬ N.running then some (N.goData .done) else none
  | _ => none

/-! ## The state checker -/

/-- The branches of a visit on the state `ec_readstate` has stored; `ec_statecheck` stores the answer and returns
its low four bits. -/
def visitSlave (cfg : ConfigurationParser) (N : Node n) (i : Fin n) (k : ℕ) (answer : UInt16) :
    Node n :=
  let slot := N.slots i
  if slot.ec.state ≠ EC_STATE_OPERATIONAL then
    let N := { N with docheckstate := true }
    if slot.ec.state = EC_STATE_SAFE_OP ∧ ¬ slot.dev.isRecoverRejected then
      (N.runSection cfg i .preRecover).goCheck (.opRequest k)
    else if slot.ec.state = EC_STATE_INIT then
      (N.setEc i { slot.ec with state := answer }).goCheck
        (if answer &&& 0xf ≠ 0 then .reconfig k else .found k)
    else if slot.ec.islost = false ∧ slot.ec.state = EC_STATE_NONE then
      ((N.setEc i { slot.ec with islost := true }).runSection cfg i .lost).goCheck (.found k)
    else N.goCheck (.found k)
  else N.goCheck (.found k)

/-- `ec_reconfig_slave` up to its hook, and the hook. -/
def reconfigSlave (cfg : ConfigurationParser) (N : Node n) (i : Fin n) (k : ℕ) (r : Reconfig) :
    Node n :=
  let ec := (N.slots i).ec
  match r with
  | .noReply => N.goCheck (.reconfigDone k 0)
  | .stopped answer =>
      (N.setEc i { ec with state := answer }).goCheck (.reconfigDone k (answer &&& 0xf))
  | .hook snRead swRevRead =>
      let swRevStr := swRevRead.getD N.swRevStr
      { (N.setEc i { ec with state := EC_STATE_PRE_OP }).runSection cfg i
          (.init ec.eepId snRead swRevStr) with
        swRevStr := swRevStr
        check := .reconfigTail k }

/-- What follows a call of `ec_reconfig_slave` that returned `state`. -/
def afterReconfig (cfg : ConfigurationParser) (N : Node n) (i : Fin n) (state : UInt16) : Node n :=
  let slot := N.slots i
  if state ≠ 0 then
    if slot.dev.isRecoverRejected then
      (N.setEc i { slot.ec with state := EC_STATE_INIT }).runSection cfg i .resetState
    else (N.setEc i { slot.ec with islost := false }).runSection cfg i .resetState
  else N.runSection cfg i .resetState

/-- The block on `islost` that ends a visit. -/
def foundSlave (cfg : ConfigurationParser) (N : Node n) (i : Fin n) (recovered : Bool) : Node n :=
  let ec := (N.slots i).ec
  if ec.islost then
    if ec.state = EC_STATE_NONE then
      if recovered then (N.setEc i { ec with islost := false }).runSection cfg i .recoverState else N
    else (N.setEc i { ec with islost := false }).runSection cfg i .recoverState
  else N

def checkStep (cfg : ConfigurationParser) (N : Node n) : Event n → Option (Node n)
  | .checkPass states =>
      if N.check = .loop ∧ N.running ∧ N.ok then
        if N.inOperational ∧ (N.wkc < N.expectedWkc ∨ N.docheckstate) then
          some { N with
            docheckstate := false
            slots := fun i => { N.slots i with ec := { (N.slots i).ec with state := states i } }
            check := .visit 0 }
        else some N
      else none
  | .checkVisit answer =>
      match N.check with
      | .visit k => some <| forSlave k (fun i => N.visitSlave cfg i k answer) (N.goCheck .loop)
      | _ => none
  | .checkOpRequest answer =>
      match N.check with
      | .opRequest k => some <| forSlave k
          (fun i => (N.setEc i { (N.slots i).ec with state := answer }).goCheck (.found k)) N
      | _ => none
  | .checkReconfig r =>
      match N.check with
      | .reconfig k => some <| forSlave k (fun i => N.reconfigSlave cfg i k r) N
      | _ => none
  | .checkReconfigTail answer =>
      match N.check with
      | .reconfigTail k => some <| forSlave k
          (fun i => (N.setEc i { (N.slots i).ec with state := answer }).goCheck
            (.reconfigDone k (answer &&& 0xf))) N
      | _ => none
  | .checkReset =>
      match N.check with
      | .reconfigDone k state => some <| forSlave k
          (fun i => (N.afterReconfig cfg i state).goCheck (.found k)) N
      | _ => none
  | .checkFound recovered =>
      match N.check with
      | .found k => some <| forSlave k
          (fun i => (N.foundSlave cfg i recovered).goCheck (.visit (k + 1))) N
      | _ => none
  | .checkStop =>
      if N.check = .loop ∧ ¬ (N.running ∧ N.ok) then some (N.goCheck .done) else none
  | _ => none

/-! ## Callbacks and shutdown -/

def otherStep (cfg : ConfigurationParser) (N : Node n) : Event n → Option (Node n)
  | .command i task msg =>
      if ((N.slots i).dev.onCommand task msg).isSome then
        some (N.runSection cfg i (.command task msg))
      else none
  | .rclcppShutdown => some { N with ok := false }
  | .onShutdown => if N.ok then none else some { N with exiting := true }
  | .stopRunning =>
      if N.exiting ∧ N.exitingResetCalled then some { N with running := false } else none
  | _ => none

/-- One section of one thread; `none` when the thread is not there. -/
def step (cfg : ConfigurationParser) (N : Node n) (e : Event n) : Option (Node n) :=
  match e with
  | .dataStart | .dataReceiveProcessdata _ _ | .dataReceive | .dataProcess _ | .dataExitCheck
  | .dataExitReset | .dataTransfer | .dataSend | .dataStop => N.dataStep cfg e
  | .checkPass _ | .checkVisit _ | .checkOpRequest _ | .checkReconfig _ | .checkReconfigTail _
  | .checkReset | .checkFound _ | .checkStop => N.checkStep cfg e
  | .command _ _ _ | .rclcppShutdown | .onShutdown | .stopRunning => N.otherStep cfg e

/-- The threads as `setup_ecat` starts them, over slaves it has configured. -/
structure Initial (cfg : ConfigurationParser) (N : Node n) : Prop where
  configured : ∀ i, SlaveDevice.Configured cfg (N.slots i).ec.eepId (N.slots i).dev
  islost : ∀ i, (N.slots i).ec.islost = false
  running : N.running = true
  exiting : N.exiting = false
  exitingResetCalled : N.exitingResetCalled = false
  inOperational : N.inOperational = false
  ok : N.ok = true
  data : N.data = .start
  check : N.check = .loop

/-- One DSHOT board, just set up. -/
def dshotNode : Node 1 where
  slots := fun _ => ⟨SlaveDevice.dshotDevice, ⟨EC_STATE_OPERATIONAL, false, [], [], 3⟩⟩
  swRevStr := [56]
  running := true
  exiting := false
  exitingResetCalled := false
  inOperational := false
  ok := true
  wkc := 0
  expectedWkc := 3
  docheckstate := false
  data := .start
  check := .loop

theorem dshotNode_initial : Initial SlaveDevice.dshotConfig dshotNode where
  configured _ := SlaveDevice.dshotDevice_configured
  islost _ := rfl
  running := rfl
  exiting := rfl
  exitingResetCalled := rfl
  inOperational := rfl
  ok := rfl
  data := rfl
  check := rfl

/-- One turn of the data cycle over one slave whose inputs read `inputs`. -/
def turn (inputs : List UInt8) (wkc : ℤ := 3) : List (Event 1) :=
  [.dataReceiveProcessdata wkc fun _ => inputs, .dataReceive, .dataReceive, .dataProcess 0,
   .dataProcess 0, .dataExitCheck, .dataTransfer, .dataTransfer, .dataSend]

/-- The turns in which the DSHOT board confirms its six arguments and then reports READY. -/
def argumentTurns : List (Event 1) :=
  turn [1, 1, 0, 1] ++ turn [1, 2, 0, 4] ++ turn [1, 3, 0, 1] ++ turn [1, 4, 0, 1] ++
    turn [1, 5, 0, 48] ++ turn [2, 6, 0, 0]

/-- The setup is over and the board is ready. -/
def startUp : List (Event 1) := .dataStart :: argumentTurns ++ turn [3]

def dshotCommand (c1 c2 c3 c4 : UInt16) : Event 1 := .command 0 0 (.writeDSHOT c1 c2 c3 c4)

def throttle : List (Event 1) := [dshotCommand 1000 1000 1000 1000]

/-- The board is found lost. -/
def loss : List (Event 1) :=
  turn [0] 0 ++ [.checkPass fun _ => EC_STATE_NONE, .checkVisit 0, .checkFound false,
   .checkVisit 0]

/-- The board answers in INIT and is configured again. -/
def reconfiguration : List (Event 1) :=
  [.checkPass fun _ => EC_STATE_INIT, .checkVisit EC_STATE_INIT,
   .checkReconfig (.hook (some 7) (some [56])), .checkReconfigTail EC_STATE_SAFE_OP, .checkReset,
   .checkFound false, .checkVisit 0]

/-- The board answers in SAFE_OP and is put back into operation. -/
def safeOpPass : List (Event 1) :=
  [.checkPass fun _ => EC_STATE_SAFE_OP, .checkVisit 0, .checkOpRequest EC_STATE_OPERATIONAL,
   .checkFound false, .checkVisit 0]

end Node
end EcatMaster
