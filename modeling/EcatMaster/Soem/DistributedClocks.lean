import EcatMaster.Soem.Topology

/-! # Propagation delays

`ecx_configdc` lets every slave latch its clock when a broadcast frame passes each of its ports. From
the four latched times of a slave and those of the slave it hangs from it works out how long a frame
takes from the first slave to it. Ports are passed in the order 0 - 3 - 1 - 2.
-/

namespace EcatMaster.Soem
set_option autoImplicit false

/-- The value of a 32-bit register read as a signed number. -/
def int32 (x : ℤ) : ℤ := Int.bmod x (2 ^ 32)

/-- The bit of a port bitmap. -/
def portMask (port : ℕ) : BitVec 8 := BitVec.ofNat 8 (2 ^ port)

def hasPort (ports mask : BitVec 8) : Bool := ports &&& mask != 0

/-- Latched port time of a slave. -/
def porttime (s : Slave) (port : ℕ) : ℤ :=
  match port with
  | 0 => s.DCrtA
  | 1 => s.DCrtB
  | 2 => s.DCrtC
  | 3 => s.DCrtD
  | _ => 0

/-- The previous active port of a slave with the active ports `aport`. -/
def prevport (aport : BitVec 8) (port : ℕ) : ℕ :=
  match port with
  | 0 => if hasPort aport PORTM2 then 2 else if hasPort aport PORTM1 then 1
    else if hasPort aport PORTM3 then 3 else 0
  | 1 => if hasPort aport PORTM3 then 3 else if hasPort aport PORTM0 then 0
    else if hasPort aport PORTM2 then 2 else 1
  | 2 => if hasPort aport PORTM1 then 1 else if hasPort aport PORTM3 then 3
    else if hasPort aport PORTM0 then 0 else 2
  | 3 => if hasPort aport PORTM0 then 0 else if hasPort aport PORTM2 then 2
    else if hasPort aport PORTM1 then 1 else 3
  | _ => port

/-- The first open port of the bitmap `b` and the bitmap without it. The search order is 3 - 1 - 2 - 0. -/
def parentport (b : BitVec 8) : ℕ × BitVec 8 :=
  if hasPort b PORTM3 then (3, b &&& ~~~PORTM3)
  else if hasPort b PORTM1 then (1, b &&& ~~~PORTM1)
  else if hasPort b PORTM2 then (2, b &&& ~~~PORTM2)
  else if hasPort b PORTM0 then (0, b &&& ~~~PORTM0)
  else (0, b)

/-- The active ports of a slave with their time stamps, in the order they are listed in. -/
def portTimes (s : Slave) : List (ℕ × ℤ) :=
  (if hasPort s.activeports PORTM0 then [(0, s.DCrtA)] else []) ++
  (if hasPort s.activeports PORTM3 then [(3, s.DCrtD)] else []) ++
  (if hasPort s.activeports PORTM1 then [(1, s.DCrtB)] else []) ++
  (if hasPort s.activeports PORTM2 then [(2, s.DCrtC)] else [])

/-- The port with the lowest time stamp of a list, the first of them if there are several. -/
def lowest : List (ℕ × ℤ) → ℕ × ℤ
  | [] => (0, 0)
  | x :: xs => xs.foldl (fun low y => if y.2 < low.2 then y else low) x

/-- The registers a slave latches, and what the master writes to it. -/
structure DcRegisters where
  time0 : ℤ
  time1 : ℤ
  time2 : ℤ
  time3 : ℤ
  sof : BitVec 64
deriving Repr, DecidableEq

structure DcState where
  slavelist : SlaveList
  /-- `DCnext` and `DCprevious` of the slaves; slave 0 is the master. -/
  DCnext : ℕ → ℕ
  DCprevious : ℕ → ℕ
  /-- `hasdc` of slave 0 and of its group -/
  hasdc : Bool
  parenthold : ℕ
  prevDCslave : ℕ
  /-- the offsets and delays written to the slaves -/
  sysoffset : ℕ → Option (BitVec 64)
  sysdelay : ℕ → Option ℤ

def DcState.start (slavelist : SlaveList) : DcState where
  slavelist := slavelist
  DCnext := fun _ => 0
  DCprevious := fun _ => 0
  hasdc := false
  parenthold := 0
  prevDCslave := 0
  sysoffset := fun _ => none
  sysdelay := fun _ => none

/-- The nearest slave with a clock that slave `child` hangs from, 0 if there is none, and the slave
before it on the way. -/
def dcParent (slavelist : SlaveList) : (fuel child : ℕ) → ℕ × ℕ
  | 0, child => (child, 0)
  | fuel + 1, child =>
    let parent := (slavelist child).parent
    if parent = 0 ∨ (slavelist parent).hasdc then (child, parent)
    else dcParent slavelist fuel parent

def Slave.consume (s : Slave) (ports : BitVec 8) : Slave := { s with consumedports := ports }

/-- The latched times of a slave and the port the frame came in by. -/
def latchSlave (regs : DcRegisters) (s : Slave) : Slave :=
  let s := { s with
    DCrtA := int32 regs.time0
    DCrtB := int32 regs.time1
    DCrtC := int32 regs.time2
    DCrtD := int32 regs.time3 }
  let entryport := (lowest (portTimes s)).1
  { s with
    entryport := entryport
    consumedports := s.consumedports &&& ~~~portMask entryport }

/-- The delay of slave `s` below slave `p`, the `parentport` of `s` being known. -/
def pdelay (s p : Slave) (first : Bool) : ℤ :=
  let dt3 := int32 (porttime p s.parentport - porttime p (prevport p.activeports s.parentport))
  let dt1 := if 1 < s.topology
    then int32 (porttime s (prevport s.activeports s.entryport) - porttime s s.entryport) else 0
  let dt1 := if dt3 < dt1 then -dt1 else dt1
  let dt2 := if first then 0
    else int32 (porttime p (prevport p.activeports s.parentport) - porttime p p.entryport)
  let dt2 := if dt2 < 0 then -dt2 else dt2
  int32 (Int.tdiv (int32 (dt3 - dt1)) 2 + dt2 + p.pdelay)

/-- Slave `i` below its DC parent: its port on the parent is taken and its delay worked out. -/
def measureSlave (slavelist : SlaveList) (i child parent : ℕ) : SlaveList :=
  let taken := parentport (slavelist parent).consumedports
  let slavelist := Function.update slavelist parent ((slavelist parent).consume taken.2)
  let parentport := if (slavelist parent).topology = 1 then (slavelist parent).entryport else taken.1
  let s := { slavelist i with parentport := parentport }
  Function.update slavelist i
    { s with pdelay := pdelay s (slavelist parent) (decide (child - parent ≤ 1)) }

/-- Slave `i` becomes the last of the slaves with a clock. -/
def chainSlave (i : ℕ) (st : DcState) : DcState :=
  if st.hasdc
  then { st with
    DCnext := Function.update st.DCnext st.prevDCslave i
    DCprevious := Function.update st.DCprevious i st.prevDCslave
    prevDCslave := i }
  else { st with
    hasdc := true
    DCnext := Function.update st.DCnext 0 i
    DCprevious := Function.update st.DCprevious i 0
    prevDCslave := i }

/-- A slave with a clock. -/
def dcSlave (regs : DcRegisters) (mastertime64 : BitVec 64) (i : ℕ) (st : DcState) : DcState :=
  let st := { chainSlave i st with
    slavelist := Function.update st.slavelist i (latchSlave regs (st.slavelist i))
    parenthold := 0
    sysoffset := Function.update st.sysoffset i (some (-regs.sof + mastertime64)) }
  let (child, parent) := dcParent st.slavelist i i
  if 0 < parent then
    let slavelist := measureSlave st.slavelist i child parent
    { st with
      slavelist := slavelist
      sysdelay := Function.update st.sysdelay i (some (slavelist i).pdelay) }
  else st

/-- A slave without a clock: the last one of a branch takes the branch's port on the slave that holds
the branch. -/
def plainSlave (i : ℕ) (st : DcState) : DcState :=
  let s := { st.slavelist i with DCrtA := 0, DCrtB := 0, DCrtC := 0, DCrtD := 0 }
  let slavelist := Function.update st.slavelist i s
  let parenthold := if 0 < s.parent ∧ 2 < (slavelist s.parent).topology then s.parent
    else st.parenthold
  if parenthold ≠ 0 ∧ s.topology = 1 then
    { st with
      slavelist := Function.update slavelist parenthold
        ((slavelist parenthold).consume (parentport (slavelist parenthold).consumedports).2)
      parenthold := 0 }
  else { st with slavelist := slavelist, parenthold := parenthold }

/-- One round of the loop. -/
def configdcSlave (regs : ℕ → DcRegisters) (mastertime64 : BitVec 64) (st : DcState) (i : ℕ) :
    DcState :=
  let s := st.slavelist i
  let st := { st with slavelist := Function.update st.slavelist i (s.consume s.activeports) }
  if s.hasdc then dcSlave (regs i) mastertime64 i st else plainSlave i st

/-- `ecx_configdc` over slaves 1 to `n`, for the times the slaves have latched. -/
def configdc (regs : ℕ → DcRegisters) (mastertime64 : BitVec 64) (n : ℕ) (st : DcState) : DcState :=
  (List.range' 1 n).foldl (configdcSlave regs mastertime64) st

end EcatMaster.Soem
