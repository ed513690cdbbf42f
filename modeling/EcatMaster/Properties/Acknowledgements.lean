import EcatMaster.Lib.Log
import EcatMaster.Properties.Buffers

/-! # The order in which arguments are acknowledged

The history of a slave keeps the inputs its last `receive` has read and, for the session, each
processing of the slave with these inputs and the index that was being sent. The index stays inside
the argument buffer and only moves on past an argument whose index and byte the inputs repeat, so a
finished session has recorded one such cycle for each argument, in order.
-/

namespace EcatMaster
set_option autoImplicit false
open ByteBuf EventRun EventLog

/-- One processing of a slave: the inputs of the cycle and `sending_arg_buf_idx_` before it. -/
structure ArgCycle where
  inputs : List UInt8
  sendingArgBufIdx : UInt16
deriving DecidableEq

/-- The inputs are the index `k + 1` and the argument with this index, while it was being sent. -/
def ArgCycle.Acknowledges (argBuf : List UInt8) (k : ℕ) (c : ArgCycle) : Prop :=
  c.sendingArgBufIdx.toNat = k + 1 ∧ wordAt c.inputs 1 = k + 1 ∧
    argBuf[k]? = some (byteAt c.inputs 3)

/-- What a slave was last read, and the cycles of the session. -/
structure AckHistory where
  inputs : List UInt8
  cycles : List ArgCycle
deriving DecidableEq

namespace AckHistory

def start : AckHistory := ⟨[], []⟩

def update (g : AckHistory) (d : SlaveDevice) : Section → AckHistory
  | .receive inputs => { g with inputs := inputs }
  | .process _ => { g with cycles := g.cycles ++ [⟨g.inputs, d.sendingArgBufIdx⟩] }
  | .preRecover => { g with cycles := [] }
  | _ => g

end AckHistory

/-- How a section of a session may move the index from `d` to `e`. -/
def Section.Advances (d e : SlaveDevice) : Section → Prop
  | .process _ => d.sendingArgBufIdx.toNat ≤ e.sendingArgBufIdx.toNat ∧
      e.sendingArgBufIdx.toNat ≤ d.sendingArgBufIdx.toNat + 1
  | .preRecover => e.sendingArgBufIdx = 1
  | _ => e.sendingArgBufIdx = d.sendingArgBufIdx

namespace SlaveDevice

/-- The index is inside the buffer, and a finished session has been acknowledged in order. -/
structure ArgsInOrder (d : SlaveDevice) (g : AckHistory) : Prop where
  pos : 1 ≤ d.sendingArgBufIdx.toNat
  le : d.sendingArgBufIdx.toNat ≤ d.argBufLen.toNat
  inRange : d.sendingArgBufIdx.toNat - 1 < d.argBuf.length
  sent : d.isArgSent = true →
    Recorded (ArgCycle.Acknowledges d.argBuf) g.cycles d.argBufLen.toNat

/-- The invariant: the buffer holds the inputs read last, and every argument before the one being
sent has been acknowledged. -/
structure Acknowledging (eepId : UInt32) (d : SlaveDevice) (g : AckHistory) : Prop where
  storage : Storage eepId d
  pos : 1 ≤ d.sendingArgBufIdx.toNat
  le : d.sendingArgBufIdx.toNat ≤ d.argBufLen.toNat
  argBuf : d.argBuf.length = d.argBufLen.toNat
  held : d.echoedIdx ≠ 0 →
    d.echoedIdx.toNat = wordAt g.inputs 1 ∧ byteAt d.s2m 2 = byteAt g.inputs 3
  acknowledged : Recorded (ArgCycle.Acknowledges d.argBuf) g.cycles (d.sendingArgBufIdx.toNat - 1)
  sent : d.isArgSent = true →
    Recorded (ArgCycle.Acknowledges d.argBuf) g.cycles d.argBufLen.toNat

section Device
variable {cfg : ConfigurationParser} {eepId : UInt32} {d e : SlaveDevice} {g : AckHistory}

theorem Acknowledging.argsInOrder (h : Acknowledging eepId d g) : ArgsInOrder d g where
  pos := h.pos
  le := h.le
  inRange := by
    have hpos := h.pos
    have hle := h.le
    rw [h.argBuf]
    omega
  sent := h.sent

theorem Fresh.acknowledging (h : Fresh cfg eepId d) (hlen : d.argBufLen ≠ 0) :
    Acknowledging eepId d AckHistory.start where
  storage := h.storage
  pos := by
    rw [h.sendingArgBufIdx]
    decide
  le := by
    have hne : d.argBufLen.toNat ≠ 0 := fun h0 => hlen (UInt16.toNat_inj.mp h0)
    rw [h.sendingArgBufIdx]
    show 1 ≤ d.argBufLen.toNat
    omega
  argBuf := h.argBuf
  held hne := by
    refine absurd ?_ hne
    unfold echoedIdx
    rw [SlaveDevice.s2m, h.s2m, byteAt_zeros, byteAt_zeros]
    decide
  acknowledged := by
    rw [h.sendingArgBufIdx]
    exact recorded_zero
  sent hsent := by
    rw [h.isArgSent] at hsent
    cases hsent

/-- Only the index and `is_arg_sent_` differ, and the history accounts for them. -/
theorem Acknowledging.move (h : Acknowledging eepId d g) (hst : Storage eepId e)
    (harg : e.argBuf = d.argBuf) (hlen : e.argBufLen = d.argBufLen)
    (hs2m : e.slaveToMasterBuf = d.slaveToMasterBuf)
    (hpos : 1 ≤ e.sendingArgBufIdx.toNat) (hle : e.sendingArgBufIdx.toNat ≤ d.argBufLen.toNat)
    (hack : Recorded (ArgCycle.Acknowledges d.argBuf) g.cycles (e.sendingArgBufIdx.toNat - 1))
    (hsent : e.isArgSent = true →
      Recorded (ArgCycle.Acknowledges d.argBuf) g.cycles d.argBufLen.toNat) :
    Acknowledging eepId e g := by
  have hecho : e.echoedIdx = d.echoedIdx := by
    unfold echoedIdx
    rw [SlaveDevice.s2m, hs2m]
  refine ⟨hst, hpos, ?_, ?_, ?_, ?_, ?_⟩
  · rw [hlen]
    exact hle
  · rw [harg, hlen]
    exact h.argBuf
  · rw [hecho, SlaveDevice.s2m, hs2m]
    exact h.held
  · rw [harg]
    exact hack
  · rw [harg, hlen]
    exact hsent

/-- A section that leaves the arguments and the input buffer alone. -/
theorem Acknowledging.congr (h : Acknowledging eepId d g) (hst : Storage eepId e)
    (hidx : e.sendingArgBufIdx = d.sendingArgBufIdx) (harg : e.argBuf = d.argBuf)
    (hlen : e.argBufLen = d.argBufLen) (hs2m : e.slaveToMasterBuf = d.slaveToMasterBuf)
    (hsent : e.isArgSent = d.isArgSent) : Acknowledging eepId e g := by
  refine h.move hst harg hlen hs2m ?_ ?_ ?_ ?_
  · rw [hidx]
    exact h.pos
  · rw [hidx]
    exact h.le
  · rw [hidx]
    exact h.acknowledged
  · rw [hsent]
    exact h.sent

/-- The inputs that confirm an argument acknowledge it. -/
theorem Acknowledging.confirmed (h : Acknowledging eepId d g) (hc : d.argConfirmed) :
    ArgCycle.Acknowledges d.argBuf (d.sendingArgBufIdx.toNat - 1) ⟨g.inputs, d.sendingArgBufIdx⟩ := by
  obtain ⟨hidx, hvalue⟩ := hc
  have hpos := h.pos
  have hsucc : d.sendingArgBufIdx.toNat - 1 + 1 = d.sendingArgBufIdx.toNat := by omega
  have hne : d.echoedIdx ≠ 0 := by
    intro h0
    rw [← hidx, h0] at hpos
    exact absurd hpos (by decide)
  obtain ⟨hword, hbyte⟩ := h.held hne
  refine ⟨hsucc.symm, ?_, ?_⟩
  · show wordAt g.inputs 1 = _
    rw [hsucc, ← hword, hidx]
  · show d.argBuf[_]? = some (byteAt g.inputs 3)
    have hin := h.argsInOrder.inRange
    rw [← hbyte, hvalue]
    unfold sendingArg byteAt
    rw [List.getD_eq_getElem?_getD, List.getElem?_eq_getElem hin]
    rfl

theorem Acknowledging.cycle (h : Acknowledging eepId d g) (t : ℤ) :
    Acknowledging eepId d (g.update d (.process t)) :=
  ⟨h.storage, h.pos, h.le, h.argBuf, h.held, h.acknowledged.append _,
    fun hsent => (h.sent hsent).append _⟩

theorem Acknowledging.next (h : Acknowledging eepId d g) (t : ℤ) (hconf : d.argConfirmed) :
    Recorded (ArgCycle.Acknowledges d.argBuf) (g.update d (.process t)).cycles
      d.sendingArgBufIdx.toNat := by
  have hnext := h.acknowledged.next (h.confirmed hconf)
  rw [Nat.sub_add_cancel h.pos] at hnext
  exact hnext

/-- Before the last argument the index has room to move on. -/
theorem Acknowledging.succ_idx (h : Acknowledging eepId d g)
    (hne : ¬ d.sendingArgBufIdx = d.argBufLen) :
    (d.sendingArgBufIdx + 1).toNat = d.sendingArgBufIdx.toNat + 1 ∧
      d.sendingArgBufIdx.toNat + 1 ≤ d.argBufLen.toNat := by
  have hlt : d.sendingArgBufIdx.toNat < d.argBufLen.toNat :=
    lt_of_le_of_ne h.le fun heq => hne (UInt16.toNat_inj.mp heq)
  have hbound := d.argBufLen.toNat_lt
  refine ⟨?_, hlt⟩
  rw [UInt16.toNat_add]
  show (d.sendingArgBufIdx.toNat + 1) % 2 ^ 16 = _
  omega

theorem advances_of_stay {t : ℤ} (hidx : e.sendingArgBufIdx = d.sendingArgBufIdx) :
    (Section.process t).Advances d e := by
  show _ ≤ _ ∧ _ ≤ _
  rw [hidx]
  exact ⟨le_rfl, Nat.le_succ _⟩

/-- **A processing section**: the index moves past an argument only if its inputs acknowledge it. -/
theorem Acknowledging.process (h : Acknowledging eepId d g) (t : ℤ) :
    Acknowledging eepId (d.processSection t) (g.update d (.process t)) ∧
      (Section.process t).Advances d (d.processSection t) := by
  have k := kept_processSection t d
  have hstorage := h.storage.kept k
  have hcycle := h.cycle t
  have hsame (hidx : (d.processSection t).sendingArgBufIdx = d.sendingArgBufIdx)
      (hsent : (d.processSection t).isArgSent = d.isArgSent) :
      Acknowledging eepId (d.processSection t) (g.update d (.process t)) ∧
        (Section.process t).Advances d (d.processSection t) :=
    ⟨hcycle.congr hstorage hidx k.argBuf k.argBufLen k.slaveToMasterBuf hsent, advances_of_stay hidx⟩
  cases hc : d.configured with
  | false =>
    rw [d.processSection_of_not_configured t hc] at hsame ⊢
    exact hsame rfl rfl
  | true =>
    obtain ⟨hsent, hidx⟩ := d.processSection_args t hc
    obtain hs | ⟨-, -, ⟨hconf, hlast, hs⟩ | ⟨next, hs, ⟨hconf, hne, rfl⟩ | ⟨-, rfl⟩⟩⟩ :=
      d.sendArgIfPending_cases
    · rw [hs] at hidx hsent
      exact hsame hidx hsent
    · rw [hs] at hidx
      refine ⟨?_, advances_of_stay hidx⟩
      refine hcycle.move hstorage k.argBuf k.argBufLen k.slaveToMasterBuf ?_ ?_ ?_ fun _ => ?_
      · rw [hidx]
        exact h.pos
      · rw [hidx]
        exact h.le
      · rw [hidx]
        exact hcycle.acknowledged
      · rw [← hlast]
        exact h.next t hconf
    · rw [hs] at hidx hsent
      obtain ⟨hadd, hle⟩ := h.succ_idx hne
      have hsucc : (d.processSection t).sendingArgBufIdx.toNat = d.sendingArgBufIdx.toNat + 1 :=
        (congrArg UInt16.toNat hidx).trans hadd
      constructor
      · refine hcycle.move hstorage k.argBuf k.argBufLen k.slaveToMasterBuf ?_ ?_ ?_ fun ht => ?_
        · omega
        · omega
        · rw [hsucc, Nat.add_sub_cancel]
          exact h.next t hconf
        · exact hcycle.sent (hsent.symm.trans ht)
      · show _ ≤ _ ∧ _ ≤ _
        omega
    · rw [hs] at hidx hsent
      exact hsame hidx hsent

theorem Acknowledging.receive (h : Acknowledging eepId d g) (inputs : List UInt8) :
    Acknowledging eepId (d.receiveFromSlave inputs) (g.update d (.receive inputs)) :=
  ⟨h.storage.receive inputs, h.pos, h.le, h.argBuf, receive_held h.storage inputs, h.acknowledged,
    h.sent⟩

theorem Acknowledging.preRecover (h : Acknowledging eepId d g) :
    Acknowledging eepId d.preRecover (g.update d .preRecover) := by
  have hone : d.preRecover.sendingArgBufIdx.toNat = 1 := rfl
  have hpos := h.pos
  have hle := h.le
  refine ⟨h.storage.congr rfl rfl rfl rfl, hone.ge, ?_, h.argBuf, h.held, ?_, fun hsent => ?_⟩
  · show d.preRecover.sendingArgBufIdx.toNat ≤ d.argBufLen.toNat
    omega
  · rw [hone]
    exact recorded_zero
  · cases hsent

theorem Acknowledging.init (h : Acknowledging eepId d g) (snRead : Option UInt32)
    (swRevStr : List UInt8) : Acknowledging eepId (d.init cfg eepId snRead swRevStr).2 g := by
  have hst : Storage eepId (d.init cfg eepId snRead swRevStr).2 := h.storage.init snRead swRevStr
  obtain ⟨-, -, hd⟩ | ⟨-, passed, -, hd⟩ | ⟨-, sdoLen, -, hd⟩ :=
    init_cases cfg eepId snRead swRevStr d
  · rw [hd] at hst ⊢
    exact h.congr hst rfl rfl rfl rfl rfl
  · rw [hd] at hst ⊢
    exact h.congr hst rfl rfl rfl rfl rfl
  · rw [hd] at hst ⊢
    by_cases h0 : d.sn = 0
    · simp only [if_pos h0] at hst ⊢
      refine ⟨hst, h.pos, h.le, h.argBuf, fun hne => absurd ?_ hne, h.acknowledged, h.sent⟩
      exact initBuffers_echoedIdx h.storage
    · simp only [if_neg h0] at hst ⊢
      exact h.congr hst rfl rfl rfl rfl rfl

/-- **One section** keeps the invariant and moves the index as it may. -/
theorem Acknowledging.run {s : Section} (hs : Node.OnModule eepId s) (h : Acknowledging eepId d g) :
    Acknowledging eepId (s.run cfg d) (g.update d s) ∧ s.Advances d (s.run cfg d) := by
  have hst : Storage eepId (s.run cfg d) := h.storage.run hs
  cases s with
  | receive inputs => exact ⟨h.receive inputs, rfl⟩
  | process t => exact h.process t
  | preRecover => exact ⟨h.preRecover, rfl⟩
  | init eep snRead swRevStr =>
    obtain rfl : eep = eepId := hs
    exact ⟨h.init snRead swRevStr, (init_kept cfg eep snRead swRevStr d).sendingArgBufIdx⟩
  | exitReset =>
    obtain ⟨bytes, hd, -⟩ := exitReset_eq cfg d
    rw [hd] at hst ⊢
    exact ⟨h.congr hst rfl rfl rfl rfl rfl, rfl⟩
  | command task msg =>
    obtain ⟨bytes, hd, -⟩ := command_eq cfg task msg d
    rw [hd] at hst ⊢
    exact ⟨h.congr hst rfl rfl rfl rfl rfl, rfl⟩
  | transfer | resetState | lost | recoverState =>
    exact ⟨h.congr hst rfl rfl rfl rfl rfl, rfl⟩

end Device
end SlaveDevice

namespace Node
variable {n : ℕ} {cfg : ConfigurationParser}

/-- **Acknowledgements.** In every state of a run the index is inside the argument buffer, and all
arguments are sent only after cycles of the session have acknowledged them one by one; within a
session a section leaves the index or moves it on by one. -/
theorem acknowledged_in_order {N : Node n} {i : Fin n}
    (h : (N.slots i).dev.Fresh cfg (N.slots i).ec.eepId) (hlen : (N.slots i).dev.argBufLen ≠ 0)
    {es : List (Event n)} {p : Node n × AckHistory}
    (hrun : exec (watchSlave cfg i AckHistory.update) (N, AckHistory.start) es = some p) :
    (p.1.slots i).dev.ArgsInOrder p.2 ∧
      ∀ e q, watchSlave cfg i AckHistory.update p e = some q → ∀ s ∈ sectionOf p.1 e i,
        s.Advances (p.1.slots i).dev (q.1.slots i).dev := by
  have hinv : (p.1.slots i).dev.Acknowledging (p.1.slots i).ec.eepId p.2 := by
    refine exec_invariant (fun p : Node n × AckHistory =>
      (p.1.slots i).dev.Acknowledging (p.1.slots i).ec.eepId p.2) ?_ (h.acknowledging hlen) hrun
    intro p e q hp hstep
    obtain ⟨heep, ⟨-, hdev, hg⟩ | ⟨s, hs, hdev, hg⟩⟩ := watchSlave_some hstep
    · rw [heep, hdev, hg]
      exact hp
    · rw [heep, hdev, hg]
      exact (hp.run (sectionOf_onModule hs)).1
  refine ⟨hinv.argsInOrder, fun e q hstep s hs => ?_⟩
  obtain ⟨-, ⟨hnone, -, -⟩ | ⟨s', hs', hdev, -⟩⟩ := watchSlave_some hstep
  · rw [hnone] at hs
    cases hs
  · obtain rfl : s' = s := Option.some.inj (hs'.symm.trans hs)
    rw [hdev]
    exact (hinv.run (sectionOf_onModule hs')).2

/-- The DSHOT board after its six arguments. -/
theorem acknowledged_in_order_dshot :
    ∃ p, exec (watchSlave SlaveDevice.dshotConfig 0 AckHistory.update) (dshotNode, AckHistory.start)
        startUp = some p ∧ (p.1.slots 0).dev.isArgSent = true ∧
      (p.1.slots 0).dev.ArgsInOrder p.2 := by
  have hsome : ((exec (watchSlave SlaveDevice.dshotConfig 0 AckHistory.update)
      (dshotNode, AckHistory.start) startUp).any fun p => (p.1.slots 0).dev.isArgSent) = true := by
    decide +kernel
  obtain ⟨p, hp, hsent⟩ := (Option.any_eq_true _ _).mp hsome
  exact ⟨p, hp, hsent, (acknowledged_in_order SlaveDevice.dshotDevice_configured.fresh
    (by decide) hp).1⟩

end Node
end EcatMaster
