import EcatMaster.Properties.BufferEvents

/-! # Keep Last across an outage

A command that arrives while its slave is lost, or while the arguments are sent again, goes into the
live buffer. The READY branch that ends the outage rewrites that buffer from the snapshot of the loss,
which is older than the command. The command stays until then if there is no snapshot, and if no argument
is written over its region after it (`Unwritten`).
-/

namespace EcatMaster
set_option autoImplicit false
open ByteBuf EventRun

/-- A task at position `k` of a list, whose command range meets no other task's. -/
structure DisjointTask (tasks : List TaskWrapper) (k : ℕ) (task : TaskWrapper) : Prop where
  mem : tasks[k]? = some task
  disjoint : ∀ k' other, k' ≠ k → tasks[k']? = some other →
    task.pdowriteOffset.toNat + task.commandLength ≤ other.pdowriteOffset.toNat ∨
      other.pdowriteOffset.toNat + other.commandLength ≤ task.pdowriteOffset.toNat

/-- An outage of the slave, the last command of the task if it came during one, and whether its region has
been cleared or written by `send_arg` since. -/
structure Outage where
  out : Bool
  command : Option (List UInt8)
  exited : Bool
  spoiled : Bool
deriving DecidableEq

namespace Outage

def start : Outage := ⟨false, none, false, false⟩

/-- Arguments go into the first three bytes. -/
def spoiledAfter (task : TaskWrapper) (g : Outage) : BufEvent → Bool
  | .cleared => true
  | .argument => g.spoiled || decide (task.pdowriteOffset.toNat < 3)
  | _ => g.spoiled

/-- An outage lasts from the loss, or the `pre_recover` that restarts the arguments, to the READY
branch, or to a `recover_state` that finds the session done. -/
def update (cfg : ConfigurationParser) (k : ℕ) (task : TaskWrapper) (g : Outage) (d : SlaveDevice) :
    Section → Outage
  | .lost => { g with out := true, command := none }
  | .preRecover => { g with out := true }
  | .recoverState => { g with out := !decide d.SessionDone }
  | .process t =>
      { g with
        out := g.out && !decide d.ByReadyBranch
        spoiled := g.spoiledAfter task (d.bufEvent cfg (.process t)) }
  | .command k' msg =>
      if k' = k then
        { g with
          command := if g.out && !g.exited then d.taskList[k]?.bind fun task => task.encode msg
            else none
          spoiled := false }
      else g
  | .init eepId snRead swRevStr =>
      { g with spoiled := g.spoiledAfter task (d.bufEvent cfg (.init eepId snRead swRevStr)) }
  | .exitReset => ⟨false, none, true, false⟩
  | _ => g

end Outage

namespace Section
open SlaveDevice

/-- The region of `task` in `buf` holds `bytes`. -/
def Holds (task : TaskWrapper) (bytes buf : List UInt8) : Prop :=
  window buf task.pdowriteOffset.toNat bytes.length = bytes

instance (task : TaskWrapper) (bytes buf : List UInt8) : Decidable (Holds task bytes buf) :=
  inferInstanceAs (Decidable (_ = _))

/-- Every frame with a ready status carries the command. -/
def FramesCommand (task : TaskWrapper) (d : SlaveDevice) (g : Outage) : Section → Prop
  | .transfer => ∀ bytes ∈ g.command, MASTER_READY ≤ d.masterStatus →
      window d.transferToSlave (task.pdowriteOffset.toNat + 1) bytes.length = bytes
  | _ => True

instance (task : TaskWrapper) (d : SlaveDevice) (g : Outage) :
    DecidablePred (FramesCommand task d g)
  | .transfer => Option.decidableForallMem _
  | .receive _ | .exitReset | .process _ | .command _ _ | .preRecover | .init _ _ _ | .resetState
  | .lost | .recoverState => .isTrue trivial

/-- With a command of the outage, a READY branch finds no snapshot and writes no init values, and neither it
nor an echo of status 2 nor an `init` announces READY after the region has been written over. The command
range lies inside the buffer. -/
def Unwritten (cfg : ConfigurationParser) (k : ℕ) (task : TaskWrapper) (d : SlaveDevice) (g : Outage) :
    Section → Prop
  | .process _ => g.command.isSome = true →
      (d.ByReadyBranch → d.reconnectedTimes ≠ 0 ∧ ¬ d.HasSnapshot ∧ g.spoiled = false) ∧
      (d.TakesStatusTwo → g.spoiled = false ∧ (d.SendsArg → 3 ≤ task.pdowriteOffset.toNat))
  | .init eepId snRead swRevStr => g.command.isSome = true →
      d.SkipsArguments cfg eepId snRead swRevStr → d.sn ≠ 0 ∧ g.spoiled = false
  | .command k' _ => k' = k → g.out = true → g.exited = false →
      task.pdowriteOffset.toNat + task.commandLength ≤ d.masterToSlaveBufLen
  | _ => True

instance (cfg : ConfigurationParser) (k : ℕ) (task : TaskWrapper) (d : SlaveDevice) (g : Outage) :
    DecidablePred (Unwritten cfg k task d g)
  | .process _ => inferInstanceAs (Decidable (_ → (_ → _ ∧ _ ∧ _) ∧ (_ → _ ∧ (_ → _))))
  | .init _ _ _ => inferInstanceAs (Decidable (_ → _ → _ ∧ _))
  | .command _ _ => inferInstanceAs (Decidable (_ → _ → _ → _))
  | .receive _ | .exitReset | .transfer | .preRecover | .resetState | .lost | .recoverState =>
      .isTrue trivial

end Section

namespace SlaveDevice
open Section

/-- What holds of a command of the outage: it is in its region until that is written over, which only
happens in an argument transfer. -/
structure Remembers (task : TaskWrapper) (d : SlaveDevice) (spoiled : Bool) (bytes : List UInt8) : Prop where
  length : bytes.length = task.commandLength
  fits : task.pdowriteOffset.toNat + task.commandLength ≤ d.masterToSlaveBufLen
  holds : spoiled = false → Holds task bytes d.m2s
  sending : d.masterStatus ≠ MASTER_SENDING_ARGUMENTS → spoiled = false

/-- The invariant of Keep Last, on top of the memory of the buffers. -/
structure KeepInv (eepId : UInt32) (tasks : List TaskWrapper) (task : TaskWrapper)
    (d : SlaveDevice) (g : Outage) : Prop where
  storage : Storage eepId d
  taskList : d.taskList = tasks
  command : ∀ bytes ∈ g.command, Remembers task d g.spoiled bytes

section Task
variable {cfg : ConfigurationParser} {eepId : UInt32} {tasks : List TaskWrapper} {k : ℕ}
variable {task : TaskWrapper} {d e : SlaveDevice} {g : Outage} {bytes : List UInt8}

theorem Remembers.of_eq {spoiled : Bool} (h : Remembers task d spoiled bytes)
    (hl : e.masterToSlaveBufLen = d.masterToSlaveBufLen) (hs : e.masterStatus = d.masterStatus)
    (hm : e.m2s = d.m2s) : Remembers task e spoiled bytes where
  length := h.length
  fits := by rw [hl]; exact h.fits
  holds ho := by rw [hm]; exact h.holds ho
  sending hne := h.sending (hs ▸ hne)

theorem holds_put_other {other : TaskWrapper} {buf written : List UInt8} {k' : ℕ}
    (hd : DisjointTask tasks k task) (hk : k' ≠ k) (hother : tasks[k']? = some other)
    (hwritten : written.length = other.commandLength) (hlen : bytes.length = task.commandLength)
    (h : Holds task bytes buf) :
    Holds task bytes (put buf other.pdowriteOffset.toNat written) := by
  unfold Holds at h ⊢
  rw [window_put_disjoint, h]
  obtain hle | hle := hd.disjoint k' other hk hother
  · left
    omega
  · right
    omega

/-- Behind an event that neither rewrites the whole buffer nor is a command, the region still holds what
it held, unless it is written over. -/
theorem holds_leaves {s : Section} {ev : BufEvent} {buf : List UInt8} (h : d.Leaves s buf ev)
    (hev : ev = .kept ∨ ev = .argument ∨ ev = .cleared) (hr : g.spoiled = false → Holds task bytes d.m2s)
    (hunspoiled : g.spoiledAfter task ev = false) : Holds task bytes buf := by
  obtain rfl | rfl | rfl := hev
  · have hbuf : buf = d.m2s := h
    rw [hbuf]
    exact hr hunspoiled
  · obtain ⟨arg, harg, rfl⟩ := h
    obtain ⟨hunspoiled, hoff⟩ := Bool.or_eq_false_iff.mp hunspoiled
    have hlen := sentArg_length harg
    have hthree := of_decide_eq_false hoff
    have hr := hr hunspoiled
    unfold Holds at hr ⊢
    rw [window_put_disjoint _ _ _ _ _ (Or.inr (by omega)), hr]
  · cases hunspoiled

theorem remembers_process {t : ℤ} (hst : Storage eepId d) (hg : g.command.isSome = true)
    (h : Remembers task d g.spoiled bytes) (hc : (Section.process t).Unwritten cfg k task d g) :
    Remembers task (d.processSection t) (g.spoiledAfter task (d.bufEvent cfg (.process t))) bytes := by
  have kept := kept_processSection t d
  obtain ⟨hready, htwo⟩ := hc hg
  have hleaves := leaves_process cfg hst t
  have hevent : d.bufEvent cfg (.process t) = .kept ∨
      d.bufEvent cfg (.process t) = .argument ∧ ¬ d.ByReadyBranch ∧ d.SendsArg := by
    rw [bufEvent_process]
    by_cases hb : d.ByReadyBranch
    · obtain ⟨ht, hsnap, -⟩ := hready hb
      rw [if_pos hb, if_neg ht, if_neg hsnap]
      exact Or.inl rfl
    · rw [if_neg hb]
      split
      · next hsa => exact Or.inr ⟨rfl, hb, hsa.2⟩
      · exact Or.inl rfl
  refine ⟨h.length, by rw [kept.len]; exact h.fits, fun hunspoiled => ?_, fun hne => ?_⟩
  · exact holds_leaves hleaves (hevent.imp_right fun hev => Or.inl hev.1) h.holds hunspoiled
  · have hunspoiled : g.spoiled = false ∧ (d.SendsArg → ¬ d.ByReadyBranch → 3 ≤ task.pdowriteOffset.toNat) := by
      by_cases h2 : d.masterStatus = MASTER_SENDING_ARGUMENTS
      · obtain ⟨-, hb⟩ | ⟨-, -, htwo'⟩ | ⟨_, _, _, hs, -⟩ :=
          run_leavesSending cfg (s := .process t) hst h2 hne
        · exact ⟨(hready hb).2.2, fun _ hb' => absurd hb hb'⟩
        · obtain ⟨hunspoiled, hoff⟩ := htwo htwo'
          exact ⟨hunspoiled, fun hsa _ => hoff hsa⟩
        · cases hs
      · exact ⟨h.sending h2, fun hsa => absurd hsa.1 h2⟩
    obtain hev | ⟨hev, hb, hsa⟩ := hevent
    · rw [hev]
      exact hunspoiled.1
    · rw [hev]
      exact Bool.or_eq_false_iff.mpr
        ⟨hunspoiled.1, decide_eq_false (Nat.not_lt.mpr (hunspoiled.2 hsa hb))⟩

theorem remembers_command (hd : DisjointTask tasks k task) (hI : KeepInv eepId tasks task d g)
    (k' : ℕ) (msg : Command) (hc : (Section.command k' msg).Unwritten cfg k task d g)
    (hg : bytes ∈ (g.update cfg k task d (.command k' msg)).command) :
    Remembers task ((Section.command k' msg).run cfg d)
      (g.update cfg k task d (.command k' msg)).spoiled bytes := by
  have hrun : (Section.command k' msg).run cfg d = (d.onCommand k' msg).getD d := rfl
  rw [hrun, onCommand_eq, hI.taskList]
  by_cases hk : k' = k
  · subst hk
    simp only [Outage.update, if_true, hI.taskList, hd.mem, Option.bind_some] at hg ⊢
    split at hg
    · next hout =>
      obtain ⟨hout, hex⟩ := Bool.and_eq_true_iff.mp hout
      have hfits := hc rfl hout ((Bool.not_eq_true' _).mp hex)
      rw [show task.encode msg = some bytes from hg]
      have hlen := task.encode_length msg bytes hg
      refine ⟨hlen, hfits, fun _ => ?_, fun _ => rfl⟩
      show window (put d.m2s _ bytes) _ _ = bytes
      refine window_put_self _ _ _ ?_
      rw [hI.storage.m2s, hlen]
      exact hfits
    · cases hg
  · simp only [Outage.update, if_neg hk] at hg ⊢
    have h := hI.command bytes hg
    cases hother : tasks[k']? with
    | none => exact h
    | some other =>
      rw [Option.bind_some]
      cases henc : other.encode msg with
      | none => exact h
      | some written =>
        refine ⟨h.length, h.fits, fun hunspoiled => ?_, h.sending⟩
        exact holds_put_other hd hk hother (other.encode_length msg written henc) h.length
          (h.holds hunspoiled)

theorem remembers_init (hst : Storage eepId d) (hg : g.command.isSome = true)
    (h : Remembers task d g.spoiled bytes) (snRead : Option UInt32) (swRevStr : List UInt8)
    (hc : (Section.init eepId snRead swRevStr).Unwritten cfg k task d g) :
    Remembers task (d.init cfg eepId snRead swRevStr).2
      (g.spoiledAfter task (d.bufEvent cfg (.init eepId snRead swRevStr))) bytes := by
  have hlen : (d.init cfg eepId snRead swRevStr).2.masterToSlaveBufLen = d.masterToSlaveBufLen :=
    (hst.init snRead swRevStr).m2sLen.trans hst.m2sLen.symm
  have hevent : d.bufEvent cfg (.init eepId snRead swRevStr) = .kept ∨
      d.bufEvent cfg (.init eepId snRead swRevStr) = .cleared := by
    rw [bufEvent_init]
    split
    · exact Or.inr rfl
    · exact Or.inl rfl
  refine ⟨h.length, by rw [hlen]; exact h.fits, fun hunspoiled => ?_, fun hne => ?_⟩
  · exact holds_leaves (leaves_init cfg hst snRead swRevStr) (hevent.imp_right Or.inr) h.holds hunspoiled
  · rw [bufEvent_init]
    obtain ⟨hrefuses, hs⟩ | ⟨hacc, sdoLen, hzero, hs⟩ := init_masterStatus cfg eepId snRead swRevStr d
    · rw [if_neg fun hacc => hrefuses hacc.1]
      exact h.sending (hs ▸ hne)
    · have h0 : sdoLen = 0 := by
        by_contra h0
        rw [if_neg h0] at hs
        exact hne hs
      obtain ⟨hsn, hunspoiled⟩ := hc hg ⟨hacc, h0 ▸ hzero⟩
      rw [if_neg fun hacc => hsn hacc.2]
      exact hunspoiled

theorem keepInv_run {s : Section} (hd : DisjointTask tasks k task) (hs : Node.OnModule eepId s)
    (hI : KeepInv eepId tasks task d g) (hc : s.Unwritten cfg k task d g) :
    KeepInv eepId tasks task (s.run cfg d) (g.update cfg k task d s) := by
  refine ⟨hI.storage.run hs, (run_taskList cfg s d).trans hI.taskList, ?_⟩
  intro bytes hg
  cases s with
  | receive inputs => exact (hI.command bytes hg).of_eq rfl rfl rfl
  | process t =>
    have hsome : g.command.isSome = true := Option.isSome_of_mem hg
    exact remembers_process hI.storage hsome (hI.command bytes hg) hc
  | exitReset => cases hg
  | transfer => exact hI.command bytes hg
  | command k' msg => exact remembers_command hd hI k' msg hc hg
  | preRecover | resetState | recoverState => exact (hI.command bytes hg).of_eq rfl rfl rfl
  | init eep snRead swRevStr =>
    obtain rfl : eep = eepId := hs
    have hsome : g.command.isSome = true := Option.isSome_of_mem hg
    exact remembers_init hI.storage hsome (hI.command bytes hg) snRead swRevStr hc
  | lost => cases hg

end Task

theorem framesCommand {eepId : UInt32} {tasks : List TaskWrapper} {task : TaskWrapper}
    {d : SlaveDevice} {g : Outage} (hI : KeepInv eepId tasks task d g)
    (s : Section) : FramesCommand task d g s := by
  cases s with
  | transfer =>
    intro bytes hg hms
    have h := hI.command bytes hg
    have hne : d.masterStatus ≠ MASTER_SENDING_ARGUMENTS := by
      intro h2
      rw [h2] at hms
      exact absurd hms (by decide)
    have hholds := h.holds (h.sending hne)
    unfold Holds at hholds
    refine Eq.trans ?_ hholds
    unfold transferToSlave
    rw [← hI.storage.m2s, List.take_length]
    rfl
  | _ => trivial

end SlaveDevice

namespace Node
variable {n : ℕ}

/-- **Keep Last.** In every run in which a command of an outage is not followed by a READY branch with an
older snapshot or with init values, nor by arguments in its region, each frame with a ready status after it
carries that command. -/
theorem keepLast {cfg : ConfigurationParser} {N : Node n} (h : Initial cfg N) (i : Fin n) {k : ℕ}
    {task : TaskWrapper} (hd : DisjointTask (N.slots i).dev.taskList k task) {es : List (Event n)}
    (hc : Along (watchSlave cfg i (Outage.update cfg k task))
      (OnSection i (Section.Unwritten cfg k task)) (N, Outage.start) es) :
    Along (watchSlave cfg i (Outage.update cfg k task)) (OnSection i (Section.FramesCommand task))
      (N, Outage.start) es := by
  have hstart : SlaveDevice.KeepInv (N.slots i).ec.eepId (N.slots i).dev.taskList task
      (N.slots i).dev Outage.start := by
    refine ⟨(h.configured i).fresh.storage, rfl, fun bytes hg => ?_⟩
    cases hg
  refine along_sections (SlaveDevice.KeepInv (N.slots i).ec.eepId (N.slots i).dev.taskList task)
    ?_ hstart hc
  intro d g s hs hI hkeep
  exact ⟨SlaveDevice.framesCommand hI s, SlaveDevice.keepInv_run hd hs hI hkeep⟩

theorem dshotTask_disjoint :
    DisjointTask (dshotNode.slots 0).dev.taskList 0 SlaveDevice.dshotTask where
  mem := rfl
  disjoint k' other hk hother := by
    have hlt := (List.getElem?_eq_some_iff.mp hother).1
    exact absurd (Nat.lt_one_iff.mp hlt) hk

def stopMotors : List (Event 1) := [dshotCommand 48 48 48 48]

/-- The board is lost, told to stop, and found again without a restart. -/
def stopAndFound : List (Event 1) :=
  startUp ++ throttle ++ loss ++ stopMotors ++
    [.checkPass fun _ => EC_STATE_OPERATIONAL, .checkVisit 0, .checkFound false] ++ turn [4]

theorem keepLast_stopAndFound :
    Along (watchSlave SlaveDevice.dshotConfig 0
        (Outage.update SlaveDevice.dshotConfig 0 SlaveDevice.dshotTask))
      (OnSection 0 (Section.FramesCommand SlaveDevice.dshotTask)) (dshotNode, Outage.start)
      stopAndFound :=
  keepLast dshotNode_initial 0 dshotTask_disjoint (by decide +kernel)

/-- The board restarts and is told to stop while its arguments are sent again. -/
def stopAndRestart : List (Event 1) :=
  startUp ++ throttle ++ loss ++ reconfiguration ++ safeOpPass ++ stopMotors ++ argumentTurns

/-- The frame that ends the outage carries the throttle of before it, not the stop. -/
theorem keepLast_stopAndRestart : Initial SlaveDevice.dshotConfig dshotNode ∧
    DisjointTask (dshotNode.slots 0).dev.taskList 0 SlaveDevice.dshotTask ∧
    SlaveDevice.dshotTask.connectionLostWriteAction ≠ 0x02 ∧
    ¬ Along (watchSlave SlaveDevice.dshotConfig 0
        (Outage.update SlaveDevice.dshotConfig 0 SlaveDevice.dshotTask))
      (OnSection 0 (Section.FramesCommand SlaveDevice.dshotTask)) (dshotNode, Outage.start)
      stopAndRestart :=
  ⟨dshotNode_initial, dshotTask_disjoint, by decide, by decide +kernel⟩

end Node
end EcatMaster
