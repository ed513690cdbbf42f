import EcatMaster.Node.Threads
import EcatMaster.Properties.BufferEvents

/-! # Shutdown

The exit step writes the init values into the buffer of every slave whose arguments are sent, once.
`on_command`, `send_arg`, the READY branch and a loss all still run after it. What the slave is sent
until the data loop stops are the init values as long as `is_arg_sent_` is set at the exit step and none
of these comes in between (`ResetStays`).
-/

namespace EcatMaster
set_option autoImplicit false
open ByteBuf EventRun

/-- READY has been in a frame; the exit step has visited the slave; the init values have been written and
nothing else since; the last snapshot was taken of such a buffer. -/
structure ExitHistory where
  announced : Bool
  exited : Bool
  reset : Bool
  saved : Bool
deriving DecidableEq

namespace TaskWrapper

/-- The `init_value` of the two tasks write different bytes of the buffer. -/
def InitsApart (s t : TaskWrapper) : Prop :=
  s.pdowriteOffset.toNat + s.initBytes.length ≤ t.pdowriteOffset.toNat ∨
    t.pdowriteOffset.toNat + t.initBytes.length ≤ s.pdowriteOffset.toNat

instance : DecidableRel InitsApart := fun _ _ => inferInstanceAs (Decidable (_ ∨ _))

end TaskWrapper

/-- A loss resets only tasks that `write_init_values` resets, and no two tasks share a byte. -/
def LossRepeatsInit (tasks : List TaskWrapper) : Prop :=
  (∀ task ∈ tasks, task.connectionLostWriteAction = 0x02 → task.hasSubscribers = true) ∧
    tasks.Pairwise TaskWrapper.InitsApart

instance (tasks : List TaskWrapper) : Decidable (LossRepeatsInit tasks) :=
  inferInstanceAs (Decidable (_ ∧ _))

namespace ExitHistory

def start : ExitHistory := ⟨false, false, false, false⟩

/-- `reset` behind an event of the buffer. -/
def resetAfter (g : ExitHistory) (d : SlaveDevice) : BufEvent → Bool
  | .kept => g.reset
  | .initValues => true
  | .recovered => g.saved
  | .argument | .command | .cleared => false
  | .lossActions => g.reset && decide (LossRepeatsInit d.taskList)

def update (cfg : ConfigurationParser) (g : ExitHistory) (d : SlaveDevice) (s : Section) :
    ExitHistory where
  announced := g.announced || (s == .transfer && decide (d.masterStatus = MASTER_READY))
  exited := g.exited || s == .exitReset
  reset := g.resetAfter d (d.bufEvent cfg s)
  saved := if s = .lost then g.resetAfter d .lossActions else g.saved

end ExitHistory

namespace SlaveDevice

/-- The buffer `write_init_values` leaves. -/
def exitPayload (d : SlaveDevice) : List UInt8 :=
  initPayload d.taskList d.masterToSlaveBufLen (List.replicate d.masterToSlaveBufLen 0)

/-- A frame of the slave has announced READY, or the next one does. -/
def Announcing (d : SlaveDevice) (g : ExitHistory) : Prop :=
  g.announced = true ∨ d.masterStatus = MASTER_READY

instance (d : SlaveDevice) (g : ExitHistory) : Decidable (d.Announcing g) :=
  inferInstanceAs (Decidable (_ ∨ _))

end SlaveDevice

namespace Section
open SlaveDevice

/-- The frame of a slave that has been in the ready phase carries the init values. -/
def FramesReset (d : SlaveDevice) (g : ExitHistory) : Section → Prop
  | .transfer => d.Announcing g → d.transferToSlave = d.masterStatus :: d.exitPayload
  | _ => True

instance (d : SlaveDevice) (g : ExitHistory) : DecidablePred (FramesReset d g)
  | .transfer => inferInstanceAs (Decidable (_ → _))
  | .receive _ | .exitReset | .process _ | .command _ _ | .preRecover | .init _ _ _ | .resetState
  | .lost | .recoverState => .isTrue trivial

/-- The exit step does not pass over the slave, and after it: no command arrives and no argument is sent, a
READY branch writes the init values or recovers a snapshot of them, an `init` keeps the buffer, and a loss
repeats what the exit step has written. -/
def ResetStays (cfg : ConfigurationParser) (d : SlaveDevice) (g : ExitHistory) : Section → Prop
  | .exitReset => d.Announcing g → d.isArgSent = true ∨ g.reset = true
  | .process _ => g.exited = true →
      (d.ByReadyBranch →
        d.reconnectedTimes = 0 ∨ (if d.HasSnapshot then g.saved else g.reset) = true) ∧
      (d.configured = true → d.SendsArg → g.announced = false) ∧
      (d.TakesStatusTwo → g.reset = true ∧ ¬ d.SendsArg)
  | .command _ _ => g.exited = true → ¬ d.Announcing g
  | .init eepId snRead swRevStr => g.exited = true →
      (g.announced = true → d.InitAccepts cfg eepId snRead swRevStr → d.sn ≠ 0) ∧
      (d.SkipsArguments cfg eepId snRead swRevStr → d.sn ≠ 0 ∧ g.reset = true)
  | .lost => g.exited = true → d.Announcing g → LossRepeatsInit d.taskList
  | _ => True

instance (cfg : ConfigurationParser) (d : SlaveDevice) (g : ExitHistory) :
    DecidablePred (ResetStays cfg d g)
  | .exitReset | .command _ _ => inferInstanceAs (Decidable (_ → _))
  | .process _ => inferInstanceAs (Decidable (_ → (_ → _ ∨ _) ∧ (_ → _ → _) ∧ (_ → _ ∧ _)))
  | .init _ _ _ => inferInstanceAs (Decidable (_ → (_ → _ → _) ∧ (_ → _ ∧ _)))
  | .lost => inferInstanceAs (Decidable (_ → _ → _))
  | .receive _ | .transfer | .preRecover | .resetState | .recoverState => .isTrue trivial

end Section

/-! ## Init values that are written again -/

section Inits
variable {s t : TaskWrapper} {buf : List UInt8}

/-- `init_value` of the task changes nothing. -/
def InitHeld (t : TaskWrapper) (buf : List UInt8) : Prop := t.initValue buf = buf

theorem initHeld_self (t : TaskWrapper) (buf : List UInt8) : InitHeld t (t.initValue buf) := by
  unfold InitHeld
  rw [TaskWrapper.initValue_eq, TaskWrapper.initValue_eq]
  exact List.ext_getElem? fun i => put_getElem?_twice _ _ _ i

theorem InitHeld.initValue (h : InitHeld t buf) (ha : s.InitsApart t) :
    InitHeld t (s.initValue buf) := by
  unfold InitHeld at h ⊢
  rw [TaskWrapper.initValue_eq, TaskWrapper.initValue_eq] at *
  apply List.ext_getElem?
  intro i
  by_cases hi : i < t.pdowriteOffset.toNat ∨ t.pdowriteOffset.toNat + t.initBytes.length ≤ i
  · exact put_getElem?_outside _ _ _ _ hi
  · have hout := put_getElem?_outside buf s.pdowriteOffset.toNat s.initBytes i (by
      unfold TaskWrapper.InitsApart at ha
      omega)
    rw [put_getElem?_congr hout, h, hout]

theorem initHeld_foldl (tasks : List TaskWrapper) (h : InitHeld t buf)
    (ha : ∀ s ∈ tasks, s.InitsApart t) :
    InitHeld t (tasks.foldl
      (fun buf task => if task.hasSubscribers then task.initValue buf else buf) buf) := by
  induction tasks generalizing buf with
  | nil => exact h
  | cons s tasks ih =>
    rw [List.foldl_cons]
    refine ih ?_ fun s' hs' => ha s' (List.mem_cons_of_mem s hs')
    split
    · exact h.initValue (ha s List.mem_cons_self)
    · exact h

theorem initHeld_initPayload {tasks : List TaskWrapper} (hp : tasks.Pairwise TaskWrapper.InitsApart)
    (ht : t ∈ tasks) (hsub : t.hasSubscribers = true) (len : ℕ) (buf : List UInt8) :
    InitHeld t (SlaveDevice.initPayload tasks len buf) := by
  unfold SlaveDevice.initPayload
  generalize put buf 0 (List.replicate len 0) = buf
  induction tasks generalizing buf with
  | nil => cases ht
  | cons s tasks ih =>
    obtain ⟨hs, htail⟩ := List.pairwise_cons.mp hp
    rw [List.foldl_cons]
    obtain rfl | ht := List.mem_cons.mp ht
    · rw [if_pos hsub]
      exact initHeld_foldl tasks (initHeld_self t buf) fun s' hs' => Or.symm (hs s' hs')
    · exact ih htail ht _

theorem lostPayload_initPayload {tasks : List TaskWrapper} (h : LossRepeatsInit tasks) (len : ℕ)
    (buf : List UInt8) : SlaveDevice.lostPayload tasks (SlaveDevice.initPayload tasks len buf) =
      SlaveDevice.initPayload tasks len buf := by
  have hheld : ∀ task ∈ tasks, task.connectionLostWriteAction = 0x02 →
      InitHeld task (SlaveDevice.initPayload tasks len buf) :=
    fun task ht hact => initHeld_initPayload h.2 ht (h.1 task ht hact) len buf
  unfold SlaveDevice.lostPayload
  generalize SlaveDevice.initPayload tasks len buf = buf at hheld ⊢
  clear h
  induction tasks with
  | nil => rfl
  | cons t tasks ih =>
    have hstep : (if t.connectionLostWriteAction = 0x02 then t.initValue buf else buf) = buf := by
      split
      · next hact => exact hheld t List.mem_cons_self hact
      · rfl
    rw [List.foldl_cons, hstep]
    exact ih fun task ht => hheld task (List.mem_cons_of_mem t ht)

end Inits

namespace SlaveDevice
section Device
variable {eepId : UInt32} {d e : SlaveDevice} {g : ExitHistory}

theorem initPayload_eq_exitPayload (h : d.m2s.length = d.masterToSlaveBufLen) :
    initPayload d.taskList d.masterToSlaveBufLen d.m2s = d.exitPayload := by
  have hfull (buf : List UInt8) (hbuf : buf.length = d.masterToSlaveBufLen) :
      put buf 0 (List.replicate d.masterToSlaveBufLen 0) =
        List.replicate d.masterToSlaveBufLen 0 :=
    put_full _ _ (by rw [List.length_replicate, hbuf])
  unfold exitPayload initPayload
  rw [hfull _ h, hfull _ List.length_replicate]

theorem exitPayload_length (d : SlaveDevice) :
    d.exitPayload.length = d.masterToSlaveBufLen := by
  unfold exitPayload
  rw [initPayload_length, List.length_replicate]

theorem exitPayload_congr (ht : e.taskList = d.taskList)
    (hl : e.masterToSlaveBufLen = d.masterToSlaveBufLen) : e.exitPayload = d.exitPayload := by
  unfold exitPayload
  rw [ht, hl]

theorem nextStatus_eq_ready {status : UInt8} (h : nextStatus status = MASTER_READY) :
    status = MASTER_SENDING_ARGUMENTS := by
  unfold nextStatus at h
  split at h
  · exact absurd h (by decide)
  · have hsucc : status + 1 = MASTER_SENDING_ARGUMENTS + 1 := h
    exact (UInt8.add_left_inj 1).mp hsucc

/-- The history tells the bytes, and after the exit step a slave that announces READY, or has, is reset. -/
structure Reset (eepId : UInt32) (d : SlaveDevice) (g : ExitHistory) : Prop where
  storage : Storage eepId d
  reset : g.reset = true → d.m2s = d.exitPayload
  saved : g.saved = true → d.masterToSlaveBufBackup = d.exitPayload
  announced : g.exited = true → d.Announcing g → g.reset = true

theorem resetAfter_payload (cfg : ConfigurationParser) {s : Section} (hs : Node.OnModule eepId s)
    (h : Reset eepId d g) (hreset : g.resetAfter d (d.bufEvent cfg s) = true) :
    (s.run cfg d).m2s = d.exitPayload := by
  have hleaves := leaves_run cfg hs h.storage
  generalize d.bufEvent cfg s = e at hleaves hreset
  cases e with
  | kept => exact Eq.trans hleaves (h.reset hreset)
  | initValues => exact Eq.trans hleaves (initPayload_eq_exitPayload h.storage.m2s)
  | recovered => exact Eq.trans hleaves (h.saved hreset)
  | argument | command | cleared => cases hreset
  | lossActions =>
    obtain ⟨hr, hl⟩ := Bool.and_eq_true_iff.mp hreset
    have hlost : (s.run cfg d).m2s = lostPayload d.taskList d.m2s := hleaves
    rw [hlost, h.reset hr]
    exact lostPayload_initPayload (of_decide_eq_true hl) _ _

/-! ## What keeps the slave reset -/

section Sections
variable {cfg : ConfigurationParser}

theorem resetAfter_process {t : ℤ} (h : Reset eepId d g)
    (hc : (Section.process t).ResetStays cfg d g) (hex : g.exited = true)
    (hann : (d.processSection t).Announcing g) :
    g.resetAfter d (d.bufEvent cfg (.process t)) = true := by
  obtain ⟨hready, hsend, htwo⟩ := hc hex
  rw [bufEvent_process]
  by_cases hb : d.ByReadyBranch
  · rw [if_pos hb]
    by_cases ht : d.reconnectedTimes = 0
    · rw [if_pos ht]
      rfl
    · have hsource := (hready hb).resolve_left ht
      rw [if_neg ht]
      by_cases hsnap : d.HasSnapshot
      · rw [if_pos hsnap] at hsource ⊢
        exact hsource
      · rw [if_neg hsnap] at hsource ⊢
        exact hsource
  · rw [if_neg hb]
    have hstays : g.reset = true ∧ ¬ (d.configured = true ∧ d.SendsArg) := by
      obtain hs | ⟨hc', hr, heq, hnext⟩ :=
        (d.processSection_summary t h.storage.m2s).resolve_left (fun hcon => hb hcon.1) |>.2.2
      · refine ⟨h.announced hex (hann.imp_right fun h3 => hs.symm.trans h3), fun hsa => ?_⟩
        obtain hann | h3 := hann
        · rw [hsend hsa.1 hsa.2] at hann
          cases hann
        · have h2 := hsa.2.1
          rw [← hs, h3] at h2
          exact absurd h2 (by decide)
      · obtain hann | h3 := hann
        · refine ⟨h.announced hex (Or.inl hann), fun hsa => ?_⟩
          rw [hsend hsa.1 hsa.2] at hann
          cases hann
        · have h2 := nextStatus_eq_ready (hnext.symm.trans h3)
          have hslave := heq.trans h2
          rw [confirmReady_isReady_of_two hslave] at hr
          obtain ⟨hreset, hns⟩ := htwo ⟨hc', hr, h2, hslave⟩
          exact ⟨hreset, fun hsa => hns hsa.2⟩
    rw [if_neg hstays.2]
    exact hstays.1

theorem resetAfter_init {snRead : Option UInt32} {swRevStr : List UInt8} (h : Reset eepId d g)
    (hc : (Section.init eepId snRead swRevStr).ResetStays cfg d g) (hex : g.exited = true)
    (hann : (d.init cfg eepId snRead swRevStr).2.Announcing g) :
    g.resetAfter d (d.bufEvent cfg (.init eepId snRead swRevStr)) = true := by
  obtain ⟨hkeep, hskip⟩ := hc hex
  rw [bufEvent_init]
  have hstays : g.reset = true ∧ ¬ (d.InitAccepts cfg eepId snRead swRevStr ∧ d.sn = 0) := by
    obtain ⟨hrefuses, hs⟩ | ⟨hacc, sdoLen, hlen, hs⟩ := init_masterStatus cfg eepId snRead swRevStr d
    · refine ⟨h.announced hex (hann.imp_right fun h3 => hs.symm.trans h3), fun hacc => ?_⟩
      exact hrefuses hacc.1
    · obtain hann | h3 := hann
      · exact ⟨h.announced hex (Or.inl hann), fun hacc => hkeep hann hacc.1 hacc.2⟩
      · have hzero : sdoLen = 0 := by
          by_contra h0
          rw [if_neg h0] at hs
          exact absurd (hs.symm.trans h3) (by decide)
        obtain ⟨hsn, hreset⟩ := hskip ⟨hacc, hzero ▸ hlen⟩
        exact ⟨hreset, fun hacc => hsn hacc.2⟩
  rw [if_neg hstays.2]
  exact hstays.1

/-- **One section** that meets `ResetStays` keeps the slave reset. -/
theorem resetAfter_run {s : Section} (hs : Node.OnModule eepId s) (h : Reset eepId d g)
    (hc : s.ResetStays cfg d g) (hex : (g.update cfg d s).exited = true)
    (hann : (s.run cfg d).Announcing (g.update cfg d s)) :
    g.resetAfter d (d.bufEvent cfg s) = true := by
  have hexited (hne : s ≠ .exitReset) : g.exited = true := by
    obtain hex | hex := Bool.or_eq_true_iff.mp hex
    · exact hex
    · exact absurd (eq_of_beq hex) hne
  have hannounced (hne : s ≠ .transfer) : (s.run cfg d).Announcing g := by
    refine hann.imp_left fun h => ?_
    obtain h | h := Bool.or_eq_true_iff.mp h
    · exact h
    · exact absurd (eq_of_beq (Bool.and_eq_true_iff.mp h).1) hne
  cases s with
  | process t => exact resetAfter_process h hc (hexited nofun) (hannounced nofun)
  | exitReset =>
    have hkept : d.Announcing g := by
      obtain ⟨bytes, hd, -⟩ := exitReset_eq cfg d
      have hann := hannounced nofun
      rw [hd] at hann
      exact hann
    have hevent : d.bufEvent cfg .exitReset = if d.isArgSent then .initValues else .kept := rfl
    rw [hevent]
    split
    · rfl
    · next hsent => exact (hc hkept).resolve_left hsent
  | transfer =>
    refine h.announced (hexited nofun) ?_
    obtain hann | h3 := hann
    · obtain hann | hnow := Bool.or_eq_true_iff.mp hann
      · exact Or.inl hann
      · exact Or.inr (of_decide_eq_true (Bool.and_eq_true_iff.mp hnow).2)
    · exact Or.inr h3
  | command k msg =>
    have hkept : d.Announcing g := by
      obtain ⟨bytes, hd, -⟩ := command_eq cfg k msg d
      have hann := hannounced nofun
      rw [hd] at hann
      exact hann
    exact absurd hkept (hc (hexited nofun))
  | init eep snRead swRevStr =>
    obtain rfl : eep = eepId := hs
    exact resetAfter_init h hc (hexited nofun) (hannounced nofun)
  | lost =>
    have hkept : d.Announcing g := hannounced nofun
    have hlost : (g.reset && decide (LossRepeatsInit d.taskList)) = true := by
      rw [h.announced (hexited nofun) hkept, Bool.true_and]
      exact decide_eq_true (hc (hexited nofun) hkept)
    exact hlost
  | receive inputs | preRecover | resetState | recoverState =>
    exact h.announced (hexited nofun) (hannounced nofun)

theorem Reset.run {s : Section} (hs : Node.OnModule eepId s) (h : Reset eepId d g)
    (hc : s.ResetStays cfg d g) : Reset eepId (s.run cfg d) (g.update cfg d s) := by
  have hlen : (s.run cfg d).exitPayload = d.exitPayload := by
    refine exitPayload_congr (run_taskList cfg s d) ?_
    exact (h.storage.run hs).m2sLen.trans h.storage.m2sLen.symm
  refine ⟨h.storage.run hs, fun hreset => ?_, fun hsaved => ?_, resetAfter_run hs h hc⟩
  · rw [hlen]
    exact resetAfter_payload cfg hs h hreset
  · rw [hlen, run_backup cfg h.storage]
    have hsaved' : (if s = .lost then g.resetAfter d .lossActions else g.saved) = true := hsaved
    by_cases hl : s = .lost
    · subst hl
      rw [if_pos rfl] at hsaved' ⊢
      exact resetAfter_payload cfg (s := .lost) trivial h hsaved'
    · rw [if_neg hl] at hsaved' ⊢
      exact h.saved hsaved'

end Sections

theorem framesReset (h : Reset eepId d g) (hex : g.exited = true) (s : Section) :
    s.FramesReset d g := by
  cases s with
  | transfer =>
    intro hann
    unfold transferToSlave
    rw [h.reset (h.announced hex hann), ← exitPayload_length, List.take_length]
  | _ => trivial

end Device
end SlaveDevice

namespace Node
variable {n : ℕ}

/-! ## The exit step visits every slave -/

/-- Slave `i` has been visited by the exit step, if the step has ended or is past it. -/
def ExitVisited (i : Fin n) (N : Node n) (g : ExitHistory) : Prop :=
  (N.exitingResetCalled = true → g.exited = true) ∧
    ∀ k, N.data = .exitReset k → i < k → g.exited = true

/-- The frames of slave `i` after `exiting_reset_called_` has been set. -/
def FramesAfterExit (i : Fin n) (p : Node n × ExitHistory) (e : Event n)
    (q : Node n × ExitHistory) : Prop :=
  p.1.exitingResetCalled = true → OnSection i Section.FramesReset p e q

instance (i : Fin n) (p : Node n × ExitHistory) (e : Event n) (q : Node n × ExitHistory) :
    Decidable (FramesAfterExit i p e q) :=
  inferInstanceAs (Decidable (_ → _))

theorem exited_mono (cfg : ConfigurationParser) (g : ExitHistory) (d : SlaveDevice) (s : Section)
    (h : g.exited = true) : (g.update cfg d s).exited = true := Bool.or_eq_true_iff.mpr (Or.inl h)

theorem exitVisited_step {cfg : ConfigurationParser} {i : Fin n} {p q : Node n × ExitHistory}
    {e : Event n} (h : watchSlave cfg i (ExitHistory.update cfg) p e = some q)
    (hp : ExitVisited i p.1 p.2) : ExitVisited i q.1 q.2 := by
  obtain ⟨hstep, hg⟩ := watch_eq_some.mp h
  have hmono : p.2.exited = true → q.2.exited = true := by
    intro hex
    rw [hg]
    cases sectionOf p.1 e i with
    | none => exact hex
    | some s => exact exited_mono cfg _ _ s hex
  obtain ⟨hcalled, hpast⟩ := hp
  obtain ⟨hdata, hflag⟩ | ⟨hflag, hzero⟩ | ⟨k, hpc, ⟨hk, hdata, hflag, hsec⟩ | ⟨hk, hdata⟩⟩ :=
    exitReset_of_step hstep
  · exact ⟨fun hc => hmono (hcalled (hflag ▸ hc)),
      fun m hm hlt => hmono (hpast m (hdata.symm.trans hm) hlt)⟩
  · refine ⟨fun hc => hmono (hcalled (hflag ▸ hc)), fun m hm hlt => ?_⟩
    rw [hzero m hm] at hlt
    omega
  · refine ⟨fun hc => hmono (hcalled (hflag ▸ hc)), fun m hm hlt => ?_⟩
    rw [hdata] at hm
    cases hm
    by_cases hi : i.val = k
    · obtain rfl : i = ⟨k, hk⟩ := Fin.ext hi
      rw [hg, hsec]
      exact Bool.or_eq_true_iff.mpr (Or.inr rfl)
    · exact hmono (hpast k hpc (by omega))
  · refine ⟨fun _ => hmono (hpast k hpc (by omega)), fun m hm _ => ?_⟩
    rw [hdata] at hm
    cases hm

/-- **Shutdown.** In every run in which the exit step finds the arguments of the slave sent, and after it no
command, argument or older snapshot comes into its buffer, every frame built after `exiting_reset_called_`
for a slave that has been in the ready phase carries the init values. -/
theorem shutdown_frames {cfg : ConfigurationParser} {N : Node n} (h : Initial cfg N) (i : Fin n)
    {es : List (Event n)}
    (hc : Along (watchSlave cfg i (ExitHistory.update cfg))
      (OnSection i fun d g s => s.ResetStays cfg d g) (N, ExitHistory.start) es) :
    Along (watchSlave cfg i (ExitHistory.update cfg)) (FramesAfterExit i) (N, ExitHistory.start) es := by
  refine along_of_invariant (fun p : Node n × ExitHistory =>
    (p.1.slots i).dev.Reset (N.slots i).ec.eepId p.2 ∧
      (p.1.slots i).ec.eepId = (N.slots i).ec.eepId ∧ ExitVisited i p.1 p.2) ?_ ⟨?_, rfl, ?_⟩ hc
  · rintro p e q ⟨hreset, heep, hvisited⟩ hstep hkeeps
    have hvisited' := exitVisited_step hstep hvisited
    obtain ⟨heep', ⟨hs, hdev, hg⟩ | ⟨s, hs, hdev, hg⟩⟩ := watchSlave_some hstep
    · refine ⟨fun _ => onSection_none hs, ?_, heep'.trans heep, hvisited'⟩
      rw [hdev, hg]
      exact hreset
    · have hmod : OnModule (N.slots i).ec.eepId s := heep ▸ sectionOf_onModule hs
      refine ⟨fun hcalled t ht => ?_, ?_, heep'.trans heep, hvisited'⟩
      · exact SlaveDevice.framesReset hreset (hvisited.1 hcalled) t
      · rw [hdev, hg]
        exact hreset.run hmod (hkeeps s hs)
  · exact ⟨(h.configured i).fresh.storage, nofun, nofun, nofun⟩
  · refine ⟨fun hcalled => ?_, fun k hk => ?_⟩
    · rw [h.exitingResetCalled] at hcalled
      cases hcalled
    · rw [h.data] at hk
      cases hk

/-- A turn of the data cycle in which the exit step runs. -/
def exitTurn (inputs : List UInt8) : List (Event 1) :=
  [.dataReceiveProcessdata 3 fun _ => inputs, .dataReceive, .dataReceive, .dataProcess 0,
   .dataProcess 0, .dataExitCheck, .dataExitReset, .dataExitReset, .dataTransfer, .dataTransfer,
   .dataSend]

def shutdownRequest : List (Event 1) := [.rclcppShutdown, .onShutdown]

/-- A running board is shut down. -/
def quietShutdown : List (Event 1) :=
  startUp ++ throttle ++ turn [4] ++ shutdownRequest ++
    exitTurn [5] ++ turn [6]

theorem shutdown_frames_quiet :
    Along (watchSlave SlaveDevice.dshotConfig 0 (ExitHistory.update SlaveDevice.dshotConfig)) (FramesAfterExit 0)
      (dshotNode, ExitHistory.start) quietShutdown :=
  shutdown_frames dshotNode_initial 0 (by decide +kernel)

/-- The board is shut down while its arguments are sent again after a loss. -/
def shutdownInTransfer : List (Event 1) :=
  startUp ++ throttle ++ loss ++ reconfiguration ++
    safeOpPass ++ shutdownRequest ++ exitTurn [1] ++ argumentTurns

/-- The exit step passes the board over; then READY puts the throttle back, and it is sent. -/
theorem shutdown_throttle : Initial SlaveDevice.dshotConfig dshotNode ∧
    ¬ Along (watchSlave SlaveDevice.dshotConfig 0 (ExitHistory.update SlaveDevice.dshotConfig)) (FramesAfterExit 0)
      (dshotNode, ExitHistory.start) shutdownInTransfer ∧
    (exec (step SlaveDevice.dshotConfig) dshotNode shutdownInTransfer).map (fun N =>
      (N.exitingResetCalled, (N.slots 0).ec.outputs.take 9)) =
        some (true, [MASTER_READY, 232, 3, 232, 3, 232, 3, 232, 3]) :=
  ⟨dshotNode_initial, by decide +kernel, by decide +kernel⟩

end Node
end EcatMaster
