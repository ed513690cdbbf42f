import EcatMaster.Properties.Buffers

/-! # One outage

When a ready slave is lost its tasks with write action 0x02 are reset and the buffer is saved. Until
the slave is ready again the buffer carries arguments, but the snapshot stands: the READY branch that
ends the outage restores the saved commands (`outage_restores`), whatever the checker, the argument
transfer and the slave's answers have been in between.
-/

namespace EcatMaster
set_option autoImplicit false
open ByteBuf EventRun

namespace SlaveDevice

/-- The buffer after an outage that began with `B`: `init_value` of exactly the tasks whose write
action is 0x02, in list order. -/
def afterOutage (tasks : List TaskWrapper) (B : List UInt8) : List UInt8 :=
  (tasks.filter fun task => task.connectionLostWriteAction = 0x02).foldl
    (fun buf task => task.initValue buf) B

theorem lostPayload_eq_afterOutage (tasks : List TaskWrapper) (B : List UInt8) :
    lostPayload tasks B = afterOutage tasks B := by
  unfold lostPayload afterOutage
  rw [List.foldl_filter]
  simp only [decide_eq_true_eq]

/-- No task with write action 0x02 has cell `j` in the range of its `init_value`. -/
def Untouched (tasks : List TaskWrapper) (j : ℕ) : Prop :=
  ∀ task ∈ tasks, task.connectionLostWriteAction = 0x02 →
    j < task.pdowriteOffset.toNat ∨ task.pdowriteOffset.toNat + task.initBytes.length ≤ j

theorem afterOutage_untouched (tasks : List TaskWrapper) (B : List UInt8) (j : ℕ)
    (h : Untouched tasks j) : (afterOutage tasks B)[j]? = B[j]? := by
  rw [← lostPayload_eq_afterOutage]
  unfold lostPayload
  induction tasks generalizing B with
  | nil => rfl
  | cons t ts ih =>
    have hts : Untouched ts j := fun task ht => h task (List.mem_cons_of_mem t ht)
    rw [List.foldl_cons, ih _ hts]
    split
    · next hact =>
      rw [TaskWrapper.initValue_eq]
      exact put_getElem?_outside _ _ _ _ (h t List.mem_cons_self hact)
    · rfl

end SlaveDevice

/-- The buffer a ready slave had when it was lost, while its outage lasts: a command to the slave,
the exit reset and a `pre_recover` that wraps `reconnected_times_` end what is said about it. -/
def lostBuffer (g : Option (List UInt8)) (d : SlaveDevice) : Section → Option (List UInt8)
  | .lost => if d.isReady then some d.m2s else none
  | .command _ _ | .exitReset => none
  | .preRecover => if d.reconnectedTimes = 255 then none else g
  | .process _ => if d.ByReadyBranch then none else g
  | _ => g

namespace Section
open SlaveDevice

/-- A READY branch that ends an outage restores the commands of its start. -/
def Restores (cfg : ConfigurationParser) (d : SlaveDevice) (g : Option (List UInt8))
    (s : Section) : Prop :=
  s.isProcess = true → d.ByReadyBranch → ∀ B ∈ g,
    (s.run cfg d).m2s = afterOutage d.taskList B ∧
      ∀ j, Untouched d.taskList j → (s.run cfg d).m2s[j]? = B[j]?

end Section

namespace SlaveDevice

/-- What holds during an outage that began with `B`: the snapshot is taken, and the device processes
data again only after a `pre_recover` or as a ready one. -/
structure InOutage (d : SlaveDevice) (B : List UInt8) : Prop where
  backup : d.masterToSlaveBufBackup = afterOutage d.taskList B
  length : d.masterToSlaveBufBackup.length = d.masterToSlaveBufLen
  recovers : d.isConfRosDone = true → d.isReady = false → d.reconnectedTimes ≠ 0

/-- The outage invariant, on top of the memory of the buffers. -/
def OutageInv (eepId : UInt32) (d : SlaveDevice) (g : Option (List UInt8)) : Prop :=
  Storage eepId d ∧ ∀ B ∈ g, d.InOutage B

theorem InOutage.congr {d e : SlaveDevice} {B : List UInt8} (h : d.InOutage B)
    (hb : e.masterToSlaveBufBackup = d.masterToSlaveBufBackup)
    (hl : e.masterToSlaveBufLen = d.masterToSlaveBufLen) (ht : e.taskList = d.taskList)
    (hr : e.isConfRosDone = true → e.isReady = false → e.reconnectedTimes ≠ 0) :
    e.InOutage B where
  backup := by rw [hb, ht, h.backup]
  length := by rw [hb, hl, h.length]
  recovers := hr

theorem inOutage_lost {eepId : UInt32} {d : SlaveDevice} (h : Storage eepId d) :
    d.lostSection.InOutage d.m2s := by
  have hlost : (lostPayload d.taskList d.m2s).length = d.masterToSlaveBufLen :=
    (lostPayload_length _ _).trans h.m2s
  have hbackup : d.lostSection.masterToSlaveBufBackup = lostPayload d.taskList d.m2s :=
    d.resetState.onConnectionLost.backupMasterToSlaveBuf_backup hlost
  refine ⟨hbackup.trans (lostPayload_eq_afterOutage _ _), ?_, fun hc => ?_⟩
  · rw [hbackup, hlost]
    rfl
  · exact absurd hc Bool.false_ne_true

theorem inOutage_process {d : SlaveDevice} {B : List UInt8} (t : ℤ) (h : d.InOutage B) :
    (d.processSection t).InOutage B := by
  have k := kept_processSection t d
  refine h.congr k.backup k.len k.taskList fun hc hr => ?_
  rw [k.isConfRosDone] at hc
  rw [k.reconnectedTimes]
  refine h.recovers hc ?_
  cases hready : d.isReady with
  | false => rfl
  | true =>
    rw [d.processSection_isReady t hready] at hr
    cases hr

theorem inOutage_preRecover {d : SlaveDevice} {B : List UInt8} (h : d.InOutage B)
    (hwrap : d.reconnectedTimes ≠ 255) : d.preRecover.InOutage B := by
  refine h.congr rfl rfl rfl fun _ _ => ?_
  show d.reconnectedTimes + 1 ≠ 0
  intro h0
  apply hwrap
  have htoNat : (d.reconnectedTimes + 1).toNat = 0 := by
    rw [h0]
    rfl
  have hlt := d.reconnectedTimes.toNat_lt
  rw [UInt8.toNat_add, UInt8.toNat_one] at htoNat
  rw [← UInt8.toNat_inj]
  show d.reconnectedTimes.toNat = 255
  omega

theorem inOutage_init {cfg : ConfigurationParser} {eepId : UInt32} {d : SlaveDevice}
    {B : List UInt8} (hs : Storage eepId d) (h : d.InOutage B) (snRead : Option UInt32)
    (swRevStr : List UInt8) : (d.init cfg eepId snRead swRevStr).2.InOutage B := by
  have k := init_kept cfg eepId snRead swRevStr d
  have hlen : (d.init cfg eepId snRead swRevStr).2.masterToSlaveBufLen = d.masterToSlaveBufLen :=
    (hs.init snRead swRevStr).m2sLen.trans hs.m2sLen.symm
  refine h.congr k.backup hlen k.taskList ?_
  rw [k.isConfRosDone, k.isReady, k.reconnectedTimes]
  exact h.recovers

theorem restores_of_branch {eepId : UInt32} {d : SlaveDevice} {B : List UInt8} (t : ℤ)
    (hs : Storage eepId d) (h : d.InOutage B) (hb : d.ByReadyBranch) :
    (d.processSection t).m2s = afterOutage d.taskList B := by
  obtain ⟨hready, hbefore, hrun⟩ := d.processSection_of_branch t hb
  have k := kept_beforeReady d
  have htimes : d.beforeReady.reconnectedTimes ≠ 0 := by
    rw [k.reconnectedTimes]
    exact h.recovers (Bool.and_eq_true_iff.mp hb.1).1 hready
  have hpayload : d.beforeReady.readyPayload = d.beforeReady.recoverMasterToSlaveBuf := by
    unfold readyPayload
    rw [if_pos hb.2.2, if_neg htimes]
  have hlen : d.beforeReady.masterToSlaveBufBackup.length = d.beforeReady.masterToSlaveBufLen := by
    rw [k.backup, k.len, h.length]
  have hm2s : d.beforeReady.m2s.length = d.beforeReady.masterToSlaveBufLen := (hs.kept k).m2s
  rw [hrun, hpayload]
  show d.beforeReady.recoverMasterToSlaveBuf.m2s = _
  rw [d.beforeReady.recoverMasterToSlaveBuf_m2s hlen hm2s, k.backup, h.backup]

theorem outageInv_run {cfg : ConfigurationParser} {eepId : UInt32} {d : SlaveDevice}
    {g : Option (List UInt8)} {s : Section} (hs : Node.OnModule eepId s)
    (hI : OutageInv eepId d g) : OutageInv eepId (s.run cfg d) (lostBuffer g d s) := by
  obtain ⟨hst, hout⟩ := hI
  refine ⟨hst.run hs, ?_⟩
  cases s with
  | receive inputs =>
    intro B hB
    have h := hout B hB
    exact h.congr rfl rfl rfl h.recovers
  | process t =>
    intro B hB
    have hg : (if d.ByReadyBranch then none else g) = some B := hB
    obtain ⟨-, hg⟩ := Option.ite_none_left_eq_some.mp hg
    exact inOutage_process t (hout B hg)
  | exitReset | command task msg =>
    intro B hB
    cases hB
  | transfer => exact hout
  | preRecover =>
    intro B hB
    have hg : (if d.reconnectedTimes = 255 then none else g) = some B := hB
    obtain ⟨hwrap, hg⟩ := Option.ite_none_left_eq_some.mp hg
    exact inOutage_preRecover (hout B hg) hwrap
  | init eep snRead swRevStr =>
    obtain rfl : eep = eepId := hs
    intro B hB
    exact inOutage_init hst (hout B hB) snRead swRevStr
  | resetState =>
    intro B hB
    refine (hout B hB).congr rfl rfl rfl fun hc => ?_
    exact absurd hc Bool.false_ne_true
  | lost =>
    intro B hB
    have hg : (if d.isReady = true then some d.m2s else none) = some B := hB
    obtain ⟨-, hg⟩ := Option.ite_none_right_eq_some.mp hg
    obtain rfl := Option.some.inj hg
    exact inOutage_lost hst
  | recoverState =>
    intro B hB
    refine (hout B hB).congr rfl rfl rfl fun _ hr => ?_
    cases hr

end SlaveDevice

namespace Node
variable {n : ℕ}

/-- **One outage.** In every run, the READY branch that ends an outage of a ready slave leaves its
buffer as the write actions left it at the loss. -/
theorem outage_restores {cfg : ConfigurationParser} {N : Node n} (h : Initial cfg N) (i : Fin n)
    (es : List (Event n)) :
    Along (watchSlave cfg i lostBuffer) (OnSection i (Section.Restores cfg)) (N, none) es := by
  have hstart : SlaveDevice.OutageInv (N.slots i).ec.eepId (N.slots i).dev none := by
    refine ⟨(h.configured i).fresh.storage, fun B hB => ?_⟩
    cases hB
  refine along_sections_closed (SlaveDevice.OutageInv (N.slots i).ec.eepId) ?_ hstart es
  intro d g s hs hI
  refine ⟨fun hproc hb B hB => ?_, SlaveDevice.outageInv_run hs hI⟩
  cases s with
  | process t =>
    have hrun := SlaveDevice.restores_of_branch t hI.1 (hI.2 B hB) hb
    refine ⟨hrun, fun j hj => ?_⟩
    show (d.processSection t).m2s[j]? = B[j]?
    rw [hrun]
    exact SlaveDevice.afterOutage_untouched d.taskList B j hj
  | _ => cases hproc

/-- A command, a loss, a reconfiguration and a second argument transfer. -/
def outage : List (Event 1) :=
  startUp ++ throttle ++ loss ++ reconfiguration ++
    safeOpPass ++ argumentTurns

theorem outage_restores_dshot :
    Along (watchSlave SlaveDevice.dshotConfig 0 lostBuffer)
      (OnSection 0 (Section.Restores SlaveDevice.dshotConfig)) (dshotNode, none) outage :=
  outage_restores dshotNode_initial 0 outage

example : (exec (step SlaveDevice.dshotConfig) dshotNode outage).map
    (fun N => ((N.slots 0).dev.masterStatus, (N.slots 0).dev.m2s.take 4)) =
      some (MASTER_READY, [232, 3, 232, 3]) := by decide +kernel

end Node
end EcatMaster
