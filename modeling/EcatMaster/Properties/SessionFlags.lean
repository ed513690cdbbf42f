import EcatMaster.Node.Sections

/-! # The session flags

`is_ready_` and `is_conf_ros_done_` together should mean that the arguments of the session are sent
and that a ready number is announced (`Coherent`). Four sections can break this: `pre_recover` of a
slave that still counts as ready, `recover_state` and the SLAVE_CONFIRM_READY check before the
arguments are through, and a re-`init` that lowers the status of a ready slave. `RaisesLate` excludes
exactly these steps, and on the runs it describes the flags are coherent throughout.
-/

namespace EcatMaster
set_option autoImplicit false
open EventRun

/-- Every `sdo_len` of the configuration is at least 1. -/
def SdoLenPos (cfg : ConfigurationParser) : Prop :=
  ∀ sn sdoLen, getFieldAs UInt16 cfg (slaveKey sn "sdo_len") = .ok sdoLen → sdoLen ≠ 0

namespace SlaveDevice

def Coherent (d : SlaveDevice) : Prop :=
  d.isReady = true → d.isConfRosDone = true → d.SessionDone

instance (d : SlaveDevice) : Decidable d.Coherent := inferInstanceAs (Decidable (_ → _ → _))

end SlaveDevice

namespace Section
open SlaveDevice

/-- What the session flags promise of one section. -/
def FlagsCoherent (cfg : ConfigurationParser) (d : SlaveDevice) (s : Section) : Prop :=
  (s.run cfg d).Coherent ∧
    (d.masterStatus = MASTER_SENDING_ARGUMENTS →
      (s.run cfg d).masterStatus ≠ MASTER_SENDING_ARGUMENTS →
      s.isProcess = true ∧ d.ByReadyBranch ∧ (s.run cfg d).masterStatus = MASTER_READY)

instance (cfg : ConfigurationParser) (d : SlaveDevice) (s : Section) :
    Decidable (s.FlagsCoherent cfg d) :=
  inferInstanceAs (Decidable (_ ∧ (_ → _ → _ ∧ _ ∧ _)))

/-- The section neither raises the flags before the session is done nor opens a session under a
slave that still counts as ready. -/
def RaisesLate (cfg : ConfigurationParser) (d : SlaveDevice) : Section → Prop
  | .process _ =>
      d.configured = true → d.slaveStatus = SLAVE_CONFIRM_READY → d.isReady = false → d.SessionDone
  | .preRecover => d.isReady = false
  | .recoverState => d.SessionDone
  | .init eepId snRead swRevStr =>
      d.isReady = true → d.isConfRosDone = true → ¬ d.InitAccepts cfg eepId snRead swRevStr
  | _ => True

end Section

namespace SlaveDevice
open Section

theorem ready_le_nextStatus {status : UInt8} (h : MASTER_READY ≤ status) :
    MASTER_READY ≤ nextStatus status := by
  unfold nextStatus
  split
  · decide
  · next hlt =>
    rw [UInt8.le_iff_toNat_le] at h hlt ⊢
    rw [UInt8.toNat_add]
    simp only [MASTER_READY, UInt8.reduceToNat] at h hlt ⊢
    omega

theorem sending_not_ready : ¬ MASTER_READY ≤ MASTER_SENDING_ARGUMENTS := by decide

/-! ## The sections -/

theorem flagsCoherent_of_eq {cfg : ConfigurationParser} {d : SlaveDevice} {s : Section}
    (hI : d.Coherent) (hr : (s.run cfg d).isReady = d.isReady)
    (hc : (s.run cfg d).isConfRosDone = d.isConfRosDone)
    (ha : (s.run cfg d).isArgSent = d.isArgSent)
    (hm : (s.run cfg d).masterStatus = d.masterStatus) : s.FlagsCoherent cfg d := by
  refine ⟨?_, fun h2 hne => absurd (hm.trans h2) hne⟩
  unfold Coherent SessionDone
  rw [hr, hc, ha, hm]
  exact hI

theorem flagsCoherent_of_not_ready {cfg : ConfigurationParser} {d : SlaveDevice} {s : Section}
    (hr : (s.run cfg d).isReady = false) (hm : (s.run cfg d).masterStatus = d.masterStatus) :
    s.FlagsCoherent cfg d := by
  refine ⟨fun h => ?_, fun h2 hne => absurd (hm.trans h2) hne⟩
  rw [hr] at h
  cases h

theorem sending_not_done {d : SlaveDevice} (h : d.masterStatus = MASTER_SENDING_ARGUMENTS) :
    ¬ d.SessionDone := by
  intro hdone
  have hle := hdone.2
  rw [h] at hle
  exact sending_not_ready hle

theorem sendArgIfPending_of_done {d : SlaveDevice} (h : d.SessionDone) :
    d.confirmReady.sendArgIfPending = d.confirmReady := by
  refine sendArgIfPending_of_sent _ ?_
  rw [confirmReady_isArgSent]
  exact h.1

theorem process_ready_done (t : ℤ) (d : SlaveDevice) (hc : d.configured = true)
    (hr : d.confirmReady.isReady = true) (hdone : d.SessionDone) :
    (d.processSection t).SessionDone := by
  have hbefore : d.beforeReady = d.confirmReady := sendArgIfPending_of_done hdone
  rw [d.processSection_of_ready t hc hr, hbefore]
  obtain ⟨-, h⟩ | ⟨-, h⟩ := d.confirmReady.processPdo_cases t
  · rw [h]
    exact ⟨d.confirmReady_isArgSent.trans hdone.1, d.confirmReady_masterStatus ▸ hdone.2⟩
  · rw [h]
    refine ⟨d.confirmReady_isArgSent.trans hdone.1, ?_⟩
    show MASTER_READY ≤ nextStatus d.confirmReady.masterStatus
    rw [confirmReady_masterStatus]
    exact ready_le_nextStatus hdone.2

theorem process_early (t : ℤ) (d : SlaveDevice) (hc : d.configured = true)
    (hs : d.slaveStatus = SLAVE_CONFIRM_READY) (hready : d.isReady = false)
    (hdone : ¬ d.SessionDone) :
    (d.processSection t).isReady = true ∧ ¬ (d.processSection t).SessionDone := by
  have hr : d.confirmReady.isReady = true := by rw [d.confirmReady_of_confirm hs hready]
  rw [d.processSection_of_ready t hc hr]
  have hbefore : d.beforeReady.slaveStatus = SLAVE_CONFIRM_READY :=
    (kept_beforeReady d).slaveStatus.trans hs
  have hms := d.beforeReady_masterStatus
  have hisReady : d.beforeReady.isReady = true := by rw [beforeReady_isReady, hr]
  have hsent : MASTER_READY ≤ d.masterStatus → d.beforeReady.isArgSent = d.isArgSent := by
    intro hle
    unfold beforeReady
    rw [sendArgIfPending_of_status, confirmReady_isArgSent]
    rw [confirmReady_masterStatus]
    intro h2
    rw [h2] at hle
    exact sending_not_ready hle
  obtain ⟨-, h⟩ | ⟨hecho, h⟩ := d.beforeReady.processPdo_cases t
  · rw [h]
    refine ⟨hisReady, fun hcon => hdone ?_⟩
    have hle : MASTER_READY ≤ d.masterStatus := hms ▸ hcon.2
    exact ⟨(hsent hle) ▸ hcon.1, hle⟩
  · rw [h]
    refine ⟨hisReady, fun hcon => hdone ?_⟩
    have h3 : d.masterStatus = MASTER_READY := by
      rw [← hms, ← hecho, hbefore]
      rfl
    have hle : MASTER_READY ≤ d.masterStatus := by
      rw [h3]
      decide
    exact ⟨(hsent hle) ▸ hcon.1, hle⟩

theorem process_waiting (cfg : ConfigurationParser) (t : ℤ) (d : SlaveDevice)
    (hc : d.configured = true) (hr : d.confirmReady.isReady = false) :
    (process t).FlagsCoherent cfg d := by
  have hrun : (process t).run cfg d = d.sendArgIfPending.readyBranch :=
    d.processSection_of_waiting t hc hr
  have hbefore : d.beforeReady = d.sendArgIfPending := by
    unfold beforeReady
    rw [d.confirmReady_of_waiting hr]
  have hready : d.isReady = false := d.confirmReady_of_waiting hr ▸ hr
  refine ⟨fun h => ?_, fun h2 hne => ⟨rfl, ?_⟩⟩
  · rw [hrun, readyBranch_isReady, sendArgIfPending_isReady, hready] at h
    cases h
  rw [hrun] at hne ⊢
  have hstatus : d.sendArgIfPending.masterStatus ≠ MASTER_READY := by
    rw [sendArgIfPending_masterStatus, h2]
    decide
  obtain ⟨-, h⟩ | ⟨-, h3, -⟩ | ⟨hup, -, -, h⟩ | ⟨hup, -, -, h⟩ := d.sendArgIfPending.readyBranch_cases
  · rw [h, sendArgIfPending_masterStatus] at hne
    exact absurd h2 hne
  · exact absurd h3 hstatus
  · exact ⟨⟨hc, hbefore ▸ hup, hbefore ▸ hstatus⟩, by rw [h]⟩
  · exact ⟨⟨hc, hbefore ▸ hup, hbefore ▸ hstatus⟩, by rw [h]⟩

theorem process_flags (cfg : ConfigurationParser) (t : ℤ) (d : SlaveDevice) (hI : d.Coherent) :
    (process t).RaisesLate cfg d ↔ (process t).FlagsCoherent cfg d := by
  cases hc : d.configured with
  | false =>
    have hrun : (process t).run cfg d = d := d.processSection_of_not_configured t hc
    refine iff_of_true (fun h => ?_) (flagsCoherent_of_eq hI ?_ ?_ ?_ ?_)
    · rw [hc] at h
      cases h
    all_goals rw [hrun]
  | true =>
  have hconf : d.isConfRosDone = true := (Bool.and_eq_true_iff.mp hc).1
  cases hr : d.confirmReady.isReady with
  | false =>
    refine iff_of_true (fun _ hs hready => ?_) (process_waiting cfg t d hc hr)
    rw [d.confirmReady_of_confirm hs hready] at hr
    cases hr
  | true =>
    have hflags (hdone : d.SessionDone) : (process t).FlagsCoherent cfg d :=
      ⟨fun _ _ => process_ready_done t d hc hr hdone, fun h2 => absurd hdone (sending_not_done h2)⟩
    cases hready : d.isReady with
    | true =>
      refine iff_of_true (fun _ _ h => ?_) (hflags (hI hready hconf))
      rw [hready] at h
      cases h
    | false =>
      have hs : d.slaveStatus = SLAVE_CONFIRM_READY := by
        obtain h | ⟨hs, -, -⟩ := d.confirmReady_cases
        · rw [h, hready] at hr
          cases hr
        · exact hs
      constructor
      · intro h
        exact hflags (h hc hs hready)
      · intro h _ _ _
        by_contra hdone
        obtain ⟨hisReady, hnot⟩ := process_early t d hc hs hready hdone
        exact hnot (h.1 hisReady ((kept_processSection t d).isConfRosDone.trans hconf))

theorem init_flags {cfg : ConfigurationParser} (hpos : SdoLenPos cfg) (eepId : UInt32)
    (snRead : Option UInt32) (swRevStr : List UInt8) (d : SlaveDevice) (hI : d.Coherent) :
    (Section.init eepId snRead swRevStr).RaisesLate cfg d ↔
      (Section.init eepId snRead swRevStr).FlagsCoherent cfg d := by
  have hk := init_kept cfg eepId snRead swRevStr d
  obtain ⟨h0, hms, -⟩ | ⟨h1, ⟨sn, sdoLen, hlen, hms⟩, -⟩ := init_status cfg eepId snRead swRevStr d
  · have hrefuses : ¬ d.InitAccepts cfg eepId snRead swRevStr := by
      rw [← init_accepts, h0]
      exact Nat.zero_ne_one
    exact iff_of_true (fun _ _ => hrefuses)
      (flagsCoherent_of_eq hI hk.isReady hk.isConfRosDone hk.isArgSent hms)
  · rw [if_neg (hpos sn sdoLen hlen)] at hms
    constructor
    · intro h
      refine ⟨fun hr hc => ?_, fun _ hne => absurd hms hne⟩
      have hrefuses := h (hk.isReady ▸ hr) (hk.isConfRosDone ▸ hc)
      exact absurd ((init_accepts cfg eepId snRead swRevStr d).mp h1) hrefuses
    · intro h hr hc
      have hdone := h.1 (hk.isReady.trans hr) (hk.isConfRosDone.trans hc)
      exact absurd hdone (sending_not_done hms)

/-- On coherent flags, a section keeps what they promise exactly if it does not raise them early. -/
theorem flags_iff {cfg : ConfigurationParser} (hpos : SdoLenPos cfg) (d : SlaveDevice) (s : Section)
    (hI : d.Coherent) : s.RaisesLate cfg d ↔ s.FlagsCoherent cfg d := by
  cases s with
  | receive inputs | transfer =>
    exact iff_of_true trivial (flagsCoherent_of_eq hI rfl rfl rfl rfl)
  | process t => exact process_flags cfg t d hI
  | exitReset =>
    obtain ⟨bytes, h, -⟩ := exitReset_eq cfg d
    refine iff_of_true trivial (flagsCoherent_of_eq hI ?_ ?_ ?_ ?_) <;> rw [h] <;> rfl
  | command task msg =>
    obtain ⟨bytes, h, -⟩ := command_eq cfg task msg d
    refine iff_of_true trivial (flagsCoherent_of_eq hI ?_ ?_ ?_ ?_) <;> rw [h] <;> rfl
  | preRecover =>
    constructor
    · intro h
      exact flagsCoherent_of_not_ready h rfl
    · intro h
      by_contra hr
      have hdone := h.1 (Bool.eq_true_of_not_eq_false hr) rfl
      exact absurd hdone.1 Bool.false_ne_true
  | init eepId snRead swRevStr => exact init_flags hpos eepId snRead swRevStr d hI
  | resetState => exact iff_of_true trivial (flagsCoherent_of_not_ready rfl rfl)
  | lost => exact iff_of_true trivial (flagsCoherent_of_not_ready rfl rfl)
  | recoverState =>
    constructor
    · intro h
      exact ⟨fun _ _ => h, fun h2 => absurd h (sending_not_done h2)⟩
    · intro h
      exact h.1 rfl rfl

theorem Fresh.coherent {cfg : ConfigurationParser} {eepId : UInt32} {d : SlaveDevice}
    (h : Fresh cfg eepId d) : d.Coherent := by
  intro hr
  rw [h.isReady] at hr
  cases hr

end SlaveDevice

namespace Node
variable {n : ℕ}

/-- **Session flags.** From the setup on, every section of a run keeps the flags coherent, and
leaves SENDING_ARGUMENTS only through the READY branch, exactly if no section of the run raises the
flags early. -/
theorem sessionFlags_iff {cfg : ConfigurationParser} {N : Node n} (h : Initial cfg N)
    (hpos : SdoLenPos cfg) (i : Fin n) (es : List (Event n)) :
    Along (step cfg) (OnSlave i fun d s => s.RaisesLate cfg d) N es ↔
      Along (step cfg) (OnSlave i fun d s => s.FlagsCoherent cfg d) N es := by
  refine along_slave_iff SlaveDevice.Coherent ?_ (h.configured i).fresh.coherent es
  intro d s _ hI
  have hiff := SlaveDevice.flags_iff hpos d s hI
  exact ⟨hiff, fun hlate => (hiff.mp hlate).1⟩

theorem dshotConfig_sdoLenPos : SdoLenPos SlaveDevice.dshotConfig := by
  intro sn sdoLen h
  unfold getFieldAs ConfigurationParser.get at h
  cases hf : SlaveDevice.dshotConfig.fields (slaveKey sn "sdo_len") with
  | none =>
    rw [hf] at h
    cases h
  | some v =>
    rw [hf] at h
    cases v with
    | uint16 v =>
      cases h
      exact SlaveDevice.dshotConfig_uint16 _ _ hf
    | _ => cases h

theorem sessionFlags_iff_turn :
    Along (step SlaveDevice.dshotConfig)
        (OnSlave 0 fun d s => s.RaisesLate SlaveDevice.dshotConfig d) dshotNode
        (.dataStart :: turn [1, 1, 0, 1]) ↔
      Along (step SlaveDevice.dshotConfig)
        (OnSlave 0 fun d s => s.FlagsCoherent SlaveDevice.dshotConfig d) dshotNode
        (.dataStart :: turn [1, 1, 0, 1]) :=
  sessionFlags_iff dshotNode_initial dshotConfig_sdoLenPos 0 _

/-- The slave does not answer for one pass and `ec_recover_slave` finds it again. -/
def glimpse : List (Event 1) :=
  [.dataStart, .checkPass fun _ => EC_STATE_NONE, .checkVisit 0, .checkFound true]

/-- A glimpse during the argument transfer makes the slave ready with no argument sent. -/
theorem sessionFlags_glimpse :
    Initial SlaveDevice.dshotConfig dshotNode ∧ SdoLenPos SlaveDevice.dshotConfig ∧
      ¬ Along (step SlaveDevice.dshotConfig)
        (OnSlave 0 fun d s => s.FlagsCoherent SlaveDevice.dshotConfig d) dshotNode glimpse :=
  ⟨dshotNode_initial, dshotConfig_sdoLenPos, by decide +kernel⟩

end Node
end EcatMaster
