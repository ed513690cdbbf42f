import EcatMaster.Node.Sections

/-! # First initialisation and recovery

The READY branch writes the init values when `reconnected_times_` is 0 and recovers the buffer
otherwise. That counter holds the number of `pre_recover` calls modulo 256, which is neither the
number of ready phases the slave has entered nor decided by it. The history below keeps both, and the
branch does what its comment says exactly in the runs in which they agree on being 0.
-/

namespace EcatMaster
set_option autoImplicit false
open EventRun

/-- What has happened to a slave: a READY branch on its buffer, and so many `pre_recover` calls. -/
structure ReadyHistory where
  fired : Bool
  preRecovers : ℕ
deriving DecidableEq

namespace ReadyHistory

def start : ReadyHistory := ⟨false, 0⟩

def update (g : ReadyHistory) (d : SlaveDevice) : Section → ReadyHistory
  | .preRecover => { g with preRecovers := g.preRecovers + 1 }
  | .process _ => { g with fired := g.fired || decide d.ByReadyBranch }
  | _ => g

end ReadyHistory

namespace SlaveDevice

/-- The two ways of the READY branch, which `readyPayload` tells apart by the same counter. -/
inductive ReadyPath where
  | writeInitValues
  | recoverMasterToSlaveBuf
deriving DecidableEq

def readyPath (d : SlaveDevice) : ReadyPath :=
  if d.reconnectedTimes = 0 then .writeInitValues else .recoverMasterToSlaveBuf

end SlaveDevice

namespace Section

/-- The first READY branch writes the init values and every later one recovers. -/
def FirstInitialises (d : SlaveDevice) (g : ReadyHistory) : Section → Prop
  | .process _ => d.ByReadyBranch →
      d.beforeReady.readyPath = if g.fired then .recoverMasterToSlaveBuf else .writeInitValues
  | _ => True

instance (d : SlaveDevice) (g : ReadyHistory) : DecidablePred (FirstInitialises d g)
  | .process _ => inferInstanceAs (Decidable (_ → _))
  | .receive _ | .exitReset | .transfer | .command _ _ | .preRecover | .init _ _ _ | .resetState
  | .lost | .recoverState => .isTrue trivial

/-- The `pre_recover` calls so far are a multiple of 256 at the first READY branch and no multiple
of 256 at a later one. -/
def CallsMatch (d : SlaveDevice) (g : ReadyHistory) : Section → Prop
  | .process _ => d.ByReadyBranch → (g.fired = true ↔ ¬ 256 ∣ g.preRecovers)
  | _ => True

end Section

namespace SlaveDevice

/-- The counter is the number of calls modulo 256. -/
def CountsCalls (d : SlaveDevice) (g : ReadyHistory) : Prop :=
  d.reconnectedTimes = UInt8.ofNat g.preRecovers

theorem ofNat_eq_zero (k : ℕ) : UInt8.ofNat k = 0 ↔ 256 ∣ k := by
  rw [← UInt8.toNat_inj, UInt8.toNat_ofNat']
  show k % 2 ^ 8 = 0 ↔ 256 ∣ k
  exact (Nat.dvd_iff_mod_eq_zero).symm

theorem countsCalls_run {cfg : ConfigurationParser} {d : SlaveDevice} {g : ReadyHistory}
    (s : Section) (h : d.CountsCalls g) : (s.run cfg d).CountsCalls (g.update d s) := by
  unfold CountsCalls at h ⊢
  cases s with
  | process t =>
    have hkept := (kept_processSection t d).reconnectedTimes
    exact hkept.trans h
  | preRecover =>
    show d.reconnectedTimes + 1 = UInt8.ofNat (g.preRecovers + 1)
    rw [h, UInt8.ofNat_add]
    rfl
  | init eepId snRead swRevStr =>
    have hkept := (init_kept cfg eepId snRead swRevStr d).reconnectedTimes
    exact hkept.trans h
  | exitReset =>
    obtain ⟨bytes, hd, -⟩ := exitReset_eq cfg d
    rw [hd]
    exact h
  | command task msg =>
    obtain ⟨bytes, hd, -⟩ := command_eq cfg task msg d
    rw [hd]
    exact h
  | receive inputs | transfer | resetState | lost | recoverState => exact h

theorem callsMatch_iff {d : SlaveDevice} {g : ReadyHistory} (s : Section) (h : d.CountsCalls g) :
    s.CallsMatch d g ↔ s.FirstInitialises d g := by
  cases s with
  | process t =>
    refine forall_congr' fun _ => ?_
    have hcount : d.beforeReady.reconnectedTimes = 0 ↔ 256 ∣ g.preRecovers := by
      rw [(kept_beforeReady d).reconnectedTimes, h, ofNat_eq_zero]
    unfold readyPath
    by_cases hdvd : 256 ∣ g.preRecovers
    · rw [if_pos (hcount.mpr hdvd)]
      cases g.fired <;> simp [hdvd]
    · rw [if_neg (fun h0 => hdvd (hcount.mp h0))]
      cases g.fired <;> simp [hdvd]
  | _ => exact Iff.rfl

end SlaveDevice

namespace Node
variable {n : ℕ}

/-- **First initialisation.** In a run, the first READY branch of a slave writes the init values and
every later one recovers the buffer, exactly if the numbers of `pre_recover` calls say so. -/
theorem firstReady_iff {cfg : ConfigurationParser} {N : Node n} (h : Initial cfg N) (i : Fin n)
    (es : List (Event n)) :
    Along (watchSlave cfg i ReadyHistory.update) (OnSection i Section.CallsMatch)
        (N, ReadyHistory.start) es ↔
      Along (watchSlave cfg i ReadyHistory.update) (OnSection i Section.FirstInitialises)
        (N, ReadyHistory.start) es := by
  have hstart : (N.slots i).dev.CountsCalls ReadyHistory.start :=
    (h.configured i).fresh.reconnectedTimes
  refine along_sections_iff SlaveDevice.CountsCalls ?_ hstart es
  intro d g s _ hI
  exact ⟨SlaveDevice.callsMatch_iff s hI, fun _ => SlaveDevice.countsCalls_run s hI⟩

theorem firstReady_iff_turn :
    Along (watchSlave SlaveDevice.dshotConfig 0 ReadyHistory.update)
        (OnSection 0 Section.CallsMatch) (dshotNode, ReadyHistory.start)
        (.dataStart :: turn [1, 1, 0, 1]) ↔
      Along (watchSlave SlaveDevice.dshotConfig 0 ReadyHistory.update)
        (OnSection 0 Section.FirstInitialises) (dshotNode, ReadyHistory.start)
        (.dataStart :: turn [1, 1, 0, 1]) :=
  firstReady_iff dshotNode_initial 0 _

/-- The board restarts during its first argument transfer, which then goes through. -/
def earlyRestart : List (Event 1) :=
  .dataStart :: safeOpPass ++ argumentTurns

/-- After a restart in the first transfer the board enters its first ready phase on the recovery
path, without its init values. -/
theorem firstReady_earlyRestart : Initial SlaveDevice.dshotConfig dshotNode ∧
    ¬ Along (watchSlave SlaveDevice.dshotConfig 0 ReadyHistory.update)
      (OnSection 0 Section.FirstInitialises) (dshotNode, ReadyHistory.start) earlyRestart :=
  ⟨dshotNode_initial, by decide +kernel⟩

end Node
end EcatMaster
