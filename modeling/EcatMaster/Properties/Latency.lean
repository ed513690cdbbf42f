import EcatMaster.Node.Sections
import EcatMaster.Slave.Publish

/-! # Latency samples and data stamps

A sample is the time since `last_latency_check_packet_send_time_`, and that time is also the stamp of
the data read with it. `process_pdo` records it when it places the next number in `master_status_`;
`init` and the READY branch place a number too and record nothing. The history says when the current
number was placed and for which placement the recorded time is: the two agree exactly from the second
echo after an `init` or a READY branch on.
-/

namespace EcatMaster
set_option autoImplicit false
open EventRun

/-- The placements of numbers in `master_status_` so far, the cycle of the last one (`none` for `init`,
which runs in no cycle), the placement the recorded time belongs to (`none` for the default time), and
whether an echo was taken since `init` or the READY branch last placed a number. -/
structure StampHistory where
  placements : ℕ
  placedAt : Option ℤ
  recordedFor : Option ℕ
  echoed : Bool
deriving DecidableEq

namespace StampHistory

/-- `init` has placed the first number. -/
def start : StampHistory := ⟨1, none, none, false⟩

/-- `process_pdo` places a number and records the time of its cycle for it. -/
def echo (t : ℤ) (g : StampHistory) : StampHistory :=
  ⟨g.placements + 1, some t, some (g.placements + 1), true⟩

/-- `init` or the READY branch places a number. -/
def place (placedAt : Option ℤ) (g : StampHistory) : StampHistory :=
  { g with placements := g.placements + 1, placedAt := placedAt, echoed := false }

def update (cfg : ConfigurationParser) (g : StampHistory) (d : SlaveDevice) : Section → StampHistory
  | .init eepId snRead swRevStr =>
      if (d.init cfg eepId snRead swRevStr).1 = 1 then g.place none else g
  | .process t =>
      if d.TakesEcho then g.echo t else if d.ExecutesReady then g.place (some t) else g
  | _ => g

end StampHistory

/-- The sample counts from the time `sent`, and the data carry it. -/
def Output.Since (currentTime sent : ℤ) : Output → Prop
  | .latency sample => sample = currentTime - sent
  | .read _ stamp => stamp = sent

instance (currentTime sent : ℤ) : DecidablePred (Output.Since currentTime sent)
  | .latency _ => inferInstanceAs (Decidable (_ = _))
  | .read _ _ => inferInstanceAs (Decidable (_ = _))

namespace Section

/-- What the section publishes counts from the cycle in which the number echoed was placed, and the
time it uses was recorded for that number. -/
def StampsBelong (d : SlaveDevice) (g : StampHistory) : Section → Prop
  | .process t => d.processOutputs t ≠ [] → g.recordedFor = some g.placements ∧
      ∃ sent ∈ g.placedAt, ∀ o ∈ d.processOutputs t, o.Since t sent
  | _ => True

instance (d : SlaveDevice) (g : StampHistory) : DecidablePred (StampsBelong d g)
  | .process _ => inferInstanceAs (Decidable (_ → _ ∧ _))
  | .receive _ | .exitReset | .transfer | .command _ _ | .preRecover | .init _ _ _ | .resetState
  | .lost | .recoverState => .isTrue trivial

/-- The echo is not the first one since `init` or the READY branch placed a number. -/
def EchoedBefore (d : SlaveDevice) (g : StampHistory) : Section → Prop
  | .process _ => d.TakesEcho → g.echoed = true
  | _ => True

end Section

namespace SlaveDevice
variable {d e : SlaveDevice} {g : StampHistory}

/-- The recorded time is that of the last placement exactly from the first echo on. -/
structure RecordsPlaced (d : SlaveDevice) (g : StampHistory) : Prop where
  before : ∀ k ∈ g.recordedFor, k ≤ g.placements
  echoed : g.echoed = true ↔ g.recordedFor = some g.placements
  time : g.echoed = true → g.placedAt = some d.lastLatencyCheckPacketSendTime

theorem recordsPlaced_start (d : SlaveDevice) : RecordsPlaced d StampHistory.start where
  before k hk := by cases hk
  echoed := by decide
  time h := by cases h

theorem RecordsPlaced.congr (h : RecordsPlaced d g)
    (hlast : e.lastLatencyCheckPacketSendTime = d.lastLatencyCheckPacketSendTime) :
    RecordsPlaced e g where
  before := h.before
  echoed := h.echoed
  time := by
    rw [hlast]
    exact h.time

theorem RecordsPlaced.place (h : RecordsPlaced d g) (placedAt : Option ℤ)
    (e : SlaveDevice) : RecordsPlaced e (g.place placedAt) where
  before k hk := Nat.le_succ_of_le (h.before k hk)
  echoed := by
    refine iff_of_false Bool.false_ne_true fun hk => ?_
    have hle := h.before _ hk
    exact absurd hle (Nat.not_succ_le_self g.placements)
  time hk := by cases hk

theorem recordsPlaced_echo {t : ℤ} (h : e.lastLatencyCheckPacketSendTime = t) :
    RecordsPlaced e (g.echo t) where
  before k hk := by
    obtain rfl := Option.some.inj hk
    exact le_rfl
  echoed := iff_of_true rfl rfl
  time _ := by
    rw [h]
    rfl

theorem init_lastTime (cfg : ConfigurationParser) (eepId : UInt32) (snRead : Option UInt32)
    (swRevStr : List UInt8) (d : SlaveDevice) :
    (d.init cfg eepId snRead swRevStr).2.lastLatencyCheckPacketSendTime =
      d.lastLatencyCheckPacketSendTime := by
  obtain ⟨-, -, h⟩ | ⟨-, passed, -, h⟩ | ⟨-, sdoLen, -, h⟩ :=
    init_cases cfg eepId snRead swRevStr d
  · rw [h]
  · rw [h]
  · rw [h]
    by_cases h0 : d.sn = 0
    · simp only [if_pos h0]
      rfl
    · simp only [if_neg h0]

theorem RecordsPlaced.run {cfg : ConfigurationParser} (s : Section) (h : RecordsPlaced d g) :
    RecordsPlaced (s.run cfg d) (g.update cfg d s) := by
  cases s with
  | init eepId snRead swRevStr =>
    show RecordsPlaced _ (if _ then _ else _)
    split
    · exact h.place none _
    · exact h.congr (init_lastTime cfg eepId snRead swRevStr d)
  | process t =>
    show RecordsPlaced (d.processSection t) (if _ then _ else if _ then _ else _)
    obtain ⟨htake, -, hlast, -⟩ | ⟨htake, hexec, -⟩ | ⟨htake, hexec, hlast, -⟩ :=
      d.processSection_phase t
    · rw [if_pos htake]
      exact recordsPlaced_echo hlast
    · rw [if_neg htake, if_pos hexec]
      exact h.place (some t) _
    · rw [if_neg htake, if_neg hexec]
      exact h.congr hlast
  | exitReset =>
    obtain ⟨bytes, hd, -⟩ := exitReset_eq cfg d
    rw [hd]
    exact h.congr rfl
  | command task msg =>
    obtain ⟨bytes, hd, -⟩ := command_eq cfg task msg d
    rw [hd]
    exact h.congr rfl
  | receive inputs | transfer | preRecover | resetState | lost | recoverState => exact h.congr rfl

theorem echoOutputs_since (t : ℤ) (d : SlaveDevice) :
    ∀ o ∈ d.echoOutputs t, o.Since t d.lastLatencyCheckPacketSendTime := by
  intro o ho
  obtain rfl | ho := List.mem_cons.mp ho
  · rfl
  · obtain ⟨k, -, rfl⟩ := List.mem_map.mp ho
    rfl

theorem stampsBelong_iff (s : Section) (h : RecordsPlaced d g) :
    s.StampsBelong d g ↔ s.EchoedBefore d g := by
  cases s with
  | process t =>
    show (_ → _ ∧ _) ↔ (_ → _)
    obtain ⟨htake, -, -, -, hout⟩ | ⟨htake, -, -, -, hout⟩ | ⟨htake, -, -, -, hout⟩ :=
      d.processSection_phase t
    · rw [hout]
      constructor
      · intro hbelong _
        obtain ⟨hrec, -⟩ := hbelong (List.cons_ne_nil _ _)
        exact h.echoed.mpr hrec
      · intro hechoed _
        have hg := hechoed htake
        exact ⟨h.echoed.mp hg, _, h.time hg, d.echoOutputs_since t⟩
    · exact iff_of_true (fun hne => absurd hout hne) fun hk => absurd hk htake
    · exact iff_of_true (fun hne => absurd hout hne) fun hk => absurd hk htake
  | _ => exact Iff.rfl

end SlaveDevice

namespace Node
variable {n : ℕ}

/-- **Latency and data stamps.** In every run, what a processing section publishes counts from the
cycle that placed the echoed number, exactly if an echo has been taken since `init` or the READY branch
last placed one. -/
theorem stamps_iff (cfg : ConfigurationParser) (N : Node n) (i : Fin n) (es : List (Event n)) :
    Along (watchSlave cfg i (StampHistory.update cfg))
      (OnSection i fun d g s => s.StampsBelong d g ↔ s.EchoedBefore d g)
      (N, StampHistory.start) es := by
  refine along_sections_closed SlaveDevice.RecordsPlaced ?_
    (SlaveDevice.recordsPlaced_start _) es
  intro d g s _ hI
  exact ⟨SlaveDevice.stampsBelong_iff s hI, hI.run s⟩

/-- The clock of the data cycle reads `t`. -/
def atTime (t : ℤ) : Event 1 → Event 1
  | .dataProcess _ => .dataProcess t
  | e => e

/-- The READY branch places 3 at the time 1000 and the echo comes at 1002: the sample is 1002, the
time since the default-constructed one. -/
theorem stamps_firstEcho : Initial SlaveDevice.dshotConfig dshotNode ∧
    ¬ Along (watchSlave SlaveDevice.dshotConfig 0 (StampHistory.update SlaveDevice.dshotConfig))
      (OnSection 0 fun d g s => s.StampsBelong d g) (dshotNode, StampHistory.start)
      (.dataStart :: argumentTurns.map (atTime 1000) ++ (turn [3]).map (atTime 1002)) :=
  ⟨dshotNode_initial, by decide +kernel⟩

end Node
end EcatMaster
