import EcatMaster.Node.Threads

/-! # A replaced board

`init` compares the serial number it reads with the recorded one and rejects the board. A run is here
a list of events, each with the serial number of the board that answers at the position; an SDO read
of it stores that number or nothing (`boardStep`). The rejection holds in a run exactly as long as the
serial number is read whenever it decides, and no `recover_state` runs on a rejected device.
-/

namespace EcatMaster
set_option autoImplicit false
open EventRun

/-- A different board has been found at the position, and maybe its INIT branch has finished. -/
structure Rejection where
  rejecting : Bool
  finished : Bool
deriving DecidableEq

namespace Rejection

def start : Rejection := ⟨false, false⟩

def update (g : Rejection) (board : UInt32) (d : SlaveDevice) : Section → Rejection
  | .init _ snRead _ =>
      if d.sn ≠ 0 ∧ board ≠ d.sn then { g with rejecting := true }
      else if snRead = some d.sn then start
      else g
  | .resetState => { g with finished := g.rejecting }
  | _ => g

end Rejection

namespace Section

/-- The serial number an `init` reads is that of the board that answers, if it reads one. -/
def Answered (board : UInt32) : Section → Prop
  | .init _ snRead _ => snRead = none ∨ snRead = some board
  | _ => True

instance (board : UInt32) : DecidablePred (Answered board)
  | .init _ _ _ => inferInstanceAs (Decidable (_ ∨ _))
  | .receive _ | .process _ | .exitReset | .transfer | .command _ _ | .preRecover | .resetState
  | .lost | .recoverState => .isTrue trivial

/-- An `init` rejects a board other than the recorded one, and no processing section after the INIT
branch finds the rejected device ready and configured. -/
def KeepsOut (cfg : ConfigurationParser) (board : UInt32) (d : SlaveDevice) (g : Rejection) :
    Section → Prop
  | .init eepId snRead swRevStr => d.sn ≠ 0 → board ≠ d.sn →
      (d.init cfg eepId snRead swRevStr).1 = 0 ∧
        (d.init cfg eepId snRead swRevStr).2.isRecoverRejected = true
  | .process t => g.rejecting = true → g.finished = true →
      ¬ (d.isReady = true ∧ d.isConfRosDone = true) ∧
        ¬ ((d.processSection t).isReady = true ∧ (d.processSection t).isConfRosDone = true)
  | _ => True

instance (cfg : ConfigurationParser) (board : UInt32) (d : SlaveDevice) (g : Rejection) :
    DecidablePred (KeepsOut cfg board d g)
  | .init _ _ _ => inferInstanceAs (Decidable (_ → _ → _ ∧ _))
  | .process _ => inferInstanceAs (Decidable (_ → _ → ¬ _ ∧ ¬ _))
  | .receive _ | .exitReset | .transfer | .command _ _ | .preRecover | .resetState | .lost
  | .recoverState => .isTrue trivial

/-- The serial number is read whenever it decides, and a rejected device is not recovered. -/
def ReadsSerial (board : UInt32) (d : SlaveDevice) (g : Rejection) : Section → Prop
  | .init _ snRead _ => d.sn ≠ 0 → board ≠ d.sn ∨ g.rejecting = true → snRead = some board
  | .recoverState => g.rejecting = false
  | _ => True

instance (board : UInt32) (d : SlaveDevice) (g : Rejection) : DecidablePred (ReadsSerial board d g)
  | .init _ _ _ => inferInstanceAs (Decidable (_ → _ → _))
  | .recoverState => inferInstanceAs (Decidable (_ = _))
  | .receive _ | .process _ | .exitReset | .transfer | .command _ _ | .preRecover | .resetState
  | .lost => .isTrue trivial

end Section

namespace SlaveDevice

/-- What holds of a device whose board is being rejected. -/
structure KeptOut (d : SlaveDevice) (g : Rejection) : Prop where
  rejecting : g.finished = true → g.rejecting = true
  sn : g.rejecting = true → d.sn ≠ 0
  isRecoverRejected : g.rejecting = true → d.isRecoverRejected = true
  isConfRosDone : g.finished = true → d.isConfRosDone = false

theorem KeptOut.congr {d e : SlaveDevice} {g : Rejection} (h : KeptOut d g) (hsn : e.sn = d.sn)
    (hrej : e.isRecoverRejected = d.isRecoverRejected)
    (hconf : e.isConfRosDone = d.isConfRosDone) : KeptOut e g where
  rejecting := h.rejecting
  sn hg := hsn ▸ h.sn hg
  isRecoverRejected hg := hrej.trans (h.isRecoverRejected hg)
  isConfRosDone hf := hconf.trans (h.isConfRosDone hf)

theorem keptOut_start (d : SlaveDevice) : KeptOut d Rejection.start := by
  constructor <;> intro hg <;> cases hg

theorem KeptOut.of_not_rejecting {d e : SlaveDevice} {g : Rejection} (h : KeptOut d g)
    (hg : g.rejecting = false) : KeptOut e g := by
  have hf : g.finished = false := by
    by_contra hcon
    rw [h.rejecting (Bool.eq_true_of_not_eq_false hcon)] at hg
    cases hg
  constructor <;> intro hcon
  · rw [hf] at hcon
    cases hcon
  · rw [hg] at hcon
    cases hcon
  · rw [hg] at hcon
    cases hcon
  · rw [hf] at hcon
    cases hcon

section Init
variable (cfg : ConfigurationParser) (eepId : UInt32) (swRevStr : List UInt8) {d : SlaveDevice}
  {board : UInt32}

theorem init_rejects (hsn : d.sn ≠ 0) (hne : board ≠ d.sn) :
    d.init cfg eepId (some board) swRevStr =
      (0, { d with swRev := atoi swRevStr, isRecoverRejected := true }) := by
  have hread : (some board).getD d.sn = board := rfl
  obtain ⟨-, -, h⟩ | ⟨hacc, -⟩ | ⟨hacc, -⟩ := init_cases cfg eepId (some board) swRevStr d
  · exact h
  all_goals
    rw [hread] at hacc
    obtain h0 | heq := hacc
    · exact absurd h0 hsn
    · exact absurd heq.symm hne

theorem keptOut_init {g : Rejection} {snRead : Option UInt32} (h : KeptOut d g)
    (hread : d.sn ≠ 0 → board ≠ d.sn ∨ g.rejecting = true → snRead = some board) :
    KeptOut (d.init cfg eepId snRead swRevStr).2
      (g.update board d (.init eepId snRead swRevStr)) := by
  unfold Rejection.update
  by_cases hne : d.sn ≠ 0 ∧ board ≠ d.sn
  · simp only [if_pos hne]
    obtain rfl := hread hne.1 (Or.inl hne.2)
    rw [init_rejects cfg eepId swRevStr hne.1 hne.2]
    exact ⟨fun _ => rfl, fun _ => hne.1, fun _ => rfl, h.isConfRosDone⟩
  · simp only [if_neg hne]
    by_cases hown : snRead = some d.sn
    · rw [if_pos hown]
      exact keptOut_start _
    · rw [if_neg hown]
      cases hg : g.rejecting with
      | false => exact h.of_not_rejecting hg
      | true =>
        have hsn := h.sn hg
        have hboard : board = d.sn := by
          by_contra hcon
          exact hne ⟨hsn, hcon⟩
        exact absurd (hboard ▸ hread hsn (Or.inr hg)) hown

end Init

/-- **One section.** It rejects a different board, keeps a rejected device out, and keeps what holds
of it, if the serial number is read where it decides. -/
theorem keepsOut_run (cfg : ConfigurationParser) {d : SlaveDevice} {g : Rejection} {board : UInt32}
    {s : Section} (h : KeptOut d g) (hread : s.ReadsSerial board d g)
    (hpre : s = .preRecover → d.isRecoverRejected = false) :
    s.KeepsOut cfg board d g ∧ KeptOut (s.run cfg d) (g.update board d s) := by
  cases s with
  | receive inputs | transfer => exact ⟨trivial, h.congr rfl rfl rfl⟩
  | process t =>
    have k := kept_processSection t d
    refine ⟨fun _ hf => ⟨fun hcon => ?_, fun hcon => ?_⟩,
      h.congr k.sn k.isRecoverRejected k.isConfRosDone⟩
    · rw [h.isConfRosDone hf] at hcon
      cases hcon.2
    · rw [k.isConfRosDone, h.isConfRosDone hf] at hcon
      cases hcon.2
  | exitReset =>
    obtain ⟨bytes, hd, -⟩ := exitReset_eq cfg d
    rw [hd]
    exact ⟨trivial, h.congr rfl rfl rfl⟩
  | command task msg =>
    obtain ⟨bytes, hd, -⟩ := command_eq cfg task msg d
    rw [hd]
    exact ⟨trivial, h.congr rfl rfl rfl⟩
  | preRecover =>
    refine ⟨trivial, h.of_not_rejecting ?_⟩
    by_contra hcon
    have hrej := h.isRecoverRejected (Bool.eq_true_of_not_eq_false hcon)
    rw [hpre rfl] at hrej
    cases hrej
  | init eepId snRead swRevStr =>
    refine ⟨fun hsn hne => ?_, keptOut_init cfg eepId swRevStr h hread⟩
    obtain rfl := hread hsn (Or.inl hne)
    rw [init_rejects cfg eepId swRevStr hsn hne]
    exact ⟨rfl, rfl⟩
  | resetState =>
    exact ⟨trivial, fun hf => hf, h.sn, h.isRecoverRejected, fun _ => rfl⟩
  | lost =>
    exact ⟨trivial, h.rejecting, h.sn, h.isRecoverRejected, fun _ => rfl⟩
  | recoverState => exact ⟨trivial, h.of_not_rejecting hread⟩

end SlaveDevice

namespace Node
variable {n : ℕ}

/-! ## The board at the position -/

section Board
variable (cfg : ConfigurationParser) (i : Fin n)

/-- A step while `b.1` is the serial number of the board at position `i`. -/
def boardStep (N : Node n) (b : UInt32 × Event n) : Option (Node n) :=
  if ∀ s ∈ sectionOf N b.2 i, s.Answered b.1 then step cfg N b.2 else none

/-- The node with the rejections of slave `i`. -/
def watchBoard : Node n × Rejection → UInt32 × Event n → Option (Node n × Rejection) :=
  watch (boardStep cfg i) fun g N b _ =>
    (sectionOf N b.2 i).elim g (g.update b.1 (N.slots i).dev)

def OnBoard (P : UInt32 → SlaveDevice → Rejection → Section → Prop) (p : Node n × Rejection)
    (b : UInt32 × Event n) (_ : Node n × Rejection) : Prop :=
  ∀ s ∈ sectionOf p.1 b.2 i, P b.1 (p.1.slots i).dev p.2 s

/-- The checker requests OPERATIONAL of slave `i`. -/
def RequestsOperational (N : Node n) : Event n → Prop
  | .checkOpRequest _ => N.check = .opRequest i
  | _ => False

/-- A rejected position is not driven. -/
def NotDriven (p : Node n × Rejection) (b : UInt32 × Event n) (q : Node n × Rejection) : Prop :=
  OnBoard i (Section.KeepsOut cfg) p b q ∧
    (RequestsOperational i p.1 b.2 → p.2.rejecting = false)

instance (P : UInt32 → SlaveDevice → Rejection → Section → Prop)
    [∀ board d g s, Decidable (P board d g s)] (p : Node n × Rejection) (b : UInt32 × Event n)
    (q : Node n × Rejection) : Decidable (OnBoard i P p b q) :=
  Option.decidableForallMem _

instance (N : Node n) : DecidablePred (RequestsOperational i N)
  | .checkOpRequest _ => inferInstanceAs (Decidable (_ = _))
  | .dataStart | .dataReceiveProcessdata _ _ | .dataReceive | .dataProcess _ | .dataExitCheck
  | .dataExitReset | .dataTransfer | .dataSend | .dataStop | .checkPass _ | .checkVisit _
  | .checkReconfig _ | .checkReconfigTail _ | .checkReset | .checkFound _ | .checkStop
  | .command _ _ _ | .rclcppShutdown | .onShutdown | .stopRunning => .isFalse id

instance (p : Node n × Rejection) (b : UInt32 × Event n) (q : Node n × Rejection) :
    Decidable (NotDriven cfg i p b q) :=
  inferInstanceAs (Decidable (_ ∧ (_ → _)))

end Board

section Step
variable {cfg : ConfigurationParser} {i : Fin n} {p q : Node n × Rejection} {b : UInt32 × Event n}

theorem watchBoard_some (h : watchBoard cfg i p b = some q) :
    step cfg p.1 b.2 = some q.1 ∧
    ((sectionOf p.1 b.2 i = none ∧ (q.1.slots i).dev = (p.1.slots i).dev ∧ q.2 = p.2) ∨
     ∃ s, sectionOf p.1 b.2 i = some s ∧ (q.1.slots i).dev = s.run cfg (p.1.slots i).dev ∧
       q.2 = p.2.update b.1 (p.1.slots i).dev s) := by
  obtain ⟨hstep, hg⟩ := watch_eq_some.mp h
  unfold boardStep at hstep
  obtain ⟨-, hstep⟩ := Option.ite_none_right_eq_some.mp hstep
  obtain ⟨hdev, -⟩ := step_dev hstep i
  refine ⟨hstep, ?_⟩
  cases hs : sectionOf p.1 b.2 i with
  | none =>
    rw [hs] at hdev hg
    exact Or.inl ⟨rfl, hdev, hg⟩
  | some s =>
    rw [hs] at hdev hg
    exact Or.inr ⟨s, rfl, hdev, hg⟩

/-- What holds of slave `i` and of the checker at it. -/
def BoardInv (i : Fin n) (p : Node n × Rejection) : Prop :=
  (p.1.slots i).dev.KeptOut p.2 ∧ (p.1.check = .opRequest i → p.2.rejecting = false)

theorem requests_not_rejecting (h : BoardInv i p) {e : Event n}
    (hr : RequestsOperational i p.1 e) : p.2.rejecting = false := by
  cases e with
  | checkOpRequest answer => exact h.2 hr
  | _ => exact hr.elim

/-- The checker comes to the request from a `pre_recover`, which a rejected device never gets. -/
theorem opRequest_not_rejecting (h : BoardInv i p) {N' : Node n}
    (hstep : step cfg p.1 b.2 = some N') (hpc : N'.check = .opRequest i) :
    p.2.rejecting = false := by
  obtain hs | hpc := opRequest_of_step hstep hpc
  · by_contra hcon
    have hrej := h.1.isRecoverRejected (Bool.eq_true_of_not_eq_false hcon)
    rw [(sectionOf_placed hs).2] at hrej
    cases hrej
  · exact h.2 hpc

/-- In the step that runs `init` the checker is not at the request. -/
theorem update_at_opRequest {s : Section} (hs : sectionOf p.1 b.2 i = some s) {N' : Node n}
    (hstep : step cfg p.1 b.2 = some N') (hpc : N'.check = .opRequest i) (board : UInt32)
    (d : SlaveDevice) : (p.2.update board d s).rejecting = p.2.rejecting := by
  cases s with
  | init eepId snRead swRevStr =>
    have hreconfig := (sectionOf_placed hs).2
    obtain hs' | hpc := opRequest_of_step hstep hpc
    · rw [hs] at hs'
      cases hs'
    · rw [hreconfig] at hpc
      cases hpc
  | _ => rfl

theorem boardInv_step (h : BoardInv i p) (hstep : watchBoard cfg i p b = some q)
    (hread : OnBoard i Section.ReadsSerial p b q) : NotDriven cfg i p b q ∧ BoardInv i q := by
  obtain ⟨hstep, ⟨hs, hdev, hg⟩ | ⟨s, hs, hdev, hg⟩⟩ := watchBoard_some hstep
  · refine ⟨⟨fun s hs' => ?_, requests_not_rejecting h⟩, ?_, fun hpc => ?_⟩
    · rw [hs] at hs'
      cases hs'
    · rw [hdev, hg]
      exact h.1
    · rw [hg]
      exact opRequest_not_rejecting h hstep hpc
  · have hpre : s = .preRecover → (p.1.slots i).dev.isRecoverRejected = false := by
      rintro rfl
      exact (sectionOf_placed hs).2
    obtain ⟨hkeeps, hout⟩ := SlaveDevice.keepsOut_run cfg h.1 (hread s hs) hpre
    refine ⟨⟨fun t ht => ?_, requests_not_rejecting h⟩, ?_, fun hpc => ?_⟩
    · obtain rfl : s = t := Option.some.inj (hs.symm.trans ht)
      exact hkeeps
    · rw [hdev, hg]
      exact hout
    · rw [hg, update_at_opRequest hs hstep hpc]
      exact opRequest_not_rejecting h hstep hpc

end Step

/-- **A replaced board.** In every run in which the serial number is read whenever it decides and no
rejected device is recovered, each `init` rejects a different board, and until the recorded serial
number is read OPERATIONAL is not requested and the device is not processed as ready. -/
theorem replaced_not_driven {cfg : ConfigurationParser} {N : Node n} (h : Initial cfg N) (i : Fin n)
    {bs : List (UInt32 × Event n)}
    (hc : Along (watchBoard cfg i) (OnBoard i Section.ReadsSerial) (N, Rejection.start) bs) :
    Along (watchBoard cfg i) (NotDriven cfg i) (N, Rejection.start) bs := by
  have hstart : BoardInv i (N, Rejection.start) := by
    refine ⟨SlaveDevice.keptOut_start _, fun hpc => ?_⟩
    rw [h.check] at hpc
    cases hpc
  refine along_of_invariant (BoardInv i) ?_ hstart hc
  intro p b q hinv hstep hread
  exact boardInv_step hinv hstep hread

/-- The events while the board with this serial number answers. -/
def atBoard (board : UInt32) (es : List (Event 1)) : List (UInt32 × Event 1) :=
  es.map fun e => (board, e)

/-- The board in INIT is configured; the SDO read of its serial number stores `snRead`. -/
def initPass (snRead : Option UInt32) : List (Event 1) :=
  [.checkPass fun _ => EC_STATE_INIT, .checkVisit EC_STATE_INIT,
   .checkReconfig (.hook snRead (some [56])), .checkReconfigTail EC_STATE_SAFE_OP, .checkReset,
   .checkFound false, .checkVisit 0]

/-- Board 7 is replaced by board 8 before a pass has found it lost. -/
def swapped : List (UInt32 × Event 1) :=
  atBoard 7 (startUp ++ turn [0] 0) ++ atBoard 8 (initPass (some 8) ++ turn [4])

theorem replaced_not_driven_swapped :
    Along (watchBoard SlaveDevice.dshotConfig 0) (NotDriven SlaveDevice.dshotConfig 0)
      (dshotNode, Rejection.start) swapped :=
  replaced_not_driven dshotNode_initial 0 (by decide +kernel)

/-- Board 7 is found lost, then replaced by board 8. -/
def lostAndSwapped : List (UInt32 × Event 1) :=
  atBoard 7 (startUp ++ loss) ++ atBoard 8 (initPass (some 8) ++ turn [4])

/-- Board 7 is replaced by board 8, whose serial number is not read. -/
def swappedUnread : List (UInt32 × Event 1) :=
  atBoard 7 (startUp ++ turn [0] 0) ++ atBoard 8 (initPass none)

/-- The `islost` block makes the rejected board ready; with no serial number read it is accepted. -/
theorem replaced_lostAndSwapped : Initial SlaveDevice.dshotConfig dshotNode ∧
    ¬ Along (watchBoard SlaveDevice.dshotConfig 0) (NotDriven SlaveDevice.dshotConfig 0)
      (dshotNode, Rejection.start) lostAndSwapped ∧
    ¬ Along (watchBoard SlaveDevice.dshotConfig 0) (NotDriven SlaveDevice.dshotConfig 0)
      (dshotNode, Rejection.start) swappedUnread :=
  ⟨dshotNode_initial, by decide +kernel, by decide +kernel⟩

end Node
end EcatMaster
