import EcatMaster.Node.Threads

/-! # Visits of the checker that ask nothing of a slave

A visit of slave `i` goes from the branches on the status that `ec_readstate` stored to the end of the
block on `islost`; its requests are `ec_writestate`, `ec_reconfig_slave` and `ec_recover_slave`. The
history logs the visit of the slave for each pass, or that the pass did not read the statuses.
-/

namespace EcatMaster
set_option autoImplicit false
open EventRun

/-- What a visit finds, what `ec_statecheck` answers if it is asked, and whether anything is requested. -/
structure Visit where
  status : UInt16
  islost : Bool
  rejected : Bool
  answer : UInt16
  requested : Bool
deriving DecidableEq

namespace Visit

/-- The status is one to recover from. -/
def Concerns (v : Visit) : Prop := v.status ≠ EC_STATE_OPERATIONAL ∧ v.rejected = false

/-- Nothing is requested for a slave that is to be recovered. -/
def Silent (v : Visit) : Prop := v.Concerns ∧ v.requested = false

/-- The statuses the branches act on: SAFE_OP without the error flag, no answer, and INIT if
`ec_statecheck` confirms a status or finds a slave that is marked lost gone again. -/
def Covered (v : Visit) : Prop :=
  v.status = EC_STATE_SAFE_OP ∨ v.status = EC_STATE_NONE ∨
    v.status = EC_STATE_INIT ∧
      (v.answer &&& 0xf ≠ 0 ∨ v.islost = true ∧ v.answer = EC_STATE_NONE)

/-- A status to recover from that no branch acts on. -/
def Overlooked (v : Visit) : Prop := v.Concerns ∧ ¬ v.Covered

instance : DecidablePred Silent := fun v =>
  inferInstanceAs (Decidable ((v.status ≠ EC_STATE_OPERATIONAL ∧ v.rejected = false) ∧ _))

def start (slot : Slot) (answer : UInt16) : Visit :=
  ⟨slot.ec.state, slot.ec.islost, slot.dev.isRecoverRejected, answer, false⟩

def request (v : Visit) : Visit := { v with requested := true }

/-- The block on `islost` asks for a slave that is marked lost and does not answer. -/
def finish (ec : EcSlave) (v : Visit) : Visit :=
  if ec.islost = true ∧ ec.state = EC_STATE_NONE then v.request else v

end Visit

/-- The visit the checker is in, and the visits of the passes so far. -/
structure CheckHistory where
  current : Option Visit
  passes : List (Option Visit)
deriving DecidableEq

namespace CheckHistory
variable {n : ℕ}

def start : CheckHistory := ⟨none, []⟩

def request (g : CheckHistory) : CheckHistory := { g with current := g.current.map Visit.request }

/-- The visit in progress goes to the log. -/
def close (ec : EcSlave) (g : CheckHistory) : CheckHistory :=
  ⟨none, g.passes ++ [g.current.map (Visit.finish ec)]⟩

def update (i : Fin n) (g : CheckHistory) (N : Node n) (e : Event n) (N' : Node n) : CheckHistory :=
  match e, N.check with
  | .checkPass _, .loop =>
      if N'.check = .loop then { g with passes := g.passes ++ [none] } else g
  | .checkVisit answer, .visit k =>
      if k = i then { g with current := some (Visit.start (N.slots i) answer) } else g
  | .checkOpRequest _, .opRequest k => if k = i then g.request else g
  | .checkReconfig _, .reconfig k => if k = i then g.request else g
  | .checkFound _, .found k => if k = i then g.close (N.slots i).ec else g
  | _, _ => g

/-- No two passes in a row leave the slave alone. -/
def NeverDead (g : CheckHistory) : Prop :=
  g.passes.IsChain fun p r => ¬ ((∃ v ∈ p, v.Silent) ∧ ∃ w ∈ r, w.Silent)

/-- No two passes in a row find a status that no branch acts on. -/
def NeverOverlooked (g : CheckHistory) : Prop :=
  g.passes.IsChain fun p r => ¬ ((∃ v ∈ p, v.Overlooked) ∧ ∃ w ∈ r, w.Overlooked)

instance : DecidablePred NeverDead := fun g =>
  inferInstanceAs (Decidable (g.passes.IsChain fun p r =>
    ¬ ((∃ v ∈ p, v.Silent) ∧ ∃ w ∈ r, w.Silent)))

end CheckHistory

/-! ## One visit -/

namespace Visit
variable {v : Visit}

@[simp] theorem overlooked_request : v.request.Overlooked ↔ v.Overlooked := Iff.rfl

@[simp] theorem overlooked_finish (ec : EcSlave) : (v.finish ec).Overlooked ↔ v.Overlooked := by
  unfold finish
  split <;> rfl

theorem not_silent_of_requested (h : v.requested = true) : ¬ v.Silent := by
  rintro ⟨-, hnone⟩
  rw [h] at hnone
  cases hnone

theorem requested_finish (h : v.requested = true) (ec : EcSlave) :
    (v.finish ec).requested = true := by
  unfold finish
  split
  · rfl
  · exact h

/-- A visit that has asked once is neither silent nor, where a branch acted, overlooked. -/
theorem finish_of_requested (h : v.requested = true) (hcov : ¬ v.Overlooked) (ec : EcSlave) :
    (v.finish ec).Silent ↔ (v.finish ec).Overlooked := by
  rw [overlooked_finish]
  exact iff_of_false (not_silent_of_requested (requested_finish h ec)) hcov

theorem silent_finish {ec : EcSlave} (h : v.requested = false) :
    (v.finish ec).Silent ↔ v.Concerns ∧ ¬ (ec.islost = true ∧ ec.state = EC_STATE_NONE) := by
  unfold finish
  split
  · next hlost =>
    exact iff_of_false (not_silent_of_requested rfl) fun hv => hv.2 hlost
  · next hlost =>
    exact and_congr_right fun _ => iff_of_true h hlost

/-- An INIT that `ec_statecheck` does not confirm is covered only by the block on `islost`. -/
theorem covered_of_init (hinit : v.status = EC_STATE_INIT) (hanswer : ¬ v.answer &&& 0xf ≠ 0) :
    v.Covered ↔ v.islost = true ∧ v.answer = EC_STATE_NONE := by
  constructor
  · rintro (h | h | ⟨-, h | h⟩)
    · exact absurd (hinit.symm.trans h) (by decide)
    · exact absurd (hinit.symm.trans h) (by decide)
    · exact absurd h hanswer
    · exact h
  · intro hlost
    exact Or.inr (Or.inr ⟨hinit, Or.inr hlost⟩)

end Visit

namespace Node
variable {n : ℕ} {cfg : ConfigurationParser} {N N' : Node n} {i : Fin n} {v : Visit}

/-- What is known of the visit of slave `i` at each position of the checker. -/
def Pending (N : Node n) (i : Fin n) (v : Visit) : Prop :=
  match N.check with
  | .opRequest k | .reconfig k => k = i → ¬ v.Overlooked
  | .reconfigTail k | .reconfigDone k _ => k = i → v.requested = true ∧ ¬ v.Overlooked
  | .found k => k = i → ((v.finish (N.slots i).ec).Silent ↔ (v.finish (N.slots i).ec).Overlooked)
  | _ => True

/-- The position of the checker is in the visit of slave `k`. -/
def At (k : ℕ) : CheckPc → Prop
  | .opRequest m | .reconfig m | .reconfigTail m | .reconfigDone m _ | .found m => m = k
  | .visit m => m = k + 1
  | .loop | .done => True

/-- At another slave's position nothing is known yet. -/
theorem pending_other {k : ℕ} (hat : At k N.check) (hk : k ≠ i) : Pending N i v := by
  unfold Pending
  cases hpc : N.check with
  | loop | done | visit m => trivial
  | opRequest m | reconfig m | reconfigTail m | reconfigDone m state | found m =>
    rw [hpc] at hat
    intro hm
    exact absurd (hat.symm.trans hm) hk

/-- What the checker knows of slave `i` on the bus. -/
def SameStatus (N N' : Node n) (i : Fin n) : Prop :=
  (N'.slots i).ec.islost = (N.slots i).ec.islost ∧ (N'.slots i).ec.state = (N.slots i).ec.state

theorem pending_congr (hcheck : N'.check = N.check) (hstatus : SameStatus N N' i)
    (h : Pending N i v) : Pending N' i v := by
  have hfinish : v.finish (N'.slots i).ec = v.finish (N.slots i).ec := by
    unfold Visit.finish
    rw [hstatus.1, hstatus.2]
  unfold Pending at h ⊢
  rw [hcheck, hfinish]
  exact h

/-! ## The steps of the checker -/

theorem visitSlave_at (cfg : ConfigurationParser) (N : Node n) (i : Fin n) (k : ℕ)
    (answer : UInt16) : At k (N.visitSlave cfg i k answer).check := by
  unfold visitSlave
  simp only
  split
  · split
    · exact rfl
    split
    · simp only [goCheck]
      split <;> exact rfl
    split <;> exact rfl
  · exact rfl

theorem reconfigSlave_at (cfg : ConfigurationParser) (N : Node n) (i : Fin n) (k : ℕ)
    (r : Reconfig) : At k (N.reconfigSlave cfg i k r).check := by
  cases r <;> exact rfl

theorem pending_found (hcheck : N.check = .found i) (hreq : v.requested = false)
    (hlost : v.Concerns → ((N.slots i).ec.islost = true ∧ (N.slots i).ec.state = EC_STATE_NONE ↔
      v.Covered)) : Pending N i v := by
  unfold Pending
  rw [hcheck]
  intro _
  rw [Visit.silent_finish hreq, Visit.overlooked_finish]
  exact and_congr_right fun hconcerns => not_congr (hlost hconcerns)

/-- **The branches on the status.** The slave is asked in the visit exactly if its status is covered. -/
theorem visitSlave_pending (cfg : ConfigurationParser) (N : Node n) (i : Fin n) (answer : UInt16) :
    Pending (N.visitSlave cfg i i answer) i (Visit.start (N.slots i) answer) := by
  unfold visitSlave
  simp only
  split
  · split
    · next hsafe =>
      intro _
      exact fun hover => hover.2 (Or.inl hsafe.1)
    split
    · next hinit =>
      split
      · next hanswer =>
        intro _
        exact fun hover => hover.2 (Or.inr (Or.inr ⟨hinit, Or.inl hanswer⟩))
      · next hanswer =>
        refine pending_found rfl rfl fun _ => ?_
        show ((N.setEc i _).slots i).ec.islost = true ∧ ((N.setEc i _).slots i).ec.state = _ ↔ _
        rw [setEc_ec]
        exact (Visit.covered_of_init (v := Visit.start (N.slots i) answer) hinit hanswer).symm
    split
    · next hnone =>
      refine pending_found rfl rfl fun _ => ?_
      show (((N.setEc i _).runSection cfg i _).slots i).ec.islost = true ∧
        (((N.setEc i _).runSection cfg i _).slots i).ec.state = _ ↔ _
      rw [runSection_ec, setEc_ec]
      exact iff_of_true ⟨rfl, hnone.2⟩ (Or.inr (Or.inl hnone.2))
    · next hsafe hinit hnone =>
      refine pending_found rfl rfl fun hconcerns => ⟨fun hlost => Or.inr (Or.inl hlost.2), ?_⟩
      rintro (h | h | ⟨h, -⟩)
      · refine absurd ⟨h, ?_⟩ hsafe
        intro hrej
        exact absurd (hrej.symm.trans hconcerns.2) (by decide)
      · refine ⟨?_, h⟩
        cases hlost : (N.slots i).ec.islost with
        | true => exact hlost
        | false => exact absurd ⟨hlost, h⟩ hnone
      · exact absurd h hinit
  · next hop =>
    exact pending_found rfl rfl fun hconcerns => absurd hconcerns.1 hop

/-- What the history of slave `i` says of the node. -/
structure Tracks (N : Node n) (i : Fin n) (g : CheckHistory) : Prop where
  current : ∀ v ∈ g.current, Pending N i v
  passes : ∀ v, some v ∈ g.passes → (v.Silent ↔ v.Overlooked)

/-- A section of the checker for slave `k` changes the history of slave `k`. -/
theorem Tracks.forSlave {g g' : CheckHistory} {k : ℕ} {body : Fin n → Node n} {rest : Node n}
    (h : Tracks N i g) (hbody : ∀ j, At k (body j).check) (hrest : At k rest.check)
    (hself : k = i → Tracks (body i) i g') :
    Tracks (forSlave k body rest) i (if k = i then g' else g) := by
  split
  · next hk =>
    have hbody_i : Node.forSlave k body rest = body i := by
      unfold Node.forSlave
      rw [dif_pos (hk ▸ i.isLt)]
      exact congrArg body (Fin.ext hk)
    rw [hbody_i]
    exact hself hk
  · next hk =>
    have hat : At k (Node.forSlave k body rest).check :=
      forSlave_of (P := fun M => At k M.check) hbody hrest
    exact ⟨fun v _ => pending_other hat hk, h.passes⟩

/-- A request leads on to what is known of a visit that has made one. -/
theorem Tracks.request {g : CheckHistory} (h : Tracks N i g)
    (hpc : N.check = .opRequest i ∨ N.check = .reconfig i)
    (hnext : ∀ v : Visit, v.requested = true ∧ ¬ v.Overlooked → Pending N' i v) :
    Tracks N' i g.request where
  current v hv := by
    obtain ⟨w, hw, rfl⟩ := Option.map_eq_some_iff.mp hv
    have hpending := h.current w hw
    unfold Pending at hpending
    refine hnext _ ⟨rfl, ?_⟩
    rw [Visit.overlooked_request]
    obtain hc | hc := hpc
    · rw [hc] at hpending
      exact hpending rfl
    · rw [hc] at hpending
      exact hpending rfl
  passes := h.passes

theorem pending_asked_found (hcheck : N.check = .found i)
    (h : v.requested = true ∧ ¬ v.Overlooked) : Pending N i v := by
  unfold Pending
  rw [hcheck]
  intro _
  exact Visit.finish_of_requested h.1 h.2 _

/-- The visit that is finished joins the log with what it asked. -/
theorem Tracks.close {g : CheckHistory} (h : Tracks N i g) (hpc : N.check = .found i) :
    Tracks N' i (g.close (N.slots i).ec) where
  current v hv := by cases hv
  passes v hv := by
    obtain hv | hv := List.mem_append.mp hv
    · exact h.passes v hv
    · obtain ⟨w, hw, rfl⟩ := Option.map_eq_some_iff.mp (List.mem_singleton.mp hv).symm
      have hpending := h.current w hw
      unfold Pending at hpending
      rw [hpc] at hpending
      exact hpending rfl

/-- What is known of a visit that has asked stays with it up to the end of the visit. -/
theorem Tracks.asked {g : CheckHistory} (h : Tracks N i g) {pc : CheckPc} (hpc : N.check = pc)
    (hin : pc = .reconfigTail i ∨ ∃ state, pc = .reconfigDone i state)
    (hnext : ∀ v : Visit, v.requested = true ∧ ¬ v.Overlooked → Pending N' i v) :
    Tracks N' i g where
  current v hv := by
    have hpending := h.current v hv
    unfold Pending at hpending
    rw [hpc] at hpending
    obtain rfl | ⟨state, rfl⟩ := hin
    · exact hnext v (hpending rfl)
    · exact hnext v (hpending rfl)
  passes := h.passes

/-- **One section of the checker.** -/
theorem Tracks.check {g : CheckHistory} {e : Event n} (h : Tracks N i g)
    (hstep : CheckStep cfg N e N') : Tracks N' i (CheckHistory.update i g N e N') := by
  cases hstep with
  | pass states hpc =>
    simp only [CheckHistory.update, hpc]
    exact ⟨fun _ _ => trivial, h.passes⟩
  | idle states hpc =>
    simp only [CheckHistory.update, hpc, if_true]
    refine ⟨h.current, fun v hv => ?_⟩
    obtain hv | hv := List.mem_append.mp hv
    · exact h.passes v hv
    · cases List.mem_singleton.mp hv
  | visit answer k hpc =>
    simp only [CheckHistory.update, hpc]
    refine h.forSlave (fun j => visitSlave_at cfg N j k answer) trivial ?_
    rintro rfl
    refine ⟨fun v hv => ?_, h.passes⟩
    obtain rfl := Option.some.inj hv
    exact visitSlave_pending cfg N i answer
  | opRequest answer k hpc =>
    simp only [CheckHistory.update, hpc]
    refine h.forSlave (fun _ => rfl) (by rw [hpc]; exact rfl) ?_
    rintro rfl
    exact h.request (Or.inl hpc) fun v hv => pending_asked_found rfl hv
  | reconfig r k hpc =>
    simp only [CheckHistory.update, hpc]
    refine h.forSlave (fun j => reconfigSlave_at cfg N j k r) (by rw [hpc]; exact rfl) ?_
    rintro rfl
    refine h.request (Or.inr hpc) fun v hv => ?_
    cases r <;> exact fun _ => hv
  | reconfigTail answer k hpc =>
    show Tracks _ i g
    rw [← ite_self (c := k = i) g]
    refine h.forSlave (fun _ => rfl) (by rw [hpc]; exact rfl) ?_
    rintro rfl
    exact h.asked hpc (Or.inl rfl) fun v hv _ => hv
  | reset k state hpc =>
    show Tracks _ i g
    rw [← ite_self (c := k = i) g]
    refine h.forSlave (fun _ => rfl) (by rw [hpc]; exact rfl) ?_
    rintro rfl
    exact h.asked hpc (Or.inr ⟨state, rfl⟩) fun v hv => pending_asked_found rfl hv
  | found recovered k hpc =>
    simp only [CheckHistory.update, hpc]
    refine h.forSlave (fun _ => rfl) (by rw [hpc]; exact rfl) ?_
    rintro rfl
    exact h.close hpc
  | stop => exact ⟨fun _ _ => trivial, h.passes⟩

/-! ## The other threads -/

theorem runSection_sameStatus (cfg : ConfigurationParser) (N : Node n) (i j : Fin n) (s : Section) :
    SameStatus N (N.runSection cfg j s) i := by
  unfold SameStatus
  rw [runSection_ec]
  exact ⟨rfl, rfl⟩

/-- The data cycle reads and writes process data only. -/
theorem DataStep.sameStatus {e : Event n} (h : DataStep cfg N e N') (i : Fin n) :
    SameStatus N N' i := by
  cases h with
  | start | receiveProcessdata | exitCheck | send | stop => exact ⟨rfl, rfl⟩
  | receive | process | exitReset =>
    exact forSlave_of (P := fun M => SameStatus N M i)
      (fun j => runSection_sameStatus cfg N i j _) ⟨rfl, rfl⟩
  | transfer k hpc =>
    refine forSlave_of (P := fun M => SameStatus N M i) (fun j => ?_) ⟨rfl, rfl⟩
    unfold SameStatus goData setEc
    simp only [setSlot_slots]
    split
    · next hj =>
      rw [hj]
      exact ⟨rfl, rfl⟩
    · exact ⟨rfl, rfl⟩

theorem OtherStep.sameStatus {e : Event n} (h : OtherStep cfg N e N') (i : Fin n) :
    SameStatus N N' i := by
  cases h with
  | command j task msg => exact runSection_sameStatus cfg N i j _
  | rclcppShutdown | onShutdown | stopRunning => exact ⟨rfl, rfl⟩

theorem Tracks.congr {g : CheckHistory} (h : Tracks N i g) (hcheck : N'.check = N.check)
    (hstatus : SameStatus N N' i) : Tracks N' i g where
  current v hv := pending_congr hcheck hstatus (h.current v hv)
  passes := h.passes

theorem Tracks.step {g : CheckHistory} {e : Event n} (h : Tracks N i g)
    (hstep : Node.step cfg N e = some N') : Tracks N' i (CheckHistory.update i g N e N') := by
  obtain hc | hd | ho := step_cases hstep
  · exact h.check hc
  · have hupdate : CheckHistory.update i g N e N' = g := by
      cases hd <;> rfl
    rw [hupdate]
    exact h.congr hd.dataFrame.check (hd.sameStatus i)
  · have hupdate : CheckHistory.update i g N e N' = g := by
      cases ho <;> rfl
    rw [hupdate]
    exact h.congr ho.same.1 (ho.sameStatus i)

/-- **No dead state.** In every run, no two passes in a row leave a slave alone exactly if no two in a
row find a status that the branches do not act on. -/
theorem neverDead_iff (N : Node n) (i : Fin n) {es : List (Event n)} {q : Node n × CheckHistory}
    (hrun : exec (watch (step cfg) (CheckHistory.update i)) (N, CheckHistory.start) es = some q) :
    q.2.NeverDead ↔ q.2.NeverOverlooked := by
  have hinv : Tracks q.1 i q.2 := by
    refine exec_invariant (fun q : Node n × CheckHistory => Tracks q.1 i q.2) ?_ ?_ hrun
    · intro p e q hp hstep
      obtain ⟨hs, hg⟩ := watch_eq_some.mp hstep
      rw [hg]
      exact hp.step hs
    · constructor
      · intro v hv
        cases hv
      · intro v hv
        cases hv
  have hsome {p : Option Visit} (hp : p ∈ q.2.passes) :
      (∃ v ∈ p, v.Silent) ↔ ∃ v ∈ p, v.Overlooked := by
    refine exists_congr fun v => and_congr_right fun hv => hinv.passes v ?_
    obtain rfl := Option.mem_def.mp hv
    exact hp
  unfold CheckHistory.NeverDead CheckHistory.NeverOverlooked
  refine List.IsChain.iff_of_mem_imp fun p r hp hr => ?_
  rw [hsome hp, hsome hr]

/-- The DSHOT board, lost, configured again and put back into operation. -/
theorem neverDead_iff_dshot : ∃ q,
    exec (watch (step SlaveDevice.dshotConfig) (CheckHistory.update 0))
      (dshotNode, CheckHistory.start) (startUp ++ loss ++ reconfiguration ++ safeOpPass) = some q ∧
      q.2.passes.length = 3 ∧ (q.2.NeverDead ↔ q.2.NeverOverlooked) := by
  have hsome : ((exec (watch (step SlaveDevice.dshotConfig) (CheckHistory.update 0))
      (dshotNode, CheckHistory.start) (startUp ++ loss ++ reconfiguration ++ safeOpPass)).any
        fun q => q.2.passes.length = 3) = true := by
    decide +kernel
  obtain ⟨q, hq, hlength⟩ := (Option.any_eq_true _ _).mp hsome
  exact ⟨q, hq, of_decide_eq_true hlength, neverDead_iff dshotNode 0 hq⟩

/-- The checker reads `status` of the only slave and goes through its visit. -/
def reading (status : UInt16) : List (Event 1) :=
  [.checkPass fun _ => status, .checkVisit status, .checkFound false, .checkVisit status]

/-- The board answers in PRE_OP and nobody asks it to go on. -/
def stuckInPreOp : List (Event 1) :=
  .dataStart :: turn [0] 0 ++ reading EC_STATE_PRE_OP ++ reading EC_STATE_PRE_OP

theorem neverDead_stuckInPreOp : Initial SlaveDevice.dshotConfig dshotNode ∧ ∃ q,
    exec (watch (step SlaveDevice.dshotConfig) (CheckHistory.update 0))
      (dshotNode, CheckHistory.start) stuckInPreOp = some q ∧ ¬ q.2.NeverDead := by
  have hsome : ((exec (watch (step SlaveDevice.dshotConfig) (CheckHistory.update 0))
      (dshotNode, CheckHistory.start) stuckInPreOp).any fun q => ¬ q.2.NeverDead) = true := by
    decide +kernel
  obtain ⟨q, hq, hdead⟩ := (Option.any_eq_true _ _).mp hsome
  exact ⟨dshotNode_initial, q, hq, of_decide_eq_true hdead⟩

end Node
end EcatMaster
