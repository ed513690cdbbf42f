import EcatMaster.Lib.Rho
import EcatMaster.Node.Sections
import EcatMaster.Slave.Publish

/-! # The sequence numbers of the ready phase

A phase starts when `init` or the READY branch leaves `master_status_` at MASTER_READY, and ends with
the next execution of either. Its history lists the numbers sent in it and, with the position of the
number that was echoed, everything published. The numbers are the iterates of `nextStatus`: 3 and 4
once and then the cycle from 5 to 250, so any 246 in a row are different.
-/

namespace EcatMaster
set_option autoImplicit false
open EventRun

/-- The numbers sent in a ready phase, and who published at the echo of the number at a position. -/
structure Phase where
  numbers : List UInt8
  published : List (ℕ × Option ℕ)
deriving DecidableEq

namespace Phase

def start : Phase := ⟨[MASTER_READY], []⟩

def changes (p : Phase) : ℕ := p.numbers.length - 1

/-- A processing section of `d`: a new number is listed, publications go with the one echoed. -/
def process (t : ℤ) (d : SlaveDevice) (p : Phase) : Phase where
  numbers := if (d.processSection t).masterStatus = d.masterStatus then p.numbers
    else p.numbers ++ [(d.processSection t).masterStatus]
  published := p.published ++ (d.processOutputs t).map fun o => (p.changes, o.task)

/-- The phase a slave is in after `init` or the READY branch. -/
def ofStatus (status : UInt8) : Option Phase := if status = MASTER_READY then some start else none

def update (cfg : ConfigurationParser) (g : Option Phase) (d : SlaveDevice) :
    Section → Option Phase
  | .init eepId snRead swRevStr => ofStatus (d.init cfg eepId snRead swRevStr).2.masterStatus
  | .process t =>
      if d.ExecutesReady then ofStatus (d.processSection t).masterStatus else g.map (process t d)
  | _ => g

end Phase

namespace SlaveDevice

/-- The number sent after `k` changes. -/
def seqNumber (k : ℕ) : UInt8 := nextStatus^[k] MASTER_READY

theorem seqNumber_succ (k : ℕ) : seqNumber (k + 1) = nextStatus (seqNumber k) :=
  Function.iterate_succ_apply' _ _ _

/-- Up to 250 the numbers count. -/
theorem toNat_seqNumber {k : ℕ} (hk : k < 2 + 246) : (seqNumber k).toNat = 3 + k := by
  induction k with
  | zero => rfl
  | succ k ih =>
    have hcount := ih (by omega)
    have hlow : seqNumber k < 250 := by
      rw [UInt8.lt_iff_toNat_lt, hcount]
      show 3 + k < 250
      omega
    rw [seqNumber_succ, nextStatus, if_neg (by simpa using hlow), UInt8.toNat_add, hcount]
    show (3 + k + 1) % 256 = 3 + (k + 1)
    omega

/-- 3 and 4, then the cycle of 246 numbers from 5 to 250. -/
theorem seqNumber_enters : Rho.Enters nextStatus MASTER_READY 2 246 where
  pos := by decide
  cycle := by decide +kernel
  nodup := by
    refine List.nodup_range.map_on fun i hi j hj heq => ?_
    have hi := toNat_seqNumber (List.mem_range.mp hi)
    have hj := toNat_seqNumber (List.mem_range.mp hj)
    have htoNat : (seqNumber i).toNat = (seqNumber j).toNat := congrArg UInt8.toNat heq
    omega

theorem seqNumber_range (k : ℕ) : MASTER_READY ≤ seqNumber k ∧ seqNumber k ≤ 250 := by
  obtain ⟨j, hj, heq⟩ := seqNumber_enters.exists_lt k
  have hsame : seqNumber k = seqNumber j := heq
  have hcount := toNat_seqNumber hj
  rw [hsame, UInt8.le_iff_toNat_le, UInt8.le_iff_toNat_le, hcount]
  show 3 ≤ 3 + j ∧ 3 + j ≤ 250
  omega

theorem nextStatus_ne (status : UInt8) : nextStatus status ≠ status := by
  unfold nextStatus
  split
  · next h =>
    intro heq
    rw [← heq] at h
    exact absurd h (by decide)
  · intro heq
    have hone : (1 : UInt8) = 0 := by
      have hsub := congrArg (· - status) heq
      rw [UInt8.add_comm] at hsub
      simpa only [UInt8.add_sub_cancel, UInt8.sub_self] using hsub
    exact absurd hone (by decide)

/-- The latency topic and the tasks that are read. -/
def publishers (d : SlaveDevice) : List (Option ℕ) := none :: d.readers.map some

theorem publishers_nodup (d : SlaveDevice) : d.publishers.Nodup := by
  unfold publishers
  rw [List.nodup_cons]
  constructor
  · simp
  · exact d.readers_nodup.map (Option.some_injective ℕ)

/-- What holds of a slave in a ready phase; a status among the 245 numbers before the last one publishes
nothing. -/
structure InSequence (d : SlaveDevice) (p : Phase) : Prop where
  current : p.numbers.getLast? = some d.masterStatus
  range : ∀ x ∈ p.numbers, MASTER_READY ≤ x ∧ x ≤ 250
  noRequest : d.masterStatus ≠ MASTER_REQUEST_REBOOT ∧ d.masterStatus ≠ MASTER_SENDING_ARGUMENTS
  different : ∀ k, ((p.numbers.drop k).take 246).Nodup
  stale : d.slaveStatus ∈ (p.numbers.dropLast.reverse).take 245 → ∀ t, d.processOutputs t = []
  samples : (p.published.map Prod.snd).count none = p.changes
  reads : ∀ k, (p.published.map Prod.snd).count (some k) =
    if d.taskList[k]?.any TaskWrapper.hasPublishers = true then p.changes else 0
  once : p.published.Nodup

/-- The invariant: the numbers are the first of the sequence, each but the last was published at. -/
structure Numbered (d : SlaveDevice) (p : Phase) (m : ℕ) : Prop where
  numbers : p.numbers = (List.range (m + 1)).map seqNumber
  current : d.masterStatus = seqNumber m
  published : p.published = List.range m ×ˢ d.publishers

end SlaveDevice

theorem count_product_snd {α β : Type} [BEq β] [LawfulBEq β] (l₁ : List α) (l₂ : List β) (x : β) :
    ((l₁ ×ˢ l₂).map Prod.snd).count x = l₁.length * l₂.count x := by
  induction l₁ with
  | nil => simp
  | cons a l₁ ih =>
    have hmap : (l₂.map fun b => (a, b)).map Prod.snd = l₂ := by
      rw [List.map_map]
      exact List.map_id l₂
    rw [List.product_cons, List.map_append, List.count_append, ih, hmap, List.length_cons,
      Nat.succ_mul, Nat.add_comm]

namespace SlaveDevice
variable {d e : SlaveDevice} {p : Phase} {m : ℕ}

theorem Numbered.changes (h : Numbered d p m) : p.changes = m := by
  unfold Phase.changes
  rw [h.numbers, List.length_map, List.length_range, Nat.add_sub_cancel]

theorem Numbered.stale (h : Numbered d p m)
    (hs : d.slaveStatus ∈ (p.numbers.dropLast.reverse).take 245) (t : ℤ) :
    d.processOutputs t = [] := by
  obtain ⟨⟨-, -, hecho⟩, -⟩ | ⟨-, -, -, -, hout⟩ | ⟨-, -, -, -, hout⟩ := d.processSection_phase t
  · obtain ⟨j, hj, hget⟩ := List.mem_iff_getElem.mp hs
    have hlen : j < 245 ∧ j < m := by
      rw [List.length_take, List.length_reverse, List.length_dropLast, h.numbers, List.length_map,
        List.length_range] at hj
      omega
    simp only [h.numbers, List.getElem_take, List.getElem_reverse, List.getElem_dropLast,
      List.getElem_map, List.getElem_range, List.length_dropLast, List.length_map,
      List.length_range] at hget
    rw [hecho, h.current] at hget
    exact absurd hget (seqNumber_enters.ne (by omega) (by omega))
  · exact hout
  · exact hout

theorem Numbered.inSequence (h : Numbered d p m) : InSequence d p where
  current := by
    rw [h.numbers, h.current, List.range_succ, List.map_append]
    exact List.getLast?_concat
  range x hx := by
    rw [h.numbers] at hx
    obtain ⟨k, -, rfl⟩ := List.mem_map.mp hx
    exact seqNumber_range k
  noRequest := by
    obtain ⟨hlow, -⟩ := seqNumber_range m
    rw [← h.current] at hlow
    constructor
    · intro heq
      rw [heq] at hlow
      exact absurd hlow (by decide)
    · intro heq
      rw [heq] at hlow
      exact absurd hlow (by decide)
  different k := by
    rw [h.numbers]
    exact seqNumber_enters.nodup_window (m + 1) k
  stale := h.stale
  samples := by
    rw [h.published, count_product_snd, List.length_range, h.changes]
    have hcount : d.publishers.count none = 1 :=
      List.count_eq_one_of_mem d.publishers_nodup List.mem_cons_self
    rw [hcount, Nat.mul_one]
  reads k := by
    rw [h.published, count_product_snd, List.length_range, h.changes]
    simp only [← d.mem_readers k]
    split
    · next hk =>
      have hmem : some k ∈ d.publishers :=
        List.mem_cons_of_mem _ (List.mem_map_of_mem hk)
      rw [List.count_eq_one_of_mem d.publishers_nodup hmem, Nat.mul_one]
    · next hk =>
      have hnot : some k ∉ d.publishers := by
        unfold publishers
        simpa using hk
      rw [List.count_eq_zero_of_not_mem hnot, Nat.mul_zero]
  once := by
    rw [h.published]
    exact List.nodup_range.product d.publishers_nodup

theorem numbered_start (h : d.masterStatus = MASTER_READY) : Numbered d Phase.start 0 where
  numbers := rfl
  current := h
  published := rfl

theorem Numbered.congr (h : Numbered d p m) (hms : e.masterStatus = d.masterStatus)
    (htasks : e.taskList = d.taskList) : Numbered e p m where
  numbers := h.numbers
  current := hms.trans h.current
  published := by
    unfold publishers
    rw [readers_congr htasks]
    exact h.published

/-- **A processing section without the READY branch** sends the same number or the next one. -/
theorem Numbered.process (h : Numbered d p m) (t : ℤ) (hexec : ¬ d.ExecutesReady) :
    ∃ m', Numbered (d.processSection t) (p.process t d) m' := by
  have htasks := (kept_processSection t d).taskList
  have hpub : (d.processSection t).publishers = d.publishers := by
    unfold publishers
    rw [readers_congr htasks]
  obtain ⟨-, -, -, hms, hout⟩ | ⟨-, hready, -⟩ | ⟨-, -, -, hms, hout⟩ := d.processSection_phase t
  · refine ⟨m + 1, ?_, ?_, ?_⟩
    · show (if _ then _ else _) = _
      rw [if_neg (by rw [hms]; exact nextStatus_ne _), h.numbers, hms, h.current, ← seqNumber_succ,
        List.range_succ (n := m + 1), List.map_append]
      rfl
    · rw [hms, h.current, seqNumber_succ]
    · show p.published ++ _ = _
      have hsources : (d.echoOutputs t).map (fun o => (m, o.task)) =
          d.publishers.map fun o => (m, o) := by
        unfold echoOutputs publishers
        simp only [List.map_cons, List.map_map]
        rfl
      rw [hout, h.changes, h.published, hsources, hpub]
      show _ = (List.range (m + 1)).flatMap _
      rw [List.range_succ, List.flatMap_append, List.flatMap_singleton]
      rfl
  · exact absurd hready hexec
  · refine ⟨m, ?_, ?_, ?_⟩
    · show (if _ then _ else _) = _
      rw [if_pos hms, h.numbers]
    · rw [hms, h.current]
    · show p.published ++ _ = _
      rw [hout, List.map_nil, List.append_nil, hpub]
      exact h.published

/-- The invariant of a slave with the phase it may be in. -/
def InPhase (d : SlaveDevice) (g : Option Phase) : Prop := ∀ p ∈ g, ∃ m, Numbered d p m

theorem inPhase_ofStatus {status : UInt8} (h : d.masterStatus = status) :
    d.InPhase (Phase.ofStatus status) := by
  intro p hp
  unfold Phase.ofStatus at hp
  split at hp
  · next hready =>
    obtain rfl := Option.some.inj hp
    exact ⟨0, numbered_start (h.trans hready)⟩
  · cases hp

theorem InPhase.congr {g : Option Phase} (h : d.InPhase g) (hms : e.masterStatus = d.masterStatus)
    (htasks : e.taskList = d.taskList) : e.InPhase g := by
  intro p hp
  obtain ⟨m, hm⟩ := h p hp
  exact ⟨m, hm.congr hms htasks⟩

theorem InPhase.run {cfg : ConfigurationParser} {g : Option Phase} (s : Section)
    (h : d.InPhase g) : (s.run cfg d).InPhase (Phase.update cfg g d s) := by
  cases s with
  | init eepId snRead swRevStr => exact inPhase_ofStatus rfl
  | process t =>
    show (d.processSection t).InPhase (if _ then _ else _)
    split
    · exact inPhase_ofStatus rfl
    · next hexec =>
      intro p' hp'
      obtain ⟨p, hp, rfl⟩ := Option.map_eq_some_iff.mp hp'
      obtain ⟨m, hm⟩ := h p hp
      exact hm.process t hexec
  | exitReset =>
    obtain ⟨bytes, hd, -⟩ := exitReset_eq cfg d
    rw [hd]
    exact h.congr rfl rfl
  | command task msg =>
    obtain ⟨bytes, hd, -⟩ := command_eq cfg task msg d
    rw [hd]
    exact h.congr rfl rfl
  | receive inputs | transfer | preRecover | resetState | lost | recoverState =>
    exact h.congr rfl rfl

end SlaveDevice

namespace Node
variable {n : ℕ} {cfg : ConfigurationParser}

/-- **Sequence numbers.** In every state of a ready phase, in every run: the numbers sent are in
3..250 and differ from the 245 before them, an older echo publishes nothing, and samples, sweeps over
the tasks and changes of the number are equally many, each task once for each number. -/
theorem numbers_inSequence (N : Node n) (i : Fin n) {es : List (Event n)}
    {q : Node n × Option Phase}
    (hrun : exec (watchSlave cfg i (Phase.update cfg))
      (N, Phase.ofStatus (N.slots i).dev.masterStatus) es = some q) :
    ∀ p ∈ q.2, (q.1.slots i).dev.InSequence p := by
  have hinv : (q.1.slots i).dev.InPhase q.2 := by
    refine exec_invariant (fun q : Node n × Option Phase => (q.1.slots i).dev.InPhase q.2) ?_
      (SlaveDevice.inPhase_ofStatus rfl) hrun
    intro p e q hp hstep
    obtain ⟨-, ⟨-, hdev, hg⟩ | ⟨s, -, hdev, hg⟩⟩ := watchSlave_some hstep
    · rw [hdev, hg]
      exact hp
    · rw [hdev, hg]
      exact hp.run s
  intro p hp
  obtain ⟨m, hm⟩ := hinv p hp
  exact hm.inSequence

/-- The DSHOT board, ready and three echoes on. -/
theorem numbers_inSequence_dshot :
    ∃ q p, exec (watchSlave SlaveDevice.dshotConfig 0 (Phase.update SlaveDevice.dshotConfig))
        (dshotNode, none) (startUp ++ turn [4] ++ turn [5]) = some q ∧ q.2 = some p ∧
      p.numbers = [3, 4, 5, 6] ∧ (q.1.slots 0).dev.InSequence p := by
  have hsome : ((exec (watchSlave SlaveDevice.dshotConfig 0 (Phase.update SlaveDevice.dshotConfig))
      (dshotNode, none) (startUp ++ turn [4] ++ turn [5])).any fun q =>
        q.2.any fun p => p.numbers = [3, 4, 5, 6]) = true := by
    decide +kernel
  obtain ⟨q, hq, hany⟩ := (Option.any_eq_true _ _).mp hsome
  obtain ⟨p, hp, hnumbers⟩ := (Option.any_eq_true _ _).mp hany
  exact ⟨q, p, hq, hp, of_decide_eq_true hnumbers, numbers_inSequence dshotNode 0 hq p hp⟩

end Node
end EcatMaster
