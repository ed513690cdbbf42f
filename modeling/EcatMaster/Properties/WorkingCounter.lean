import Mathlib.Algebra.BigOperators.Fin
import Mathlib.Data.List.Indexes
import EcatMaster.Properties.ProcessCycle

/-! # The working counter of a cycle

Every slave counts what it has read and written, and the master adds up the counters of the frames that
have come back. Since exactly one frame carries the outputs of a slave and one its inputs, the sum is what
the program expects if and only if everything has come through.
-/

namespace EcatMaster.Soem
set_option autoImplicit false
open Placement LogicalBus

/-- What a frame that has come back adds to the working counter. -/
def Frame.gain (f : Frame) (fate : Fate) (counted : ℕ) : ℕ :=
  if fate.returns then (if f.com.reads then 1 else 2) * (counted % 2 ^ 16) else 0

section Counter
variable {f : Frame}

theorem pull_wkc (r : Receiving) (n : ℕ) (fate : Fate) (reply : Datagram UInt8 × ℕ)
    (hcom : f.com = .LRD ∨ f.com = .LWR ∨ f.com = .LRW) (hdc : f.dc = true → r.wkc = 0) :
    (r.pull (f.entry n) (f.answer fate reply)).wkc = r.wkc + f.gain fate reply.2 ∧
      (r.pull (f.entry n) (f.answer fate reply)).valid_wkc = (r.valid_wkc || fate.returns) := by
  unfold Frame.answer Frame.gain
  cases fate.returns with
  | false => simp [Receiving.pull]
  | true =>
    cases hd : f.dc with
    | false =>
      rcases hcom with h | h | h
      · simp [Receiving.pull, Frame.entry, h, hd, Cmd.reads]
      · simp [Receiving.pull, Frame.entry, h, hd, Cmd.reads, Int.mul_comm]
      · simp [Receiving.pull, Frame.entry, h, hd, Cmd.reads]
    | true =>
      rw [hdc hd]
      rcases hcom with h | h | h
      · simp [Receiving.pull, Frame.entry, h, hd, Cmd.reads]
      · simp [Receiving.pull, Frame.entry, h, hd, Cmd.reads, Int.mul_comm]
      · simp [Receiving.pull, Frame.entry, h, hd, Cmd.reads]

/-- The working counter behind the index stack. Only the first frame has a datagram for the clocks. -/
theorem foldl_pull_wkc (waitinframe : ℕ → Option Answer) (fate : ℕ → Fate)
    (reply : ℕ → Frame → Datagram UInt8 × ℕ) (frames : List Frame) (m : ℕ)
    (hwait : ∀ n f, frames[n]? = some f → waitinframe (m + n) = f.answer (fate (m + n)) (reply (m + n) f))
    (hcom : ∀ f ∈ frames, f.com = .LRD ∨ f.com = .LWR ∨ f.com = .LRW) {r : Receiving}
    (hdc : ∀ n f, frames[n]? = some f → f.dc = true → n = 0 ∧ r.wkc = 0) :
    ((frames.mapIdx fun n => Frame.entry (m + n)).foldl
        (fun r e => r.pull e (waitinframe e.idx)) r).wkc =
      r.wkc + ((frames.mapIdx fun n f => f.gain (fate (m + n)) (reply (m + n) f).2).sum : ℕ) ∧
    (((frames.mapIdx fun n => Frame.entry (m + n)).foldl
        (fun r e => r.pull e (waitinframe e.idx)) r).valid_wkc = true ↔
      r.valid_wkc = true ∨ ∃ n < frames.length, (fate (m + n)).returns = true) := by
  induction frames generalizing m r with
  | nil => simp
  | cons f frames ih =>
    have hfirst := pull_wkc r (m + 0) (fate (m + 0)) (reply (m + 0) f) (hcom f List.mem_cons_self)
      fun h => (hdc 0 f rfl h).2
    have hshift : ∀ n, m + (n + 1) = m + 1 + n := fun n => by omega
    rw [List.mapIdx_cons, List.mapIdx_cons, List.foldl_cons, List.sum_cons,
      show (f.entry (m + 0)).idx = m + 0 from rfl, hwait 0 f rfl]
    have hentries : (fun n => Frame.entry (m + (n + 1))) = fun n => Frame.entry (m + 1 + n) :=
      funext fun n => by rw [hshift]
    have hgains : (fun n (f : Frame) => f.gain (fate (m + (n + 1))) (reply (m + (n + 1)) f).2) =
        fun n (f : Frame) => f.gain (fate (m + 1 + n)) (reply (m + 1 + n) f).2 :=
      funext fun n => by rw [hshift]
    rw [hentries, hgains]
    obtain ⟨hsum, hvalid⟩ := ih (m + 1) (fun n x hx => by rw [← hshift]; exact hwait (n + 1) x hx)
      (fun x hx => hcom x (List.mem_cons_of_mem _ hx))
      (r := r.pull (f.entry (m + 0)) (f.answer (fate (m + 0)) (reply (m + 0) f)))
      fun n x hx hd => absurd (hdc (n + 1) x hx hd).1 (Nat.succ_ne_zero n)
    constructor
    · rw [hsum, hfirst.1]
      omega
    · rw [hvalid, hfirst.2, Bool.or_eq_true]
      constructor
      · rintro ((h | h) | ⟨n, hn, h⟩)
        · exact Or.inl h
        · exact Or.inr ⟨0, by simp, h⟩
        · exact Or.inr ⟨n + 1, by simpa using hn, by rwa [hshift]⟩
      · rintro (h | ⟨n, hn, h⟩)
        · exact Or.inl (Or.inl h)
        · cases n with
          | zero => exact Or.inl (Or.inr h)
          | succ n => exact Or.inr ⟨n, by simpa using hn, by rwa [hshift] at h⟩

/-- The counts of one slave, as the master adds them up. -/
theorem count_weighted (s : Station UInt8) (hcom : f.com = .LRD ∨ f.com = .LWR ∨ f.com = .LRW) :
    (if f.com.reads then 1 else 2) * s.count f.datagram =
      (if f.com.reads = true ∧ ∃ w ∈ s.reads, w.Meets f.datagram then 1 else 0) +
        2 * if f.com.writes = true ∧ ∃ w ∈ s.writes, w.Meets f.datagram then 1 else 0 := by
  unfold Station.count
  rw [show f.datagram.reads = f.com.reads from rfl, show f.datagram.writes = f.com.writes from rfl]
  rcases hcom with h | h | h
  · simp [h, Cmd.reads, Cmd.writes]
  · simp [h, Cmd.reads, Cmd.writes]
  · simp only [h, Cmd.reads, Cmd.writes, decide_true, or_true, true_and, if_true, Nat.one_mul]
    congr 1
    split <;> rfl

end Counter
section Sums
variable {frames : List Frame} {fate : ℕ → Fate} {k : ℕ} {p : Cmd → Bool}

theorem sum_mapIdx {α : Type} (l : List α) (f : ℕ → α → ℕ) :
    (l.mapIdx f).sum = ∑ n : Fin l.length, f n l[n] := by
  rw [List.mapIdx_eq_ofFn, List.sum_ofFn]
  rfl

/-- The frame has come back, slave `k` has taken part in it, and it meets the windows. -/
def Hit (p : Cmd → Bool) (windows : List Window) (k : ℕ) (fate : Fate) (f : Frame) : Prop :=
  fate.returns = true ∧ fate.takes k = true ∧ p f.com = true ∧ ∃ w ∈ windows, w.Meets f.datagram

instance (p : Cmd → Bool) (windows : List Window) (k : ℕ) (fate : Fate) (f : Frame) :
    Decidable (Hit p windows k fate f) := inferInstanceAs (Decidable (_ ∧ _ ∧ _ ∧ _))

theorem hit_of_returns {windows : List Window} {fate : Fate} {f : Frame} (hret : fate.returns = true) :
    (if Hit p windows k fate f then 1 else 0) = if fate.takes k = true then
      (if p f.com = true ∧ ∃ w ∈ windows, w.Meets f.datagram then 1 else 0) else 0 := by
  by_cases htakes : fate.takes k = true
  · simp [Hit, hret, htakes]
  · simp [Hit, htakes]

def hits (frames : List Frame) (fate : ℕ → Fate) (k : ℕ) (p : Cmd → Bool) (windows : List Window) : ℕ :=
  (frames.mapIdx fun n f => if Hit p windows k (fate n) f then 1 else 0).sum

theorem count_le (s : Station UInt8) (d : Datagram UInt8) : s.count d ≤ 3 := by
  unfold Station.count
  split
  · split
    · split <;> omega
    · omega
  · split
    · split <;> omega
    · omega

theorem counted_le (takes : ℕ → Bool) (bus : List (Station UInt8)) (d : Datagram UInt8) :
    counted takes bus d ≤ 3 * bus.length := by
  induction bus generalizing takes with
  | nil => exact Nat.le_refl _
  | cons s bus ih =>
    have hrest := ih fun k => takes (k + 1)
    have hfirst := count_le s d
    rw [counted, List.length_cons]
    split <;> omega

/-- What the master gains by a frame, slave by slave. -/
theorem gain_eq {bus : List (Station UInt8)} {f : Frame} {fate : Fate} (hbus : bus.length ≤ EC_MAXSLAVE)
    (hcom : f.com = .LRD ∨ f.com = .LWR ∨ f.com = .LRW) :
    f.gain fate (counted fate.takes bus f.datagram) = ∑ k : Fin bus.length,
      ((if Hit Cmd.reads bus[k].reads k fate f then 1 else 0) +
        2 * if Hit Cmd.writes bus[k].writes k fate f then 1 else 0) := by
  have hmax : EC_MAXSLAVE = 200 := rfl
  have hlt := counted_le fate.takes bus f.datagram
  unfold Frame.gain
  rw [Nat.mod_eq_of_lt (by omega), counted_eq, sum_mapIdx]
  split
  · next hret =>
    rw [Finset.mul_sum]
    refine Finset.sum_congr rfl fun k _ => ?_
    rw [hit_of_returns hret, hit_of_returns hret]
    by_cases htakes : fate.takes k = true
    · rw [if_pos htakes, if_pos htakes, if_pos htakes]
      exact count_weighted _ hcom
    · rw [if_neg htakes, if_neg htakes, if_neg htakes, Nat.mul_zero, Nat.mul_zero]
  · next hret =>
    refine (Finset.sum_eq_zero fun k _ => ?_).symm
    rw [if_neg fun h => hret h.1, if_neg fun h => hret h.1, Nat.zero_add, Nat.mul_zero]

theorem gain_sum (fate : ℕ → Fate) {bus : List (Station UInt8)} (hbus : bus.length ≤ EC_MAXSLAVE)
    (hcom : ∀ f ∈ frames, f.com = .LRD ∨ f.com = .LWR ∨ f.com = .LRW) :
    (frames.mapIdx fun n f => f.gain (fate n) (counted (fate n).takes bus f.datagram)).sum =
      (bus.mapIdx fun k s => hits frames fate k Cmd.reads s.reads +
        2 * hits frames fate k Cmd.writes s.writes).sum := by
  rw [sum_mapIdx, sum_mapIdx,
    Finset.sum_congr rfl fun n _ => gain_eq hbus (hcom _ (List.getElem_mem n.isLt)), Finset.sum_comm]
  refine Finset.sum_congr rfl fun k _ => ?_
  rw [Finset.sum_add_distrib, ← Finset.mul_sum, hits, hits, sum_mapIdx, sum_mapIdx]

theorem hits_nil : hits frames fate k p [] = 0 := by
  rw [hits, sum_mapIdx]
  exact Finset.sum_eq_zero fun n _ => if_neg fun h => by
    obtain ⟨w, hw, -⟩ := h.2.2.2
    cases hw

/-- The frame that carries the area has come back, and slave `k` has taken part in it. -/
def Delivered (frames : List Frame) (fate : ℕ → Fate) (k : ℕ) (p : Cmd → Bool) (w : Area) : Prop :=
  ∃ n f, frames[n]? = some f ∧ p f.com = true ∧ f.Covers w ∧ (fate n).returns = true ∧
    (fate n).takes k = true

theorem Carried.get {w : Area} (h : Carried frames p w) :
    ∃ n : ℕ, ∃ f : Frame, frames[n]? = some f ∧ p f.com = true ∧ f.Covers w ∧
    ∀ m : ℕ, ∀ x : Frame, frames[m]? = some x → m ≠ n → p x.com = true →
      x.stop ≤ f.LogAdr ∨ f.stop ≤ x.LogAdr := by
  obtain ⟨pre, f, post, rfl, hp, hcovers, hothers⟩ := h
  refine ⟨pre.length, f, ?_, hp, hcovers, ?_⟩
  · rw [List.getElem?_append_right (Nat.le_refl _), Nat.sub_self]
    rfl
  · intro m x hx hne
    apply hothers
    rcases Nat.lt_or_gt_of_ne hne with hlt | hgt
    · rw [List.getElem?_append_left hlt] at hx
      exact List.mem_append_left _ (List.mem_of_getElem? hx)
    · obtain ⟨d, rfl⟩ := Nat.exists_eq_add_of_lt hgt
      rw [List.getElem?_append_right (by omega), show pre.length + d + 1 - pre.length = d + 1 by omega,
        List.getElem?_cons_succ] at hx
      exact List.mem_append_right _ (List.mem_of_getElem? hx)

theorem Carried.unique {w : Area} (h : Carried frames p w) (hpos : 0 < w.length) {m n : ℕ} {x y : Frame}
    (hx : frames[m]? = some x) (hpx : p x.com = true) (hcx : x.Covers w) (hy : frames[n]? = some y)
    (hpy : p y.com = true) (hcy : y.Covers w) : m = n := by
  obtain ⟨l, f, -, -, hcovers, hothers⟩ := h.get
  have hl : ∀ {i : ℕ} {z : Frame}, frames[i]? = some z → p z.com = true → z.Covers w → i = l := by
    intro i z hz hpz hcz
    by_contra hne
    have hapart := hothers i z hz hne hpz
    unfold Frame.Covers Area.stop at *
    omega
  rw [hl hx hpx hcx, hl hy hpy hcy]

/-- An area that one frame carries is counted once, if it has been delivered. -/
theorem hits_one {w : Window} {area : Area} (hcarried : Carried frames p area) (hpos : 0 < area.length)
    (hstart : w.start = area.start) (hlength : w.length = area.length) :
    hits frames fate k p [w] ≤ 1 ∧ (hits frames fate k p [w] = 1 ↔ Delivered frames fate k p area) := by
  obtain ⟨n, f, hf, hp, hcovers, hothers⟩ := hcarried.get
  obtain ⟨hn, hfn⟩ := List.getElem?_eq_some_iff.mp hf
  have hmiss : ∀ m : ℕ, ∀ x : Frame, frames[m]? = some x → m ≠ n → p x.com = true → ¬ w.Meets x.datagram := by
    intro m x hx hne hpx
    have hapart := hothers m x hx hne hpx
    unfold Window.Meets Frame.Covers Frame.datagram Frame.stop Area.stop at *
    simp only [] at *
    omega
  have hmeets : w.Meets f.datagram := by
    unfold Window.Meets Frame.Covers Frame.datagram Frame.stop Area.stop at *
    simp only []
    omega
  have hsum : hits frames fate k p [w] =
      if (fate n).returns = true ∧ (fate n).takes k = true then 1 else 0 := by
    rw [hits, sum_mapIdx, Finset.sum_eq_single ⟨n, hn⟩]
    · simp [Hit, hfn, hp, hmeets]
    · intro m _ hne
      apply if_neg
      rintro ⟨-, -, hpm, v, hv, hmeet⟩
      rw [List.mem_singleton.mp hv] at hmeet
      exact hmiss m _ (List.getElem?_eq_getElem m.isLt) (fun h => hne (Fin.ext h)) hpm hmeet
    · intro h
      exact absurd (Finset.mem_univ _) h
  have hiff : Delivered frames fate k p area ↔ (fate n).returns = true ∧ (fate n).takes k = true := by
    constructor
    · rintro ⟨m, x, hx, hpx, hcx, hrest⟩
      rwa [hcarried.unique hpos hx hpx hcx hf hp hcovers] at hrest
    · exact fun h => ⟨n, f, hf, hp, hcovers, h⟩
  rw [hsum, hiff]
  split
  · next h => exact ⟨Nat.le_refl _, fun _ => h, fun _ => rfl⟩
  · next h => exact ⟨Nat.zero_le _, fun h' => absurd h' (by decide), fun h' => absurd h' h⟩

/-- The sum over the slaves against the number of slaves with outputs and with inputs. -/
theorem sum_slaves (slaves : List MapSlave) (a b : ℕ → MapSlave → ℕ)
    (ha : ∀ k s, slaves[k]? = some s → a k s ≤ if s.Ibits ≠ 0 then 1 else 0)
    (hb : ∀ k s, slaves[k]? = some s → b k s ≤ if s.Obits ≠ 0 then 1 else 0) :
    (slaves.mapIdx fun k s => a k s + 2 * b k s).sum ≤
        (slaves.filter fun s => s.Obits ≠ 0).length * 2 + (slaves.filter fun s => s.Ibits ≠ 0).length ∧
      ((slaves.mapIdx fun k s => a k s + 2 * b k s).sum =
        (slaves.filter fun s => s.Obits ≠ 0).length * 2 + (slaves.filter fun s => s.Ibits ≠ 0).length ↔
      ∀ k s, slaves[k]? = some s →
        (s.Obits ≠ 0 → b k s = 1) ∧ (s.Ibits ≠ 0 → a k s = 1)) := by
  induction slaves generalizing a b with
  | nil => simp
  | cons s slaves ih =>
    have hfirst := ha 0 s rfl
    have hfirst' := hb 0 s rfl
    obtain ⟨hle, hiff⟩ := ih (fun k => a (k + 1)) (fun k => b (k + 1))
      (fun k t ht => ha (k + 1) t ht) (fun k t ht => hb (k + 1) t ht)
    rw [List.mapIdx_cons, List.sum_cons, List.filter_cons, List.filter_cons]
    have hcons : (∀ k t, (s :: slaves)[k]? = some t →
          (t.Obits ≠ 0 → b k t = 1) ∧ (t.Ibits ≠ 0 → a k t = 1)) ↔
        ((s.Obits ≠ 0 → b 0 s = 1) ∧ (s.Ibits ≠ 0 → a 0 s = 1)) ∧ ∀ k t, slaves[k]? = some t →
          (t.Obits ≠ 0 → b (k + 1) t = 1) ∧ (t.Ibits ≠ 0 → a (k + 1) t = 1) := by
      constructor
      · exact fun h => ⟨h 0 s rfl, fun k t ht => h (k + 1) t ht⟩
      · rintro ⟨hzero, hsucc⟩ k t ht
        cases k with
        | zero =>
          cases ht
          exact hzero
        | succ k => exact hsucc k t ht
    rw [hcons, ← hiff]
    clear hcons hiff ih ha hb
    simp only [ne_eq] at hle
    by_cases hO : s.Obits = 0
    · by_cases hI : s.Ibits = 0
      · simp only [hO, hI, ne_eq, not_true_eq_false, decide_false, Bool.false_eq_true, if_false,
          false_imp_iff, true_and] at hfirst hfirst' ⊢
        omega
      · simp only [hO, hI, ne_eq, not_true_eq_false, decide_false, Bool.false_eq_true, if_false,
          not_false_eq_true, decide_true, if_true, List.length_cons, false_imp_iff, true_imp_iff,
          true_and] at hfirst hfirst' ⊢
        omega
    · by_cases hI : s.Ibits = 0
      · simp only [hO, hI, ne_eq, not_true_eq_false, decide_false, Bool.false_eq_true, if_false,
          not_false_eq_true, decide_true, if_true, List.length_cons, false_imp_iff, true_imp_iff,
          and_true] at hfirst hfirst' ⊢
        omega
      · simp only [hO, hI, ne_eq, not_false_eq_true, decide_true, if_true, List.length_cons,
          true_imp_iff] at hfirst hfirst' ⊢
        omega

end Sums

section Cycle
variable {slaves : List MapSlave} {g : MapGroup} {iomap : List UInt8} {hasdc : Bool} {sent : Sending}
  (fate : ℕ → Fate) (memory : ℕ → ℕ → UInt8)

/-- The counts of a slave are those of its two windows. -/
theorem hits_slave (himage : PlainImage slaves g)
    (hsent : Sent g.IOsegment iomap hasdc g.Obytes (g.Obytes + g.Ibytes) sent) {k : ℕ} {s : MapSlave}
    (hs : slaves[k]? = some s) :
    (hits sent.frames fate k Cmd.reads (s.station (memory k)).reads ≤ (if s.Ibits ≠ 0 then 1 else 0) ∧
      (s.Ibits ≠ 0 → (hits sent.frames fate k Cmd.reads (s.station (memory k)).reads = 1 ↔
        Delivered sent.frames fate k Cmd.reads s.inWindow))) ∧
    (hits sent.frames fate k Cmd.writes (s.station (memory k)).writes ≤ (if s.Obits ≠ 0 then 1 else 0) ∧
      (s.Obits ≠ 0 → (hits sent.frames fate k Cmd.writes (s.station (memory k)).writes = 1 ↔
        Delivered sent.frames fate k Cmd.writes s.outWindow))) := by
  have hmem := List.mem_of_getElem? hs
  have hdone := himage.done s hmem
  rw [station_reads hdone, station_writes hdone]
  constructor
  · by_cases hb : s.Ibits = 0
    · rw [if_pos hb, if_neg (not_not.mpr hb), hits_nil]
      exact ⟨Nat.le_refl _, fun h => absurd hb h⟩
    · obtain ⟨hfrom, hto⟩ := himage.ins.within s hmem hb
      have hpos : 0 < s.inWindow.length := by
        simp only [MapSlave.inWindow]
        omega
      rw [if_neg hb, if_pos hb]
      obtain ⟨hle, hiff⟩ := hits_one (w := s.reading)
        (hsent.inputs _ hpos hfrom hto (himage.ins.inside s hmem hb)) hpos rfl rfl
      exact ⟨hle, fun _ => hiff⟩
  · by_cases hb : s.Obits = 0
    · rw [if_pos hb, if_neg (not_not.mpr hb), hits_nil]
      exact ⟨Nat.le_refl _, fun h => absurd hb h⟩
    · have hto := (himage.outs.within s hmem hb).2
      have hpos : 0 < s.outWindow.length := by
        simp only [MapSlave.outWindow]
        omega
      rw [if_neg hb, if_pos hb]
      obtain ⟨hle, hiff⟩ := hits_one (w := s.writing)
        (hsent.outputs _ hpos hto (himage.outs.inside s hmem hb)) hpos rfl rfl
      exact ⟨hle, fun _ => hiff⟩

/-- Everything that the slaves have in the image has come through. -/
def AllDelivered (slaves : List MapSlave) (frames : List Frame) (fate : ℕ → Fate) : Prop :=
  ∀ k s, slaves[k]? = some s →
    (s.Obits ≠ 0 → Delivered frames fate k Cmd.writes s.outWindow) ∧
      (s.Ibits ≠ 0 → Delivered frames fate k Cmd.reads s.inWindow)

theorem some_data (himage : PlainImage slaves g) (hdata : g.Obytes + g.Ibytes ≠ 0) :
    ∃ k : ℕ, ∃ s : MapSlave, slaves[k]? = some s ∧ (s.Obits ≠ 0 ∨ s.Ibits ≠ 0) := by
  have hget : ∀ s ∈ slaves, ∃ k : ℕ, slaves[k]? = some s := fun s hs => List.mem_iff_getElem?.mp hs
  by_cases hO : g.Obytes = 0
  · obtain ⟨s, hs, hb, -⟩ := himage.ins.filled g.Obytes (Nat.le_refl _) (by omega)
    obtain ⟨k, hk⟩ := hget s hs
    exact ⟨k, s, hk, Or.inr hb⟩
  · obtain ⟨s, hs, hb, -⟩ := himage.outs.filled 0 (Nat.le_refl _) (by omega)
    obtain ⟨k, hk⟩ := hget s hs
    exact ⟨k, s, hk, Or.inl hb⟩

/-- What `ecx_receive_processdata_group` returns, against what the program expects. -/
theorem wkc_sent (himage : PlainImage slaves g)
    (hsent : Sent g.IOsegment iomap hasdc g.Obytes (g.Obytes + g.Ibytes) sent)
    (hslaves : slaves.length ≤ EC_MAXSLAVE) (hdata : g.Obytes + g.Ibytes ≠ 0) (DCtime : ℕ) :
    (receiveProcessdata (answers sent.frames fate (stations slaves memory)) sent.idxstack iomap DCtime).2 ≤
        (g.outputsWKC * 2 + g.inputsWKC : ℕ) ∧
      ((receiveProcessdata (answers sent.frames fate (stations slaves memory)) sent.idxstack iomap
          DCtime).2 = (g.outputsWKC * 2 + g.inputsWKC : ℕ) ↔ AllDelivered slaves sent.frames fate) := by
  have hcom : ∀ f ∈ sent.frames, f.com = .LRD ∨ f.com = .LWR ∨ f.com = .LRW := by
    intro f hf
    rcases hsent.com f hf with h | h
    · exact Or.inl h.1
    · exact Or.inr h
  have hstack : sent.idxstack = sent.frames.mapIdx fun n => Frame.entry (0 + n) := by
    rw [hsent.ok.idxstack, List.take_of_length_le (by rw [List.length_mapIdx]; exact hsent.few)]
    simp only [Nat.zero_add]
  let bus := stations slaves memory
  obtain ⟨hwkc, hvalid⟩ := foldl_pull_wkc (answers sent.frames fate bus) fate
    (fun n f => (carry (fate n).takes (rounds ((row sent.frames fate).take n) bus) f.datagram,
      counted (fate n).takes bus f.datagram))
    sent.frames 0 (by
      intro n f hf
      rw [Nat.zero_add]
      exact answers_get fate bus hf) hcom (r := ⟨iomap, DCtime, 0, false⟩) (by
      intro n f hf hd
      rw [hsent.ok.dc n f hf] at hd
      simp only [Bool.and_eq_true, beq_iff_eq] at hd
      exact ⟨hd.1, rfl⟩)
  have hbus : (bus.mapIdx fun k s => hits sent.frames fate k Cmd.reads s.reads +
      2 * hits sent.frames fate k Cmd.writes s.writes) =
      slaves.mapIdx fun k s => hits sent.frames fate k Cmd.reads (s.station (memory k)).reads +
        2 * hits sent.frames fate k Cmd.writes (s.station (memory k)).writes := List.mapIdx_mapIdx
  have hlen : bus.length = slaves.length := List.length_mapIdx
  simp only [Nat.zero_add] at hwkc hvalid
  rw [gain_sum fate (by omega) hcom, hbus] at hwkc
  obtain ⟨hle, hiff⟩ := sum_slaves slaves
    (fun k s => hits sent.frames fate k Cmd.reads (s.station (memory k)).reads)
    (fun k s => hits sent.frames fate k Cmd.writes (s.station (memory k)).writes)
    (fun k s hs => (hits_slave fate memory himage hsent hs).1.1)
    (fun k s hs => (hits_slave fate memory himage hsent hs).2.1)
  have hall : (∀ k s, slaves[k]? = some s →
        (s.Obits ≠ 0 → hits sent.frames fate k Cmd.writes (s.station (memory k)).writes = 1) ∧
        (s.Ibits ≠ 0 → hits sent.frames fate k Cmd.reads (s.station (memory k)).reads = 1)) ↔
      AllDelivered slaves sent.frames fate := by
    refine forall_congr' fun k => forall_congr' fun s => forall_congr' fun hs => ?_
    obtain ⟨⟨-, hin⟩, -, hout⟩ := hits_slave fate memory himage hsent hs
    exact and_congr (forall_congr' hout) (forall_congr' hin)
  unfold receiveProcessdata
  rw [hstack]
  simp only [Nat.zero_add] at hwkc hvalid ⊢
  split
  · rw [hwkc, himage.outputsWKC, himage.inputsWKC, ← hall, ← hiff]
    simp only [zero_add]
    exact ⟨Int.ofNat_le.mpr hle, Int.ofNat_inj⟩
  · next hnone =>
    have hlost : ¬ AllDelivered slaves sent.frames fate := by
      intro hdelivered
      obtain ⟨k, s, hs, hdata⟩ := some_data himage hdata
      obtain ⟨hout, hin⟩ := hdelivered k s hs
      have hreturned : ∀ {p w}, Delivered sent.frames fate k p w → False := by
        rintro p w ⟨n, f, hf, -, -, hret, -⟩
        exact hnone (hvalid.mpr (Or.inr ⟨n, (List.getElem?_eq_some_iff.mp hf).1, hret⟩))
      rcases hdata with hb | hb
      · exact hreturned (hout hb)
      · exact hreturned (hin hb)
    have hminus : EC_NOFRAME = -1 := rfl
    refine ⟨by omega, fun h => ?_, fun h => absurd h hlost⟩
    omega

end Cycle
end EcatMaster.Soem
