import EcatMaster.Properties.ProcessFrames

/-! # One cycle of process data

Frames get lost on the way to the slaves or back, and slaves do not take part. Whatever happens, the
outputs of a slave reach it as a whole or not at all, its inputs come back as a whole or not at all, and
the master's outputs stay.
-/

namespace EcatMaster.Soem
set_option autoImplicit false
open Placement LogicalBus

def EC_MAXSLAVE : ℕ := 200

namespace MapSlave

def outPhys (s : MapSlave) : ℕ := (s.SM (nextSm s.SM 3 EC_MAXSM 0)).StartAddr

def inPhys (s : MapSlave) : ℕ := (s.SM (nextSm s.SM 4 EC_MAXSM 0)).StartAddr

def Apart (s : MapSlave) : Prop :=
  s.outPhys + (s.Obits + 7) / 8 ≤ s.inPhys ∨ s.inPhys + (s.Ibits + 7) / 8 ≤ s.outPhys

instance (s : MapSlave) : Decidable s.Apart := inferInstanceAs (Decidable (_ ∨ _))

def writing (s : MapSlave) : Window := ⟨s.outWindow.start, s.outWindow.length, s.outPhys⟩
def reading (s : MapSlave) : Window := ⟨s.inWindow.start, s.inWindow.length, s.inPhys⟩

end MapSlave

section Stations
variable {s : MapSlave} {slaves : List MapSlave} {g : MapGroup} {memory : ℕ → ℕ → UInt8} {k a : ℕ}

theorem station_writes (h : s.Done) (mem : ℕ → UInt8) :
    (s.station mem).writes = if s.Obits = 0 then [] else [s.writing] := by
  simp only [MapSlave.station, h.outFmmus]
  split <;> rfl

theorem station_reads (h : s.Done) (mem : ℕ → UInt8) :
    (s.station mem).reads = if s.Ibits = 0 then [] else [s.reading] := by
  simp only [MapSlave.station, h.inFmmus]
  split <;> rfl

theorem stations_get (memory : ℕ → ℕ → UInt8) (hs : slaves[k]? = some s) :
    (stations slaves memory)[k]? = some (s.station (memory k)) := by
  rw [stations, List.getElem?_mapIdx, hs]
  rfl

theorem silent_outputs (h : PlainImage slaves g) (ha : a < g.Obytes) : Silent (stations slaves memory) a := by
  intro t ht w hw
  obtain ⟨n, hn⟩ := List.mem_iff_getElem?.mp ht
  rw [stations, List.getElem?_mapIdx] at hn
  obtain ⟨s, hs, rfl⟩ := Option.map_eq_some_iff.mp hn
  have hmem := List.mem_of_getElem? hs
  rw [station_reads (h.done s hmem)] at hw
  split at hw
  · cases hw
  · next hb =>
    rw [List.mem_singleton.mp hw]
    have := (h.ins.within s hmem hb).1
    unfold Window.Has MapSlave.reading
    simp only []
    omega

theorem alone_inputs (h : PlainImage slaves g) (hs : slaves[k]? = some s) (hb : s.Ibits ≠ 0)
    (ha : s.reading.Has a) : Alone (stations slaves memory) k a := by
  intro n t ht hne w hw
  rw [stations, List.getElem?_mapIdx] at ht
  obtain ⟨u, hu, rfl⟩ := Option.map_eq_some_iff.mp ht
  have hmem := List.mem_of_getElem? hu
  rw [station_reads (h.done u hmem)] at hw
  split at hw
  · cases hw
  · next hub =>
    rw [List.mem_singleton.mp hw]
    have hpair := List.pairwise_iff_getElem.mp h.ins.apart
    obtain ⟨hk, hks⟩ := List.getElem?_eq_some_iff.mp hs
    obtain ⟨hn, hnu⟩ := List.getElem?_eq_some_iff.mp hu
    unfold Window.Has MapSlave.reading at ha ⊢
    simp only [] at ha ⊢
    rcases Nat.lt_or_gt_of_ne hne with hlt | hgt
    · have hsep := hpair n k hn hk hlt
      rw [hks, hnu] at hsep
      have := hsep hub hb
      unfold Area.stop at this
      omega
    · have hsep := hpair k n hk hn hgt
      rw [hks, hnu] at hsep
      have := hsep hb hub
      unfold Area.stop at this
      omega

end Stations

section Frames
variable {f : Frame} {frames pre post : List Frame} {iomap : List UInt8} {a : ℕ}

theorem datagram_at (hcom : f.com = .LRD ∨ f.com = .LWR ∨ f.com = .LRW)
    (hdata : f.data = writedatagramdata f.com (ByteBuf.window iomap f.LogAdr f.data.length))
    (hroom : f.stop ≤ iomap.length) (hlow : f.LogAdr ≤ a) (hhigh : a < f.stop) :
    f.datagram.at a = some (if f.com = .LRD then 0 else iomap.getD a 0) := by
  unfold Frame.stop at hhigh hroom
  have hlt : a - f.LogAdr < f.data.length := by omega
  have hget : (ByteBuf.window iomap f.LogAdr f.data.length)[a - f.LogAdr]? = some (iomap.getD a 0) := by
    rw [ByteBuf.window_getElem?, if_pos hlt, Nat.add_sub_cancel' hlow, List.getD_eq_getElem?_getD,
      List.getElem?_eq_getElem (by omega)]
    rfl
  have hsize : (ByteBuf.window iomap f.LogAdr f.data.length).length = f.data.length :=
    window_length hroom
  unfold Datagram.at
  rw [show f.datagram.start = f.LogAdr from rfl, if_pos hlow, show f.datagram.cells = f.data from rfl,
    hdata]
  rcases hcom with h | h | h
  · rw [h, if_pos rfl]
    simp only [writedatagramdata, hsize]
    rw [List.getElem?_replicate, if_pos hlt]
  · rw [h, if_neg (by decide)]
    exact hget
  · rw [h, if_neg (by decide)]
    exact hget

theorem row_split (hframes : frames = pre ++ f :: post) (fate : ℕ → Fate) : ∃ rpre rpost,
    row frames fate = rpre ++ (f.datagram, (fate pre.length).takes) :: rpost ∧ rpre.length = pre.length ∧
    ∀ x ∈ rpre ++ rpost, ∃ y ∈ pre ++ post, x.1 = y.datagram := by
  refine ⟨row pre fate, post.mapIdx fun n f => (f.datagram, (fate (n + 1 + pre.length)).takes), ?_,
    List.length_mapIdx, ?_⟩
  · rw [row, hframes, List.mapIdx_append, List.mapIdx_cons, Nat.zero_add]
    rfl
  · intro x hx
    rcases List.mem_append.mp hx with hx | hx
    · obtain ⟨n, hn, rfl⟩ := List.mem_mapIdx.mp hx
      exact ⟨pre[n], List.mem_append_left _ (List.getElem_mem hn), rfl⟩
    · obtain ⟨n, hn, rfl⟩ := List.mem_mapIdx.mp hx
      exact ⟨post[n], List.mem_append_right _ (List.getElem_mem hn), rfl⟩

theorem idxstack_split (hframes : frames = pre ++ f :: post) : ∃ epre epost,
    frames.mapIdx Frame.entry = epre ++ f.entry pre.length :: epost ∧
    ∀ e ∈ epre ++ epost, ∃ n y, frames[n]? = some y ∧ y ∈ pre ++ post ∧ e = y.entry n := by
  refine ⟨pre.mapIdx Frame.entry, post.mapIdx fun n => Frame.entry (n + 1 + pre.length), ?_, ?_⟩
  · rw [hframes, List.mapIdx_append, List.mapIdx_cons, Nat.zero_add]
  · intro e he
    rcases List.mem_append.mp he with he | he
    · obtain ⟨n, hn, rfl⟩ := List.mem_mapIdx.mp he
      refine ⟨n, pre[n], ?_, List.mem_append_left _ (List.getElem_mem hn), rfl⟩
      rw [hframes, List.getElem?_append_left hn, List.getElem?_eq_getElem hn]
    · obtain ⟨n, hn, rfl⟩ := List.mem_mapIdx.mp he
      refine ⟨n + 1 + pre.length, post[n], ?_, List.mem_append_right _ (List.getElem_mem hn), rfl⟩
      rw [hframes, List.getElem?_append_right (Nat.le_add_left _ _), Nat.add_sub_cancel,
        List.getElem?_cons_succ, List.getElem?_eq_getElem hn]

theorem answers_get {n : ℕ} (fate : ℕ → Fate) (bus : List (Station UInt8)) (hf : frames[n]? = some f) :
    answers frames fate bus n = f.answer (fate n)
      (carry (fate n).takes (rounds ((row frames fate).take n) bus) f.datagram,
        counted (fate n).takes bus f.datagram) := by
  have hrow : (row frames fate)[n]? = some (f.datagram, (fate n).takes) := by
    rw [row, List.getElem?_mapIdx, hf]
    rfl
  rw [answers, hf, replies_get bus hrow]
  rfl

theorem pull_length (r : Receiving) (e : IdxEntry) (answer : Option Answer) :
    (r.pull e answer).iomap.length = r.iomap.length := by
  unfold Receiving.pull
  cases answer with
  | none => rfl
  | some x =>
    simp only []
    split
    · split <;> exact ByteBuf.put_length _ _ _
    · split
      · split <;> rfl
      · rfl

/-- A cell of the IO map behind one entry of the index stack. -/
theorem pull_at {r : Receiving} {fate : Fate} {reply : Datagram UInt8 × ℕ} (n : ℕ)
    (hlen : reply.1.cells.length = f.data.length) (hstart : reply.1.start = f.LogAdr)
    (hlt : a < r.iomap.length) :
    (r.pull (f.entry n) (f.answer fate reply)).iomap[a]? =
      if fate.returns = true ∧ f.com.reads = true ∧ f.LogAdr ≤ a ∧ a < f.stop then reply.1.at a
      else r.iomap[a]? := by
  cases hret : fate.returns with
  | false => simp [Frame.answer, hret, Receiving.pull]
  | true =>
    cases hreads : f.com.reads with
    | true =>
      have hcom : f.com = .LRD ∨ f.com = .LRW := by simpa [Cmd.reads] using hreads
      have hiomap : (r.pull (f.entry n) (f.answer fate reply)).iomap =
          ByteBuf.put r.iomap f.LogAdr reply.1.cells := by
        simp only [Frame.answer, hret, if_true, Receiving.pull, if_pos hcom, Frame.entry]
        rw [List.take_of_length_le (Nat.le_of_eq hlen)]
        split <;> rfl
      rw [hiomap, ByteBuf.put_getElem?, hlen, Datagram.at, hstart]
      unfold Frame.stop
      split
      · next h => rw [if_pos ⟨rfl, rfl, h.1, h.2.1⟩, if_pos h.1]
      · next h => rw [if_neg fun hall => h ⟨hall.2.2.1, hall.2.2.2, hlt⟩]
    | false =>
      have hcom : ¬ (f.com = .LRD ∨ f.com = .LRW) := by simpa [Cmd.reads] using hreads
      simp only [Frame.answer, hret, if_true, Receiving.pull, if_neg hcom, Bool.false_eq_true, false_and,
        and_false, if_false]
      split
      · split <;> rfl
      · rfl

/-- A cell of the IO map behind a part of the index stack that does not bring anything else for it. -/
theorem foldl_pull_at {waitinframe : ℕ → Option Answer} {c : Option UInt8} (stack : List IdxEntry)
    (hstep : ∀ e ∈ stack, ∀ r : Receiving, r.iomap.length = iomap.length → r.iomap[a]? = c →
      (r.pull e (waitinframe e.idx)).iomap[a]? = c)
    {r : Receiving} (hlen : r.iomap.length = iomap.length) (hc : r.iomap[a]? = c) :
    (stack.foldl (fun r e => r.pull e (waitinframe e.idx)) r).iomap[a]? = c ∧
      (stack.foldl (fun r e => r.pull e (waitinframe e.idx)) r).iomap.length = iomap.length := by
  induction stack generalizing r with
  | nil => exact ⟨hc, hlen⟩
  | cons e stack ih =>
    rw [List.foldl_cons]
    exact ih (fun e' he' => hstep e' (List.mem_cons_of_mem _ he')) ((pull_length _ _ _).trans hlen)
      (hstep e List.mem_cons_self r hlen hc)

end Frames

section Cycle
variable {slaves : List MapSlave} {g : MapGroup} {k : ℕ} {s : MapSlave} {iomap : List UInt8} {hasdc : Bool}
  {total : ℕ} {sent : Sending} (fate : ℕ → Fate) (memory : ℕ → ℕ → UInt8)
  (himage : PlainImage slaves g) (hsent : Sent g.IOsegment iomap hasdc g.Obytes total sent)
  (hroom : total ≤ iomap.length)
include himage hsent hroom

/-- The outputs of a slave reach it as a whole, or its memory stays. -/
theorem outputs_reach (hs : slaves[k]? = some s) (hb : s.Obits ≠ 0) :
    ∃ n f, sent.frames[n]? = some f ∧ f.com.writes = true ∧ f.Covers s.outWindow ∧
      ∀ j < s.outWindow.length, ∃ t,
        (rounds (row sent.frames fate) (stations slaves memory))[k]? = some t ∧
        t.memory (s.outPhys + j) =
          if (fate n).takes k then iomap.getD (s.outWindow.start + j) 0 else memory k (s.outPhys + j) := by
  have hmem := List.mem_of_getElem? hs
  have hwithin := (himage.outs.within s hmem hb).2
  have hpos : 0 < s.outWindow.length := by
    simp only [MapSlave.outWindow]
    omega
  obtain ⟨pre, f, post, hframes, hwrites, hcovers, hothers⟩ :=
    hsent.outputs s.outWindow hpos hwithin (himage.outs.inside s hmem hb)
  obtain ⟨rpre, rpost, hrow, hlen, hmemrow⟩ := row_split hframes fate
  have hf : f ∈ sent.frames := hframes ▸ List.mem_append_right _ List.mem_cons_self
  refine ⟨pre.length, f, ?_, hwrites, hcovers, ?_⟩
  · rw [hframes, List.getElem?_append_right (Nat.le_refl _), Nat.sub_self]
    rfl
  · intro j hj
    have haddr : s.writing.start + (s.outPhys + j - s.writing.phys) = s.outWindow.start + j := by
      simp only [MapSlave.writing]
      omega
    have hlow : f.LogAdr ≤ s.outWindow.start + j := Nat.le_add_right_of_le hcovers.1
    have hhigh : s.outWindow.start + j < f.stop := by
      have := hcovers.2
      unfold Area.stop at this
      omega
    rw [hrow]
    apply rounds_memory_write (stations_get memory hs) (w := s.writing)
    · rw [station_writes (himage.done s hmem), if_neg hb]
    · exact Nat.le_add_right _ _
    · exact Nat.add_lt_add_left hj _
    · intro x hx hxw
      obtain ⟨y, hy, heq⟩ := hmemrow x hx
      rw [heq] at hxw ⊢
      rw [haddr]
      have := hothers y hy hxw
      unfold Datagram.Has Frame.datagram
      unfold Frame.stop at *
      simp only []
      omega
    · exact hwrites
    · rw [haddr, datagram_at ?_ (hsent.ok.data f hf) (Nat.le_trans (hsent.within f hf) hroom) hlow hhigh,
        if_neg]
      · intro hcom
        rw [hcom] at hwrites
        cases hwrites
      · rcases hsent.com f hf with h | h
        · exact Or.inl h.1
        · exact Or.inr h
    · rw [haddr]
      apply silent_outputs himage
      unfold Area.stop at hwithin
      omega

/-- What the master has in the outputs, and behind the image, it keeps. -/
theorem outputs_kept (DCtime : ℕ) {a : ℕ} (ha : a < g.Obytes ∨ total ≤ a) (hlt : a < iomap.length) :
    (receiveProcessdata (answers sent.frames fate (stations slaves memory)) sent.idxstack iomap
      DCtime).1.iomap[a]? = iomap[a]? := by
  unfold receiveProcessdata
  refine (foldl_pull_at sent.idxstack ?_ rfl rfl).1
  intro e he r hlen hr
  have hltr : a < r.iomap.length := Nat.lt_of_lt_of_eq hlt hlen.symm
  rw [hsent.ok.idxstack] at he
  obtain ⟨n, hn, rfl⟩ := List.mem_mapIdx.mp (List.mem_of_mem_take he)
  obtain ⟨f, hf⟩ : ∃ f, sent.frames[n]? = some f := ⟨_, List.getElem?_eq_getElem hn⟩
  obtain rfl : sent.frames[n] = f := by
    rw [List.getElem?_eq_getElem hn] at hf
    exact Option.some.inj hf
  have hmem := List.getElem_mem hn
  rw [show (sent.frames[n].entry n).idx = n from rfl, answers_get _ _ hf,
    pull_at n (carry_length _ _ _) (carry_start _ _ _) hltr]
  split
  · next h =>
    obtain ⟨-, hreads, hlow, hhigh⟩ := h
    have hstop := hsent.within _ hmem
    have hout : a < g.Obytes := by omega
    rw [carry_at_silent _ _ (silent_congr (rounds_windows _ _) (silent_outputs himage hout))]
    rw [datagram_at ?_ (hsent.ok.data _ hmem) (Nat.le_trans hstop hroom) hlow hhigh, if_neg,
      List.getD_eq_getElem?_getD, List.getElem?_eq_getElem hlt]
    · rfl
    · intro hcom
      rcases hsent.com _ hmem with h | h | h
      · omega
      · rw [h] at hcom
        cases hcom
      · rw [h] at hcom
        cases hcom
    · rcases hsent.com _ hmem with h | h
      · exact Or.inl h.1
      · exact Or.inr h
  · exact hr

/-- The inputs of a slave come back as a whole: what the slave has, or if it has not taken part what the
frame was sent with; or they stay. -/
theorem inputs_return (DCtime : ℕ) (hapart : s.Apart) (hs : slaves[k]? = some s) (hb : s.Ibits ≠ 0)
    (htotal : g.Obytes + g.Ibytes = total) :
    ∃ n f, sent.frames[n]? = some f ∧ f.com.reads = true ∧ f.Covers s.inWindow ∧
      ∀ j < s.inWindow.length,
        (receiveProcessdata (answers sent.frames fate (stations slaves memory)) sent.idxstack iomap
          DCtime).1.iomap[s.inWindow.start + j]? = some
          (if (fate n).returns then
            if (fate n).takes k then memory k (s.inPhys + j)
            else if f.com = .LRD then 0 else iomap.getD (s.inWindow.start + j) 0
          else iomap.getD (s.inWindow.start + j) 0) := by
  have hmem := List.mem_of_getElem? hs
  obtain ⟨hfrom, hto⟩ := himage.ins.within s hmem hb
  have hpos : 0 < s.inWindow.length := by
    simp only [MapSlave.inWindow]
    omega
  obtain ⟨pre, f, post, hframes, hreads, hcovers, hothers⟩ :=
    hsent.inputs s.inWindow hpos hfrom (by omega) (himage.ins.inside s hmem hb)
  obtain ⟨epre, epost, hstack, hmemstack⟩ := idxstack_split hframes
  have hget : sent.frames[pre.length]? = some f := by
    rw [hframes, List.getElem?_append_right (Nat.le_refl _), Nat.sub_self]
    rfl
  have hf : f ∈ sent.frames := List.mem_of_getElem? hget
  refine ⟨pre.length, f, hget, hreads, hcovers, ?_⟩
  intro j hj
  have hlow : f.LogAdr ≤ s.inWindow.start + j := Nat.le_add_right_of_le hcovers.1
  have hstop : s.inWindow.start + j < s.inWindow.stop := Nat.add_lt_add_left hj _
  have hhigh : s.inWindow.start + j < f.stop := Nat.lt_of_lt_of_le hstop hcovers.2
  have hhas : s.reading.Has (s.inWindow.start + j) := ⟨Nat.le_add_right _ _, hstop⟩
  have hlt : s.inWindow.start + j < iomap.length := by omega
  have hold : iomap[s.inWindow.start + j]? = some (iomap.getD (s.inWindow.start + j) 0) := by
    rw [List.getD_eq_getElem?_getD, List.getElem?_eq_getElem hlt]
    rfl
  have hwhole : sent.idxstack = sent.frames.mapIdx Frame.entry := by
    rw [hsent.ok.idxstack, List.take_of_length_le]
    rw [List.length_mapIdx]
    exact hsent.few
  have hskip : ∀ part : List IdxEntry, (∀ e ∈ part, e ∈ epre ++ epost) → ∀ c, ∀ e ∈ part, ∀ r : Receiving,
      r.iomap.length = iomap.length → r.iomap[s.inWindow.start + j]? = c →
      (r.pull e (answers sent.frames fate (stations slaves memory) e.idx)).iomap[s.inWindow.start + j]? =
        c := by
    intro part hpart c e he r hlen hr
    obtain ⟨n, y, hy, hymem, rfl⟩ := hmemstack e (hpart e he)
    rw [show (y.entry n).idx = n from rfl, answers_get _ _ hy,
      pull_at n (carry_length _ _ _) (carry_start _ _ _) (by omega), if_neg, hr]
    intro h
    have := hothers y hymem h.2.1
    unfold Frame.stop at *
    omega
  have hfetch : ∃ t, (rounds ((row sent.frames fate).take pre.length) (stations slaves memory))[k]? =
      some t ∧ t.fetch (s.inWindow.start + j) = some (memory k (s.inPhys + j)) := by
    obtain ⟨t, ht, htreads, -, htmem⟩ := rounds_memory_skip (p := s.inPhys + j)
      ((row sent.frames fate).take pre.length) (stations_get memory hs) (by
        intro x _ _ w hw hle hlt'
        rw [station_writes (himage.done s hmem)] at hw
        split at hw
        · cases hw
        · rw [List.mem_singleton.mp hw] at hle hlt'
          simp only [MapSlave.writing, MapSlave.outWindow, MapSlave.inWindow] at *
          unfold MapSlave.Apart at hapart
          omega)
    refine ⟨t, ht, ?_⟩
    rw [fetch_one t (w := s.reading) (by rw [htreads, station_reads (himage.done s hmem), if_neg hb])
      hhas]
    simp only [MapSlave.reading, Nat.add_sub_cancel_left]
    rw [htmem]
    rfl
  obtain ⟨t, ht, htv⟩ := hfetch
  unfold receiveProcessdata
  simp only [hwhole, hstack, List.foldl_append, List.foldl_cons]
  obtain ⟨hpre, hprelen⟩ := foldl_pull_at (r := ⟨iomap, DCtime, 0, false⟩) epre
    (hskip epre (fun e he => List.mem_append_left _ he) _) rfl hold
  refine (foldl_pull_at epost (hskip epost (fun e he => List.mem_append_right _ he) _)
    ((pull_length _ _ _).trans hprelen) ?_).1
  rw [show (f.entry pre.length).idx = pre.length from rfl, answers_get _ _ hget,
    pull_at _ (carry_length _ _ _) (carry_start _ _ _) (by omega), hpre]
  simp only [hreads, hlow, hhigh, and_true]
  split
  · rw [carry_at_answer hreads ht (alone_congr (rounds_windows _ _)
      (alone_inputs himage hs hb hhas)) htv,
      datagram_at ?_ (hsent.ok.data f hf) (Nat.le_trans (hsent.within f hf) hroom) hlow hhigh]
    · rfl
    · rcases hsent.com f hf with h | h
      · exact Or.inl h.1
      · exact Or.inr h
  · rfl

end Cycle

end EcatMaster.Soem
