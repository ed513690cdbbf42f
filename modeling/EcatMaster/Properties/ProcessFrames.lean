import EcatMaster.Properties.WholeSlaves
import EcatMaster.Soem.ProcessData

/-! # The frames of one cycle

The frames that read are a partition of the inputs, and those that write one of the outputs, for LRW
frames as for LRD and LWR frames; the partition is never finer than the segments, so an area that lies in
one segment is carried by exactly one frame (`sent_out`, `sent_in`). There are never more frames than
entries in the index stack.
-/

namespace EcatMaster.Soem
set_option autoImplicit false
open Placement LogicalBus

def Frame.stop (f : Frame) : ℕ := f.LogAdr + f.data.length

def Frame.Covers (f : Frame) (w : Area) : Prop := f.LogAdr ≤ w.start ∧ w.stop ≤ f.stop

/-- The frames lie end to end from `lo` to `hi`. -/
def Tiles : (lo hi : ℕ) → List Frame → Prop
  | lo, hi, [] => lo = hi
  | lo, hi, f :: frames => f.LogAdr = lo ∧ Tiles f.stop hi frames

section Tiles
variable {lo hi : ℕ} {frames : List Frame}

theorem Tiles.le (h : Tiles lo hi frames) : lo ≤ hi := by
  induction frames generalizing lo with
  | nil => exact Nat.le_of_eq h
  | cons f frames ih =>
    obtain ⟨rfl, hrest⟩ := h
    exact Nat.le_trans (Nat.le_add_right _ _) (ih hrest)

theorem Tiles.within (h : Tiles lo hi frames) : ∀ f ∈ frames, lo ≤ f.LogAdr ∧ f.stop ≤ hi := by
  induction frames generalizing lo with
  | nil =>
    intro f hf
    cases hf
  | cons first frames ih =>
    obtain ⟨rfl, hrest⟩ := h
    intro f hf
    rcases List.mem_cons.mp hf with rfl | hf
    · exact ⟨Nat.le_refl _, hrest.le⟩
    · obtain ⟨hlow, hhigh⟩ := ih hrest f hf
      exact ⟨Nat.le_trans (Nat.le_add_right _ _) hlow, hhigh⟩

/-- The frames before a frame end where it starts, and those behind it start where it ends. -/
theorem Tiles.apart {pre post : List Frame} {f : Frame} (h : Tiles lo hi (pre ++ f :: post)) :
    ∀ x ∈ pre ++ post, x.stop ≤ f.LogAdr ∨ f.stop ≤ x.LogAdr := by
  induction pre generalizing lo with
  | nil =>
    intro x hx
    exact Or.inr (h.2.within x hx).1
  | cons first pre ih =>
    intro x hx
    rcases List.mem_cons.mp hx with rfl | hx
    · exact Or.inl (h.2.within f (List.mem_append_right _ List.mem_cons_self)).1
    · exact ih h.2 x hx

end Tiles

theorem take_sum_mono (l : List ℕ) {m n : ℕ} (h : m ≤ n) : (l.take m).sum ≤ (l.take n).sum := by
  obtain ⟨k, rfl⟩ := Nat.exists_eq_add_of_le h
  rw [List.take_add, List.sum_append]
  exact Nat.le_add_right _ _

/-- The frames of a loop over the segments `l` from segment `n` on. -/
structure Pieces (l : List ℕ) (com : Cmd) (n lo hi : ℕ) (frames : List Frame) : Prop where
  tiles : Tiles lo hi frames
  com : ∀ f ∈ frames, f.com = com
  whole : ∀ w : Area, 0 < w.length → lo ≤ w.start → w.stop ≤ hi → Inside l w →
    ∃ f ∈ frames, f.Covers w
  few : frames.length + n ≤ l.length

section Pieces
variable {l : List ℕ} {n hi : ℕ} {f : Frame}

theorem pieces_nil (com : Cmd) (hn : n ≤ l.length) : Pieces l com n hi hi [] := by
  refine ⟨rfl, ?_, ?_, ?_⟩
  · intro x hx
    cases hx
  · intro w hpos hlow hhigh _
    unfold Area.stop at hhigh
    omega
  · rwa [List.length_nil, Nat.zero_add]

theorem pieces_last (hn : n < l.length) : Pieces l f.com n f.LogAdr f.stop [f] := by
  refine ⟨⟨rfl, rfl⟩, ?_, ?_, ?_⟩
  · intro x hx
    rw [List.mem_singleton.mp hx]
  · intro w _ hlow hhigh _
    exact ⟨f, List.mem_singleton.mpr rfl, hlow, hhigh⟩
  · rw [List.length_singleton]
    omega

/-- A frame that ends where segment `n` ends, and the others. An area that lies in one segment does
not cross that boundary. -/
theorem Pieces.cons {frames : List Frame} (hcut : f.stop = (l.take (n + 1)).sum)
    (h : Pieces l f.com (n + 1) f.stop hi frames) : Pieces l f.com n f.LogAdr hi (f :: frames) := by
  refine ⟨⟨rfl, h.tiles⟩, ?_, ?_, ?_⟩
  · intro x hx
    rcases List.mem_cons.mp hx with rfl | hx
    · rfl
    · exact h.com x hx
  · intro w hpos hlow hhigh hinside
    obtain ⟨m, hm, hstart, hstop⟩ := hinside
    rcases Nat.lt_or_ge n m with hlt | hge
    · have hmono := take_sum_mono l (show n + 1 ≤ m from hlt)
      obtain ⟨x, hx, hcovers⟩ := h.whole w hpos (by omega) hhigh ⟨m, hm, hstart, hstop⟩
      exact ⟨x, List.mem_cons_of_mem _ hx, hcovers⟩
    · have hmono := take_sum_mono l (show m + 1 ≤ n + 1 by omega)
      exact ⟨f, List.mem_cons_self, hlow, by omega⟩
  · have := h.few
    rw [List.length_cons]
    omega

end Pieces

/-- The entry of the index stack for frame `n`. -/
def Frame.entry (n : ℕ) (f : Frame) : IdxEntry := ⟨n, f.LogAdr, f.data.length, f.dc⟩

/-- What has been sent is what the IO map holds, and the index stack says where. -/
structure Sending.Ok (iomap : List UInt8) (hasdc : Bool) (st : Sending) : Prop where
  idxstack : st.idxstack = (st.frames.mapIdx Frame.entry).take EC_MAXBUF
  data : ∀ f ∈ st.frames, f.data = writedatagramdata f.com (ByteBuf.window iomap f.LogAdr f.data.length)
  dc : ∀ n f, st.frames[n]? = some f → f.dc = (n == 0 && hasdc)
  first : st.first = (st.frames.length == 0 && hasdc)

theorem window_length {iomap : List UInt8} {lo size : ℕ} (h : lo + size ≤ iomap.length) :
    (ByteBuf.window iomap lo size).length = size := by
  unfold ByteBuf.window
  rw [List.length_take, List.length_drop]
  omega

section Loop
variable {iomap : List UInt8} {hasdc : Bool} {st : Sending} {com : Cmd} {lo hi : ℕ}

theorem Sending.Ok.frame {size : ℕ} (h : st.Ok iomap hasdc) (com : Cmd) (hroom : lo + size ≤ iomap.length) :
    (st.frame iomap com lo lo size).Ok iomap hasdc := by
  have hlen : (writedatagramdata com (ByteBuf.window iomap lo size)).length = size := by
    rw [writedatagramdata_length, window_length hroom]
  constructor
  · simp only [Sending.frame, pushindex, h.idxstack, List.mapIdx_append, List.length_take,
      List.length_mapIdx, List.mapIdx_cons, List.mapIdx_nil, Frame.entry, hlen, Nat.zero_add]
    split
    · next hfew =>
      rw [List.take_of_length_le (by rw [List.length_mapIdx]; omega), List.take_of_length_le]
      rw [List.length_append, List.length_mapIdx, List.length_singleton]
      omega
    · next hfull =>
      rw [List.take_append_of_le_length]
      rw [List.length_mapIdx]
      omega
  · intro f hf
    rcases List.mem_append.mp hf with hf | hf
    · exact h.data f hf
    · rw [List.mem_singleton.mp hf]
      simp only [hlen]
  · intro n f hf
    rcases Nat.lt_or_ge n st.frames.length with hlt | hge
    · exact h.dc n f (by rwa [Sending.frame, List.getElem?_append_left hlt] at hf)
    · have hlast : n = st.frames.length := by
        have := (List.getElem?_eq_some_iff.mp hf).1
        simp only [Sending.frame, List.length_append, List.length_singleton] at this
        omega
      rw [Sending.frame, hlast, List.getElem?_concat_length] at hf
      cases hf
      rw [hlast]
      exact h.first
  · simp [Sending.frame]

/-- The length of the frame from `lo` on reaches to the end of segment `n` or of the data. -/
def SizedBy (l : List ℕ) (size : ℕ → ℤ → ℕ) (hi n lo : ℕ) : Prop :=
  size n ((hi - lo : ℕ) : ℤ) = min (l.take (n + 1)).sum hi - lo

/-- The loop over the segments sends what is between `lo` and `hi`, cut where the segments end. -/
theorem sendSegments_pieces {l : List ℕ} (size : ℕ → ℤ → ℕ) (com : Cmd) (fuel n lo : ℕ)
    (hroom : hi ≤ iomap.length) (hend : hi ≤ l.sum) (hfuel : l.length < fuel + n) (hn : n < l.length)
    (hnext : ∀ m, n < m → m < l.length → (l.take m).sum ≤ hi → SizedBy l size hi m (l.take m).sum)
    (hhigh : lo ≤ (l.take (n + 1)).sum) (hle : lo ≤ hi) (hsize : SizedBy l size hi n lo)
    (hst : st.Ok iomap hasdc) :
    ∃ frames, Pieces l com n lo hi frames ∧
      (sendSegments l.length size com iomap fuel n ((hi - lo : ℕ) : ℤ) lo lo st).frames =
        st.frames ++ frames ∧
      (sendSegments l.length size com iomap fuel n ((hi - lo : ℕ) : ℤ) lo lo st).Ok iomap hasdc := by
  induction fuel generalizing n lo st with
  | zero => omega
  | succ fuel ih =>
    obtain ⟨cut, hcut⟩ : ∃ cut, cut = min (l.take (n + 1)).sum hi := ⟨_, rfl⟩
    have hpiece : lo + (cut - lo) ≤ iomap.length := by omega
    have hok := hst.frame com hpiece
    obtain ⟨f, hf⟩ : ∃ f : Frame, f = ⟨com, lo,
        writedatagramdata com (ByteBuf.window iomap lo (cut - lo)), st.first⟩ := ⟨_, rfl⟩
    have hframes : (st.frame iomap com lo lo (cut - lo)).frames = st.frames ++ [f] := by
      rw [hf]
      rfl
    have hcom : f.com = com := by rw [hf]
    have hstart : f.LogAdr = lo := by rw [hf]
    have hstop : f.stop = cut := by
      rw [Frame.stop, hf]
      simp only [writedatagramdata_length, window_length hpiece]
      omega
    have hleft : ((hi - lo : ℕ) : ℤ) - ((cut - lo : ℕ) : ℤ) = ((hi - cut : ℕ) : ℤ) := by omega
    have hto : lo + (cut - lo) = cut := by omega
    rw [SizedBy, ← hcut] at hsize
    rw [sendSegments]
    simp only [hsize, hleft, hto]
    split
    · next hmore =>
      have hend : cut = (l.take (n + 1)).sum := by omega
      have hsized := hnext (n + 1) (by omega) hmore.2 (by omega)
      rw [← hend] at hsized
      obtain ⟨frames, hpieces, heq, hok'⟩ := ih (n + 1) cut (by omega) hmore.2 (fun m hm => hnext m (by omega))
        (by rw [hend]; exact take_sum_mono l (by omega)) (by omega) hsized hok
      refine ⟨f :: frames, ?_, ?_, hok'⟩
      · rw [← hcom, ← hstart]
        apply Pieces.cons (hstop.trans hend)
        rwa [hcom, hstop]
      · rw [heq, hframes, List.append_assoc]
        rfl
    · next hlast =>
      have hall : cut = hi := by
        rcases Nat.lt_or_ge (n + 1) l.length with hlt | hge
        · omega
        · rw [List.take_of_length_le hge] at hcut
          omega
      refine ⟨[f], ?_, hframes, hok⟩
      rw [← hcom, ← hstart, ← hall, ← hstop]
      exact pieces_last hn

end Loop

/-- One of the frames carries the area, and no other one for which `p` holds has any of it. -/
def Carried (frames : List Frame) (p : Cmd → Bool) (w : Area) : Prop :=
  ∃ pre f post, frames = pre ++ f :: post ∧ p f.com = true ∧ f.Covers w ∧
    ∀ x ∈ pre ++ post, p x.com = true → x.stop ≤ f.LogAdr ∨ f.stop ≤ x.LogAdr

section Carried
variable {l : List ℕ} {com : Cmd} {n lo hi : ℕ} {frames before behind : List Frame} {p : Cmd → Bool} {w : Area}

theorem Pieces.carried (h : Pieces l com n lo hi frames) (hp : p com = true) (hpos : 0 < w.length)
    (hlow : lo ≤ w.start) (hhigh : w.stop ≤ hi) (hinside : Inside l w) : Carried frames p w := by
  obtain ⟨f, hf, hcovers⟩ := h.whole w hpos hlow hhigh hinside
  obtain ⟨pre, post, rfl⟩ := List.append_of_mem hf
  refine ⟨pre, f, post, rfl, ?_, hcovers, fun x hx _ => h.tiles.apart x hx⟩
  rw [h.com f hf]
  exact hp

theorem Carried.append (h : Carried frames p w) (hbefore : ∀ x ∈ before, p x.com = false)
    (hbehind : ∀ x ∈ behind, p x.com = false) : Carried (before ++ frames ++ behind) p w := by
  obtain ⟨pre, f, post, rfl, hp, hcovers, hothers⟩ := h
  refine ⟨before ++ pre, f, post ++ behind, by simp, hp, hcovers, ?_⟩
  intro x hx hpx
  have hskip : ∀ {q : Prop}, p x.com = false → q := by
    intro q hq
    rw [hq] at hpx
    cases hpx
  rcases List.mem_append.mp hx with hx | hx
  · rcases List.mem_append.mp hx with hx | hx
    · exact hskip (hbefore x hx)
    · exact hothers x (List.mem_append_left _ hx) hpx
  · rcases List.mem_append.mp hx with hx | hx
    · exact hothers x (List.mem_append_right _ hx) hpx
    · exact hskip (hbehind x hx)

end Carried

/-- The frames of one cycle, for an image whose outputs are `Obytes` bytes and that has `total`. -/
structure Sent (l : List ℕ) (iomap : List UInt8) (hasdc : Bool) (Obytes total : ℕ) (sent : Sending) :
    Prop where
  ok : sent.Ok iomap hasdc
  few : sent.frames.length ≤ EC_MAXBUF
  com : ∀ f ∈ sent.frames, f.com = .LRD ∧ Obytes ≤ f.LogAdr ∨ f.com = .LWR ∨ f.com = .LRW
  within : ∀ f ∈ sent.frames, f.stop ≤ total
  outputs : ∀ w : Area, 0 < w.length → w.stop ≤ Obytes → Inside l w → Carried sent.frames Cmd.writes w
  inputs : ∀ w : Area, 0 < w.length → Obytes ≤ w.start → w.stop ≤ total → Inside l w →
    Carried sent.frames Cmd.reads w

theorem take_succ_sum {l : List ℕ} {n : ℕ} (h : n < l.length) :
    (l.take (n + 1)).sum = (l.take n).sum + l.getD n 0 := by
  rw [List.take_succ_eq_append_getElem h, List.sum_append, List.sum_singleton,
    List.getD_eq_getElem?_getD, List.getElem?_eq_getElem h]
  rfl

/-- The segments of a group as `ecx_config_map_group` leaves them. -/
structure MapGroup.Segmented (g : MapGroup) : Prop where
  sum : g.IOsegment.sum = g.Obytes + g.Ibytes
  size : g.Obytes + g.Ibytes ≤ IOMAP_SIZE
  length : g.IOsegment.length = g.nsegments
  few : g.nsegments ≤ 6
  Isegment : g.Isegment < g.IOsegment.length
  Ioffset : g.Ioffset ≤ g.segment g.Isegment
  cut : (g.IOsegment.take g.Isegment).sum + g.Ioffset = g.Obytes

theorem configMapGroup_segmented {slaves slaves' : List MapSlave} {g : MapGroup}
    (hfresh : ∀ s ∈ slaves, s.Fresh) (h : configMapGroup slaves = some (slaves', g))
    (hsize : g.Obytes + g.Ibytes ≤ IOMAP_SIZE) : g.Segmented := by
  obtain ⟨hlength, hfew⟩ := configMapGroup_nsegments hfresh h hsize
  obtain ⟨more, rest, hdrop, hcut⟩ := configMapGroup_cut hfresh h hsize
  have hget : g.IOsegment[g.Isegment]? = some (g.Ioffset + more) := by
    rw [← Nat.add_zero g.Isegment, ← List.getElem?_drop, hdrop]
    rfl
  refine ⟨configMapGroup_sum hfresh h hsize, hsize, hlength, hfew,
    (List.getElem?_eq_some_iff.mp hget).1, ?_, hcut⟩
  rw [MapGroup.segment, List.getD_eq_getElem?_getD, hget]
  exact Nat.le_add_right _ _

section Send
variable {g : MapGroup} {iomap : List UInt8} {n : ℕ}

theorem MapGroup.Segmented.upto (hg : g.Segmented) (hn : n < g.IOsegment.length) :
    (g.IOsegment.take (n + 1)).sum ≤ g.Obytes + g.Ibytes ∧
      (g.IOsegment.take (n + 1)).sum = (g.IOsegment.take n).sum + g.segment n := by
  refine ⟨?_, take_succ_sum hn⟩
  rw [← hg.sum]
  calc (g.IOsegment.take (n + 1)).sum ≤ (g.IOsegment.take g.IOsegment.length).sum := take_sum_mono _ hn
    _ = g.IOsegment.sum := by rw [List.take_length]

theorem MapGroup.Segmented.lrw (hg : g.Segmented) (hn : n < g.IOsegment.length) :
    SizedBy g.IOsegment g.lrwLength (g.Obytes + g.Ibytes) n (g.IOsegment.take n).sum := by
  obtain ⟨hbound, htake⟩ := hg.upto hn
  have hsize : g.Obytes + g.Ibytes ≤ 4096 := hg.size
  unfold SizedBy MapGroup.lrwLength
  omega

theorem MapGroup.Segmented.lwr (hg : g.Segmented) (hn : n < g.IOsegment.length)
    (hle : (g.IOsegment.take n).sum ≤ g.Obytes) :
    SizedBy g.IOsegment g.lwrLength g.Obytes n (g.IOsegment.take n).sum := by
  obtain ⟨hbound, htake⟩ := hg.upto hn
  have hsize : g.Obytes + g.Ibytes ≤ 4096 := hg.size
  unfold SizedBy MapGroup.lwrLength
  simp only []
  split <;> omega

theorem MapGroup.Segmented.lrd (hg : g.Segmented) (hlt : g.Isegment < n) (hn : n < g.IOsegment.length) :
    SizedBy g.IOsegment g.lrdLength (g.Obytes + g.Ibytes) n (g.IOsegment.take n).sum := by
  obtain ⟨hbound, htake⟩ := hg.upto hn
  have hsize : g.Obytes + g.Ibytes ≤ 4096 := hg.size
  unfold SizedBy MapGroup.lrdLength
  rw [if_neg (by omega)]
  omega

theorem MapGroup.Segmented.lrd_first (hg : g.Segmented) :
    SizedBy g.IOsegment g.lrdLength (g.Obytes + g.Ibytes) g.Isegment g.Obytes := by
  obtain ⟨hbound, htake⟩ := hg.upto hg.Isegment
  have hsize : g.Obytes + g.Ibytes ≤ 4096 := hg.size
  have hcut := hg.cut
  have hoff := hg.Ioffset
  unfold SizedBy MapGroup.lrdLength
  rw [if_pos rfl]
  omega

theorem pieces_sent {l : List ℕ} {hasdc : Bool} {st : Sending} {rd wr : List Frame} {Obytes total : ℕ}
    (hrd : Pieces l .LRD n Obytes total rd) (hwr : Pieces l .LWR 0 0 Obytes wr)
    (hframes : st.frames = rd ++ wr) (hst : st.Ok iomap hasdc) (hfew : l.length ≤ 8) :
    Sent l iomap hasdc Obytes total st := by
  have hmax : EC_MAXBUF = 16 := rfl
  have hfewrd := hrd.few
  have hfewwr := hwr.few
  have hskip : ∀ {frames : List Frame} {com : Cmd} {p : Cmd → Bool}, (∀ f ∈ frames, f.com = com) →
      p com = false → ∀ f ∈ frames, p f.com = false := by
    intro frames com p hcom hp f hf
    rw [hcom f hf]
    exact hp
  refine ⟨hst, ?_, ?_, ?_, ?_, ?_⟩
  · rw [hframes, List.length_append]
    omega
  · intro f hf
    rw [hframes] at hf
    rcases List.mem_append.mp hf with hf | hf
    · exact Or.inl ⟨hrd.com f hf, (hrd.tiles.within f hf).1⟩
    · exact Or.inr (Or.inl (hwr.com f hf))
  · intro f hf
    rw [hframes] at hf
    rcases List.mem_append.mp hf with hf | hf
    · exact (hrd.tiles.within f hf).2
    · exact Nat.le_trans (hwr.tiles.within f hf).2 hrd.tiles.le
  · intro w hpos hhigh hinside
    have hone := hwr.carried (p := Cmd.writes) rfl hpos (Nat.zero_le _) hhigh hinside
    have hall : Carried (rd ++ wr ++ []) Cmd.writes w := hone.append (hskip hrd.com rfl) (by simp)
    rwa [List.append_nil, ← hframes] at hall
  · intro w hpos hlow hhigh hinside
    have hone := hrd.carried (p := Cmd.reads) rfl hpos hlow hhigh hinside
    have hall : Carried ([] ++ rd ++ wr) Cmd.reads w := hone.append (by simp) (hskip hwr.com rfl)
    rwa [List.nil_append, ← hframes] at hall

theorem pieces_sent_lrw {l : List ℕ} {hasdc : Bool} {st : Sending} {Obytes total : ℕ}
    (h : Pieces l .LRW 0 0 total st.frames) (hle : Obytes ≤ total) (hst : st.Ok iomap hasdc)
    (hfew : l.length ≤ 8) : Sent l iomap hasdc Obytes total st := by
  have hmax : EC_MAXBUF = 16 := rfl
  have hfewrw := h.few
  exact ⟨hst, by omega, fun f hf => Or.inr (Or.inr (h.com f hf)), fun f hf => (h.tiles.within f hf).2,
    fun w hpos hhigh => h.carried rfl hpos (Nat.zero_le _) (Nat.le_trans hhigh hle),
    fun w hpos _ hhigh => h.carried rfl hpos (Nat.zero_le _) hhigh⟩

section Loops
variable {hasdc : Bool} {st : Sending} (hg : g.Segmented) (hroom : g.Obytes + g.Ibytes ≤ iomap.length)
  (hst : st.Ok iomap hasdc)
include hg hroom hst

theorem sendInputs_pieces : ∃ rd, Pieces g.IOsegment .LRD g.Isegment g.Obytes (g.Obytes + g.Ibytes) rd ∧
    (g.sendInputs iomap st).frames = st.frames ++ rd ∧ (g.sendInputs iomap st).Ok iomap hasdc := by
  have hIseg := hg.Isegment
  unfold MapGroup.sendInputs
  split
  · have hupto := hg.upto hIseg
    have hcut := hg.cut
    have hoff := hg.Ioffset
    have hloop := sendSegments_pieces g.lrdLength .LRD (g.nsegments + 1) g.Isegment g.Obytes hroom
      (Nat.le_of_eq hg.sum.symm) (by have := hg.length; omega) hIseg (fun m hlt hm _ => hg.lrd hlt hm)
      (by omega) (Nat.le_add_right _ _) hg.lrd_first hst
    rwa [Nat.add_sub_cancel_left, hg.length] at hloop
  · next hI =>
    rw [not_not.mp hI]
    exact ⟨[], pieces_nil _ (Nat.le_of_lt hIseg), (List.append_nil _).symm, hst⟩

theorem sendOutputs_pieces : ∃ wr, Pieces g.IOsegment .LWR 0 0 g.Obytes wr ∧
    (g.sendOutputs iomap st).frames = st.frames ++ wr ∧ (g.sendOutputs iomap st).Ok iomap hasdc := by
  have hIseg := hg.Isegment
  have hsum := hg.sum
  unfold MapGroup.sendOutputs
  split
  · have hloop := sendSegments_pieces g.lwrLength .LWR (g.nsegments + 1) 0 0
      (show g.Obytes ≤ iomap.length by omega) (by omega) (by have := hg.length; omega) (by omega)
      (fun m _ hm hle => hg.lwr hm hle) (Nat.zero_le _) (Nat.zero_le _)
      (hg.lwr (n := 0) (by omega) (Nat.zero_le _)) hst
    rwa [Nat.sub_zero, hg.length] at hloop
  · next hO =>
    rw [not_not.mp hO]
    exact ⟨[], pieces_nil _ (Nat.zero_le _), (List.append_nil _).symm, hst⟩

theorem sendBoth_pieces : ∃ frames, Pieces g.IOsegment .LRW 0 0 (g.Obytes + g.Ibytes) frames ∧
    (sendSegments g.nsegments g.lrwLength .LRW iomap (g.nsegments + 1) 0 (g.Obytes + g.Ibytes) 0 0
      st).frames = st.frames ++ frames ∧
    (sendSegments g.nsegments g.lrwLength .LRW iomap (g.nsegments + 1) 0 (g.Obytes + g.Ibytes) 0 0
      st).Ok iomap hasdc := by
  have hIseg := hg.Isegment
  have hloop := sendSegments_pieces g.lrwLength .LRW (g.nsegments + 1) 0 0 hroom
    (Nat.le_of_eq hg.sum.symm) (by have := hg.length; omega) (by omega) (fun m _ hm _ => hg.lrw hm)
    (Nat.zero_le _) (Nat.zero_le _) (hg.lrw (n := 0) (by omega)) hst
  rwa [Nat.sub_zero, hg.length, Nat.cast_add] at hloop

end Loops

theorem sendProcessdata_sent (hg : g.Segmented) (hasdc : Bool) (hroom : g.Obytes + g.Ibytes ≤ iomap.length) :
    Sent g.IOsegment iomap hasdc g.Obytes (g.Obytes + g.Ibytes) (g.sendProcessdata hasdc iomap) := by
  have hfew : g.IOsegment.length ≤ 8 := by
    have := hg.few
    have := hg.length
    omega
  have hstart : Sending.Ok iomap hasdc ⟨[], [], hasdc⟩ := by
    refine ⟨rfl, ?_, ?_, by simp⟩
    · intro f hf
      cases hf
    · intro n f hf
      cases hf
  unfold MapGroup.sendProcessdata
  simp only []
  split
  · next htotal =>
    rw [htotal]
    exact pieces_sent_lrw (pieces_nil _ (Nat.zero_le _)) (by omega) hstart hfew
  · split
    · obtain ⟨rd, hrd, hframes, hok⟩ := sendInputs_pieces hg hroom hstart
      obtain ⟨wr, hwr, hframes', hok'⟩ := sendOutputs_pieces hg hroom hok
      exact pieces_sent hrd hwr (hframes'.trans (by rw [hframes, List.nil_append])) hok' hfew
    · have hdata : (if g.Obytes ≠ 0 then g.outputs else g.inputs) = 0 := by
        unfold MapGroup.outputs MapGroup.inputs
        split <;> omega
      obtain ⟨frames, hpieces, hframes, hok⟩ := sendBoth_pieces hg hroom hstart
      rw [hdata]
      refine pieces_sent_lrw ?_ (Nat.le_add_right _ _) hok hfew
      rw [hframes]
      exact hpieces

end Send
end EcatMaster.Soem
