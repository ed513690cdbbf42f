import EcatMaster.Soem.NicDriver
import EcatMaster.Utils.Codec

/-! # Replies are matched with their requests

Any number of threads up to the number of buffers send frames through one port and wait for them, and
whoever reads the socket may read the frame of another. No two threads have the same index, and
a thread that gets a reply gets the one to its own frame (`replies_own`), when no frame is so late that its
index has been handed out again: with `n` threads an index comes back after `EC_MAXBUF - n` other requests.
-/

namespace EcatMaster.Soem
set_option autoImplicit false
open ByteBuf RoundRobin

/-- The index and the request of a thread. -/
def Pc.holds : Pc → Option (ℕ × ℕ)
  | .idle => none
  | .allocated idx tag | .waiting idx tag | .checked idx tag | .done idx tag _ => some (idx, tag)

def Held (h : ℕ → Option (ℕ × ℕ)) (i : ℕ) : Prop := ∃ c t, h c = some (i, t)

/-- Who has which index: `h c` is the index and the request of thread `c`. -/
structure Allocated (n : ℕ) (h : ℕ → Option (ℕ × ℕ)) (port : Port) (count : ℕ) (stamp : ℕ → ℕ)
    (seen : ℕ → Finset ℕ) : Prop where
  turns : Turns EC_MAXBUF n port.lastidx count stamp (Held h) seen
  holder : ∀ c i t, h c = some (i, t) → c < n ∧ i < EC_MAXBUF ∧ t = stamp i ∧ 0 < t
  single : ∀ c c' i t t', h c = some (i, t) → h c' = some (i, t') → c = c'
  empty : ∀ i < EC_MAXBUF, port.rxbufstat i = .EMPTY ↔ ¬ Held h i

section Allocation
variable {n count : ℕ} {h : ℕ → Option (ℕ × ℕ)} {port port' : Port} {stamp : ℕ → ℕ} {seen : ℕ → Finset ℕ}

def others (n : ℕ) (h : ℕ → Option (ℕ × ℕ)) (c : ℕ) : Finset ℕ :=
  ((Finset.range n).erase c).image fun c' => ((h c').map Prod.fst).getD 0

theorem others_card {c : ℕ} (hc : c < n) : (others n h c).card < n := by
  refine Nat.lt_of_le_of_lt Finset.card_image_le ?_
  rw [Finset.card_erase_of_mem (Finset.mem_range.mpr hc), Finset.card_range]
  omega

theorem Allocated.mem_others (ha : Allocated n h port count stamp seen) {c i : ℕ} (hidle : h c = none)
    (hheld : Held h i) : i ∈ others n h c := by
  obtain ⟨c', t, hc'⟩ := hheld
  have hne : c' ≠ c := by
    rintro rfl
    rw [hidle] at hc'
    cases hc'
  refine Finset.mem_image.mpr ⟨c', ?_, by rw [hc']; rfl⟩
  exact Finset.mem_erase.mpr ⟨hne, Finset.mem_range.mpr (ha.holder c' i t hc').1⟩

/-- An idle thread finds an index that nobody has. -/
theorem Allocated.found (ha : Allocated n h port count stamp seen) (hn : n ≤ EC_MAXBUF) {c : ℕ} (hc : c < n)
    (hidle : h c = none) : RoundRobin.Found EC_MAXBUF port.lastidx port.getindex.1 (Held h) := by
  have hget : port.getindex.1 = search EC_MAXBUF (fun i => port.rxbufstat i = .EMPTY) EC_MAXBUF
      (next EC_MAXBUF port.lastidx) := rfl
  rw [hget]
  refine search_found ha.turns.last_lt (fun j hj => ?_) ?_
  · rw [decide_eq_true_iff]
    exact ha.empty j hj
  · by_contra hall
    have hsub : Finset.range EC_MAXBUF ⊆ others n h c := by
      intro j hj
      refine ha.mem_others hidle (Classical.not_not.mp fun hnot => hall ?_)
      exact ⟨j, Finset.mem_range.mp hj, hnot⟩
    have hcard := Finset.card_le_card hsub
    rw [Finset.card_range] at hcard
    have := others_card (h := h) hc
    omega

theorem Allocated.getindex (ha : Allocated n h port count stamp seen) (hn : n ≤ EC_MAXBUF) {c : ℕ}
    (hc : c < n) (hidle : h c = none) :
    Allocated n (Function.update h c (some (port.getindex.1, count + 1))) port.getindex.2 (count + 1)
      (Function.update stamp port.getindex.1 (count + 1))
      (Function.update seen port.getindex.1 (others n h c)) := by
  have hfound := ha.found hn hc hidle
  have hstat : port.getindex.2.rxbufstat = Function.update port.rxbufstat port.getindex.1 .ALLOC := rfl
  have hlast : port.getindex.2.lastidx = port.getindex.1 := rfl
  generalize port.getindex.1 = new at *
  have hother : ∀ c' i t, c' ≠ c → h c' = some (i, t) → i ≠ new := by
    rintro c' i t - hc' rfl
    exact hfound.free ⟨c', t, hc'⟩
  have hheld : ∀ i, Held (Function.update h c (some (new, count + 1))) i ↔ i = new ∨ Held h i := by
    intro i
    constructor
    · rintro ⟨c', t, hc'⟩
      by_cases hcc : c' = c
      · rw [hcc, Function.update_self] at hc'
        exact Or.inl (Prod.mk.inj (Option.some.inj hc')).1.symm
      · rw [Function.update_of_ne hcc] at hc'
        exact Or.inr ⟨c', t, hc'⟩
    · rintro (rfl | ⟨c', t, hc'⟩)
      · exact ⟨c, count + 1, Function.update_self _ _ _⟩
      · have hcc : c' ≠ c := by
          rintro rfl
          rw [hidle] at hc'
          cases hc'
        exact ⟨c', t, (Function.update_of_ne hcc _ _).trans hc'⟩
  refine ⟨?_, fun c' i t hc' => ?_, fun c₁ c₂ i t t' h₁ h₂ => ?_, fun i hi => ?_⟩
  · rw [hlast]
    exact ha.turns.take hfound (fun j _ hj => ha.mem_others hidle hj) (others_card hc)
      fun j hj => (hheld j).mp hj
  · by_cases hcc : c' = c
    · rw [hcc, Function.update_self] at hc'
      obtain ⟨rfl, rfl⟩ := Prod.mk.inj (Option.some.inj hc')
      rw [hcc, Function.update_self]
      exact ⟨hc, hfound.lt, rfl, Nat.succ_pos count⟩
    · rw [Function.update_of_ne hcc] at hc'
      rw [Function.update_of_ne (hother c' i t hcc hc')]
      exact ha.holder c' i t hc'
  · by_cases hc₁ : c₁ = c <;> by_cases hc₂ : c₂ = c
    · exact hc₁.trans hc₂.symm
    · rw [hc₁, Function.update_self] at h₁
      rw [Function.update_of_ne hc₂] at h₂
      exact absurd (Prod.mk.inj (Option.some.inj h₁)).1.symm (hother c₂ i t' hc₂ h₂)
    · rw [hc₂, Function.update_self] at h₂
      rw [Function.update_of_ne hc₁] at h₁
      exact absurd (Prod.mk.inj (Option.some.inj h₂)).1.symm (hother c₁ i t hc₁ h₁)
    · rw [Function.update_of_ne hc₁] at h₁
      rw [Function.update_of_ne hc₂] at h₂
      exact ha.single c₁ c₂ i t t' h₁ h₂
  · rw [hstat, hheld i]
    by_cases hin : i = new
    · rw [hin, Function.update_self]
      exact ⟨fun hempty => (by cases hempty), fun hnot => absurd (Or.inl rfl) hnot⟩
    · rw [Function.update_of_ne hin, ha.empty i hi]
      exact ⟨fun hnot hor => hnot (hor.resolve_left hin), fun hnot hheld => hnot (Or.inr hheld)⟩

theorem Allocated.release (ha : Allocated n h port count stamp seen) {c i t : ℕ} (hc : h c = some (i, t)) :
    Allocated n (Function.update h c none) (port.setbufstat i .EMPTY) count stamp seen := by
  have hkept : ∀ c' j t', Function.update h c none c' = some (j, t') → c' ≠ c ∧ h c' = some (j, t') := by
    intro c' j t' hc'
    by_cases hcc : c' = c
    · rw [hcc, Function.update_self] at hc'
      cases hc'
    · rw [Function.update_of_ne hcc] at hc'
      exact ⟨hcc, hc'⟩
  refine ⟨ha.turns.release fun j hj => ?_, fun c' j t' hc' => ha.holder c' j t' (hkept c' j t' hc').2,
    fun c₁ c₂ j t₁ t₂ h₁ h₂ => ha.single c₁ c₂ j t₁ t₂ (hkept _ _ _ h₁).2 (hkept _ _ _ h₂).2,
    fun j hj => ?_⟩
  · obtain ⟨c', t', hc'⟩ := hj
    exact ⟨c', t', (hkept c' j t' hc').2⟩
  · have hstat : (port.setbufstat i .EMPTY).rxbufstat = Function.update port.rxbufstat i .EMPTY := rfl
    rw [hstat]
    by_cases hji : j = i
    · rw [hji, Function.update_self]
      refine ⟨fun _ => ?_, fun _ => rfl⟩
      rintro ⟨c', t', hc'⟩
      obtain ⟨hne, hold⟩ := hkept c' i t' hc'
      exact hne (ha.single c' c i t' t hold hc)
    · rw [Function.update_of_ne hji, ha.empty j hj]
      refine not_congr ⟨?_, fun ⟨c', t', hc'⟩ => ⟨c', t', (hkept c' j t' hc').2⟩⟩
      rintro ⟨c', t', hc'⟩
      have hcc : c' ≠ c := by
        rintro rfl
        rw [hc] at hc'
        exact hji (Prod.mk.inj (Option.some.inj hc')).1.symm
      exact ⟨c', t', (Function.update_of_ne hcc _ _).trans hc'⟩

/-- A status that changes for an index in use, or other parts of the port. -/
theorem Allocated.port_congr (ha : Allocated n h port count stamp seen) (hlast : port'.lastidx = port.lastidx)
    (hstat : ∀ i < EC_MAXBUF, port'.rxbufstat i = .EMPTY ↔ port.rxbufstat i = .EMPTY) :
    Allocated n h port' count stamp seen where
  turns := by
    rw [hlast]
    exact ha.turns
  holder := ha.holder
  single := ha.single
  empty i hi := (hstat i hi).trans (ha.empty i hi)

end Allocation

/-! ## What the buffers hold -/

section Buffers
variable (answers : List UInt8 → List UInt8 → Prop)

/-- The receive buffer of index `i` holds the reply to the frame that request `tag` has sent. -/
def Link.Has (s : Link) (i tag : ℕ) : Prop :=
  ∃ packet, s.reply i = some ⟨tag, s.port.txbuf i, packet⟩ ∧ answers (s.port.txbuf i) packet ∧
    window (s.port.rxbuf i) 0 (s.port.txbuflength i - ETH_HEADERSIZE) =
      window packet ETH_HEADERSIZE (s.port.txbuflength i - ETH_HEADERSIZE)

/-- A frame on the wire: of the request that has its index now, or so old that it is late. -/
def Link.Sent (n : ℕ) (stamp : ℕ → ℕ) (s : Link) (e : ℕ × List UInt8) : Prop :=
  ∃ i < EC_MAXBUF, Framed i e.2 ∧ 0 < e.1 ∧ e.1 ≤ stamp i ∧ (e.1 < stamp i → e.1 + EC_MAXBUF < stamp i + n) ∧
    (e.1 = stamp i → e.2 = s.port.txbuf i ∧ s.port.txbuflength i = e.2.length ∧
      ∀ c t, s.pc c ≠ .allocated i t)

structure Buffers (n : ℕ) (stamp : ℕ → ℕ) (s : Link) : Prop where
  rxbuf : ∀ i, (s.port.rxbuf i).length = EC_BUFSIZE
  tempinbuf : s.port.tempinbuf.length = EC_BUFSIZE
  wire : ∀ e ∈ s.wire, s.Sent n stamp e
  fresh : ∀ c i t, s.pc c = .allocated i t → s.port.rxbufstat i = .ALLOC
  received : ∀ i, s.port.rxbufstat i = .RCVD ∨ s.port.rxbufstat i = .COMPLETE → s.Has answers i (stamp i)
  finished : ∀ c i t wkc, s.pc c = .done i t wkc → s.port.rxbufstat i = .COMPLETE ∧
    wkc = Port.wkcAt (s.port.rxbuf i) (Port.lengthAt (s.port.rxbuf i) 0)

/-- The threads with their indexes, and the buffers. -/
def Link.Ok (n : ℕ) (s : Link) : Prop :=
  ∃ stamp seen, Allocated n (fun c => (s.pc c).holds) s.port s.count stamp seen ∧ Buffers answers n stamp s

/-- Frames are sent, and a frame that comes back is the answer to one that is not late: fewer than
`EC_MAXBUF - n` requests have been made since. -/
def Link.Timely (n : ℕ) (s : Link) : Link.Event → Prop
  | .outframe _ sent => sent = true
  | .socket _ k packet => ∀ e ∈ s.wire[k]?, answers e.2 packet ∧ s.count + n ≤ e.1 + EC_MAXBUF
  | _ => True

/-- The slaves change neither the Ethernet header nor the index of a frame, nor its length. -/
def KeepsHeader : Prop := ∀ frame packet, answers frame packet → packet.length = frame.length ∧
  byteAt packet 12 = byteAt frame 12 ∧ byteAt packet 13 = byteAt frame 13 ∧
  byteAt packet (ETH_HEADERSIZE + 3) = byteAt frame (ETH_HEADERSIZE + 3)

end Buffers

section Steps
variable {answers : List UInt8 → List UInt8 → Prop} {n : ℕ} {s s' : Link}

theorem holds_update (s : Link) (c : ℕ) (pc : Pc) :
    (fun c' => (Function.update s.pc c pc c').holds) =
      Function.update (fun c' => (s.pc c').holds) c pc.holds := by
  funext c'
  by_cases h : c' = c
  · rw [h, Function.update_self, Function.update_self]
  · rw [Function.update_of_ne h, Function.update_of_ne h]

theorem holds_update_same {c : ℕ} {pc : Pc} (h : pc.holds = (s.pc c).holds) :
    (fun c' => (Function.update s.pc c pc c').holds) = fun c' => (s.pc c').holds := by
  rw [holds_update, h]
  exact Function.update_eq_self c _

theorem step_getindex {c : ℕ} (h : s.step n (.getindex c) = some s') :
    c < n ∧ s.pc c = .idle ∧ s' = { s with
      port := s.port.getindex.2
      pc := Function.update s.pc c (.allocated s.port.getindex.1 (s.count + 1))
      count := s.count + 1 } := by
  simp only [Link.step] at h
  split at h
  · next hc => exact ⟨hc.1, hc.2, (Option.some.inj h).symm⟩
  · cases h

theorem step_setup {c : ℕ} {frame : List UInt8} (h : s.step n (.setup c frame) = some s') :
    ∃ idx tag, s.pc c = .allocated idx tag ∧ Link.Framed idx frame ∧ s' = { s with port := { s.port with
      txbuf := Function.update s.port.txbuf idx frame
      txbuflength := Function.update s.port.txbuflength idx frame.length } } := by
  simp only [Link.step] at h
  split at h
  · next idx tag hpc =>
    split at h
    · next hframe => exact ⟨idx, tag, hpc, hframe, (Option.some.inj h).symm⟩
    · cases h
  · cases h

theorem step_outframe {c : ℕ} (h : s.step n (.outframe c true) = some s') :
    ∃ idx tag, (s.pc c).holds = some (idx, tag) ∧ Link.Framed idx (s.port.txbuf idx) ∧
      s.port.txbuflength idx = (s.port.txbuf idx).length ∧ s' = { s with
        port := s.port.setbufstat idx .TX
        pc := Function.update s.pc c (.waiting idx tag)
        wire := s.wire ++ [(tag, s.port.txbuf idx)] } := by
  simp only [Link.step] at h
  split at h
  · next idx tag hpc =>
    split at h
    · next hframe => exact ⟨idx, tag, by rw [hpc]; rfl, hframe.1, hframe.2, (Option.some.inj h).symm⟩
    · cases h
  · next idx tag hpc =>
    split at h
    · next hframe => exact ⟨idx, tag, by rw [hpc]; rfl, hframe.1, hframe.2, (Option.some.inj h).symm⟩
    · cases h
  · cases h

theorem step_inframe {c : ℕ} (h : s.step n (.inframe c) = some s') :
    ∃ idx tag, s.pc c = .waiting idx tag ∧
      ((s.port.rxbufstat idx = .RCVD ∧ s' = { s with port := s.port.setbufstat idx .COMPLETE }.returned c idx tag
          (Port.wkcAt (s.port.rxbuf idx) (Port.lengthAt (s.port.rxbuf idx) 0))) ∨
        s' = s.setPc c (.checked idx tag)) := by
  simp only [Link.step] at h
  split at h
  · next idx tag hpc =>
    split at h
    · next hready => exact ⟨idx, tag, hpc, Or.inl ⟨hready.2, (Option.some.inj h).symm⟩⟩
    · exact ⟨idx, tag, hpc, Or.inr (Option.some.inj h).symm⟩
  · cases h

theorem step_socket {c k : ℕ} {packet : List UInt8} (h : s.step n (.socket c k packet) = some s') :
    ∃ idx tag e, s.pc c = .checked idx tag ∧ s.wire[k]? = some e ∧
      s' = { s with
        port := (s.port.inframeSocket idx (some packet)).2
        wire := s.wire.eraseIdx k
        reply := s.replies idx ⟨e.1, e.2, packet⟩ }.returned c idx tag
          (s.port.inframeSocket idx (some packet)).1 := by
  simp only [Link.step] at h
  split at h
  · cases h
  · next sentTag frame hwire =>
    split at h
    · next idx tag hpc => exact ⟨idx, tag, (sentTag, frame), hpc, hwire, (Option.some.inj h).symm⟩
    · cases h

theorem step_silence {c : ℕ} (h : s.step n (.silence c) = some s') :
    ∃ idx tag, s.pc c = .checked idx tag ∧ s' = s.setPc c (.waiting idx tag) := by
  simp only [Link.step] at h
  split at h
  · next idx tag hpc => exact ⟨idx, tag, hpc, (Option.some.inj h).symm⟩
  · cases h

theorem step_release {c : ℕ} (h : s.step n (.release c) = some s') :
    ∃ idx tag, (s.pc c).holds = some (idx, tag) ∧ s' = { s with
      port := s.port.setbufstat idx .EMPTY
      pc := Function.update s.pc c .idle } := by
  simp only [Link.step] at h
  split at h
  · cases h
  · cases h
  · next idx tag hpc => exact ⟨idx, tag, by rw [hpc]; rfl, (Option.some.inj h).symm⟩
  · next idx tag hpc => exact ⟨idx, tag, by rw [hpc]; rfl, (Option.some.inj h).symm⟩
  · next idx tag w hpc => exact ⟨idx, tag, by rw [hpc]; rfl, (Option.some.inj h).symm⟩

theorem getindex_ok (hok : s.Ok answers n) (hn : n ≤ EC_MAXBUF) {c : ℕ}
    (h : s.step n (.getindex c) = some s') : s'.Ok answers n := by
  obtain ⟨stamp, seen, ha, hb⟩ := hok
  obtain ⟨hc, hidle, rfl⟩ := step_getindex h
  have hnone : (s.pc c).holds = none := by rw [hidle]; rfl
  have hfound := ha.found hn hc hnone
  have hreuse := ha.turns.reuse hfound
  have hnew := ha.getindex hn hc hnone
  have hstat : s.port.getindex.2.rxbufstat = Function.update s.port.rxbufstat s.port.getindex.1 .ALLOC := rfl
  refine ⟨_, _, by rw [holds_update]; exact hnew, ⟨hb.rxbuf, hb.tempinbuf, ?_, ?_, ?_, ?_⟩⟩
  · intro e he
    obtain ⟨i, hi, hframe, hpos, hle, hold, hcur⟩ := hb.wire e he
    refine ⟨i, hi, hframe, hpos, ?_⟩
    by_cases hin : i = s.port.getindex.1
    · have hlate : e.1 + EC_MAXBUF < s.count + 1 + n := by
        rw [hin] at hle
        have := hreuse (Nat.lt_of_lt_of_le hpos hle)
        omega
      have hlt : e.1 < s.count + 1 := Nat.lt_succ_of_le (hle.trans (ha.turns.stamp_le i))
      rw [hin, Function.update_self]
      exact ⟨Nat.le_of_lt hlt, fun _ => hlate, fun heq => absurd heq (Nat.ne_of_lt hlt)⟩
    · rw [Function.update_of_ne hin]
      refine ⟨hle, hold, fun heq => ?_⟩
      obtain ⟨htx, hlen, hpc⟩ := hcur heq
      refine ⟨htx, hlen, fun c' t hc' => ?_⟩
      by_cases hcc : c' = c
      · have hc' : Function.update s.pc c (.allocated s.port.getindex.1 (s.count + 1)) c' = .allocated i t := hc'
        rw [hcc, Function.update_self] at hc'
        cases hc'
        exact hin rfl
      · exact hpc c' t ((Function.update_of_ne hcc _ _).symm.trans hc')
  · intro c' i t hc'
    have hc' : Function.update s.pc c (.allocated s.port.getindex.1 (s.count + 1)) c' = .allocated i t := hc'
    change s.port.getindex.2.rxbufstat i = .ALLOC
    rw [hstat]
    by_cases hin : i = s.port.getindex.1
    · rw [hin, Function.update_self]
    · rw [Function.update_of_ne hin]
      by_cases hcc : c' = c
      · rw [hcc, Function.update_self] at hc'
        cases hc'
        exact absurd rfl hin
      · exact hb.fresh c' i t ((Function.update_of_ne hcc _ _).symm.trans hc')
  · intro i hi
    have hi : s.port.getindex.2.rxbufstat i = .RCVD ∨ s.port.getindex.2.rxbufstat i = .COMPLETE := hi
    rw [hstat] at hi
    by_cases hin : i = s.port.getindex.1
    · rw [hin, Function.update_self] at hi
      rcases hi with hi | hi <;> cases hi
    · rw [Function.update_of_ne hin] at hi
      rw [Function.update_of_ne hin]
      exact hb.received i hi
  · intro c' i t w hc'
    have hc' : Function.update s.pc c (.allocated s.port.getindex.1 (s.count + 1)) c' = .done i t w := hc'
    by_cases hcc : c' = c
    · rw [hcc, Function.update_self] at hc'
      cases hc'
    · rw [Function.update_of_ne hcc] at hc'
      obtain ⟨hstate, hw⟩ := hb.finished c' i t w hc'
      have hin : i ≠ s.port.getindex.1 := by
        rintro rfl
        exact hfound.free ⟨c', t, congrArg Pc.holds hc'⟩
      refine ⟨?_, hw⟩
      change s.port.getindex.2.rxbufstat i = .COMPLETE
      rw [hstat, Function.update_of_ne hin]
      exact hstate

theorem Link.Has.congr {i tag : ℕ} (h : s.Has answers i tag) (hreply : s'.reply i = s.reply i)
    (htx : s'.port.txbuf i = s.port.txbuf i) (hlen : s'.port.txbuflength i = s.port.txbuflength i)
    (hrx : s'.port.rxbuf i = s.port.rxbuf i) : s'.Has answers i tag := by
  unfold Link.Has
  rw [hreply, htx, hlen, hrx]
  exact h

theorem setup_ok (hok : s.Ok answers n) {c : ℕ} {frame : List UInt8}
    (h : s.step n (.setup c frame) = some s') : s'.Ok answers n := by
  obtain ⟨stamp, seen, ha, hb⟩ := hok
  obtain ⟨idx, tag, hpc, hframe, rfl⟩ := step_setup h
  have halloc := hb.fresh c idx tag hpc
  refine ⟨stamp, seen, ha.port_congr rfl fun _ _ => Iff.rfl, ⟨hb.rxbuf, hb.tempinbuf, ?_, hb.fresh, ?_,
    hb.finished⟩⟩
  · intro e he
    obtain ⟨i, hi, hframe, hpos, hle, hold, hcur⟩ := hb.wire e he
    refine ⟨i, hi, hframe, hpos, hle, hold, fun heq => ?_⟩
    obtain ⟨htx, hlen, hpcs⟩ := hcur heq
    have hin : i ≠ idx := by
      rintro rfl
      exact hpcs c tag hpc
    refine ⟨?_, ?_, hpcs⟩
    · exact htx.trans (Function.update_of_ne hin _ _).symm
    · exact (Function.update_of_ne hin _ _).trans hlen
  · intro i hi
    have hin : i ≠ idx := by
      rintro rfl
      have hi : s.port.rxbufstat i = .RCVD ∨ s.port.rxbufstat i = .COMPLETE := hi
      rw [halloc] at hi
      rcases hi with hi | hi <;> cases hi
    exact (hb.received i hi).congr rfl (Function.update_of_ne hin _ _) (Function.update_of_ne hin _ _) rfl

/-- A thread changes the status of its own index, and goes on. -/
theorem Buffers.touch {stamp : ℕ → ℕ} (hb : Buffers answers n stamp s) {c i₀ : ℕ} (state : BufState) (pc : Pc)
    (hother : ∀ c' t, c' ≠ c → (s.pc c').holds ≠ some (i₀, t)) (hpc : ∀ i t, pc ≠ .allocated i t)
    (hhas : state = .RCVD ∨ state = .COMPLETE → s.Has answers i₀ (stamp i₀))
    (hdone : ∀ i t w, pc = .done i t w → i = i₀ ∧ state = .COMPLETE ∧
      w = Port.wkcAt (s.port.rxbuf i) (Port.lengthAt (s.port.rxbuf i) 0)) :
    Buffers answers n stamp
      { s with port := s.port.setbufstat i₀ state, pc := Function.update s.pc c pc } := by
  have hpcs : ∀ c' i t, Function.update s.pc c pc c' = .allocated i t →
      c' ≠ c ∧ s.pc c' = .allocated i t := by
    intro c' i t hc'
    by_cases hcc : c' = c
    · rw [hcc, Function.update_self] at hc'
      exact absurd hc' (hpc i t)
    · rw [Function.update_of_ne hcc] at hc'
      exact ⟨hcc, hc'⟩
  have hkept : ∀ c' i t, c' ≠ c → (s.pc c').holds = some (i, t) →
      Function.update s.port.rxbufstat i₀ state i = s.port.rxbufstat i := by
    intro c' i t hcc hc'
    refine Function.update_of_ne ?_ _ _
    rintro rfl
    exact hother c' t hcc hc'
  refine ⟨hb.rxbuf, hb.tempinbuf, ?_, ?_, ?_, ?_⟩
  · intro e he
    obtain ⟨i, hi, hframe, hpos, hle, hold, hcur⟩ := hb.wire e he
    refine ⟨i, hi, hframe, hpos, hle, hold, fun heq => ?_⟩
    obtain ⟨htx, hlen, hno⟩ := hcur heq
    exact ⟨htx, hlen, fun c' t hc' => hno c' t (hpcs c' i t hc').2⟩
  · intro c' i t hc'
    obtain ⟨hcc, hold⟩ := hpcs c' i t hc'
    exact (hkept c' i t hcc (congrArg Pc.holds hold)).trans (hb.fresh c' i t hold)
  · intro i hi
    have hi : Function.update s.port.rxbufstat i₀ state i = .RCVD ∨
        Function.update s.port.rxbufstat i₀ state i = .COMPLETE := hi
    by_cases hin : i = i₀
    · rw [hin, Function.update_self] at hi
      rw [hin]
      exact hhas hi
    · rw [Function.update_of_ne hin] at hi
      exact hb.received i hi
  · intro c' i t w hc'
    have hc' : Function.update s.pc c pc c' = .done i t w := hc'
    change Function.update s.port.rxbufstat i₀ state i = .COMPLETE ∧ _
    by_cases hcc : c' = c
    · rw [hcc, Function.update_self] at hc'
      obtain ⟨rfl, hstate, hw⟩ := hdone i t w hc'
      rw [Function.update_self]
      exact ⟨hstate, hw⟩
    · rw [Function.update_of_ne hcc] at hc'
      rw [hkept c' i t hcc (congrArg Pc.holds hc')]
      exact hb.finished c' i t w hc'

theorem Buffers.wire_congr {stamp : ℕ → ℕ} (hb : Buffers answers n stamp s) {wire : List (ℕ × List UInt8)}
    (hwire : ∀ e ∈ wire, s.Sent n stamp e) : Buffers answers n stamp { s with wire := wire } :=
  ⟨hb.rxbuf, hb.tempinbuf, hwire, hb.fresh, hb.received, hb.finished⟩

theorem outframe_ok (hok : s.Ok answers n) {c : ℕ} (h : s.step n (.outframe c true) = some s') :
    s'.Ok answers n := by
  obtain ⟨stamp, seen, ha, hb⟩ := hok
  obtain ⟨idx, tag, hpc, hframe, hlen, rfl⟩ := step_outframe h
  obtain ⟨hc, hidx, htag, hpos⟩ := ha.holder c idx tag hpc
  have hheld : Held (fun c => (s.pc c).holds) idx := ⟨c, tag, hpc⟩
  have hother : ∀ c' t, c' ≠ c → (s.pc c').holds ≠ some (idx, t) :=
    fun c' t hcc hc' => hcc (ha.single c' c idx t tag hc' hpc)
  have hsame : (fun c' => (Function.update s.pc c (.waiting idx tag) c').holds) = fun c' => (s.pc c').holds :=
    holds_update_same hpc.symm
  refine ⟨stamp, seen, ?_, ?_⟩
  · rw [hsame]
    refine ha.port_congr rfl fun i hi => ?_
    change Function.update s.port.rxbufstat idx .TX i = .EMPTY ↔ _
    by_cases hii : i = idx
    · rw [hii, Function.update_self]
      exact ⟨fun he => (by cases he), fun he => absurd hheld ((ha.empty idx hidx).mp he)⟩
    · rw [Function.update_of_ne hii]
  · have htouch := hb.touch .TX (.waiting idx tag) hother (fun _ _ he => by cases he)
      (fun he => by rcases he with he | he <;> cases he) (fun _ _ _ he => by cases he)
    refine htouch.wire_congr fun e he => ?_
    rcases List.mem_append.mp he with he | he
    · exact htouch.wire e he
    · rw [List.mem_singleton.mp he]
      refine ⟨idx, hidx, hframe, hpos, htag.le, fun hlt => absurd htag (Nat.ne_of_lt hlt), fun _ => ?_⟩
      refine ⟨rfl, hlen, fun c' t hc' => ?_⟩
      have hc' : Function.update s.pc c (.waiting idx tag) c' = .allocated idx t := hc'
      by_cases hcc : c' = c
      · rw [hcc, Function.update_self] at hc'
        cases hc'
      · rw [Function.update_of_ne hcc] at hc'
        exact hother c' t hcc (congrArg Pc.holds hc')

theorem lose_ok (hok : s.Ok answers n) {k : ℕ} (h : s.step n (.lose k) = some s') : s'.Ok answers n := by
  obtain ⟨stamp, seen, ha, hb⟩ := hok
  obtain rfl := Option.some.inj h
  exact ⟨stamp, seen, ha, hb.wire_congr fun e he => hb.wire e (List.mem_of_mem_eraseIdx he)⟩

theorem setPc_ok (hok : s.Ok answers n) {c idx tag : ℕ} (pc : Pc) (hpc : (s.pc c).holds = some (idx, tag))
    (hholds : pc.holds = some (idx, tag)) (halloc : ∀ i t, pc ≠ .allocated i t)
    (hdone : ∀ i t w, pc ≠ .done i t w) : (s.setPc c pc).Ok answers n := by
  obtain ⟨stamp, seen, ha, hb⟩ := hok
  have hother : ∀ c' t, c' ≠ c → (s.pc c').holds ≠ some (idx, t) :=
    fun c' t hcc hc' => hcc (ha.single c' c idx t tag hc' hpc)
  have hsame : (fun c' => (Function.update s.pc c pc c').holds) = fun c' => (s.pc c').holds :=
    holds_update_same (hholds.trans hpc.symm)
  have hport : s.port.setbufstat idx (s.port.rxbufstat idx) = s.port := by
    unfold Port.setbufstat
    rw [Function.update_eq_self]
  have htouch := hb.touch (s.port.rxbufstat idx) pc hother halloc (fun hs => hb.received idx hs)
    fun i t w he => absurd he (hdone i t w)
  rw [hport] at htouch
  refine ⟨stamp, seen, ?_, htouch⟩
  change Allocated n (fun c' => (Function.update s.pc c pc c').holds) s.port s.count stamp seen
  rw [hsame]
  exact ha

theorem silence_ok (hok : s.Ok answers n) {c : ℕ} (h : s.step n (.silence c) = some s') :
    s'.Ok answers n := by
  obtain ⟨idx, tag, hpc, rfl⟩ := step_silence h
  exact setPc_ok hok _ (congrArg Pc.holds hpc) rfl (fun _ _ he => by cases he) fun _ _ _ he => by cases he

theorem returned_pc (s : Link) (c idx tag : ℕ) (wkc : ℤ) :
    s.returned c idx tag wkc = s.setPc c (.done idx tag wkc) ∨
      s.returned c idx tag wkc = s.setPc c (.waiting idx tag) := by
  unfold Link.returned
  split
  · exact Or.inl rfl
  · exact Or.inr rfl

/-- The status of the own index becomes `COMPLETE`. -/
theorem complete_ok {stamp : ℕ → ℕ} {seen : ℕ → Finset ℕ}
    (ha : Allocated n (fun c => (s.pc c).holds) s.port s.count stamp seen) (hb : Buffers answers n stamp s)
    {c idx tag : ℕ} (hpc : (s.pc c).holds = some (idx, tag)) (hhas : s.Has answers idx (stamp idx)) :
    ({ s with port := s.port.setbufstat idx .COMPLETE }.returned c idx tag
      (Port.wkcAt (s.port.rxbuf idx) (Port.lengthAt (s.port.rxbuf idx) 0))).Ok answers n := by
  obtain ⟨-, hidx, -, -⟩ := ha.holder c idx tag hpc
  have hheld : Held (fun c => (s.pc c).holds) idx := ⟨c, tag, hpc⟩
  have hother : ∀ c' t, c' ≠ c → (s.pc c').holds ≠ some (idx, t) :=
    fun c' t hcc hc' => hcc (ha.single c' c idx t tag hc' hpc)
  have hport : Allocated n (fun c => (s.pc c).holds) (s.port.setbufstat idx .COMPLETE) s.count stamp seen := by
    refine ha.port_congr rfl fun i hi => ?_
    change Function.update s.port.rxbufstat idx .COMPLETE i = .EMPTY ↔ _
    by_cases hii : i = idx
    · rw [hii, Function.update_self]
      exact ⟨fun he => (by cases he), fun he => absurd hheld ((ha.empty idx hidx).mp he)⟩
    · rw [Function.update_of_ne hii]
  have hdone : ∀ pc : Pc, pc.holds = some (idx, tag) → (∀ i t, pc ≠ .allocated i t) →
      (∀ i t w, pc = .done i t w → i = idx ∧ BufState.COMPLETE = .COMPLETE ∧
        w = Port.wkcAt (s.port.rxbuf i) (Port.lengthAt (s.port.rxbuf i) 0)) →
      ({ s with port := s.port.setbufstat idx .COMPLETE }.setPc c pc).Ok answers n := by
    intro pc hholds halloc hdone
    refine ⟨stamp, seen, ?_, hb.touch .COMPLETE pc hother halloc (fun _ => hhas) hdone⟩
    have hsame : (fun c' => (Function.update s.pc c pc c').holds) = fun c' => (s.pc c').holds :=
      holds_update_same (hholds.trans hpc.symm)
    change Allocated n (fun c' => (Function.update s.pc c pc c').holds) _ s.count stamp seen
    rw [hsame]
    exact hport
  rcases returned_pc { s with port := s.port.setbufstat idx .COMPLETE } c idx tag
    (Port.wkcAt (s.port.rxbuf idx) (Port.lengthAt (s.port.rxbuf idx) 0)) with heq | heq
  · rw [heq]
    refine hdone _ rfl (fun _ _ he => by cases he) fun i t w he => ?_
    cases he
    exact ⟨rfl, rfl, rfl⟩
  · rw [heq]
    exact hdone _ rfl (fun _ _ he => by cases he) fun _ _ _ he => by cases he

theorem inframe_ok (hok : s.Ok answers n) {c : ℕ} (h : s.step n (.inframe c) = some s') :
    s'.Ok answers n := by
  obtain ⟨idx, tag, hpc, hcase⟩ := step_inframe h
  rcases hcase with ⟨hrcvd, rfl⟩ | rfl
  · obtain ⟨stamp, seen, ha, hb⟩ := hok
    exact complete_ok ha hb (congrArg Pc.holds hpc) (hb.received idx (Or.inl hrcvd))
  · exact setPc_ok hok _ (congrArg Pc.holds hpc) rfl (fun _ _ he => by cases he) fun _ _ _ he => by cases he

theorem release_ok (hok : s.Ok answers n) {c : ℕ} (h : s.step n (.release c) = some s') :
    s'.Ok answers n := by
  obtain ⟨stamp, seen, ha, hb⟩ := hok
  obtain ⟨idx, tag, hpc, rfl⟩ := step_release h
  have hother : ∀ c' t, c' ≠ c → (s.pc c').holds ≠ some (idx, t) :=
    fun c' t hcc hc' => hcc (ha.single c' c idx t tag hc' hpc)
  refine ⟨stamp, seen, ?_, hb.touch .EMPTY .idle hother (fun _ _ he => by cases he)
    (fun he => by rcases he with he | he <;> cases he) fun _ _ _ he => by cases he⟩
  rw [holds_update]
  exact ha.release hpc

/-! ## Reading the socket -/

/-- A packet is in the temporary buffer, and the frame it came from is off the wire. -/
def Link.arrive (s : Link) (k : ℕ) (packet : List UInt8) : Link :=
  { s with
    port := { s.port with tempinbuf := put s.port.tempinbuf 0 packet }
    wire := s.wire.eraseIdx k }

theorem arrive_ok {stamp : ℕ → ℕ} (hb : Buffers answers n stamp s) (k : ℕ) (packet : List UInt8) :
    Buffers answers n stamp (s.arrive k packet) :=
  ⟨hb.rxbuf, (put_length _ _ _).trans hb.tempinbuf,
    fun e he => hb.wire e (List.mem_of_mem_eraseIdx he), hb.fresh, hb.received, hb.finished⟩

/-- The packet in the temporary buffer is put in the buffer of its index. -/
def Link.stored (s : Link) (i : ℕ) (reply : Reply) : Link :=
  { s with port := s.port.store i, reply := Function.update s.reply i (some reply) }

theorem stored_ok {stamp : ℕ → ℕ} (hb : Buffers answers n stamp s) {i : ℕ} {reply : Reply}
    (hhas : (s.stored i reply).Has answers i (stamp i)) (hno : ∀ c t w, s.pc c ≠ .done i t w) :
    Buffers answers n stamp (s.stored i reply) := by
  have hrxbuf : ∀ j, j ≠ i → (s.stored i reply).port.rxbuf j = s.port.rxbuf j :=
    fun j hj => Function.update_of_ne hj _ _
  refine ⟨fun j => ?_, hb.tempinbuf, hb.wire, hb.fresh, fun j hj => ?_, fun c j t w hc => ?_⟩
  · by_cases hji : j = i
    · rw [hji]
      change (Function.update s.port.rxbuf i _ i).length = EC_BUFSIZE
      rw [Function.update_self, put_length, hb.rxbuf]
    · rw [hrxbuf j hji]
      exact hb.rxbuf j
  · by_cases hji : j = i
    · rw [hji]
      exact hhas
    · exact (hb.received j hj).congr (Function.update_of_ne hji _ _) rfl rfl (hrxbuf j hji)
  · have hji : j ≠ i := by
      rintro rfl
      exact hno c t w hc
    rw [hrxbuf j hji]
    exact hb.finished c j t w hc

theorem stored_window (hb : ∀ i, (s.port.rxbuf i).length = EC_BUFSIZE)
    (htemp : s.port.tempinbuf.length = EC_BUFSIZE) {packet : List UInt8} {k i : ℕ} (reply : Reply)
    (hlen : packet.length ≤ EC_BUFSIZE) (hi : s.port.txbuflength i = packet.length) :
    window (((s.arrive k packet).stored i reply).port.rxbuf i) 0 (s.port.txbuflength i - ETH_HEADERSIZE) =
      window packet ETH_HEADERSIZE (s.port.txbuflength i - ETH_HEADERSIZE) := by
  rw [hi]
  exact Port.store_window (hb i) htemp hlen hi

/-- Somebody else waits for the packet: it is kept for them. -/
theorem kept_ok {stamp : ℕ → ℕ} {seen : ℕ → Finset ℕ}
    (ha : Allocated n (fun c => (s.pc c).holds) s.port s.count stamp seen) (hb : Buffers answers n stamp s)
    {i : ℕ} (hi : i < EC_MAXBUF) {reply : Reply} (hwaits : s.port.rxbufstat i = .TX)
    (hhas : (s.stored i reply).Has answers i (stamp i)) :
    Link.Ok answers n { s.stored i reply with port := (s.stored i reply).port.setbufstat i .RCVD } := by
  have hno : ∀ c t w, s.pc c ≠ .done i t w := by
    intro c t w hc
    have hstate := (hb.finished c i t w hc).1
    rw [hwaits] at hstate
    cases hstate
  have hbusy : Held (fun c => (s.pc c).holds) i := by
    refine Classical.not_not.mp fun hnot => ?_
    rw [(ha.empty i hi).mpr hnot] at hwaits
    cases hwaits
  obtain ⟨c, t, hc⟩ := hbusy
  have hother : ∀ c' t', c' ≠ c → ((s.stored i reply).pc c').holds ≠ some (i, t') :=
    fun c' t' hcc hc' => hcc (ha.single c' c i t' t hc' hc)
  have hpc : ∀ j t', s.pc c ≠ .allocated j t' := by
    intro j t' hj
    have hsame := (congrArg Pc.holds hj).symm.trans hc
    obtain ⟨rfl, -⟩ := Prod.mk.inj (Option.some.inj hsame)
    have hstate := hb.fresh c j t' hj
    rw [hwaits] at hstate
    cases hstate
  have hdone : ∀ j t' w, s.pc c = .done j t' w → j = i ∧ BufState.RCVD = .COMPLETE ∧
      w = Port.wkcAt ((s.stored i reply).port.rxbuf j) (Port.lengthAt ((s.stored i reply).port.rxbuf j) 0) := by
    intro j t' w hj
    have hsame := (congrArg Pc.holds hj).symm.trans hc
    obtain ⟨rfl, -⟩ := Prod.mk.inj (Option.some.inj hsame)
    exact absurd hj (hno c t' w)
  have htouch := (stored_ok hb hhas hno).touch .RCVD (s.pc c) hother hpc (fun _ => hhas) hdone
  have hself : Function.update (s.stored i reply).pc c (s.pc c) = s.pc := Function.update_eq_self c _
  rw [hself] at htouch
  refine ⟨stamp, seen, ha.port_congr rfl fun j hj => ?_, htouch⟩
  change Function.update s.port.rxbufstat i .RCVD j = .EMPTY ↔ _
  by_cases hji : j = i
  · rw [hji, Function.update_self, hwaits]
    exact ⟨fun he => (by cases he), fun he => (by cases he)⟩
  · rw [Function.update_of_ne hji]

theorem returned_other (s : Link) (c idx tag : ℕ) :
    s.returned c idx tag EC_OTHERFRAME = s.setPc c (.waiting idx tag) := by
  unfold Link.returned
  rw [if_neg (by decide)]

theorem socket_ok (hkeeps : KeepsHeader answers) (hok : s.Ok answers n) {c k : ℕ} {packet : List UInt8}
    (h : s.step n (.socket c k packet) = some s') (htimely : Link.Timely answers n s (.socket c k packet)) :
    s'.Ok answers n := by
  obtain ⟨stamp, seen, ha, hb⟩ := hok
  obtain ⟨idx, tag, e, hpc, he, rfl⟩ := step_socket h
  obtain ⟨hanswer, hfresh⟩ := htimely e he
  obtain ⟨i, hi, hframe, hpos, hle, hold, hcur⟩ := hb.wire e (List.mem_of_getElem? he)
  have htag : e.1 = stamp i := by
    refine (Nat.lt_or_eq_of_le hle).resolve_left fun hlt => ?_
    have hlate := hold hlt
    have hcount := ha.turns.stamp_le i
    omega
  obtain ⟨htx, hlen, -⟩ := hcur htag
  obtain ⟨hsize, h12, h13, h17⟩ := hkeeps e.2 packet hanswer
  obtain ⟨hmin, hmax, h88, ha4, hindex⟩ := hframe
  have hmax : packet.length ≤ EC_BUFSIZE := by omega
  have hmin : ETH_HEADERSIZE + 12 + 2 ≤ packet.length := by omega
  have hb₁ := arrive_ok hb k packet
  have hbyte : ∀ j < packet.length, byteAt (s.arrive k packet).port.tempinbuf j = byteAt packet j :=
    fun j hj => byteAt_tempinbuf hb.tempinbuf hmax hj
  have hhas : ∀ reply : Reply, reply = ⟨e.1, e.2, packet⟩ →
      ((s.arrive k packet).stored i reply).Has answers i (stamp i) := by
    rintro reply rfl
    refine ⟨packet, ?_, ?_, stored_window hb.rxbuf hb.tempinbuf _ hmax (hlen.trans hsize.symm)⟩
    · change Function.update s.reply i (some _) i = _
      rw [Function.update_self, htag, htx]
      rfl
    · rw [htx] at hanswer
      exact hanswer
  have hsocket := inframeSocket_eq s.port idx ((hbyte 12 (by omega)).trans (h12.trans h88))
    ((hbyte 13 (by omega)).trans (h13.trans ha4))
    ((congrArg UInt8.toNat ((hbyte _ (by omega)).trans h17)).trans hindex)
  have hpacket : (byteAt packet (ETH_HEADERSIZE + 3)).toNat = i := (congrArg UInt8.toNat h17).trans hindex
  have hheld : (s.pc c).holds = some (idx, tag) := congrArg Pc.holds hpc
  rw [hsocket]
  unfold Link.replies
  simp only [hpacket]
  by_cases hown : i = idx
  · subst hown
    rw [if_pos (Or.inl rfl), if_pos rfl]
    have hown := hhas _ rfl
    have hno : ∀ c' t w, (s.arrive k packet).pc c' ≠ .done i t w := by
      intro c' t w hc'
      have hcc := ha.single c' c i t tag (congrArg Pc.holds hc') hheld
      rw [hcc] at hc'
      exact Pc.noConfusion (hpc.symm.trans hc')
    have hlength : Port.lengthAt (s.arrive k packet).port.tempinbuf ETH_HEADERSIZE =
        Port.lengthAt (((s.arrive k packet).stored i ⟨e.1, e.2, packet⟩).port.rxbuf i) 0 :=
      Port.store_lengthAt (hb.rxbuf i) hb.tempinbuf (by omega) hmax (hlen.trans hsize.symm)
    have hok := complete_ok (s := (s.arrive k packet).stored i ⟨e.1, e.2, packet⟩)
      (ha.port_congr rfl fun _ _ => Iff.rfl) (stored_ok hb₁ hown hno) hheld hown
    rw [← hlength] at hok
    exact hok
  · rw [if_neg hown]
    by_cases hother : i < EC_MAXBUF ∧ s.port.rxbufstat i = .TX
    · rw [if_pos (Or.inr hother), if_pos hother, returned_other]
      have hkept := kept_ok (s := s.arrive k packet) (ha.port_congr rfl fun _ _ => Iff.rfl) hb₁ hi
        hother.2 (hhas _ rfl)
      exact setPc_ok hkept (.waiting idx tag) hheld rfl (fun _ _ he => by cases he)
        fun _ _ _ he => by cases he
    · rw [if_neg (not_or.mpr ⟨hown, hother⟩), if_neg hother, returned_other]
      have harrived : (s.arrive k packet).Ok answers n :=
        ⟨stamp, seen, ha.port_congr rfl fun _ _ => Iff.rfl, hb₁⟩
      exact setPc_ok harrived (.waiting idx tag) hheld rfl (fun _ _ he => by cases he)
        fun _ _ _ he => by cases he

theorem initial_ok (txbuf : ℕ → List UInt8) (hn : 0 < n) : (Link.initial txbuf).Ok answers n := by
  have hfree : ∀ i, ¬ Held (fun c => ((Link.initial txbuf).pc c).holds) i := by
    rintro i ⟨c, t, hc⟩
    cases hc
  refine ⟨fun _ => 0, fun _ => ∅, ⟨⟨?_, ?_, ?_, ?_, ?_, ?_⟩, ?_, ?_, ?_⟩, ⟨?_, ?_, ?_, ?_, ?_, ?_⟩⟩
  · exact (by decide : 0 < 16)
  · exact fun _ => Nat.le_refl 0
  · exact fun _ _ _ _ _ h => absurd h (Nat.lt_irrefl 0)
  · exact fun _ => hn
  · exact fun _ _ h => absurd h (Nat.lt_irrefl 0)
  · exact fun _ _ _ _ h => absurd h (Nat.lt_irrefl 0)
  · exact fun c i t h => by cases h
  · exact fun c c' i t t' h => by cases h
  · exact fun i _ => ⟨fun _ => hfree i, fun _ => rfl⟩
  · exact fun _ => List.length_replicate
  · exact List.length_replicate
  · exact fun e he => absurd he List.not_mem_nil
  · exact fun c i t h => by cases h
  · exact fun i h => by rcases h with h | h <;> cases h
  · exact fun c i t w h => by cases h

theorem step_ok (hkeeps : KeepsHeader answers) (hn : n ≤ EC_MAXBUF) {e : Link.Event}
    (hok : s.Ok answers n) (h : s.step n e = some s') (htimely : s.Timely answers n e) :
    s'.Ok answers n := by
  cases e with
  | getindex c => exact getindex_ok hok hn h
  | setup c frame => exact setup_ok hok h
  | outframe c sent =>
    obtain rfl : sent = true := htimely
    exact outframe_ok hok h
  | lose k => exact lose_ok hok h
  | inframe c => exact inframe_ok hok h
  | socket c k packet => exact socket_ok hkeeps hok h htimely
  | silence c => exact silence_ok hok h
  | release c => exact release_ok hok h

/-- No two threads have the same index, and a thread that is done has the reply to its own frame. -/
def Link.Matched (answers : List UInt8 → List UInt8 → Prop) (s : Link) : Prop :=
  (∀ c c' i t t', (s.pc c).holds = some (i, t) → (s.pc c').holds = some (i, t') → c = c') ∧
    ∀ c i t wkc, s.pc c = .done i t wkc → s.Has answers i t ∧
      wkc = Port.wkcAt (s.port.rxbuf i) (Port.lengthAt (s.port.rxbuf i) 0)

theorem ok_matched (hok : s.Ok answers n) : s.Matched answers := by
  obtain ⟨stamp, seen, ha, hb⟩ := hok
  refine ⟨ha.single, fun c i t wkc hc => ?_⟩
  obtain ⟨hstate, hw⟩ := hb.finished c i t wkc hc
  obtain ⟨-, -, rfl, -⟩ := ha.holder c i t (congrArg Pc.holds hc)
  exact ⟨hb.received i (Or.inr hstate), hw⟩

/-- Over any interleaving of the threads and any loss of frames, replies are matched with their requests. -/
theorem replies_own (answers : List UInt8 → List UInt8 → Prop) (hkeeps : KeepsHeader answers) (n : ℕ)
    (hpos : 0 < n) (hn : n ≤ EC_MAXBUF) (txbuf : ℕ → List UInt8) (es : List Link.Event)
    (htimely : EventRun.Along (Link.step n) (fun s e _ => s.Timely answers n e) (.initial txbuf) es) :
    EventRun.Along (Link.step n) (fun _ _ s => s.Matched answers) (.initial txbuf) es :=
  EventRun.along_of_invariant (Link.Ok answers n)
    (fun _ _ _ hok hstep htimely =>
      have hok' := step_ok hkeeps hn hok hstep htimely
      ⟨ok_matched hok', hok'⟩)
    (initial_ok txbuf hpos) htimely

end Steps

/-! ## Two threads -/

/-- One slave counts every frame. -/
def Counted (frame packet : List UInt8) : Prop := 28 ≤ frame.length ∧ packet = frame.set (frame.length - 2) 1

instance : DecidableRel Counted := fun _ _ => inferInstanceAs (Decidable (_ ∧ _))

def emptyFrame (idx : UInt8) : List UInt8 :=
  List.replicate 12 0xff ++ [0x88, 0xa4, 0x0c, 0x10, 0x07, idx, 0, 0, 0, 0, 0, 0, 0, 0, 0, 0]

/-- The second thread reads the frame of the first one. -/
def twoThreads : List Link.Event :=
  [.getindex 0, .setup 0 (emptyFrame 1), .getindex 1, .setup 1 (emptyFrame 2), .outframe 0 true,
    .outframe 1 true, .inframe 1, .socket 1 0 ((emptyFrame 1).set 26 1), .inframe 0]

instance (n : ℕ) (s : Link) (e : Link.Event) : Decidable (s.Timely Counted n e) :=
  match e with
  | .outframe _ sent => inferInstanceAs (Decidable (sent = true))
  | .socket _ k packet => inferInstanceAs
      (Decidable (∀ e ∈ s.wire[k]?, Counted e.2 packet ∧ s.count + n ≤ e.1 + EC_MAXBUF))
  | .getindex _ | .setup _ _ | .lose _ | .inframe _ | .silence _ | .release _ => .isTrue trivial

theorem counted_keepsHeader : KeepsHeader Counted := by
  rintro frame packet ⟨hlen, rfl⟩
  have hbyte : ∀ j < 26, byteAt (frame.set (frame.length - 2) 1) j = byteAt frame j := by
    intro j hj
    rw [byteAt, byteAt, List.getD_eq_getElem?_getD, List.getD_eq_getElem?_getD,
      List.getElem?_set_ne (by omega)]
  exact ⟨List.length_set, hbyte 12 (by decide), hbyte 13 (by decide), hbyte _ (by decide)⟩

set_option maxRecDepth 20000 in
example : (EventRun.exec (Link.step 2) (.initial fun _ => []) twoThreads).map (fun s => (s.pc 0, s.pc 1)) =
    some (.done 1 1 1, .waiting 2 2) := by decide

set_option maxRecDepth 20000 in
theorem replies_own_two : EventRun.Along (Link.step 2) (fun _ _ s => s.Matched Counted)
    (.initial fun _ => []) twoThreads :=
  replies_own Counted counted_keepsHeader 2 (by decide) (by decide) (fun _ => []) twoThreads (by decide)

end EcatMaster.Soem
