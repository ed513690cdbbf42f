import EcatMaster.Soem.FrameTiming
import EcatMaster.Properties.BusTopology

/-! # The delays the master measures

One round of `ecx_configdc` turns the latched times of a slave and of the slave above it into the time
a frame takes from the first slave to this one (`pdelay_eq`). The ports of a slave are taken in the
order the frame goes out by them, so over the whole bus every slave is measured at its own port
(`run_branches`, by induction over the tree: the slaves between two branches of a slave are the first
branch).
-/

namespace EcatMaster.Soem
set_option autoImplicit false
open Bus

/-- What is known of slave `d`, with branches `c`, once the frame's arrival there, at `t`, is measured. -/
structure Measured (s : Slave) (d : Device) (c : Bus) (t : ℕ) : Prop where
  hasdc : s.hasdc = true
  topology : s.topology = 1 + c.width
  activeports : s.activeports = bitmap (d.entry :: d.down)
  entryport : s.entryport = d.entry
  times : ∀ y ∈ times d c, porttime s y.1 = int32 (d.clock + t) + y.2

section Latch
variable {d : Device} {c : Bus} {p k t : ℕ} {s : Slave} {regs : DcRegisters}

theorem times_fst (hfit : d.Fits c) : (times d c).map Prod.fst = d.entry :: d.down := by
  have hlen : d.down.length ≤ (returns c 0).length := by
    rw [returns_length, hfit.ports]
  rw [times, List.map_cons, List.map_fst_zip hlen]

theorem mem_times_le (hbus : c.Every (fun _ _ a c => a.Fits c) p k) {y : ℕ × ℕ}
    (hy : y ∈ times d c) : y.2 ≤ lap c := by
  rcases List.mem_cons.mp hy with rfl | hy
  · exact Nat.zero_le _
  · have := (mem_returns hbus (List.of_mem_zip hy).2).2
    omega

/-- The frame comes in at time 0, and by the other ports later. -/
theorem times_entry (hfit : d.Fits c) (hbus : c.Every (fun _ _ a c => a.Fits c) p k) {port : ℕ}
    (hport : port ∈ d.entry :: d.down) : ∃ x, (port, x) ∈ times d c ∧ (port ≠ d.entry → 0 < x) := by
  rcases List.mem_cons.mp hport with rfl | hdown
  · exact ⟨0, List.mem_cons_self, fun h => absurd rfl h⟩
  · obtain ⟨n, hn, rfl⟩ := List.getElem_of_mem hdown
    have hn' : n < (returns c 0).length := by
      rw [returns_length, ← hfit.ports]
      exact hn
    refine ⟨(returns c 0)[n], List.mem_cons_of_mem _ ?_, fun _ => ?_⟩
    · exact List.mem_iff_getElem.mpr ⟨n, by simp [hn, hfit.ports ▸ hn], by simp⟩
    · exact (mem_returns hbus (List.getElem_mem hn')).1

/-- The frame comes in last by the last port it went out by. -/
theorem times_last (hfit : d.Fits c) :
    ((d.entry :: d.down).getLast (List.cons_ne_nil _ _), lap c) ∈ times d c := by
  have hlast := returns_getLast (f := c) (x := 0)
  rw [List.getLast_eq_getElem] at hlast
  rw [List.getLast_eq_getElem]
  have hzip : times d c = List.zip (d.entry :: d.down) (0 :: returns c 0) := rfl
  have hlen : (0 :: returns c 0).length = (d.entry :: d.down).length := by
    simp [hfit.ports]
  rw [hzip]
  apply List.mem_iff_getElem.mpr
  refine ⟨d.down.length, by simp [hfit.ports], ?_⟩
  simp only [hlen] at hlast
  rw [List.getElem_zip]
  simp only [List.length_cons, Nat.add_sub_cancel] at hlast ⊢
  rw [hlast, Nat.zero_add]

theorem porttime_latch {port : ℕ} (hport : port < 4) :
    porttime (latchSlave regs s) port = int32 (latched regs port) := by
  have hcases : port = 0 ∨ port = 1 ∨ port = 2 ∨ port = 3 := by omega
  rcases hcases with rfl | rfl | rfl | rfl <;> rfl

/-- A slave finds the port the frame came in by, and keeps the others for its branches. -/
theorem latchSlave_measured (hfit : d.Fits c) (hbus : c.Every (fun _ _ a c => a.Fits c) p k)
    (hdc : s.hasdc = true) (htop : s.topology = 1 + c.width)
    (hact : s.activeports = bitmap (d.entry :: d.down)) (hcons : s.consumedports = s.activeports)
    (hl : Latches regs d c t) (hsteady : Steady d c t) :
    Measured (latchSlave regs s) d c t ∧ (latchSlave regs s).consumedports = bitmap d.down := by
  have hfor := hfit.forwards
  have htimes : ∀ y ∈ times d c,
      porttime (latchSlave regs s) y.1 = int32 (d.clock + t) + y.2 := by
    intro y hy
    have hmem : y.1 ∈ d.entry :: d.down := by
      rw [← times_fst hfit]
      exact List.mem_map_of_mem hy
    have hle := mem_times_le hbus hy
    rw [porttime_latch (hfor.lt hmem), hl y hy]
    apply int32_add
    unfold Steady at hsteady
    omega
  have hentry : lowest (portTimes (latchSlave regs s)) = (d.entry, int32 (d.clock + t)) := by
    have hself : porttime (latchSlave regs s) d.entry = int32 (d.clock + t) := by
      simpa using htimes _ List.mem_cons_self
    apply lowest_eq
    · exact mem_portTimes.mpr ⟨hfor.1, by
        rw [show (latchSlave regs s).activeports = s.activeports from rfl, hact]
        exact (hasPort_bitmap hfor hfor.1).mpr List.mem_cons_self, hself.symm⟩
    · rintro ⟨port, ts⟩ hy hne
      obtain ⟨hlt, hlinked, hts⟩ := mem_portTimes.mp hy
      rw [show (latchSlave regs s).activeports = s.activeports from rfl, hact,
        hasPort_bitmap hfor hlt] at hlinked
      obtain ⟨x, hx, hpos⟩ := times_entry hfit hbus hlinked
      have hval := htimes _ hx
      dsimp only at hval hts hpos ⊢
      have hport : port ≠ d.entry := by
        rintro rfl
        exact hne (by rw [hts, hself])
      have := hpos hport
      omega
  have hconsumed : (latchSlave regs s).consumedports =
      s.consumedports &&& ~~~portMask (latchSlave regs s).entryport := rfl
  have hport : (latchSlave regs s).entryport = d.entry := congrArg Prod.fst hentry
  refine ⟨⟨hdc, htop, hact, hport, htimes⟩, ?_⟩
  rw [hconsumed, hcons, hact, hport, consume_entry hfor]

end Latch

section Delay
variable {a d : Device} {b c : Bus} {s p : Slave} {t q port x : ℕ}

/-- What a slave's branches take, from its latched times. -/
theorem Measured.branches (hfit : a.Fits c) (hs : Measured s a c t) (hlap : lap c < 2 ^ 31) :
    (if 1 < s.topology
      then int32 (porttime s (prevport s.activeports s.entryport) - porttime s s.entryport) else 0) =
    (lap c : ℤ) := by
  split
  · have hlast := hs.times _ (times_last hfit)
    have hfirst := hs.times _ List.mem_cons_self
    dsimp only at hlast hfirst
    rw [hs.activeports, hs.entryport, prevport_entry hfit.forwards, hlast, hfirst, int32_eq] <;> omega
  · have htop := hs.topology
    cases c with
    | nil => rfl
    | tree a' c' s' =>
      simp only [Forest.width] at htop
      omega

/-- The delay of a slave from the times latched on both ends of its wire. -/
theorem pdelay_eq (first : Bool) (hfit : a.Fits c) (hfit' : d.Fits b) (hp : Measured p d b t)
    (hs : Measured s a c (t + x + a.wire)) (hport : s.parentport = port) (hdelay : p.pdelay = t)
    (hpair : [(q, x), (port, x + 2 * a.wire + lap c)] <:+: times d b)
    (hfirst : first = true → x = 0) (hfits : t + x + 2 * a.wire + lap c < 2 ^ 31) :
    pdelay s p first = t + x + a.wire := by
  have hq := hp.times (q, x) (hpair.subset (by simp))
  have hx := hp.times (port, x + 2 * a.wire + lap c) (hpair.subset (by simp))
  have hin := hp.times _ List.mem_cons_self
  have hprev : prevport p.activeports s.parentport = q := by
    have hroute := hpair.map Prod.fst
    rw [times_fst hfit'] at hroute
    rw [hp.activeports, hport]
    exact prevport_of_infix hfit'.forwards hroute
  dsimp only at hq hx hin
  have hdt3 : int32 (porttime p s.parentport - porttime p (prevport p.activeports s.parentport)) =
      2 * a.wire + lap c := by
    rw [hprev, hport, hq, hx, int32_eq] <;> push_cast <;> omega
  have hdt2 : (if first then 0
      else int32 (porttime p (prevport p.activeports s.parentport) - porttime p p.entryport)) =
      (x : ℤ) := by
    split
    · rw [hfirst ‹_›]
      rfl
    · rw [hprev, hp.entryport, hq, hin, int32_eq] <;> omega
  have hwire : int32 (2 * (a.wire : ℤ) + lap c - lap c) = 2 * a.wire := by
    rw [int32_eq] <;> omega
  unfold pdelay
  simp only [hdt3, hs.branches hfit (by omega), hdt2]
  rw [if_neg (by omega), if_neg (by omega), hwire, Int.mul_tdiv_cancel_left _ (by decide), hdelay,
    int32_eq] <;> omega

end Delay
section Loop
variable {regs : ℕ → DcRegisters} {mastertime64 : BitVec 64} {status : ℕ → DlStatus}

/-- What slave `d` answers: it has a clock, and these ports have a link. -/
structure Answers (status : DlStatus) (d : Device) : Prop where
  dc : status.dc = true
  ports : (links status.dlstat).2 = bitmap (d.entry :: d.down)

instance (status : DlStatus) (d : Device) : Decidable (Answers status d) :=
  decidable_of_iff (status.dc = true ∧ (links status.dlstat).2 = bitmap (d.entry :: d.down))
    ⟨fun h => ⟨h.1, h.2⟩, fun h => ⟨h.dc, h.ports⟩⟩

/-- Slave `d`, with branches `c`, found below slave `p` and not yet measured. -/
structure Found (status : DlStatus) (s : Slave) (p : ℕ) (d : Device) (c : Bus) : Prop where
  fits : d.Fits c
  answers : Answers status d
  slave : s = placed status p

/-- The list of slaves after the round of slave `i` has latched its times. -/
def afterLatch (regs : ℕ → DcRegisters) (slavelist : SlaveList) (i : ℕ) : SlaveList :=
  Function.update slavelist i
    (latchSlave (regs i) ((slavelist i).consume (slavelist i).activeports))

theorem configdcSlave_slavelist {st : DcState} {i : ℕ} (hdc : (st.slavelist i).hasdc = true) :
    (configdcSlave regs mastertime64 st i).slavelist =
      if 0 < (dcParent (afterLatch regs st.slavelist i) i i).2
      then measureSlave (afterLatch regs st.slavelist i) i
        (dcParent (afterLatch regs st.slavelist i) i i).1
        (dcParent (afterLatch regs st.slavelist i) i i).2
      else afterLatch regs st.slavelist i := by
  have hlatch : Function.update (Function.update st.slavelist i
      ((st.slavelist i).consume (st.slavelist i).activeports)) i
      (latchSlave (regs i) ((st.slavelist i).consume (st.slavelist i).activeports)) =
      afterLatch regs st.slavelist i := by
    rw [Function.update_idem]
    rfl
  unfold configdcSlave
  rw [if_pos hdc]
  simp only [dcSlave, Function.update_self, hlatch]
  split <;> rfl

/-- The round of a slave below another: the port it hangs from is taken, and it is measured. -/
theorem configdcSlave_below (regs : ℕ → DcRegisters) (mastertime64 : BitVec 64) {st : DcState}
    {p i port : ℕ} {rest : List ℕ} (hp : 0 < p) (hlt : p < i)
    (hdc : (st.slavelist i).hasdc = true) (hparent : (st.slavelist i).parent = p)
    (hdc' : (st.slavelist p).hasdc = true) (htop : 1 < (st.slavelist p).topology)
    (htaken : parentport (st.slavelist p).consumedports = (port, bitmap rest)) :
    (configdcSlave regs mastertime64 st i).slavelist p =
      (st.slavelist p).consume (bitmap rest) ∧
    (∀ j, j ≠ p → j ≠ i → (configdcSlave regs mastertime64 st i).slavelist j = st.slavelist j) ∧
    (configdcSlave regs mastertime64 st i).slavelist i =
      { afterLatch regs st.slavelist i i with
        parentport := port
        pdelay := pdelay { afterLatch regs st.slavelist i i with parentport := port }
          ((st.slavelist p).consume (bitmap rest)) (decide (i - p ≤ 1)) } := by
  have hself : (afterLatch regs st.slavelist i i).parent = p := by
    rw [afterLatch, Function.update_self]
    exact hparent
  have hother : ∀ j, j ≠ i → afterLatch regs st.slavelist i j = st.slavelist j := by
    intro j hj
    exact Function.update_of_ne hj _ _
  have hdcp : dcParent (afterLatch regs st.slavelist i) i i = (i, p) := by
    obtain ⟨m, rfl⟩ : ∃ m, i = m + 1 := ⟨i - 1, by omega⟩
    rw [dcParent, hself, if_pos]
    right
    rw [hother p (by omega), hdc']
  rw [configdcSlave_slavelist hdc, hdcp, if_pos hp]
  have hp' : p ≠ i := by omega
  have htop' : (st.slavelist p).topology ≠ 1 := by omega
  simp only [measureSlave, Function.update_self, Function.update_of_ne hp',
    Function.update_of_ne hp'.symm, hother p hp', htaken]
  refine ⟨trivial, ?_, ?_⟩
  · intro j hj hj'
    rw [Function.update_of_ne hj', Function.update_of_ne hj, hother j hj']
  · rw [if_neg (show ((st.slavelist p).consume (bitmap rest)).topology ≠ 1 from htop')]

/-- Slave `d`, measured, with the branches `f` of its branches `b` still to come; the frame leaves for
them `x` after it came in, and has been through none of the others if `x` is 0. -/
structure Serving (s : Slave) (d : Device) (b : Bus) (t : ℕ) (f : Bus) (x : ℕ) : Prop where
  fits : d.Fits b
  measured : Measured s d b t
  delay : s.pdelay = t
  toCome : ∃ pre q rest, s.consumedports = bitmap rest ∧ rest <:+ d.down ∧ rest.length = f.width ∧
    times d b = pre ++ (q, x) :: rest.zip (returns f x)

theorem Measured.consume {s : Slave} {d : Device} {b : Bus} {t : ℕ} (h : Measured s d b t)
    (ports : BitVec 8) : Measured (s.consume ports) d b t :=
  ⟨h.hasdc, h.topology, h.activeports, h.entryport, h.times⟩

theorem Found.measured {sl : SlaveList} {p i t : ℕ} {a : Device} {c : Bus} {q k : ℕ}
    (h : Found (status i) (sl i) p a c) (hbus : c.Every (fun _ _ a c => a.Fits c) q k)
    (hl : Latches (regs i) a c t) (hsteady : Steady a c t) :
    Measured (afterLatch regs sl i i) a c t ∧
      (afterLatch regs sl i i).consumedports = bitmap a.down := by
  rw [afterLatch, Function.update_self]
  have htop : (sl i).topology = 1 + c.width := by
    rw [h.slave, ← h.fits.ports]
    exact links_of_ports h.fits.forwards h.answers.ports
  refine latchSlave_measured h.fits hbus ?_ htop ?_ rfl hl hsteady
  · rw [h.slave]
    exact h.answers.dc
  · rw [h.slave]
    exact h.answers.ports

theorem Serving.width_le {s : Slave} {d : Device} {b f : Bus} {t x : ℕ} (h : Serving s d b t f x) :
    f.width ≤ b.width := by
  obtain ⟨-, -, rest, -, hsuf, hlen, -⟩ := h.toCome
  have := hsuf.length_le
  rw [hlen, h.fits.ports] at this
  exact this

/-- The next branch has its port, and the frame is back from it when it leaves for those after it. -/
theorem Serving.next {s : Slave} {d a : Device} {b c f : Bus} {t x : ℕ}
    (h : Serving s d b t (.tree a c f) x) : ∃ port rest q,
      parentport s.consumedports = (port, bitmap rest) ∧
      [(q, x), (port, x + 2 * a.wire + lap c)] <:+: times d b ∧
      Serving (s.consume (bitmap rest)) d b t f (x + 2 * a.wire + lap c) := by
  obtain ⟨pre, q, ports, hcons, hsuf, hlen, htimes⟩ := h.toCome
  obtain ⟨port, rest, rfl⟩ : ∃ port rest, ports = port :: rest := by
    apply List.exists_cons_of_length_pos
    rw [hlen, Forest.width]
    omega
  have hrest : rest.length = f.width := by
    simp only [List.length_cons, Forest.width] at hlen
    omega
  refine ⟨port, rest, q, ?_, ⟨pre, rest.zip (returns f (x + 2 * a.wire + lap c)), ?_⟩,
    h.fits, h.measured.consume _, h.delay, pre ++ [(q, x)], port, rest, rfl, ?_, hrest, ?_⟩
  · rw [hcons, parentport_suffix h.fits.forwards hsuf]
  · simp [htimes, returns]
  · exact (List.suffix_cons port rest).trans hsuf
  · simp [htimes, returns]

/-- The rounds of the branches of slave `p`: every one finds its port and is measured from it. -/
theorem run_branches (regs : ℕ → DcRegisters) (mastertime64 : BitVec 64) {f : Bus} :
    ∀ {p k t x : ℕ} {d : Device} {b : Bus} {st : DcState},
    0 < p → p < k → Serving (st.slavelist p) d b t f x → (k = p + 1 → x = 0) →
    f.Every (fun p i a c => Found (status i) (st.slavelist i) p a c) p k →
    Passed regs f k (t + x) → AllSteady f (t + x) → t + x + lap f < 2 ^ 31 →
    ∀ st', st' = (List.range' k f.size).foldl (configdcSlave regs mastertime64) st →
    (∀ j, j ≠ p → j < k ∨ k + f.size ≤ j → st'.slavelist j = st.slavelist j) ∧
    st'.slavelist p = (st.slavelist p).consume (st'.slavelist p).consumedports ∧
    (List.range' k f.size).map (fun i => (st'.slavelist i).pdelay) =
      (arrivals f (t + x)).map Nat.cast := by
  induction f with
  | nil =>
    intro p k t x d b st _ _ _ _ _ _ _ _ st' hst'
    obtain rfl : st' = st := hst'
    exact ⟨fun _ _ _ => rfl, rfl, rfl⟩
  | tree a c s ihc ihs =>
    intro p k t x d b st hp hpk hserve hfirst hfound hpassed hsteady hfits st' hst'
    obtain ⟨hk, hcfound, hsfound⟩ := hfound
    obtain ⟨port, rest, q, htaken, hpair, hnext⟩ := hserve.next
    have hcbus : c.Every (fun _ _ a c => a.Fits c) k (k + 1) :=
      hcfound.mono fun _ _ _ _ h => h.fits
    obtain ⟨hmeasured, hdown⟩ := hk.measured hcbus hpassed.1 hsteady.1
    have htop : 1 < (st.slavelist p).topology := by
      have := hserve.width_le
      rw [hserve.measured.topology]
      simp only [Forest.width] at this
      omega
    obtain ⟨hstp, hstj, hstk⟩ := configdcSlave_below regs mastertime64 hp hpk
      (by rw [hk.slave]; exact hk.answers.dc) (by rw [hk.slave]; rfl) hserve.measured.hasdc htop htaken
    simp only [lap] at hfits
    have hported : Measured { afterLatch regs st.slavelist k k with parentport := port } a c
        (t + x + a.wire) :=
      ⟨hmeasured.hasdc, hmeasured.topology, hmeasured.activeports, hmeasured.entryport,
        hmeasured.times⟩
    have hdelay := pdelay_eq (decide (k - p ≤ 1)) hk.fits hserve.fits hnext.measured hported rfl
      hnext.delay hpair
      (fun h => hfirst (by have := of_decide_eq_true h; omega)) (by omega)
    rw [Forest.range_tree, List.foldl_cons, List.foldl_append] at hst'
    generalize configdcSlave regs mastertime64 st k = one at hst' hstp hstj hstk
    have hserving : Serving (one.slavelist k) a c (t + x + a.wire) c 0 := by
      rw [hstk]
      exact ⟨hk.fits, ⟨hmeasured.hasdc, hmeasured.topology, hmeasured.activeports,
        hmeasured.entryport, hmeasured.times⟩, by rw [hdelay]; push_cast; ring, [], a.entry, a.down,
        hdown, List.suffix_refl _, hk.fits.ports, rfl⟩
    have hcfound' : c.Every (fun p i a c => Found (status i) (one.slavelist i) p a c) k (k + 1) := by
      apply (hcfound.and (Forest.every_range c (Nat.lt_succ_self k))).mono
      rintro r i a' c' ⟨h, -, -, hi, -⟩
      rw [hstj i (by omega) (by omega)]
      exact h
    obtain ⟨htwoj, htwok, htwo⟩ := ihc (by omega) (Nat.lt_succ_self k) hserving
      (fun _ => rfl) hcfound' hpassed.2.1 hsteady.2.1 (by omega) _ rfl
    generalize (List.range' (k + 1) c.size).foldl (configdcSlave regs mastertime64) one = two
      at hst' htwoj htwok htwo
    have htwop : two.slavelist p = (st.slavelist p).consume (bitmap rest) := by
      rw [htwoj p (by omega) (by omega), hstp]
    have hsfound' : s.Every (fun p i a c => Found (status i) (two.slavelist i) p a c) p
        (k + 1 + c.size) := by
      apply (hsfound.and (Forest.every_range s (p := p) (k := k + 1 + c.size) (by omega))).mono
      rintro r i a' c' ⟨h, -, -, hi, -⟩
      rw [htwoj i (by omega) (by omega), hstj i (by omega) (by omega)]
      exact h
    have hserving' : Serving (two.slavelist p) d b t s (x + 2 * a.wire + lap c) := by
      rw [htwop]
      exact hnext
    obtain ⟨hj, hpfinal, hrest⟩ := ihs hp (by omega) hserving'
      (fun h => absurd h (by omega)) hsfound' (by simpa only [Nat.add_assoc] using hpassed.2.2)
      (by simpa only [Nat.add_assoc] using hsteady.2.2) (by omega) st' hst'
    refine ⟨?_, ?_, ?_⟩
    · intro j hjp hjk
      simp only [Forest.size] at hjk
      rw [hj j hjp (by omega), htwoj j (by omega) (by omega), hstj j hjp (by omega)]
    · rw [hpfinal, htwop]
      rfl
    · have hself : st'.slavelist k = two.slavelist k := hj k (by omega) (by omega)
      have hbranches : (List.range' (k + 1) c.size).map (fun i => (st'.slavelist i).pdelay) =
          (List.range' (k + 1) c.size).map (fun i => (two.slavelist i).pdelay) := by
        apply List.map_congr_left
        intro i hi
        have := List.mem_range'_1.mp hi
        rw [hj i (by omega) (by omega)]
      rw [Forest.range_tree, List.map_cons, List.map_append, hbranches, htwo, hrest, hself, htwok]
      simp only [arrivals, List.map_cons, List.map_append, Nat.add_zero, Nat.add_assoc]
      rw [show ((one.slavelist k).consume (two.slavelist k).consumedports).pdelay =
        (one.slavelist k).pdelay from rfl, hserving.delay]
      simp only [Nat.add_assoc]

/-- The enumeration places every slave of the bus. -/
theorem found_below {a : Device} {c : Bus} (hbus : (Forest.tree a c .nil).Every
      (fun _ i a c => a.Fits c ∧ Answers (status i) a) 0 1) :
    c.Every (fun p i a' c' => Found (status i) (configSlaves status (1 + c.size) i) p a' c') 1 2 := by
  have hlinked : Linked status (Forest.tree a c .nil) := by
    apply hbus.mono
    rintro p i a' c' ⟨hfit, hans⟩
    rw [links_of_ports hfit.forwards hans.ports, hfit.ports]
  apply ((search_below hlinked).and hbus.2.1).mono
  rintro p i a' c' ⟨⟨hone, hle, hparent⟩, hfit, hans⟩
  refine ⟨hfit, hans, ?_⟩
  rw [configSlaves_eq (by omega) hle, if_pos hone, hparent]

section Example

/-- The first slave of four, by port 3 above the second and by port 1 above the fourth. -/
def topSlave : Device := ⟨0, [3, 1], 50, 1000⟩

/-- The branches below it; the third slave is below the second. -/
def branches : Bus :=
  .tree ⟨0, [1], 200, -2147483640⟩ (.tree ⟨0, [], 30, 7⟩ .nil .nil) (.tree ⟨3, [], 300, 123456⟩ .nil .nil)

def branchStatus (i : ℕ) : DlStatus :=
  ⟨true, [0x0000, 0x8a00, 0x0a00, 0x0200, 0x8000].getD i 0⟩

def branchRegs (i : ℕ) : DcRegisters :=
  [⟨0, 0, 0, 0, 0⟩, ⟨1000, 2060, 0, 1460, 0⟩, ⟨-2147483440, -2147483380, 0, 0, 0⟩, ⟨237, 0, 0, 0, 0⟩,
    ⟨0, 0, 0, 124216, 0⟩].getD i ⟨0, 0, 0, 0, 0⟩

end Example
end Loop
end EcatMaster.Soem
