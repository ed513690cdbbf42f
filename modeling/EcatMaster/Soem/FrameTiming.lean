import Mathlib.Data.List.Infix
import Mathlib.Data.List.Sublists
import EcatMaster.Soem.DistributedClocks

/-! # A frame on its way through the bus

A frame comes into a slave by one port, leaves by each of the others that has a link, comes back by
it, and goes back the way it came. Every slave latches its own clock when the frame comes in by a
port. A wire takes the same time in both directions.
-/

namespace EcatMaster.Soem
set_option autoImplicit false

/-- A slave on the bus: the port the frame comes in by, the ports it goes out by, in this order, how
long the wire to it takes, and what its clock shows when the frame is at the first slave. -/
structure Device where
  entry : ℕ
  down : List ℕ
  wire : ℕ
  clock : ℤ
deriving Repr, DecidableEq

/-- The order in which a frame that came in by `entry` passes the other ports. -/
def portsAfter (entry : ℕ) : List ℕ :=
  match entry with
  | 0 => [3, 1, 2]
  | 3 => [1, 2, 0]
  | 1 => [2, 0, 3]
  | _ => [0, 3, 1]

/-- The ports the frame goes out by are passed in their order, and it is the order in which the
master looks for the port of a slave. -/
def Device.Forwards (d : Device) : Prop :=
  d.entry < 4 ∧ d.down.Sublist (portsAfter d.entry) ∧ d.down.Sublist [3, 1, 2, 0]

instance (d : Device) : Decidable d.Forwards := inferInstanceAs (Decidable (_ ∧ _ ∧ _))

/-- A device with the branches `c`: it has one port for each of them, and a wire takes time. -/
structure Device.Fits (d : Device) (c : Forest Device) : Prop where
  forwards : d.Forwards
  ports : d.down.length = c.width
  wire : 0 < d.wire

instance (d : Device) (c : Forest Device) : Decidable (d.Fits c) :=
  decidable_of_iff (d.Forwards ∧ d.down.length = c.width ∧ 0 < d.wire)
    ⟨fun h => ⟨h.1, h.2.1, h.2.2⟩, fun h => ⟨h.forwards, h.ports, h.wire⟩⟩

/-- A bitmap of ports. -/
def bitmap (ports : List ℕ) : BitVec 8 := ports.foldr (fun p b => portMask p ||| b) 0

abbrev Bus := Forest Device

namespace Bus

/-- How long the frame is gone when it is sent through these branches. -/
def lap : Bus → ℕ
  | .nil => 0
  | .tree a c s => 2 * a.wire + lap c + lap s

/-- When it is back from each of the branches, leaving for the first one at `x`. -/
def returns : Bus → (x : ℕ) → List ℕ
  | .nil, _ => []
  | .tree a c s, x => (x + 2 * a.wire + lap c) :: returns s (x + 2 * a.wire + lap c)

/-- When it comes to each slave of the branches, parent first. -/
def arrivals : Bus → (t : ℕ) → List ℕ
  | .nil, _ => []
  | .tree a c s, t =>
    (t + a.wire) :: (arrivals c (t + a.wire) ++ arrivals s (t + 2 * a.wire + lap c))

/-- The ports of device `d` with the times the frame comes in by them, counted from the first. -/
def times (d : Device) (c : Bus) : List (ℕ × ℕ) := (d.entry, 0) :: d.down.zip (returns c 0)

/-- The register that holds the latched time of a port. -/
def latched (regs : DcRegisters) (port : ℕ) : ℤ :=
  match port with
  | 0 => regs.time0
  | 1 => regs.time1
  | 2 => regs.time2
  | _ => regs.time3

/-- What device `d` with the branches `c` latches when the frame comes to it at `t`. -/
def Latches (regs : DcRegisters) (d : Device) (c : Bus) (t : ℕ) : Prop :=
  ∀ y ∈ times d c, latched regs y.1 = d.clock + t + y.2

/-- What the slaves of the branches latch, from index `k` on, when the frame leaves for them at `t`. -/
def Passed (regs : ℕ → DcRegisters) : Bus → (k t : ℕ) → Prop
  | .nil, _, _ => True
  | .tree a c s, k, t =>
    Latches (regs k) a c (t + a.wire) ∧ Passed regs c (k + 1) (t + a.wire) ∧
      Passed regs s (k + 1 + c.size) (t + 2 * a.wire + lap c)

/-- The clock of device `d`, reached at `t`, does not roll over before the frame has left it. -/
def Steady (d : Device) (c : Bus) (t : ℕ) : Prop := int32 (d.clock + t) + lap c < 2 ^ 31

/-- No clock of the branches rolls over while the frame is behind its slave. -/
def AllSteady : Bus → (t : ℕ) → Prop
  | .nil, _ => True
  | .tree a c s, t =>
    Steady a c (t + a.wire) ∧ AllSteady c (t + a.wire) ∧ AllSteady s (t + 2 * a.wire + lap c)

instance (regs : DcRegisters) (d : Device) (c : Bus) (t : ℕ) : Decidable (Latches regs d c t) :=
  inferInstanceAs (Decidable (∀ y ∈ _, _))

instance decidablePassed (regs : ℕ → DcRegisters) : ∀ (f : Bus) (k t : ℕ), Decidable (Passed regs f k t)
  | .nil, _, _ => .isTrue trivial
  | .tree a c s, k, t =>
    have := decidablePassed regs c (k + 1) (t + a.wire)
    have := decidablePassed regs s (k + 1 + c.size) (t + 2 * a.wire + lap c)
    inferInstanceAs (Decidable (Latches _ _ _ _ ∧ _ ∧ _))

instance (d : Device) (c : Bus) (t : ℕ) : Decidable (Steady d c t) := inferInstanceAs (Decidable (_ < _))

instance decidableAllSteady : ∀ (f : Bus) (t : ℕ), Decidable (AllSteady f t)
  | .nil, _ => .isTrue trivial
  | .tree a c s, t =>
    have := decidableAllSteady c (t + a.wire)
    have := decidableAllSteady s (t + 2 * a.wire + lap c)
    inferInstanceAs (Decidable (Steady _ _ _ ∧ _ ∧ _))

section Returns
variable {f c : Bus} {x y : ℕ}

@[simp] theorem returns_length (f : Bus) (x : ℕ) : (returns f x).length = f.width := by
  induction f generalizing x with
  | nil => rfl
  | tree a c s _ ihs =>
    simp only [returns, Forest.width, List.length_cons, ihs]
    omega

/-- The frame is gone for a while, and not for longer than all the branches take. -/
theorem mem_returns {p k : ℕ} (hfit : f.Every (fun _ _ a c => a.Fits c) p k)
    (h : y ∈ returns f x) : x < y ∧ y ≤ x + lap f := by
  induction f generalizing p k x with
  | nil => cases h
  | tree a c s _ ihs =>
    have hwire := hfit.1.wire
    rcases List.mem_cons.mp h with rfl | h
    · simp only [lap]
      omega
    · have := ihs hfit.2.2 h
      simp only [lap]
      omega

/-- It is back for the last time when it has been through all the branches. -/
theorem returns_getLast : (x :: returns f x).getLast (List.cons_ne_nil _ _) = x + lap f := by
  induction f generalizing x with
  | nil => rfl
  | tree a c s _ ihs =>
    have hlast := ihs (x := x + 2 * a.wire + lap c)
    simp only [returns, lap]
    rw [List.getLast_cons (List.cons_ne_nil _ _), hlast]
    omega

end Returns

end Bus

section Ports

/-- The ways a frame goes through a slave. -/
def routes : List (ℕ × List ℕ) :=
  [0, 1, 2, 3].flatMap fun entry =>
    ((portsAfter entry).sublists.filter fun down => down.isSublist [3, 1, 2, 0]).map fun down =>
      (entry, down)

theorem Device.Forwards.mem_routes {d : Device} (h : d.Forwards) : (d.entry, d.down) ∈ routes := by
  obtain ⟨hentry, hafter, hsearch⟩ := h
  apply List.mem_flatMap.mpr
  refine ⟨d.entry, ?_, ?_⟩
  · have : d.entry = 0 ∨ d.entry = 1 ∨ d.entry = 2 ∨ d.entry = 3 := by omega
    simpa using this
  · apply List.mem_map_of_mem
    rw [List.mem_filter, List.mem_sublists, List.isSublist_iff_sublist]
    exact ⟨hafter, hsearch⟩

theorem Device.Forwards.lt {d : Device} (h : d.Forwards) {port : ℕ} (hmem : port ∈ d.entry :: d.down) :
    port < 4 := by
  rcases List.mem_cons.mp hmem with rfl | hdown
  · exact h.1
  · have := h.2.2.subset hdown
    simp only [List.mem_cons, List.not_mem_nil, or_false] at this
    omega

private theorem prevport_routes : ∀ r ∈ routes, ∀ q ∈ r.1 :: r.2, ∀ port ∈ r.1 :: r.2,
    [q, port] <:+: r.1 :: r.2 → prevport (bitmap (r.1 :: r.2)) port = q := by
  decide

private theorem prevport_entry_routes : ∀ r ∈ routes,
    prevport (bitmap (r.1 :: r.2)) r.1 = (r.1 :: r.2).getLast (List.cons_ne_nil _ _) := by
  decide

private theorem parentport_routes : ∀ r ∈ routes, ∀ rest ∈ r.2.tails, ∀ port ∈ rest.head?,
    parentport (bitmap rest) = (port, bitmap rest.tail) := by
  decide

private theorem hasPort_routes : ∀ r ∈ routes, ∀ port < 4,
    (hasPort (bitmap (r.1 :: r.2)) (portMask port) = true ↔ port ∈ r.1 :: r.2) := by
  decide

private theorem consume_routes : ∀ r ∈ routes,
    bitmap (r.1 :: r.2) &&& ~~~portMask r.1 = bitmap r.2 := by
  decide

private theorem count_routes : ∀ r ∈ routes, ((List.range 4).filter fun port =>
    hasPort (bitmap (r.1 :: r.2)) (portMask port)).length = 1 + r.2.length := by
  decide

variable {d : Device}

theorem links_fst (dlstat : BitVec 16) : (links dlstat).1 =
    ((List.range 4).filter fun port => hasPort (links dlstat).2 (portMask port)).length := by
  unfold links link
  split_ifs <;> decide

theorem links_of_ports (h : d.Forwards) {dlstat : BitVec 16}
    (hports : (links dlstat).2 = bitmap (d.entry :: d.down)) : (links dlstat).1 = 1 + d.down.length := by
  rw [links_fst, hports, count_routes _ h.mem_routes]

/-- The port before a port is the one the frame came in by before. -/
theorem prevport_of_infix (h : d.Forwards) {q port : ℕ} (hpair : [q, port] <:+: d.entry :: d.down) :
    prevport (bitmap (d.entry :: d.down)) port = q :=
  prevport_routes _ h.mem_routes q (hpair.subset (by simp)) port (hpair.subset (by simp)) hpair

/-- The port before the one the frame came in by is the last one it went out by. -/
theorem prevport_entry (h : d.Forwards) : prevport (bitmap (d.entry :: d.down)) d.entry =
    (d.entry :: d.down).getLast (List.cons_ne_nil _ _) :=
  prevport_entry_routes _ h.mem_routes

/-- The ports are taken in the order the frame goes out by them. -/
theorem parentport_suffix (h : d.Forwards) {port : ℕ} {rest : List ℕ} (hrest : port :: rest <:+ d.down) :
    parentport (bitmap (port :: rest)) = (port, bitmap rest) :=
  parentport_routes _ h.mem_routes (port :: rest) (List.mem_tails _ _ |>.mpr hrest) port rfl

theorem hasPort_bitmap (h : d.Forwards) {port : ℕ} (hport : port < 4) :
    hasPort (bitmap (d.entry :: d.down)) (portMask port) = true ↔ port ∈ d.entry :: d.down :=
  hasPort_routes _ h.mem_routes port hport

theorem consume_entry (h : d.Forwards) :
    bitmap (d.entry :: d.down) &&& ~~~portMask d.entry = bitmap d.down :=
  consume_routes _ h.mem_routes

theorem mem_portTimes {s : Slave} {y : ℕ × ℤ} : y ∈ portTimes s ↔
    y.1 < 4 ∧ hasPort s.activeports (portMask y.1) = true ∧ y.2 = porttime s y.1 := by
  obtain ⟨port, ts⟩ := y
  have hone : ∀ (b : Bool) (x : ℕ × ℤ),
      (port, ts) ∈ (if b then [x] else []) ↔ b = true ∧ port = x.1 ∧ ts = x.2 := by
    intro b x
    cases b <;> simp [Prod.ext_iff]
  simp only [portTimes, List.mem_append, hone]
  constructor
  · rintro (((⟨h, rfl, rfl⟩ | ⟨h, rfl, rfl⟩) | ⟨h, rfl, rfl⟩) | ⟨h, rfl, rfl⟩)
    all_goals exact ⟨by decide, h, rfl⟩
  · rintro ⟨hport, h, rfl⟩
    have hcases : port = 0 ∨ port = 1 ∨ port = 2 ∨ port = 3 := by omega
    rcases hcases with rfl | rfl | rfl | rfl
    · exact .inl (.inl (.inl ⟨h, rfl, rfl⟩))
    · exact .inl (.inr ⟨h, rfl, rfl⟩)
    · exact .inr ⟨h, rfl, rfl⟩
    · exact .inl (.inl (.inr ⟨h, rfl, rfl⟩))

/-- What the scan ends with is one of the time stamps, and none is lower. -/
theorem lowest_scan (ys : List (ℕ × ℤ)) : ∀ low : ℕ × ℤ,
    lowest (low :: ys) ∈ low :: ys ∧ ∀ y ∈ low :: ys, (lowest (low :: ys)).2 ≤ y.2 := by
  induction ys with
  | nil =>
    intro low
    exact ⟨List.mem_singleton.mpr rfl, fun y hy => by rw [List.mem_singleton.mp hy]; rfl⟩
  | cons y ys ih =>
    intro low
    have hstep : lowest (low :: y :: ys) = lowest ((if y.2 < low.2 then y else low) :: ys) := rfl
    obtain ⟨hmem, hle⟩ := ih (if y.2 < low.2 then y else low)
    have hhead := hle _ List.mem_cons_self
    have hboth : (if y.2 < low.2 then y else low).2 ≤ low.2 ∧
        (if y.2 < low.2 then y else low).2 ≤ y.2 := by
      split <;> omega
    rw [hstep]
    constructor
    · rcases List.mem_cons.mp hmem with h | h
      · rw [h]
        split <;> simp
      · simp [h]
    · intro z hz
      rcases List.mem_cons.mp hz with rfl | hz
      · exact hhead.trans hboth.1
      · rcases List.mem_cons.mp hz with rfl | hz
        · exact hhead.trans hboth.2
        · exact hle z (List.mem_cons_of_mem _ hz)

theorem lowest_eq {l : List (ℕ × ℤ)} {x : ℕ × ℤ} (hmem : x ∈ l)
    (hlow : ∀ y ∈ l, y ≠ x → x.2 < y.2) : lowest l = x := by
  cases l with
  | nil => cases hmem
  | cons low ys =>
    obtain ⟨hin, hle⟩ := lowest_scan ys low
    by_contra hne
    have := hlow _ hin hne
    have := hle x hmem
    omega

theorem int32_eq {x : ℤ} (hlow : -2 ^ 31 ≤ x) (hhigh : x < 2 ^ 31) : int32 x = x := by
  unfold int32
  rw [Int.bmod_eq_of_le] <;> omega

theorem int32_add {x : ℤ} {y : ℕ} (h : int32 x + y < 2 ^ 31) : int32 (x + y) = int32 x + y := by
  have hlow : -2 ^ 31 ≤ int32 x := Int.le_bmod (x := x) (m := 2 ^ 32) (by omega)
  have hmod : int32 (x + y) = int32 (int32 x + y) := by
    unfold int32
    rw [Int.bmod_add_bmod]
  rw [hmod, int32_eq (by omega) h]

end Ports
end EcatMaster.Soem
