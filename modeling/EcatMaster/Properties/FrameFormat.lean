import Mathlib.Data.Nat.Bitwise
import EcatMaster.Soem.NicDriver
import EcatMaster.Utils.Codec

/-! # The frame format

A chain of datagrams lies in a buffer (`Layout`) if each tells its size and that another follows, up to
the last. The master lays such a chain, a slave walks along it, and what the slave changes leaves the
chain as it is.
-/

namespace EcatMaster.Soem
set_option autoImplicit false
open ByteBuf

/-! ## Reading beside a write -/

section Reading
variable {a b buf bytes : List UInt8} {off o n : ℕ}

theorem byteAt_congr (h : a[o]? = b[o]?) : byteAt a o = byteAt b o := by
  rw [byteAt, byteAt, List.getD_eq_getElem?_getD, List.getD_eq_getElem?_getD, h]

theorem readUint16_congr (h : ∀ j, o ≤ j → j < o + 2 → a[j]? = b[j]?) :
    readUint16 a o = readUint16 b o := by
  unfold readUint16
  rw [byteAt_congr (h o (by omega) (by omega)), byteAt_congr (h (o + 1) (by omega) (by omega))]

theorem readUint16_put_outside (h : o + 2 ≤ off ∨ off + bytes.length ≤ o) :
    readUint16 (put buf off bytes) o = readUint16 buf o :=
  readUint16_congr fun j hj hj' => put_getElem?_outside buf off bytes j (by omega)

theorem readUint16_put_self (v : UInt16) (h : off + 2 ≤ buf.length) :
    (readUint16 (put buf off (le16 v)) off).1 = v :=
  readUint16_of_bytesAt (bytesAt_put h)

theorem byteAt_put_outside (h : o < off ∨ off + bytes.length ≤ o) :
    byteAt (put buf off bytes) o = byteAt buf o :=
  byteAt_congr (put_getElem?_outside buf off bytes o h)

theorem readUint16_shift {k : ℕ} (h : ∀ j, j < o + 2 → a[j]? = b[k + j]?) :
    (readUint16 a o).1 = (readUint16 b (k + o)).1 := by
  have hbyte : ∀ j, j < o + 2 → byteAt a j = byteAt b (k + j) := fun j hj => by
    rw [byteAt, byteAt, List.getD_eq_getElem?_getD, List.getD_eq_getElem?_getD, h j hj]
  unfold readUint16
  rw [hbyte o (by omega), hbyte (o + 1) (by omega), Nat.add_assoc]

end Reading

/-! ## The chain in a buffer -/

/-- The bytes that datagrams with these sizes take. -/
def span (ns : List ℕ) : ℕ := (ns.map (12 + ·)).sum

theorem span_cons (n : ℕ) (ns : List ℕ) : span (n :: ns) = 12 + n + span ns := rfl

theorem span_append (ns ms : List ℕ) : span (ns ++ ms) = span ns + span ms := by
  rw [span, List.map_append, List.sum_append]
  rfl

theorem length_le_span (ns : List ℕ) : ns.length ≤ span ns := by
  induction ns with
  | nil => exact Nat.le_refl _
  | cons n ns ih =>
    rw [span_cons, List.length_cons]
    omega

/-- Datagrams with these sizes from `off` on; `last` is whether another one follows the last. -/
def Layout (buf : List UInt8) (last : Bool) : ℕ → List ℕ → Prop
  | _, [] => True
  | off, n :: ns =>
    size buf off = n ∧ follows buf off = (!ns.isEmpty || last) ∧ Layout buf last (off + 12 + n) ns

def passings (buf : List UInt8) : ℕ → List ℕ → List Passing
  | _, [] => []
  | off, n :: ns => passing buf off n :: passings buf (off + 12 + n) ns

section Chain
variable {a b buf : List UInt8} {last : Bool} {off n : ℕ} {ns : List ℕ}

theorem passing_congr (h : ∀ j, off ≤ j → j < off + 12 + n → a[j]? = b[j]?) :
    passing a off n = passing b off n := by
  unfold passing
  rw [byteAt_congr (h off (by omega) (by omega)), byteAt_congr (h (off + 1) (by omega) (by omega)),
    readUint16_congr fun j hj hj' => h j (by omega) (by omega),
    readUint16_congr fun j hj hj' => h j (by omega) (by omega),
    readUint16_congr fun j hj hj' => h j (by omega) (by omega),
    window_congr _ _ _ _ fun j hj hj' => h j (by omega) (by omega)]

variable (off) in
theorem dlength_congr (h : ∀ j, off ≤ j → j < off + 12 → a[j]? = b[j]?) :
    dlength a off = dlength b off := by
  unfold dlength
  rw [readUint16_congr fun j hj hj' => h j (by omega) (by omega)]

theorem layout_congr (h : ∀ j, off ≤ j → j < off + span ns → a[j]? = b[j]?) (hlay : Layout a last off ns) :
    Layout b last off ns := by
  induction ns generalizing off with
  | nil => trivial
  | cons n ns ih =>
    rw [span_cons] at h
    obtain ⟨hsize, hfollows, hrest⟩ := hlay
    have hword : dlength a off = dlength b off := dlength_congr off fun j hj hj' => h j hj (by omega)
    refine ⟨?_, ?_, ih (fun j hj hj' => h j (by omega) (by omega)) hrest⟩
    · rwa [size, ← hword]
    · rwa [follows, ← hword]

theorem passings_congr (h : ∀ j, off ≤ j → j < off + span ns → a[j]? = b[j]?) :
    passings a off ns = passings b off ns := by
  induction ns generalizing off with
  | nil => rfl
  | cons n ns ih =>
    rw [span_cons] at h
    rw [passings, passings, passing_congr fun j hj hj' => h j hj (by omega),
      ih fun j hj hj' => h j (by omega) (by omega)]

theorem passings_concat (buf : List UInt8) (off : ℕ) (ns : List ℕ) (n : ℕ) :
    passings buf off (ns ++ [n]) = passings buf off ns ++ [passing buf (off + span ns) n] := by
  induction ns generalizing off with
  | nil => rfl
  | cons m ns ih =>
    rw [List.cons_append, passings, passings, ih, span_cons, List.cons_append]
    congr 4
    omega

theorem layout_concat (hlay : Layout buf true off ns) (hsize : size buf (off + span ns) = n)
    (hfollows : follows buf (off + span ns) = last) : Layout buf last off (ns ++ [n]) := by
  induction ns generalizing off with
  | nil => exact ⟨hsize, hfollows, trivial⟩
  | cons m ns ih =>
    obtain ⟨hm, hnext, hrest⟩ := hlay
    rw [span_cons, ← Nat.add_assoc, ← Nat.add_assoc] at hsize hfollows
    refine ⟨hm, ?_, ih hrest hsize hfollows⟩
    rw [hnext]
    cases ns <;> rfl

/-- Following the chain finds all its datagrams. -/
theorem chain_layout (hlay : Layout buf false off (n :: ns)) {fuel : ℕ} (hfuel : ns.length < fuel) :
    chain buf fuel off = passings buf off (n :: ns) := by
  induction ns generalizing n off fuel with
  | nil =>
    obtain ⟨hsize, hfollows, -⟩ := hlay
    obtain ⟨fuel, rfl⟩ := Nat.exists_eq_succ_of_ne_zero (Nat.ne_zero_of_lt hfuel)
    rw [chain, hsize, hfollows]
    rfl
  | cons m ns ih =>
    obtain ⟨hsize, hfollows, hrest⟩ := hlay
    obtain ⟨fuel, rfl⟩ := Nat.exists_eq_succ_of_ne_zero (Nat.ne_zero_of_lt hfuel)
    rw [chain, hsize, hfollows, ih hrest (Nat.lt_of_succ_lt_succ hfuel)]
    rfl

end Chain

/-! ## Passing a slave -/

section Serving
variable {buf : List UInt8} {last : Bool} {off n : ℕ} {ns : List ℕ} {p : Passing}

@[simp] theorem rewrite_length (buf : List UInt8) (off n : ℕ) (p : Passing) :
    (rewrite buf off n p).length = buf.length := by
  unfold rewrite
  rw [put_length, put_length, put_length]

theorem rewrite_outside (hp : p.data.length = n) {j : ℕ} (hj : j < off + 2 ∨ off + 12 + n ≤ j) :
    (rewrite buf off n p)[j]? = buf[j]? := by
  unfold rewrite
  rw [put_getElem?_outside _ _ _ _ (by rw [le16_length]; omega),
    put_getElem?_outside _ _ _ _ (by omega), put_getElem?_outside _ _ _ _ (by rw [le16_length]; omega)]

variable (buf off) in
theorem dlength_rewrite (hp : p.data.length = n) : dlength (rewrite buf off n p) off = dlength buf off := by
  unfold dlength rewrite
  rw [readUint16_put_outside (by omega), readUint16_put_outside (by omega),
    readUint16_put_outside (by rw [le16_length]; omega)]

theorem passing_rewrite (hp : p.data.length = n) (hfit : off + 12 + n ≤ buf.length) :
    passing (rewrite buf off n p) off n =
      { passing buf off n with ADP := p.ADP, data := p.data, wkc := p.wkc } := by
  subst hp
  have hbytes : ∀ j, j < off + 2 → byteAt (rewrite buf off p.data.length p) j = byteAt buf j :=
    fun j hj => byteAt_congr (rewrite_outside rfl (Or.inl hj))
  have hadp : (readUint16 (rewrite buf off p.data.length p) (off + 2)).1 = p.ADP := by
    unfold rewrite
    rw [readUint16_put_outside (by omega), readUint16_put_outside (by omega),
      readUint16_put_self _ (by omega)]
  have hado : readUint16 (rewrite buf off p.data.length p) (off + 4) = readUint16 buf (off + 4) := by
    unfold rewrite
    rw [readUint16_put_outside (by omega), readUint16_put_outside (by omega),
      readUint16_put_outside (by rw [le16_length]; omega)]
  have hdata : window (rewrite buf off p.data.length p) (off + 10) p.data.length = p.data := by
    unfold rewrite
    rw [window_put_disjoint _ _ _ _ _ (by omega), window_put_self _ _ _ (by rw [put_length]; omega)]
  have hwkc : (readUint16 (rewrite buf off p.data.length p) (off + 10 + p.data.length)).1 = p.wkc := by
    unfold rewrite
    exact readUint16_put_self _ (by rw [put_length, put_length]; omega)
  simp only [passing, hbytes off (by omega), hbytes (off + 1) (by omega), hadp, hado, hdata, hwkc]

theorem passing_data_length (hfit : off + 10 + n ≤ buf.length) :
    (passing buf off n).data.length = n := by
  simp only [passing, window, List.length_take, List.length_drop]
  omega

/-- What a slave leaves behind is what it made of the datagram. -/
theorem passing_served {slave : Passing → Passing} (hkeep : Keeps slave)
    (hfit : off + 12 + n ≤ buf.length) :
    passing (rewrite buf off n (slave (passing buf off n))) off n = slave (passing buf off n) := by
  obtain ⟨hcom, hindex, hado, hlen⟩ := hkeep (passing buf off n)
  rw [passing_rewrite (hlen.trans (passing_data_length (by omega))) hfit]
  dsimp only
  rw [← hcom, ← hindex, ← hado]

/-- A slave that keeps the form of the frame changes each datagram of a chain, and nothing else. -/
theorem serve_layout {slave : Passing → Passing} (hkeep : Keeps slave)
    (hlay : Layout buf false off (n :: ns)) (hfit : off + span (n :: ns) ≤ buf.length) {fuel : ℕ}
    (hfuel : ns.length < fuel) :
    (serve slave fuel off buf).length = buf.length ∧
      (∀ j, j < off + 2 → (serve slave fuel off buf)[j]? = buf[j]?) ∧
      Layout (serve slave fuel off buf) false off (n :: ns) ∧
      passings (serve slave fuel off buf) off (n :: ns) = (passings buf off (n :: ns)).map slave := by
  induction ns generalizing n off fuel buf with
  | nil =>
    obtain ⟨hsize, hfollows, -⟩ := hlay
    rw [span_cons] at hfit
    obtain ⟨fuel, rfl⟩ := Nat.exists_eq_succ_of_ne_zero (Nat.ne_zero_of_lt hfuel)
    have hp : (slave (passing buf off n)).data.length = n :=
      (hkeep _).2.2.2.trans (passing_data_length (by omega))
    have hword := dlength_rewrite buf off hp
    have heq : serve slave (fuel + 1) off buf = rewrite buf off n (slave (passing buf off n)) := by
      rw [serve, hsize, hfollows]
      rfl
    rw [heq]
    refine ⟨rewrite_length _ _ _ _, fun j hj => rewrite_outside hp (Or.inl hj), ?_, ?_⟩
    · exact ⟨by rwa [size, hword], by rwa [follows, hword], trivial⟩
    · rw [passings, passing_served hkeep (by omega)]
      rfl
  | cons m ns ih =>
    obtain ⟨hsize, hfollows, hrest⟩ := hlay
    rw [span_cons] at hfit
    obtain ⟨fuel, rfl⟩ := Nat.exists_eq_succ_of_ne_zero (Nat.ne_zero_of_lt hfuel)
    have hp : (slave (passing buf off n)).data.length = n :=
      (hkeep _).2.2.2.trans (passing_data_length (by omega))
    have hword := dlength_rewrite buf off hp
    have hbehind : ∀ j, off + 12 + n ≤ j →
        buf[j]? = (rewrite buf off n (slave (passing buf off n)))[j]? :=
      fun j hj => (rewrite_outside hp (Or.inr hj)).symm
    have heq : serve slave (fuel + 1) off buf =
        serve slave fuel (off + 12 + n) (rewrite buf off n (slave (passing buf off n))) := by
      rw [serve, hsize, hfollows]
      rfl
    obtain ⟨hlen, hbefore, hlay', hpass⟩ := ih
      (layout_congr (fun j hj _ => hbehind j hj) hrest) (by rw [rewrite_length]; omega)
      (Nat.lt_of_succ_lt_succ hfuel)
    have hhead := dlength_congr off fun j _ hj => hbefore j (by omega)
    rw [heq]
    refine ⟨hlen.trans (rewrite_length _ _ _ _), fun j hj => ?_, ?_, ?_⟩
    · rw [hbefore j (by omega), rewrite_outside hp (Or.inl hj)]
    · refine ⟨?_, ?_, hlay'⟩
      · rwa [size, hhead, hword]
      · rwa [follows, hhead, hword]
    · rw [passings, hpass, passing_congr fun j _ hj => hbefore j (by omega),
        passing_served hkeep (by omega), ← passings_congr fun j hj _ => hbehind j hj]
      rfl

variable (ns) in
theorem datagrams_layout {frame : List UInt8} (hne : ns ≠ [])
    (hlay : Layout frame false (ETH_HEADERSIZE + 2) ns) (hfit : ETH_HEADERSIZE + 2 + span ns ≤ frame.length) :
    datagrams frame = passings frame (ETH_HEADERSIZE + 2) ns := by
  obtain ⟨n, ns, rfl⟩ := List.exists_cons_of_ne_nil hne
  have hlen := length_le_span ns
  rw [span_cons] at hfit
  exact chain_layout hlay (by omega)

variable (ns) in
theorem passSlaves_layout {slaves : List (Passing → Passing)} (hkeep : ∀ slave ∈ slaves, Keeps slave)
    {frame : List UInt8} (hne : ns ≠ []) (hlay : Layout frame false (ETH_HEADERSIZE + 2) ns)
    (hfit : ETH_HEADERSIZE + 2 + span ns ≤ frame.length) :
    (passSlaves slaves frame).length = frame.length ∧
      (∀ j, j < ETH_HEADERSIZE + 4 → (passSlaves slaves frame)[j]? = frame[j]?) ∧
      Layout (passSlaves slaves frame) false (ETH_HEADERSIZE + 2) ns ∧
      passings (passSlaves slaves frame) (ETH_HEADERSIZE + 2) ns =
        (passings frame (ETH_HEADERSIZE + 2) ns).map fun p => slaves.foldl (fun p slave => slave p) p := by
  obtain ⟨n, ns, rfl⟩ := List.exists_cons_of_ne_nil hne
  induction slaves generalizing frame with
  | nil => exact ⟨rfl, fun _ _ => rfl, hlay, (List.map_id _).symm⟩
  | cons slave slaves ih =>
    have hlen := length_le_span ns
    obtain ⟨hlen', hbefore, hlay', hpass⟩ := serve_layout (hkeep slave List.mem_cons_self) hlay hfit
      (show ns.length < frame.length by rw [span_cons] at hfit; omega)
    obtain ⟨hlen'', hbefore', hlay'', hpass'⟩ := ih (fun s hs => hkeep s (List.mem_cons_of_mem _ hs))
      hlay' (by rwa [hlen'])
    refine ⟨hlen''.trans hlen', fun j hj => (hbefore' j hj).trans (hbefore j hj), hlay'', ?_⟩
    rw [passSlaves, List.foldl_cons, ← passSlaves, hpass', hpass, List.map_map]
    rfl

end Serving

/-! ## Making a frame -/

theorem flag_iff (w : UInt16) : w &&& EC_DATAGRAMFOLLOWS ≠ 0 ↔ w.toNat.testBit 15 := by
  have hand : (w &&& EC_DATAGRAMFOLLOWS).toNat = (w.toNat.testBit 15).toNat * 2 ^ 15 := by
    rw [UInt16.toNat_and]
    exact Nat.and_two_pow _ 15
  rw [Ne, ← UInt16.toNat_inj, hand]
  cases w.toNat.testBit 15 <;> decide

theorem flag_or (w : UInt16) : (w ||| EC_DATAGRAMFOLLOWS) &&& EC_DATAGRAMFOLLOWS ≠ 0 := by
  rw [flag_iff, UInt16.toNat_or, Nat.testBit_or]
  exact Bool.or_eq_true_iff.mpr (Or.inr rfl)

theorem flag_small {w : UInt16} (h : w.toNat < 2 ^ 11) : ¬ w &&& EC_DATAGRAMFOLLOWS ≠ 0 := by
  rw [flag_iff, Nat.testBit_lt_two_pow (by omega)]
  exact Bool.false_ne_true

theorem size_or (w : UInt16) : (w ||| EC_DATAGRAMFOLLOWS).toNat % 2 ^ 11 = w.toNat % 2 ^ 11 := by
  rw [UInt16.toNat_or, Nat.or_mod_two_pow]
  exact Nat.or_zero _

theorem bytesAt_congr {a b : List UInt8} {off : ℕ} {bytes : List UInt8}
    (h : ∀ j, off ≤ j → j < off + bytes.length → a[j]? = b[j]?) (hb : BytesAt b off bytes) :
    BytesAt a off bytes := by
  intro j hj
  rw [byteAt_congr (h (off + j) (by omega) (by omega))]
  exact hb j hj

namespace Subframe
variable {d : Subframe} {frame : List UInt8} {idx : UInt8} {offset : ℕ} {w : UInt16}

def sent (d : Subframe) (idx : UInt8) : Passing where
  command := d.com.code
  index := idx
  ADP := d.ADP
  ADO := d.ADO
  data := writedatagramdata d.com d.data
  wkc := 0

theorem setupdatagram_length (d : Subframe) (frame : List UInt8) (idx : UInt8) :
    (d.setupdatagram frame idx).length = 28 + d.data.length := rfl

theorem adddatagram_length (d : Subframe) (f : FrameBuf) (idx : UInt8) (more : Bool) :
    (d.adddatagram f idx more).1.length = f.length % 2 ^ 16 + 12 - 2 + 2 + d.data.length := rfl

theorem adddatagram_offset (d : Subframe) (f : FrameBuf) (idx : UInt8) (more : Bool) :
    (d.adddatagram f idx more).2 = f.length % 2 ^ 16 + 12 - 2 - 14 := rfl

theorem header_length : (d.header idx w).length = 8 := rfl

@[simp] theorem write_length : (d.write frame idx offset w).length = frame.length := by
  unfold write
  rw [put_length, put_length, put_length]

theorem write_outside {j : ℕ} (hj : j < offset ∨ offset + 12 + d.data.length ≤ j) :
    (d.write frame idx offset w)[j]? = frame[j]? := by
  have hlen := writedatagramdata_length d.com d.data
  unfold write EC_HEADERSIZE EC_ELENGTHSIZE
  rw [put_getElem?_outside _ _ _ _ (by simp only [List.length_cons, List.length_nil]; omega),
    put_getElem?_outside _ _ _ _ (by omega), put_getElem?_outside _ _ _ _ (by rw [header_length]; omega)]

variable (idx) in
theorem write_spec (hfit : offset + 12 + d.data.length ≤ frame.length) :
    dlength (d.write frame idx offset w) offset = w ∧
      passing (d.write frame idx offset w) offset d.data.length = d.sent idx := by
  have hlen := writedatagramdata_length d.com d.data
  have hheader : BytesAt (d.write frame idx offset w) offset (d.header idx w) := by
    have hput : BytesAt (put frame offset (d.header idx w)) offset (d.header idx w) :=
      bytesAt_put (by rw [header_length]; omega)
    refine bytesAt_congr (fun j hj hj' => ?_) hput
    rw [header_length] at hj'
    unfold write EC_HEADERSIZE EC_ELENGTHSIZE
    rw [put_getElem?_outside _ _ _ _ (by simp only [List.length_cons, List.length_nil]; omega),
      put_getElem?_outside _ _ _ _ (by omega)]
  obtain ⟨hhead, hword⟩ := bytesAt_append hheader
  obtain ⟨hhead, hado⟩ := bytesAt_append hhead
  obtain ⟨hhead, hadp⟩ := bytesAt_append hhead
  have hdata : window (d.write frame idx offset w) (offset + 10) d.data.length =
      writedatagramdata d.com d.data := by
    unfold write EC_HEADERSIZE EC_ELENGTHSIZE
    rw [window_put_disjoint _ _ _ _ _ (by omega), ← hlen]
    exact window_put_self _ _ _ (by rw [put_length]; omega)
  have hwkc : (readUint16 (d.write frame idx offset w) (offset + 10 + d.data.length)).1 = 0 := by
    unfold write EC_HEADERSIZE EC_ELENGTHSIZE
    exact readUint16_put_self 0 (by rw [put_length, put_length]; omega)
  refine ⟨readUint16_of_bytesAt hword, ?_⟩
  have hcom : byteAt (d.write frame idx offset w) offset = d.com.code := hhead 0 Nat.two_pos
  have hidx : byteAt (d.write frame idx offset w) (offset + 1) = idx := hhead 1 Nat.one_lt_two
  have hADP : (readUint16 (d.write frame idx offset w) (offset + 2)).1 = d.ADP := readUint16_of_bytesAt hadp
  have hADO : (readUint16 (d.write frame idx offset w) (offset + 4)).1 = d.ADO := readUint16_of_bytesAt hado
  simp only [passing, sent, hcom, hidx, hADP, hADO, hdata, hwkc]

end Subframe

def sizes (ds : List Subframe) : List ℕ := ds.map (·.data.length)

theorem sizes_concat (ds : List Subframe) (d : Subframe) : sizes (ds ++ [d]) = sizes ds ++ [d.data.length] :=
  List.map_append

/-- A frame with these datagrams in it, made in the buffer `frame`. -/
structure Built (frame : List UInt8) (idx : UInt8) (f : FrameBuf) (ds : List Subframe) (last : Bool) :
    Prop where
  bytes : f.bytes.length = frame.length
  length : f.length = ETH_HEADERSIZE + 2 + span (sizes ds)
  elength : (readUint16 f.bytes ETH_HEADERSIZE).1.toNat = EC_ECATTYPE.toNat + span (sizes ds)
  layout : Layout f.bytes last (ETH_HEADERSIZE + 2) (sizes ds)
  passings : passings f.bytes (ETH_HEADERSIZE + 2) (sizes ds) = ds.map (·.sent idx)
  ethernet : ∀ j, j < ETH_HEADERSIZE → f.bytes[j]? = frame[j]?

section Building
variable {frame buf : List UInt8} {idx : UInt8} {f : FrameBuf} {d : Subframe} {ds : List Subframe}
  {off n : ℕ} {ns : List ℕ} {last : Bool} {w : UInt16}

variable (buf idx off ns) in
theorem write_behind (hlay : Layout buf true off ns) (hsize : w.toNat % 2 ^ 11 = d.data.length)
    (hflag : decide (w &&& EC_DATAGRAMFOLLOWS ≠ 0) = last)
    (hfit : off + span ns + 12 + d.data.length ≤ buf.length) :
    Layout (d.write buf idx (off + span ns) w) last off (ns ++ [d.data.length]) ∧
      passings (d.write buf idx (off + span ns) w) off (ns ++ [d.data.length]) =
        passings buf off ns ++ [d.sent idx] := by
  obtain ⟨hword, hpassing⟩ := Subframe.write_spec idx (w := w) hfit
  have hbefore : ∀ j, off ≤ j → j < off + span ns →
      buf[j]? = (d.write buf idx (off + span ns) w)[j]? :=
    fun j _ hj => (Subframe.write_outside (Or.inl hj)).symm
  constructor
  · apply layout_concat (layout_congr hbefore hlay)
    · rw [size, hword, hsize]
    · rw [follows, hword, hflag]
  · rw [passings_concat, hpassing, passings_congr hbefore]

theorem flag_layout (hlay : Layout buf last off (n :: ns)) (hlast : last = true ∨ ns = [])
    (hfit : off + 8 ≤ buf.length) :
    Layout (put buf (off + 6) (le16 (dlength buf off ||| EC_DATAGRAMFOLLOWS))) true off (n :: ns) ∧
      passings (put buf (off + 6) (le16 (dlength buf off ||| EC_DATAGRAMFOLLOWS))) off (n :: ns) =
        passings buf off (n :: ns) := by
  have hword : dlength (put buf (off + 6) (le16 (dlength buf off ||| EC_DATAGRAMFOLLOWS))) off =
      dlength buf off ||| EC_DATAGRAMFOLLOWS := readUint16_put_self _ (by omega)
  have hbehind : ∀ j, off + 12 + n ≤ j → j < off + 12 + n + span ns →
      buf[j]? = (put buf (off + 6) (le16 (dlength buf off ||| EC_DATAGRAMFOLLOWS)))[j]? :=
    fun j hj _ => (put_getElem?_outside _ _ _ _ (by rw [le16_length]; omega)).symm
  obtain ⟨hsize, -, hrest⟩ := hlay
  have hrest' : Layout buf true (off + 12 + n) ns := by
    rcases hlast with rfl | rfl
    · exact hrest
    · trivial
  constructor
  · refine ⟨?_, ?_, layout_congr hbehind hrest'⟩
    · rw [size, hword, size_or, ← size, hsize]
    · rw [follows, hword, Bool.or_true]
      exact decide_eq_true (flag_or _)
  · rw [passings, passings, ← passings_congr hbehind]
    congr 1
    unfold passing
    rw [byteAt_put_outside (by omega), byteAt_put_outside (by omega), readUint16_put_outside (by omega),
      readUint16_put_outside (by omega), readUint16_put_outside (by rw [le16_length]; omega),
      window_put_disjoint _ _ _ _ _ (by rw [le16_length]; omega)]

theorem length_toNat (hn : d.data.length < 2 ^ 11) : d.length.toNat = d.data.length := by
  rw [Subframe.length, UInt16.toNat_ofNat', Nat.mod_eq_of_lt (by omega)]

theorem elength_toNat (hn : w.toNat + 12 + d.data.length < 2 ^ 16) (hd : d.data.length < 2 ^ 11) :
    (w + UInt16.ofNat EC_HEADERSIZE + d.length).toNat = w.toNat + 12 + d.data.length := by
  have hheader : (UInt16.ofNat EC_HEADERSIZE).toNat = 12 := rfl
  rw [UInt16.toNat_add, UInt16.toNat_add, length_toNat hd, hheader]
  omega

variable (idx) in
theorem setup_built (hsize : frame.length = EC_BUFSIZE)
    (hfit : ETH_HEADERSIZE + 2 + span (sizes [d]) ≤ EC_BUFSIZE) :
    Built frame idx (d.setupdatagram frame idx) [d] false := by
  have hone : span (sizes [d]) = 12 + d.data.length := rfl
  have htype : EC_ECATTYPE.toNat = 0x1000 := rfl
  unfold ETH_HEADERSIZE EC_BUFSIZE at hfit
  unfold EC_BUFSIZE at hsize
  have hlength := length_toNat (d := d) (by omega)
  have helength := elength_toNat (w := EC_ECATTYPE) (d := d) (by omega) (by omega)
  let base := put frame 14 (le16 (EC_ECATTYPE + UInt16.ofNat EC_HEADERSIZE + d.length))
  have hbase : base.length = frame.length := put_length _ _ _
  have hbytes : (d.setupdatagram frame idx).bytes = d.write base idx 16 d.length := rfl
  obtain ⟨hlay, hpass⟩ := write_behind base idx 16 [] (w := d.length) trivial
    (by rw [hlength, Nat.mod_eq_of_lt (by omega)]) (decide_eq_false (flag_small (by omega)))
    (by rw [span, List.map_nil, List.sum_nil]; omega)
  have hbefore : ∀ j, j < 16 → (d.setupdatagram frame idx).bytes[j]? = base[j]? := fun j hj => by
    rw [hbytes, Subframe.write_outside (Or.inl hj)]
  refine ⟨?_, ?_, ?_, hlay, hpass, fun j hj => ?_⟩
  · rw [hbytes, Subframe.write_length, hbase]
  · rw [hone, Subframe.setupdatagram_length, ETH_HEADERSIZE]
    omega
  · change (readUint16 (d.setupdatagram frame idx).bytes 14).1.toNat = _
    rw [readUint16_congr fun j _ hj => hbefore j hj, readUint16_put_self _ (by omega), helength, hone]
    exact Nat.add_assoc _ _ _
  · rw [hbefore j (Nat.lt_trans hj (by decide))]
    exact put_getElem?_outside _ _ _ _ (Or.inl hj)

/-- The flag is set in the first datagram only when a second one comes, and the flag of the others must
have been set before. -/
theorem add_built (hsize : frame.length = EC_BUFSIZE) (hb : Built frame idx f ds last) (hds : ds ≠ [])
    (hflag : last = true ∨ ds.length ≤ 1) (more : Bool)
    (hfit : ETH_HEADERSIZE + 2 + span (sizes (ds ++ [d])) ≤ EC_BUFSIZE) :
    Built frame idx (d.adddatagram f idx more).1 (ds ++ [d]) more ∧
      (d.adddatagram f idx more).2 + 4 = f.length := by
  obtain ⟨e, es, rfl⟩ := List.exists_cons_of_ne_nil hds
  have hfirst : sizes (e :: es) = e.data.length :: sizes es := rfl
  have hspan := span_cons e.data.length (sizes es)
  have hone : span [d.data.length] = 12 + d.data.length := rfl
  have htype : EC_ECATTYPE.toNat = 0x1000 := rfl
  obtain ⟨hfbytes, hflength, hel, hlay, hpass, heth⟩ := hb
  rw [sizes_concat, span_append, hone, hfirst] at hfit
  rw [hfirst] at hflength hel hlay hpass
  unfold ETH_HEADERSIZE EC_BUFSIZE at hfit
  unfold EC_BUFSIZE at hsize
  unfold ETH_HEADERSIZE at hflength
  have hprev : f.length % 2 ^ 16 = f.length := Nat.mod_eq_of_lt (by omega)
  have hlength := length_toNat (d := d) (by omega)
  have helength := elength_toNat (w := (readUint16 f.bytes ETH_HEADERSIZE).1) (d := d) (by omega) (by omega)
  let counted := put f.bytes 14
    (le16 ((readUint16 f.bytes ETH_HEADERSIZE).1 + UInt16.ofNat EC_HEADERSIZE + d.length))
  have hcounted : ∀ j, 16 ≤ j → f.bytes[j]? = counted[j]? := fun j hj =>
    (put_getElem?_outside _ _ _ _ (Or.inr hj)).symm
  have hcountedlen : counted.length = f.bytes.length := put_length _ _ _
  let flagged := put counted 22 (le16 (dlength counted 16 ||| EC_DATAGRAMFOLLOWS))
  have hflagged : flagged.length = f.bytes.length := by
    rw [put_length, put_length]
  obtain ⟨hlay₁, hpass₁⟩ := flag_layout (layout_congr (fun j hj _ => hcounted j hj) hlay)
    (hflag.imp_right fun h => by
      have hnil : es = [] := List.length_eq_zero_iff.mp (by rw [List.length_cons] at h; omega)
      rw [hnil]
      rfl)
    (hcountedlen ▸ (by omega))
  let w := if more then d.length ||| EC_DATAGRAMFOLLOWS else d.length
  have hw : w.toNat % 2 ^ 11 = d.data.length ∧ decide (w &&& EC_DATAGRAMFOLLOWS ≠ 0) = more := by
    cases more
    · have hplain : w = d.length := rfl
      exact ⟨by rw [hplain, hlength, Nat.mod_eq_of_lt (by omega)],
        decide_eq_false (flag_small (by rw [hplain]; omega))⟩
    · have hmore : w = d.length ||| EC_DATAGRAMFOLLOWS := rfl
      exact ⟨by rw [hmore, size_or, hlength, Nat.mod_eq_of_lt (by omega)], decide_eq_true (flag_or _)⟩
  have hbytes : (d.adddatagram f idx more).1.bytes =
      d.write flagged idx (16 + span (e.data.length :: sizes es)) w := by
    rw [← hflength]
    conv_rhs => rw [← hprev]
    rfl
  have hbefore : ∀ j, j < 16 → (d.adddatagram f idx more).1.bytes[j]? = counted[j]? := fun j hj => by
    rw [hbytes, Subframe.write_outside (by omega)]
    exact put_getElem?_outside _ _ _ _ (by omega)
  obtain ⟨hlay₂, hpass₂⟩ := write_behind flagged idx _ _ hlay₁ hw.1 hw.2
    (by omega)
  refine ⟨⟨?_, ?_, ?_, ?_, ?_, fun j hj => ?_⟩, ?_⟩
  · rw [hbytes, Subframe.write_length, hflagged, hfbytes]
  · rw [Subframe.adddatagram_length, hprev, sizes_concat, span_append, hone, hfirst, ETH_HEADERSIZE]
    omega
  · change (readUint16 (d.adddatagram f idx more).1.bytes 14).1.toNat = _
    rw [readUint16_congr fun j _ hj => hbefore j hj, readUint16_put_self _ (by omega), helength, sizes_concat,
      span_append, hone, hfirst]
    omega
  · rw [hbytes, sizes_concat]
    exact hlay₂
  · rw [hbytes, sizes_concat, List.map_append, ← hpass]
    refine hpass₂.trans ?_
    rw [hpass₁, ← passings_congr fun j hj _ => hcounted j hj]
    rfl
  · rw [hbefore j (Nat.lt_trans hj (by decide)), ← heth j hj]
    exact put_getElem?_outside _ _ _ _ (Or.inl hj)
  · rw [Subframe.adddatagram_offset, hprev]
    omega

/-- Where the data of a chain is in the received frame, which has no Ethernet header. -/
def dataOffsets : ℕ → List ℕ → List ℕ
  | _, [] => []
  | off, n :: ns => (off - 4) :: dataOffsets (off + 12 + n) ns

theorem adddatagrams_built (hsize : frame.length = EC_BUFSIZE) (es : List Subframe)
    (hb : Built frame idx f ds last) (hds : ds ≠ []) (hflag : last = true ∨ ds.length ≤ 1 ∨ es = [])
    (hfit : ETH_HEADERSIZE + 2 + span (sizes (ds ++ es)) ≤ EC_BUFSIZE) :
    Built frame idx (adddatagrams idx f es).1 (ds ++ es) (last && es.isEmpty) ∧
      (adddatagrams idx f es).2 = dataOffsets f.length (sizes es) := by
  induction es generalizing f ds last with
  | nil =>
    rw [List.append_nil, List.isEmpty_nil, Bool.and_true]
    exact ⟨hb, rfl⟩
  | cons e es ih =>
    have happend : ds ++ e :: es = (ds ++ [e]) ++ es := List.append_cons ds e es
    have hall : span (sizes (ds ++ e :: es)) = span (sizes (ds ++ [e])) + span (sizes es) := by
      rw [happend, sizes, List.map_append, span_append]
      rfl
    obtain ⟨hb', hoffset⟩ := add_built (d := e) hsize hb hds
      (hflag.imp_right fun h => h.resolve_right (List.cons_ne_nil _ _)) (!es.isEmpty) (by omega)
    have hlength : (e.adddatagram f idx (!es.isEmpty)).1.length = f.length + 12 + e.data.length := by
      have hone : span [e.data.length] = 12 + e.data.length := rfl
      rw [hb'.length, hb.length, sizes_concat, span_append, hone]
      omega
    obtain ⟨hb'', hoffsets⟩ := ih hb' (List.append_ne_nil_of_right_ne_nil _ (List.cons_ne_nil _ _))
      (by cases es with
        | nil => exact Or.inr (Or.inr rfl)
        | cons => exact Or.inl rfl) (by rwa [← happend])
    rw [happend, List.isEmpty_cons, Bool.and_false]
    rw [Bool.not_and_self] at hb''
    refine ⟨hb'', ?_⟩
    rw [adddatagrams]
    dsimp only
    rw [hoffsets, hlength]
    change _ = (f.length - 4) :: dataOffsets (f.length + 12 + e.data.length) (sizes es)
    rw [← hoffset, Nat.add_sub_cancel]

variable (idx) in
theorem framedatagrams_built (hsize : frame.length = EC_BUFSIZE)
    (hfit : ETH_HEADERSIZE + 2 + span (sizes (d :: ds)) ≤ EC_BUFSIZE) :
    Built frame idx (framedatagrams frame idx d ds).1 (d :: ds) false ∧
      (framedatagrams frame idx d ds).2 = dataOffsets (ETH_HEADERSIZE + 2) (sizes (d :: ds)) := by
  have hone : span (sizes (d :: ds)) = span (sizes [d]) + span (sizes ds) := rfl
  have hset := setup_built idx (d := d) hsize (by omega)
  obtain ⟨hb, hoffsets⟩ := adddatagrams_built hsize ds hset (List.cons_ne_nil _ _)
    (Or.inr (Or.inl (Nat.le_refl 1))) hfit
  refine ⟨hb, ?_⟩
  rw [framedatagrams]
  dsimp only
  rw [hoffsets, Subframe.setupdatagram_length]
  rfl

theorem data_found {rx : List UInt8} (hoff : 4 ≤ off)
    (hrx : ∀ j, ETH_HEADERSIZE + j < off + span ns → rx[j]? = buf[ETH_HEADERSIZE + j]?) :
    List.zipWith (fun o n => window rx o n) (dataOffsets off ns) ns =
      (passings buf off ns).map Passing.data := by
  induction ns generalizing off with
  | nil => rfl
  | cons n ns ih =>
    rw [span_cons] at hrx
    rw [dataOffsets, List.zipWith_cons_cons, passings, List.map_cons,
      ih (by omega) fun j hj => hrx j (by omega)]
    congr 1
    apply List.ext_getElem?
    intro j
    simp only [passing, window_getElem?]
    by_cases hj : j < n
    · rw [if_pos hj, if_pos hj, hrx _ (by unfold ETH_HEADERSIZE; omega)]
      congr 1
      unfold ETH_HEADERSIZE
      omega
    · rw [if_neg hj, if_neg hj]

theorem lengthAt_eq (buf : List UInt8) (o : ℕ) :
    Port.lengthAt buf o = (readUint16 buf o).1.toNat % 2 ^ 12 := by
  have hb := (byteAt buf o).toNat_lt
  have hand : (byteAt buf (o + 1) &&& 0x0f).toNat = (byteAt buf (o + 1)).toNat % 2 ^ 4 := by
    rw [UInt8.toNat_and]
    exact Nat.and_two_pow_sub_one_eq_mod _ 4
  rw [readUint16_toNat, Port.lengthAt, hand]
  simp only [leNat, List.foldr_cons, List.foldr_nil]
  omega

theorem wkcAt_eq (buf : List UInt8) (l : ℕ) : Port.wkcAt buf l = ((readUint16 buf l).1.toNat : ℤ) := by
  rw [readUint16_toNat, Port.wkcAt]
  simp only [leNat, List.foldr_cons, List.foldr_nil]
  push_cast
  omega

theorem passings_getLast? (buf : List UInt8) (off : ℕ) (ns : List ℕ) (h : ns ≠ []) :
    (passings buf off ns).getLast?.map Passing.wkc = some (readUint16 buf (off + span ns - 2)).1 := by
  obtain ⟨ns, n, rfl⟩ := (List.eq_nil_or_concat' ns).resolve_left h
  have hone : span [n] = 12 + n := rfl
  have hend : off + (span ns + (12 + n)) - 2 = off + span ns + 10 + n := by omega
  rw [passings_concat, List.getLast?_concat, Option.map_some, span_append, hone, hend, passing]

end Building

/-! ## Round trips -/

section RoundTrip
variable {frame : List UInt8} {idx : UInt8} {d : Subframe} {ds : List Subframe}

theorem sent_getElem? {f : FrameBuf} {j : ℕ} (hj : j < f.length) : f.sent[j]? = f.bytes[j]? :=
  List.getElem?_take_of_lt hj

theorem Built.sent {f : FrameBuf} {es : List Subframe} (hb : Built frame idx f es false)
    (hsize : frame.length = EC_BUFSIZE) (hfit : ETH_HEADERSIZE + 2 + span (sizes es) ≤ EC_BUFSIZE) :
    f.sent.length = ETH_HEADERSIZE + 2 + span (sizes es) ∧
      Layout f.sent false (ETH_HEADERSIZE + 2) (sizes es) ∧
      EcatMaster.Soem.passings f.sent (ETH_HEADERSIZE + 2) (sizes es) = es.map (·.sent idx) ∧
      (readUint16 f.sent ETH_HEADERSIZE).1.toNat = EC_ECATTYPE.toNat + span (sizes es) := by
  have hflength := hb.length
  have hbytes : ∀ j, j < ETH_HEADERSIZE + 2 + span (sizes es) → f.bytes[j]? = f.sent[j]? :=
    fun j hj => (sent_getElem? (by omega)).symm
  refine ⟨?_, layout_congr (fun j _ hj => hbytes j hj) hb.layout, ?_, ?_⟩
  · rw [FrameBuf.sent, List.length_take, hb.bytes]
    omega
  · rw [← hb.passings]
    exact passings_congr fun j _ hj => (hbytes j hj).symm
  · rw [← hb.elength]
    congr 2
    exact readUint16_congr fun j _ hj => (hbytes j (by omega)).symm

/-- A buffer as `ecx_setupnic` leaves it. -/
def txbuffer : List UInt8 := setupheader [1, 1, 1, 1, 1, 1] (List.replicate EC_BUFSIZE 0)

theorem txbuffer_length : txbuffer.length = EC_BUFSIZE := by
  rw [txbuffer, setupheader, put_length, List.length_replicate]

/-- What the slaves of a bus make of a datagram of the master, one after the other. -/
def answer (slaves : List (Passing → Passing)) (idx : UInt8) (d : Subframe) : Passing :=
  slaves.foldl (fun p slave => slave p) (d.sent idx)

variable (idx) in
/-- What comes back is a frame of the same length with the index that was sent. -/
theorem reply_framed {slaves : List (Passing → Passing)} (hkeep : ∀ slave ∈ slaves, Keeps slave)
    (hsize : frame.length = EC_BUFSIZE) (hfit : ETH_HEADERSIZE + 2 + span (sizes (d :: ds)) ≤ EC_BUFSIZE)
    (htype : byteAt frame 12 = 0x88 ∧ byteAt frame 13 = 0xa4) :
    (passSlaves slaves (framedatagrams frame idx d ds).1.sent).length =
        (framedatagrams frame idx d ds).1.length ∧
      Link.Framed idx.toNat (passSlaves slaves (framedatagrams frame idx d ds).1.sent) := by
  obtain ⟨hb, -⟩ := framedatagrams_built idx hsize hfit
  obtain ⟨hlen, hlay, hpass, -⟩ := hb.sent hsize hfit
  obtain ⟨hlen', hbefore, -, -⟩ := passSlaves_layout (sizes (d :: ds)) hkeep
    (List.cons_ne_nil _ _) hlay hlen.ge
  have hspan : span (sizes (d :: ds)) = 12 + d.data.length + span (sizes ds) := rfl
  have hflength := hb.length
  refine ⟨by rw [hlen', hlen, hflength], ?_, ?_, ?_, ?_, ?_⟩
  · rw [hlen', hlen, ETH_HEADERSIZE]
    omega
  · rwa [hlen', hlen]
  · rw [byteAt_congr (hbefore 12 (by decide)), byteAt_congr (sent_getElem? (by omega)),
      byteAt_congr (hb.ethernet 12 (by decide)), htype.1]
  · rw [byteAt_congr (hbefore 13 (by decide)), byteAt_congr (sent_getElem? (by omega)),
      byteAt_congr (hb.ethernet 13 (by decide)), htype.2]
  · have hindex := congrArg (fun ps => (ps.map Passing.index).head?) hpass
    have hfirst : byteAt (framedatagrams frame idx d ds).1.sent (ETH_HEADERSIZE + 3) = idx := Option.some.inj hindex
    rw [byteAt_congr (hbefore _ (by decide)), hfirst]

/-- The master finds at the offsets what the slaves have made of its datagrams, and takes for the working
counter that of the last one. -/
theorem reply_found {slaves : List (Passing → Passing)} (hkeep : ∀ slave ∈ slaves, Keeps slave)
    (hsize : frame.length = EC_BUFSIZE) (hfit : ETH_HEADERSIZE + 2 + span (sizes (d :: ds)) ≤ EC_BUFSIZE)
    {rx : List UInt8}
    (hrx : ∀ j, ETH_HEADERSIZE + j < (framedatagrams frame idx d ds).1.length →
      rx[j]? = (passSlaves slaves (framedatagrams frame idx d ds).1.sent)[ETH_HEADERSIZE + j]?) :
    List.zipWith (fun o n => window rx o n) (framedatagrams frame idx d ds).2 (sizes (d :: ds)) =
        (d :: ds).map (fun e => (answer slaves idx e).data) ∧
      Port.wkcAt rx (Port.lengthAt rx 0) =
        (answer slaves idx ((d :: ds).getLast (List.cons_ne_nil d ds))).wkc.toNat := by
  obtain ⟨hb, hoffsets⟩ := framedatagrams_built idx hsize hfit
  obtain ⟨hlen, hlay, hpass, helength⟩ := hb.sent hsize hfit
  rw [hb.length] at hrx
  obtain ⟨hlen', hbefore, hlay', hpass'⟩ := passSlaves_layout (sizes (d :: ds)) hkeep
    (List.cons_ne_nil _ _) hlay hlen.ge
  have hspan : span (sizes (d :: ds)) = 12 + d.data.length + span (sizes ds) := rfl
  rw [hpass, List.map_map] at hpass'
  constructor
  · rw [hoffsets]
    refine (data_found (by decide) fun j hj => hrx j hj).trans ?_
    rw [hpass', List.map_map]
    rfl
  · have hword : (readUint16 rx 0).1 = (readUint16 (framedatagrams frame idx d ds).1.sent ETH_HEADERSIZE).1 := by
      rw [readUint16_shift (k := ETH_HEADERSIZE) fun j hj => hrx j (by omega)]
      exact congrArg Prod.fst (readUint16_congr fun j _ hj => hbefore j (by omega))
    have hlength : Port.lengthAt rx 0 = span (sizes (d :: ds)) := by
      rw [lengthAt_eq, hword, helength, show EC_ECATTYPE.toNat = 0x1000 from rfl]
      unfold ETH_HEADERSIZE EC_BUFSIZE at hfit
      omega
    have hlast := passings_getLast? (passSlaves slaves (framedatagrams frame idx d ds).1.sent)
      (ETH_HEADERSIZE + 2) (sizes (d :: ds)) (List.cons_ne_nil _ _)
    have hend : ETH_HEADERSIZE + 2 + span (sizes (d :: ds)) - 2 = ETH_HEADERSIZE + span (sizes (d :: ds)) := by
      omega
    rw [hpass', List.getLast?_map, List.getLast?_eq_some_getLast (List.cons_ne_nil d ds), hend] at hlast
    rw [hlength, wkcAt_eq, readUint16_shift (k := ETH_HEADERSIZE) fun j hj => hrx j (by omega),
      ← Option.some.inj hlast]
    rfl

/-- One slave that counts every datagram. -/
theorem reply_found_two :
    let sent := (framedatagrams txbuffer 3 ⟨.FPRD, 1001, 0x130, List.replicate 6 0⟩
      [⟨.FPWR, 1002, 0x120, [8, 0]⟩]).1.sent
    let rx := (passSlaves [fun p => { p with wkc := p.wkc + 1 }] sent).drop ETH_HEADERSIZE
    Port.wkcAt rx (Port.lengthAt rx 0) = 1 :=
  (reply_found (fun slave hs => by
      rw [List.mem_singleton.mp hs]
      exact fun p => ⟨rfl, rfl, rfl, rfl⟩) txbuffer_length (by decide)
    fun j _ => List.getElem?_drop).2

end RoundTrip

end EcatMaster.Soem
