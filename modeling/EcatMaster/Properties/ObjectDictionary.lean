import EcatMaster.Properties.SdoTransfer

/-! # The object dictionary of a slave

A master that reads and writes a slave's objects through the mailboxes works on a dictionary: over any
sequence of transfers the results, the errors and the objects are those of the dictionary
(`sdo_run`), and an object that is written is the one that is read (`sdo_round_trip`).
-/

namespace EcatMaster.Soem
set_option autoImplicit false
open ByteBuf SdoServer

abbrev Objects := UInt16 → UInt8 → Bool → List UInt8

/-- A call of `ecx_SDOwrite` or of `ecx_SDOread`, with the parameter buffer. -/
inductive SdoOp
  | write (Index : UInt16) (SubIndex : UInt8) (CA : Bool) (p : List UInt8)
  | read (index : UInt16) (subindex : UInt8) (CA : Bool) (psize : ℕ) (p : List UInt8)

namespace SdoOp

section Master
variable {σ : Type} (m : Mailbox σ) (timeout mbx_l : ℕ)

/-- A call, which leaves the parameters of a write alone. -/
def run : SdoOp → Coe σ → Option (SdoReadResult × Coe σ)
  | .write I J CA p, st =>
    let (wkc, st) := sdoWrite m timeout mbx_l I J CA p st
    some (⟨wkc, p.length, p⟩, st)
  | .read I J CA psize p, st => sdoRead m timeout I J CA psize p psize st

def runAll : List SdoOp → Coe σ → Option (List SdoReadResult × Coe σ)
  | [], st => some ([], st)
  | op :: ops, st =>
    (op.run m timeout mbx_l st).bind fun (r, st) => (runAll ops st).map fun (rs, st) => (r :: rs, st)

end Master

/-- What a call is for, on a dictionary: its result, the errors, and the dictionary after it. -/
def spec : SdoOp → Objects → SdoReadResult × List SdoError × Objects
  | .write I J CA p, o =>
    (⟨1, p.length, p⟩, [],
      fun i j c => if i = I ∧ j = accessSubindex CA J ∧ c = CA then p else o i j c)
  | .read I J CA psize p, o =>
    let data := o I (accessSubindex CA J) CA
    if data.length ≤ psize then (⟨1, data.length, put p 0 data⟩, [], o)
    else (⟨0, psize, p⟩, [.packet I (accessSubindex CA J) 3], o)

def specAll : List SdoOp → Objects → List SdoReadResult × List SdoError × Objects
  | [], o => ([], [], o)
  | op :: ops, o =>
    let (r, errs, o) := op.spec o
    let (rs, errs', o) := specAll ops o
    (r :: rs, errs ++ errs', o)

/-- Objects have a size that an `int32` holds. Without complete access, something is written. -/
def Valid : SdoOp → Prop
  | .write _ _ CA p => p.length < 2 ^ 31 ∧ (0 < p.length ∨ CA = true)
  | .read .. => True

end SdoOp

section Run
variable {timeout mbx_l : ℕ} {st : Coe SdoServer}

/-- One call, whatever transfer is under way and whatever is in the mailbox. -/
theorem SdoOp.run_spec (op : SdoOp) (timeout : ℕ) (hl : MbxSize mbx_l) (hr : MbxSize st.peer.mbx_rl) (hop : op.Valid)
    (hobjects : ∀ i j c, (st.peer.objects i j c).length < 2 ^ 31) :
    ∃ st', op.run mailboxOf timeout mbx_l st = some ((op.spec st.peer.objects).1, st') ∧
      st'.errors = st.errors ++ (op.spec st.peer.objects).2.1 ∧
      st'.peer.objects = (op.spec st.peer.objects).2.2 ∧ st'.peer.mbx_rl = st.peer.mbx_rl := by
  cases op with
  | write I J CA p =>
    have hlen : p.length < 2 ^ 32 := hop.1.trans (by decide)
    obtain ⟨cnt, hcnt⟩ := sdoWrite_stores timeout I J st hl hlen hop.2
    refine ⟨st.stored cnt I (accessSubindex CA J) CA p, ?_, (List.append_nil _).symm, rfl, rfl⟩
    unfold SdoOp.run
    simp only [hcnt]
    rfl
  | read I J CA psize p =>
    obtain ⟨cnt, transfer, hcnt⟩ := sdoRead_returns timeout I J CA p st hr rfl (hobjects _ _ _)
      (Nat.le_refl psize)
    by_cases hfit : (st.peer.objects I (accessSubindex CA J) CA).length ≤ psize
    · rw [if_pos hfit] at hcnt
      simp only [SdoOp.spec, if_pos hfit]
      exact ⟨_, hcnt, (List.append_nil _).symm, rfl, rfl⟩
    · rw [if_neg hfit] at hcnt
      simp only [SdoOp.spec, if_neg hfit]
      exact ⟨_, hcnt, rfl, rfl, rfl⟩

theorem SdoOp.spec_bounded {op : SdoOp} {o : Objects} (hop : op.Valid)
    (ho : ∀ i j c, (o i j c).length < 2 ^ 31) (i : UInt16) (j : UInt8) (c : Bool) :
    ((op.spec o).2.2 i j c).length < 2 ^ 31 := by
  cases op with
  | write I J CA p =>
    unfold SdoOp.spec
    by_cases h : i = I ∧ j = accessSubindex CA J ∧ c = CA
    · simp only [if_pos h]
      exact hop.1
    · simp only [if_neg h]
      exact ho i j c
  | read I J CA psize p =>
    by_cases hfit : (o I (accessSubindex CA J) CA).length ≤ psize
    · simp only [SdoOp.spec, if_pos hfit]
      exact ho i j c
    · simp only [SdoOp.spec, if_neg hfit]
      exact ho i j c

/-- A sequence of calls, which also leaves the server ready for the next one. -/
theorem SdoOp.runAll_spec (timeout : ℕ) (ops : List SdoOp) (hl : MbxSize mbx_l) (hr : MbxSize st.peer.mbx_rl)
    (hops : ∀ op ∈ ops, op.Valid) (hobjects : ∀ i j c, (st.peer.objects i j c).length < 2 ^ 31) :
    ∃ st', SdoOp.runAll mailboxOf timeout mbx_l ops st = some ((SdoOp.specAll ops st.peer.objects).1, st') ∧
      st'.errors = st.errors ++ (SdoOp.specAll ops st.peer.objects).2.1 ∧
      st'.peer.objects = (SdoOp.specAll ops st.peer.objects).2.2 ∧ st'.peer.mbx_rl = st.peer.mbx_rl := by
  induction ops generalizing st with
  | nil => exact ⟨st, rfl, (List.append_nil _).symm, rfl, rfl⟩
  | cons op ops ih =>
    have hop := hops op List.mem_cons_self
    obtain ⟨st₁, hrun, herrors, hdict, hmbx⟩ := op.run_spec timeout hl hr hop hobjects
    have hr' : MbxSize st₁.peer.mbx_rl := by
      rw [hmbx]
      exact hr
    have hobjects' : ∀ i j c, (st₁.peer.objects i j c).length < 2 ^ 31 := by
      rw [hdict]
      exact SdoOp.spec_bounded hop hobjects
    obtain ⟨st₂, hrest, herrors', hdict', hmbx'⟩ := ih hr' (fun op hmem => hops op (List.mem_cons_of_mem _ hmem))
      hobjects'
    rw [hdict] at hrest herrors' hdict'
    refine ⟨st₂, ?_, ?_, hdict', hmbx'.trans hmbx⟩
    · unfold SdoOp.runAll SdoOp.specAll
      simp only [hrun, Option.bind_some, hrest]
      rfl
    · unfold SdoOp.specAll
      rw [herrors', herrors, List.append_assoc]

end Run

/-! ## What is written is read -/

def SdoOp.Writes (I : UInt16) (J : UInt8) (CA : Bool) : SdoOp → Prop
  | .write i j c _ => i = I ∧ accessSubindex c j = J ∧ c = CA
  | .read .. => False

theorem SdoOp.spec_untouched {op : SdoOp} {I : UInt16} {J : UInt8} {CA : Bool} {o : Objects}
    (h : ¬ op.Writes I J CA) : (op.spec o).2.2 I J CA = o I J CA := by
  cases op with
  | write i j c p =>
    have hne : ¬ (I = i ∧ J = accessSubindex c j ∧ CA = c) := by
      rintro ⟨rfl, rfl, rfl⟩
      exact h ⟨rfl, rfl, rfl⟩
    exact if_neg hne
  | read i j c psize p =>
    by_cases hfit : (o i (accessSubindex c j) c).length ≤ psize
    · simp only [SdoOp.spec, if_pos hfit]
    · simp only [SdoOp.spec, if_neg hfit]

theorem SdoOp.specAll_untouched {ops : List SdoOp} {I : UInt16} {J : UInt8} {CA : Bool} {o : Objects}
    (h : ∀ op ∈ ops, ¬ op.Writes I J CA) : (SdoOp.specAll ops o).2.2 I J CA = o I J CA := by
  induction ops generalizing o with
  | nil => rfl
  | cons op ops ih =>
    have hrest := ih (o := (op.spec o).2.2) fun op hmem => h op (List.mem_cons_of_mem _ hmem)
    exact hrest.trans (SdoOp.spec_untouched (h op List.mem_cons_self))

theorem SdoOp.specAll_append (ops ops' : List SdoOp) (o : Objects) :
    (SdoOp.specAll (ops ++ ops') o).1 =
      (SdoOp.specAll ops o).1 ++ (SdoOp.specAll ops' (SdoOp.specAll ops o).2.2).1 := by
  induction ops generalizing o with
  | nil => rfl
  | cons op ops ih => exact congrArg ((op.spec o).1 :: ·) (ih (op.spec o).2.2)

/-! ## Any slave -/

def Coe.map {σ τ : Type} (f : σ → τ) (st : Coe σ) : Coe τ := ⟨st.mbx_cnt, st.errors, f st.peer⟩

/-- A slave that answers through its mailbox as the server does. -/
structure Serves {σ : Type} (m : Mailbox σ) (view : σ → SdoServer) : Prop where
  send : ∀ req s, (m.send req s).1 = 1 ∧ view (m.send req s).2 = (view s).serve req
  receive : ∀ timeout s, (m.receive timeout s).1 = (mailboxOf.receive timeout (view s)).1 ∧
    view (m.receive timeout s).2 = (mailboxOf.receive timeout (view s)).2

section View
variable {σ : Type} {m : Mailbox σ} {view : σ → SdoServer} {timeout mbx_l : ℕ}

theorem empty_view (h : Serves m view) (st : Coe σ) :
    (st.map view).empty mailboxOf = (st.empty m).map view := by
  unfold Coe.empty Coe.map
  rw [(h.receive 0 st.peer).2]

theorem transfer_view (h : Serves m view) (req : Sdo) (st : Coe σ) :
    transfer mailboxOf timeout req (st.map view) =
      ((transfer m timeout req st).1, (transfer m timeout req st).2.map view) := by
  have hserve : mailboxOf.send req (view st.peer) = (1, view (m.send req st.peer).2) :=
    Prod.ext rfl (h.send req st.peer).2.symm
  have hreceive : mailboxOf.receive timeout (view (m.send req st.peer).2) =
      ((m.receive timeout (m.send req st.peer).2).1, view (m.receive timeout (m.send req st.peer).2).2) :=
    Prod.ext (h.receive timeout _).1.symm (h.receive timeout _).2.symm
  unfold transfer Coe.map
  simp only [hserve, hreceive, (h.send req st.peer).1, Int.one_pos, if_true]

theorem downloadSegments_view (h : Serves m view) {maxdata fuel : ℕ} {index : UInt16} {subindex : UInt8}
    {SDOp : Sdo} {rest : List UInt8} {toggle : ℕ} {st : Coe σ} :
    downloadSegments mailboxOf timeout maxdata index subindex fuel SDOp rest toggle (st.map view) =
      ((downloadSegments m timeout maxdata index subindex fuel SDOp rest toggle st).1,
        (downloadSegments m timeout maxdata index subindex fuel SDOp rest toggle st).2.map view) := by
  induction fuel generalizing SDOp rest toggle st with
  | zero => rfl
  | succ fuel ih =>
    have hreq : (st.map view).segmentRequest maxdata SDOp rest toggle =
        st.segmentRequest maxdata SDOp rest toggle := rfl
    have hcount : (st.map view).count = st.count.map view := rfl
    rw [downloadSegments, downloadSegments]
    simp only [hreq, hcount, transfer_view h]
    rcases transfer m timeout (st.segmentRequest maxdata SDOp rest toggle) st.count with ⟨⟨wkc, _ | a⟩, st'⟩
    · by_cases hmore : maxdata < rest.length
      · simp only [if_pos hmore, ih]
      · simp only [if_neg hmore]
    · by_cases hok : a.IsResponse ∧ a.Command &&& 0xe0 = 0x20
      · by_cases hmore : maxdata < rest.length
        · simp only [if_pos hok, if_pos hmore, ih]
        · simp only [if_pos hok, if_neg hmore]
      · simp only [if_neg hok]
        rfl

theorem sdoWrite_view (h : Serves m view) {I : UInt16} {J : UInt8} {CA : Bool} {p : List UInt8}
    {st : Coe σ} : sdoWrite mailboxOf timeout mbx_l I J CA p (st.map view) =
      ((sdoWrite m timeout mbx_l I J CA p st).1, (sdoWrite m timeout mbx_l I J CA p st).2.map view) := by
  unfold sdoWrite
  rw [empty_view h]
  generalize st.empty m = st
  have hexpedited : (st.map view).expeditedRequest I J p = st.expeditedRequest I J p := rfl
  have hdownload : (st.map view).downloadRequest (mbx_l - 0x10) I J CA p =
      st.downloadRequest (mbx_l - 0x10) I J CA p := rfl
  have hcount : (st.map view).count = st.count.map view := rfl
  simp only [hexpedited, hdownload, hcount, transfer_view h]
  by_cases hexp : p.length ≤ 4 ∧ CA = false
  · simp only [if_pos hexp]
    rcases transfer m timeout (st.expeditedRequest I J p) st.count with ⟨⟨wkc, _ | a⟩, st'⟩
    · rfl
    · dsimp only
      split <;> rfl
  · simp only [if_neg hexp]
    rcases transfer m timeout (st.downloadRequest (mbx_l - 0x10) I J CA p) st.count with ⟨⟨wkc, _ | a⟩, st'⟩
    · rfl
    · dsimp only
      split
      · split
        · exact downloadSegments_view h
        · rfl
      · rfl

theorem uploadSegments_view (h : Serves m view) {fuel psize toggle : ℕ} {index : UInt16} {subindex : UInt8}
    {p : List UInt8} {st : Coe σ} :
    uploadSegments mailboxOf timeout index subindex fuel psize toggle p (st.map view) =
      (uploadSegments m timeout index subindex fuel psize toggle p st).map (Prod.map id (Coe.map view)) := by
  induction fuel generalizing psize toggle p st with
  | zero => rfl
  | succ fuel ih =>
    have hreq : ∀ Command, (st.map view).uploadRequest Command index subindex =
        st.uploadRequest Command index subindex := fun _ => rfl
    have hcount : (st.map view).count = st.count.map view := rfl
    rw [uploadSegments, uploadSegments]
    simp only [hreq, hcount, transfer_view h]
    rcases transfer m timeout (st.uploadRequest (ECT_SDO_SEG_UP_REQ + toggle) index subindex) st.count with
      ⟨⟨wkc, _ | a⟩, st'⟩
    · exact ih
    · dsimp only
      split
      · split
        · rfl
        · exact ih
      · rfl

theorem sdoRead_view (h : Serves m view) {fuel psize : ℕ} {index : UInt16} {subindex : UInt8} {CA : Bool}
    {p : List UInt8} {st : Coe σ} :
    sdoRead mailboxOf timeout index subindex CA psize p fuel (st.map view) =
      (sdoRead m timeout index subindex CA psize p fuel st).map (Prod.map id (Coe.map view)) := by
  unfold sdoRead
  rw [empty_view h]
  generalize st.empty m = st
  have hreq : ∀ Command j, (st.map view).uploadRequest Command index j = st.uploadRequest Command index j :=
    fun _ _ => rfl
  have hcount : (st.map view).count = st.count.map view := rfl
  simp only [hreq, hcount, transfer_view h]
  generalize (if CA = true then ECT_SDO_UP_REQ_CA else ECT_SDO_UP_REQ) = Command
  generalize (if CA = true ∧ 1 < subindex then 1 else subindex) = j
  rcases transfer m timeout (st.uploadRequest Command index j) st.count with ⟨⟨wkc, _ | a⟩, st'⟩
  · rfl
  · dsimp only
    split
    · split
      · split <;> rfl
      · split
        · split
          · exact uploadSegments_view h
          · rfl
        · rfl
    · rfl

theorem SdoOp.runAll_view (h : Serves m view) {ops : List SdoOp} {st : Coe σ} :
    SdoOp.runAll mailboxOf timeout mbx_l ops (st.map view) =
      (SdoOp.runAll m timeout mbx_l ops st).map (Prod.map id (Coe.map view)) := by
  induction ops generalizing st with
  | nil => rfl
  | cons op ops ih =>
    have hop : op.run mailboxOf timeout mbx_l (st.map view) =
        (op.run m timeout mbx_l st).map (Prod.map id (Coe.map view)) := by
      cases op with
      | write I J CA p =>
        unfold SdoOp.run
        simp only [sdoWrite_view h]
        rfl
      | read I J CA psize p => exact sdoRead_view h
    unfold SdoOp.runAll
    rw [hop]
    rcases op.run m timeout mbx_l st with _ | ⟨r, st'⟩
    · rfl
    · simp only [Option.map_some, Option.bind_some, Prod.map, ih, Option.map_map]
      rfl

end View

/-! ## Any sequence of transfers -/

section Transfers
variable {σ : Type} {m : Mailbox σ} {view : σ → SdoServer}

/-- The objects that a master finds in a slave. -/
def Coe.objects (view : σ → SdoServer) (st : Coe σ) : Objects := (view st.peer).objects

/-- A run against the server is one against the slave. -/
theorem SdoOp.runAll_serves (h : Serves m view) {timeout mbx_l : ℕ} {st : Coe σ} {ops : List SdoOp}
    {results : List SdoReadResult} {st₁ : Coe SdoServer}
    (hrun : SdoOp.runAll mailboxOf timeout mbx_l ops (st.map view) = some (results, st₁)) :
    ∃ st', SdoOp.runAll m timeout mbx_l ops st = some (results, st') ∧ st'.map view = st₁ := by
  rw [SdoOp.runAll_view h] at hrun
  obtain ⟨⟨results', st'⟩, hst', hmap⟩ := Option.map_eq_some_iff.mp hrun
  obtain ⟨rfl, rfl⟩ := Prod.mk.inj hmap
  exact ⟨st', hst', rfl⟩

/-- Any sequence of SDO transfers, of any size and through any mailboxes, expedited or in segments, is a
sequence of reads and writes on a dictionary. -/
theorem sdo_run (h : Serves m view) (timeout mbx_l : ℕ) (st : Coe σ) (ops : List SdoOp)
    (hl : MbxSize mbx_l) (hr : MbxSize (view st.peer).mbx_rl) (hops : ∀ op ∈ ops, op.Valid)
    (hobjects : ∀ i j c, (st.objects view i j c).length < 2 ^ 31) :
    ∃ st', SdoOp.runAll m timeout mbx_l ops st = some ((SdoOp.specAll ops (st.objects view)).1, st') ∧
      st'.errors = st.errors ++ (SdoOp.specAll ops (st.objects view)).2.1 ∧
      st'.objects view = (SdoOp.specAll ops (st.objects view)).2.2 := by
  have hr' : MbxSize (st.map view).peer.mbx_rl := hr
  obtain ⟨st₁, hrun, herrors, hdict, -⟩ := SdoOp.runAll_spec timeout ops hl hr' hops hobjects
  obtain ⟨st', hrun', rfl⟩ := SdoOp.runAll_serves h hrun
  exact ⟨st', hrun', herrors, hdict⟩

theorem serves_self : Serves mailboxOf id := ⟨fun _ _ => ⟨rfl, rfl⟩, fun _ _ => ⟨rfl, rfl⟩⟩

/-- A slave with a mailbox of 24 bytes and no objects. -/
def blankSlave : Coe SdoServer := ⟨7, [], ⟨fun _ _ _ => [], .idle, some .clear, 24⟩⟩

/-- 20 bytes do not fit in a mailbox of 18 bytes, nor in one of 24 for the response. -/
def twentyBytes : List UInt8 := List.replicate 13 0xaa ++ List.replicate 7 0xbb

theorem sdo_run_segments : ∃ st', SdoOp.runAll mailboxOf 700 18
      [.write 0x8000 0x01 false twentyBytes, .read 0x8000 0x01 false 4 [0, 0, 0, 0],
        .read 0x8000 0x01 false 20 (List.replicate 20 0)] blankSlave =
      some ([⟨1, 20, twentyBytes⟩, ⟨0, 4, [0, 0, 0, 0]⟩, ⟨1, 20, twentyBytes⟩], st') ∧
    st'.errors = [.packet 0x8000 0x01 3] := by
  have hops : ∀ op ∈ [SdoOp.write 0x8000 0x01 false twentyBytes, .read 0x8000 0x01 false 4 [0, 0, 0, 0],
      .read 0x8000 0x01 false 20 (List.replicate 20 0)], op.Valid := by
    intro op hmem
    simp only [List.mem_cons, List.not_mem_nil, or_false] at hmem
    rcases hmem with rfl | rfl | rfl
    · exact ⟨by decide, Or.inl (by decide)⟩
    · exact trivial
    · exact trivial
  obtain ⟨st', hrun, herrors, -⟩ := sdo_run serves_self 700 18 blankSlave
    [.write 0x8000 0x01 false twentyBytes, .read 0x8000 0x01 false 4 [0, 0, 0, 0],
      .read 0x8000 0x01 false 20 (List.replicate 20 0)]
    (by unfold MbxSize EC_MAXMBX; decide) (by unfold MbxSize EC_MAXMBX; decide) hops
    (fun _ _ _ => by change 0 < 2 ^ 31; decide)
  exact ⟨st', hrun, herrors⟩

/-- An object that has been written is the one that is read, whatever other objects are written and read
in between. -/
theorem sdo_round_trip (h : Serves m view) (timeout mbx_l : ℕ) (st : Coe σ) (I : UInt16) (J J' : UInt8)
    (CA : Bool) (p q : List UInt8) (psize : ℕ) (ops : List SdoOp) (hl : MbxSize mbx_l)
    (hr : MbxSize (view st.peer).mbx_rl) (hp : (SdoOp.write I J CA p).Valid) (hops : ∀ op ∈ ops, op.Valid)
    (hobjects : ∀ i j c, (st.objects view i j c).length < 2 ^ 31)
    (hsame : accessSubindex CA J' = accessSubindex CA J) (hfit : p.length ≤ psize)
    (hkept : ∀ op ∈ ops, ¬ op.Writes I (accessSubindex CA J) CA) :
    ∃ results st', SdoOp.runAll m timeout mbx_l (.write I J CA p :: ops ++ [.read I J' CA psize q]) st =
      some (results ++ [⟨1, p.length, put q 0 p⟩], st') := by
  have hvalid : ∀ op ∈ .write I J CA p :: ops ++ [.read I J' CA psize q], op.Valid := by
    intro op hmem
    rcases List.mem_append.mp hmem with hmem | hmem
    · rcases List.mem_cons.mp hmem with rfl | hmem
      · exact hp
      · exact hops op hmem
    · rw [List.mem_singleton.mp hmem]
      exact trivial
  have hr' : MbxSize (st.map view).peer.mbx_rl := hr
  obtain ⟨st₁, hrun, -⟩ := SdoOp.runAll_spec timeout _ hl hr' hvalid hobjects
  have hobject : (SdoOp.specAll (.write I J CA p :: ops) (st.objects view)).2.2 I (accessSubindex CA J') CA =
      p := by
    rw [hsame]
    refine (SdoOp.specAll_untouched hkept).trans ?_
    exact if_pos ⟨rfl, rfl, rfl⟩
  have hread : (SdoOp.specAll [.read I J' CA psize q]
      (SdoOp.specAll (.write I J CA p :: ops) (st.objects view)).2.2).1 = [⟨1, p.length, put q 0 p⟩] := by
    unfold SdoOp.specAll SdoOp.spec
    simp only [hobject, if_pos hfit]
    rfl
  rw [SdoOp.specAll_append] at hrun
  obtain ⟨st', hrun', -⟩ := SdoOp.runAll_serves h hrun
  exact ⟨_, st', hrun'.trans (by rw [← hread]; rfl)⟩

theorem sdo_round_trip_access : ∃ results st', SdoOp.runAll mailboxOf 700 18
      [.write 0x8000 0x05 true twentyBytes, .write 0x8000 0x01 false [0x01],
        .read 0x8000 0x01 true 20 (List.replicate 20 0)] blankSlave =
      some (results ++ [⟨1, 20, twentyBytes⟩], st') := by
  have hmid : ∀ op ∈ [SdoOp.write 0x8000 0x01 false [0x01]], op.Valid := by
    intro op hmem
    rw [List.mem_singleton.mp hmem]
    exact ⟨by decide, Or.inl (by decide)⟩
  have hkept : ∀ op ∈ [SdoOp.write 0x8000 0x01 false [0x01]], ¬ op.Writes 0x8000 0x01 true := by
    intro op hmem
    rw [List.mem_singleton.mp hmem]
    exact fun h => Bool.false_ne_true h.2.2
  exact sdo_round_trip serves_self 700 18 blankSlave 0x8000 0x05 0x01 true twentyBytes (List.replicate 20 0) 20
    [.write 0x8000 0x01 false [0x01]] (by unfold MbxSize EC_MAXMBX; decide)
    (by unfold MbxSize EC_MAXMBX; decide) ⟨by decide, Or.inr rfl⟩ hmid
    (fun _ _ _ => by change 0 < 2 ^ 31; decide) (by decide) (by decide) hkept

end Transfers
end EcatMaster.Soem
