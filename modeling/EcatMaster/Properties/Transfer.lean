import EcatMaster.Lib.Echo
import EcatMaster.Properties.Buffers

/-! # The argument transfer, end to end

A node and the slave at one of its positions. The slave stores the argument in each frame it sees with
status SENDING_ARGUMENTS and echoes it; its input area keeps its last contents across a restart. When
`is_arg_sent_` becomes true the slave has stored all arguments of the session, if every echo that
confirms an argument is of the session and no frame the slave sees overwrites an argument it has.
-/

namespace EcatMaster
set_option autoImplicit false
open ByteBuf EventRun EchoLink

def SlaveDevice.argAt (d : SlaveDevice) (j : ℕ) : Option UInt8 :=
  if 1 ≤ j ∧ j ≤ d.argBufLen.toNat then some (byteAt d.argBuf (j - 1)) else none

/-- A node, its link to one slave, and the frame that slave was last sent. -/
structure Linked (n : ℕ) where
  node : Node n
  link : Link ℕ UInt8
  wire : Option (List UInt8)

/-- A step of the node, with the echoes its inputs skip, or the slave sees the frame; what it puts
into its input area for a frame with another status is free. -/
inductive LinkEvent (n : ℕ) where
  | node (e : Event n) (skip : ℕ)
  | see (index : ℕ) (value : UInt8)

namespace Section

/-- What a section is to the link: the inputs are an echo, and `pre_recover` starts a session. -/
def onLink (L : Link ℕ UInt8) (skip : ℕ) : Section → Option (Link ℕ UInt8)
  | .receive inputs => (L.read skip).filter fun M =>
      M.held.index = wordAt inputs 1 ∧ M.held.value = byteAt inputs 3
  | .preRecover => some L.restart
  | _ => some L

/-- The section takes the echo in the inputs for the argument being sent. -/
def Confirms (d : SlaveDevice) : Section → Prop
  | .process _ => d.configured = true ∧ d.masterStatus = MASTER_SENDING_ARGUMENTS ∧
      d.isArgSent = false ∧ d.argConfirmed
  | _ => False

instance (d : SlaveDevice) : DecidablePred (Confirms d)
  | .process _ => inferInstanceAs (Decidable (_ ∧ _ ∧ _ ∧ _))
  | .receive _ | .exitReset | .transfer | .command _ _ | .preRecover | .init _ _ _ | .resetState
  | .lost | .recoverState => .isFalse id

end Section

namespace SlaveDevice

/-- What the link says about the transfer of a device. -/
structure Transferring (eepId : UInt32) (d : SlaveDevice) (L : Link ℕ UInt8) : Prop where
  storage : Storage eepId d
  pos : 1 ≤ d.sendingArgBufIdx.toNat
  le : d.sendingArgBufIdx.toNat ≤ d.argBufLen.toNat
  held : d.echoedIdx ≠ 0 →
    L.held.index = d.echoedIdx.toNat ∧ L.held.value = byteAt d.s2m 2
  vouched : Vouched d.argAt L
  stored : Stored d.argAt (fun j => j < d.sendingArgBufIdx.toNat) L

def AllStored (d : SlaveDevice) (L : Link ℕ UInt8) : Prop :=
  ∀ j < d.argBufLen.toNat, L.store (j + 1) = some (byteAt d.argBuf j)

instance (d : SlaveDevice) (L : Link ℕ UInt8) : Decidable (d.AllStored L) :=
  inferInstanceAs (Decidable (∀ j < d.argBufLen.toNat, _))

section Device
variable {eepId : UInt32} {d e : SlaveDevice} {L M : Link ℕ UInt8}

theorem allStored_of_stored (h : Stored d.argAt (fun j => j ≤ d.argBufLen.toNat) L) :
    d.AllStored L := by
  intro j hj
  refine h (j + 1) _ (by omega) ?_
  unfold argAt
  rw [if_pos ⟨by omega, by omega⟩]
  rfl

theorem stored_of_confirmed (h : Transferring eepId d L) (hc : d.argConfirmed)
    (hsession : L.held.ofSession = true) :
    Stored d.argAt (fun j => j ≤ d.sendingArgBufIdx.toNat) L := by
  obtain ⟨hidx, hvalue⟩ := hc
  have hpos := h.pos
  have hne : d.echoedIdx ≠ 0 := by
    intro h0
    rw [← hidx, h0] at hpos
    exact absurd hpos (by decide)
  obtain ⟨hheld, hbyte⟩ := h.held hne
  rw [hidx] at hheld
  have harg : d.argAt L.held.index = some L.held.value := by
    unfold argAt
    rw [hheld, if_pos ⟨h.pos, h.le⟩, hbyte, hvalue]
    rfl
  have hstored := stored_held h.stored h.vouched hsession harg
  intro j w hj hw
  refine hstored j w ?_ hw
  rw [hheld]
  omega

theorem Transferring.congr (h : Transferring eepId d L) (hst : Storage eepId e)
    (hidx : e.sendingArgBufIdx = d.sendingArgBufIdx) (harg : e.argBuf = d.argBuf)
    (hlen : e.argBufLen = d.argBufLen) (hs2m : e.slaveToMasterBuf = d.slaveToMasterBuf) :
    Transferring eepId e L := by
  have hargAt : e.argAt = d.argAt := by
    funext j
    unfold argAt
    rw [harg, hlen]
  have hecho : e.echoedIdx = d.echoedIdx := by
    unfold echoedIdx
    rw [SlaveDevice.s2m, hs2m]
  refine ⟨hst, ?_, ?_, ?_, ?_, ?_⟩
  · rw [hidx]
    exact h.pos
  · rw [hidx, hlen]
    exact h.le
  · rw [hecho, SlaveDevice.s2m, hs2m]
    exact h.held
  · rw [hargAt]
    exact h.vouched
  · rw [hargAt, hidx]
    exact h.stored

theorem Transferring.next (h : Transferring eepId d L) (hc : d.argConfirmed)
    (hne : d.sendingArgBufIdx ≠ d.argBufLen) (hsession : L.held.ofSession = true) :
    Transferring eepId { d with sendingArgBufIdx := d.sendingArgBufIdx + 1 } L := by
  have hlt : d.sendingArgBufIdx.toNat < d.argBufLen.toNat := by
    refine lt_of_le_of_ne h.le fun heq => hne ?_
    exact UInt16.toNat_inj.mp heq
  have hbound := d.argBufLen.toNat_lt
  have hsucc : (d.sendingArgBufIdx + 1).toNat = d.sendingArgBufIdx.toNat + 1 := by
    rw [UInt16.toNat_add]
    show (d.sendingArgBufIdx.toNat + 1) % 2 ^ 16 = _
    omega
  refine ⟨h.storage.congr rfl rfl rfl rfl, ?_, ?_, h.held, h.vouched, fun j w hj hw => ?_⟩
  · show 1 ≤ (d.sendingArgBufIdx + 1).toNat
    omega
  · show (d.sendingArgBufIdx + 1).toNat ≤ d.argBufLen.toNat
    omega
  · have hj' : j < (d.sendingArgBufIdx + 1).toNat := hj
    exact stored_of_confirmed h hc hsession j w (by omega) hw

theorem transferring_process (h : Transferring eepId d L) (t : ℤ)
    (hown : (Section.process t).Confirms d → L.held.ofSession = true) :
    Transferring eepId (d.processSection t) L ∧
      (d.isArgSent = false → (d.processSection t).isArgSent = true →
        (d.processSection t).AllStored L) := by
  have k := kept_processSection t d
  have hstorage := h.storage.kept k
  cases hc : d.configured with
  | false =>
    rw [d.processSection_of_not_configured t hc]
    refine ⟨h, fun hf ht => ?_⟩
    rw [hf] at ht
    cases ht
  | true =>
    obtain ⟨hsent, hidx⟩ := d.processSection_args t hc
    have hsame (hidx' : d.sendArgIfPending.sendingArgBufIdx = d.sendingArgBufIdx) :
        Transferring eepId (d.processSection t) L :=
      h.congr hstorage (hidx.trans hidx') k.argBuf k.argBufLen k.slaveToMasterBuf
    have hnot (hsent' : d.sendArgIfPending.isArgSent = d.isArgSent) :
        d.isArgSent = false → (d.processSection t).isArgSent = true →
          (d.processSection t).AllStored L := by
      intro hf ht
      rw [hsent, hsent', hf] at ht
      cases ht
    obtain hs | ⟨hms, hf, ⟨hconf, hl, hs⟩ | ⟨next, hs, ⟨hconf, hne, hnext⟩ | ⟨-, hnext⟩⟩⟩ :=
      d.sendArgIfPending_cases
    · exact ⟨hsame (by rw [hs]), hnot (by rw [hs])⟩
    · refine ⟨hsame (by rw [hs]), fun _ _ => ?_⟩
      have hstored := stored_of_confirmed h hconf (hown ⟨hc, hms, hf, hconf⟩)
      rw [hl] at hstored
      have hall := allStored_of_stored hstored
      unfold AllStored at hall ⊢
      rw [k.argBuf, k.argBufLen]
      exact hall
    · subst hnext
      refine ⟨?_, hnot (by rw [hs]; rfl)⟩
      have hstep := h.next hconf hne (hown ⟨hc, hms, hf, hconf⟩)
      refine hstep.congr hstorage (hidx.trans ?_) k.argBuf k.argBufLen k.slaveToMasterBuf
      rw [hs]
      rfl
    · subst hnext
      exact ⟨hsame (by rw [hs]; rfl), hnot (by rw [hs]; rfl)⟩

theorem transferring_receive (h : Transferring eepId d L) {inputs : List UInt8} {skip : ℕ}
    (hM : (Section.receive inputs).onLink L skip = some M) :
    Transferring eepId (d.receiveFromSlave inputs) M := by
  obtain ⟨hread, hmatch⟩ := Option.filter_eq_some_iff.mp hM
  obtain ⟨hidx, hvalue⟩ := of_decide_eq_true hmatch
  refine ⟨h.storage.receive inputs, h.pos, h.le, fun hne => ?_, vouched_read h.vouched hread,
    stored_read h.stored hread⟩
  obtain ⟨hecho, hbyte⟩ := receive_held h.storage inputs hne
  exact ⟨hidx.trans hecho.symm, hvalue.trans hbyte.symm⟩

theorem transferring_preRecover (h : Transferring eepId d L) :
    Transferring eepId d.preRecover L.restart := by
  have hpos := h.pos
  have hle := h.le
  refine ⟨h.storage.congr rfl rfl rfl rfl, ?_, ?_, h.held, vouched_restart _ _,
    fun j w hj hw => ?_⟩
  · show 1 ≤ (1 : UInt16).toNat
    decide
  · show (1 : UInt16).toNat ≤ d.argBufLen.toNat
    exact le_trans (by decide) (le_trans hpos hle)
  · have hj' : j < (1 : UInt16).toNat := hj
    have hj0 : j = 0 := Nat.lt_one_iff.mp hj'
    have hnone : d.argAt 0 = none := if_neg (by omega)
    subst hj0
    rw [show d.preRecover.argAt 0 = d.argAt 0 from rfl, hnone] at hw
    cases hw

theorem transferring_init {cfg : ConfigurationParser} (h : Transferring eepId d L)
    (snRead : Option UInt32) (swRevStr : List UInt8) :
    Transferring eepId (d.init cfg eepId snRead swRevStr).2 L := by
  have hst : Storage eepId (d.init cfg eepId snRead swRevStr).2 := h.storage.init snRead swRevStr
  obtain ⟨-, -, hd⟩ | ⟨-, passed, -, hd⟩ | ⟨-, sdoLen, -, hd⟩ :=
    init_cases cfg eepId snRead swRevStr d
  · rw [hd] at hst ⊢
    exact h.congr hst rfl rfl rfl rfl
  · rw [hd] at hst ⊢
    exact h.congr hst rfl rfl rfl rfl
  · rw [hd] at hst ⊢
    by_cases h0 : d.sn = 0
    · simp only [if_pos h0] at hst ⊢
      refine ⟨hst, h.pos, h.le, fun hne => absurd ?_ hne, h.vouched, h.stored⟩
      exact initBuffers_echoedIdx h.storage
    · simp only [if_neg h0] at hst ⊢
      exact h.congr hst rfl rfl rfl rfl

theorem Transferring.run {cfg : ConfigurationParser} {s : Section} {skip : ℕ}
    (hs : Node.OnModule eepId s) (h : Transferring eepId d L) (hM : s.onLink L skip = some M)
    (hown : s.Confirms d → L.held.ofSession = true) :
    Transferring eepId (s.run cfg d) M ∧
      (d.isArgSent = false → (s.run cfg d).isArgSent = true → (s.run cfg d).AllStored M) := by
  have hst : Storage eepId (s.run cfg d) := h.storage.run hs
  have hsame (hsent : (s.run cfg d).isArgSent = d.isArgSent) :
      d.isArgSent = false → (s.run cfg d).isArgSent = true → (s.run cfg d).AllStored M := by
    intro hf ht
    rw [hsent, hf] at ht
    cases ht
  cases s with
  | receive inputs => exact ⟨transferring_receive h hM, hsame rfl⟩
  | process t =>
    obtain rfl : L = M := Option.some.inj hM
    exact transferring_process h t hown
  | preRecover =>
    obtain rfl : L.restart = M := Option.some.inj hM
    refine ⟨transferring_preRecover h, fun _ ht => ?_⟩
    cases ht
  | init eep snRead swRevStr =>
    obtain rfl : eep = eepId := hs
    obtain rfl : L = M := Option.some.inj hM
    exact ⟨transferring_init h snRead swRevStr,
      hsame (init_kept cfg eep snRead swRevStr d).isArgSent⟩
  | exitReset =>
    obtain rfl : L = M := Option.some.inj hM
    obtain ⟨bytes, hd, -⟩ := exitReset_eq cfg d
    rw [hd] at hst hsame ⊢
    exact ⟨h.congr hst rfl rfl rfl rfl, hsame rfl⟩
  | command task msg =>
    obtain rfl : L = M := Option.some.inj hM
    obtain ⟨bytes, hd, -⟩ := command_eq cfg task msg d
    rw [hd] at hst hsame ⊢
    exact ⟨h.congr hst rfl rfl rfl rfl, hsame rfl⟩
  | transfer | resetState | lost | recoverState =>
    obtain rfl : L = M := Option.some.inj hM
    exact ⟨h.congr hst rfl rfl rfl rfl, hsame rfl⟩

end Device
end SlaveDevice

namespace Linked
variable {n : ℕ}

/-! ## Runs of the node and the slave -/

section Runs
variable (cfg : ConfigurationParser) (i : Fin n)

/-- The frame on the wire after an event: `ec_send_processdata` sends what lies at the outputs. -/
def wireAfter (S : Linked n) : Event n → Option (List UInt8)
  | .dataSend => some (S.node.slots i).ec.outputs
  | _ => S.wire

/-- One step of the node, or the slave sees the frame on the wire. -/
def linkStep (S : Linked n) : LinkEvent n → Option (Linked n)
  | .node e skip =>
      (S.node.step cfg e).bind fun N =>
        ((S.node.sectionOf e i).elim (some S.link) (Section.onLink S.link skip)).map fun L =>
          ⟨N, L, S.wireAfter i e⟩
  | .see index value => S.wire.map fun frame =>
      if byteAt frame 0 = MASTER_SENDING_ARGUMENTS then
        { S with link := S.link.see (wordAt frame 1) (byteAt frame 3) }
      else { S with link := S.link.feedback index value }

/-- The step at which `is_arg_sent_` becomes true finds all arguments at the slave. -/
def SentIsStored (S : Linked n) (_ : LinkEvent n) (S' : Linked n) : Prop :=
  (S.node.slots i).dev.isArgSent = false → (S'.node.slots i).dev.isArgSent = true →
    (S'.node.slots i).dev.AllStored S'.link

instance (S : Linked n) (e : LinkEvent n) (S' : Linked n) : Decidable (SentIsStored i S e S') :=
  inferInstanceAs (Decidable (_ → _ → _))

/-- An echo that confirms an argument is of the session, and a frame the slave sees with status
SENDING_ARGUMENTS does not overwrite an argument it has stored right. -/
def EchoesOwn (S : Linked n) (e : LinkEvent n) (_ : Linked n) : Prop :=
  match e with
  | .node e _ => ∀ s ∈ S.node.sectionOf e i,
      s.Confirms (S.node.slots i).dev → S.link.held.ofSession = true
  | .see _ _ => ∀ frame ∈ S.wire, byteAt frame 0 = MASTER_SENDING_ARGUMENTS →
      Spares (S.node.slots i).dev.argAt S.link (wordAt frame 1) (byteAt frame 3)

instance (S : Linked n) : (e : LinkEvent n) → (S' : Linked n) → Decidable (EchoesOwn i S e S')
  | .node _ _, _ => Option.decidableForallMem _
  | .see _ _, _ => Option.decidableForallMem _

/-- The setup of slave `i` is over, with any arguments: no echo is of the first session yet. -/
structure Initial (S : Linked n) : Prop where
  fresh : (S.node.slots i).dev.Fresh cfg (S.node.slots i).ec.eepId
  argBufLen : (S.node.slots i).dev.argBufLen ≠ 0
  areas : ∀ e ∈ S.link.areas, e.ofSession = false
  held : S.link.held.ofSession = false

end Runs

variable {cfg : ConfigurationParser} {i : Fin n}

theorem Initial.transferring {S : Linked n} (h : Initial cfg i S) :
    (S.node.slots i).dev.Transferring (S.node.slots i).ec.eepId S.link := by
  have hf := h.fresh
  have hpos : 1 ≤ (S.node.slots i).dev.argBufLen.toNat := by
    have hne : (S.node.slots i).dev.argBufLen.toNat ≠ 0 :=
      fun h0 => h.argBufLen (UInt16.toNat_inj.mp h0)
    omega
  have hzero : (S.node.slots i).dev.echoedIdx = 0 := by
    unfold SlaveDevice.echoedIdx
    rw [SlaveDevice.s2m, hf.s2m, SlaveDevice.byteAt_zeros, SlaveDevice.byteAt_zeros]
    decide
  refine ⟨hf.storage, ?_, ?_, fun hne => absurd hzero hne, fun e he hsession => ?_,
    fun j w hj hw => ?_⟩
  · rw [hf.sendingArgBufIdx]
    decide
  · rw [hf.sendingArgBufIdx]
    exact hpos
  · have hstale : e.ofSession = false := by
      obtain rfl | he := he
      · exact h.held
      · exact h.areas e he
    rw [hstale] at hsession
    cases hsession
  · rw [hf.sendingArgBufIdx] at hj
    obtain rfl : j = 0 := Nat.lt_one_iff.mp hj
    have hnone : (S.node.slots i).dev.argAt 0 = none := if_neg (by omega)
    rw [hnone] at hw
    cases hw

theorem sentIsStored_of_same {S S' : Linked n} {e : LinkEvent n}
    (h : (S'.node.slots i).dev = (S.node.slots i).dev) : SentIsStored i S e S' := by
  intro hf ht
  rw [h, hf] at ht
  cases ht

/-- What holds between slave `i` and its link along a run from `S`. -/
def LinkInv (i : Fin n) (S S' : Linked n) : Prop :=
  (S'.node.slots i).dev.Transferring (S.node.slots i).ec.eepId S'.link ∧
    (S'.node.slots i).ec.eepId = (S.node.slots i).ec.eepId

theorem linkInv_node {S S₁ S₂ : Linked n} {e : Event n} {skip : ℕ} (h : LinkInv i S S₁)
    (hstep : linkStep cfg i S₁ (.node e skip) = some S₂)
    (hown : EchoesOwn i S₁ (.node e skip) S₂) :
    SentIsStored i S₁ (.node e skip) S₂ ∧ LinkInv i S S₂ := by
  obtain ⟨htrans, heep⟩ := h
  obtain ⟨N, hN, hstep⟩ := Option.bind_eq_some_iff.mp hstep
  obtain ⟨L, hL, rfl⟩ := Option.map_eq_some_iff.mp hstep
  obtain ⟨hdev, heep'⟩ := Node.step_dev hN i
  cases hs : S₁.node.sectionOf e i with
  | none =>
    rw [hs] at hdev hL
    obtain rfl : S₁.link = L := Option.some.inj hL
    refine ⟨sentIsStored_of_same hdev, ?_, heep'.trans heep⟩
    have hdev' : (N.slots i).dev = (S₁.node.slots i).dev := hdev
    rw [hdev']
    exact htrans
  | some s =>
    rw [hs] at hdev hL
    have hdev' : (N.slots i).dev = s.run cfg (S₁.node.slots i).dev := hdev
    have hmod : Node.OnModule (S.node.slots i).ec.eepId s := heep ▸ Node.sectionOf_onModule hs
    obtain ⟨hrun, hall⟩ := htrans.run hmod hL (hown s hs)
    refine ⟨fun hf ht => ?_, ?_, heep'.trans heep⟩
    · have ht' : (N.slots i).dev.isArgSent = true := ht
      show (N.slots i).dev.AllStored L
      rw [hdev'] at ht' ⊢
      exact hall hf ht'
    · rw [hdev']
      exact hrun

theorem linkInv_see {S S₁ S₂ : Linked n} {index : ℕ} {value : UInt8} (h : LinkInv i S S₁)
    (hstep : linkStep cfg i S₁ (.see index value) = some S₂)
    (hown : EchoesOwn i S₁ (.see index value) S₂) :
    SentIsStored i S₁ (.see index value) S₂ ∧ LinkInv i S S₂ := by
  obtain ⟨htrans, heep⟩ := h
  obtain ⟨frame, hframe, rfl⟩ := Option.map_eq_some_iff.mp hstep
  have hspares := hown frame hframe
  split
  · next hms =>
    refine ⟨sentIsStored_of_same rfl, ?_, heep⟩
    exact ⟨htrans.storage, htrans.pos, htrans.le, htrans.held,
      vouched_see htrans.vouched (hspares hms), stored_see htrans.stored (hspares hms)⟩
  · refine ⟨sentIsStored_of_same rfl, ?_, heep⟩
    exact ⟨htrans.storage, htrans.pos, htrans.le, htrans.held,
      vouched_feedback htrans.vouched index value, htrans.stored⟩

/-- **The argument transfer.** In every run in which each confirming echo is of the session and no
frame overwrites an argument the slave has, the slave has stored all arguments of the session when
`is_arg_sent_` becomes true. -/
theorem sentIsStored {S : Linked n} (h : Initial cfg i S) {es : List (LinkEvent n)}
    (hc : Along (linkStep cfg i) (EchoesOwn i) S es) :
    Along (linkStep cfg i) (SentIsStored i) S es := by
  refine along_of_invariant (LinkInv i S) ?_ ⟨h.transferring, rfl⟩ hc
  intro S₁ e S₂ hinv hstep hown
  cases e with
  | node e skip => exact linkInv_node hinv hstep hown
  | see index value => exact linkInv_see hinv hstep hown

/-! ## The DSHOT board on a link -/

/-- The board has just been set up; the echo area still holds zeros. -/
def dshotLinked : Linked 1 where
  node := Node.dshotNode
  link := ⟨fun _ => none, [⟨0, 0, false⟩], ⟨0, 0, false⟩⟩
  wire := none

theorem dshotLinked_initial : Initial SlaveDevice.dshotConfig 0 dshotLinked where
  fresh := SlaveDevice.dshotDevice_configured.fresh
  argBufLen := by decide
  areas e he := by
    obtain rfl := List.mem_singleton.mp he
    rfl
  held := rfl

def onNode (es : List (Event 1)) : List (LinkEvent 1) := es.map fun e => .node e 0

/-- A turn of the data cycle that reads the echo after `skip` others, with `commands` between the
processing and the transfer, and the slave sees the frame. -/
def linkTurn (status : UInt8) (echo : List UInt8) (skip : ℕ) (commands : List (Event 1)) :
    List (LinkEvent 1) :=
  onNode [.dataReceiveProcessdata 3 fun _ => status :: echo] ++ [.node .dataReceive skip] ++
    onNode ([.dataReceive, .dataProcess 0, .dataProcess 0, .dataExitCheck] ++ commands ++
      [.dataTransfer, .dataTransfer, .dataSend]) ++ [.see 0 0]

/-- All six arguments are confirmed. -/
def wholeTransfer : List (LinkEvent 1) :=
  onNode [.dataStart] ++ linkTurn 1 [0, 0, 0] 0 [] ++ linkTurn 1 [1, 0, 1] 1 [] ++
    linkTurn 1 [2, 0, 4] 1 [] ++ linkTurn 1 [3, 0, 1] 1 [] ++ linkTurn 1 [4, 0, 1] 1 [] ++
    linkTurn 1 [5, 0, 48] 1 [] ++ linkTurn 2 [6, 0, 0] 1 []

theorem sentIsStored_dshot :
    Along (linkStep SlaveDevice.dshotConfig 0) (SentIsStored 0) dshotLinked wholeTransfer :=
  sentIsStored dshotLinked_initial (by decide +kernel)

/-- A command of throttles 1 and 99 goes out with status 2 after the third argument: the slave takes
it for argument 1. -/
def commandInTransfer : List (LinkEvent 1) :=
  onNode [.dataStart] ++ linkTurn 1 [0, 0, 0] 0 [] ++ linkTurn 1 [1, 0, 1] 1 [] ++
    linkTurn 1 [2, 0, 4] 1 [Node.dshotCommand 1 99 0 0] ++ linkTurn 1 [1, 0, 99] 1 [] ++
    linkTurn 1 [3, 0, 1] 1 [] ++ linkTurn 1 [4, 0, 1] 1 [] ++ linkTurn 1 [5, 0, 48] 1 [] ++
    linkTurn 2 [6, 0, 0] 1 []

/-- The board restarts after it has echoed argument 1, and the echo is still in the inputs when its
arguments are sent again. -/
def restartInTransfer : List (LinkEvent 1) :=
  onNode [.dataStart] ++ linkTurn 1 [0, 0, 0] 0 [] ++
    [.node (.dataReceiveProcessdata 0 fun _ => [1, 1, 0, 1]) 0, .node .dataReceive 1] ++
    onNode ([.checkPass fun _ => EC_STATE_SAFE_OP, .checkVisit 0,
      .checkOpRequest EC_STATE_OPERATIONAL, .checkFound false, .checkVisit 0, .dataReceive,
      .dataProcess 0, .dataProcess 0, .dataExitCheck, .dataTransfer, .dataTransfer, .dataSend]) ++
    [.see 0 0] ++ linkTurn 1 [2, 0, 4] 1 [] ++ linkTurn 1 [3, 0, 1] 1 [] ++
    linkTurn 1 [4, 0, 1] 1 [] ++ linkTurn 1 [5, 0, 48] 1 [] ++ linkTurn 2 [6, 0, 0] 1 []

/-- After the command the slave's argument 1 is 99; after the restart it has none. -/
theorem sentIsStored_fails : Node.Initial SlaveDevice.dshotConfig dshotLinked.node ∧
    Initial SlaveDevice.dshotConfig 0 dshotLinked ∧
    ¬ Along (linkStep SlaveDevice.dshotConfig 0) (SentIsStored 0) dshotLinked commandInTransfer ∧
    ¬ Along (linkStep SlaveDevice.dshotConfig 0) (SentIsStored 0) dshotLinked restartInTransfer :=
  ⟨Node.dshotNode_initial, dshotLinked_initial, by decide +kernel, by decide +kernel⟩

end Linked
end EcatMaster
