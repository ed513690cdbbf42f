import EcatMaster.Node.Sections

/-! # The process buffers

`init` clears both buffers after it has resized them, so `size()` is 0 from then on while the declared
lengths are those of the module. What the other methods rely on is the memory: it holds as many bytes
as declared in every state (`Storage`), and every `memcpy` of the declared length stays inside it.
-/

namespace EcatMaster
set_option autoImplicit false
open ByteBuf EventRun

/-- The 16-bit index in two bytes of a frame or of the inputs. -/
def wordAt (bytes : List UInt8) (j : ℕ) : ℕ :=
  ((byteAt bytes (j + 1)).toUInt16 <<< 8 ||| (byteAt bytes j).toUInt16).toNat

namespace SlaveDevice

/-- The sizes are the declared lengths and these are at least 3. -/
def SizesDeclared (d : SlaveDevice) : Prop :=
  d.masterToSlaveBuf.size = d.masterToSlaveBufLen ∧
    d.slaveToMasterBuf.size = d.slaveToMasterBufLen ∧
    3 ≤ d.masterToSlaveBufLen ∧ 3 ≤ d.slaveToMasterBufLen

instance (d : SlaveDevice) : Decidable d.SizesDeclared :=
  inferInstanceAs (Decidable (_ ∧ _ ∧ _ ∧ _))

/-- What the buffers of a configured device are. -/
structure Storage (eepId : UInt32) (d : SlaveDevice) : Prop where
  m2sLen : d.masterToSlaveBufLen = (registeredModule eepId).masterToSlaveBufLen
  m2s : d.m2s.length = d.masterToSlaveBufLen
  m2sSize : d.masterToSlaveBuf.size = 0
  s2mLen : d.slaveToMasterBufLen = (registeredModule eepId).slaveToMasterBufLen
  s2m : d.s2m.length = d.slaveToMasterBufLen
  s2mSize : d.slaveToMasterBuf.size = 0

theorem Fresh.storage {cfg : ConfigurationParser} {eepId : UInt32} {d : SlaveDevice}
    (h : Fresh cfg eepId d) : Storage eepId d where
  m2sLen := h.m2sLen
  m2s := by rw [SlaveDevice.m2s, h.m2s, List.length_replicate]
  m2sSize := by rw [h.m2s]
  s2mLen := h.s2mLen
  s2m := by rw [SlaveDevice.s2m, h.s2m, List.length_replicate]
  s2mSize := by rw [h.s2m]

theorem Storage.congr {eepId : UInt32} {d e : SlaveDevice} (h : Storage eepId d)
    (hm : e.masterToSlaveBuf = d.masterToSlaveBuf)
    (hml : e.masterToSlaveBufLen = d.masterToSlaveBufLen)
    (hs : e.slaveToMasterBuf = d.slaveToMasterBuf)
    (hsl : e.slaveToMasterBufLen = d.slaveToMasterBufLen) : Storage eepId e where
  m2sLen := hml.trans h.m2sLen
  m2s := by rw [SlaveDevice.m2s, hm, hml, h.m2s]
  m2sSize := by rw [hm, h.m2sSize]
  s2mLen := hsl.trans h.s2mLen
  s2m := by rw [SlaveDevice.s2m, hs, hsl, h.s2m]
  s2mSize := by rw [hs, h.s2mSize]

theorem Storage.kept {eepId : UInt32} {d e : SlaveDevice} (h : Storage eepId d) (k : Kept d e) :
    Storage eepId e where
  m2sLen := k.len.trans h.m2sLen
  m2s := by rw [k.m2sLength, k.len, h.m2s]
  m2sSize := k.size.trans h.m2sSize
  s2mLen := k.slaveToMasterBufLen.trans h.s2mLen
  s2m := by rw [SlaveDevice.s2m, k.slaveToMasterBuf, k.slaveToMasterBufLen, h.s2m]
  s2mSize := by rw [k.slaveToMasterBuf, h.s2mSize]

theorem Storage.withM2s {eepId : UInt32} {d : SlaveDevice} (h : Storage eepId d)
    (bytes : List UInt8) (hlen : bytes.length = d.m2s.length) : Storage eepId (d.withM2s bytes) :=
  h.kept (kept_withM2s d bytes hlen)

theorem Storage.receive {eepId : UInt32} {d : SlaveDevice} (h : Storage eepId d)
    (inputs : List UInt8) : Storage eepId (d.receiveFromSlave inputs) where
  m2sLen := h.m2sLen
  m2s := h.m2s
  m2sSize := h.m2sSize
  s2mLen := h.s2mLen
  s2m := by
    show (put d.s2m 0 _).length = d.slaveToMasterBufLen
    rw [put_length, h.s2m]
  s2mSize := h.s2mSize

/-! A device that still has no serial number makes its first buffers again: they hold zeros. -/

theorem Storage.initBuffers_m2s {eepId : UInt32} {d : SlaveDevice} (h : Storage eepId d) :
    (d.initBuffers eepId).m2s = List.replicate d.masterToSlaveBufLen 0 := by
  have hle : d.masterToSlaveBuf.data.length ≤ (registeredModule eepId).masterToSlaveBufLen :=
    (h.m2s.trans h.m2sLen).le
  rw [h.m2sLen]
  exact Growable.resize_clear_data 0 d.masterToSlaveBuf _ hle

theorem Storage.initBuffers_s2m {eepId : UInt32} {d : SlaveDevice} (h : Storage eepId d) :
    (d.initBuffers eepId).s2m = List.replicate d.slaveToMasterBufLen 0 := by
  have hle : d.slaveToMasterBuf.data.length ≤ (registeredModule eepId).slaveToMasterBufLen :=
    (h.s2m.trans h.s2mLen).le
  rw [h.s2mLen]
  exact Growable.resize_clear_data 0 d.slaveToMasterBuf _ hle

theorem Storage.initBuffers {eepId : UInt32} {d : SlaveDevice} (h : Storage eepId d) :
    Storage eepId (d.initBuffers eepId) where
  m2sLen := rfl
  m2s := by
    rw [h.initBuffers_m2s, List.length_replicate]
    exact h.m2sLen
  m2sSize := rfl
  s2mLen := rfl
  s2m := by
    rw [h.initBuffers_s2m, List.length_replicate]
    exact h.s2mLen
  s2mSize := rfl

theorem Storage.init {cfg : ConfigurationParser} {eepId : UInt32} {d : SlaveDevice}
    (h : Storage eepId d) (snRead : Option UInt32) (swRevStr : List UInt8) :
    Storage eepId (d.init cfg eepId snRead swRevStr).2 := by
  obtain ⟨-, -, hd⟩ | ⟨-, passed, -, hd⟩ | ⟨-, sdoLen, -, hd⟩ :=
    init_cases cfg eepId snRead swRevStr d
  · rw [hd]
    exact h.congr rfl rfl rfl rfl
  · rw [hd]
    exact h.congr rfl rfl rfl rfl
  · rw [hd]
    by_cases h0 : d.sn = 0
    · simp only [if_pos h0]
      exact h.initBuffers.congr rfl rfl rfl rfl
    · simp only [if_neg h0]
      exact h.congr rfl rfl rfl rfl

/-- **The memory of the buffers is the declared length in every state.** -/
theorem Storage.run {cfg : ConfigurationParser} {eepId : UInt32} {d : SlaveDevice} {s : Section}
    (hs : Node.OnModule eepId s) (h : Storage eepId d) : Storage eepId (s.run cfg d) := by
  cases s with
  | receive inputs => exact h.receive inputs
  | process t => exact h.kept (kept_processSection t d)
  | exitReset =>
    obtain ⟨bytes, hd, hlen⟩ := exitReset_eq cfg d
    rw [hd]
    exact h.withM2s bytes hlen
  | transfer => exact h
  | command task msg =>
    obtain ⟨bytes, hd, hlen⟩ := command_eq cfg task msg d
    rw [hd]
    exact h.withM2s bytes hlen
  | preRecover | resetState | recoverState => exact h.congr rfl rfl rfl rfl
  | init eep snRead swRevStr =>
    obtain rfl : eep = eepId := hs
    exact h.init snRead swRevStr
  | lost =>
    have hlost := h.withM2s (lostPayload d.taskList d.m2s) (lostPayload_length _ _)
    exact hlost.congr rfl rfl rfl rfl

theorem Storage.not_sizesDeclared {eepId : UInt32} {d : SlaveDevice} (h : Storage eepId d) :
    ¬ d.SizesDeclared := by
  rintro ⟨hsize, -, hthree, -⟩
  rw [h.m2sSize] at hsize
  omega

/-! ## The first input bytes -/

/-- The first bytes after `receive_from_slave`: those of the inputs, or no buffer at all. -/
theorem receive_held {eepId : UInt32} {d : SlaveDevice} (h : Storage eepId d) (inputs : List UInt8) :
    (d.receiveFromSlave inputs).echoedIdx ≠ 0 →
      (d.receiveFromSlave inputs).echoedIdx.toNat = wordAt inputs 1 ∧
        byteAt (d.receiveFromSlave inputs).s2m 2 = byteAt inputs 3 := by
  have hbuf : (d.receiveFromSlave inputs).s2m =
      (List.range d.slaveToMasterBufLen).map fun j => byteAt inputs (j + 1) := by
    refine put_full _ _ ?_
    rw [List.length_map, List.length_range]
    exact h.s2m.symm
  have hbyte (j : ℕ) (hj : j < d.slaveToMasterBufLen) :
      byteAt (d.receiveFromSlave inputs).s2m j = byteAt inputs (j + 1) := by
    rw [hbuf]
    unfold byteAt
    rw [List.getD_eq_getElem?_getD, List.getElem?_map, List.getElem?_range hj]
    rfl
  have hlen : d.slaveToMasterBufLen = 0 ∨ 3 ≤ d.slaveToMasterBufLen := by
    rw [h.s2mLen]
    unfold registeredModule
    split
    · exact Or.inr (by decide)
    split
    · exact Or.inr (by decide)
    · exact Or.inl rfl
  intro hne
  obtain h0 | h3 := hlen
  · refine absurd ?_ hne
    unfold echoedIdx
    rw [hbuf, h0, List.range_zero, List.map_nil]
    decide
  · refine ⟨?_, hbyte 2 (by omega)⟩
    unfold echoedIdx wordAt
    rw [hbyte 0 (by omega), hbyte 1 (by omega)]

theorem byteAt_zeros (len j : ℕ) : byteAt (List.replicate len 0) j = 0 := by
  unfold byteAt
  rw [List.getD_eq_getElem?_getD, List.getElem?_replicate]
  split <;> rfl

theorem initBuffers_echoedIdx {eepId : UInt32} {d : SlaveDevice} (h : Storage eepId d) :
    (d.initBuffers eepId).echoedIdx = 0 := by
  unfold echoedIdx
  rw [h.initBuffers_s2m, byteAt_zeros, byteAt_zeros]
  decide

end SlaveDevice

namespace Node
variable {n : ℕ} {cfg : ConfigurationParser}

theorem storage_of_exec {N N' : Node n} (h : Initial cfg N) {es : List (Event n)}
    (hrun : exec (step cfg) N es = some N') (i : Fin n) :
    SlaveDevice.Storage (N'.slots i).ec.eepId (N'.slots i).dev := by
  refine exec_invariant (fun M : Node n => SlaveDevice.Storage (M.slots i).ec.eepId (M.slots i).dev)
    ?_ (h.configured i).fresh.storage hrun
  intro M e M' hM hstep
  obtain ⟨hdev, heep⟩ := step_dev hstep i
  rw [hdev, heep]
  cases hs : sectionOf M e i with
  | none => exact hM
  | some s => exact hM.run (sectionOf_onModule hs)

/-- **The sizes of the process buffers.** In no state after the setup are the sizes of the two
buffers the declared lengths and these at least 3. -/
theorem sizes_never_declared {N N' : Node n} (h : Initial cfg N) {es : List (Event n)}
    (hrun : exec (step cfg) N es = some N') (i : Fin n) :
    ¬ (N'.slots i).dev.SizesDeclared :=
  (storage_of_exec h hrun i).not_sizesDeclared

/-- The board becomes ready, gets a command, is lost and is configured again. -/
theorem sizes_never_declared_dshot :
    ∃ N', exec (step SlaveDevice.dshotConfig) dshotNode (startUp ++ throttle ++ loss ++ reconfiguration) =
        some N' ∧ ¬ (N'.slots 0).dev.SizesDeclared := by
  have hruns : (exec (step SlaveDevice.dshotConfig) dshotNode
      (startUp ++ throttle ++ loss ++ reconfiguration)).isSome = true := by decide +kernel
  obtain ⟨N', hrun⟩ := Option.isSome_iff_exists.mp hruns
  exact ⟨N', hrun, sizes_never_declared dshotNode_initial hrun 0⟩

/-- Right after the setup of a registered module: 80 bytes declared, size 0. -/
theorem dshot_sizes : SlaveDevice.Configured SlaveDevice.dshotConfig 3 SlaveDevice.dshotDevice ∧
    ¬ SlaveDevice.dshotDevice.SizesDeclared :=
  ⟨SlaveDevice.dshotDevice_configured, by decide⟩

end Node
end EcatMaster
