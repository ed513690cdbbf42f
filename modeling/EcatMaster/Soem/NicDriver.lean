import EcatMaster.Lib.RoundRobin
import EcatMaster.Lib.Run
import EcatMaster.Soem.Datagram

/-! # The NIC driver: frames and the threads that wait for them

Every request takes an index, and with it a transmit and a receive buffer; the frame carries the index, and
whoever reads the socket puts the frame in the buffer of that index. `Link` is the port with the threads
that use it and the frames that are under way; the threads take turns as they like, also between the
check of the own buffer and the lock of the socket.
-/

namespace EcatMaster.Soem
set_option autoImplicit false
open ByteBuf

def EC_OTHERFRAME : ℤ := -2

/-- `ec_bufstate` -/
inductive BufState
  | EMPTY | ALLOC | TX | RCVD | COMPLETE
deriving Repr, DecidableEq

/-- `ecx_portt`, without redundancy -/
structure Port where
  rxbuf : ℕ → List UInt8
  rxbufstat : ℕ → BufState
  tempinbuf : List UInt8
  txbuf : ℕ → List UInt8
  txbuflength : ℕ → ℕ
  lastidx : ℕ

namespace Port
variable (port : Port) (idx : ℕ)

/-- `ecx_setupnic` -/
def setupnic (txbuf : ℕ → List UInt8) : Port where
  rxbuf := fun _ => List.replicate EC_BUFSIZE 0
  rxbufstat := fun _ => .EMPTY
  tempinbuf := List.replicate EC_BUFSIZE 0
  txbuf := txbuf
  txbuflength := fun _ => 0
  lastidx := 0

/-- `ecx_setbufstat` -/
def setbufstat (bufstat : BufState) : Port :=
  { port with rxbufstat := Function.update port.rxbufstat idx bufstat }

/-- `ecx_getindex` -/
def getindex : ℕ × Port :=
  let idx := RoundRobin.search EC_MAXBUF (fun i => port.rxbufstat i = .EMPTY) EC_MAXBUF
    (RoundRobin.next EC_MAXBUF port.lastidx)
  (idx, { port.setbufstat idx .ALLOC with lastidx := idx })

/-- `ecx_outframe`, with the result of `send` -/
def outframe (sent : Bool) : Port := port.setbufstat idx (if sent then .TX else .EMPTY)

/-- A working counter in a buffer, behind `l` bytes. -/
def wkcAt (buf : List UInt8) (l : ℕ) : ℤ := (byteAt buf l).toNat + (byteAt buf (l + 1)).toNat * 2 ^ 8

/-- `elength` -/
def lengthAt (buf : List UInt8) (offset : ℕ) : ℕ :=
  (byteAt buf offset).toNat + (byteAt buf (offset + 1) &&& 0x0f).toNat * 2 ^ 8

/-- `ecx_inframe`, where the requested index is already in its buffer -/
def inframeReceived : ℤ × Port :=
  (wkcAt (port.rxbuf idx) (lengthAt (port.rxbuf idx) 0), port.setbufstat idx .COMPLETE)

/-- The frame in the temporary buffer, without the Ethernet header, in the buffer of index `i`. -/
def store (i : ℕ) : Port :=
  let datagram := window port.tempinbuf ETH_HEADERSIZE (port.txbuflength i - ETH_HEADERSIZE)
  { port with rxbuf := Function.update port.rxbuf i (put (port.rxbuf i) 0 datagram) }

/-- `ecx_recvpkt` and what `ecx_inframe` does with its result, under the mutex -/
def inframeSocket (packet : Option (List UInt8)) : ℤ × Port :=
  match packet with
  | none => (EC_NOFRAME, port)
  | some packet =>
    let port := { port with tempinbuf := put port.tempinbuf 0 packet }
    if byteAt port.tempinbuf 12 = 0x88 ∧ byteAt port.tempinbuf 13 = 0xa4 then
      let idxf := (byteAt port.tempinbuf (ETH_HEADERSIZE + 3)).toNat
      if idxf = idx then
        let port := port.store idx
        (wkcAt (port.rxbuf idx) (lengthAt port.tempinbuf ETH_HEADERSIZE), port.setbufstat idx .COMPLETE)
      else if idxf < EC_MAXBUF ∧ port.rxbufstat idxf = .TX then
        (EC_OTHERFRAME, (port.store idxf).setbufstat idxf .RCVD)
      else (EC_OTHERFRAME, port)
    else (EC_OTHERFRAME, port)

end Port

theorem byteAt_of_window {a b : List UInt8} {o o' len j : ℕ} (h : window a o len = window b o' len)
    (hj : j < len) : byteAt a (o + j) = byteAt b (o' + j) := by
  have hget := congrArg (·[j]?) h
  simp only [window_getElem?, if_pos hj] at hget
  rw [byteAt, byteAt, List.getD_eq_getElem?_getD, List.getD_eq_getElem?_getD, hget]

/-- What becomes of a packet with index `i`. -/
theorem inframeSocket_eq (port : Port) (idx : ℕ) {packet : List UInt8} {i : ℕ}
    (h88 : byteAt (put port.tempinbuf 0 packet) 12 = 0x88)
    (ha4 : byteAt (put port.tempinbuf 0 packet) 13 = 0xa4)
    (hi : (byteAt (put port.tempinbuf 0 packet) (ETH_HEADERSIZE + 3)).toNat = i) :
    port.inframeSocket idx (some packet) =
      let port := { port with tempinbuf := put port.tempinbuf 0 packet }
      if i = idx then
        (Port.wkcAt ((port.store idx).rxbuf idx) (Port.lengthAt port.tempinbuf ETH_HEADERSIZE),
          (port.store idx).setbufstat idx .COMPLETE)
      else if i < EC_MAXBUF ∧ port.rxbufstat i = .TX then
        (EC_OTHERFRAME, (port.store i).setbufstat i .RCVD)
      else (EC_OTHERFRAME, port) := by
  unfold Port.inframeSocket
  simp only [h88, ha4, hi, and_self, if_true]
  rfl

/-- What is stored of a packet is what is behind its Ethernet header. -/
theorem Port.store_window {port : Port} {i : ℕ} {packet : List UInt8}
    (hb : (port.rxbuf i).length = EC_BUFSIZE) (htemp : port.tempinbuf.length = EC_BUFSIZE)
    (hlen : packet.length ≤ EC_BUFSIZE) (hi : port.txbuflength i = packet.length) :
    window ((Port.store { port with tempinbuf := put port.tempinbuf 0 packet } i).rxbuf i) 0
        (packet.length - ETH_HEADERSIZE) =
      window packet ETH_HEADERSIZE (packet.length - ETH_HEADERSIZE) := by
  have hcopy : window (put port.tempinbuf 0 packet) ETH_HEADERSIZE (packet.length - ETH_HEADERSIZE) =
      window packet ETH_HEADERSIZE (packet.length - ETH_HEADERSIZE) := by
    refine window_congr _ _ _ _ fun j h₁ h₂ => ?_
    have hj := put_getElem?_inside port.tempinbuf 0 packet j (by omega) (by omega)
    rwa [Nat.zero_add] at hj
  have hsize : (window packet ETH_HEADERSIZE (packet.length - ETH_HEADERSIZE)).length =
      packet.length - ETH_HEADERSIZE := by
    rw [window, List.length_take, List.length_drop, Nat.min_self]
  unfold Port.store
  dsimp only
  rw [Function.update_self, hi, hcopy]
  have hself := window_put_self (port.rxbuf i) 0
    (window packet ETH_HEADERSIZE (packet.length - ETH_HEADERSIZE)) (by rw [hb, hsize]; omega)
  rwa [hsize] at hself

theorem byteAt_tempinbuf {tempinbuf packet : List UInt8} {j : ℕ} (htemp : tempinbuf.length = EC_BUFSIZE)
    (hlen : packet.length ≤ EC_BUFSIZE) (hj : j < packet.length) :
    byteAt (put tempinbuf 0 packet) j = byteAt packet j := by
  have hput := put_getElem?_inside tempinbuf 0 packet j hj (by omega)
  rw [Nat.zero_add] at hput
  rw [byteAt, byteAt, List.getD_eq_getElem?_getD, List.getD_eq_getElem?_getD, hput]

/-- The length of the first datagram, in the temporary buffer and where the packet is stored. -/
theorem Port.store_lengthAt {port : Port} {i : ℕ} {packet : List UInt8}
    (hb : (port.rxbuf i).length = EC_BUFSIZE) (htemp : port.tempinbuf.length = EC_BUFSIZE)
    (hmin : ETH_HEADERSIZE + 2 ≤ packet.length) (hlen : packet.length ≤ EC_BUFSIZE)
    (hi : port.txbuflength i = packet.length) :
    Port.lengthAt (put port.tempinbuf 0 packet) ETH_HEADERSIZE =
      Port.lengthAt ((Port.store { port with tempinbuf := put port.tempinbuf 0 packet } i).rxbuf i) 0 := by
  have hwindow := Port.store_window hb htemp hlen hi
  have hsame : ∀ j, j < 2 → byteAt (put port.tempinbuf 0 packet) (ETH_HEADERSIZE + j) =
      byteAt ((Port.store { port with tempinbuf := put port.tempinbuf 0 packet } i).rxbuf i) (0 + j) := by
    intro j hj
    exact (byteAt_tempinbuf htemp hlen (by omega)).trans (byteAt_of_window hwindow (by omega)).symm
  unfold Port.lengthAt
  rw [hsame 1 (by omega), ← Nat.add_zero ETH_HEADERSIZE, hsame 0 (by omega)]

/-- What a thread does with an index; `tag` is the number of the request. -/
inductive Pc
  | idle
  | allocated (idx tag : ℕ)
  | waiting (idx tag : ℕ)
  /-- in `ecx_inframe`, and the frame was not in its buffer -/
  | checked (idx tag : ℕ)
  | done (idx tag : ℕ) (wkc : ℤ)
deriving Repr, DecidableEq

/-- A reply in a receive buffer: the request, the frame that was sent, and the frame that came back. -/
structure Reply where
  tag : ℕ
  frame : List UInt8
  packet : List UInt8

/-- `wire` are the frames under way with their requests, `count` is the number of requests so far, and
`reply` is where the contents of the receive buffers come from. -/
structure Link where
  port : Port
  pc : ℕ → Pc
  wire : List (ℕ × List UInt8)
  count : ℕ
  reply : ℕ → Option Reply

namespace Link

/-- A step of thread `c`, or a frame that is lost. -/
inductive Event
  | getindex (c : ℕ)
  /-- `ecx_setupdatagram` and `ecx_adddatagram`, all of them -/
  | setup (c : ℕ) (frame : List UInt8)
  | outframe (c : ℕ) (sent : Bool)
  | lose (k : ℕ)
  | inframe (c : ℕ)
  /-- the socket has the `k`-th frame, which comes back as `packet` -/
  | socket (c k : ℕ) (packet : List UInt8)
  | silence (c : ℕ)
  | release (c : ℕ)

/-- A frame with an index. -/
def Framed (idx : ℕ) (frame : List UInt8) : Prop :=
  ETH_HEADERSIZE + 12 + 2 ≤ frame.length ∧ frame.length ≤ EC_BUFSIZE ∧ byteAt frame 12 = 0x88 ∧
    byteAt frame 13 = 0xa4 ∧ (byteAt frame (ETH_HEADERSIZE + 3)).toNat = idx

instance (idx : ℕ) (frame : List UInt8) : Decidable (Framed idx frame) :=
  inferInstanceAs (Decidable (_ ∧ _))

def setPc (s : Link) (c : ℕ) (pc : Pc) : Link := { s with pc := Function.update s.pc c pc }

/-- What `ecx_inframe` has returned to thread `c`. -/
def returned (s : Link) (c idx tag : ℕ) (wkc : ℤ) : Link :=
  s.setPc c (if EC_NOFRAME < wkc then .done idx tag wkc else .waiting idx tag)

/-- The reply that a packet is put in a buffer for: the waiting index, or one that somebody else waits for. -/
def replies (s : Link) (idx : ℕ) (reply : Reply) : ℕ → Option Reply :=
  let idxf := (byteAt reply.packet (ETH_HEADERSIZE + 3)).toNat
  if idxf = idx ∨ idxf < EC_MAXBUF ∧ s.port.rxbufstat idxf = .TX then
    Function.update s.reply idxf (some reply)
  else s.reply

/-- `n` threads -/
def step (n : ℕ) (s : Link) : Event → Option Link
  | .getindex c =>
    if c < n ∧ s.pc c = .idle then
      let (idx, port) := s.port.getindex
      some { s with
        port := port
        pc := Function.update s.pc c (.allocated idx (s.count + 1))
        count := s.count + 1 }
    else none
  | .setup c frame =>
    match s.pc c with
    | .allocated idx _ =>
      if Framed idx frame then
        some { s with port := { s.port with
          txbuf := Function.update s.port.txbuf idx frame
          txbuflength := Function.update s.port.txbuflength idx frame.length } }
      else none
    | _ => none
  | .outframe c sent =>
    match s.pc c with
    | .allocated idx tag | .waiting idx tag =>
      if Framed idx (s.port.txbuf idx) ∧ s.port.txbuflength idx = (s.port.txbuf idx).length then
        some { s with
          port := s.port.outframe idx sent
          pc := Function.update s.pc c (.waiting idx tag)
          wire := if sent then s.wire ++ [(tag, s.port.txbuf idx)] else s.wire }
      else none
    | _ => none
  | .lose k => some { s with wire := s.wire.eraseIdx k }
  | .inframe c =>
    match s.pc c with
    | .waiting idx tag =>
      if idx < EC_MAXBUF ∧ s.port.rxbufstat idx = .RCVD then
        let (wkc, port) := s.port.inframeReceived idx
        some ({ s with port := port }.returned c idx tag wkc)
      else some (s.setPc c (.checked idx tag))
    | _ => none
  | .socket c k packet =>
    match s.wire[k]? with
    | none => none
    | some (sentTag, frame) =>
      match s.pc c with
      | .checked idx tag =>
        let (wkc, port) := s.port.inframeSocket idx (some packet)
        some ({ s with
          port := port
          wire := s.wire.eraseIdx k
          reply := s.replies idx ⟨sentTag, frame, packet⟩ }.returned c idx tag wkc)
      | _ => none
  | .silence c =>
    match s.pc c with
    | .checked idx tag =>
      let (wkc, port) := s.port.inframeSocket idx none
      some ({ s with port := port }.returned c idx tag wkc)
    | _ => none
  | .release c =>
    match s.pc c with
    | .idle | .checked _ _ => none
    | .allocated idx _ | .waiting idx _ | .done idx _ _ =>
      some { s with port := s.port.setbufstat idx .EMPTY, pc := Function.update s.pc c .idle }

def initial (txbuf : ℕ → List UInt8) : Link := ⟨.setupnic txbuf, fun _ => .idle, [], 0, fun _ => none⟩

end Link
end EcatMaster.Soem
