import EcatMaster.Soem.Coe

/-! # A slave's SDO server

What a slave does with the SDO requests in its mailbox: objects by index, subindex and kind of access, a
transfer that is under way, and the response that waits in the mailbox. Responses fill the mailbox.
-/

namespace EcatMaster.Soem
set_option autoImplicit false
open ByteBuf

/-- A transfer that is under way, with the toggle bit of the next segment. -/
inductive Transfer
  | idle
  | download (index : UInt16) (subindex : UInt8) (CA : Bool) (size : ℕ) (received : List UInt8) (toggle : ℕ)
  | upload (rest : List UInt8) (toggle : ℕ)

structure SdoServer where
  objects : UInt16 → UInt8 → Bool → List UInt8
  transfer : Transfer
  mailbox : Option Sdo
  /-- the size of the mailbox for responses -/
  mbx_rl : ℕ

namespace SdoServer
variable (s : SdoServer)

def store (index : UInt16) (subindex : UInt8) (CA : Bool) (data : List UInt8) : SdoServer :=
  { s with
    objects := fun i j c => if i = index ∧ j = subindex ∧ c = CA then data else s.objects i j c
    transfer := .idle }

/-- A response with a command and what follows it, `length` bytes in the mailbox. -/
def respond (length Command : ℕ) (body : List UInt8) : SdoServer :=
  { s with mailbox := some ⟨length, ECT_MBXT_COE, ECT_COES_SDORES <<< 12, Command, body⟩ }

/-- Wrong toggle bit, or no transfer. -/
def abort : SdoServer :=
  { s with transfer := .idle }.respond 0x0a ECT_SDO_ABORT (le16 0 ++ [0] ++ le32 0x05030000)

/-- Initiate download: expedited with at most 4 bytes, or the size and the first bytes. -/
def downloadInit (req : Sdo) : SdoServer :=
  let CA : Bool := 0 < req.Command &&& 0x10
  let s :=
    if 0 < req.Command &&& 0x02 then
      s.store req.Index req.SubIndex CA (window req.body 3 (4 - ((req.Command >>> 2) &&& 0x03)))
    else
      let data := window req.body 7 (req.length - 10)
      if req.ldata0.toNat ≤ data.length then
        s.store req.Index req.SubIndex CA (data.take req.ldata0.toNat)
      else
        { s with transfer := .download req.Index req.SubIndex CA req.ldata0.toNat data 0x00 }
  s.respond 0x0a 0x60 (le16 req.Index ++ [req.SubIndex] ++ le32 0)

/-- Download segment: with 7 bytes in the request, the command says how many of them are not used. -/
def downloadSegment (req : Sdo) : SdoServer :=
  match s.transfer with
  | .download index subindex CA size received toggle =>
    if req.Command &&& 0x10 = toggle then
      let data := received ++ window req.body 0
        (if req.length = 10 then 7 - ((req.Command >>> 1) &&& 0x07) else req.length - 3)
      let s :=
        if 0 < req.Command &&& 0x01 then
          if data.length = size then s.store index subindex CA data else { s with transfer := .idle }
        else { s with transfer := .download index subindex CA size data (toggle ^^^ 0x10) }
      s.respond 0x0a (0x20 + toggle) []
    else s.abort
  | _ => s.abort

/-- Initiate upload: 1 to 4 bytes of a single object in the response, or the size and the first bytes. -/
def uploadInit (req : Sdo) : SdoServer :=
  let CA : Bool := 0 < req.Command &&& 0x10
  let data := s.objects req.Index req.SubIndex CA
  if CA = false ∧ 0 < data.length ∧ data.length ≤ 4 then
    { s with transfer := .idle }.respond 0x0a (0x43 ||| ((4 - data.length) <<< 2))
      (le16 req.Index ++ [req.SubIndex] ++ data)
  else
    let first := data.take (s.mbx_rl - 0x10)
    { s with
      transfer := if first.length < data.length then .upload (data.drop first.length) 0x00 else .idle
      }.respond (10 + first.length) (if CA then 0x51 else 0x41)
      (le16 req.Index ++ [req.SubIndex] ++ le32 (UInt32.ofNat data.length) ++ first)

/-- Upload segment: what is left, or as much as the mailbox holds. -/
def uploadSegment (req : Sdo) : SdoServer :=
  match s.transfer with
  | .upload rest toggle =>
    if req.Command &&& 0x10 = toggle then
      if rest.length ≤ s.mbx_rl - 9 then
        { s with transfer := .idle }.respond (3 + max 7 rest.length)
          (0x01 + ((7 - rest.length) <<< 1) + toggle) rest
      else
        { s with transfer := .upload (rest.drop (s.mbx_rl - 9)) (toggle ^^^ 0x10) }.respond
          (3 + (s.mbx_rl - 9)) toggle (rest.take (s.mbx_rl - 9))
    else s.abort
  | _ => s.abort

def serve (req : Sdo) : SdoServer :=
  if req.mbxtype &&& 0x0f = ECT_MBXT_COE ∧ req.CANOpen >>> 12 = ECT_COES_SDOREQ then
    match req.Command >>> 5 with
    | 0 => s.downloadSegment req
    | 1 => s.downloadInit req
    | 2 => s.uploadInit req
    | 3 => s.uploadSegment req
    | _ => { s with transfer := .idle }
  else s

/-- The mailbox of the server: a request is served at once, and a response is read once. -/
def mailboxOf : Mailbox SdoServer where
  send := fun req s => (1, s.serve req)
  receive := fun _ s =>
    match s.mailbox with
    | some a => ((1, a), { s with mailbox := none })
    | none => ((0, .clear), s)

end SdoServer
end EcatMaster.Soem
