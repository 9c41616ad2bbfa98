import Iotc.Http.Chunked
import Iotc.Http.Header

/-!
# Receiving a response

`getServerResponse` collects packets until the blank line behind the header has come, and
`responseBodyGet` hands out the body, packet by packet, from the first call on.
-/

namespace Iotc.Http

open Iotc.C Iotc.Web

/-! ## The header -/

/-- How much of a blank line was found, one byte further on; four is all of it. -/
def crlfStep (crlfFound : Nat) (b : UInt8) : Nat :=
  if crlfFound % 2 = 0 ∧ b = 13 then crlfFound + 1
  else if crlfFound % 2 = 1 ∧ b = 10 then crlfFound + 1
  else 0

/-- What was found of the blank line at the end of these bytes, `none` when all of it was. -/
def scanBlank (crlfFound : Nat) : List UInt8 → Option Nat
  | [] => some crlfFound
  | b :: rest =>
    if crlfStep crlfFound b = 4 then none else scanBlank (crlfStep crlfFound b) rest

/-- The contents of a received packet are placed in the head packet, one packet of its chain after
the other. -/
def appendPackets (P : Pool) (head : Chain) : List NxPacket → M Chain
  | [] => return head
  | p :: ps => do
    let head ← nxPacketDataAppend P head p.data
    appendPackets P head ps

/-- `unread` are the bytes of the head packet that were not looked at yet. -/
def headerLoop (P : Pool) : Nat → Nat → Chain → List UInt8 → M Chain
  | 0, _, _, _ => throw .fuel
  | fuel + 1, crlfFound, head, unread =>
    match scanBlank crlfFound unread with
    | none => return head
    | some crlfFound => do
      match ← attempt receive with
      | .error status => do
        nxPacketRelease head
        returns status
      | .ok new => do
        match ← attempt (appendPackets P head new.packets) with
        | .error status => do
          nxPacketRelease head
          nxPacketRelease new
          returns status
        | .ok head => do
          nxPacketRelease new
          headerLoop P fuel crlfFound head new.bytes

def getServerResponse (P : Pool) : M Chain := do
  let head ← receive
  let s ← get
  headerLoop P (s.incoming.length + 1) 0 head head.bytes

/-! ## The body -/

/-- `client_ptr -> nx_web_http_client_state = NX_WEB_HTTP_CLIENT_STATE_READY`. -/
def enterReady : M Unit := modify fun s => { s with state := .ready }

/-- The body behind the header is what is left of the packet. -/
def enterBody (c : Chain) (length offset : Nat) (s : St) : St :=
  let c : Chain := ⟨{ c.head with data := c.head.data.drop offset }, c.next⟩
  let s : St := { s with
    responseHeaderReceived := true
    totalReceiveBytes := if s.state = .head then 0 else length
    actualBytesReceived := 0
    packetPptr := some c
    packetLength := c.length }
  if s.responseChunked then
    { s with responsePacket := some c, chunkedResponseRemainingSize := c.length }
  else s

/-- The header of a response of some length; the status the call goes on with. -/
def processResponse (c : Chain) : M UINT := do
  match statusOf c.head.data with
  | none => return nxWebHttpRequestUnsuccessfulCode
  | some code => do
    if c.head.data.getD 9 0 ≠ 0x32 then
      return code
    let length := contentLengthGet c
    let offset ← processHeaderFields c
    let s ← get
    if offset = 0 ∨ c.length < offset ∨
        (u32 (offset + length) < c.length ∧ s.responseChunked = false) then
      return nxWebHttpBadPacketLength
    modify (enterBody c length offset)
    return nxSuccess

/-- A call that got no packet: nothing is given back but the status. -/
def noPacket (status : UINT) (leave : M Unit) : M (Except UINT UINT) := do
  if status ≠ nxNoPacket then
    leave
    errorExit
    enterReady
  return .error status

/-- The first call for a body: `Except.error` is a status returned at once. -/
def firstPacket (P : Pool) : M (Except UINT UINT) := do
  match ← attempt (getServerResponse P) with
  | .error status => noPacket status (pure ())
  | .ok c => do
    modify fun s => { s with packetPptr := some c }
    -- too little for a status line; the packet is not released
    if c.head.data.length < 12 then
      noPacket nxWebHttpError (pure ())
    else
      let status ← processResponse c
      return .ok status

/-- A later call, when the body has a length. -/
def nextPacket : M (Except UINT UINT) := do
  match ← attempt receive with
  | .error status => noPacket status (modify fun s => { s with responseHeaderReceived := false })
  | .ok c => do
    let s ← get
    set { s with packetPptr := some c, packetLength := c.length }
    if u32 (s.totalReceiveBytes + 4294967296 - s.actualBytesReceived) < c.length then
      return .ok nxWebHttpBadPacketLength
    return .ok nxSuccess

/-- The packet of a body that has a length. -/
def countPacket : M UINT := do
  let s ← get
  let actual := u32 (s.actualBytesReceived + s.packetLength)
  set { s with actualBytesReceived := actual }
  return if s.totalReceiveBytes = actual then nxWebHttpGetDone else nxSuccess

/-- `nx_packet_release` of a pointer that may be NULL. -/
def releasePtr (P : Pool) : Option Chain → M Unit
  | some c => nxPacketRelease c
  | none => if P.errorChecking then return () else fault

/-- The packet of a call that failed. -/
def dropPacket (status : UINT) : M Unit := do
  let s ← get
  if status ≠ nxWebHttpGetDone then
    match s.packetPptr with
    | some c => nxPacketRelease c
    | none => return ()

/-- The chunk info is reset. -/
def resetChunks (P : Pool) (status : UINT) : M Unit := do
  let s ← get
  if s.responseChunked then
    if status ≠ nxWebHttpGetDone then
      releasePtr P s.responsePacket
    modify fun s => { s with
      responsePacket := none
      chunkedResponseRemainingSize := 0
      responseChunked := false }

def leaveBody (status : UINT) : M Unit := do
  modify fun s => { s with responseHeaderReceived := false }
  let s ← get
  if status ≠ nxWebHttpGetDone ∨ s.keepAlive = false then
    errorExit
  enterReady

/-- What is done on every status but success. -/
def endResponse (P : Pool) (status : UINT) : M Unit := do
  dropPacket status
  resetChunks P status
  leaveBody status

/-- The packet at hand is processed and becomes the caller's. -/
def takeBody (P : Pool) : M (Except UINT UINT) := do
  let s ← get
  if s.responseChunked then
    match ← attempt (responseChunkedGet P) with
    | .error status =>
      if status = nxNoPacket then
        return .error status
      modify fun s => { s with returned := s.packetPptr }
      return .ok status
    | .ok status =>
      modify fun s => { s with returned := s.packetPptr }
      return .ok status
  else
    let status ← countPacket
    modify fun s => { s with returned := s.packetPptr }
    return .ok status

/-- What is done with the packet, if there is one; a status given back at once stays. -/
def finishCall (P : Pool) : Except UINT UINT → M UINT
  | .error status => return status
  | .ok status => do
    let last ← if status = nxSuccess then takeBody P else pure (.ok status)
    match last with
    | .error status => return status
    | .ok status => do
      if status ≠ nxSuccess then
        endResponse P status
      return status

def responseBodyGet (P : Pool) : M UINT := do
  let s ← get
  if s.state = .ready then
    return nxWebHttpError
  set { s with returned := none, packetPptr := none }
  let first ←
    if s.responseHeaderReceived = false then firstPacket P
    else if s.responseChunked = false then nextPacket
    else pure (.ok nxSuccess)
  finishCall P first

end Iotc.Http
