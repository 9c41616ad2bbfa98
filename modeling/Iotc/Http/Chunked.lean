import Iotc.Http.Basic

/-!
# Chunked responses

`responseRead` reads the next byte, wherever it lies: further on in the packet, in the next packet
of the chain or in one still to be received. `chunkedSizeGet` reads the head of a chunk, and
`responseChunkedGet` hands out the packet with what has come of the chunk.
-/

namespace Iotc.Http

open Iotc.C Iotc.Web

def cr : UInt8 := 13

def lf : UInt8 := 10

def crlf : List UInt8 := [13, 10]

/-- The packet read to its end is released. -/
def dropResponse (s : St) : St :=
  match s.responsePacket with
  | none => s
  | some c => { s with released := s.released ++ c.ptrs, responsePacket := none }

/-- One more packet is received into `nx_web_http_client_response_packet`. -/
def takePacket (s : St) (c : Chain) : St :=
  { s with
    responsePacket := some c
    current := some c
    chunkedResponseRemainingSize := c.length }

def refill (s : St) : List (Except Failure Received) → EStateM.Result Exit St Unit
  | [] => .error (.status nxNoPacket) { dropResponse s with incoming := [] }
  | .error e :: rest => .error (.status e.status) { dropResponse s with incoming := rest }
  | .ok p :: rest =>
    if p.chain.length = 0 then refill (takePacket (dropResponse s) p.chain) rest
    else .ok () { takePacket (dropResponse s) p.chain with incoming := rest }

/-- The loop both functions have: while nothing is left of the packet, receive another one. -/
def receiveMore : M Unit := fun s =>
  if s.chunkedResponseRemainingSize = 0 then refill s s.incoming else .ok () s

/-- The byte at the data pointer, which then moves on. -/
def readByte (c : Chain) : M UInt8 := do
  match c.head.data with
  | [] => fault
  | b :: data =>
    modify fun s => { s with
      current := some ⟨{ c.head with data }, c.next⟩
      chunkedResponseRemainingSize := s.chunkedResponseRemainingSize - 1 }
    return b

/-- On to the packet linked behind, the processed one being released. -/
def stepChain (rp : Option Chain) (p : NxPacket) (ps : List NxPacket) (s : St) : St :=
  match rp with
  | none => { s with current := some ⟨p, ps⟩ }
  | some rp => { s with
      current := some ⟨p, ps⟩
      released := s.released ++ [rp.head.ptr]
      responsePacket := some ⟨p, ps⟩ }

def responseRead : M UInt8 := do
  receiveMore
  let s ← get
  let some c := s.current | returns nxInvalidPacket
  if c.head.data = [] then
    match c.next with
    | [] => returns nxInvalidPacket
    | p :: ps => do
      modify (stepChain s.responsePacket p ps)
      readByte ⟨p, ps⟩
  else
    readByte c

def responseByteExpect (data : UInt8) : M Unit := do
  let tmp ← responseRead
  if tmp ≠ data then
    returns nxNotFound

/-- The digits of a chunk size, in the order the code tests for them. -/
def sizeDigit (tmp : UInt8) : Option Nat :=
  if 0x61 ≤ tmp ∧ tmp ≤ 0x66 then some (10 + (tmp.toNat - 0x61))
  else if 0x41 ≤ tmp ∧ tmp ≤ 0x46 then some (10 + (tmp.toNat - 0x41))
  else if 0x30 ≤ tmp ∧ tmp ≤ 0x39 then some (tmp.toNat - 0x30)
  else none

/-- The loop over the chunk header, up to its carriage return; each turn reads a byte. -/
def sizeLoop : Nat → Nat → Bool → M Nat
  | 0, _, _ => throw .fuel
  | fuel + 1, size, chunkExtension => do
    let tmp ← responseRead
    if chunkExtension ∧ tmp ≠ cr then
      sizeLoop fuel size chunkExtension
    else
      match sizeDigit tmp with
      | some d => sizeLoop fuel (u32 (16 * size + d)) chunkExtension
      | none =>
        if tmp = cr then return size
        else if tmp = 0x3B then sizeLoop fuel size true
        else returns nxNotFound

/-- The bytes that can still be read. -/
def incomingBytes : List (Except Failure Received) → List UInt8
  | .ok p :: rest => p.chain.bytes ++ incomingBytes rest
  | _ => []

def chunkedSizeGet : M Nat := do
  let s ← get
  let chunkSize ←
    if s.actualBytesReceived < s.totalReceiveBytes then
      pure (s.totalReceiveBytes - s.actualBytesReceived)
    else do
      let turns := s.chunkedResponseRemainingSize + (incomingBytes s.incoming).length + 1
      let size ← sizeLoop turns 0 false
      responseByteExpect lf
      pure size
  receiveMore
  return chunkSize

/-- Past `n` bytes, over the ends of packets. -/
def skip (n : Nat) (p : NxPacket) : List NxPacket → Option Chain
  | [] => if n ≤ p.data.length then some ⟨{ p with data := p.data.drop n }, []⟩ else none
  | q :: qs =>
    if n ≤ p.data.length then some ⟨{ p with data := p.data.drop n }, q :: qs⟩
    else skip (n - p.data.length) q qs

/-- The chain ends with the packet that holds the byte `length`; the others are put aside. -/
def trim (length : Nat) (p : NxPacket) : List NxPacket → Option (Chain × List NxPacket)
  | [] => if length ≤ p.data.length then some (⟨{ p with data := p.data.take length }, []⟩, [])
    else none
  | q :: qs =>
    if p.data.length < length then
      (trim (length - p.data.length) q qs).map fun r => (⟨p, r.1.packets⟩, r.2)
    else some (⟨{ p with data := p.data.take length }, []⟩, q :: qs)

/-- What stands behind the chunk is kept for the next call. -/
def keepRest (P : Pool) : M Unit := do
  let s ← get
  if s.chunkedResponseRemainingSize = 0 then
    return ()
  let some c := s.current | fault
  match s.responsePacket with
  | some rp =>
    modify fun s => { s with responsePacket := some ⟨{ rp.head with data := c.head.data }, rp.next⟩ }
  | none => do
    let ptr ← nxPacketAllocate P
    modify fun s => { s with responsePacket := some ⟨⟨ptr, [], P.payload⟩, []⟩ }
    let copy ← nxPacketDataAppend P ⟨⟨ptr, [], P.payload⟩, []⟩ c.head.data
    modify fun s => { s with responsePacket := some copy }
    if c.head.data.length < s.chunkedResponseRemainingSize then
      if c.next = [] then
        returns nxInvalidPacket
      let some out := s.packetPptr | fault
      modify fun s => { s with
        responsePacket := some ⟨copy.head, c.next⟩
        packetPptr := some ⟨out.head, out.next.take (out.next.length - c.next.length)⟩ }

/-- The packet returned holds `length` bytes of a chunk of `chunkSize`. -/
def finishChunk (chunkSize length : Nat) : M UINT := do
  modify fun s => { s with totalReceiveBytes := chunkSize, actualBytesReceived := length }
  let s ← get
  let some out := s.packetPptr | fault
  let some (out, behind) := trim length out.head out.next | fault
  modify fun s => { s with
    released := s.released ++ behind.map (·.ptr)
    packetPptr := some out
    packetLength := length }
  return nxSuccess

/-- The last chunk. The packet that goes with it counts as empty; packets may be linked behind it
still. -/
def lastChunk : M UINT := do
  responseByteExpect cr
  responseByteExpect lf
  let s ← get
  let some rp := s.responsePacket | fault
  set { s with
    responsePacket := some ⟨{ rp.head with data := [] }, rp.next⟩
    packetPptr := some ⟨{ rp.head with data := [] }, rp.next⟩
    packetLength := 0 }
  return nxWebHttpGetDone

/-- The data of a chunk of `chunkSize` bytes, as much as there is of it in the packet, with the
line end behind it when it is all there. -/
def chunkData (P : Pool) (chunkSize : Nat) : M UINT := do
  let s ← get
  set { s with packetPptr := s.responsePacket, responsePacket := none }
  let some rp := s.responsePacket | returns nxInvalidPacket
  let some c := s.current | fault
  modify fun s => { s with packetPptr := some ⟨{ rp.head with data := c.head.data }, rp.next⟩ }
  if chunkSize ≤ s.chunkedResponseRemainingSize then
    let some c := skip chunkSize c.head c.next | returns nxInvalidPacket
    modify fun t => { t with
      current := some c
      chunkedResponseRemainingSize := s.chunkedResponseRemainingSize - chunkSize }
    responseByteExpect cr
    responseByteExpect lf
    keepRest P
    finishChunk chunkSize chunkSize
  else
    modify fun t => { t with chunkedResponseRemainingSize := 0 }
    finishChunk chunkSize s.chunkedResponseRemainingSize

def responseChunkedGet (P : Pool) : M UINT := do
  modify fun s => { s with current := s.responsePacket }
  let chunkSize ← chunkedSizeGet
  if chunkSize = 0 then lastChunk else chunkData P chunkSize

end Iotc.Http
