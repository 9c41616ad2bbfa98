import Iotc.Web.Receive

/-!
# The HTTPS client

`iotconnectHttpsRequest` is `iotconnect_https_request` of `azrtos_https_client.c`. The
web client it creates on its stack is the value `NxWebHttpClient` handed to the custom
handler. TLS set-up runs inside the connect call and shows only in its status.
-/

namespace Iotc.Web

open Iotc.C Iotc.Resume

/-- The part of `NX_WEB_HTTP_CLIENT` the clients set themselves. -/
structure NxWebHttpClient where
  responseCallback : Option HeaderCallback := none

variable {B : Build}

/-! ## NetX calls -/

def nxWebHttpClientCreate (c : IotConnectAzrtosConfig) : M B UINT :=
  .call (Op.nxWebHttpClientCreate c.ipPtr c.poolPtr)

def nxDnsHostByNameGet (c : IotConnectAzrtosConfig) (host : CStr) : M B UINT :=
  .call (Op.nxDnsHostByNameGet c.dnsPtr host)

def nxWebHttpClientSecureConnect : M B UINT := .call Op.nxWebHttpClientSecureConnect

def nxWebHttpClientDelete : M B UINT := .call Op.nxWebHttpClientDelete

def nxWebHttpClientRequestInitialize (m : Method) (r : IotConnectHttpRequest) (inputSize : Nat) :
    M B UINT :=
  .call (Op.nxWebHttpClientRequestInitialize m r.resource r.hostName inputSize)

def nxWebHttpClientRequestHeaderAdd (name value : String) : M B UINT :=
  .call (Op.nxWebHttpClientRequestHeaderAdd name value)

def nxWebHttpClientRequestSend : M B UINT := .call Op.nxWebHttpClientRequestSend

def nxWebHttpClientRequestPacketAllocate : M B (Option Nat) :=
  .call Op.nxWebHttpClientRequestPacketAllocate

def nxPacketDataAppend (ptr : Nat) (payload : CStr) : M B UINT :=
  .call (Op.nxPacketDataAppend ptr payload)

def nxWebHttpClientRequestPacketSend (ptr : Nat) : M B UINT :=
  .call (Op.nxWebHttpClientRequestPacketSend ptr)

def nxWebHttpClientResponseBodyGet (m : Method) : M B Delivery :=
  .call (Op.nxWebHttpClientResponseBodyGet m)

def nxPacketRelease (ptr : Nat) : M B Unit := .call (Op.nxPacketRelease ptr)

def releaseAll : List Nat → M B Unit
  | [] => pure ()
  | p :: ps => do
    nxPacketRelease p
    releaseAll ps

/-- The packet `receive_packet` designates after the loop, if any. -/
def releaseHeld : Option Nat → M B Unit
  | none => pure ()
  | some p => nxPacketRelease p

/-- Copy bytes into the response buffer. -/
def writeResponse (off : Nat) (xs : List UInt8) : M B Unit := do
  let s ← .get
  let some buffer := s.responseBuffer.write? off xs | .stop .fault
  .modify fun s => { s with responseBuffer := buffer }

/-! ## The request -/

/-- The request line and headers, up to sending them. -/
def sendRequest (r : IotConnectHttpRequest) : M B UINT := do
  match r.payload with
  | some payload =>
    let status ← nxWebHttpClientRequestInitialize .post r payload.length
    if status ≠ nxSuccess then
      return status
    let status ← nxWebHttpClientRequestHeaderAdd "Content-Type" "application/json"
    if status ≠ nxSuccess then
      return status
    nxWebHttpClientRequestSend
  | none =>
    let status ← nxWebHttpClientRequestInitialize .get r 0
    if status ≠ nxSuccess then
      return status
    nxWebHttpClientRequestSend

def sendPacket (ptr : Nat) (payload : CStr) : M B UINT := do
  let status ← nxPacketDataAppend ptr payload
  if status ≠ nxSuccess then
    return status
  nxWebHttpClientRequestPacketSend ptr

/-- The body of a POST, in one packet. -/
def sendPayload (payload : Option CStr) : M B UINT := do
  let some payload := payload | return nxSuccess
  -- the status of the allocation is not kept, and a packet pointer that was never set
  -- is dereferenced
  let some ptr ← nxWebHttpClientRequestPacketAllocate | .stop .fault
  sendPacket ptr payload

/-- Bytes left for the next packet: one is kept for the terminator. -/
def responseRoom (B : Build) (dataLength : SizeT) : SizeT :=
  B.iotconnectHttpReceiveBufferSize - dataLength - 1

def responseFull (B : Build) (bytesReceived : UInt32) (dataLength : SizeT) : Bool :=
  B.iotconnectHttpReceiveBufferSize - dataLength ≤ bytesReceived

theorem responseCapped (B : Build) : Capped (responseRoom B) (responseFull B)
    (B.iotconnectHttpReceiveBufferSize.toNat - 1) B.iotconnectHttpReceiveBufferSize.toNat := by
  have hpos := UInt32.lt_iff_toNat_lt.mp B.http_pos
  have hlt := B.iotconnectHttpReceiveBufferSize.toNat_lt
  refine ⟨by omega, by omega, fun dl hdl => ?_, fun dl got hdl hgot => ?_⟩
  · simp only [responseRoom, UInt32.toNat_sub, UInt32.reduceToNat] at *; omega
  · simp only [responseFull, UInt32.le_iff_toNat_le, UInt32.toNat_sub, decide_eq_false_iff_not,
      UInt32.reduceToNat] at *
    omega

/-- The receive loop into the response buffer, the terminator, the last release. -/
def receiveResponse (m : Method) : M B Unit := do
  let d ← nxWebHttpClientResponseBodyGet m
  let s ← .get
  match receive (responseRoom B) (responseFull B) d.last s.responseBuffer 0 [] d.packets with
  | .error e => .stop e
  | .ok rcv =>
    releaseAll rcv.released
    .modify fun s => { s with responseBuffer := rcv.buffer }
    writeResponse rcv.dataLength.toNat [0]
    releaseHeld rcv.receivePacket

/-- The exchange without a custom handler. -/
def plainExchange (r : IotConnectHttpRequest) : M B UINT := do
  if r.resource.isNone then
    -- this return leaves the web client undeleted
    return nxInvalidParameters
  let status ← sendRequest r
  if status ≠ nxSuccess then
    let _ ← nxWebHttpClientDelete
    return status
  let status ← sendPayload r.payload
  if status ≠ nxSuccess then
    let _ ← nxWebHttpClientDelete
    return status
  receiveResponse (if r.payload.isSome then .post else .get)
  -- every outcome of the receive loop ends here, and the status of the delete is dropped
  let _ ← nxWebHttpClientDelete
  return nxSuccess

/-- Create the web client, connect it, and hand it on. -/
def connectExchange (r : IotConnectHttpRequest) (config : IotConnectAzrtosConfig) (host : CStr)
    (customHandlerCb : Option (IotConnectHttpRequest → NxWebHttpClient → M B UINT)) :
    M B UINT := do
  let status ← nxWebHttpClientCreate config
  if status ≠ nxSuccess then
    return status
  let status ← nxDnsHostByNameGet config host
  if status ≠ nxSuccess then
    let _ ← nxWebHttpClientDelete
    return status
  let status ← nxWebHttpClientSecureConnect
  if status ≠ nxSuccess then
    let _ ← nxWebHttpClientDelete
    return status
  match customHandlerCb with
  | some handler =>
    let status ← handler r {}
    let _ ← nxWebHttpClientDelete
    return status
  | none => plainExchange r

def iotconnectHttpsRequest (r : Option IotConnectHttpRequest)
    (customHandlerCb : Option (IotConnectHttpRequest → NxWebHttpClient → M B UINT)) :
    M B UINT := do
  let some r := r | return nxInvalidParameters
  let some config := r.azrtosConfig | return nxInvalidParameters
  let some host := r.hostName | return nxInvalidParameters
  if r.tlsCert.isNone ∨ r.tlsCertLen = 0 then
    return nxInvalidParameters
  writeResponse 0 [0]
  connectExchange r config host customHandlerCb

end Iotc.Web
