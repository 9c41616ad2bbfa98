import Iotc.Http.Chunked

/-!
# Requests

A request is put together in `nx_web_http_client_request_packet_ptr` and sent, its body follows in
packets of its own. `nx_packet_data_append` may fail; most of its callers drop the status.
-/

namespace Iotc.Http

open Iotc.C Iotc.Web

def nxWebHttpMaxName : Nat := 20

def nxWebHttpMaxPassword : Nat := 20

/-- `(NX_WEB_HTTP_MAX_NAME + NX_WEB_HTTP_MAX_PASSWORD + 1) * 4 / 3 + 1` -/
def nxWebHttpMaxString : Nat := (nxWebHttpMaxName + nxWebHttpMaxPassword + 1) * 4 / 3 + 1

/-! ## Numbers and texts -/

/-- The digits of a number in front of `string`, as far as ten places go. -/
def numberDigits : Nat → Nat → List UInt8 → List UInt8 × Nat
  | 0, number, string => (string, number)
  | places + 1, number, string =>
    if number = 0 then (string, 0)
    else numberDigits places (number / 10) (.ofNat (number % 10 + 0x30) :: string)

/-- The digits, of which there are none when they do not fit. -/
def numberConvert (number : UINT) : List UInt8 :=
  match numberDigits 10 number.toNat [] with
  | (string, 0) => string
  | _ => []

def base64Array : List UInt8 :=
  cstr "ABCDEFGHIJKLMNOPQRSTUVWXYZabcdefghijklmnopqrstuvwxyz0123456789+/"

/-- `length` characters from `step` on; `name` ends with a terminator. A `char` is unsigned. -/
def base64Chars : Nat → Nat → List UInt8 → List UInt8
  | 0, _, _ => []
  | length + 1, step, name =>
    let this := (name.getD 0 0).toNat
    let next := (name.getD 1 0).toNat
    match step with
    | 0 => base64Array.getD (this >>> 2) 0 :: base64Chars length 1 name
    | 1 => base64Array.getD (((this &&& 0x3) <<< 4) ||| (next >>> 4)) 0 ::
        base64Chars length 2 name.tail
    | 2 => base64Array.getD (((this &&& 0xF) <<< 2) ||| (next >>> 6)) 0 ::
        base64Chars length 3 name.tail
    | _ => base64Array.getD (this &&& 0x3F) 0 :: base64Chars length 0 name.tail

/-- Up to `NX_WEB_HTTP_MAX_STRING` characters there is padding. -/
def base64Encode (name : List UInt8) (length : Nat) : List UInt8 :=
  let whole := u32 (length * 8) / 6
  let odd := u32 (whole * 6) % 24
  let chars := base64Chars (if odd = 0 then whole else whole + 1) 0 (name ++ [0])
  let pad := if odd = 0 then 0 else (24 - odd) / 6 - 1
  chars ++ List.replicate (min pad (nxWebHttpMaxString - chars.length)) 0x3D

/-! ## The request packet -/

/-- `nx_packet_data_append` to the request packet. -/
def appendRequest (P : Pool) (xs : List UInt8) : M Unit := do
  let s ← get
  let some c := s.requestPacketPtr | fault
  let c ← nxPacketDataAppend P c xs
  modify fun s => { s with requestPacketPtr := some c }

/-- The status is dropped. -/
def place (P : Pool) (xs : List UInt8) : M Unit := do
  let _ ← attempt (appendRequest P xs)

def releaseRequest : M Unit := do
  let s ← get
  match s.requestPacketPtr with
  | some c => do
    nxPacketRelease c
    modify fun s => { s with requestPacketPtr := none }
  | none => return ()

def requestPacketAllocate (P : Pool) : M Chain := do
  let ptr ← nxPacketAllocate P
  return ⟨⟨ptr, [], P.payload⟩, []⟩

def methodText : HttpMethod → Option (List UInt8)
  | .get => some (cstr "GET ")
  | .put => some (cstr "PUT ")
  | .post => some (cstr "POST ")
  | .delete => some (cstr "DELETE ")
  | .head => some (cstr "HEAD ")
  | .none => none

/-- A resource with a scheme of its own is sent as it is. -/
def hasScheme (resource : CStr) : Bool :=
  let at' (i : Nat) (lower upper : UInt8) : Bool :=
    resource.getD i 0 == lower || resource.getD i 0 == upper
  at' 0 0x68 0x48 && at' 1 0x74 0x54 && at' 2 0x74 0x54 && at' 3 0x70 0x50 &&
    (resource.getD 4 0 == 0x3A || (at' 4 0x73 0x53 && resource.getD 5 0 == 0x3A))

structure RequestArgs where
  method : HttpMethod
  resource : CStr
  host : CStr
  inputSize : UINT := 0
  chunked : Bool := false
  username : Option CStr := none
  password : Option CStr := none

/-- The lengths are checked before anything is allocated. -/
def RequestArgs.lengthsOk (a : RequestArgs) (maxString : Nat) : Bool :=
  (match a.username, a.password with
    | some username, some password =>
      username.length ≤ nxWebHttpMaxName && password.length ≤ nxWebHttpMaxPassword
    | _, _ => true) &&
    a.resource.length ≤ maxString && a.host.length ≤ maxString

/-- The method, with the bytes the request is going to carry. -/
def placeMethod (P : Pool) (a : RequestArgs) (text : List UInt8) : M Unit := do
  place P text
  if a.method = .put ∨ a.method = .post then
    modify fun s => { s with totalTransferBytes := a.inputSize.toNat, actualBytesTransferred := 0 }

def placeResource (P : Pool) (resource : CStr) : M Unit := do
  if resource.getD 0 0 ≠ 0x2F ∧ hasScheme resource = false then
    place P (cstr "/")
  place P resource
  place P (cstr " HTTP/1.1")
  place P crlf

def placeHost (P : Pool) (host : CStr) : M Unit := do
  place P (cstr "Host: ")
  if host ≠ [] then
    place P host
  place P crlf

/-- Basic authentication; the two texts are merged in an array that has room for the longest. -/
def placeAuthorization (P : Pool) : Option CStr → Option CStr → M Unit
  | some username, some password => do
    place P (cstr "Authorization: Basic ")
    let merged := username ++ 0x3A :: password
    place P (base64Encode merged merged.length)
    place P crlf
  | _, _ => return ()

def placeLength (P : Pool) (a : RequestArgs) : M Unit := do
  if a.inputSize ≠ 0 ∧ a.chunked = false then
    place P (cstr "Content-Length: ")
    place P (numberConvert a.inputSize)
    place P crlf
  if a.chunked then
    place P (cstr "Transfer-Encoding: chunked")
    place P crlf

/-- `_nx_web_http_client_request_initialize`, with the checks that it and the function it calls
make of the same lengths made once. `maxString` is the `NX_MAX_STRING_LENGTH` of NetX. -/
def requestInitialize (P : Pool) (maxString : Nat) (a : RequestArgs) : M UINT := do
  if a.lengthsOk maxString = false then
    return nxWebHttpError
  releaseRequest
  match ← attempt (requestPacketAllocate P) with
  | .error status => do
    errorExit
    return status
  | .ok c => do
    modify fun s => { s with requestPacketPtr := some c, method := a.method }
    match methodText a.method with
    | none => do
      releaseRequest
      return nxWebHttpMethodError
    | some text => do
      placeMethod P a text
      placeResource P a.resource
      placeHost P a.host
      placeAuthorization P a.username a.password
      placeLength P a
      return nxSuccess

def requestHeaderAdd (P : Pool) (name value : List UInt8) : M UINT := do
  let s ← get
  if s.requestPacketPtr.isNone then
    return nxWebHttpError
  appendRequest P name
  appendRequest P (cstr ": ")
  appendRequest P value
  appendRequest P crlf
  return nxSuccess

/-! ## Sending -/

/-- `_nx_web_http_client_send`; once no answer is given any more, everything is accepted. -/
def send (c : Chain) : M Unit := do
  let s ← get
  match s.sending.head? with
  | some (.error e) => do
    set { s with sending := s.sending.tail }
    returns e.status
  | _ => set { s with sending := s.sending.tail, sent := s.sent ++ [c] }

def stateOf : HttpMethod → Option ClientState
  | .get => some .get
  | .put => some .put
  | .post => some .post
  | .delete => some .delete
  | .head => some .head
  | .none => none

def requestSend (P : Pool) : M UINT := do
  let s ← get
  if s.requestPacketPtr.isNone then
    return nxWebHttpError
  place P crlf
  let s ← get
  let some c := s.requestPacketPtr | fault
  set { s with requestPacketPtr := none }
  match ← attempt (send c) with
  | .error status => do
    nxPacketRelease c
    errorExit
    return status
  | .ok () =>
    match stateOf s.method with
    | some state => do
      modify fun s => { s with state := state }
      return nxSuccess
    | none => return nxWebHttpMethodError

/-! ## The body of a request -/

/-- The hexadecimal digits in front of `string`; a `UINT` has eight at most. -/
def hexDigits : Nat → Nat → List UInt8 → List UInt8
  | 0, _, string => string
  | places + 1, size, string =>
    if size = 0 then string
    else
      let digit := size &&& 0x0F
      hexDigits places (size >>> 4)
        ((if digit < 10 then .ofNat (digit + 0x30) else .ofNat (digit - 10 + 0x61)) :: string)

def chunkDigits (chunkSize : UINT) : List UInt8 :=
  match hexDigits 8 chunkSize.toNat [] with
  | [] => [0x30]
  | digits => digits

/-- The head of a chunk goes to the packet its data is put into. -/
def requestChunkedSet (P : Pool) (chunkSize : UINT) (packet : Chain) : M Chain := do
  let digits := chunkDigits chunkSize
  let packet ← nxPacketDataAppend P packet digits
  let packet ← nxPacketDataAppend P packet crlf
  modify fun s => { s with
    requestChunked := true
    totalTransferBytes := u32 (chunkSize.toNat + digits.length + 2)
    actualBytesTransferred := 0 }
  return packet

/-- Bytes that are placed in a packet, if they can be. -/
def placeIn (P : Pool) (packet : Chain) (xs : List UInt8) : M Chain := do
  match ← attempt (nxPacketDataAppend P packet xs) with
  | .ok packet => return packet
  | .error _ => return packet

/-- The end of a chunk, with the last chunk behind it when there is no more. -/
def endChunk (P : Pool) (packet : Chain) (moreData : Bool) : M Chain := do
  let packet ← placeIn P packet crlf
  if moreData then
    return packet
  let packet ← placeIn P packet (cstr "0\r\n\r\n")
  modify fun s => { s with requestChunked := false }
  return packet

def requestPacketSend (P : Pool) (packet : Chain) (moreData : Bool) : M UINT := do
  let s ← get
  let length := packet.length
  if s.totalTransferBytes < u32 (s.actualBytesTransferred + length) then
    return nxInvalidPacket
  let packet ←
    if s.requestChunked ∧ s.totalTransferBytes = u32 (s.actualBytesTransferred + length) then
      endChunk P packet moreData
    else pure packet
  match ← attempt (send packet) with
  | .error status => do
    nxPacketRelease packet
    errorExit
    return status
  | .ok () => do
    modify fun s => { s with actualBytesTransferred := u32 (s.actualBytesTransferred + length) }
    return nxSuccess

end Iotc.Http
