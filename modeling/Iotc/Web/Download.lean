import Iotc.Ota.Handler
import Iotc.Web.Https

/-!
# The download client

`azrtos_download_client.c`: a file is asked for with a HEAD request and fetched in
ranges of `IOTC_DL_DATA_BUFFER_SIZE` bytes, each tried `IOTC_DL_NUM_RETRIES` times.
`event_cb` is one of two kinds of handler, and `fireEvent` calls it.

`chunkLoop` has no bound of its own (the offset can wrap before it reaches the file size),
so it takes its number of turns from the caller.
-/

namespace Iotc.Web

open Iotc.C Iotc.Resume

variable {B : Build}

/-- Call an event handler. -/
def callHandler (h : Handler) (evt : IotConnectDownloadEvent) : M B Bool :=
  match h with
  | .app cb => Ota.userDownloadCb cb evt
  | .otaFwDownloadHandler => Ota.otaFwDownloadHandler evt

/-- `event_cb(&evt)`. -/
def fireEvent (evt : IotConnectDownloadEvent) : M B Bool := do
  let s ← .get
  let some h := s.dl.eventCb | .stop .fault
  callHandler h evt

/-! ## Single requests -/

/-- `nx_web_http_client_response_header_callback_set` assigns and always succeeds. -/
def nxWebHttpClientResponseHeaderCallbackSet (_ : NxWebHttpClient) (cb : HeaderCallback) :
    NxWebHttpClient :=
  { responseCallback := some cb }

/-- The registered callback on the header fields of a response. -/
def runHeaderCallback (client : NxWebHttpClient) (d : Delivery) (fileSize : SizeT) :
    Except Stop SizeT :=
  match client.responseCallback with
  | some .headerFileSizeCallback => headerFileSize d.dummy d.fields fileSize
  | _ => .ok fileSize

def chunkRoom (B : Build) (dataLength : SizeT) : SizeT := B.iotcDlDataBufferSize - dataLength

def chunkFull (B : Build) (bytesReceived : UInt32) (dataLength : SizeT) : Bool :=
  B.iotcDlDataBufferSize - dataLength < bytesReceived

theorem chunkCapped (B : Build) : Capped (chunkRoom B) (chunkFull B)
    B.iotcDlDataBufferSize.toNat B.iotcDlDataBufferSize.toNat := by
  have hlt := B.iotcDlDataBufferSize.toNat_lt
  refine ⟨by omega, by omega, fun dl hdl => ?_, fun dl got hdl hgot => ?_⟩
  · simp only [chunkRoom, UInt32.toNat_sub]; omega
  · simp only [chunkFull, UInt32.lt_iff_toNat_lt, UInt32.toNat_sub, decide_eq_false_iff_not]
    omega

def getResponse (m : Method) (client : NxWebHttpClient) : M B UINT := do
  let d ← nxWebHttpClientResponseBodyGet m
  let s ← .get
  match runHeaderCallback client d s.dl.fileSize,
      receive (chunkRoom B) (chunkFull B) d.last s.dl.buffer 0 [] d.packets with
  | .ok fileSize, .ok rcv =>
    .modify (·.setDl ({ · with fileSize, buffer := rcv.buffer, dataLength := rcv.dataLength }))
    releaseAll rcv.released
    releaseHeld rcv.receivePacket
    return rcv.status
  | .error e, _ => .stop e
  | _, .error e => .stop e

/-- The value of a `Range` header. -/
def rangeFormat (start fin : SizeT) : String := s!"bytes={start.toNat}-{fin.toNat}"

def rangeStrBuffSize : Nat := 7 + maxDataLengthDigits * 2

/-- What `sprintf` leaves in `range_str_buff`, where the text has room in it. -/
@[irreducible] def printRange (start fin : SizeT) (rangeStrBuff : Buf rangeStrBuffSize) :
    Option (Buf rangeStrBuffSize) :=
  rangeStrBuff.write? 0 (cstr (rangeFormat start fin) ++ [0])

def sprintf (rangeStart rangeEnd : SizeT) : M B Unit := .call (Op.sprintf rangeStart rangeEnd)

/-- The array is not initialised: what it holds before does not matter. -/
def addRangeHeader (start fin : SizeT) : M B UINT := do
  sprintf start fin
  if (printRange start fin (.zero _)).isSome then
    nxWebHttpClientRequestHeaderAdd "Range" (rangeFormat start fin)
  else .stop .fault

def getBytesInRange (r : IotConnectHttpRequest) (client : NxWebHttpClient) (start fin : SizeT) :
    M B UINT := do
  let status ← nxWebHttpClientRequestInitialize .get r 0
  if status ≠ nxSuccess then
    return status
  let status ← nxWebHttpClientRequestHeaderAdd "Content-Type" "application/octet-stream"
  if status ≠ nxSuccess then
    return status
  let status ← addRangeHeader start fin
  if status ≠ nxSuccess then
    return status
  let status ← nxWebHttpClientRequestSend
  if status ≠ nxSuccess then
    return status
  getResponse .get client

/-- `get_file_size` after it has cleared `file_size`. -/
def headRequest (r : IotConnectHttpRequest) (client : NxWebHttpClient) : M B UINT := do
  let status ← nxWebHttpClientRequestInitialize .head r 0
  if status ≠ nxSuccess then
    return status
  let status ← nxWebHttpClientRequestHeaderAdd "Connection" "keep-alive"
  if status ≠ nxSuccess then
    return status
  let status ← nxWebHttpClientRequestSend
  if status ≠ nxSuccess then
    return status
  getResponse .head client

def getFileSize (r : IotConnectHttpRequest) (client : NxWebHttpClient) : M B UINT := do
  .modify (·.setDl ({ · with fileSize := 0 }))
  headRequest r client

/-! ## The chunk loop -/

/-- `size` and `end` of the next range. -/
def chunkSize (B : Build) (fileBytesReceived fileSize : SizeT) : SizeT :=
  if fileBytesReceived + B.iotcDlDataBufferSize < fileSize then B.iotcDlDataBufferSize
  else fileSize - fileBytesReceived

def chunkEnd (B : Build) (fileBytesReceived fileSize : SizeT) : SizeT :=
  fileBytesReceived + chunkSize B fileBytesReceived fileSize - 1

/-- The event for the range just received. -/
def dataEvent (size : SizeT) (dl : DlStatics B) : IotConnectDownloadEvent :=
  .data dl.buffer.bytes size dl.fileBytesReceived dl.fileSize

/-- `i` tries at the range that ends at `fin`; `status` is what the last one left. -/
def retryLoop (r : IotConnectHttpRequest) (client : NxWebHttpClient) (size fin : SizeT) :
    Nat → UINT → M B UINT
  | 0, status => pure status
  | i + 1, _ => do
    let s ← .get
    let status ← getBytesInRange r client s.dl.fileBytesReceived fin
    if status = nxSuccess then
      let s ← .get
      let accepted ← fireEvent (dataEvent size s.dl)
      if accepted = false then
        return nxDownloadAbortedByUser
      return status
    else
      retryLoop r client size fin i status

def chunkLoop (r : IotConnectHttpRequest) (client : NxWebHttpClient) : Nat → M B UINT
  | 0 => .stop .fuel
  | fuel + 1 => do
    let s ← .get
    let size := chunkSize B s.dl.fileBytesReceived s.dl.fileSize
    let fin := chunkEnd B s.dl.fileBytesReceived s.dl.fileSize
    let status ← retryLoop r client size fin B.iotcDlNumRetries nxSuccess
    if status ≠ nxSuccess then
      return status
    .modify (·.setDl fun dl => { dl with fileBytesReceived := dl.fileBytesReceived + size })
    let s ← .get
    if s.dl.fileBytesReceived < s.dl.fileSize then
      chunkLoop r client fuel
    else
      return status

/-! ## The download -/

def requestHandler (fuel : Nat) (r : IotConnectHttpRequest) (client : NxWebHttpClient) :
    M B UINT := do
  let client := nxWebHttpClientResponseHeaderCallbackSet client .headerFileSizeCallback
  let status ← getFileSize r client
  if status ≠ nxSuccess then
    return status
  let s ← .get
  let accepted ← fireEvent (.fileSize s.dl.fileSize)
  if accepted = false then
    return nxDownloadAbortedByUser
  let client := nxWebHttpClientResponseHeaderCallbackSet client .headerRangeCallback
  let s ← .get
  if s.dl.doResume = false then
    .modify (·.setDl ({ · with fileBytesReceived := 0 }))
    chunkLoop r client fuel
  else if s.dl.fileSize ≤ s.dl.fileBytesReceived then
    return nxInvalidParameters
  else
    chunkLoop r client fuel

/-- Report `status` to the caller's own handler and return it. -/
def rejectDownload (eventCallback : Option Handler) (status : UINT) : M B UINT := do
  match eventCallback with
  | some h =>
    let _ ← callHandler h (.status status)
    return status
  | none => return status

def iotcDownload (fuel : Nat) (r : Option IotConnectHttpRequest) (eventCallback : Option Handler)
    (resume : Bool) : M B UINT := do
  match r, eventCallback with
  | some r, some h =>
    if r.hostName.isNone ∨ r.resource.isNone then
      rejectDownload eventCallback nxInvalidParameters
    else
      let s ← .get
      if s.dl.eventCb.isSome then
        rejectDownload eventCallback nxNotSupported
      else
        .modify (·.setDl ({ · with eventCb := some h, doResume := resume }))
        let status ← iotconnectHttpsRequest (some r) (some (requestHandler fuel))
        let _ ← fireEvent (.status status)
        .modify (·.setDl ({ · with eventCb := none }))
        return status
  | _, _ => rejectDownload eventCallback nxInvalidParameters

end Iotc.Web
