import Iotc.C.Buf
import Iotc.Resume.Run

/-!
# The HTTPS, download and OTA clients: data, static variables, external calls

The three clients share one program type: their static variables are one record `St`,
and their calls to NetX, to the C library's `sprintf`, to the ADU driver and to the application's
callback are the operations `Op`. A pointer is an `Option` where the code tests it against NULL; the
application's callbacks and ADU drivers are numbered.

`Delivery` is the whole sequence of answers that successive calls of
`nx_web_http_client_response_body_get` give to one receive loop.
-/

namespace Iotc.Web

open Iotc.C Iotc.Resume

/-! ## Status codes -/

def nxSuccess : UINT := 0
def nxOverflow : UINT := 0x03
def nxNotSupported : UINT := 0x4B
def nxInvalidParameters : UINT := 0x4D
def nxWebHttpGetDone : UINT := 0x3000C
def nxDownloadAbortedByUser : UINT := 0x900F9

/-- The compile-time sizes of the three clients; a static array of a 32-bit target has fewer than
2^31 bytes. -/
structure Build where
  iotcDlDataBufferSize : SizeT := 4096
  iotcDlNumRetries : Nat := 3
  iotconnectHttpReceiveBufferSize : SizeT := 1000
  dl_pos : 0 < iotcDlDataBufferSize := by decide
  dl_le : iotcDlDataBufferSize ≤ 0x7FFFFFFF := by decide
  retries_pos : 0 < iotcDlNumRetries := by decide
  http_pos : 0 < iotconnectHttpReceiveBufferSize := by decide

/-- The sizes the headers define. -/
def Build.default : Build := {}

/-! ## What NetX hands over -/

/-- A received packet: its pointer, its payload over the whole chain, and the status
`nx_packet_data_extract_offset` gives for it. -/
structure Packet where
  ptr : Nat
  payload : List UInt8
  extractStatus : UINT

/-- How a sequence of `nx_web_http_client_response_body_get` calls ends: with an error,
and whatever packet pointer the call left behind, or with `NX_WEB_HTTP_GET_DONE`. -/
inductive BodyEnd where
  | failed (status : UINT) (err : status ≠ nxSuccess ∧ status ≠ nxWebHttpGetDone)
      (ptr : Option Nat)
  | done (p : Packet)

/-- The answers of `nx_web_http_client_response_body_get` to one receive loop: the header
fields reported to the registered callback on the way, the packets that come with
`NX_SUCCESS`, and the last answer. `dummy` is what the stack holds where the header
callback leaves its integer uninitialised. -/
structure Delivery where
  fields : List (List UInt8 × List UInt8)
  dummy : UInt32
  packets : List Packet
  last : BodyEnd

inductive Method where
  | get
  | post
  | head
  deriving DecidableEq, Repr

/-! ## Requests, events, driver commands -/

structure IotConnectAzrtosConfig where
  ipPtr : Nat
  poolPtr : Nat
  dnsPtr : Nat

/-- `response` always designates the client's own buffer and is read from there;
`custom_handler_cb` is an argument of `iotconnectHttpsRequest`. -/
structure IotConnectHttpRequest where
  azrtosConfig : Option IotConnectAzrtosConfig
  hostName : Option CStr
  resource : Option CStr
  payload : Option CStr
  tlsCert : Option (List UInt8)
  tlsCertLen : Nat

inductive IotConnectDownloadEvent where
  | unknown
  | status (status : UINT)
  | fileSize (fileSize : SizeT)
  /-- `dataPtr` is what the pointer shows: the chunk buffer at the time of the event. -/
  | data (dataPtr : List UInt8) (dataSize offset fileSize : SizeT)

/-- A download event handler: an application callback or the OTA client's own. -/
inductive Handler where
  | app (cb : Nat)
  | otaFwDownloadHandler
  deriving DecidableEq, Repr

/-- `NX_AZURE_IOT_ADU_AGENT_DRIVER_INITIALIZE` and so on. -/
inductive AduCommand where
  | driverInitialize
  | driverPreprocess
  | driverWrite
  | driverInstall
  | driverApply
  deriving DecidableEq, Repr

/-- `NX_AZURE_IOT_ADU_AGENT_DRIVER`, with its prefix left out of the field names. -/
structure AduDriverRequest where
  command : AduCommand := .driverInitialize
  firmwareSize : SizeT := 0
  firmwareDataPtr : List UInt8 := []
  firmwareDataSize : SizeT := 0
  firmwareDataOffset : SizeT := 0
  status : UINT := 0

/-! ## External calls -/

inductive Op where
  | nxWebHttpClientCreate (ipPtr poolPtr : Nat)
  | nxDnsHostByNameGet (dnsPtr : Nat) (host : CStr)
  | nxWebHttpClientSecureConnect
  | nxWebHttpClientDelete
  | nxWebHttpClientRequestInitialize (m : Method) (resource host : Option CStr) (inputSize : Nat)
  | nxWebHttpClientRequestHeaderAdd (name value : String)
  | nxWebHttpClientRequestSend
  | nxWebHttpClientRequestPacketAllocate
  | nxPacketDataAppend (ptr : Nat) (payload : CStr)
  | nxWebHttpClientRequestPacketSend (ptr : Nat)
  /-- `m` is the method of the request this is the response to. -/
  | nxWebHttpClientResponseBodyGet (m : Method)
  | nxPacketRelease (ptr : Nat)
  /-- `sprintf(range_str_buff, HDR_RANGE_FORMAT, range_start, range_end)`. -/
  | sprintf (rangeStart rangeEnd : SizeT)
  | aduDriver (ad : Nat) (req : AduDriverRequest)
  | userDownloadCb (cb : Nat) (evt : IotConnectDownloadEvent)

/-- The driver answers by the status it writes to its request; a packet allocation
gives a pointer when it succeeds. -/
@[reducible] def Ans : Op → Type
  | .nxWebHttpClientResponseBodyGet _ => Delivery
  | .nxWebHttpClientRequestPacketAllocate => Option Nat
  | .nxPacketRelease _ => Unit
  | .sprintf .. => Unit
  | .userDownloadCb _ _ => Bool
  | _ => UINT

/-- A well-formed request. -/
def fileRequest : IotConnectHttpRequest :=
  ⟨some ⟨1, 2, 3⟩, some (cstr "host"), some (cstr "/fw.bin"), none, some [48], 1⟩

/-- A network on which everything succeeds, HEAD requests being answered by `head` and the
others by `get`, with a driver and an application that accept everything. -/
def allGood (head get : Delivery) : (op : Op) → Ans op
  | .nxWebHttpClientCreate .. => nxSuccess
  | .nxDnsHostByNameGet .. => nxSuccess
  | .nxWebHttpClientSecureConnect => nxSuccess
  | .nxWebHttpClientDelete => nxSuccess
  | .nxWebHttpClientRequestInitialize .. => nxSuccess
  | .nxWebHttpClientRequestHeaderAdd .. => nxSuccess
  | .nxWebHttpClientRequestSend => nxSuccess
  | .nxWebHttpClientRequestPacketAllocate => some 0
  | .nxPacketDataAppend .. => nxSuccess
  | .nxWebHttpClientRequestPacketSend _ => nxSuccess
  | .nxWebHttpClientResponseBodyGet .head => head
  | .nxWebHttpClientResponseBodyGet _ => get
  | .nxPacketRelease _ => ()
  | .sprintf .. => ()
  | .aduDriver .. => nxSuccess
  | .userDownloadCb .. => true

/-! ## Static variables -/

/-- `azrtos_download_client.c`. -/
structure DlStatics (B : Build) where
  buffer : Buf B.iotcDlDataBufferSize.toNat
  dataLength : SizeT
  fileSize : SizeT
  fileBytesReceived : SizeT
  eventCb : Option Handler
  doResume : Bool

/-- `azrtos_ota_fw_client.c`. -/
structure OtaStatics where
  aduDriver : Option Nat
  userDownloadCb : Option Nat
  adudr : AduDriverRequest
  firmwareReady : Bool

structure St (B : Build) where
  dl : DlStatics B
  responseBuffer : Buf B.iotconnectHttpReceiveBufferSize.toNat
  ota : OtaStatics

/-- The static variables before any call: zero, NULL, false. -/
def St.init (B : Build) : St B where
  dl := ⟨.zero _, 0, 0, 0, none, false⟩
  responseBuffer := .zero _
  ota := ⟨none, none, {}, false⟩

abbrev M (B : Build) (α : Type) : Type := Prog Op Ans (St B) α

section
variable {B : Build}

def St.setDl (s : St B) (f : DlStatics B → DlStatics B) : St B := { s with dl := f s.dl }

def St.setOta (s : St B) (f : OtaStatics → OtaStatics) : St B := { s with ota := f s.ota }

@[simp] theorem St.setDl_dl (s : St B) (f : DlStatics B → DlStatics B) : (s.setDl f).dl = f s.dl :=
  rfl

@[simp] theorem St.setDl_ota (s : St B) (f : DlStatics B → DlStatics B) : (s.setDl f).ota = s.ota :=
  rfl

@[simp] theorem St.setOta_dl (s : St B) (f : OtaStatics → OtaStatics) : (s.setOta f).dl = s.dl :=
  rfl

@[simp] theorem St.setOta_ota (s : St B) (f : OtaStatics → OtaStatics) :
    (s.setOta f).ota = f s.ota := rfl

end

end Iotc.Web
