import Iotc.C.Buf
import Iotc.Resume.Run
import Iotc.Web.Basic

/-!
# Device identity: data, static variables, external calls

The static variables of `iotconnect_di.c`, the requests and responses of the device
identity service, and the calls to the authentication driver, to NetX crypto, to the HTTPS
client, to iotc-c-lib and to the heap. A driver interface and its context are numbered
together.

What a driver hands back stands in the driver's own memory, which any driver call may
overwrite; `St.driverMem` is that memory as the last call left it.
-/

namespace Iotc.Di

open Iotc.C Iotc.Resume
open Iotc.Web (IotConnectAzrtosConfig IotConnectHttpRequest nxSuccess)

abbrev Bytes : Type := List UInt8

def iotcX509CertMaxSize : Nat := 750
def iotc256BitKeySize : Nat := 32
def iotc256BitSignatureSize : Nat := 32 * 2
def iotcSha256HashSize : Nat := 32

/-- `WORK_BUFFER_SIZE`, the size of the array; the static variable is `St.workBufferSize`. -/
def workBufferSize : Nat := iotcX509CertMaxSize * 2 + 1

def urlResouceBufferSize : Nat := 40

def ddimAuthPath : CStr := cstr "/x509/auth"
def ddimSignPath : CStr := cstr "/x509/cert/sign"
def ddimAckPath : CStr := cstr "/x509/cert/ack"

/-- What iotc-c-lib and the build define. -/
structure Build where
  discoveryV3HostName : CStr
  discoveryV3ResourceFormat : CStr
  iotconnectGodaddyG2RootCert : Bytes

/-! ## Pointers -/

/-- A heap object: its address and what it holds. -/
structure Box (α : Type) where
  addr : Nat
  val : α
  deriving DecidableEq, Repr

/-- A `char *`: to the work buffer, to a string that nothing changes, or to heap memory. -/
inductive CharPtr where
  | null
  | workBuffer
  | text (s : CStr)
  | heap (b : Box Bytes)
  deriving DecidableEq, Repr

/-- The driver's buffers. -/
abbrev DriverMem : Type := Nat → Bytes

/-- A driver call that sets a pointer and a size. -/
structure DriverBytes where
  status : Int
  buffer : Nat
  len : Nat
  mem : DriverMem

/-! ## Requests and responses

The strings of a request are pointers in the code and texts where it is serialised. -/

structure IotclDdimAuthRequest (S : Type) where
  bcert : S
  fmt : S

structure IotclDdimSignRequest (S : Type) where
  csr : S
  sig : S
  fmt : S

structure IotclDdimAckRequest (S : Type) where
  cid : S

structure IotclDdimAuthResponse where
  ec : Int
  cid : Option CStr
  cn : Option CStr
  rn : Option CStr
  deriving DecidableEq, Repr

structure IotclDdimSignResponse where
  ec : Int
  cert : Option CStr
  deriving DecidableEq, Repr

structure IotclDdimAckResponse where
  ec : Int
  deriving DecidableEq, Repr

structure IotclDiscoveryV3Response where
  bu : Option CStr
  deriving DecidableEq, Repr

/-! ## External calls -/

inductive Op where
  | extractBootstrapCn (driver : Nat)
  | getBootstrapCert (driver : Nat)
  | generateCsr (driver : Nat) (cn : CStr)
  | signHash (driver : Nat) (sha256Hash : Bytes)
  | storeOperationalCert (driver : Nat) (cert : Bytes)
  | nxCryptoSha256Initialize
  | nxCryptoSha256Update (input : Bytes)
  | nxCryptoSha256DigestCalculate
  | iotconnectHttpsRequest (r : IotConnectHttpRequest)
  | iotclDdimAuthRequestCreateSerializedString (r : IotclDdimAuthRequest (Option CStr))
  | iotclDdimSignRequestCreateSerializedString (r : IotclDdimSignRequest (Option CStr))
  | iotclDdimAckRequestCreateSerializedString (r : IotclDdimAckRequest (Option CStr))
  | iotclDdimParseAuthResponse (text : CStr)
  | iotclDdimParseSignResponse (text : CStr)
  | iotclDdimParseAckResponse (text : CStr)
  | iotclParseDiscoveryV3Response (text : CStr)
  | iotclDdimFreeAuthResponse (r : Option (Box IotclDdimAuthResponse))
  | iotclDdimFreeSignResponse (r : Option (Box IotclDdimSignResponse))
  | iotclDdimFreeAckResponse (r : Option (Box IotclDdimAckResponse))
  | iotclFreeDiscoveryV3Response (r : Option (Box IotclDiscoveryV3Response))
  | malloc (size : Nat)
  | free (addr : Option Nat)

/-- The answers; the ones of the driver come with its memory. -/
def Ans : Op → Type
  | .extractBootstrapCn _ => Option CStr × DriverMem
  | .getBootstrapCert _ | .generateCsr .. => DriverBytes
  | .signHash .. => (Int × Buf iotc256BitSignatureSize) × DriverMem
  | .storeOperationalCert .. => Int × DriverMem
  | .nxCryptoSha256Initialize | .nxCryptoSha256Update _ => UINT
  | .nxCryptoSha256DigestCalculate => UINT × Buf iotcSha256HashSize
  | .iotconnectHttpsRequest _ => UINT × Option CStr
  | .iotclDdimAuthRequestCreateSerializedString _ => Option (Box CStr)
  | .iotclDdimSignRequestCreateSerializedString _ => Option (Box CStr)
  | .iotclDdimAckRequestCreateSerializedString _ => Option (Box CStr)
  | .iotclDdimParseAuthResponse _ => Option (Box IotclDdimAuthResponse)
  | .iotclDdimParseSignResponse _ => Option (Box IotclDdimSignResponse)
  | .iotclDdimParseAckResponse _ => Option (Box IotclDdimAckResponse)
  | .iotclParseDiscoveryV3Response _ => Option (Box IotclDiscoveryV3Response)
  | .iotclDdimFreeAuthResponse _ | .iotclDdimFreeSignResponse _ | .iotclDdimFreeAckResponse _ =>
    Unit
  | .iotclFreeDiscoveryV3Response _ => Unit
  | .malloc _ => Option Nat
  | .free _ => Unit

/-! ## Static variables -/

structure St where
  workBuffer : Buf workBufferSize
  workBufferSize : Nat
  discoveryAgentHost : Option (Box CStr)
  discoveryAgentPath : Option (Box CStr)
  resourceBuffer : Buf urlResouceBufferSize
  driverMem : DriverMem

/-- At start-up. -/
def St.boot : St where
  workBuffer := .zero _
  workBufferSize := 0
  discoveryAgentHost := none
  discoveryAgentPath := none
  resourceBuffer := .zero _
  driverMem _ := []

abbrev M : Type → Type := Prog Op Ans St

/-- What a pointer shows as a C string; `none` where it runs out of its memory. -/
def CharPtr.deref (p : CharPtr) (s : St) : Option (Option CStr) :=
  match p with
  | .null => some none
  | .workBuffer => (stringAt s.workBuffer.bytes).map some
  | .text cs => some (some cs)
  | .heap b => (stringAt b.val).map some

/-- `len` bytes of a driver's buffer, if it has them. -/
def St.driverBytes (s : St) (d : DriverBytes) : Option Bytes :=
  if d.len ≤ (s.driverMem d.buffer).length then some ((s.driverMem d.buffer).take d.len) else none

end Iotc.Di
