import Iotc.Di.Algorithms
import Iotc.Di.Hex

/-!
# Obtaining the operational identity

`iotconnect_di.c`: discovery of the agent, the three requests of the device identity
service, and `iotcdi_obtain_operational_identity` on top of them. A function with an output
pointer returns an `Except`: its nonzero status, or what it put there.
-/

namespace Iotc.Di

open Iotc.C Iotc.Resume
open Iotc.Web (IotConnectAzrtosConfig IotConnectHttpRequest nxSuccess)

/-- A defined value. -/
def defined {α : Type} : Option α → M α
  | some a => return a
  | none => .stop .fault

/-- `if (p) { .. }` -/
def ifSome {α : Type} (p : Option α) (act : α → M Unit) : M Unit :=
  match p with
  | some a => act a
  | none => return ()

/-! ## The requests -/

def setupRequest (B : Build) (r : IotConnectHttpRequest) (pathSuffix : CStr) :
    M IotConnectHttpRequest := do
  let s ← .get
  let path ← defined s.discoveryAgentPath
  -- `strcpy`, then `strcat`
  let buffer ← defined (s.resourceBuffer.write? 0 (path.val ++ [0]))
  let buffer ← defined (buffer.write? path.val.length (pathSuffix ++ [0]))
  .modify ({ · with resourceBuffer := buffer })
  return { r with
    resource := stringAt buffer.bytes
    hostName := s.discoveryAgentHost.map Box.val
    tlsCert := some B.iotconnectGodaddyG2RootCert
    tlsCertLen := B.iotconnectGodaddyG2RootCert.length }

/-- `IotConnectHttpRequest http_req = {0}`. -/
def noRequest : IotConnectHttpRequest := ⟨none, none, none, none, none, 0⟩

/-- What the three requests share: a path, how the payload is serialised, and how a response is
parsed and given back. -/
structure DdimCall (R : Type) where
  path : CStr
  serialize : M (Option (Box CStr))
  parse : CStr → M (Option (Box R))
  free : Option (Box R) → M Unit
  ec : R → Int

def DdimCall.run {R : Type} (B : Build) (azrtosConfig : IotConnectAzrtosConfig) (call : DdimCall R)
    (onUnparsed : M Unit) : M (Except Int (Box R)) := do
  let httpReq ← setupRequest B noRequest call.path
  let payload ← call.serialize
  let answer ← (.call (Op.iotconnectHttpsRequest
    { httpReq with azrtosConfig := some azrtosConfig, payload := payload.map Box.val }) :
    M (UINT × Option CStr))
  if answer.1 ≠ nxSuccess then
    return .error (-1)
  match answer.2 with
  | none | some [] => return .error (-2)
  | some text =>
    match ← call.parse text with
    | none =>
      onUnparsed
      return .error (-3)
    | some r =>
      if call.ec r.val ≠ 0 then
        call.free (some r)
        return .error (-4)
      return .ok r

def authCall (request : IotclDdimAuthRequest CharPtr) : DdimCall IotclDdimAuthResponse where
  path := ddimAuthPath
  serialize := do
    let s ← .get
    let bcert ← defined (request.bcert.deref s)
    let fmt ← defined (request.fmt.deref s)
    .call (Op.iotclDdimAuthRequestCreateSerializedString ⟨bcert, fmt⟩)
  parse text := .call (Op.iotclDdimParseAuthResponse text)
  free r := .call (Op.iotclDdimFreeAuthResponse r)
  ec := IotclDdimAuthResponse.ec

def signCall (request : IotclDdimSignRequest CharPtr) : DdimCall IotclDdimSignResponse where
  path := ddimSignPath
  serialize := do
    let s ← .get
    let csr ← defined (request.csr.deref s)
    let sig ← defined (request.sig.deref s)
    let fmt ← defined (request.fmt.deref s)
    .call (Op.iotclDdimSignRequestCreateSerializedString ⟨csr, sig, fmt⟩)
  parse text := .call (Op.iotclDdimParseSignResponse text)
  free r := .call (Op.iotclDdimFreeSignResponse r)
  ec := IotclDdimSignResponse.ec

def ackCall (request : IotclDdimAckRequest CharPtr) : DdimCall IotclDdimAckResponse where
  path := ddimAckPath
  serialize := do
    let s ← .get
    let cid ← defined (request.cid.deref s)
    .call (Op.iotclDdimAckRequestCreateSerializedString ⟨cid⟩)
  parse text := .call (Op.iotclDdimParseAckResponse text)
  free r := .call (Op.iotclDdimFreeAckResponse r)
  ec := IotclDdimAckResponse.ec

/-- It alone looks at the strings of the response. -/
def ddimCallAuth (B : Build) (azrtosConfig : IotConnectAzrtosConfig)
    (request : IotclDdimAuthRequest CharPtr) : M (Except Int (Box IotclDdimAuthResponse)) := do
  match ← (authCall request).run B azrtosConfig (return ()) with
  | .error ret => return .error ret
  | .ok r =>
    if r.val.cid.isNone ∨ r.val.cn.isNone ∨ r.val.rn.isNone then
      (authCall request).free (some r)
      return .error (-5)
    return .ok r

def ddimCallSign (B : Build) (azrtosConfig : IotConnectAzrtosConfig)
    (request : IotclDdimSignRequest CharPtr) : M (Except Int (Box IotclDdimSignResponse)) :=
  (signCall request).run B azrtosConfig ((signCall request).free none)

def ddimCallAck (B : Build) (azrtosConfig : IotConnectAzrtosConfig)
    (request : IotclDdimAckRequest CharPtr) : M (Except Int (Box IotclDdimAckResponse)) :=
  (ackCall request).run B azrtosConfig ((ackCall request).free none)

/-! ## Discovery -/

def mallocCall (size : Nat) : M (Option Nat) := .call (Op.malloc size)

def freeCall (addr : Option Nat) : M Unit := .call (Op.free addr)

/-- The status; the parts of the URL go to the static variables. -/
def parseDiscoveryHostAndPath (discoveryAgentUrl : CStr) : M Int := do
  if (strstr (cstr "https://") discoveryAgentUrl).isNone then
    return -1
  let hostPtr := discoveryAgentUrl.drop (cstr "https://").length
  -- without a slash `path` is NULL and its length is taken all the same
  let path ← defined (strstr (cstr "/") hostPtr)
  match ← mallocCall (path.length + 1) with
  | none =>
    .modify ({ · with discoveryAgentPath := none })
    freeCall none
    return -2
  | some pathAddr =>
    .modify ({ · with discoveryAgentPath := some ⟨pathAddr, path⟩ })
    let host := hostPtr.take (hostPtr.length - path.length)
    match ← mallocCall (host.length + 1) with
    | none =>
      .modify ({ · with discoveryAgentHost := none })
      freeCall (some pathAddr)
      .modify ({ · with discoveryAgentPath := none })
      return -3
    | some hostAddr =>
      .modify ({ · with discoveryAgentHost := some ⟨hostAddr, host⟩ })
      return 0

/-- Free the two static strings that are there. -/
def forgetAgent : M Unit := do
  let s ← .get
  ifSome s.discoveryAgentHost fun host => do
    freeCall (some host.addr)
    .modify ({ · with discoveryAgentHost := none })
  ifSome s.discoveryAgentPath fun path => do
    freeCall (some path.addr)
    .modify ({ · with discoveryAgentPath := none })

def freeDiscovery (r : Box IotclDiscoveryV3Response) : M Unit :=
  .call (Op.iotclFreeDiscoveryV3Response (some r))

/-- The end of `discovery_call`, on the agent's URL in the response. -/
def acceptAgent (r : Box IotclDiscoveryV3Response) (bu : CStr) : M Int := do
  forgetAgent
  match ← mallocCall (bu.length + 1) with
  | none =>
    freeDiscovery r
    return -5
  | some agentUrl =>
    let ret ← parseDiscoveryHostAndPath bu
    if ret ≠ 0 then
      forgetAgent
      freeCall (some agentUrl)
      freeDiscovery r
      return -6
    freeCall (some agentUrl)
    freeDiscovery r
    return 0

def discoveryRequest (B : Build) (azrtosConfig : IotConnectAzrtosConfig) (resource : CStr) :
    IotConnectHttpRequest where
  azrtosConfig := some azrtosConfig
  hostName := some B.discoveryV3HostName
  resource := some resource
  payload := none
  tlsCert := some B.iotconnectGodaddyG2RootCert
  tlsCertLen := B.iotconnectGodaddyG2RootCert.length

/-- The middle of `discovery_call`: the request and its answer, with the path to free. -/
def discoveryAnswer (B : Build) (azrtosConfig : IotConnectAzrtosConfig) (discoveryPath : Nat)
    (resource : CStr) : M (Except Int (Box IotclDiscoveryV3Response)) := do
  let answer ← (.call (Op.iotconnectHttpsRequest (discoveryRequest B azrtosConfig resource)) :
    M (UINT × Option CStr))
  if answer.1 ≠ nxSuccess then
    freeCall (some discoveryPath)
    return .error (-1)
  match answer.2 with
  | none | some [] =>
    freeCall (some discoveryPath)
    return .error (-2)
  | some text =>
    match ← (.call (Op.iotclParseDiscoveryV3Response text) :
      M (Option (Box IotclDiscoveryV3Response))) with
    | none =>
      freeCall (some discoveryPath)
      return .error (-3)
    | some r =>
      freeCall (some discoveryPath)
      return .ok r

def discoveryCall (B : Build) (azrtosConfig : IotConnectAzrtosConfig) (env : Option CStr)
    (cn : CStr) : M Int := do
  match splitCnToCpidAndDuid cn with
  | .error ret => return ret
  | .ok (cpid, _) =>
    let env ← defined env
    let size := B.discoveryV3ResourceFormat.length + env.length + cpid.length
    match ← mallocCall size with
    | none => return -1
    | some discoveryPath =>
      let resource := sprintf B.discoveryV3ResourceFormat [cpid, env]
      -- `sprintf` writes past the end of a buffer that is too short
      if size < resource.length + 1 then
        .stop .fault
      else
        match ← discoveryAnswer B azrtosConfig discoveryPath resource with
        | .error ret => return ret
        | .ok r =>
          match r.val.bu with
          | none =>
            freeDiscovery r
            return -4
          | some bu => acceptAgent r bu

/-! ## `iotcdi_obtain_operational_identity` -/

/-- A driver call, which leaves the driver's memory as it likes. -/
def driverCall {α : Type} (op : Op) (mem : Ans op → DriverMem) (value : Ans op → α) : M α := do
  let a ← .call op
  .modify ({ · with driverMem := mem a })
  return value a

/-- The bytes that a driver call has pointed out, as they stand now. -/
def readDriver (d : DriverBytes) : M Bytes := do
  let s ← .get
  defined (s.driverBytes d)

def ensureAgent (B : Build) (azrtosConfig : IotConnectAzrtosConfig) (driver : Nat)
    (env : Option CStr) : M Int := do
  let s ← .get
  if s.discoveryAgentHost.isNone ∨ s.discoveryAgentPath.isNone then
    match ← driverCall (.extractBootstrapCn driver) Prod.snd Prod.fst with
    | none => return -1
    | some bootstrapCn =>
      let ret ← discoveryCall B azrtosConfig env bootstrapCn
      if ret ≠ 0 then
        return -2
      return 0
  else
    return 0

/-- Up to the auth response. -/
def authenticate (B : Build) (azrtosConfig : IotConnectAzrtosConfig) (driver : Nat)
    (env : Option CStr) : M (Except Int (Box IotclDdimAuthResponse)) := do
  let ret ← ensureAgent B azrtosConfig driver env
  if ret ≠ 0 then
    return .error ret
  let cert ← driverCall (.getBootstrapCert driver) DriverBytes.mem id
  if cert.status ≠ 0 then
    return .error (-3)
  let certBin ← readDriver cert
  let bcert ← binToHex certBin
  if bcert = .null then
    return .error (-4)
  match ← ddimCallAuth B azrtosConfig ⟨bcert, .text (cstr "hex")⟩ with
  | .error _ => return .error (-5)
  | .ok r => return .ok r

/-- SHA-256 of the random number, the identifier and the CSR. -/
def hashCsr (rn cid : CStr) (csr : DriverBytes) : M (Except Int (Buf iotcSha256HashSize)) := do
  let status : UINT ← .call Op.nxCryptoSha256Initialize
  if status ≠ 0 then
    return .error (-7)
  let onRn : UINT ← .call (Op.nxCryptoSha256Update rn)
  let onCid : UINT ← .call (Op.nxCryptoSha256Update cid)
  let csrBin ← readDriver csr
  let onCsr : UINT ← .call (Op.nxCryptoSha256Update csrBin)
  if status ||| onRn ||| onCid ||| onCsr ≠ 0 then
    return .error (-8)
  let digest : UINT × Buf iotcSha256HashSize ← .call Op.nxCryptoSha256DigestCalculate
  if digest.1 ≠ 0 then
    return .error (-9)
  return .ok digest.2

/-- The signature of the hash in DER form. -/
def signatureOf (driver : Nat) (hash : Buf iotcSha256HashSize) : M (Except Int Bytes) := do
  let (status, sR) ← driverCall (.signHash driver hash.bytes) Prod.snd Prod.fst
  if status ≠ 0 then
    return .error (-10)
  match ← defined (sigToAsn1Der (some (Buf.zero (iotc256BitSignatureSize + 10))) (some sR.bytes)
    (some (sR.bytes.drop (iotc256BitSignatureSize / 2))) (iotc256BitKeySize * 8)) with
  | .error _ => return .error (-11)
  | .ok (asn1Sig, signatureSize) => return .ok (asn1Sig.bytes.take signatureSize)

/-- The CSR, its hash and the signature: from the auth response to what is to be signed. -/
def signedCsr (driver : Nat) (auth : IotclDdimAuthResponse) :
    M (Except Int (DriverBytes × Bytes)) := do
  let cn ← defined auth.cn
  let csr ← driverCall (.generateCsr driver cn) DriverBytes.mem id
  if csr.status ≠ 0 then
    return .error (-6)
  let rn ← defined auth.rn
  let cid ← defined auth.cid
  match ← hashCsr rn cid csr with
  | .error ret => return .error ret
  | .ok hash =>
    match ← signatureOf driver hash with
    | .error ret => return .error ret
    | .ok asn1Sig => return .ok (csr, asn1Sig)

/-- The copy that `sign_req.sig` points to, made before the work buffer is used again. -/
def copySignature (asn1Sig : Bytes) : M (Except Int (Box Bytes)) := do
  let sigHex ← binToHex asn1Sig
  if sigHex = .null then
    return .error (-12)
  let s ← .get
  match ← mallocCall s.workBufferSize with
  | none => return .error (-13)
  | some addr => return .ok ⟨addr, s.workBuffer.bytes.take s.workBufferSize⟩

/-- The sign request and its response. -/
def requestCert (B : Build) (azrtosConfig : IotConnectAzrtosConfig) (csr : DriverBytes)
    (sig : Box Bytes) : M (Except Int (Box IotclDdimSignResponse)) := do
  let csrBin ← readDriver csr
  let csrHex ← binToHex csrBin
  if csrHex = .null then
    return .error (-14)
  match ← ddimCallSign B azrtosConfig ⟨csrHex, .heap sig, .text (cstr "hex")⟩ with
  | .error _ => return .error (-15)
  | .ok r => return .ok r

/-- A string that may be NULL. -/
def CharPtr.ofText : Option CStr → CharPtr
  | none => .null
  | some cs => .text cs

/-- The end of the last part: only the size tells whether the conversion succeeded. -/
def storeConverted (B : Build) (azrtosConfig : IotConnectAzrtosConfig) (driver : Nat)
    (cid : Option CStr) : M (Except Int (Box IotclDdimAckResponse)) := do
  let s ← .get
  if s.workBufferSize = 0 then
    return .error (-16)
  let stored ← driverCall (.storeOperationalCert driver (s.workBuffer.bytes.take s.workBufferSize))
    Prod.snd Prod.fst
  if stored ≠ 0 then
    return .error (-17)
  match ← ddimCallAck B azrtosConfig ⟨.ofText cid⟩ with
  | .error _ => return .error (-18)
  | .ok r => return .ok r

/-- The last part, on the sign response. -/
def storeAndAck (B : Build) (azrtosConfig : IotConnectAzrtosConfig) (driver : Nat)
    (cid : Option CStr) (sign : IotclDdimSignResponse) :
    M (Except Int (Box IotclDdimAckResponse)) := do
  let _ ← hexToBin (.ofText sign.cert)
  storeConverted B azrtosConfig driver cid

/-- The pointers that the cleanup label looks at. -/
structure Locals where
  authRsp : Option (Box IotclDdimAuthResponse) := none
  signRsp : Option (Box IotclDdimSignResponse) := none
  ackRsp : Option (Box IotclDdimAckResponse) := none
  sig : Option (Box Bytes) := none

def cleanup (l : Locals) : M Unit := do
  ifSome l.authRsp fun r => .call (Op.iotclDdimFreeAuthResponse (some r))
  ifSome l.signRsp fun r => .call (Op.iotclDdimFreeSignResponse (some r))
  ifSome l.ackRsp fun r => .call (Op.iotclDdimFreeAckResponse (some r))
  ifSome l.sig fun r => freeCall (some r.addr)

/-- Everything in front of the cleanup label. -/
def obtainIdentity (B : Build) (azrtosConfig : IotConnectAzrtosConfig) (driver : Nat)
    (env : Option CStr) : M (Int × Locals) := do
  match ← authenticate B azrtosConfig driver env with
  | .error ret => return (ret, {})
  | .ok auth =>
    match ← signedCsr driver auth.val with
    | .error ret => return (ret, { authRsp := some auth })
    | .ok (csr, asn1Sig) =>
      match ← copySignature asn1Sig with
      | .error ret => return (ret, { authRsp := some auth })
      | .ok sig =>
        match ← requestCert B azrtosConfig csr sig with
        | .error ret => return (ret, { authRsp := some auth, sig := some sig })
        | .ok sign =>
          match ← storeAndAck B azrtosConfig driver auth.val.cid sign.val with
          | .error ret =>
            return (ret, { authRsp := some auth, signRsp := some sign, sig := some sig })
          | .ok ack =>
            return (0, { authRsp := some auth, signRsp := some sign, ackRsp := some ack,
                         sig := some sig })

def iotcdiObtainOperationalIdentity (B : Build) (azrtosConfig : IotConnectAzrtosConfig)
    (driver : Nat) (env : Option CStr) : M Int := do
  let (ret, l) ← obtainIdentity B azrtosConfig driver env
  cleanup l
  return ret

end Iotc.Di
