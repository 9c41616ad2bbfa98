import Iotc.Hub.Basic

/-!
# The IoT Hub client

`azrtos_iothub_client.c`. `adu` tells whether the client is built with
`IOTC_ENABLE_ADU_SUPPORT`.
-/

namespace Iotc.Hub

open Iotc.C Iotc.Resume
open Iotc.Web (nxSuccess IotConnectAzrtosConfig)

/-! ## Callbacks -/

/-- `on_iotconnect_status` of `iotconnect.c`. -/
def onIotconnectStatus (status : IotConnectConnectionStatus) : M Unit := do
  let s ← .get
  match s.sdk.config.statusCb with
  | some cb => .call (Op.statusCb cb status)
  | none => return ()

/-- `config.status_cb`, if it is set. -/
def callStatusCb (status : IotConnectConnectionStatus) : M Unit := do
  let s ← .get
  match s.hub.config.statusCb with
  | some (.app cb) => .call (Op.statusCb cb status)
  | some .onIotconnectStatus => onIotconnectStatus status
  | none => return ()

def connectionStatusCallback (status : UINT) : M Unit := do
  if status ≠ nxSuccess then
    .modify (·.setHub ({ · with isConnected := false }))
    .modify (·.setHub fun h =>
      if h.isDisconnectRequested then { h with isDisconnectRequested := false } else h)
    callStatusCb .mqttDisconnected
  else
    .modify (·.setHub ({ · with isConnected := true }))
    callStatusCb .mqttConnected

/-! ## Initialisation -/

/-- What `initialize_iothub` does for `IOTC_KEY` once the hub client is initialised. -/
def authenticateKey (symmetricKey : Option CStr) : M UINT := do
  let some key := symmetricKey | .stop .fault
  .call (Op.nxAzureIotHubClientSymmetricKeySet key)

/-- The same for `IOTC_X509`. -/
def authenticateX509 (ai : Nat) : M UINT := do
  let some cert ← (.call (Op.getCert ai) : M (Option (List UInt8))) | return nxNoMapping
  let some key ← (.call (Op.getPrivateKey ai) : M (Option (List UInt8))) | return nxNoMapping
  let keyType ← (.call (Op.getAzrtosPrivateKeyType ai) : M UINT)
  let status ← (.call (Op.nxSecureX509CertificateInitialize (.deviceCertificate cert key keyType)) :
    M UINT)
  if status ≠ nxSuccess then
    return status
  .call Op.nxAzureIotHubClientDeviceCertSet

/-- The steps common to both types of authentication. -/
def addCertsAndCallbacks (adu : Bool) : M UINT := do
  let status ← (.call (Op.nxAzureIotHubClientTrustedCertAdd .rootCaCert2) : M UINT)
  if status ≠ nxSuccess then
    return status
  let status ← (.call (Op.nxAzureIotHubClientTrustedCertAdd .rootCaCert3) : M UINT)
  if status ≠ nxSuccess then
    return status
  let status ← (.call Op.nxAzureIotHubClientConnectionStatusCallbackSet : M UINT)
  if status ≠ nxSuccess then
    return status
  let status ← (.call Op.nxAzureIotHubClientCloudMessageEnable : M UINT)
  if status ≠ nxSuccess then
    return status
  if adu then
    .call Op.nxAzureIotHubClientPropertiesEnable
  else
    return status

/-- From the authentication to the label `end`. -/
def finishInitialize (adu : Bool) (authenticate : M UINT) : M UINT := do
  let status ← authenticate
  let status ← (if status ≠ nxSuccess then pure status else addCertsAndCallbacks adu : M UINT)
  if status ≠ nxSuccess then
    let _ ← (.call Op.nxAzureIotHubClientDeInitialize : M UINT)
    return status
  return status

/-- The crypto tables of the driver, which is asked for each of them. -/
def driverCrypto (ai : Nat) : M IotcAzccCryptoConfig := do
  let c0 ← (.call (Op.getCryptoConfig ai) : M IotcAzccCryptoConfig)
  let c1 ← (.call (Op.getCryptoConfig ai) : M IotcAzccCryptoConfig)
  let c2 ← (.call (Op.getCryptoConfig ai) : M IotcAzccCryptoConfig)
  let c3 ← (.call (Op.getCryptoConfig ai) : M IotcAzccCryptoConfig)
  return ⟨c0.cryptoMethods, c1.cryptoMethodsLength, c2.tlsCiphersuites, c3.tlsCiphersuitesLength⟩

def initializeIothub (adu : Bool) : M UINT := do
  let s ← .get
  let c := s.hub.config
  match c.auth with
  | .iotcKey symmetricKey =>
    let status ← (.call (Op.nxAzureIotHubClientInitialize c.host c.deviceName nxAzureIotTls) :
      M UINT)
    if status ≠ nxSuccess then
      return status
    finishInitialize adu (authenticateKey symmetricKey)
  | .iotcX509 ai =>
    let crypto ← driverCrypto ai
    let status ← (.call (Op.nxAzureIotHubClientInitialize c.host c.deviceName crypto) : M UINT)
    if status ≠ nxSuccess then
      return status
    finishInitialize adu (authenticateX509 ai)
  | .unknown => return nxOptionError

/-- Delete the Azure IoT instance and return `status`. -/
def deleteAndReturn (status : UINT) : M UINT := do
  let _ ← (.call Op.nxAzureIotDelete : M UINT)
  return status

/-- The end of `iothub_client_init`, on an initialised hub client; `status` is what
`initialize_iothub` left in the variable. -/
def connectIothub (adu : Bool) (status : UINT) : M UINT := do
  let status ← (if adu then .call Op.nxAzureIotHubClientModelIdSet else pure status : M UINT)
  let connected ← (.call Op.nxAzureIotHubClientConnect : M UINT)
  if connected ≠ nxSuccess then
    let _ ← (.call Op.nxAzureIotHubClientDeInitialize : M UINT)
    -- the status returned is not that of the connect call
    deleteAndReturn status
  else
    .modify (·.setHub ({ · with isConnected := true }))
    return nxSuccess

/-- `iothub_client_init` from the creation of the Azure IoT instance on. -/
def createIothub (adu : Bool) (azrtosConfig : IotConnectAzrtosConfig) : M UINT := do
  let status ← (.call (Op.nxAzureIotCreate azrtosConfig) : M UINT)
  if status ≠ nxSuccess then
    return status
  let status ← (.call (Op.nxSecureX509CertificateInitialize .rootCaCert) : M UINT)
  if status ≠ nxSuccess then
    deleteAndReturn status
  else
    let status ← (.call (Op.nxSecureX509CertificateInitialize .rootCaCert2) : M UINT)
    if status ≠ nxSuccess then
      deleteAndReturn status
    else
      let status ← (.call (Op.nxSecureX509CertificateInitialize .rootCaCert3) : M UINT)
      if status ≠ nxSuccess then
        deleteAndReturn status
      else
        let status ← initializeIothub adu
        if status ≠ nxSuccess then
          deleteAndReturn status
        else
          connectIothub adu status

def iothubClientInit (adu : Bool) (c : IotConnectIotHubConfig)
    (azrtosConfig : IotConnectAzrtosConfig) : M UINT := do
  .modify (·.setHub ({ · with isConnected := false, config := c }))
  let _ ← (.call Op.nxAzureIotLogInit : M UINT)
  createIothub adu azrtosConfig

/-! ## Use -/

def iothubClientDisconnect : M Unit := do
  let s ← .get
  if s.hub.isConnected then
    .modify (·.setHub ({ · with isConnected := false, isDisconnectRequested := true }))
    let _ ← (.call Op.nxAzureIotHubClientDisconnect : M UINT)
    let _ ← (.call Op.nxAzureIotHubClientDeInitialize : M UINT)
    let _ ← (.call Op.nxAzureIotDelete : M UINT)
    callStatusCb .mqttDisconnected

def iothubSendMessage (message : CStr) : M UINT := do
  let (status, packet) ← (.call Op.nxAzureIotHubClientTelemetryMessageCreate : M (UINT × Nat))
  if status ≠ nxSuccess then
    return status
  let sent ← (.call (Op.nxAzureIotHubClientTelemetrySend packet message) : M UINT)
  if sent ≠ nxSuccess then
    let _ ← (.call (Op.nxAzureIotHubClientTelemetryMessageDelete packet) : M UINT)
    -- the status returned is that of the create call
    return status
  return nxSuccess

/-! ## Messages -/

/-- `on_iothub_data` of `iotconnect.c`. -/
def onIothubData (data : List UInt8) : M Unit := do
  let some str ← (.call (Op.malloc (data.length + 1)) : M (Option Nat)) | .stop .fault
  -- as a string the copy ends at the first NUL
  let _ ← (.call (Op.iotclProcessEvent (data.takeWhile (· ≠ 0))) : M Bool)
  .call (Op.free str)

/-- `config.c2d_msg_cb`, which is not compared with NULL. -/
def callC2dMsgCb (message : List UInt8) : M Unit := do
  let s ← .get
  match s.hub.config.c2dMsgCb with
  | some (.app cb) => .call (Op.c2dMsgCb cb message)
  | some .onIothubData => onIothubData message
  | none => .stop .fault

/-- The body of the loop: the status that is left. -/
def receiveMessage (waitTicks : ULONG) : M UINT := do
  let received ←
    (.call (Op.nxAzureIotHubClientCloudMessageReceive waitTicks) : M CloudMessage)
  match received with
  | .failed status _ => return status
  | .noPacket => return nxAzureIotNoPacket
  | .message p =>
    -- the length is taken from the pointers of the first packet
    callC2dMsgCb p.data
    .call (Op.nxPacketRelease p.ptr)
    return nxSuccess

def receiveLoop (loopForever : Bool) (waitTicks : ULONG) : Nat → M UINT
  | 0 => .stop .fuel
  | fuel + 1 => do
    let status ← receiveMessage waitTicks
    if status ≠ nxAzureIotNoPacket ∧ status ≠ nxSuccess then
      return status
    let s ← .get
    if loopForever ∧ s.hub.isConnected then
      receiveLoop loopForever waitTicks fuel
    else
      return status

/-- The loop has no bound of its own when it is to go on forever; `fuel` is its number of turns. -/
def iothubC2dReceive (fuel : Nat) (loopForever : Bool) (waitTicks : ULONG) : M UINT :=
  receiveLoop loopForever (if loopForever then nxWaitForever else waitTicks) fuel

end Iotc.Hub
