import Iotc.Hub.Client

/-!
# The SDK's initialisation and events

The part of `iotconnect.c` that discovers the service, synchronises the device and starts the hub
client, and does the first two again when it is told to. What comes from iotc-c-lib and from
the build's configuration, the format of the sync request among it, is a parameter.
-/

namespace Iotc.Sdk

open Iotc.C Iotc.Resume Iotc.Hub
open Iotc.Web (nxSuccess IotConnectAzrtosConfig IotConnectHttpRequest)

structure Build where
  adu : Bool
  configIotconnectCpidMaxLen : Nat
  configIotconnectEnvMaxLen : Nat
  iotconnectDiscoveryHostname : CStr
  postDataMaxLen : Nat
  postDataTemplate : CStr → CStr → CStr
  godaddyG2RootCert : List UInt8

/-- The configuration of the samples, with a plain sync request. -/
def Build.sample : Build where
  adu := false
  configIotconnectCpidMaxLen := 63
  configIotconnectEnvMaxLen := 20
  iotconnectDiscoveryHostname := cstr "discovery"
  postDataMaxLen := 1000
  postDataTemplate cpid uniqueid := cpid ++ cstr "," ++ uniqueid
  godaddyG2RootCert := [48]

def nxFalse : UINT := 0

/-- `RESOURCE_PATH_DSICOVERY`, formatted. -/
def resourcePathDiscovery (cpid env : CStr) : CStr :=
  cstr "/api/sdk/cpid/" ++ cpid ++ cstr "/lang/M_C/ver/2.0/env/" ++ env

/-- The size of `resource_str_buff`. -/
def resourceStrBuffSize (B : Build) : Nat :=
  (cstr "/api/sdk/cpid/%s/lang/M_C/ver/2.0/env/%s").length + 1 + B.configIotconnectCpidMaxLen +
    B.configIotconnectEnvMaxLen + 10

/-- `RESOURCE_PATH_SYNC`, formatted. -/
def resourcePathSync (path : CStr) : CStr := path ++ cstr "sync"

/-- From the first brace on, if there is one. -/
def jsonStart (text : CStr) : Option CStr :=
  match text.dropWhile (· ≠ 0x7B) with
  | [] => none
  | json => some json

/-- The JSON text of a response, unless the request failed. -/
def responseJson (answer : UINT × Option CStr) : Option CStr :=
  if answer.1 ≠ nxSuccess then none
  else match answer.2 with
    | none => none
    | some text => jsonStart text

def httpsRequest (B : Build) (host resource : CStr) (payload : Option CStr) :
    M (UINT × Option CStr) := do
  let s ← .get
  .call (Op.iotconnectHttpsRequest ⟨some s.sdk.azrtosConfig, some host, some resource, payload,
    some B.godaddyG2RootCert, B.godaddyG2RootCert.length⟩)

def runHttpDiscovery (B : Build) (cpid env : Option CStr) : M (Option IotclDiscoveryResponse) := do
  let some cpid := cpid | .stop .fault
  let some env := env | .stop .fault
  -- `sprintf` writes past the end of a buffer that is too short
  if resourceStrBuffSize B < (resourcePathDiscovery cpid env).length + 1 then
    .stop .fault
  else
    let answer ← httpsRequest B B.iotconnectDiscoveryHostname (resourcePathDiscovery cpid env) none
    let some json := responseJson answer | return none
    .call (Op.iotclDiscoveryParseDiscoveryResponse json)

/-- The end of `run_http_sync`, on what was parsed. -/
def acceptSync (ret : Option IotclSyncResponse) : M (Option IotclSyncResponse) := do
  match ret with
  | none =>
    .modify (·.setSdk ({ · with lastSyncResult := .unknownDeviceStatus }))
    let _ ← (.call (Op.iotclDiscoveryFreeSyncResponse none) : M Unit)
    return none
  | some response =>
    .modify (·.setSdk ({ · with lastSyncResult := response.ds }))
    if response.ds ≠ .ok then
      let _ ← (.call (Op.iotclDiscoveryFreeSyncResponse (some response)) : M Unit)
      return none
    return some response

def runHttpSync (B : Build) (cpid uniqueid : Option CStr) : M (Option IotclSyncResponse) := do
  let s ← .get
  let some discovery := s.sdk.discoveryResponse | .stop .fault
  let some cpid := cpid | .stop .fault
  let some uniqueid := uniqueid | .stop .fault
  -- `snprintf` keeps the last byte for the terminator
  let postData := (B.postDataTemplate cpid uniqueid).take (B.postDataMaxLen - 1)
  let answer ← httpsRequest B discovery.host (resourcePathSync discovery.path) (some postData)
  let some json := responseJson answer | return none
  let ret ← (.call (Op.iotclDiscoveryParseSyncResponse json) : M (Option IotclSyncResponse))
  acceptSync ret

/-- The configuration of iotc-c-lib for a device that has been synchronised. -/
def libConfigOf (c : IotConnectClientConfig) (response : IotclSyncResponse) : IotclConfig where
  env := c.env
  cpid := c.cpid
  duid := c.duid
  otaCb := c.otaCb
  cmdCb := c.cmdCb
  msgCb := true
  telemetryDtg := some (response.handle, response.dtg)

/-- The end of `iotconnect_sdk_init`, on the sync response. -/
def startHub (B : Build) (response : IotclSyncResponse) : M UINT := do
  let s ← .get
  let iic : IotConnectIotHubConfig :=
    ⟨response.brokerHost, response.clientId, s.sdk.config.auth, some .onIothubData,
      some .onIotconnectStatus⟩
  let libConfig := libConfigOf s.sdk.config response
  .modify (·.setSdk ({ · with libConfig }))
  let initialised ← (.call (Op.iotclInit libConfig) : M Bool)
  if initialised = false then
    return nxFalse
  iothubClientInit B.adu iic s.sdk.azrtosConfig

def iotconnectSdkInit (B : Build) (ac : IotConnectAzrtosConfig) : M UINT := do
  .modify (·.setSdk ({ · with azrtosConfig := ac, lastSyncResult := .unknownDeviceStatus }))
  let s ← .get
  let _ ← (.call (Op.iotclDiscoveryFreeDiscoveryResponse s.sdk.discoveryResponse) : M Unit)
  let _ ← (.call (Op.iotclDiscoveryFreeSyncResponse s.sdk.syncResponse) : M Unit)
  .modify (·.setSdk ({ · with discoveryResponse := none, syncResponse := none }))
  let discovery ← runHttpDiscovery B s.sdk.config.cpid s.sdk.config.env
  .modify (·.setSdk ({ · with discoveryResponse := discovery }))
  if discovery.isNone then
    return -1
  let sync ← runHttpSync B s.sdk.config.cpid s.sdk.config.duid
  .modify (·.setSdk ({ · with syncResponse := sync }))
  match sync with
  | none => return -2
  | some response => startHub B response

def iotconnectSdkDisconnect : M Unit := iothubClientDisconnect

/-! ## Events -/

/-- `ON_FORCE_SYNC`, `ON_CLOSE`, and the types that are only passed on. -/
inductive IotConnectEventType where
  | onForceSync
  | onClose
  | other (type : Nat)

/-- `on_message_intercept`: whether it gets to `config.msg_cb`, whose call is the last thing it
does. -/
def onMessageIntercept (B : Build) (type : IotConnectEventType) : M Bool := do
  match type with
  | .onForceSync =>
    iotconnectSdkDisconnect
    let s ← .get
    let _ ← (.call (Op.iotclDiscoveryFreeDiscoveryResponse s.sdk.discoveryResponse) : M Unit)
    let _ ← (.call (Op.iotclDiscoveryFreeSyncResponse s.sdk.syncResponse) : M Unit)
    .modify (·.setSdk ({ · with syncResponse := none }))
    let discovery ← runHttpDiscovery B s.sdk.config.cpid s.sdk.config.env
    .modify (·.setSdk ({ · with discoveryResponse := discovery }))
    if discovery.isNone then
      return false
    let sync ← runHttpSync B s.sdk.config.cpid s.sdk.config.duid
    -- the configuration of iotc-c-lib is left as it is
    .modify (·.setSdk ({ · with syncResponse := sync }))
    return sync.isSome
  | .onClose =>
    iotconnectSdkDisconnect
    return true
  | .other _ => return true

end Iotc.Sdk
