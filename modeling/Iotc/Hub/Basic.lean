import Iotc.Web.Basic

/-!
# The IoT Hub client and the SDK: data, static variables, external calls

`azrtos_iothub_client.c` and `iotconnect.c` share one program type. Their calls to
Azure IoT, to NetX Secure, to the authentication driver, to iotc-c-lib and to the
application's callbacks are the operations `Op`; `iotconnect_https_request` is one of
them, answered by its status and the text it leaves in its response buffer.
Authentication drivers with their contexts, packets, heap blocks and callbacks are numbered.
-/

namespace Iotc.Hub

open Iotc.C Iotc.Resume
open Iotc.Web (nxSuccess IotConnectAzrtosConfig IotConnectHttpRequest)

def nxNoMapping : UINT := 0x04
def nxOptionError : UINT := 0x0A
def nxAzureIotNoPacket : UINT := 0x20005
def nxWaitForever : ULONG := 0xFFFFFFFF

/-! ## Configurations -/

inductive IotConnectConnectionStatus where
  | undefined
  | mqttConnected
  | mqttDisconnected
  deriving DecidableEq, Repr

/-- The `type` and `data` of an `IotConnectAuth`; `ai` is the authentication driver with its
context. -/
inductive IotConnectAuth where
  | iotcKey (symmetricKey : Option CStr)
  | iotcX509 (ai : Nat)
  | unknown
  deriving DecidableEq, Repr

/-- A connection status callback: the application's own or the SDK's. -/
inductive IotConnectStatusCallback where
  | app (cb : Nat)
  | onIotconnectStatus
  deriving DecidableEq, Repr

/-- A callback for inbound messages: the application's own or the SDK's. -/
inductive IotConnectC2dCallback where
  | app (cb : Nat)
  | onIothubData
  deriving DecidableEq, Repr

structure IotConnectIotHubConfig where
  host : CStr
  deviceName : CStr
  auth : IotConnectAuth
  c2dMsgCb : Option IotConnectC2dCallback
  statusCb : Option IotConnectStatusCallback

structure IotcAzccCryptoConfig where
  cryptoMethods : Nat
  cryptoMethodsLength : Nat
  tlsCiphersuites : Nat
  tlsCiphersuitesLength : Nat
  deriving DecidableEq, Repr

/-- `_nx_azure_iot_tls_supported_crypto` and the tables that go with it. -/
def nxAzureIotTls : IotcAzccCryptoConfig := ⟨0, 0, 0, 0⟩

/-- The certificates initialised by the hub client; the device's comes from its driver. -/
inductive NxSecureX509Cert where
  | rootCaCert
  | rootCaCert2
  | rootCaCert3
  | deviceCertificate (cert key : List UInt8) (keyType : UINT)
  deriving DecidableEq, Repr

inductive IotclSyncResult where
  | ok
  | deviceNotRegistered
  | autoRegister
  | deviceNotFound
  | deviceInactive
  | deviceMoved
  | cpidNotFound
  | unknownDeviceStatus
  | allocationError
  | parsingError
  deriving DecidableEq, Repr

/-- A parsed response lives on the heap at `handle`. -/
structure IotclDiscoveryResponse where
  handle : Nat
  host : CStr
  path : CStr

structure IotclSyncResponse where
  handle : Nat
  ds : IotclSyncResult
  cpid : CStr
  dtg : CStr
  clientId : CStr
  brokerHost : CStr

structure IotConnectClientConfig where
  env : Option CStr
  cpid : Option CStr
  duid : Option CStr
  auth : IotConnectAuth
  otaCb : Option Nat
  cmdCb : Option Nat
  statusCb : Option Nat

/-- `telemetryDtg` points into the sync response at the handle it names; `msgCb` tells that the
message callback is `on_message_intercept`. -/
structure IotclConfig where
  env : Option CStr
  cpid : Option CStr
  duid : Option CStr
  otaCb : Option Nat
  cmdCb : Option Nat
  msgCb : Bool
  telemetryDtg : Option (Nat × CStr)

/-! ## Messages -/

/-- A packet: its pointer, the bytes between its prepend and its append pointer, and those of the
packets that are chained to it by `nx_packet_next`. -/
structure NxPacket where
  ptr : Nat
  data : List UInt8
  next : List (List UInt8)

/-- The bytes of the whole chain. -/
def NxPacket.message (p : NxPacket) : List UInt8 := p.data ++ p.next.flatten

/-- The answers of `nx_azure_iot_hub_client_cloud_message_receive`; it sets the packet pointer where
there is a message. -/
inductive CloudMessage where
  | message (p : NxPacket)
  | noPacket
  | failed (status : UINT) (err : status ≠ nxSuccess ∧ status ≠ nxAzureIotNoPacket)

/-! ## External calls -/

inductive Op where
  | nxAzureIotLogInit
  | nxAzureIotCreate (c : IotConnectAzrtosConfig)
  | nxSecureX509CertificateInitialize (cert : NxSecureX509Cert)
  | nxAzureIotHubClientInitialize (host deviceName : CStr) (crypto : IotcAzccCryptoConfig)
  | nxAzureIotHubClientSymmetricKeySet (key : CStr)
  | getCryptoConfig (ai : Nat)
  | getCert (ai : Nat)
  | getPrivateKey (ai : Nat)
  | getAzrtosPrivateKeyType (ai : Nat)
  | nxAzureIotHubClientDeviceCertSet
  | nxAzureIotHubClientTrustedCertAdd (cert : NxSecureX509Cert)
  | nxAzureIotHubClientConnectionStatusCallbackSet
  | nxAzureIotHubClientCloudMessageEnable
  | nxAzureIotHubClientPropertiesEnable
  | nxAzureIotHubClientModelIdSet
  | nxAzureIotHubClientConnect
  | nxAzureIotHubClientDisconnect
  | nxAzureIotHubClientDeInitialize
  | nxAzureIotDelete
  | nxAzureIotHubClientTelemetryMessageCreate
  | nxAzureIotHubClientTelemetrySend (packet : Nat) (message : CStr)
  | nxAzureIotHubClientTelemetryMessageDelete (packet : Nat)
  | nxAzureIotHubClientCloudMessageReceive (waitTicks : ULONG)
  | nxPacketRelease (packet : Nat)
  | c2dMsgCb (cb : Nat) (message : List UInt8)
  | malloc (size : Nat)
  | free (ptr : Nat)
  | statusCb (cb : Nat) (status : IotConnectConnectionStatus)
  | iotconnectHttpsRequest (req : IotConnectHttpRequest)
  | iotclDiscoveryParseDiscoveryResponse (json : CStr)
  | iotclDiscoveryParseSyncResponse (json : CStr)
  | iotclDiscoveryFreeDiscoveryResponse (response : Option IotclDiscoveryResponse)
  | iotclDiscoveryFreeSyncResponse (response : Option IotclSyncResponse)
  | iotclInit (config : IotclConfig)
  | iotclProcessEvent (event : CStr)

/-- `getCert` and `getPrivateKey` give the bytes when they return 0; a created message is a
packet, whatever the status; the response of a request is the text, if the pointer is set. -/
@[reducible] def Ans : Op → Type
  | .getCryptoConfig _ => IotcAzccCryptoConfig
  | .getCert _ => Option (List UInt8)
  | .getPrivateKey _ => Option (List UInt8)
  | .nxAzureIotHubClientTelemetryMessageCreate => UINT × Nat
  | .nxAzureIotHubClientCloudMessageReceive _ => CloudMessage
  | .nxPacketRelease _ => Unit
  | .c2dMsgCb _ _ => Unit
  | .malloc _ => Option Nat
  | .free _ => Unit
  | .statusCb _ _ => Unit
  | .iotconnectHttpsRequest _ => UINT × Option CStr
  | .iotclDiscoveryParseDiscoveryResponse _ => Option IotclDiscoveryResponse
  | .iotclDiscoveryParseSyncResponse _ => Option IotclSyncResponse
  | .iotclDiscoveryFreeDiscoveryResponse _ => Unit
  | .iotclDiscoveryFreeSyncResponse _ => Unit
  | .iotclInit _ => Bool
  | .iotclProcessEvent _ => Bool
  | _ => UINT

/-! ## Static variables -/

/-- `azrtos_iothub_client.c`. -/
structure HubStatics where
  config : IotConnectIotHubConfig
  isConnected : Bool
  isDisconnectRequested : Bool

/-- `iotconnect.c`. -/
structure SdkStatics where
  discoveryResponse : Option IotclDiscoveryResponse
  syncResponse : Option IotclSyncResponse
  lastSyncResult : IotclSyncResult
  config : IotConnectClientConfig
  libConfig : IotclConfig
  azrtosConfig : IotConnectAzrtosConfig

structure St where
  hub : HubStatics
  sdk : SdkStatics

def HubStatics.init : HubStatics := ⟨⟨[], [], .iotcKey none, none, none⟩, false, false⟩

def SdkStatics.init : SdkStatics where
  discoveryResponse := none
  syncResponse := none
  lastSyncResult := .unknownDeviceStatus
  config := ⟨none, none, none, .iotcKey none, none, none, none⟩
  libConfig := ⟨none, none, none, none, none, false, none⟩
  azrtosConfig := ⟨0, 0, 0⟩

abbrev M (α : Type) : Type := Prog Op Ans St α

def St.setHub (s : St) (f : HubStatics → HubStatics) : St := { s with hub := f s.hub }

def St.setSdk (s : St) (f : SdkStatics → SdkStatics) : St := { s with sdk := f s.sdk }

@[simp] theorem St.setHub_hub (s : St) (f : HubStatics → HubStatics) : (s.setHub f).hub = f s.hub :=
  rfl

@[simp] theorem St.setHub_sdk (s : St) (f : HubStatics → HubStatics) : (s.setHub f).sdk = s.sdk :=
  rfl

@[simp] theorem St.setSdk_hub (s : St) (f : SdkStatics → SdkStatics) : (s.setSdk f).hub = s.hub :=
  rfl

@[simp] theorem St.setSdk_sdk (s : St) (f : SdkStatics → SdkStatics) : (s.setSdk f).sdk = f s.sdk :=
  rfl

end Iotc.Hub
