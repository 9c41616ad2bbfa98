import Iotc.Web.Basic

/-!
# The OTA client's download event handler

`otaFwDownloadHandler` is `ota_fw_download_handler` of `azrtos_ota_fw_client.c`: it turns
download events into commands of the ADU driver and passes them on to the user.
-/

namespace Iotc.Ota

open Iotc.C Iotc.Resume Iotc.Web

variable {B : Build}

def userDownloadCb (cb : Nat) (evt : IotConnectDownloadEvent) : M B Bool :=
  .call (Op.userDownloadCb cb evt)

/-- Send `req` to the driver `ad`; the status it writes stays in `adudr`. -/
def sendDriver (ad : Nat) (req : AduDriverRequest) : M B UINT := do
  let status ← (Prog.call (Op.aduDriver ad req) : M B UINT)
  .modify (·.setOta ({ · with adudr := { req with status } }))
  return status

/-- The same through the static pointer `adu_driver`. -/
def sendAduDriver (req : AduDriverRequest) : M B UINT := do
  let s ← .get
  let some ad := s.ota.aduDriver | .stop .fault
  sendDriver ad req

def preprocessRequest (fileSize : SizeT) : AduDriverRequest :=
  { command := .driverPreprocess, firmwareSize := fileSize }

def writeRequest (dataPtr : List UInt8) (dataSize offset : SizeT) : AduDriverRequest :=
  { command := .driverWrite, firmwareDataPtr := dataPtr, firmwareDataSize := dataSize,
    firmwareDataOffset := offset }

/-- The driver's part in an event: the status of the command it is turned into. -/
def driverCommand (event : IotConnectDownloadEvent) : M B UINT :=
  match event with
  | .fileSize fileSize => sendAduDriver (preprocessRequest fileSize)
  | .data dataPtr dataSize offset _ => sendAduDriver (writeRequest dataPtr dataSize offset)
  | _ => pure nxSuccess

def otaFwDownloadHandler (event : IotConnectDownloadEvent) : M B Bool := do
  let status ← driverCommand event
  if status ≠ nxSuccess then
    return false
  let s ← .get
  match s.ota.userDownloadCb with
  | some cb => userDownloadCb cb event
  | none => return true

end Iotc.Ota
