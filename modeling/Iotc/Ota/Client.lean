import Iotc.Web.Download

/-!
# The OTA client

The three entry points of `azrtos_ota_fw_client.c`, and `api`, the interface as a whole.
-/

namespace Iotc.Ota

open Iotc.C Iotc.Resume Iotc.Web

variable {B : Build}

/-- Report `status` to the user, if there is a callback, and return it. -/
def rejectFwDownload (userDlCallback : Option Nat) (status : UINT) : M B UINT := do
  match userDlCallback with
  | some cb =>
    let _ ← userDownloadCb cb (.status status)
    return status
  | none => return status

/-- A download call that passed the checks, from the INITIALIZE command on. -/
def acceptFwDownload (fuel : Nat) (r : Option IotConnectHttpRequest) (ad : Nat) (resume : Bool)
    (userDlCallback : Option Nat) : M B UINT := do
  let status ← sendDriver ad { command := .driverInitialize }
  if status ≠ nxSuccess then
    return status
  .modify (·.setOta ({ · with aduDriver := some ad, userDownloadCb := userDlCallback }))
  let status ← iotcDownload fuel r (some .otaFwDownloadHandler) resume
  let s ← .get
  if status = nxSuccess ∧ s.ota.adudr.status = nxSuccess then
    .modify (·.setOta ({ · with firmwareReady := true }))
    return status
  .modify (·.setOta ({ · with aduDriver := none, userDownloadCb := none }))
  return status

def iotcOtaFwDownload (fuel : Nat) (r : Option IotConnectHttpRequest) (ad : Option Nat)
    (resume : Bool) (userDlCallback : Option Nat) : M B UINT := do
  .modify (·.setOta ({ · with firmwareReady := false }))
  let s ← .get
  -- the flag was cleared just above: this check never fires
  if s.ota.firmwareReady then
    rejectFwDownload userDlCallback nxInvalidParameters
  else
    let some ad := ad | rejectFwDownload userDlCallback nxInvalidParameters
    if s.ota.aduDriver.isSome then
      rejectFwDownload userDlCallback nxNotSupported
    else
      acceptFwDownload fuel r ad resume userDlCallback

def iotcOtaFwApply : M B UINT := do
  let s ← .get
  let some ad := s.ota.aduDriver | return nxInvalidParameters
  if s.ota.firmwareReady = false then
    return nxInvalidParameters
  let status ← sendDriver ad { command := .driverInstall }
  if status ≠ nxSuccess then
    .modify (·.setOta ({ · with aduDriver := none, firmwareReady := false }))
    return status
  let status ← sendDriver ad { command := .driverApply }
  .modify (·.setOta ({ · with aduDriver := none, firmwareReady := false }))
  return status

def iotcOtaFwCancel : M B UINT := do
  let s ← .get
  if s.ota.firmwareReady = false then
    return nxInvalidParameters
  .modify (·.setOta ({ · with aduDriver := none, firmwareReady := false }))
  return nxSuccess

/-- A call of the OTA interface with its arguments. -/
inductive OtaCall where
  | download (r : Option IotConnectHttpRequest) (ad : Option Nat) (resume : Bool)
      (userDlCallback : Option Nat)
  | apply
  | cancel

def api (fuel : Nat) : OtaCall → M B UINT
  | .download r ad resume cb => iotcOtaFwDownload fuel r ad resume cb
  | .apply => iotcOtaFwApply
  | .cancel => iotcOtaFwCancel

end Iotc.Ota
