import Iotc.Hub.Client
import Iotc.Resume.Logic

/-!
# Rules for the initialisation

`iothub_client_init` takes the two static objects from `absent` to `initialised`, and back when a
step fails. `InitRules L X` says that in the logic `L` its calls take the assertions `X` along:
`X course phase` holds in `phase`, on that course of the events so far.
`InitRules.iothubClientInit` is what follows for the function, whatever its last part does.

`HubFree L I` says that the hub client has no part in `I`; every function of
`azrtos_iothub_client.c` then keeps it.
-/

namespace Iotc.Hub

open Iotc.C Iotc.Resume
open Iotc.Web (nxSuccess IotConnectAzrtosConfig)

/-- What exists of the Azure IoT instance and the hub client. -/
inductive Phase where
  | absent
  | created
  | initialised
  deriving DecidableEq, Repr

/-- No step has failed, and then the type of authentication is known to be one of the two; or the
initialisation is to be given up. -/
inductive Course where
  | fine
  | known
  | troubled

/-- The calls of the initialisation that end nothing and create nothing, with their phase. -/
def Op.setup : Op → Option Phase
  | .nxSecureX509CertificateInitialize (.deviceCertificate ..) => some .initialised
  | .nxSecureX509CertificateInitialize _ => some .created
  | .getCryptoConfig _ => some .created
  | .nxAzureIotHubClientSymmetricKeySet _ => some .initialised
  | .getCert _ => some .initialised
  | .getPrivateKey _ => some .initialised
  | .getAzrtosPrivateKeyType _ => some .initialised
  | .nxAzureIotHubClientDeviceCertSet => some .initialised
  | .nxAzureIotHubClientTrustedCertAdd _ => some .initialised
  | .nxAzureIotHubClientConnectionStatusCallbackSet => some .initialised
  | .nxAzureIotHubClientCloudMessageEnable => some .initialised
  | .nxAzureIotHubClientPropertiesEnable => some .initialised
  | _ => none

/-- The answers that report a failure. -/
def fails : (op : Op) → Ans op → Bool
  | .nxAzureIotLogInit, a => a ≠ nxSuccess
  | .nxAzureIotCreate _, a => a ≠ nxSuccess
  | .nxSecureX509CertificateInitialize _, a => a ≠ nxSuccess
  | .nxAzureIotHubClientInitialize .., a => a ≠ nxSuccess
  | .nxAzureIotHubClientSymmetricKeySet _, a => a ≠ nxSuccess
  | .getCryptoConfig _, _ => false
  | .getCert _, a => a.isNone
  | .getPrivateKey _, a => a.isNone
  | .getAzrtosPrivateKeyType _, _ => false
  | .nxAzureIotHubClientDeviceCertSet, a => a ≠ nxSuccess
  | .nxAzureIotHubClientTrustedCertAdd _, a => a ≠ nxSuccess
  | .nxAzureIotHubClientConnectionStatusCallbackSet, a => a ≠ nxSuccess
  | .nxAzureIotHubClientCloudMessageEnable, a => a ≠ nxSuccess
  | .nxAzureIotHubClientPropertiesEnable, a => a ≠ nxSuccess
  | .nxAzureIotHubClientModelIdSet, a => a ≠ nxSuccess
  | .nxAzureIotHubClientConnect, a => a ≠ nxSuccess
  | .nxAzureIotHubClientDisconnect, a => a ≠ nxSuccess
  | .nxAzureIotHubClientDeInitialize, a => a ≠ nxSuccess
  | .nxAzureIotDelete, a => a ≠ nxSuccess
  | .nxAzureIotHubClientTelemetryMessageCreate, a => a.1 ≠ nxSuccess
  | .nxAzureIotHubClientTelemetrySend .., a => a ≠ nxSuccess
  | .nxAzureIotHubClientTelemetryMessageDelete _, a => a ≠ nxSuccess
  | .statusCb .., _ => false
  | .iotconnectHttpsRequest _, a => a.1 ≠ nxSuccess || 0x7B ∉ a.2.getD []
  | .iotclDiscoveryParseDiscoveryResponse _, a => a.isNone
  | .iotclDiscoveryParseSyncResponse _, a => a.all fun r => r.ds ≠ .ok
  | .iotclDiscoveryFreeDiscoveryResponse _, _ => false
  | .iotclDiscoveryFreeSyncResponse _, _ => false
  | .iotclInit _, a => !a
  | .nxAzureIotHubClientCloudMessageReceive _, a => (a matches .failed ..)
  | .nxPacketRelease _, _ => false
  | .c2dMsgCb .., _ => false
  | .malloc _, a => a.isNone
  | .free _, _ => false
  | .iotclProcessEvent _, a => !a

variable {Γ : Type}

/-- What a status stands for: on success the course goes on in `ph`, else there is trouble in
`ph'`. -/
def After (X : Course → Phase → St → Γ → Prop) (n : Course) (ph ph' : Phase) (status : UINT)
    (s : St) (γ : Γ) : Prop := if status = nxSuccess then X n ph s γ else X .troubled ph' s γ

structure InitRules (L : Logic Op Ans St Γ) (X : Course → Phase → St → Γ → Prop) : Prop where
  log : L.Spec (X .fine .absent) (.call Op.nxAzureIotLogInit) fun _ => X .fine .absent
  setup : ∀ op ph n, op.setup = some ph → n ≠ .troubled →
    L.Spec (X n ph) (.call op) fun a => X (if fails op a then .troubled else n) ph
  create : ∀ c, L.Spec (X .fine .absent) (.call (Op.nxAzureIotCreate c))
    (After X .fine .created .absent)
  known : ∀ s γ, s.hub.config.auth ≠ .unknown → X .fine .created s γ → X .known .created s γ
  unknown : ∀ s γ, s.hub.config.auth = .unknown → X .fine .created s γ → X .troubled .created s γ
  initialise : ∀ host deviceName crypto, L.Spec (X .known .created)
    (.call (Op.nxAzureIotHubClientInitialize host deviceName crypto))
    (After X .known .initialised .created)
  deInitialize : L.Spec (X .troubled .initialised) (.call Op.nxAzureIotHubClientDeInitialize)
    fun _ => X .troubled .created
  delete : L.Spec (X .troubled .created) (.call Op.nxAzureIotDelete) fun _ => X .troubled .absent
  stop : ∀ s γ, X .known .initialised s γ → L.stop s γ

section
variable {L : Logic Op Ans St Γ} {X : Course → Phase → St → Γ → Prop} {n : Course}
  {ph ph' : Phase} {P : St → Γ → Prop} {R : UINT → St → Γ → Prop}

theorem after_success {s : St} {γ : Γ} : After X n ph ph' nxSuccess s γ ↔ X n ph s γ := by
  rw [After, if_pos rfl]

theorem after_failure {status : UINT} (h : status ≠ nxSuccess) {s : St} {γ : Γ} :
    After X n ph ph' status s γ ↔ X .troubled ph' s γ := by
  rw [After, if_neg h]

/-- A step that answers by its status. -/
theorem spec_status {p : M UINT} (hp : L.Spec P p fun a =>
    X (if decide (a ≠ nxSuccess) then .troubled else n) ph) :
    L.Spec P p (After X n ph ph) := by
  refine hp.post fun a s γ ha => ?_
  by_cases hok : a = nxSuccess
  · subst hok
    exact after_success.mpr ha
  · exact (after_failure hok).mpr (by simpa [hok] using ha)

/-- A status that is checked: `quit` deals with a failure, `q` goes on after a success. -/
theorem spec_guard {p q : M UINT} {e : UINT → M UINT} (hp : L.Spec P p (After X n ph ph'))
    (hquit : ∀ status, status ≠ nxSuccess → L.Spec (X .troubled ph') (e status) R)
    (hq : L.Spec (X n ph) q R) :
    L.Spec P (do
      let status ← p
      if status ≠ nxSuccess then e status else q) R := by
  refine .bind hp fun status => .ite (fun hne => ?_) fun hok => ?_
  · exact (hquit status hne).pre fun s γ h => (after_failure hne).mp h
  · obtain rfl : status = nxSuccess := not_not.mp hok
    exact hq.pre fun s γ h => after_success.mp h

/-- A status that is returned at once unless it is zero. -/
theorem spec_return {p q : M UINT} (hp : L.Spec P p (After X n ph ph'))
    (hq : L.Spec (X n ph) q R)
    (hR : ∀ status s γ, status ≠ nxSuccess → X .troubled ph' s γ → R status s γ) :
    L.Spec P (do
      let status ← p
      if status ≠ nxSuccess then return status
      q) R :=
  spec_guard (e := fun status => pure status) hp
    (fun status hne => .pure fun s γ h => hR status s γ hne h) hq

end

namespace InitRules

variable {L : Logic Op Ans St Γ} {X : Course → Phase → St → Γ → Prop}

theorem authenticateKey (h : InitRules L X) (symmetricKey : Option CStr) :
    L.Spec (X .known .initialised) (authenticateKey symmetricKey)
      (After X .known .initialised .initialised) := by
  cases symmetricKey with
  | none => exact .stop h.stop
  | some key => exact spec_status (h.setup (.nxAzureIotHubClientSymmetricKeySet key) _ _ rfl nofun)

theorem authenticateX509 (h : InitRules L X) (ai : Nat) :
    L.Spec (X .known .initialised) (authenticateX509 ai)
      (After X .known .initialised .initialised) := by
  have hmapping : ∀ s γ, X .troubled .initialised s γ →
      After X .known .initialised .initialised nxNoMapping s γ := fun _ _ =>
    (after_failure (by decide)).mpr
  refine .bind (h.setup (.getCert ai) _ _ rfl nofun) fun cert => ?_
  cases cert with
  | none => exact .pure hmapping
  | some cert =>
  refine .bind (h.setup (.getPrivateKey ai) _ _ rfl nofun) fun key => ?_
  cases key with
  | none => exact .pure hmapping
  | some key =>
  refine .bind (h.setup (.getAzrtosPrivateKeyType ai) _ _ rfl nofun) fun keyType => ?_
  refine spec_return (spec_status (h.setup
    (.nxSecureX509CertificateInitialize (.deviceCertificate cert key keyType)) _ _ rfl nofun)) ?_ ?_
  · exact spec_status (h.setup .nxAzureIotHubClientDeviceCertSet _ _ rfl nofun)
  · exact fun status s γ hne hX => (after_failure hne).mpr hX

theorem addCertsAndCallbacks (h : InitRules L X) (adu : Bool) :
    L.Spec (X .known .initialised) (addCertsAndCallbacks adu)
      (After X .known .initialised .initialised) := by
  have hreturn : ∀ status s γ, status ≠ nxSuccess → X .troubled .initialised s γ →
      After X .known .initialised .initialised status s γ := fun _ _ _ hne =>
        (after_failure hne).mpr
  refine spec_return (spec_status
    (h.setup (.nxAzureIotHubClientTrustedCertAdd .rootCaCert2) _ _ rfl nofun))
    ?_ hreturn
  refine spec_return (spec_status
    (h.setup (.nxAzureIotHubClientTrustedCertAdd .rootCaCert3) _ _ rfl nofun))
    ?_ hreturn
  refine spec_return
    (spec_status (h.setup .nxAzureIotHubClientConnectionStatusCallbackSet _ _ rfl nofun)) ?_ hreturn
  refine .bind (spec_status (h.setup .nxAzureIotHubClientCloudMessageEnable _ _ rfl nofun))
    fun status => ?_
  refine .ite (fun hne => .pure fun s γ hX => hX) fun hok => ?_
  refine .ite (fun _ => ?_) fun _ => .pure fun s γ hX => hX
  obtain rfl : status = nxSuccess := not_not.mp hok
  exact (spec_status (h.setup .nxAzureIotHubClientPropertiesEnable _ .known rfl nofun)).pre
    fun s γ hX =>
    after_success.mp hX

theorem finishInitialize (h : InitRules L X) (adu : Bool) {authenticate : M UINT}
    (ha : L.Spec (X .known .initialised) authenticate (After X .known .initialised .initialised)) :
    L.Spec (X .known .initialised) (finishInitialize adu authenticate)
      (After X .known .initialised .created) := by
  refine .bind (Q := After X .known .initialised .initialised) ha fun status => ?_
  refine .bind (Q := After X .known .initialised .initialised)
    (.ite (fun hne => .pure fun s γ hX => hX)
    fun hok => ?_) fun status => .ite (fun hne => ?_) fun hok => ?_
  · obtain rfl : status = nxSuccess := not_not.mp hok
    exact (h.addCertsAndCallbacks adu).pre fun s γ hX => after_success.mp hX
  · refine .bind (h.deInitialize.pre fun s γ hX => (after_failure hne).mp hX) fun _ => ?_
    exact .pure fun s γ hX => (after_failure hne).mpr hX
  · obtain rfl : status = nxSuccess := not_not.mp hok
    exact .pure fun s γ hX => after_success.mpr (after_success.mp hX)

theorem driverCrypto (h : InitRules L X) (ai : Nat) :
    L.Spec (X .known .created) (driverCrypto ai) fun _ => X .known .created := by
  have hask : L.Spec (X .known .created) (.call (Op.getCryptoConfig ai)) fun _ =>
      X .known .created :=
    h.setup (.getCryptoConfig ai) _ _ rfl nofun
  exact .bind hask fun _ => .bind hask fun _ => .bind hask fun _ => .bind hask fun _ =>
    .pure fun _ _ hX => hX

/-- `initialize_iothub` leaves the hub client initialised exactly when it returns zero. -/
theorem initializeIothub (h : InitRules L X) (adu : Bool) :
    L.Spec (X .fine .created) (initializeIothub adu) (After X .known .initialised .created) := by
  have hreturn : ∀ status s γ, status ≠ nxSuccess → X .troubled .created s γ →
      After X .known .initialised .created status s γ := fun _ _ _ hne => (after_failure hne).mpr
  refine .bind_get_eq fun s0 => ?_
  have hknown : s0.hub.config.auth ≠ .unknown → ∀ s γ, s = s0 ∧ X .fine .created s γ →
      X .known .created s γ := fun hauth s γ hX => h.known s γ (hX.1 ▸ hauth) hX.2
  obtain ⟨⟨⟨host, deviceName, auth, statusCb⟩, isConnected, requested⟩, sdk⟩ := s0
  cases auth with
  | iotcKey symmetricKey =>
    exact spec_return ((h.initialise _ _ _).pre (hknown nofun))
      (h.finishInitialize adu (h.authenticateKey symmetricKey)) hreturn
  | iotcX509 ai =>
    refine .bind ((h.driverCrypto ai).pre (hknown nofun)) fun crypto => ?_
    exact spec_return (h.initialise _ _ _) (h.finishInitialize adu (h.authenticateX509 ai)) hreturn
  | unknown =>
    refine .pure fun s γ hX => hreturn _ _ _ (by decide) ?_
    obtain ⟨rfl, hX⟩ := hX
    exact h.unknown _ γ rfl hX

/-- `iothub_client_init`, given what its last part does, and what is promised of a failure. -/
theorem iothubClientInit (h : InitRules L X) (adu : Bool) (c : IotConnectIotHubConfig)
    (azrtosConfig : IotConnectAzrtosConfig) {P : St → Γ → Prop} {R : UINT → St → Γ → Prop}
    (hstart : ∀ s γ, P s γ →
      X .fine .absent (s.setHub ({ · with isConnected := false, config := c })) γ)
    (hconnect : L.Spec (X .known .initialised) (connectIothub adu nxSuccess) R)
    (hR : ∀ status s γ, status ≠ nxSuccess → X .troubled .absent s γ → R status s γ) :
    L.Spec P (iothubClientInit adu c azrtosConfig) R := by
  have hquit : ∀ status, status ≠ nxSuccess →
      L.Spec (X .troubled .created) (deleteAndReturn status) R := fun status hne =>
    .bind h.delete fun _ => .pure fun s γ hX => hR status s γ hne hX
  refine .bind (.modify hstart) fun _ => .bind h.log fun _ => ?_
  refine spec_return (h.create azrtosConfig) ?_ hR
  refine spec_guard (spec_status
    (h.setup (.nxSecureX509CertificateInitialize .rootCaCert) _ _ rfl nofun))
    hquit ?_
  refine spec_guard (spec_status
    (h.setup (.nxSecureX509CertificateInitialize .rootCaCert2) _ _ rfl nofun))
    hquit ?_
  refine spec_guard (spec_status
    (h.setup (.nxSecureX509CertificateInitialize .rootCaCert3) _ _ rfl nofun))
    hquit ?_
  refine .bind (h.initializeIothub adu) fun status => .ite (fun hne => ?_) fun hok => ?_
  · exact (hquit status hne).pre fun s γ hX => (after_failure hne).mp hX
  · obtain rfl : status = nxSuccess := not_not.mp hok
    exact hconnect.pre fun s γ hX => after_success.mp hX

end InitRules

/-! ## What the hub client has no part in -/

/-- The calls of the hub client. -/
def Op.ofHub : Op → Bool
  | .iotconnectHttpsRequest _ | .iotclDiscoveryParseDiscoveryResponse _
  | .iotclDiscoveryParseSyncResponse _ | .iotclDiscoveryFreeDiscoveryResponse _
  | .iotclDiscoveryFreeSyncResponse _ | .iotclInit _ | .iotclProcessEvent _ => false
  | _ => true

structure HubFree (L : Logic Op Ans St Γ) (I : St → Γ → Prop) : Prop where
  stop : ∀ s γ, I s γ → L.stop s γ
  call : ∀ op, op.ofHub = true → L.Spec I (.call op) fun _ => I
  set : ∀ s γ f, I s γ → I (s.setHub f) γ

namespace HubFree

variable {L : Logic Op Ans St Γ} {I : St → Γ → Prop}

theorem after_const {n : Course} {ph ph' : Phase} {status : UINT} {s : St} {γ : Γ} (h : I s γ) :
    After (fun _ _ => I) n ph ph' status s γ := by
  unfold After
  split <;> exact h

theorem initRules (h : HubFree L I) : InitRules L fun _ _ => I where
  log := h.call _ rfl
  setup op _ _ hop _ := h.call op (by cases op <;> first | rfl | cases hop)
  create c := (h.call (.nxAzureIotCreate c) rfl).post fun _ _ _ hI => after_const hI
  known _ _ _ hI := hI
  unknown _ _ _ hI := hI
  initialise host deviceName crypto :=
    (h.call (.nxAzureIotHubClientInitialize host deviceName crypto) rfl).post
      fun _ _ _ hI => after_const hI
  deInitialize := h.call _ rfl
  delete := h.call _ rfl
  stop s γ hI := h.stop s γ hI

theorem setHub (h : HubFree L I) (f : HubStatics → HubStatics) :
    L.Spec I (.modify (·.setHub f)) fun _ => I := .modify fun s γ hI => h.set s γ f hI

theorem callStatusCb (h : HubFree L I) (status : IotConnectConnectionStatus) :
    L.Spec I (callStatusCb status) fun _ => I := by
  have hcall : ∀ cb, L.Spec I (.call (.statusCb cb status)) fun _ => I := fun cb =>
    h.call (.statusCb cb status) rfl
  refine .bind_get_any fun s => ?_
  split
  · exact hcall _
  · refine .bind_get_any fun s => ?_
    split
    · exact hcall _
    · exact .pure fun _ _ hI => hI
  · exact .pure fun _ _ hI => hI

theorem connectionStatusCallback (h : HubFree L I) (status : UINT) :
    L.Spec I (connectionStatusCallback status) fun _ => I :=
  .ite (fun _ => .bind (h.setHub _) fun _ => .bind (h.setHub _) fun _ => h.callStatusCb _)
    fun _ => .bind (h.setHub _) fun _ => h.callStatusCb _

theorem iothubClientInit (h : HubFree L I) (adu : Bool) (c : IotConnectIotHubConfig)
    (azrtosConfig : IotConnectAzrtosConfig) :
    L.Spec I (iothubClientInit adu c azrtosConfig) fun _ => I := by
  have hconnect : L.Spec I (connectIothub adu nxSuccess) fun _ => I := by
    refine .bind (Q := fun _ => I) ?_ fun status => ?_
    · exact .ite (fun _ => h.call _ rfl) fun _ => .pure fun _ _ hI => hI
    refine .bind (h.call .nxAzureIotHubClientConnect rfl) fun connected => .ite (fun _ => ?_)
      fun _ => ?_
    · exact .bind (h.call .nxAzureIotHubClientDeInitialize rfl) fun _ =>
        .bind (h.call .nxAzureIotDelete rfl) fun _ => .pure fun _ _ hI => hI
    · exact .bind (h.setHub _) fun _ => .pure fun _ _ hI => hI
  exact h.initRules.iothubClientInit adu c azrtosConfig (fun s γ hI => h.set s γ _ hI) hconnect
    fun _ _ _ _ hI => hI

theorem iothubClientDisconnect (h : HubFree L I) : L.Spec I iothubClientDisconnect fun _ => I := by
  refine .bind_get_any fun s => .ite (fun _ => ?_) fun _ => .pure fun _ _ hI => hI
  refine .bind (h.setHub _) fun _ => .bind (h.call .nxAzureIotHubClientDisconnect rfl) fun _ => ?_
  refine .bind (h.call .nxAzureIotHubClientDeInitialize rfl) fun _ => ?_
  exact .bind (h.call .nxAzureIotDelete rfl) fun _ => h.callStatusCb _

end HubFree

end Iotc.Hub
