import Iotc.Hub.Rules
import Iotc.Resume.Pool

/-!
# The life of the hub client

The application makes `iothub_client_init` and `iothub_client_disconnect` calls one after the
other; the hub client delivers connection statuses, any number at a time. `hubClient` is
the pool of these calls. `Life` is what they come to: a machine of a few stages that says
what each step does to the flags and to the history. `reach_life` is the refinement:
every reachable configuration of the pool is a state of the machine.
-/

namespace Iotc.Hub

open Iotc.C Iotc.Resume Function
open Iotc.Web (nxSuccess IotConnectAzrtosConfig)

inductive Party where
  | app
  | hub (n : Nat)
  deriving DecidableEq, Repr

/-- Delivery `n` reports a status of the connection number `conn`, which the code is not told:
connections are numbered by the `iothub_client_init` calls. -/
inductive HubCall where
  | init (c : IotConnectIotHubConfig) (azrtosConfig : IotConnectAzrtosConfig)
  | disconnect
  | callback (n conn : Nat) (status : UINT)

def hubClient (adu : Bool) : Iface Party HubCall Op Ans St Unit where
  prog
    | .init c azrtosConfig => do let _ ← iothubClientInit adu c azrtosConfig
    | .disconnect => iothubClientDisconnect
    | .callback _ _ status => connectionStatusCallback status
  party
    | .init .. => .app
    | .disconnect => .app
    | .callback n _ _ => .hub n

abbrev HubCtl : Type := Ctl HubCall Op Ans

abbrev HubAct : Type := Act HubCall Op Ans

abbrev HubHist : Type := Hist HubCall Op Ans

/-! ## Stages -/

/-- What exists while the initialisation waits for `op`. -/
def Op.pending : Op → Phase
  | .nxAzureIotLogInit | .nxAzureIotCreate _ | .nxAzureIotDelete => .absent
  | .nxSecureX509CertificateInitialize (.deviceCertificate ..) => .initialised
  | .nxSecureX509CertificateInitialize _ | .getCryptoConfig _ => .created
  | .nxAzureIotHubClientInitialize .. | .nxAzureIotHubClientDeInitialize => .created
  | _ => .initialised

/-- What exists when `op` is called. -/
def Op.from : Op → Phase
  | .nxAzureIotDelete => .created
  | .nxAzureIotHubClientDeInitialize => .initialised
  | op => op.pending

/-- What exists once `op` is answered. -/
def Op.answered : (op : Op) → Ans op → Phase
  | .nxAzureIotCreate _, a => if a = nxSuccess then .created else .absent
  | .nxAzureIotHubClientInitialize .., a => if a = nxSuccess then .initialised else .created
  | op, _ => op.pending

/-- Where the application is: `setup` inside an initialisation, up to its connect call and after
a failed one; `closing` inside a disconnection, up to its notification. -/
inductive Stage where
  | idle
  | setup (ph : Phase)
  | connecting
  | connected
  | closing (ph : Phase)
  | notifying
  | stopped
  deriving DecidableEq, Repr

def stage : HubCtl → Stage
  | .idle => .idle
  | .waiting (.init ..) .nxAzureIotHubClientConnect => .connecting
  | .waiting (.init ..) op => .setup op.pending
  | .ready (.init ..) ⟨.nxAzureIotHubClientConnect, a⟩ =>
    if a = nxSuccess then .connected else .setup .initialised
  | .ready (.init ..) ⟨op, a⟩ => .setup (op.answered a)
  | .waiting _ (.statusCb ..) => .notifying
  | .ready _ ⟨.statusCb .., _⟩ => .notifying
  | .waiting _ op => .closing op.pending
  | .ready _ ⟨op, _⟩ => .closing op.pending
  | .stopped => .stopped

/-! ## The machine -/

/-- What a delivered status does to the flags. -/
def HubStatics.deliver (h : HubStatics) (status : UINT) : HubStatics :=
  if status ≠ nxSuccess then { h with isConnected := false, isDisconnectRequested := false }
  else { h with isConnected := true }

@[simp] theorem HubStatics.deliver_config (h : HubStatics) (status : UINT) :
    (h.deliver status).config = h.config := by
  unfold deliver
  split <;> rfl

/-- The application's callback that `config.status_cb` leads to. -/
def receiver (s : St) : Option Nat :=
  match s.hub.config.statusCb with
  | some (.app cb) => some cb
  | some .onIotconnectStatus => s.sdk.config.statusCb
  | none => none

theorem receiver_deliver (s : St) (status : UINT) :
    receiver (s.setHub (·.deliver status)) = receiver s := by
  simp [receiver]

def connectionStatus (status : UINT) : IotConnectConnectionStatus :=
  if status ≠ nxSuccess then .mqttDisconnected else .mqttConnected

/-- The notification made by `c`, if it reaches the application. -/
def notice (s : St) (c : HubCall) (status : IotConnectConnectionStatus) : HubHist :=
  (receiver s).toList.map fun cb => .called c (.statusCb cb status)

inductive Life (A : Stage → St → HubHist → HubAct → Prop) (s0 : St) : Stage → St → HubHist →
    Prop where
  | boot : Life A s0 .idle s0 []
  | startInit {s : St} {t : HubHist} {c : IotConnectIotHubConfig} {az : IotConnectAzrtosConfig} :
    Life A s0 .idle s t → A .idle s t (.started (.init c az)) →
    Life A s0 (.setup .absent) (s.setHub ({ · with isConnected := false, config := c }))
      (t ++ [.started (.init c az)])
  | call {s : St} {t : HubHist} {c : IotConnectIotHubConfig} {az : IotConnectAzrtosConfig}
    {op : Op} :
    Life A s0 (.setup op.from) s t → op ≠ .nxAzureIotHubClientConnect →
    Life A s0 (.setup op.pending) s (t ++ [.called (.init c az) op])
  | answer {s : St} {t : HubHist} {c : IotConnectIotHubConfig} {az : IotConnectAzrtosConfig}
    {op : Op}
      {a : Ans op} :
    Life A s0 (.setup op.pending) s t → op ≠ .nxAzureIotHubClientConnect →
    Life A s0 (.setup (op.answered a)) s (t ++ [.answered (.init c az) ⟨op, a⟩])
  | connect {s : St} {t : HubHist} {c : IotConnectIotHubConfig} {az : IotConnectAzrtosConfig} :
    Life A s0 (.setup .initialised) s t →
    Life A s0 .connecting s (t ++ [.called (.init c az) .nxAzureIotHubClientConnect])
  | established {s : St} {t : HubHist} {c : IotConnectIotHubConfig} {az : IotConnectAzrtosConfig} :
    Life A s0 .connecting s t →
    A .connecting s t (.answered (.init c az) ⟨.nxAzureIotHubClientConnect, nxSuccess⟩) →
    Life A s0 .connected s
      (t ++ [.answered (.init c az) ⟨.nxAzureIotHubClientConnect, nxSuccess⟩])
  | refused {s : St} {t : HubHist} {c : IotConnectIotHubConfig} {az : IotConnectAzrtosConfig}
    {a : UINT} :
    Life A s0 .connecting s t → a ≠ nxSuccess →
    A .connecting s t (.answered (.init c az) ⟨.nxAzureIotHubClientConnect, a⟩) →
    Life A s0 (.setup .initialised) s
      (t ++ [.answered (.init c az) ⟨.nxAzureIotHubClientConnect, a⟩])
  | finish {s : St} {t : HubHist} : Life A s0 .connected s t →
    Life A s0 .idle (s.setHub ({ · with isConnected := true })) t
  | giveUp {s : St} {t : HubHist} : Life A s0 (.setup .absent) s t → Life A s0 .idle s t
  | crash {s : St} {t : HubHist} : Life A s0 (.setup .initialised) s t → Life A s0 .stopped s t
  | ignore {s : St} {t : HubHist} : Life A s0 .idle s t → s.hub.isConnected = false →
    Life A s0 .idle s (t ++ [.started .disconnect])
  | close {s : St} {t : HubHist} : Life A s0 .idle s t → s.hub.isConnected = true →
    Life A s0 (.closing .initialised)
      (s.setHub ({ · with isConnected := false, isDisconnectRequested := true }))
      (t ++ [.started .disconnect, .called .disconnect .nxAzureIotHubClientDisconnect])
  | deInitialize {s : St} {t : HubHist} : Life A s0 (.closing .initialised) s t →
    Life A s0 (.closing .created) s (t ++ [.called .disconnect .nxAzureIotHubClientDeInitialize])
  | delete {s : St} {t : HubHist} : Life A s0 (.closing .created) s t →
    Life A s0 (.closing .absent) s (t ++ [.called .disconnect .nxAzureIotDelete])
  | notify {s : St} {t : HubHist} {cb : Nat} : Life A s0 (.closing .absent) s t →
    receiver s = some cb →
    Life A s0 .notifying s (t ++ [.called .disconnect (.statusCb cb .mqttDisconnected)])
  | unnoticed {s : St} {t : HubHist} : Life A s0 (.closing .absent) s t → receiver s = none →
    Life A s0 .idle s t
  | noticed {s : St} {t : HubHist} : Life A s0 .notifying s t → Life A s0 .idle s t
  | deliver {st : Stage} {s : St} {t : HubHist} {n conn : Nat} {status : UINT} :
    Life A s0 st s t → A st s t (.started (.callback n conn status)) →
    Life A s0 st (s.setHub (·.deliver status)) (t ++ .started (.callback n conn status) ::
      notice s (.callback n conn status) (connectionStatus status))
  | reply {st : Stage} {s : St} {t : HubHist} {c : HubCall} {ev : Ev Op Ans} :
    Life A s0 st s t → (∀ cfg az, c ≠ .init cfg az) →
    Life A s0 st s (t ++ [.answered c ev])

/-! ## The refinement -/

section
variable {A : Stage → St → HubHist → HubAct → Prop} {s0 : St} {adu : Bool}

/-- The machine at the stage of the application. -/
def Lives (A : Stage → St → HubHist → HubAct → Prop) (s0 : St) (ctl : Party → HubCtl) (s : St)
    (t : HubHist) : Prop := Life A s0 (stage (ctl .app)) s t

theorem Lives.hub {ctl : Party → HubCtl} {n : Nat} {x : HubCtl} {s : St} {t : HubHist} :
    Lives A s0 (update ctl (.hub n) x) s t ↔ Lives A s0 ctl s t := by
  unfold Lives
  rw [update_of_ne (by simp)]

theorem Lives.app {ctl : Party → HubCtl} {x : HubCtl} {s : St} {t : HubHist} :
    Lives A s0 (update ctl .app x) s t ↔ Life A s0 (stage x) s t := by
  unfold Lives
  rw [update_self]

theorem stage_waiting_init {c : IotConnectIotHubConfig} {az : IotConnectAzrtosConfig} {op : Op}
    (h : op ≠ .nxAzureIotHubClientConnect) :
    stage (.waiting (.init c az) op) = .setup op.pending := by
  cases op <;> first | rfl | exact absurd rfl h

theorem stage_ready_init {c : IotConnectIotHubConfig} {az : IotConnectAzrtosConfig} {op : Op}
    {a : Ans op} (h : op ≠ .nxAzureIotHubClientConnect) :
    stage (.ready (.init c az) ⟨op, a⟩) = .setup (op.answered a) := by
  cases op <;> first | rfl | exact absurd rfl h

theorem Op.from_setup {op : Op} {ph : Phase} (h : op.setup = some ph) : op.from = ph := by
  cases op with
  | nxSecureX509CertificateInitialize cert => cases cert <;> exact Option.some.inj h
  | _ => first | exact Option.some.inj h | cases h

theorem Op.answered_setup {op : Op} {ph : Phase} (h : op.setup = some ph) (a : Ans op) :
    op.answered a = ph := by
  cases op with
  | nxSecureX509CertificateInitialize cert => cases cert <;> exact Option.some.inj h
  | _ => first | exact Option.some.inj h | cases h

/-- A call of the initialisation takes the machine from the stage it is made in to the one its
answer leaves. -/
theorem spec_init_call (c : IotConnectIotHubConfig) (az : IotConnectAzrtosConfig) (op : Op)
    (h : op ≠ .nxAzureIotHubClientConnect) :
    ((hubClient adu).logic (Lives A s0) (.init c az)).Spec
      (fun s γ => Life A s0 (.setup op.from) s γ.2) (.call op)
      fun a s γ => Life A s0 (.setup (op.answered a)) s γ.2 := by
  refine .of_call fun s γ hlife => ⟨?_, fun ctl s t a hJ hctl => ?_⟩
  · exact Lives.app.mpr (stage_waiting_init h ▸ hlife.call h)
  · have hstage : Life A s0 (stage (ctl .app)) s t := hJ
    rw [show ctl .app = _ from hctl, stage_ready_init h] at hstage
    exact hstage

theorem initRules (c : IotConnectIotHubConfig) (az : IotConnectAzrtosConfig) :
    InitRules ((hubClient adu).logic (Lives A s0) (.init c az))
      fun _ ph s γ => Life A s0 (.setup ph) s γ.2 where
  log := spec_init_call c az .nxAzureIotLogInit nofun
  setup op ph n hop _ := by
    have hne : op ≠ .nxAzureIotHubClientConnect := by rintro rfl; cases hop
    refine ((spec_init_call c az op hne).pre fun s γ hlife => ?_).post fun a s γ hlife => ?_
    · rw [Op.from_setup hop]
      exact hlife
    · exact Op.answered_setup hop a ▸ hlife
  create azrtosConfig := by
    refine (spec_init_call c az (.nxAzureIotCreate azrtosConfig) nofun).post fun a s γ hlife => ?_
    by_cases ha : a = nxSuccess
    · subst ha
      exact after_success.mpr hlife
    · rw [Op.answered, if_neg ha] at hlife
      exact (after_failure ha).mpr hlife
  initialise host deviceName crypto := by
    refine (spec_init_call c az (.nxAzureIotHubClientInitialize host deviceName crypto) nofun).post
      fun a s γ hlife => ?_
    by_cases ha : a = nxSuccess
    · subst ha
      exact after_success.mpr hlife
    · rw [Op.answered, if_neg ha] at hlife
      exact (after_failure ha).mpr hlife
  deInitialize := spec_init_call c az .nxAzureIotHubClientDeInitialize nofun
  delete := spec_init_call c az .nxAzureIotDelete nofun
  known _ _ _ h := h
  unknown _ _ _ h := h
  stop _ γ h := Lives.app.mpr h.crash

theorem spec_connectIothub (c : IotConnectIotHubConfig) (az : IotConnectAzrtosConfig)
    (status : UINT) :
    ((hubClient adu).logic (Lives A s0) (.init c az)).Spec
      (fun s γ => Life A s0 (.setup .initialised) s γ.2) (connectIothub adu status)
      fun _ s γ => Life A s0 .idle s γ.2 := by
  refine .bind (Q := fun _ s γ => Life A s0 (.setup .initialised) s γ.2) ?_ fun status => ?_
  · exact .ite (fun _ => spec_init_call c az .nxAzureIotHubClientModelIdSet nofun) fun _ =>
      .pure fun _ _ h => h
  have hconnect : ((hubClient adu).logic (Lives A s0) (.init c az)).Spec
      (fun s γ => Life A s0 (.setup .initialised) s γ.2) (.call Op.nxAzureIotHubClientConnect)
      fun (a : UINT) s γ =>
        Life A s0 (if a = nxSuccess then .connected else .setup .initialised) s γ.2 := by
    refine .of_call fun s γ hlife => ⟨Lives.app.mpr hlife.connect, fun ctl s t a hJ hctl => ?_⟩
    have hstage : Life A s0 (stage (ctl .app)) s t := hJ
    rwa [show ctl .app = _ from hctl] at hstage
  refine .bind hconnect fun connected => .ite (fun hne => ?_) fun hok => ?_
  · rw [if_neg hne]
    refine .bind (spec_init_call c az .nxAzureIotHubClientDeInitialize nofun) fun _ => ?_
    refine .bind (spec_init_call c az .nxAzureIotDelete nofun) fun _ => ?_
    exact .pure fun s γ hlife => hlife.giveUp
  · rw [if_pos (not_not.mp hok)]
    exact .bind (Q := fun _ s γ => Life A s0 .idle s γ.2) (.modify fun s γ hlife => hlife.finish)
      fun _ => .pure fun _ _ h => h

theorem spec_init (c : IotConnectIotHubConfig) (az : IotConnectAzrtosConfig) :
    ((hubClient adu).logic (Lives A s0) (.init c az)).Spec
      (fun s γ => ∃ t, γ.2 = t ++ [.started (.init c az)] ∧ Life A s0 .idle s t ∧
        A .idle s t (.started (.init c az)))
      (iothubClientInit adu c az) fun _ s γ => Life A s0 .idle s γ.2 := by
  refine (initRules c az).iothubClientInit adu c az ?_ (spec_connectIothub c az nxSuccess) ?_
  · rintro s ⟨ctl, _⟩ ⟨t, rfl, hlife, hA⟩
    exact hlife.startInit hA
  · exact fun status s γ _ hlife => hlife.giveUp

/-- A call of the disconnection, each of which is a step of the machine. -/
theorem spec_disconnect_call {o : Op} {P : St → HubHist → Prop}
    (h : ∀ s t, P s t → Life A s0 (stage (.waiting .disconnect o)) s (t ++ [.called .disconnect o]))
    (hready : ∀ a, stage (.ready .disconnect ⟨o, a⟩) = stage (.waiting .disconnect o)) :
    ((hubClient adu).logic (Lives A s0) .disconnect).Spec (fun s γ => P s γ.2) (.call o)
      fun _ s γ => Life A s0 (stage (.waiting .disconnect o)) s γ.2 := by
  refine .of_call fun s γ hP => ⟨Lives.app.mpr (h s γ.2 hP), fun ctl s t a hJ hctl => ?_⟩
  have hstage : Life A s0 (stage (ctl .app)) s t := hJ
  rwa [show ctl .app = _ from hctl, hready] at hstage

/-- A notification either reaches the application or is not made. -/
theorem spec_callStatusCb {L : Logic Op Ans St ((Party → HubCtl) × HubHist)}
    (status : IotConnectConnectionStatus) {P : St → (Party → HubCtl) × HubHist → Prop}
    {R : Unit → St → (Party → HubCtl) × HubHist → Prop}
    (hcall : ∀ cb, L.Spec (fun s γ => receiver s = some cb ∧ P s γ) (.call (.statusCb cb status)) R)
    (hnone : ∀ s γ, receiver s = none → P s γ → R () s γ) :
    L.Spec P (callStatusCb status) R := by
  refine .bind_get_eq fun s1 => ?_
  cases hcb : s1.hub.config.statusCb with
  | none =>
    refine .pure fun s γ hP => hnone s γ ?_ hP.2
    rw [receiver, hP.1, hcb]
  | some target =>
  cases target with
  | app cb =>
    refine (hcall cb).pre fun s γ hP => ⟨?_, hP.2⟩
    rw [receiver, hP.1, hcb]
  | onIotconnectStatus =>
    refine .bind_get_eq fun s2 => ?_
    cases hsdk : s2.sdk.config.statusCb with
    | none =>
      refine .pure fun s γ hP => hnone s γ ?_ hP.2.2
      rw [receiver, hP.2.1, hcb]
      rw [← hP.2.1, hP.1]
      exact hsdk
    | some cb =>
      refine (hcall cb).pre fun s γ hP => ⟨?_, hP.2.2⟩
      rw [receiver, hP.2.1, hcb]
      rw [← hP.2.1, hP.1]
      exact hsdk

theorem spec_disconnect :
    ((hubClient adu).logic (Lives A s0) .disconnect).Spec
      (fun s γ => ∃ t, γ.2 = t ++ [.started .disconnect] ∧ Life A s0 .idle s t)
      iothubClientDisconnect fun _ s γ => Life A s0 .idle s γ.2 := by
  refine .bind_get_eq fun s1 => .ite (fun hconnected => ?_) fun hnot => ?_
  · let closed : St → HubHist → Prop := fun s u => ∃ t s2, u = t ++ [.started .disconnect] ∧
      s = s2.setHub ({ · with isConnected := false, isDisconnectRequested := true }) ∧
      s2.hub.isConnected = true ∧ Life A s0 .idle s2 t
    refine .bind (Q := fun _ s γ => closed s γ.2) (.modify ?_) fun _ => ?_
    · rintro s γ ⟨rfl, t, ht, hlife⟩
      exact ⟨t, s, ht, rfl, hconnected, hlife⟩
    refine .bind (spec_disconnect_call (o := .nxAzureIotHubClientDisconnect) ?_ fun _ => rfl)
      fun _ => ?_
    · rintro s u ⟨t, s2, rfl, rfl, hconnected, hlife⟩
      rw [List.append_assoc]
      exact hlife.close hconnected
    refine .bind (spec_disconnect_call (o := .nxAzureIotHubClientDeInitialize)
      (fun s t hlife => hlife.deInitialize) fun _ => rfl) fun _ => ?_
    refine .bind (spec_disconnect_call (o := .nxAzureIotDelete)
      (fun s t hlife => hlife.delete) fun _ => rfl) fun _ => ?_
    refine spec_callStatusCb _ (fun cb => ?_) fun s γ hnone hlife => hlife.unnoticed hnone
    exact (spec_disconnect_call (o := .statusCb cb .mqttDisconnected)
      (P := fun s t => receiver s = some cb ∧ Life A s0 (.closing .absent) s t)
      (fun s t h => h.2.notify h.1) fun _ => rfl).post fun _ s γ hlife => hlife.noticed
  · refine .pure ?_
    rintro s ⟨ctl, _⟩ ⟨rfl, t, rfl, hlife⟩
    exact hlife.ignore (Bool.eq_false_iff.mpr hnot)

theorem spec_callback (n conn : Nat) (status : UINT) :
    ((hubClient adu).logic (Lives A s0) (.callback n conn status)).Spec
      (fun s γ => ∃ t, γ.2 = t ++ [.started (.callback n conn status)] ∧ Lives A s0 γ.1 s t ∧
        A (stage (γ.1 .app)) s t (.started (.callback n conn status)))
      (connectionStatusCallback status) fun _ s γ => Lives A s0 γ.1 s γ.2 := by
  let delivered : St → (Party → HubCtl) × HubHist → Prop := fun s γ => ∃ t s1,
    γ.2 = t ++ [.started (.callback n conn status)] ∧ s = s1.setHub (·.deliver status) ∧
    Lives A s0 γ.1 s1 t ∧ A (stage (γ.1 .app)) s1 t (.started (.callback n conn status))
  have hnotify : ((hubClient adu).logic (Lives A s0) (.callback n conn status)).Spec delivered
      (callStatusCb (connectionStatus status)) fun _ s γ => Lives A s0 γ.1 s γ.2 := by
    refine spec_callStatusCb _ (fun cb => .of_call ?_) ?_
    · rintro s ⟨ctl, _⟩ ⟨hcb, t, s1, rfl, rfl, hlife, hA⟩
      refine ⟨Lives.hub.mpr ?_, fun ctl s t a hJ _ => hJ⟩
      have h := Life.deliver hlife hA
      rw [receiver_deliver] at hcb
      rw [notice, hcb] at h
      rwa [List.append_assoc]
    · rintro s ⟨ctl, _⟩ hcb ⟨t, s1, rfl, rfl, hlife, hA⟩
      have h := Life.deliver hlife hA
      rw [receiver_deliver] at hcb
      rw [notice, hcb] at h
      exact h
  refine .ite (fun hne => ?_) fun hok => ?_
  · refine .bind (Q := fun _ s γ => ∃ t s1, γ.2 = t ++ [.started (.callback n conn status)] ∧
      s = s1.setHub ({ · with isConnected := false }) ∧ Lives A s0 γ.1 s1 t ∧
      A (stage (γ.1 .app)) s1 t (.started (.callback n conn status))) (.modify ?_) fun _ => ?_
    · rintro s γ ⟨t, ht, hlife, hA⟩
      exact ⟨t, s, ht, rfl, hlife, hA⟩
    refine .bind (Q := fun _ => delivered) (.modify ?_) fun _ => ?_
    · rintro s γ ⟨t, s1, ht, rfl, hlife, hA⟩
      refine ⟨t, s1, ht, ?_, hlife, hA⟩
      obtain ⟨⟨config, isConnected, requested⟩, sdk⟩ := s1
      cases requested <;> simp [St.setHub, HubStatics.deliver, hne]
    · rw [connectionStatus, if_pos hne] at hnotify
      exact hnotify
  · refine .bind (Q := fun _ => delivered) (.modify ?_) fun _ => ?_
    · rintro s γ ⟨t, ht, hlife, hA⟩
      exact ⟨t, s, ht, by simp [St.setHub, HubStatics.deliver, hok], hlife, hA⟩
    · rw [connectionStatus, if_neg hok] at hnotify
      exact hnotify

/-- Every reachable configuration of the pool is a state of the machine. -/
theorem reach_life {g : Cfg Party HubCall Op Ans St Unit}
    (h : Reach (hubClient adu) (fun ctl => A (stage (ctl .app))) (.rest s0) g) :
    Life A s0 (stage (g.ctl .app)) g.st g.hist := by
  refine h.invariant (J := Lives A s0) .boot (fun c => ?_) ?_
  · cases c with
    | init c az =>
      refine .bind ((spec_init c az).pre ?_) fun _ => .pure fun s γ hlife => Lives.app.mpr hlife
      rintro s ⟨ctl, u⟩ ⟨t, ht, hlife, hidle, hA⟩
      have hstage : stage (ctl .app) = .idle := by rw [show ctl .app = _ from hidle]; rfl
      unfold Lives at hlife
      rw [hstage] at hlife hA
      exact ⟨t, ht, hlife, hA⟩
    | disconnect =>
      refine (spec_disconnect.pre ?_).post fun _ s γ hlife => Lives.app.mpr hlife
      rintro s ⟨ctl, u⟩ ⟨t, ht, hlife, hidle, hA⟩
      have hstage : stage (ctl .app) = .idle := by rw [show ctl .app = _ from hidle]; rfl
      unfold Lives at hlife
      rw [hstage] at hlife
      exact ⟨t, ht, hlife⟩
    | callback n conn status =>
      refine ((spec_callback n conn status).pre ?_).post fun _ s γ hlife => Lives.hub.mpr hlife
      rintro s γ ⟨t, ht, hlife, -, hA⟩
      exact ⟨t, ht, hlife, hA⟩
  · intro ctl s t c op a hJ hwait hA
    have hlife : Life A s0 (stage (ctl .app)) s t := hJ
    cases c with
    | callback n conn status => exact Lives.hub.mpr (hlife.reply nofun)
    | disconnect =>
      rw [show ctl .app = _ from hwait] at hlife
      refine Lives.app.mpr ?_
      have hstage : stage (.ready .disconnect ⟨op, a⟩) = stage (.waiting .disconnect op) := by
        cases op <;> rfl
      rw [hstage]
      exact hlife.reply nofun
    | init c az =>
      rw [show ctl .app = _ from hwait] at hlife hA
      refine Lives.app.mpr ?_
      by_cases hop : op = .nxAzureIotHubClientConnect
      · subst hop
        by_cases ha : a = nxSuccess
        · subst ha
          exact hlife.established hA
        · simp only [stage, if_neg ha]
          exact hlife.refused ha hA
      · rw [stage_ready_init hop]
        rw [stage_waiting_init hop] at hlife
        exact hlife.answer hop

end

/-! ## Schedules -/

/-- Every call succeeds. -/
def allGood : (op : Op) → Ans op
  | .getCryptoConfig _ => nxAzureIotTls
  | .getCert _ => some []
  | .getPrivateKey _ => some []
  | .nxAzureIotHubClientTelemetryMessageCreate => (nxSuccess, 0)
  | .nxAzureIotHubClientCloudMessageReceive _ => .noPacket
  | .nxPacketRelease _ => ()
  | .c2dMsgCb _ _ => ()
  | .malloc _ => some 0
  | .free _ => ()
  | .iotclProcessEvent _ => true
  | .statusCb _ _ => ()
  | .iotconnectHttpsRequest _ => (nxSuccess, some (cstr "\x7b\x7d"))
  | .iotclDiscoveryParseDiscoveryResponse _ => some ⟨0, [], []⟩
  | .iotclDiscoveryParseSyncResponse _ => some ⟨1, .ok, [], [], [], []⟩
  | .iotclDiscoveryFreeDiscoveryResponse _ => ()
  | .iotclDiscoveryFreeSyncResponse _ => ()
  | .iotclInit _ => true
  | .nxAzureIotLogInit => nxSuccess
  | .nxAzureIotCreate _ => nxSuccess
  | .nxSecureX509CertificateInitialize _ => nxSuccess
  | .nxAzureIotHubClientInitialize .. => nxSuccess
  | .nxAzureIotHubClientSymmetricKeySet _ => nxSuccess
  | .getAzrtosPrivateKeyType _ => 0
  | .nxAzureIotHubClientDeviceCertSet => nxSuccess
  | .nxAzureIotHubClientTrustedCertAdd _ => nxSuccess
  | .nxAzureIotHubClientConnectionStatusCallbackSet => nxSuccess
  | .nxAzureIotHubClientCloudMessageEnable => nxSuccess
  | .nxAzureIotHubClientPropertiesEnable => nxSuccess
  | .nxAzureIotHubClientModelIdSet => nxSuccess
  | .nxAzureIotHubClientConnect => nxSuccess
  | .nxAzureIotHubClientDisconnect => nxSuccess
  | .nxAzureIotHubClientDeInitialize => nxSuccess
  | .nxAzureIotDelete => nxSuccess
  | .nxAzureIotHubClientTelemetrySend .. => nxSuccess
  | .nxAzureIotHubClientTelemetryMessageDelete _ => nxSuccess

abbrev HubMove : Type := Move Party HubCall Op Ans

/-- The next `n` calls of the world made by `p` succeed. -/
def serve (p : Party) (n : Nat) : List HubMove :=
  (List.replicate n [.answer p allGood, .resume p]).flatten

/-- An initialisation with a symmetric key. -/
def keyInit : HubCall :=
  .init ⟨cstr "hub", cstr "device", .iotcKey (some (cstr "key")), none, some (.app 0)⟩ ⟨1, 2, 3⟩

/-- It makes twelve calls, of which connect is the last. -/
def connected : List HubMove := .start keyInit :: serve .app 12

/-- The hub client reports a status of connection `conn`, and the application is notified. -/
def delivered (conn : Nat) (status : UINT) : List HubMove :=
  .start (.callback 0 conn status) :: serve (.hub 0) 1

end Iotc.Hub
