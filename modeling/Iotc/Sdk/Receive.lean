import Iotc.Hub.Lifecycle
import Iotc.Resume.Hoare
import Iotc.Sdk.Rules

/-!
# Cloud messages

`iothub_c2d_receive` hands each message it receives to the callback and then releases its packet.
The callback may call back: it may disconnect, and `on_message_intercept` does so for the SDK. The
loop survives that, and every packet is released. But the length of a message is taken from the
pointers of its first packet, so a message that comes in several is cut short; and the copy that
`on_iothub_data` makes for iotc-c-lib ends at the first NUL (`receive_iff`).
-/

namespace Iotc.Sdk

open Iotc.C Iotc.Resume Iotc.Hub
open Iotc.Web (nxSuccess)

/-! ## Callbacks -/

/-- What is called from inside a callback. -/
inductive CallbackCall where
  | disconnect
  | send (message : CStr)
  | onMessageIntercept (type : IotConnectEventType)

def callbackApi (B : Build) : CallbackCall → M Unit
  | .disconnect => iotconnectSdkDisconnect
  | .send message => do let _ ← iothubSendMessage message
  | .onMessageIntercept type => do let _ ← onMessageIntercept B type

/-- The calls that run the application's code. -/
def callsBack : Op → Bool
  | .c2dMsgCb .. | .iotclProcessEvent _ | .statusCb .. => true
  | _ => false

/-- The settings with which ON_FORCE_SYNC does not fault. -/
def Configured (B : Build) (c : IotConnectClientConfig) : Prop :=
  Discoverable B c.cpid c.env ∧ c.duid.isSome

/-! ## What a run says of its messages -/

/-- The packet of a message that was received. -/
def arrival : Ev Op Ans → Option NxPacket
  | ⟨.nxAzureIotHubClientCloudMessageReceive _, .message p⟩ => some p
  | _ => none

/-- The message that a callback of the application or iotc-c-lib was given. -/
def delivery : Ev Op Ans → Option (List UInt8)
  | ⟨.c2dMsgCb _ message, _⟩ => some message
  | ⟨.iotclProcessEvent event, _⟩ => some event
  | _ => none

def release : Ev Op Ans → Option Nat
  | ⟨.nxPacketRelease packet, _⟩ => some packet
  | _ => none

def isReceive : Op → Bool
  | .nxAzureIotHubClientCloudMessageReceive _ => true
  | _ => false

/-- A receive that failed. -/
def receiveFailed : Ev Op Ans → Bool
  | ⟨.nxAzureIotHubClientCloudMessageReceive _, .failed _ _⟩ => true
  | _ => false

def disconnects : Op → Bool
  | .nxAzureIotHubClientDisconnect => true
  | _ => false

/-- Each message that was received has been given once, whole and in order. -/
def AllGiven (t : Tr Op Ans) : Prop :=
  t.filterMap delivery = (t.filterMap arrival).map NxPacket.message

/-- Each packet that was received has been released once. -/
def AllReleased (t : Tr Op Ans) : Prop :=
  t.filterMap release = (t.filterMap arrival).map NxPacket.ptr

/-- The loop is to go on, the client was connected and has not been disconnected, and no receive has
failed. -/
def GoesOn (loopForever connected : Bool) (t : Tr Op Ans) : Prop :=
  loopForever = true ∧ connected = true ∧
    ∀ ev ∈ t, receiveFailed ev = false ∧ disconnects ev.1 = false

/-- Each step is in its place: a message is received first or when the loop goes on, and what came
before has been dealt with; the one given is the message that has been received but not given; its
packet is released after that. -/
def InPlace (loopForever connected : Bool) (t : Tr Op Ans) : Ev Op Ans → Prop
  | ⟨.nxAzureIotHubClientCloudMessageReceive _, _⟩ => AllGiven t ∧ AllReleased t ∧
      ((∀ ev ∈ t, isReceive ev.1 = false) ∨ GoesOn loopForever connected t)
  | ⟨.c2dMsgCb cb message, a⟩ => AllGiven (t ++ [⟨.c2dMsgCb cb message, a⟩])
  | ⟨.iotclProcessEvent event, a⟩ => AllGiven (t ++ [⟨.iotclProcessEvent event, a⟩])
  | ⟨.nxPacketRelease packet, a⟩ =>
    AllGiven t ∧ AllReleased (t ++ [⟨.nxPacketRelease packet, a⟩])
  | _ => True

/-- Messages arrive whole and packets are returned, and the loop ends when it should: at once, or
at the first receive that fails or once the client is not connected. -/
structure ArrivesWhole (loopForever connected : Bool) (o : Out Op Ans St UINT) : Prop where
  inPlace : Along (InPlace loopForever connected) [] o.tr
  given : AllGiven o.tr
  released : AllReleased o.tr
  ends : o.res.isOk = true ↔ (loopForever = true →
    (∃ ev ∈ o.tr, receiveFailed ev = true) ∨ o.st.hub.isConnected = false)

def outOfMemory : Ev Op Ans → Bool
  | ⟨.malloc _, none⟩ => true
  | _ => false

/-- The first packet of a message holds all of it, the text for iotc-c-lib has no NUL, and there is
memory for its copy. -/
def Unbroken (cb : IotConnectC2dCallback) (ev : Ev Op Ans) : Prop :=
  (∀ p ∈ arrival ev, p.next.flatten = [] ∧ (cb = .onIothubData → 0 ∉ p.data)) ∧
    outOfMemory ev = false

instance (cb : IotConnectC2dCallback) (ev : Ev Op Ans) : Decidable (Unbroken cb ev) :=
  inferInstanceAs (Decidable (_ ∧ _))

/-! ## Inside a callback -/

/-- The calls of the loop and of its callbacks. -/
def ofReceive : Op → Bool
  | .nxAzureIotHubClientCloudMessageReceive _ | .nxPacketRelease _ | .c2dMsgCb .. => true
  | .malloc _ | .free _ | .iotclProcessEvent _ => true
  | _ => false

/-- What calls from inside a callback, with the events `v`, make of the state `s0`: they keep the
settings, take no part in the receiving, and may end the connection but not make one. -/
structure Inside (c : IotConnectClientConfig) (s0 : St) (v : Tr Op Ans) (s : St) : Prop where
  foreign : ∀ ev ∈ v, ofReceive ev.1 = false
  sdk : s.sdk.config = c
  hub : s.hub.config = s0.hub.config
  connected : s.hub.isConnected = true →
    s0.hub.isConnected = true ∧ ∀ ev ∈ v, disconnects ev.1 = false

def InsideOf (c : IotConnectClientConfig) (i : St × Tr Op Ans) (s : St) (t : Tr Op Ans) : Prop :=
  ∃ v, t = i.2 ++ v ∧ Inside c i.1 v s

abbrev anyEvent (_ : Tr Op Ans) (_ : Ev Op Ans) : Prop := True

section
variable {c : IotConnectClientConfig} {i : St × Tr Op Ans} {s : St} {t : Tr Op Ans} {B : Build}

theorem InsideOf.refl (h : s.sdk.config = c) : InsideOf c (s, t) s t :=
  ⟨[], (List.append_nil t).symm, List.forall_mem_nil _, h, rfl, fun h => ⟨h, List.forall_mem_nil _⟩⟩

theorem InsideOf.snoc {op : Op} {a : Ans op} (h : InsideOf c i s t) (hop : ofReceive op = false)
    (hdisc : disconnects op = true → s.hub.isConnected = false) :
    InsideOf c i s (t ++ [⟨op, a⟩]) := by
  obtain ⟨v, rfl, hforeign, hsdk, hhub, hconn⟩ := h
  refine ⟨v ++ [⟨op, a⟩], List.append_assoc .., ?_, hsdk, hhub, fun hc => ⟨(hconn hc).1, ?_⟩⟩
  · intro ev hev
    rcases List.mem_append.mp hev with hev | hev
    · exact hforeign ev hev
    · rwa [List.mem_singleton.mp hev]
  · intro ev hev
    rcases List.mem_append.mp hev with hev | hev
    · exact (hconn hc).2 ev hev
    · rw [List.mem_singleton.mp hev]
      exact Bool.eq_false_iff.mpr fun hd => Bool.false_ne_true ((hdisc hd).symm.trans hc)

theorem InsideOf.state {s' : St} (h : InsideOf c i s t) (hsdk : s'.sdk.config = s.sdk.config)
    (hhub : s'.hub.config = s.hub.config)
    (hconn : s'.hub.isConnected = true → s.hub.isConnected = true) : InsideOf c i s' t := by
  obtain ⟨v, ht, hv⟩ := h
  exact ⟨v, ht, hv.foreign, hsdk.trans hv.sdk, hhub.trans hv.hub, fun hc => hv.connected (hconn hc)⟩

variable {W : World Op Ans St} {E : St → Tr Op Ans → Prop}
  (hlets : ∀ op i, W.Lets anyEvent E op (InsideOf c i) (InsideOf c i))

theorem inside_setSdk {f : SdkStatics → SdkStatics} (hf : ∀ sdk, (f sdk).config = sdk.config) :
    Triple W anyEvent E (InsideOf c i) (.modify (·.setSdk f)) fun _ => InsideOf c i :=
  .modify fun s _ h => h.state (hf s.sdk) rfl id

include hlets

theorem inside_call {op : Op} (hop : ofReceive op = false) (hdisc : disconnects op = false) :
    Triple W anyEvent E (InsideOf c i) (.call op) fun _ => InsideOf c i :=
  .call (hlets op i) fun _ _ _ h _ => h.snoc hop fun hd => absurd (hd.symm.trans hdisc) nofun

theorem inside_callStatusCb (status : IotConnectConnectionStatus) :
    Triple W anyEvent E (InsideOf c i) (callStatusCb status) fun _ => InsideOf c i := by
  refine .bind_get_any fun s => ?_
  split
  · exact inside_call hlets rfl rfl
  · refine .bind_get_any fun s => ?_
    split
    · exact inside_call hlets rfl rfl
    · exact .pure fun _ _ h => h
  · exact .pure fun _ _ h => h

theorem inside_send (message : CStr) :
    Triple W anyEvent E (InsideOf c i) (iothubSendMessage message) fun _ => InsideOf c i := by
  refine .bind (inside_call hlets rfl rfl) fun created => ?_
  refine .ite (fun _ => .pure fun _ _ h => h) fun _ => ?_
  refine .bind (inside_call hlets rfl rfl) fun sent => .ite (fun _ => ?_) fun _ => ?_
  · exact .bind (inside_call hlets rfl rfl) fun _ => .pure fun _ _ h => h
  · exact .pure fun _ _ h => h

/-- The flag goes down before the connection does. -/
theorem inside_disconnect (hquiet : ∀ op, callsBack op = false → W.Quiet op) :
    Triple W anyEvent E (InsideOf c i) iothubClientDisconnect fun _ => InsideOf c i := by
  refine .bind_get_any fun s => .ite (fun _ => ?_) fun _ => .pure fun _ _ h => h
  refine .bind (Q := fun _ s t => InsideOf c i s t ∧ s.hub.isConnected = false)
    (.modify fun s t h => ⟨h.state rfl rfl nofun, rfl⟩) fun _ => ?_
  refine .bind (Q := fun _ => InsideOf c i)
    (.call_quiet (hquiet .nxAzureIotHubClientDisconnect rfl) fun s t a h _ =>
      h.1.snoc rfl fun _ => h.2) fun _ => ?_
  refine .bind (inside_call hlets rfl rfl) fun _ => .bind (inside_call hlets rfl rfl) fun _ => ?_
  exact inside_callStatusCb hlets _

theorem inside_httpsRequest (host resource : CStr) (payload : Option CStr) :
    Triple W anyEvent E (InsideOf c i) (httpsRequest B host resource payload)
      fun _ => InsideOf c i := by
  refine spec_httpsRequest (fun req => ?_) host resource payload
  exact inside_call hlets rfl rfl

theorem inside_runHttpDiscovery {cpid env : Option CStr} (h : Discoverable B cpid env) :
    Triple W anyEvent E (InsideOf c i) (runHttpDiscovery B cpid env) fun _ => InsideOf c i := by
  refine spec_runHttpDiscovery (fun hnot => absurd h hnot)
    (fun _ _ _ _ => inside_httpsRequest hlets _ _ _) (fun _ _ _ _ h => h) fun _ _ _ => ?_
  exact inside_call hlets rfl rfl

theorem inside_acceptSync (ret : Option IotclSyncResponse) :
    Triple W anyEvent E (InsideOf c i) (acceptSync ret) fun _ => InsideOf c i := by
  refine spec_acceptSync (inside_setSdk fun _ => rfl) fun r => ?_
  exact inside_call hlets rfl rfl

theorem inside_runHttpSync {cpid uniqueid : Option CStr} (hcpid : cpid.isSome)
    (huniqueid : uniqueid.isSome) :
    Triple W anyEvent E (fun s t => InsideOf c i s t ∧ s.sdk.discoveryResponse.isSome)
      (runHttpSync B cpid uniqueid) fun _ => InsideOf c i := by
  refine spec_runHttpSync (Q := fun _ => InsideOf c i) (fun _ _ h => .inr ⟨h.2, hcpid, huniqueid⟩)
    (fun _ _ _ _ _ _ _ => ?_) (fun _ _ _ _ h => h) (fun _ _ _ => ?_) (inside_acceptSync hlets)
  · exact (inside_httpsRequest hlets _ _ _).pre fun _ _ h => h.2.1
  · exact inside_call hlets rfl rfl

theorem inside_forceSync (hquiet : ∀ op, callsBack op = false → W.Quiet op)
    (hc : Configured B c) :
    Triple W anyEvent E (InsideOf c i) (onMessageIntercept B .onForceSync)
      fun _ => InsideOf c i := by
  refine .bind (inside_disconnect hlets hquiet) fun _ => ?_
  refine .bind_get (φ := fun s => s.sdk.config = c) (fun _ _ ⟨_, _, h⟩ => h.sdk) fun s hs => ?_
  refine .bind (inside_call hlets rfl rfl) fun _ => .bind (inside_call hlets rfl rfl) fun _ => ?_
  refine .bind (inside_setSdk fun _ => rfl) fun _ => ?_
  rw [hs]
  refine .bind (inside_runHttpDiscovery hlets hc.1) fun discovery => ?_
  refine .bind (Q := fun _ s t => InsideOf c i s t ∧ s.sdk.discoveryResponse = discovery)
    (.modify fun _ _ h => ⟨h.state rfl rfl id, rfl⟩) fun _ => ?_
  refine .ite (fun _ => .pure fun _ _ h => h.1) fun hsome => ?_
  obtain ⟨cpid, env, hcpid, -⟩ := hc.1
  refine .bind ((inside_runHttpSync hlets (by rw [hcpid]; rfl) hc.2).pre fun s t h => ⟨h.1, ?_⟩)
    fun sync => .bind (inside_setSdk fun _ => rfl) fun _ => .pure fun _ _ h => h
  rw [h.2]
  exact Option.isSome_iff_ne_none.mpr fun hnone => hsome (by rw [hnone]; rfl)

/-- A call from inside a callback. -/
theorem inside_callbackApi (hquiet : ∀ op, callsBack op = false → W.Quiet op) {k : CallbackCall}
    (hk : k = .onMessageIntercept .onForceSync → Configured B c) :
    Triple W anyEvent E (InsideOf c i) (callbackApi B k) fun _ => InsideOf c i := by
  cases k with
  | disconnect => exact inside_disconnect hlets hquiet
  | send message => exact .bind (inside_send hlets message) fun _ => .pure fun _ _ h => h
  | onMessageIntercept type =>
    refine .bind ?_ fun _ => .pure fun _ _ h => h
    cases type with
    | onForceSync => exact inside_forceSync hlets hquiet (hk rfl)
    | onClose => exact .bind (inside_disconnect hlets hquiet) fun _ => .pure fun _ _ h => h
    | other type => exact .pure fun _ _ h => h

end

/-! ## One turn of the loop -/

/-- The text of `data` that is given in the end. -/
def textOf : IotConnectC2dCallback → List UInt8 → List UInt8
  | .app _, data => data
  | .onIothubData, data => data.takeWhile (· ≠ 0)

/-- The events of a callback, which leaves the state `s`. -/
inductive Gives (c : IotConnectClientConfig) (s0 : St) :
    IotConnectC2dCallback → List UInt8 → Tr Op Ans → St → Prop where
  | app {cb : Nat} {data : List UInt8} {v : Tr Op Ans} {s : St} : Inside c s0 v s →
    Gives c s0 (.app cb) data (v ++ [⟨.c2dMsgCb cb data, ()⟩]) s
  | onIothubData {size str : Nat} {data : List UInt8} {v : Tr Op Ans} {processed : Bool} {s : St} :
    Inside c s0 v s → Gives c s0 .onIothubData data
      ([⟨.malloc size, some str⟩] ++ v ++
        [⟨.iotclProcessEvent (data.takeWhile (· ≠ 0)), processed⟩, ⟨.free str, ()⟩]) s

/-- The events of a turn, its status, and the state it leaves. -/
inductive Turn (c : IotConnectClientConfig) (cb : IotConnectC2dCallback) (s0 : St) :
    Tr Op Ans → UINT → St → Prop where
  | failed {ticks : ULONG} {status : UINT}
    {err : status ≠ nxSuccess ∧ status ≠ nxAzureIotNoPacket} :
    Turn c cb s0 [⟨.nxAzureIotHubClientCloudMessageReceive ticks, .failed status err⟩] status s0
  | noPacket {ticks : ULONG} :
    Turn c cb s0 [⟨.nxAzureIotHubClientCloudMessageReceive ticks, .noPacket⟩] nxAzureIotNoPacket s0
  | message {ticks : ULONG} {p : NxPacket} {v : Tr Op Ans} {s : St} : Gives c s0 cb p.data v s →
    Turn c cb s0 ([⟨.nxAzureIotHubClientCloudMessageReceive ticks, .message p⟩] ++ v ++
      [⟨.nxPacketRelease p.ptr, ()⟩]) nxSuccess s

/-- There is no memory for the copy of a message. -/
def NoMemory (cb : IotConnectC2dCallback) (t0 : Tr Op Ans) (_ : St) (t : Tr Op Ans) : Prop :=
  cb = .onIothubData ∧ ∃ ticks p size, t = t0 ++
    [⟨.nxAzureIotHubClientCloudMessageReceive ticks, .message p⟩, ⟨.malloc size, none⟩]

section
variable {c : IotConnectClientConfig} {cb : IotConnectC2dCallback} {W : World Op Ans St}
  {t0 : Tr Op Ans} {s0 : St}

/-- The events after `t0`, and what they lead to. -/
def Then {α : Type} (t0 : Tr Op Ans) (R : Tr Op Ans → α → St → Prop) (a : α) (s : St)
    (t : Tr Op Ans) : Prop := ∃ v, t = t0 ++ v ∧ R v a s

theorem spec_onIothubData (hquiet : ∀ op, callsBack op = false → W.Quiet op)
    (hlets : ∀ op i, W.Lets anyEvent (NoMemory .onIothubData t0) op (InsideOf c i) (InsideOf c i))
    (hsdk : s0.sdk.config = c) {t1 : Tr Op Ans} {ticks : ULONG} {p : NxPacket}
    (ht1 : t1 = t0 ++ [⟨.nxAzureIotHubClientCloudMessageReceive ticks, .message p⟩])
    (data : List UInt8) :
    Triple W anyEvent (NoMemory .onIothubData t0) (fun s t => s = s0 ∧ t = t1) (onIothubData data)
      (Then t1 fun v _ => Gives c s0 .onIothubData data v) := by
  refine .bind (.call_quiet (Q := fun block s t => s = s0 ∧
    t = t1 ++ [⟨.malloc (data.length + 1), block⟩]) (hquiet (.malloc _) rfl) ?_) fun block => ?_
  · rintro s t block ⟨rfl, rfl⟩ _
    exact ⟨rfl, rfl⟩
  cases block with
  | none =>
    refine .stop fun s t h => ⟨rfl, ticks, p, data.length + 1, ?_⟩
    rw [h.2, ht1, List.append_assoc]
    rfl
  | some str =>
    have hprocess := Logic.Spec.call (A := anyEvent)
      (hlets (.iotclProcessEvent (data.takeWhile (· ≠ 0)))
        (s0, t1 ++ [⟨.malloc (data.length + 1), some str⟩]))
      (Q := fun processed s t => ∃ v, t = t1 ++ [⟨.malloc (data.length + 1), some str⟩] ++ v ++
        [⟨.iotclProcessEvent (data.takeWhile (· ≠ 0)), processed⟩] ∧ Inside c s0 v s)
      fun s t processed ⟨v, ht, hv⟩ _ => ⟨v, by rw [ht], hv⟩
    refine .bind (hprocess.pre ?_) fun processed => ?_
    · rintro s t ⟨rfl, rfl⟩
      exact .refl hsdk
    refine .call_quiet (hquiet (.free str) rfl) fun s t a ⟨v, ht, hv⟩ _ => ?_
    have hgives : Gives c s0 .onIothubData data ([⟨.malloc (data.length + 1), some str⟩] ++ v ++
      [⟨.iotclProcessEvent (data.takeWhile (· ≠ 0)), processed⟩, ⟨.free str, ()⟩]) s :=
      .onIothubData hv
    refine ⟨_, ?_, hgives⟩
    rw [ht]
    simp only [List.append_assoc]
    rfl

theorem spec_callC2dMsgCb (hquiet : ∀ op, callsBack op = false → W.Quiet op)
    (hlets : ∀ op i, W.Lets anyEvent (NoMemory cb t0) op (InsideOf c i) (InsideOf c i))
    (hcb : s0.hub.config.c2dMsgCb = some cb) (hsdk : s0.sdk.config = c) {t1 : Tr Op Ans}
    {ticks : ULONG} {p : NxPacket}
    (ht1 : t1 = t0 ++ [⟨.nxAzureIotHubClientCloudMessageReceive ticks, .message p⟩])
    (data : List UInt8) :
    Triple W anyEvent (NoMemory cb t0) (fun s t => s = s0 ∧ t = t1) (callC2dMsgCb data)
      (Then t1 fun v _ => Gives c s0 cb data v) := by
  refine .bind_get (φ := (· = s0)) (fun _ _ h => h.1) fun s hs => ?_
  subst hs
  rw [hcb]
  cases cb with
  | app cb =>
    have hcall := Logic.Spec.call (A := anyEvent) (hlets (.c2dMsgCb cb data) (s, t1))
      (Q := Then t1 fun v _ => Gives c s (.app cb) data v)
      fun s' t a ⟨v, ht, hv⟩ _ => ⟨_, by rw [ht, List.append_assoc], .app hv⟩
    refine hcall.pre ?_
    rintro _ _ ⟨rfl, rfl⟩
    exact .refl hsdk
  | onIothubData => exact spec_onIothubData hquiet hlets hsdk ht1 data

theorem spec_receiveMessage (hquiet : ∀ op, callsBack op = false → W.Quiet op)
    (hlets : ∀ op i, W.Lets anyEvent (NoMemory cb t0) op (InsideOf c i) (InsideOf c i))
    (hcb : s0.hub.config.c2dMsgCb = some cb) (hsdk : s0.sdk.config = c) (ticks : ULONG) :
    Triple W anyEvent (NoMemory cb t0) (fun s t => s = s0 ∧ t = t0) (receiveMessage ticks)
      (Then t0 (Turn c cb s0)) := by
  refine .bind (.call_quiet (Q := fun received s t => s = s0 ∧
    t = t0 ++ [⟨.nxAzureIotHubClientCloudMessageReceive ticks, received⟩])
    (hquiet (.nxAzureIotHubClientCloudMessageReceive _) rfl) ?_) fun received => ?_
  · rintro s t received ⟨rfl, rfl⟩ _
    exact ⟨rfl, rfl⟩
  cases received with
  | failed status err =>
    refine .pure ?_
    rintro s t ⟨rfl, rfl⟩
    exact ⟨_, rfl, .failed⟩
  | noPacket =>
    refine .pure ?_
    rintro s t ⟨rfl, rfl⟩
    exact ⟨_, rfl, .noPacket⟩
  | message p =>
    refine .bind (spec_callC2dMsgCb hquiet hlets hcb hsdk rfl p.data) fun _ => ?_
    refine .bind (Q := Then t0 fun v _ => Turn c cb s0 v nxSuccess)
      (.call_quiet (hquiet (.nxPacketRelease p.ptr) rfl) ?_) fun _ => .pure fun _ _ h => h
    rintro s t a ⟨v, ht, hv⟩ _
    have hturn : Turn c cb s0 ([⟨.nxAzureIotHubClientCloudMessageReceive ticks, .message p⟩] ++ v ++
      [⟨.nxPacketRelease p.ptr, ()⟩]) nxSuccess s := .message hv
    refine ⟨_, ?_, hturn⟩
    rw [ht]
    simp only [List.append_assoc]

end

/-! ## What a turn does to the messages -/

section
variable {c : IotConnectClientConfig} {cb : IotConnectC2dCallback} {s0 s : St} {t v : Tr Op Ans}
  {loopForever connected : Bool}

theorem Inside.filterMap {δ : Type} {f : Ev Op Ans → Option δ}
    (hf : ∀ ev, ofReceive ev.1 = false → f ev = none) (h : Inside c s0 v s) :
    v.filterMap f = [] :=
  List.filterMap_eq_nil_iff.mpr fun ev hev => hf ev (h.foreign ev hev)

theorem arrival_foreign (ev : Ev Op Ans) (h : ofReceive ev.1 = false) : arrival ev = none := by
  obtain ⟨op, a⟩ := ev
  cases op <;> first | rfl | cases h

theorem delivery_foreign (ev : Ev Op Ans) (h : ofReceive ev.1 = false) : delivery ev = none := by
  obtain ⟨op, a⟩ := ev
  cases op <;> first | rfl | cases h

theorem release_foreign (ev : Ev Op Ans) (h : ofReceive ev.1 = false) : release ev = none := by
  obtain ⟨op, a⟩ := ev
  cases op <;> first | rfl | cases h

theorem inPlace_foreign (ev : Ev Op Ans) (h : ofReceive ev.1 = false) :
    InPlace loopForever connected t ev := by
  obtain ⟨op, a⟩ := ev
  cases op <;> trivial

theorem outOfMemory_foreign (ev : Ev Op Ans) (h : ofReceive ev.1 = false) :
    outOfMemory ev = false := by
  obtain ⟨op, a⟩ := ev
  cases op <;> first | rfl | cases h

theorem Unbroken.of_none {ev : Ev Op Ans} (h : arrival ev = none) (hmem : outOfMemory ev = false) :
    Unbroken cb ev := by
  refine ⟨fun p hp => ?_, hmem⟩
  rw [h] at hp
  cases hp

theorem unbroken_message {ticks : ULONG} {p : NxPacket} :
    Unbroken cb ⟨.nxAzureIotHubClientCloudMessageReceive ticks, .message p⟩ ↔
      p.next.flatten = [] ∧ (cb = .onIothubData → 0 ∉ p.data) := by
  refine ⟨fun h => h.1 p rfl, fun h => ⟨?_, rfl⟩⟩
  rintro _ ⟨⟩
  exact h

theorem not_receive_foreign (ev : Ev Op Ans) (h : ofReceive ev.1 = false) :
    isReceive ev.1 = false := by
  obtain ⟨op, a⟩ := ev
  cases op <;> first | rfl | cases h

theorem receiveFailed_foreign (ev : Ev Op Ans) (h : isReceive ev.1 = false) :
    receiveFailed ev = false := by
  obtain ⟨op, a⟩ := ev
  cases op <;> first | rfl | cases h

theorem allGiven_append : AllGiven (t ++ v) ↔ t.filterMap delivery ++ v.filterMap delivery =
    (t.filterMap arrival).map NxPacket.message ++ (v.filterMap arrival).map NxPacket.message := by
  rw [AllGiven, List.filterMap_append, List.filterMap_append, List.map_append]

theorem allReleased_append : AllReleased (t ++ v) ↔ t.filterMap release ++ v.filterMap release =
    (t.filterMap arrival).map NxPacket.ptr ++ (v.filterMap arrival).map NxPacket.ptr := by
  rw [AllReleased, List.filterMap_append, List.filterMap_append, List.map_append]

/-- Only the text is given. -/
theorem Gives.lists {data : List UInt8} (h : Gives c s0 cb data v s) :
    v.filterMap arrival = [] ∧ v.filterMap delivery = [textOf cb data] ∧
      v.filterMap release = [] := by
  cases h with
  | app hv =>
    simp only [List.filterMap_append, hv.filterMap arrival_foreign, hv.filterMap delivery_foreign,
      hv.filterMap release_foreign]
    exact ⟨rfl, rfl, rfl⟩
  | onIothubData hv =>
    simp only [List.filterMap_append, hv.filterMap arrival_foreign, hv.filterMap delivery_foreign,
      hv.filterMap release_foreign]
    exact ⟨rfl, rfl, rfl⟩

theorem Gives.along_iff {data : List UInt8} (h : Gives c s0 cb data v s) :
    Along (InPlace loopForever connected) t v ↔ AllGiven (t ++ v) := by
  have hinside : ∀ {v t}, Inside c s0 v s → Along (InPlace loopForever connected) t v :=
    fun hv => .of_forall fun ev hev _ => inPlace_foreign ev (hv.foreign ev hev)
  cases h with
  | app hv =>
    rw [along_append, along_single, ← List.append_assoc]
    exact and_iff_right (hinside hv)
  | @onIothubData size str _ v processed _ hv =>
    have hfree : ∀ u, AllGiven (u ++ [⟨.free str, ()⟩]) ↔ AllGiven u := fun u => by
      rw [allGiven_append]
      show _ ++ [] = _ ++ [] ↔ _
      rw [List.append_nil, List.append_nil, AllGiven]
    have hlast : t ++ ([⟨.malloc size, some str⟩] ++ v ++
        [⟨.iotclProcessEvent (data.takeWhile (· ≠ 0)), processed⟩, ⟨.free str, ()⟩]) =
        t ++ ([⟨.malloc size, some str⟩] ++ v) ++
          [⟨.iotclProcessEvent (data.takeWhile (· ≠ 0)), processed⟩] ++ [⟨.free str, ()⟩] := by
      simp only [List.append_assoc, List.singleton_append]
    rw [hlast, hfree, along_append, along_append, along_single, along_cons, along_single]
    exact (and_iff_right ⟨trivial, hinside hv⟩).trans (and_iff_left trivial)

/-- What holds of the events of a callback. -/
theorem Gives.forall_mem {φ : Ev Op Ans → Prop} {data : List UInt8} (h : Gives c s0 cb data v s)
    (hinside : ∀ {u}, Inside c s0 u s → ∀ ev ∈ u, φ ev)
    (hcb : ∀ cb message, φ ⟨.c2dMsgCb cb message, ()⟩)
    (hmalloc : ∀ size str, φ ⟨.malloc size, some str⟩)
    (hprocess : ∀ event processed, φ ⟨.iotclProcessEvent event, processed⟩)
    (hfree : ∀ str, φ ⟨.free str, ()⟩) : ∀ ev ∈ v, φ ev := by
  cases h with
  | app hv =>
    exact List.forall_mem_append.mpr ⟨hinside hv, List.forall_mem_singleton.mpr (hcb _ _)⟩
  | onIothubData hv =>
    refine List.forall_mem_append.mpr ⟨List.forall_mem_append.mpr
      ⟨List.forall_mem_singleton.mpr (hmalloc _ _), hinside hv⟩, ?_⟩
    exact List.forall_mem_cons.mpr ⟨hprocess _ _, List.forall_mem_singleton.mpr (hfree _)⟩

theorem Gives.unbroken {data : List UInt8} (h : Gives c s0 cb data v s) :
    ∀ ev ∈ v, Unbroken cb ev :=
  h.forall_mem (fun hv ev hev => .of_none (arrival_foreign ev (hv.foreign ev hev))
      (outOfMemory_foreign ev (hv.foreign ev hev))) (fun _ _ => .of_none rfl rfl)
    (fun _ _ => .of_none rfl rfl) (fun _ _ => .of_none rfl rfl) fun _ => .of_none rfl rfl

theorem Gives.not_receive {data : List UInt8} (h : Gives c s0 cb data v s) :
    ∀ ev ∈ v, isReceive ev.1 = false :=
  h.forall_mem (fun hv ev hev => not_receive_foreign ev (hv.foreign ev hev)) (fun _ _ => rfl)
    (fun _ _ => rfl) (fun _ _ => rfl) fun _ => rfl

theorem Gives.left {data : List UInt8} (h : Gives c s0 cb data v s) :
    s.sdk.config = c ∧ s.hub.config = s0.hub.config ∧ (s.hub.isConnected = true →
      s0.hub.isConnected = true ∧ ∀ ev ∈ v, disconnects ev.1 = false) := by
  have hdisc : s.hub.isConnected = true → ∀ ev ∈ v, disconnects ev.1 = false := fun hc =>
    h.forall_mem (fun hv => (hv.connected hc).2) (fun _ _ => rfl) (fun _ _ => rfl) (fun _ _ => rfl)
      fun _ => rfl
  cases h with
  | app hv | onIothubData hv =>
    exact ⟨hv.sdk, hv.hub, fun hc => ⟨(hv.connected hc).1, hdisc hc⟩⟩

/-- Nothing is lost of the message if its first packet holds all of it. -/
theorem textOf_eq_message (p : NxPacket) :
    textOf cb p.data = p.message ↔ p.next.flatten = [] ∧ (cb = .onIothubData → 0 ∉ p.data) := by
  cases cb with
  | app cb => simp [textOf, NxPacket.message]
  | onIothubData =>
    have hself : p.data.takeWhile (· ≠ 0) = p.data ↔ 0 ∉ p.data := by
      rw [List.takeWhile_eq_self_iff]
      exact ⟨fun h h0 => of_decide_eq_true (h 0 h0) rfl,
        fun h x hx => decide_eq_true fun hx0 => h (hx0 ▸ hx)⟩
    constructor
    · intro h
      have hle := (p.data.takeWhile_prefix (· ≠ 0)).length_le
      have hnil : p.next.flatten = [] := by
        rw [show p.data.takeWhile (· ≠ 0) = p.data ++ p.next.flatten from h,
          List.length_append] at hle
        exact List.eq_nil_of_length_eq_zero (by omega)
      refine ⟨hnil, fun _ => hself.mp (h.trans ?_)⟩
      rw [NxPacket.message, hnil, List.append_nil]
    · rintro ⟨hnil, h0⟩
      rw [NxPacket.message, hnil, List.append_nil]
      exact hself.mpr (h0 rfl)

/-- The message has been given whole. -/
theorem Gives.given_iff (ticks : ULONG) {p : NxPacket} (h : Gives c s0 cb p.data v s)
    (hgiven : AllGiven t) :
    AllGiven (t ++ [⟨.nxAzureIotHubClientCloudMessageReceive ticks, .message p⟩] ++ v) ↔
      textOf cb p.data = p.message := by
  obtain ⟨harrival, hdelivery, -⟩ := h.lists
  rw [List.append_assoc, allGiven_append, hgiven, List.append_right_inj, List.filterMap_append,
    List.filterMap_append, harrival, hdelivery]
  show [textOf cb p.data] = [p.message] ↔ _
  rw [List.singleton_inj]

theorem Gives.released (ticks : ULONG) {p : NxPacket} (h : Gives c s0 cb p.data v s)
    (hreleased : AllReleased t) :
    AllReleased (t ++ [⟨.nxAzureIotHubClientCloudMessageReceive ticks, .message p⟩] ++ v ++
      [⟨.nxPacketRelease p.ptr, ()⟩]) := by
  obtain ⟨harrival, -, hrelease⟩ := h.lists
  rw [List.append_assoc, List.append_assoc, allReleased_append, hreleased, List.append_right_inj]
  simp only [List.filterMap_append, harrival, hrelease]
  rfl

theorem Turn.left {status : UINT} (h : Turn c cb s0 v status s) (hsdk : s0.sdk.config = c) :
    s.sdk.config = c ∧ s.hub.config = s0.hub.config ∧ (s.hub.isConnected = true →
      s0.hub.isConnected = true ∧ ∀ ev ∈ v, disconnects ev.1 = false) := by
  cases h with
  | failed | noPacket => exact ⟨hsdk, rfl, fun hc => ⟨hc, List.forall_mem_singleton.mpr rfl⟩⟩
  | message hgives =>
    obtain ⟨hsdk, hhub, hconn⟩ := hgives.left
    refine ⟨hsdk, hhub, fun hc => ⟨(hconn hc).1, ?_⟩⟩
    exact List.forall_mem_append.mpr ⟨List.forall_mem_append.mpr
      ⟨List.forall_mem_singleton.mpr rfl, (hconn hc).2⟩, List.forall_mem_singleton.mpr rfl⟩

/-- The status tells of a receive that failed. -/
theorem Turn.failed_iff {status : UINT} (h : Turn c cb s0 v status s) :
    (∃ ev ∈ v, receiveFailed ev = true) ↔ status ≠ nxAzureIotNoPacket ∧ status ≠ nxSuccess := by
  cases h with
  | @failed _ _ err =>
    exact iff_of_true ⟨_, List.mem_singleton_self _, rfl⟩ ⟨err.2, err.1⟩
  | noPacket =>
    refine iff_of_false ?_ fun h => h.1 rfl
    rintro ⟨ev, hev, hfailed⟩
    cases List.mem_singleton.mp hev
    cases hfailed
  | message hgives =>
    refine iff_of_false ?_ fun h => h.2 rfl
    rintro ⟨ev, hev, hfailed⟩
    rw [List.mem_append, List.mem_append, List.mem_singleton, List.mem_singleton] at hev
    rcases hev with (rfl | hev) | rfl
    · cases hfailed
    · rw [receiveFailed_foreign ev (hgives.not_receive ev hev)] at hfailed
      cases hfailed
    · cases hfailed

/-- A message of which nothing is lost has been dealt with at the end of its turn. -/
theorem Turn.dealt {status : UINT} (h : Turn c cb s0 v status s) (hgiven : AllGiven t)
    (hreleased : AllReleased t) (hv : ∀ ev ∈ v, Unbroken cb ev) :
    AllGiven (t ++ v) ∧ AllReleased (t ++ v) := by
  cases h with
  | failed | noPacket =>
    rw [allGiven_append, allReleased_append, hgiven, hreleased]
    exact ⟨rfl, rfl⟩
  | @message ticks p v s hgives =>
    have htext := hv _ (List.mem_append_left _ (List.mem_append_left _ (List.mem_singleton_self _)))
    have hmessage := (hgives.given_iff ticks hgiven).mpr
      ((textOf_eq_message p).mpr (unbroken_message.mp htext))
    have happend : t ++ ([⟨.nxAzureIotHubClientCloudMessageReceive ticks, .message p⟩] ++ v ++
        [⟨.nxPacketRelease p.ptr, ()⟩]) =
        t ++ [⟨.nxAzureIotHubClientCloudMessageReceive ticks, .message p⟩] ++ v ++
          [⟨.nxPacketRelease p.ptr, ()⟩] := by
      simp only [List.append_assoc]
    rw [happend]
    refine ⟨?_, hgives.released ticks hreleased⟩
    rw [allGiven_append, hmessage]
    rfl

/-- A turn is in its place unless something is lost of its message. -/
theorem Turn.along_iff {status : UINT} (h : Turn c cb s0 v status s) (hgiven : AllGiven t)
    (hreleased : AllReleased t)
    (hgo : (∀ ev ∈ t, isReceive ev.1 = false) ∨ GoesOn loopForever connected t) :
    Along (InPlace loopForever connected) t v ↔ ∀ ev ∈ v, Unbroken cb ev := by
  cases h with
  | failed | noPacket =>
    rw [along_single, List.forall_mem_singleton]
    exact iff_of_true ⟨hgiven, hreleased, hgo⟩ (.of_none rfl rfl)
  | @message ticks p v s hgives =>
    rw [along_append, along_append, along_single, along_single, hgives.along_iff,
      hgives.given_iff ticks hgiven, textOf_eq_message, List.forall_mem_append,
      List.forall_mem_append, List.forall_mem_singleton, List.forall_mem_singleton,
      unbroken_message]
    constructor
    · exact fun h => ⟨⟨h.1.2, hgives.unbroken⟩, .of_none rfl rfl⟩
    · intro h
      have hmessage := (hgives.given_iff ticks hgiven).mpr
        ((textOf_eq_message p).mpr h.1.1)
      have hrelease := hgives.released ticks hreleased
      rw [List.append_assoc t] at hmessage hrelease
      exact ⟨⟨⟨hgiven, hreleased, hgo⟩, h.1.1⟩, hmessage, hrelease⟩

end

/-! ## The loop -/

/-- So far nothing was lost, and all has been dealt with. -/
structure Dealt (c : IotConnectClientConfig) (cb : IotConnectC2dCallback)
    (loopForever connected : Bool) (s : St) (t : Tr Op Ans) : Prop where
  callback : s.hub.config.c2dMsgCb = some cb
  sdk : s.sdk.config = c
  inPlace : Along (InPlace loopForever connected) [] t
  unbroken : ∀ ev ∈ t, Unbroken cb ev
  given : AllGiven t
  released : AllReleased t
  connected : s.hub.isConnected = true → connected = true ∧ ∀ ev ∈ t, disconnects ev.1 = false

/-- Where a turn begins. -/
structure Ready (c : IotConnectClientConfig) (cb : IotConnectC2dCallback)
    (loopForever connected : Bool) (s : St) (t : Tr Op Ans) : Prop
    extends Dealt c cb loopForever connected s t where
  fine : ∀ ev ∈ t, receiveFailed ev = false
  again : (∀ ev ∈ t, isReceive ev.1 = false) ∨ loopForever = true ∧ s.hub.isConnected = true

section
variable {c : IotConnectClientConfig} {cb : IotConnectC2dCallback} {s s' : St} {t v : Tr Op Ans}
  {loopForever connected : Bool} {status : UINT} {o : Out Op Ans St UINT}

theorem Dealt.arrives (h : Dealt c cb loopForever connected o.st o.tr)
    (hends : o.res.isOk = true ↔ (loopForever = true →
      (∃ ev ∈ o.tr, receiveFailed ev = true) ∨ o.st.hub.isConnected = false)) :
    ArrivesWhole loopForever connected o ↔ ∀ ev ∈ o.tr, Unbroken cb ev :=
  iff_of_true ⟨h.inPlace, h.given, h.released, hends⟩ h.unbroken

theorem Ready.start (hcb : s.hub.config.c2dMsgCb = some cb) :
    Ready s.sdk.config cb loopForever s.hub.isConnected s [] where
  callback := hcb
  sdk := rfl
  inPlace := .nil
  unbroken := List.forall_mem_nil _
  given := rfl
  released := rfl
  connected hc := ⟨hc, List.forall_mem_nil _⟩
  fine := List.forall_mem_nil _
  again := .inl (List.forall_mem_nil _)

theorem Ready.goesOn (h : Ready c cb loopForever connected s t) :
    (∀ ev ∈ t, isReceive ev.1 = false) ∨ GoesOn loopForever connected t := by
  refine h.again.imp_right fun ⟨hforever, hconn⟩ => ?_
  obtain ⟨hconnected, hdisc⟩ := h.connected hconn
  exact ⟨hforever, hconnected, fun ev hev => ⟨h.fine ev hev, hdisc ev hev⟩⟩

theorem Ready.turn (h : Ready c cb loopForever connected s t) (hturn : Turn c cb s v status s')
    (hv : ∀ ev ∈ v, Unbroken cb ev) : Dealt c cb loopForever connected s' (t ++ v) := by
  obtain ⟨hsdk, hhub, hconn⟩ := hturn.left h.sdk
  obtain ⟨hgiven, hreleased⟩ := hturn.dealt h.given h.released hv
  refine ⟨by rw [hhub, h.callback], hsdk, ?_, List.forall_mem_append.mpr ⟨h.unbroken, hv⟩, hgiven,
    hreleased, fun hc => ?_⟩
  · rw [along_append]
    exact ⟨h.inPlace, (hturn.along_iff h.given h.released h.goesOn).mpr hv⟩
  · obtain ⟨hconnected, hdisc⟩ := h.connected (hconn hc).1
    exact ⟨hconnected, List.forall_mem_append.mpr ⟨hdisc, (hconn hc).2⟩⟩

/-- What a turn loses is lost for the run. -/
theorem Ready.lost (h : Ready c cb loopForever connected s t) (hturn : Turn c cb s v status s')
    (hv : ¬ ∀ ev ∈ v, Unbroken cb ev) {u : Tr Op Ans} (ho : o.tr = t ++ v ++ u) :
    ArrivesWhole loopForever connected o ↔ ∀ ev ∈ o.tr, Unbroken cb ev := by
  refine iff_of_false (fun hwhole => ?_) fun hall => ?_
  · have halong := hwhole.inPlace
    rw [ho, List.append_assoc, along_append, along_append] at halong
    exact hv ((hturn.along_iff h.given h.released h.goesOn).mp halong.2.1)
  · rw [ho, List.forall_mem_append, List.forall_mem_append] at hall
    exact hv hall.1.2

/-- Without memory for the copy the run stops, and the message has not been given. -/
theorem Ready.noMemory (h : Ready c cb loopForever connected s t)
    (ho : NoMemory cb t o.st o.tr) :
    ArrivesWhole loopForever connected o ↔ ∀ ev ∈ o.tr, Unbroken cb ev := by
  obtain ⟨-, ticks, p, size, ht⟩ := ho
  refine iff_of_false (fun hwhole => ?_) fun hall => ?_
  · have hgiven := hwhole.given
    rw [ht, allGiven_append, h.given, List.append_right_inj] at hgiven
    cases hgiven
  · have hmalloc := hall ⟨.malloc size, none⟩ (by simp [ht])
    exact absurd hmalloc.2 nofun

variable {W : World Op Ans St}

/-- One turn, and then the turns that follow it when the loop goes on. -/
theorem receiveTurn_iff (hquiet : ∀ op, callsBack op = false → W.Quiet op)
    (hlets : ∀ t0 op i, W.Lets anyEvent (NoMemory cb t0) op (InsideOf c i) (InsideOf c i))
    (ticks : ULONG) {next : M UINT}
    (hnext : ∀ s t, Ready c cb loopForever connected s t → loopForever = true →
      s.hub.isConnected = true → ∀ o, next.run W s t = o →
      (ArrivesWhole loopForever connected o ↔ ∀ ev ∈ o.tr, Unbroken cb ev))
    (h : Ready c cb loopForever connected s t)
    (ho : (do
      let status ← receiveMessage ticks
      if status ≠ nxAzureIotNoPacket ∧ status ≠ nxSuccess then
        return status
      let s ← .get
      if loopForever ∧ s.hub.isConnected then next else return status : M UINT).run W s t = o) :
    ArrivesWhole loopForever connected o ↔ ∀ ev ∈ o.tr, Unbroken cb ev := by
  obtain ⟨v, hv⟩ := Prog.run_grows W s t (receiveMessage ticks)
  have hsat := (spec_receiveMessage hquiet (hlets t) h.callback h.sdk ticks).sat ⟨rfl, rfl⟩ hv
    (.of_forall fun _ _ _ => trivial)
  rw [run_bind] at ho
  generalize (receiveMessage ticks).run W s t = o1 at ho hsat
  obtain ⟨r, s1, t1⟩ := o1
  clear hv
  cases r with
  | error e =>
    obtain rfl := ho
    exact h.noMemory hsat
  | ok status =>
    obtain ⟨v, rfl, hturn⟩ := hsat
    rw [Out.bind_ok] at ho
    by_cases hunbroken : ∀ ev ∈ v, Unbroken cb ev
    · have hdealt := h.turn hturn hunbroken
      by_cases hfailed : status ≠ nxAzureIotNoPacket ∧ status ≠ nxSuccess
      · rw [run_ite, if_pos hfailed] at ho
        obtain rfl := ho
        obtain ⟨ev, hev, hfail⟩ := hturn.failed_iff.mpr hfailed
        exact hdealt.arrives (iff_of_true rfl fun _ =>
          .inl ⟨ev, List.mem_append_right _ hev, hfail⟩)
      · rw [run_ite, if_neg hfailed, run_bind, run_get, Out.bind_ok, run_ite] at ho
        by_cases hgo : loopForever = true ∧ s1.hub.isConnected = true
        · rw [if_pos hgo] at ho
          refine hnext s1 _ ⟨hdealt, ?_, .inr hgo⟩ hgo.1 hgo.2 o ho
          refine List.forall_mem_append.mpr ⟨h.fine, fun ev hev => ?_⟩
          exact Bool.eq_false_iff.mpr fun hfail => hfailed (hturn.failed_iff.mp ⟨ev, hev, hfail⟩)
        · rw [if_neg hgo] at ho
          obtain rfl := ho
          exact hdealt.arrives (iff_of_true rfl fun hforever =>
            .inr (Bool.eq_false_iff.mpr fun hconn => hgo ⟨hforever, hconn⟩))
    · obtain ⟨u, hu⟩ := Prog.run_grows W s1 (t ++ v) (do
        if status ≠ nxAzureIotNoPacket ∧ status ≠ nxSuccess then
          return status
        let s ← .get
        if loopForever ∧ s.hub.isConnected then next else return status : M UINT)
      exact h.lost hturn hunbroken (u := u) (by rw [← ho]; exact hu)

/-- However many turns there are. -/
theorem receiveLoop_iff (hquiet : ∀ op, callsBack op = false → W.Quiet op)
    (hlets : ∀ t0 op i, W.Lets anyEvent (NoMemory cb t0) op (InsideOf c i) (InsideOf c i))
    (ticks : ULONG) (fuel : Nat) (h : Ready c cb loopForever connected s t)
    (ho : (receiveLoop loopForever ticks (fuel + 1)).run W s t = o) :
    ArrivesWhole loopForever connected o ↔ ∀ ev ∈ o.tr, Unbroken cb ev := by
  induction fuel generalizing s t o with
  | zero =>
    refine receiveTurn_iff hquiet hlets ticks (fun s t h hforever hconn o ho => ?_) h ho
    obtain rfl : ⟨.error .fuel, s, t⟩ = o := ho
    refine h.toDealt.arrives (iff_of_false nofun fun hends => ?_)
    rcases hends hforever with ⟨ev, hev, hfailed⟩ | hdown
    · exact Bool.false_ne_true ((h.fine ev hev).symm.trans hfailed)
    · exact Bool.false_ne_true (hdown.symm.trans hconn)
  | succ fuel ih =>
    exact receiveTurn_iff hquiet hlets ticks (fun s t h _ _ o ho => ih h ho) h ho

end

/-- Whatever is received, and whatever is called from inside the callbacks, at every depth:
messages arrive whole and packets are returned if and only if each message is unbroken. -/
theorem receive_iff (B : Build) (ans : Tr Op Ans → (op : Op) → Ans op)
    (calls : Tr Op Ans → Op → List CallbackCall) (d fuel : Nat) (loopForever : Bool)
    (waitTicks : ULONG) {cb : IotConnectC2dCallback} {s : St}
    (hcb : s.hub.config.c2dMsgCb = some cb)
    (hsync : ∀ t op, .onMessageIntercept .onForceSync ∈ calls t op → Configured B s.sdk.config)
    {o : Out Op Ans St UINT}
    (ho : (iothubC2dReceive (fuel + 1) loopForever waitTicks).run
      (.nested (callbackApi B) ans callsBack calls d) s [] = o) :
    ArrivesWhole loopForever s.hub.isConnected o ↔ ∀ ev ∈ o.tr, Unbroken cb ev := by
  have hquiet : ∀ op, callsBack op = false →
      (World.nested (callbackApi B) ans callsBack calls d).Quiet op := fun op hop =>
    World.nested_quiet _ hop
  have hlets : ∀ t0 op i, (World.nested (callbackApi B) ans callsBack calls d).Lets anyEvent
      (NoMemory cb t0) op (InsideOf s.sdk.config i) (InsideOf s.sdk.config i) := fun t0 op i =>
    nested_lets (fun W hW hlets i t op k hk =>
      inside_callbackApi hlets hW fun hforce => hsync t op (hforce ▸ hk)) ans d op i
  exact receiveLoop_iff hquiet hlets _ fuel (.start hcb) ho

/-- Messages of which the packets after the first hold `next`. -/
def helloAns (next : List (List UInt8)) (_ : Tr Op Ans) : (op : Op) → Ans op
  | .nxAzureIotHubClientCloudMessageReceive _ => .message ⟨0, cstr "hello", next⟩
  | op => allGood op

/-- A client that the SDK has connected. -/
def connectedSt : St :=
  ⟨⟨⟨cstr "hub", cstr "device", .iotcKey (some (cstr "key")), some .onIothubData,
    some .onIotconnectStatus⟩, true, false⟩, .init⟩

/-- ON_CLOSE comes with each event. -/
def closes (_ : Tr Op Ans) : Op → List CallbackCall
  | .iotclProcessEvent _ => [.onMessageIntercept .onClose]
  | _ => []

theorem receive_closed :
    ArrivesWhole true true ((iothubC2dReceive 2 true 0).run
      (.nested (callbackApi .sample) (helloAns []) callsBack closes 1) connectedSt []) := by
  refine (receive_iff .sample (helloAns []) closes 1 1 true 0 (s := connectedSt) rfl ?_ rfl).mpr ?_
  · intro t op h
    cases op <;> simp [closes] at h
  · decide +kernel

/-- The second packet of a message is lost. -/
theorem chain_cut :
    ¬ ArrivesWhole false true ((iothubC2dReceive 1 false 10).run
      (.nested (callbackApi .sample) (helloAns [cstr " world"]) callsBack (fun _ _ => []) 0)
      connectedSt []) := by
  intro h
  have hgiven : ([cstr "hello"] : List (List UInt8)) = [cstr "hello world"] := h.given
  exact absurd hgiven (by decide +kernel)

end Iotc.Sdk
