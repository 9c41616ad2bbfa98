import Iotc.Sdk.Responses

/-!
# The last sync result

`iotconnect_get_last_sync_result` tells what the last attempt to synchronise came to. Only
`iotconnect_sdk_init` resets it; on ON_FORCE_SYNC an attempt that does not get as far as parsing a
response leaves what an earlier one came to (`last_sync_iff`).
-/

namespace Iotc.Sdk

open Iotc.C Iotc.Resume Iotc.Hub
open Iotc.Web (nxSuccess IotConnectAzrtosConfig)

def iotconnectGetLastSyncResult : M IotclSyncResult := do
  let s ← .get
  return s.sdk.lastSyncResult

/-- What the sync response that was parsed last says, or that it could not be parsed. -/
def parsed : Option IotclSyncResult → Ev Op Ans → Option IotclSyncResult
  | _, ⟨.iotclDiscoveryParseSyncResponse _, ret⟩ =>
    some (ret.elim .unknownDeviceStatus IotclSyncResponse.ds)
  | last, _ => last

def answered (u : Tr Op Ans) : Option IotclSyncResult := u.foldl parsed none

/-- The calls that synchronise. -/
def attempts : SdkCall → Prop
  | .init _ | .event .onForceSync => True
  | _ => False

/-- What an attempt came to can be asked for once it has returned. -/
def LastSyncRight (c : SdkCall) (_ : St) (t : Tr Op Ans) (o : Out Op Ans St Unit) : Prop :=
  attempts c → o.res.isOk → iotconnectGetLastSyncResult o.st =
    .done ((answered (o.tr.drop t.length)).getD .unknownDeviceStatus) o.st

/-- An attempt is an initialisation, or it gets as far as parsing a response, or there is nothing
from earlier. -/
def Renews (c : SdkCall) (s : St) (t : Tr Op Ans) (o : Out Op Ans St Unit) : Prop :=
  attempts c → o.res.isOk → (∃ ac, c = .init ac) ∨ answered (o.tr.drop t.length) ≠ none ∨
    s.sdk.lastSyncResult = .unknownDeviceStatus

/-! ## One attempt -/

abbrev lastLogic : Logic Op Ans St (Option IotclSyncResult) := .ghost parsed fun _ _ => True

/-- `prev` is there until a response is parsed. -/
def Tracks (prev : IotclSyncResult) (s : St) (last : Option IotclSyncResult) : Prop :=
  s.sdk.lastSyncResult = last.getD prev

section
variable {prev : IotclSyncResult} {I : St → Option IotclSyncResult → Prop} {B : Build}

theorem spec_unparsed {op : Op} (h : ∀ last a, parsed last ⟨op, a⟩ = last) :
    lastLogic.Spec I (.call op) fun _ => I :=
  .of_call fun _ last hI a => (h last a).symm ▸ hI

theorem hubFree_tracks : HubFree lastLogic (Tracks prev) where
  stop _ _ _ := trivial
  call op hop := spec_unparsed fun _ _ => by cases op <;> first | rfl | cases hop
  set _ _ _ h := h

theorem spec_setSdk {f : SdkStatics → SdkStatics}
    (hf : ∀ sdk, (f sdk).lastSyncResult = sdk.lastSyncResult) :
    lastLogic.Spec (Tracks prev) (.modify (·.setSdk f)) fun _ => Tracks prev :=
  .modify fun s _ h => (hf s.sdk).trans h

theorem spec_last_httpsRequest (host resource : CStr) (payload : Option CStr) :
    lastLogic.Spec I (httpsRequest B host resource payload) fun _ => I := by
  refine spec_httpsRequest (fun req => ?_) host resource payload
  exact spec_unparsed fun _ _ => rfl

theorem spec_last_runHttpDiscovery (cpid env : Option CStr) :
    lastLogic.Spec I (runHttpDiscovery B cpid env) fun _ => I := by
  refine spec_runHttpDiscovery (fun _ _ _ _ => trivial)
    (fun _ _ _ _ => spec_last_httpsRequest _ _ _) (fun _ _ _ _ hI => hI) fun _ _ _ => ?_
  exact spec_unparsed fun _ _ => rfl

theorem spec_last_acceptSync (ret : Option IotclSyncResponse) :
    lastLogic.Spec (fun _ last => last = some (ret.elim .unknownDeviceStatus IotclSyncResponse.ds))
      (acceptSync ret) fun _ => Tracks prev := by
  refine spec_acceptSync (.modify fun s last hlast => ?_) fun r => ?_
  · rw [Tracks, hlast]
    rfl
  · exact spec_unparsed fun _ _ => rfl

theorem spec_last_runHttpSync (cpid uniqueid : Option CStr) :
    lastLogic.Spec (Tracks prev) (runHttpSync B cpid uniqueid) fun _ => Tracks prev := by
  refine spec_runHttpSync (Q := fun _ => Tracks prev) (fun _ _ _ => .inl trivial)
    (fun _ _ _ _ _ _ _ => ?_) (fun _ _ _ _ h => h) (fun _ _ _ => ?_) spec_last_acceptSync
  · exact (spec_last_httpsRequest _ _ _).pre fun _ _ h => h.2
  · exact .of_call fun _ _ _ _ => rfl

/-- What is left of an attempt once the old responses are given up. -/
theorem spec_last_renew {α : Type} (cpid env duid : Option CStr) {a : α}
    {k : Option IotclSyncResponse → M α}
    (hk : ∀ sync, lastLogic.Spec (Tracks prev) (k sync) fun _ => Tracks prev) :
    lastLogic.Spec (Tracks prev) (do
      let discovery ← runHttpDiscovery B cpid env
      .modify (·.setSdk ({ · with discoveryResponse := discovery }))
      if discovery.isNone then
        return a
      let sync ← runHttpSync B cpid duid
      .modify (·.setSdk ({ · with syncResponse := sync }))
      k sync) fun _ => Tracks prev := by
  refine .bind (spec_last_runHttpDiscovery _ _) fun discovery =>
    .bind (spec_setSdk fun _ => rfl) fun _ => .ite (fun _ => .pure fun _ _ h => h) fun _ => ?_
  exact .bind (spec_last_runHttpSync _ _) fun sync =>
    .bind (spec_setSdk fun _ => rfl) fun _ => hk sync

theorem spec_last_startHub (response : IotclSyncResponse) :
    lastLogic.Spec (Tracks prev) (startHub B response) fun _ => Tracks prev := by
  refine .bind_get_any fun s => .bind (spec_setSdk fun _ => rfl) fun _ => ?_
  refine .bind (spec_unparsed fun _ _ => rfl) fun initialised => .ite (fun _ => ?_) fun _ => ?_
  · exact .pure fun _ _ h => h
  · exact hubFree_tracks.iothubClientInit _ _ _

theorem spec_last_init (ac : IotConnectAzrtosConfig) :
    lastLogic.Spec (fun _ last => last = none) (iotconnectSdkInit B ac)
      fun _ => Tracks .unknownDeviceStatus := by
  refine .bind (Q := fun _ => Tracks .unknownDeviceStatus) (.modify fun _ _ h => ?_) fun _ => ?_
  · rw [Tracks, h]
    rfl
  refine .bind_get_any fun s => .bind (spec_unparsed fun _ _ => rfl) fun _ => ?_
  refine .bind (spec_unparsed fun _ _ => rfl) fun _ => .bind (spec_setSdk fun _ => rfl) fun _ => ?_
  refine spec_last_renew _ _ _ fun sync => ?_
  cases sync with
  | none => exact .pure fun _ _ h => h
  | some response => exact spec_last_startHub response

theorem spec_last_forceSync :
    lastLogic.Spec (Tracks prev) (onMessageIntercept B .onForceSync) fun _ => Tracks prev := by
  refine .bind hubFree_tracks.iothubClientDisconnect fun _ => .bind_get_any fun s => ?_
  refine .bind (spec_unparsed fun _ _ => rfl) fun _ => ?_
  refine .bind (spec_unparsed fun _ _ => rfl) fun _ => ?_
  exact .bind (spec_setSdk fun _ => rfl) fun _ => spec_last_renew _ _ _ fun sync =>
    .pure fun _ _ h => h

end

/-! ## Sessions -/

/-- What is there when the attempt begins. -/
def startResult : SdkCall → St → IotclSyncResult
  | .init _, _ => .unknownDeviceStatus
  | _, s => s.sdk.lastSyncResult

section
variable (B : Build) (ans : Tr Op Ans → (op : Op) → Ans op)

theorem lastSync_attempt {c : SdkCall} (hc : attempts c) (s : St) (t : Tr Op Ans) :
    ((sdkApi B c).run (.sequential ans) s t).res.isOk →
      ((sdkApi B c).run (.sequential ans) s t).st.sdk.lastSyncResult =
        (answered (((sdkApi B c).run (.sequential ans) s t).tr.drop t.length)).getD
          (startResult c s) := by
  have hspec : lastLogic.Spec (fun s' last => s' = s ∧ last = none) (sdkApi B c)
      fun _ => Tracks (startResult c s) := by
    match c, hc with
    | .init ac, _ =>
      exact .bind ((spec_last_init ac).pre fun _ _ h => h.2) fun _ => .pure fun _ _ h => h
    | .event .onForceSync, _ =>
      refine .bind (spec_last_forceSync.pre fun s' last h => ?_) fun _ => .pure fun _ _ h => h
      rw [h.1, h.2]
      rfl
  intro hok
  obtain ⟨_, -, h⟩ := (hspec.ghost_sat ans ⟨rfl, rfl⟩ t).ok hok
  exact h

theorem lastSyncRight_iff (c : SdkCall) (s : St) (t : Tr Op Ans) :
    LastSyncRight c s t ((sdkApi B c).run (.sequential ans) s t) ↔
      Renews c s t ((sdkApi B c).run (.sequential ans) s t) := by
  refine imp_congr_right fun hc => imp_congr_right fun hok => ?_
  have hlast := lastSync_attempt B ans hc s t hok
  generalize (sdkApi B c).run (.sequential ans) s t = o at hlast
  obtain ⟨res, s', t'⟩ := o
  dsimp only at hlast ⊢
  have hget : ∀ result, iotconnectGetLastSyncResult s' = .done result s' ↔
      s'.sdk.lastSyncResult = result := fun result =>
    ⟨fun h => by cases h; rfl, fun h => h ▸ rfl⟩
  rw [hget, hlast]
  cases answered (t'.drop t.length) with
  | some result => exact iff_of_true rfl (.inr (.inl nofun))
  | none =>
    rw [Option.getD_none, Option.getD_none, or_iff_right (not_not_intro rfl)]
    match c, hc with
    | .init ac, _ => exact iff_of_true rfl (.inl ⟨ac, rfl⟩)
    | .event .onForceSync, _ => exact (or_iff_right nofun).symm

/-- In every session, after each attempt. -/
theorem last_sync_iff (calls : List SdkCall) (s : St) (t : Tr Op Ans) :
    EachCall (.sequential ans) (sdkApi B) LastSyncRight calls s t ↔
      EachCall (.sequential ans) (sdkApi B) Renews calls s t := by
  constructor <;> intro h <;> refine h.of_inv (I := fun _ _ => True) (fun c s t _ hc => ?_) trivial
  · exact ⟨(lastSyncRight_iff B ans c s t).mp hc, fun _ => trivial⟩
  · exact ⟨(lastSyncRight_iff B ans c s t).mpr hc, fun _ => trivial⟩

end

/-- The second discovery is not answered. -/
def offlineAns (t : Tr Op Ans) : (op : Op) → Ans op
  | .iotconnectHttpsRequest _ =>
    if t.length < 10 then (nxSuccess, some (cstr "\x7b\x7d")) else (1, none)
  | op => responseAns false t op

/-- An ON_FORCE_SYNC that does not reach the service is told as a success. -/
theorem offline_told_ok :
    ¬ EachCall (.sequential offlineAns) (sdkApi .sample) LastSyncRight
      [.configure clientConfig, .init ⟨1, 2, 3⟩, .event .onForceSync] ⟨.init, .init⟩ [] := by
  intro h
  have hforce := ((h.2 (by decide +kernel)).2 (by decide +kernel)).1 trivial (by decide +kernel)
  have hresult := (Res.done.inj hforce).1
  exact absurd hresult (by decide +kernel)

end Iotc.Sdk
