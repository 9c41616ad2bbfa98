import Iotc.Resume.Logic
import Iotc.Sdk.Client

/-!
# Rules for the SDK's requests

A discovery is a request and the parsing of its answer; so is a synchronisation, which then accepts
or rejects what was parsed. Each rule has a premise for every step of the function it is about, and
one for the stop on what the function does not check: a missing setting, or one too long for the
buffer of the resource.
-/

namespace Iotc.Sdk

open Iotc.C Iotc.Resume Iotc.Hub

/-- The settings are there and the resource fits its buffer. -/
def Discoverable (B : Build) (cpid env : Option CStr) : Prop :=
  ∃ c e, cpid = some c ∧ env = some e ∧
    (resourcePathDiscovery c e).length + 1 ≤ resourceStrBuffSize B

variable {Γ : Type} {L : Logic Op Ans St Γ} {P : St → Γ → Prop} {B : Build}
  {Q : UINT × Option CStr → St → Γ → Prop}

theorem spec_httpsRequest (h : ∀ req, L.Spec P (.call (Op.iotconnectHttpsRequest req)) Q)
    (host resource : CStr) (payload : Option CStr) :
    L.Spec P (httpsRequest B host resource payload) Q := .bind_get_any fun _ => h _

theorem spec_runHttpDiscovery {R : Option IotclDiscoveryResponse → St → Γ → Prop}
    {cpid env : Option CStr} (hstop : ¬ Discoverable B cpid env → ∀ s γ, P s γ → L.stop s γ)
    (hrequest : ∀ c e, cpid = some c → env = some e → L.Spec P
      (httpsRequest B B.iotconnectDiscoveryHostname (resourcePathDiscovery c e) none) Q)
    (hnone : ∀ answer, responseJson answer = none → ∀ s γ, Q answer s γ → R none s γ)
    (hparse : ∀ answer json, responseJson answer = some json →
      L.Spec (Q answer) (.call (Op.iotclDiscoveryParseDiscoveryResponse json)) R) :
    L.Spec P (runHttpDiscovery B cpid env) R := by
  cases cpid with
  | none => exact .stop (hstop fun ⟨_, _, h, _⟩ => nomatch h)
  | some cpid =>
  cases env with
  | none => exact .stop (hstop fun ⟨_, _, _, h, _⟩ => nomatch h)
  | some env =>
  refine .ite (fun hlt => .stop (hstop ?_)) fun _ => ?_
  · rintro ⟨_, _, ⟨⟩, ⟨⟩, hle⟩
    exact absurd hle (Nat.not_le.mpr hlt)
  refine .bind (hrequest cpid env rfl rfl) fun answer => ?_
  cases hanswer : responseJson answer with
  | none => exact .pure (hnone answer hanswer)
  | some json => exact hparse answer json hanswer

theorem spec_runHttpSync {T R : Option IotclSyncResponse → St → Γ → Prop}
    {cpid uniqueid : Option CStr}
    (hstop : ∀ s γ, P s γ → L.stop s γ ∨
      s.sdk.discoveryResponse.isSome ∧ cpid.isSome ∧ uniqueid.isSome)
    (hrequest : ∀ s discovery c u, s.sdk.discoveryResponse = some discovery → cpid = some c →
      uniqueid = some u → L.Spec (fun s' γ => s' = s ∧ P s' γ)
        (httpsRequest B discovery.host (resourcePathSync discovery.path)
          (some ((B.postDataTemplate c u).take (B.postDataMaxLen - 1)))) Q)
    (hnone : ∀ answer, responseJson answer = none → ∀ s γ, Q answer s γ → R none s γ)
    (hparse : ∀ answer json, responseJson answer = some json →
      L.Spec (Q answer) (.call (Op.iotclDiscoveryParseSyncResponse json)) T)
    (haccept : ∀ ret, L.Spec (T ret) (acceptSync ret) R) :
    L.Spec P (runHttpSync B cpid uniqueid) R := by
  refine .bind_get_eq fun s => ?_
  cases hdiscovery : s.sdk.discoveryResponse with
  | none =>
    refine .stop fun s' γ ⟨hs, hP⟩ => (hstop s' γ hP).resolve_right fun h => ?_
    rw [hs, hdiscovery] at h
    exact Bool.false_ne_true h.1
  | some discovery =>
  cases cpid with
  | none =>
    exact .stop fun s' γ h => (hstop s' γ h.2).resolve_right fun h => Bool.false_ne_true h.2.1
  | some cpid =>
  cases uniqueid with
  | none =>
    exact .stop fun s' γ h => (hstop s' γ h.2).resolve_right fun h => Bool.false_ne_true h.2.2
  | some uniqueid =>
  refine .bind (hrequest s discovery cpid uniqueid hdiscovery rfl rfl) fun answer => ?_
  cases hanswer : responseJson answer with
  | none => exact .pure (hnone answer hanswer)
  | some json => exact .bind (hparse answer json hanswer) haccept

/-- The result is set on both sides of the check, and what is not accepted is freed. -/
theorem spec_acceptSync {I : St → Γ → Prop} {ret : Option IotclSyncResponse}
    (hresult : L.Spec P (.modify (·.setSdk ({ · with
      lastSyncResult := ret.elim .unknownDeviceStatus IotclSyncResponse.ds }))) fun _ => I)
    (hfree : ∀ r, L.Spec I (.call (Op.iotclDiscoveryFreeSyncResponse r)) fun _ => I) :
    L.Spec P (acceptSync ret) fun _ => I := by
  cases ret with
  | none => exact .bind hresult fun _ => .bind (hfree none) fun _ => .pure fun _ _ h => h
  | some response =>
    refine .bind hresult fun _ => .ite (fun _ => ?_) fun _ => .pure fun _ _ h => h
    exact .bind (hfree (some response)) fun _ => .pure fun _ _ h => h

end Iotc.Sdk
