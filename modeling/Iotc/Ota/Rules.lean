import Iotc.Ota.Client
import Iotc.Web.Rules

/-!
# Triples of the OTA client

One rule for each function that sends commands: what holds before and after every command is a
parameter of the rule.
-/

namespace Iotc.Ota

open Iotc.C Iotc.Resume Iotc.Web

section
variable {B : Build} {Γ : Type} {L : Logic Op Ans (St B) Γ} {I J : St B → Γ → Prop}
  {K Q : UINT → St B → Γ → Prop}

theorem rule_sendDriver {ad : Nat} {req : AduDriverRequest}
    (hcall : L.Spec I (.call (Op.aduDriver ad req)) K)
    (hadudr : ∀ status s γ, K status s γ →
      Q status (s.setOta ({ · with adudr := { req with status } })) γ) :
    L.Spec I (sendDriver ad req) Q :=
  .bind hcall fun status => .bind (.modify (hadudr status)) fun _ => .pure fun _ _ h => h

/-- A download that passed the checks: `K` holds after INITIALIZE, `J` before the download and `T`
after it. -/
theorem rule_acceptFwDownload {T : UINT → St B → Γ → Prop} {ad : Nat} {resume : Bool}
    {cb : Option Nat} {fuel : Nat} {r : Option IotConnectHttpRequest}
    (hinit : L.Spec I (sendDriver ad { command := .driverInitialize }) K)
    (hrefused : ∀ status s γ, status ≠ nxSuccess → K status s γ → Q status s γ)
    (hbegin : ∀ s γ, K nxSuccess s γ →
      J (s.setOta ({ · with aduDriver := some ad, userDownloadCb := cb })) γ)
    (hdownload : L.Spec J (iotcDownload fuel r (some .otaFwDownloadHandler) resume) T)
    (hready : ∀ s γ, T nxSuccess s γ → Q nxSuccess (s.setOta ({ · with firmwareReady := true })) γ)
    (hfailed : ∀ status s γ, T status s γ →
      Q status (s.setOta ({ · with aduDriver := none, userDownloadCb := none })) γ) :
    L.Spec I (acceptFwDownload fuel r ad resume cb) Q := by
  refine .bind hinit fun status => .ite (fun hne => .pure fun s γ h => hrefused _ s γ hne h)
    fun hok => ?_
  obtain rfl : status = nxSuccess := Classical.not_not.mp hok
  refine .bind (.modify hbegin) fun _ => .bind hdownload fun status => .bind_get_any fun s0 => ?_
  refine .ite (fun hgood => ?_) fun _ => ?_
  · obtain ⟨rfl, -⟩ := hgood
    exact .bind (.modify hready) fun _ => .pure fun _ _ h => h
  · exact .bind (.modify (hfailed status)) fun _ => .pure fun _ _ h => h

/-- An INSTALL and an APPLY, after which the client is free. -/
theorem rule_iotcOtaFwApply {T : UINT → St B → Γ → Prop}
    (hinvalid : ∀ s γ, s.ota.aduDriver = none ∨ s.ota.firmwareReady = false → I s γ →
      Q nxInvalidParameters s γ)
    (hinstall : ∀ ad, L.Spec (fun s γ => s.ota.aduDriver = some ad ∧ s.ota.firmwareReady = true ∧
      I s γ) (sendDriver ad { command := .driverInstall }) K)
    (hfailed : ∀ status s γ, status ≠ nxSuccess → K status s γ →
      Q status (s.setOta ({ · with aduDriver := none, firmwareReady := false })) γ)
    (happly : ∀ ad, L.Spec (K nxSuccess) (sendDriver ad { command := .driverApply }) T)
    (hend : ∀ status s γ, T status s γ →
      Q status (s.setOta ({ · with aduDriver := none, firmwareReady := false })) γ) :
    L.Spec I iotcOtaFwApply Q := by
  refine .bind_get_eq fun s0 => ?_
  cases had : s0.ota.aduDriver with
  | none =>
    refine .pure ?_
    rintro s γ ⟨rfl, h⟩
    exact hinvalid s γ (.inl had) h
  | some ad =>
  refine .ite (fun hready => .pure ?_) fun hready => ?_
  · rintro s γ ⟨rfl, h⟩
    exact hinvalid s γ (.inr hready) h
  refine .bind ((hinstall ad).pre ?_) fun status => .ite (fun hne => ?_) fun hok => ?_
  · rintro s γ ⟨rfl, h⟩
    exact ⟨had, by simpa using hready, h⟩
  · exact .bind (.modify fun s γ h => hfailed status s γ hne h) fun _ => .pure fun _ _ h => h
  · obtain rfl : status = nxSuccess := Classical.not_not.mp hok
    exact .bind (happly ad) fun status => .bind (.modify (hend status)) fun _ =>
      .pure fun _ _ h => h

end

end Iotc.Ota
