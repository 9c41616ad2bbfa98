import Iotc.Hub.Pairing
import Iotc.Resume.Hoare
import Iotc.Sdk.Rules

/-!
# What the status codes say

A call is truthful when it returns zero only if every step succeeded and the client is connected,
and when it returns something else and leaves no object behind if a step failed. The
initialisation functions are so exactly when none of the failing steps is one whose status
they lose: the last part of the chain drops the status of connect, and
`iotconnect_sdk_init` returns `NX_FALSE`, which is zero, for a failing `iotcl_init`.
-/

namespace Iotc.Sdk

open Iotc.C Iotc.Resume Iotc.Hub
open Iotc.Web (nxSuccess IotConnectAzrtosConfig)

/-! ## Failures and objects of a trace -/

/-- The calls that failed. -/
def failures (u : Tr Op Ans) : List Op :=
  u.filterMap fun ev => if fails ev.1 ev.2 then some ev.1 else none

theorem failures_snoc (u : Tr Op Ans) (op : Op) (a : Ans op) :
    failures (u ++ [⟨op, a⟩]) = failures u ++ if fails op a then [op] else [] := by
  unfold failures
  rw [List.filterMap_append]
  by_cases h : fails op a <;> simp [h]

/-- An object ends when the call to end it succeeds. -/
def event (o : Objects) : Ev Op Ans → Objects
  | ⟨.nxAzureIotCreate _, a⟩ => { o with azureIot := o.azureIot || a == nxSuccess }
  | ⟨.nxAzureIotDelete, a⟩ => { o with azureIot := o.azureIot && a != nxSuccess }
  | ⟨.nxAzureIotHubClientInitialize .., a⟩ => { o with client := o.client || a == nxSuccess }
  | ⟨.nxAzureIotHubClientDeInitialize, a⟩ => { o with client := o.client && a != nxSuccess }
  | _ => o

/-- What the calls of a trace have made and not ended. -/
def live (u : Tr Op Ans) : Objects := u.foldl event ⟨false, false⟩

theorem live_snoc (u : Tr Op Ans) (op : Op) (a : Ans op) :
    live (u ++ [⟨op, a⟩]) = event (live u) ⟨op, a⟩ := List.foldl_append

/-- Zero stands for success throughout, a failure for another status and for nothing left behind. -/
structure Truthful (ret : UINT) (s : St) (u : Tr Op Ans) : Prop where
  zero : ret = nxSuccess → failures u = [] ∧
    (⟨.nxAzureIotHubClientConnect, nxSuccess⟩ : Ev Op Ans) ∈ u ∧ s.hub.isConnected = true
  failed : failures u ≠ [] → ret ≠ nxSuccess ∧ live u = ⟨false, false⟩

/-- The steps whose failure ends the initialisation with their own status. -/
def loud : Op → Bool
  | .nxAzureIotLogInit | .iotclInit _ | .nxAzureIotHubClientModelIdSet => false
  | .nxAzureIotHubClientConnect | .nxAzureIotHubClientDeInitialize | .nxAzureIotDelete => false
  | _ => true

/-- The initialisation has a status to return: that of a loud step, that of an unknown type of
authentication, or, for a failing connect, what an equally failing `model_id_set` left. -/
def Reported (auth : IotConnectAuth) (u : Tr Op Ans) : Prop :=
  (∃ op ∈ failures u, loud op = true) ∨
  (auth = .unknown ∧ ∀ c, Op.iotclInit c ∉ failures u) ∨
  (.nxAzureIotHubClientModelIdSet ∈ failures u ∧ .nxAzureIotHubClientConnect ∈ failures u)

/-- Calls that end an object. -/
def ends : Op → Bool
  | .nxAzureIotHubClientDeInitialize | .nxAzureIotDelete => true
  | _ => false

/-- No call to end an object failed. -/
def CleanedUp (u : Tr Op Ans) : Prop := ∀ op ∈ failures u, ends op = false

/-- When the status is truthful. -/
def Sound (auth : IotConnectAuth) (u : Tr Op Ans) : Prop :=
  failures u = [] ∨ Reported auth u ∧ CleanedUp u

/-! ## Assertions about a call's own part of the trace -/

/-- `φ` holds of the state and of what was added to `t0`. -/
def Since (t0 : Tr Op Ans) (φ : St → Tr Op Ans → Prop) (s : St) (t : Tr Op Ans) : Prop :=
  ∃ u, t = t0 ++ u ∧ φ s u

abbrev seqLogic (ans : Tr Op Ans → (op : Op) → Ans op) : Logic Op Ans St (Tr Op Ans) :=
  (World.sequential ans).logic (fun _ _ => True) fun _ _ => True

section
variable {ans : Tr Op Ans → (op : Op) → Ans op} {t0 : Tr Op Ans}

theorem spec_since {o : Op} {φ : St → Tr Op Ans → Prop} {ψ : Ans o → St → Tr Op Ans → Prop}
    (h : ∀ s u a, φ s u → ψ a s (u ++ [⟨o, a⟩])) :
    (seqLogic ans).Spec (Since t0 φ) (.call o) fun a => Since t0 (ψ a) :=
  .call_quiet (World.sequential_quiet ans o) fun s t a ⟨u, ht, hφ⟩ _ =>
    ⟨u ++ [⟨o, a⟩], by rw [ht, List.append_assoc], h s u a hφ⟩

end

/-! ## The initialisation of the hub client -/

/-- At most the log has failed. -/
def Minor (u : Tr Op Ans) : Prop := ∀ op ∈ failures u, op = .nxAzureIotLogInit

/-- What is left when a call to end an object has failed. -/
def Phase.leftover : Phase → Objects → Prop
  | .initialised, _ => False
  | .created, o => o.client = true
  | .absent, o => o ≠ ⟨false, false⟩

def track (auth : IotConnectAuth) (n : Course) (ph : Phase) (u : Tr Op Ans) : Prop :=
  match n with
  | .fine => Minor u ∧ live u = ph.objects
  | .known => auth ≠ .unknown ∧ Minor u ∧ live u = ph.objects
  | .troubled => Reported auth u ∧ (CleanedUp u ∧ live u = ph.objects ∨
      ¬ CleanedUp u ∧ Phase.leftover ph (live u))

/-- The same, with the type of authentication in the hub client's configuration. -/
def Tracked (t0 : Tr Op Ans) (auth : IotConnectAuth) (n : Course) (ph : Phase) :
    St → Tr Op Ans → Prop := Since t0 fun s u => s.hub.config.auth = auth ∧ track auth n ph u

theorem setup_loud {op : Op} {ph : Phase} (h : op.setup = some ph) : loud op = true := by
  cases op <;> first | rfl | cases h

theorem loud_not_ends {op : Op} (h : loud op = true) : ends op = false := by
  cases op <;> first | rfl | cases h

theorem setup_event {op : Op} {ph : Phase} (h : op.setup = some ph) (o : Objects) (a : Ans op) :
    event o ⟨op, a⟩ = o := by
  cases op <;> first | rfl | cases h

section
variable {u : Tr Op Ans} {op : Op} {a : Ans op} {auth : IotConnectAuth}

theorem failures_snoc_ok (h : fails op a = false) : failures (u ++ [⟨op, a⟩]) = failures u := by
  rw [failures_snoc, h]
  exact List.append_nil _

theorem failures_snoc_failed (h : fails op a = true) :
    failures (u ++ [⟨op, a⟩]) = failures u ++ [op] := by
  rw [failures_snoc, h]
  rfl

theorem mem_failures_snoc {op' : Op} :
    op' ∈ failures (u ++ [⟨op, a⟩]) ↔ op' ∈ failures u ∨ fails op a = true ∧ op' = op := by
  rw [failures_snoc, List.mem_append]
  by_cases h : fails op a <;> simp [h]

theorem Minor.cleanedUp (h : Minor u) : CleanedUp u := fun op hop => by
  rw [h op hop]
  rfl

theorem CleanedUp.snoc (h : CleanedUp u) (hop : fails op a = true → ends op = false) :
    CleanedUp (u ++ [⟨op, a⟩]) := fun op' hmem =>
  (mem_failures_snoc.mp hmem).elim (h op') fun ⟨hfails, he⟩ => he ▸ hop hfails

theorem not_cleanedUp_snoc (h : ¬ CleanedUp u) : ¬ CleanedUp (u ++ [⟨op, a⟩]) := fun hclean =>
  h fun op hop => hclean op (mem_failures_snoc.mpr (.inl hop))

theorem not_cleanedUp_ends (hfails : fails op a = true) (hop : ends op = true) :
    ¬ CleanedUp (u ++ [⟨op, a⟩]) := fun hclean => by
  have h := hclean op (mem_failures_snoc.mpr (.inr ⟨hfails, rfl⟩))
  rw [hop] at h
  cases h

theorem Reported.snoc (h : Reported auth u) (hop : ∀ c, op ≠ .iotclInit c) :
    Reported auth (u ++ [⟨op, a⟩]) := by
  have hmono : ∀ {op'}, op' ∈ failures u → op' ∈ failures (u ++ [⟨op, a⟩]) := fun hmem =>
    mem_failures_snoc.mpr (.inl hmem)
  rcases h with ⟨op', hmem, hloud⟩ | ⟨hauth, hinit⟩ | ⟨hmodel, hconnect⟩
  · exact .inl ⟨op', hmono hmem, hloud⟩
  · exact .inr (.inl ⟨hauth, fun c hmem => (mem_failures_snoc.mp hmem).elim (hinit c) fun h =>
      hop c h.2.symm⟩)
  · exact .inr (.inr ⟨hmono hmodel, hmono hconnect⟩)

theorem reported_loud (hfails : fails op a = true) (hop : loud op = true) :
    Reported auth (u ++ [⟨op, a⟩]) := .inl ⟨op, mem_failures_snoc.mpr (.inr ⟨hfails, rfl⟩), hop⟩

/-- A loud step that fails without touching an object. -/
theorem track_failed {ph : Phase} (hminor : Minor u) (hlive : live u = ph.objects)
    (hop : loud op = true) (hfails : fails op a = true)
    (hevent : event ph.objects ⟨op, a⟩ = ph.objects) :
    track auth .troubled ph (u ++ [⟨op, a⟩]) := by
  refine ⟨reported_loud hfails hop, .inl ⟨hminor.cleanedUp.snoc fun _ => loud_not_ends hop, ?_⟩⟩
  rw [live_snoc, hlive, hevent]

theorem Minor.snoc_ok (h : Minor u) (hok : fails op a = false) : Minor (u ++ [⟨op, a⟩]) := by
  unfold Minor
  rw [failures_snoc_ok hok]
  exact h

/-- A step of the initialisation in its phase. -/
theorem track_setup {n : Course} {ph : Phase} (hop : op.setup = some ph) (hn : n ≠ .troubled)
    (h : track auth n ph u) :
    track auth (if fails op a then .troubled else n) ph (u ++ [⟨op, a⟩]) := by
  have hfine : Minor u ∧ live u = ph.objects := by
    cases n with
    | fine => exact h
    | known => exact h.2
    | troubled => exact absurd rfl hn
  by_cases hfails : fails op a = true
  · rw [if_pos hfails]
    exact track_failed hfine.1 hfine.2 (setup_loud hop) hfails (setup_event hop _ a)
  · rw [if_neg hfails]
    have hlive : live (u ++ [⟨op, a⟩]) = ph.objects := by
      rw [live_snoc, hfine.2, setup_event hop]
    have hminor := hfine.1.snoc_ok (Bool.not_eq_true _ ▸ hfails)
    cases n with
    | fine => exact ⟨hminor, hlive⟩
    | known => exact ⟨h.1, hminor, hlive⟩
    | troubled => exact absurd rfl hn

theorem track_create {c : IotConnectAzrtosConfig} {a : UINT} (h : track auth .fine .absent u) :
    if a = nxSuccess then track auth .fine .created (u ++ [⟨.nxAzureIotCreate c, a⟩])
    else track auth .troubled .absent (u ++ [⟨.nxAzureIotCreate c, a⟩]) := by
  obtain ⟨hminor, hlive⟩ := h
  by_cases ha : a = nxSuccess
  · subst ha
    refine ⟨hminor.snoc_ok rfl, ?_⟩
    rw [live_snoc, hlive]
    rfl
  · rw [if_neg ha]
    refine track_failed hminor hlive rfl (by simpa [fails] using ha) ?_
    simp [event, Phase.objects, ha]

theorem track_initialise {host deviceName : CStr} {crypto : IotcAzccCryptoConfig} {a : UINT}
    (h : track auth .known .created u) :
    if a = nxSuccess then
      track auth .known .initialised
        (u ++ [⟨.nxAzureIotHubClientInitialize host deviceName crypto, a⟩])
    else
      track auth .troubled .created
        (u ++ [⟨.nxAzureIotHubClientInitialize host deviceName crypto, a⟩]) := by
  obtain ⟨hauth, hminor, hlive⟩ := h
  by_cases ha : a = nxSuccess
  · subst ha
    refine ⟨hauth, hminor.snoc_ok rfl, ?_⟩
    rw [live_snoc, hlive]
    rfl
  · rw [if_neg ha]
    refine track_failed hminor hlive rfl (by simpa [fails] using ha) ?_
    simp [event, Phase.objects, ha]

theorem track_deInitialize {a : UINT} (h : track auth .troubled .initialised u) :
    track auth .troubled .created (u ++ [⟨.nxAzureIotHubClientDeInitialize, a⟩]) := by
  obtain ⟨hreported, ⟨hclean, hlive⟩ | ⟨-, hleft⟩⟩ := h
  · refine ⟨hreported.snoc nofun, ?_⟩
    by_cases ha : a = nxSuccess
    · subst ha
      refine .inl ⟨hclean.snoc nofun, ?_⟩
      rw [live_snoc, hlive]
      rfl
    · refine .inr ⟨not_cleanedUp_ends (by simpa [fails] using ha) rfl, ?_⟩
      rw [live_snoc, hlive]
      simp [event, Phase.objects, Phase.leftover, ha]
  · exact hleft.elim

theorem track_delete {a : UINT} (h : track auth .troubled .created u) :
    track auth .troubled .absent (u ++ [⟨.nxAzureIotDelete, a⟩]) := by
  obtain ⟨hreported, ⟨hclean, hlive⟩ | ⟨hdirty, hleft⟩⟩ := h
  · refine ⟨hreported.snoc nofun, ?_⟩
    by_cases ha : a = nxSuccess
    · subst ha
      refine .inl ⟨hclean.snoc nofun, ?_⟩
      rw [live_snoc, hlive]
      rfl
    · refine .inr ⟨not_cleanedUp_ends (by simpa [fails] using ha) rfl, ?_⟩
      rw [live_snoc, hlive]
      simp [event, Phase.objects, Phase.leftover, ha]
  · refine ⟨hreported.snoc nofun, .inr ⟨not_cleanedUp_snoc hdirty, ?_⟩⟩
    have hclient : (live u).client = true := hleft
    rw [live_snoc]
    simp [event, Phase.leftover, hclient]

end

/-- A status that decides how the initialisation goes on. -/
theorem spec_after {L : Logic Op Ans St (Tr Op Ans)} {P : St → Tr Op Ans → Prop} {p : M UINT}
    {t0 : Tr Op Ans} {auth : IotConnectAuth} {n : Course} {ph ph' : Phase}
    (h : L.Spec P p fun a => Since t0 fun s u => s.hub.config.auth = auth ∧
      if a = nxSuccess then track auth n ph u else track auth .troubled ph' u) :
    L.Spec P p (After (Tracked t0 auth) n ph ph') := by
  refine h.post fun a s t hs => ?_
  unfold After
  by_cases ha : a = nxSuccess
  · rw [if_pos ha]
    simp only [if_pos ha] at hs
    exact hs
  · rw [if_neg ha]
    simp only [if_neg ha] at hs
    exact hs

theorem initRules (ans : Tr Op Ans → (op : Op) → Ans op) (t0 : Tr Op Ans) (auth : IotConnectAuth) :
    InitRules (seqLogic ans) (Tracked t0 auth) where
  log := spec_since fun s u a ⟨hauth, hminor, hlive⟩ => by
    refine ⟨hauth, fun op hmem => ?_, ?_⟩
    · exact (mem_failures_snoc.mp hmem).elim (hminor op) fun h => h.2
    · rw [live_snoc, hlive]
      rfl
  setup op ph n hop hn := spec_since fun s u a ⟨hauth, h⟩ => ⟨hauth, track_setup hop hn h⟩
  create c := spec_after (spec_since fun s u a h => ⟨h.1, track_create (a := a) h.2⟩)
  known s t hknown h := by
    obtain ⟨u, ht, hauth, hfine⟩ := h
    exact ⟨u, ht, hauth, hauth ▸ hknown, hfine⟩
  unknown s t hunknown h := by
    obtain ⟨u, ht, hauth, hminor, hlive⟩ := h
    refine ⟨u, ht, hauth, .inr (.inl ⟨hauth ▸ hunknown, fun c hmem => ?_⟩), ?_⟩
    · exact absurd (hminor _ hmem) nofun
    · exact .inl ⟨hminor.cleanedUp, hlive⟩
  initialise host deviceName crypto :=
    spec_after (spec_since fun s u a h => ⟨h.1, track_initialise (a := a) h.2⟩)
  deInitialize := spec_since fun s u a ⟨hauth, h⟩ => ⟨hauth, track_deInitialize h⟩
  delete := spec_since fun s u a ⟨hauth, h⟩ => ⟨hauth, track_delete h⟩
  stop _ _ _ := trivial

/-! ## The end of the initialisation -/

/-- The status `ret` is truthful exactly when it should be. -/
def Judged (t0 : Tr Op Ans) (auth : IotConnectAuth) (ret : UINT) : St → Tr Op Ans → Prop :=
  Since t0 fun s u => Truthful ret s u ↔ Sound auth u

section
variable {auth : IotConnectAuth} {u : Tr Op Ans} {s : St} {ret : UINT}

/-- A failure with its own status, with everything ended that could be. -/
theorem judge_troubled (hne : ret ≠ nxSuccess) (h : track auth .troubled .absent u) :
    Truthful ret s u ↔ Sound auth u := by
  obtain ⟨hreported, ⟨hclean, hlive⟩ | ⟨hdirty, hleft⟩⟩ := h
  · exact ⟨fun _ => .inr ⟨hreported, hclean⟩,
      fun _ => ⟨fun hret => absurd hret hne, fun _ => ⟨hne, hlive⟩⟩⟩
  · have hfailures : failures u ≠ [] := fun hnil => hdirty fun op hop => by
      rw [hnil] at hop
      cases hop
    exact ⟨fun h => absurd (h.failed hfailures).2 hleft,
      fun h => absurd (h.resolve_left hfailures).2 hdirty⟩

theorem not_reported (hauth : auth ≠ .unknown ∨ ∃ c, Op.iotclInit c ∈ failures u)
    (hquiet : ∀ op ∈ failures u, loud op = false)
    (hboth : .nxAzureIotHubClientModelIdSet ∈ failures u →
      .nxAzureIotHubClientConnect ∉ failures u) : ¬ Reported auth u := by
  rintro (⟨op, hmem, hloud⟩ | ⟨hunknown, hinit⟩ | ⟨hmodel, hconnect⟩)
  · rw [hquiet op hmem] at hloud
    cases hloud
  · exact hauth.elim (fun hne => hne hunknown) fun ⟨c, hc⟩ => hinit c hc
  · exact hboth hmodel hconnect

/-- A lost failure. -/
theorem judge_lost (hfailures : failures u ≠ []) (hreported : ¬ Reported auth u) :
    Truthful nxSuccess s u ↔ Sound auth u :=
  ⟨fun h => absurd rfl (h.failed hfailures).1,
    fun h => absurd (h.resolve_left hfailures).1 hreported⟩

/-- A success. -/
theorem judge_success (hreported : ¬ Reported auth u) (hup : s.hub.isConnected = true)
    (hconnect : (⟨.nxAzureIotHubClientConnect, nxSuccess⟩ : Ev Op Ans) ∈ u) :
    Truthful nxSuccess s u ↔ Sound auth u := by
  constructor
  · exact fun h => .inl (h.zero rfl).1
  · intro h
    have hnil := h.resolve_right fun h => hreported h.1
    exact ⟨fun _ => ⟨hnil, hconnect, hup⟩, fun hne => absurd hnil hne⟩

end

/-- Between the initialisation of the hub client and its connect call; `status` is that of
`model_id_set`. -/
structure BeforeConnect (auth : IotConnectAuth) (status : UINT) (u : Tr Op Ans) : Prop where
  known : auth ≠ .unknown
  live : live u = ⟨true, true⟩
  failed : ∀ op ∈ failures u, op = .nxAzureIotLogInit ∨ op = .nxAzureIotHubClientModelIdSet
  status : status ≠ nxSuccess ↔ .nxAzureIotHubClientModelIdSet ∈ failures u

/-- A connect failure whose status is lost. -/
structure Lost (auth : IotConnectAuth) (u : Tr Op Ans) : Prop where
  known : auth ≠ .unknown
  failed : failures u ≠ []
  quiet : ∀ op ∈ failures u, loud op = false ∧ op ≠ .nxAzureIotHubClientModelIdSet

section
variable {auth : IotConnectAuth} {u : Tr Op Ans} {status : UINT}

theorem BeforeConnect.modelIdSet (h : track auth .known .initialised u) (a : UINT) :
    BeforeConnect auth a (u ++ [⟨.nxAzureIotHubClientModelIdSet, a⟩]) := by
  obtain ⟨hauth, hminor, hlive⟩ := h
  refine ⟨hauth, by rw [live_snoc, hlive]; rfl, fun op hmem => ?_, ?_⟩
  · exact (mem_failures_snoc.mp hmem).imp (hminor op) fun h => h.2
  · rw [mem_failures_snoc]
    constructor
    · exact fun hne => .inr ⟨by simpa [fails] using hne, rfl⟩
    · exact fun hmem => hmem.elim (fun h => absurd (hminor _ h) nofun) fun h => by
        simpa [fails] using h.1

theorem BeforeConnect.plain (h : track auth .known .initialised u) :
    BeforeConnect auth nxSuccess u := by
  obtain ⟨hauth, hminor, hlive⟩ := h
  exact ⟨hauth, hlive, fun op hmem => .inl (hminor op hmem),
    ⟨fun hne => absurd rfl hne, fun hmem => absurd (hminor _ hmem) nofun⟩⟩

theorem BeforeConnect.established (h : BeforeConnect auth status u) {s : St}
    (hup : s.hub.isConnected = true) :
    Truthful nxSuccess s (u ++ [⟨.nxAzureIotHubClientConnect, nxSuccess⟩]) ↔
      Sound auth (u ++ [⟨.nxAzureIotHubClientConnect, nxSuccess⟩]) := by
  refine judge_success (not_reported (.inl h.known) (fun op hmem => ?_) fun _ hmem => ?_) hup
    (by simp)
  all_goals rw [failures_snoc_ok rfl] at hmem
  · rcases h.failed op hmem with rfl | rfl <;> rfl
  · exact absurd (h.failed _ hmem) nofun

/-- The status of a failing `model_id_set` serves for a failing connect. -/
theorem BeforeConnect.refused (h : BeforeConnect auth status u) (hstatus : status ≠ nxSuccess)
    {a : UINT} (ha : a ≠ nxSuccess) :
    track auth .troubled .initialised (u ++ [⟨.nxAzureIotHubClientConnect, a⟩]) := by
  have hfails : fails .nxAzureIotHubClientConnect a = true := by simpa [fails] using ha
  have hmodel : .nxAzureIotHubClientModelIdSet ∈ failures
      (u ++ [⟨.nxAzureIotHubClientConnect, a⟩]) :=
    mem_failures_snoc.mpr (.inl (h.status.mp hstatus))
  refine ⟨.inr (.inr ⟨hmodel, mem_failures_snoc.mpr (.inr ⟨hfails, rfl⟩)⟩),
    .inl ⟨fun op hmem => ?_, ?_⟩⟩
  · rcases mem_failures_snoc.mp hmem with hmem | ⟨-, rfl⟩
    · rcases h.failed op hmem with rfl | rfl <;> rfl
    · rfl
  · rw [live_snoc, h.live]
    rfl

theorem BeforeConnect.lost (h : BeforeConnect auth nxSuccess u) {a : UINT} (ha : a ≠ nxSuccess) :
    Lost auth (u ++ [⟨.nxAzureIotHubClientConnect, a⟩]) := by
  have hfails : fails .nxAzureIotHubClientConnect a = true := by simpa [fails] using ha
  refine ⟨h.known, ?_, fun op hmem => ?_⟩
  · rw [failures_snoc_failed hfails]
    simp
  · rcases mem_failures_snoc.mp hmem with hmem | ⟨-, rfl⟩
    · rcases h.failed op hmem with rfl | rfl
      · exact ⟨rfl, nofun⟩
      · exact absurd rfl (h.status.mpr hmem)
    · exact ⟨rfl, nofun⟩

theorem Lost.ends {op : Op} {a : Ans op} (h : Lost auth u) (hop : ends op = true) :
    Lost auth (u ++ [⟨op, a⟩]) := by
  refine ⟨h.known, ?_, fun op' hmem => ?_⟩
  · rw [failures_snoc]
    simp [h.failed]
  · rcases mem_failures_snoc.mp hmem with hmem | ⟨-, rfl⟩
    · exact h.quiet op' hmem
    · cases op' <;> first | (cases hop; done) | exact ⟨rfl, nofun⟩

theorem Lost.judged (h : Lost auth u) {s : St} : Truthful nxSuccess s u ↔ Sound auth u :=
  judge_lost h.failed (not_reported (.inl h.known) (fun op hmem => (h.quiet op hmem).1)
    fun hmem => absurd rfl (h.quiet _ hmem).2)

end

section
variable (ans : Tr Op Ans → (op : Op) → Ans op) (t0 : Tr Op Ans) (auth : IotConnectAuth)

theorem spec_connectIothub (adu : Bool) :
    (seqLogic ans).Spec (Tracked t0 auth .known .initialised) (connectIothub adu nxSuccess)
      (Judged t0 auth) := by
  refine .bind (Q := fun status => Since t0 fun s u => s.hub.config.auth = auth ∧
    BeforeConnect auth status u) ?_ fun status => ?_
  · refine .ite (fun _ => ?_) fun _ => .pure fun s t ⟨u, ht, hauth, h⟩ => ⟨u, ht, hauth, .plain h⟩
    exact spec_since fun s u a ⟨hauth, h⟩ => ⟨hauth, .modelIdSet h a⟩
  refine .bind (spec_since (o := .nxAzureIotHubClientConnect) (ψ := fun (a : UINT) s u' =>
    ∃ u, u' = u ++ [⟨.nxAzureIotHubClientConnect, a⟩] ∧ s.hub.config.auth = auth ∧
      BeforeConnect auth status u) fun s u a h => ⟨u, rfl, h⟩) fun a =>
        .ite (fun ha => ?_) fun ha => ?_
  · by_cases hstatus : status = nxSuccess
    · subst hstatus
      have hends : ∀ op, ends op = true → (seqLogic ans).Spec (Since t0 fun _ u => Lost auth u)
          (.call op) fun _ => Since t0 fun _ u => Lost auth u := fun op hop =>
        spec_since fun s u a h => h.ends hop
      refine .bind ((hends .nxAzureIotHubClientDeInitialize rfl).pre ?_) fun _ => ?_
      · rintro s t ⟨_, ht, u, rfl, -, h⟩
        exact ⟨_, ht, h.lost ha⟩
      refine .bind (hends .nxAzureIotDelete rfl) fun _ => .pure ?_
      rintro s t ⟨u, ht, h⟩
      exact ⟨u, ht, h.judged⟩
    · refine .bind ((initRules ans t0 auth).deInitialize.pre ?_) fun _ => ?_
      · rintro s t ⟨_, ht, u, rfl, hauth, h⟩
        exact ⟨_, ht, hauth, h.refused hstatus ha⟩
      refine .bind (initRules ans t0 auth).delete fun _ => .pure ?_
      rintro s t ⟨u, ht, hauth, h⟩
      exact ⟨u, ht, judge_troubled hstatus h⟩
  · obtain rfl : a = nxSuccess := not_not.mp ha
    refine .bind (Q := fun _ => Judged t0 auth nxSuccess) (.modify ?_) fun _ => .pure fun _ _ h => h
    rintro s t ⟨_, ht, u, rfl, -, h⟩
    exact ⟨_, ht, h.established rfl⟩

/-- `iothub_client_init` from any state in which no step has failed. -/
theorem spec_iothubClientInit (adu : Bool) (c : IotConnectIotHubConfig)
    (azrtosConfig : IotConnectAzrtosConfig) :
    (seqLogic ans).Spec (Since t0 fun _ u => failures u = [] ∧ live u = ⟨false, false⟩)
      (iothubClientInit adu c azrtosConfig) (Judged t0 c.auth) := by
  refine (initRules ans t0 c.auth).iothubClientInit adu c azrtosConfig ?_
    (spec_connectIothub ans t0 c.auth adu) ?_
  · rintro s t ⟨u, ht, hnil, hlive⟩
    refine ⟨u, ht, rfl, fun op hop => ?_, hlive⟩
    rw [hnil] at hop
    cases hop
  · rintro status s t hne ⟨u, ht, -, h⟩
    exact ⟨u, ht, judge_troubled hne h⟩

/-! ## The SDK's initialisation -/

/-- No step has failed so far. -/
def Clear : St → Tr Op Ans → Prop :=
  Since t0 fun s u => s.sdk.config.auth = auth ∧ failures u = [] ∧ live u = ⟨false, false⟩

/-- A step has failed, before any object was made. -/
def Failed : St → Tr Op Ans → Prop := Since t0 fun _ u => track auth .troubled .absent u

/-- A step of the SDK, which touches no object. -/
theorem spec_step {o : Op} (hevent : ∀ x (a : Ans o), event x ⟨o, a⟩ = x)
    (hloud : loud o = true) :
    (seqLogic ans).Spec (Clear t0 auth) (.call o) fun a =>
      if fails o a then Failed t0 auth else Clear t0 auth := by
  refine Logic.Spec.post (spec_since (ψ := fun a s u' => ∃ u, u' = u ++ [⟨o, a⟩] ∧
    s.sdk.config.auth = auth ∧ failures u = [] ∧ live u = ⟨false, false⟩)
    fun s u a h => ⟨u, rfl, h⟩) ?_
  rintro a s t ⟨_, ht, u, rfl, hauth, hnil, hlive⟩
  by_cases hfails : fails o a = true
  · rw [if_pos hfails]
    refine ⟨_, ht, track_failed (fun o hop => ?_) hlive hloud hfails (hevent _ a)⟩
    rw [hnil] at hop
    cases hop
  · rw [if_neg hfails]
    refine ⟨_, ht, hauth, ?_, by rw [live_snoc, hlive, hevent]⟩
    rw [failures_snoc_ok (Bool.not_eq_true _ ▸ hfails), hnil]

theorem responseJson_none (req : Web.IotConnectHttpRequest) (answer : UINT × Option CStr) :
    responseJson answer = none ↔ fails (.iotconnectHttpsRequest req) answer = true := by
  obtain ⟨status, text⟩ := answer
  have hbrace : ∀ xs : CStr, jsonStart xs = none ↔ 0x7B ∉ xs := fun xs => by
    unfold jsonStart
    induction xs with
    | nil => simp
    | cons x xs ih =>
      by_cases hx : x = 0x7B
      · simp [hx]
      · simp only [List.dropWhile_cons, hx, ne_eq, not_false_eq_true, decide_true, if_pos, ih]
        simp [Ne.symm hx]
  by_cases hstatus : status = nxSuccess
  · cases text with
    | none => simp [responseJson, fails, hstatus]
    | some text => simp [responseJson, fails, hstatus, hbrace]
  · simp [responseJson, fails, hstatus]

theorem spec_clear_httpsRequest (B : Build) (host resource : CStr) (payload : Option CStr) :
    (seqLogic ans).Spec (Clear t0 auth) (httpsRequest B host resource payload) fun answer =>
      if responseJson answer = none then Failed t0 auth else Clear t0 auth := by
  refine spec_httpsRequest (fun _ => (spec_step ans t0 auth (fun _ _ => rfl) rfl).post ?_) _ _ _
  intro answer s t h
  by_cases hnone : responseJson answer = none
  · rw [if_pos hnone]
    rwa [if_pos ((responseJson_none _ answer).mp hnone)] at h
  · rw [if_neg hnone]
    rwa [if_neg fun hfails => hnone ((responseJson_none _ answer).mpr hfails)] at h

/-- A call that never fails and touches no object. -/
theorem spec_free {o : Op} (hok : ∀ a, fails o a = false)
    (hevent : ∀ x (a : Ans o), event x ⟨o, a⟩ = x) :
    (seqLogic ans).Spec (Failed t0 auth) (.call o) fun _ => Failed t0 auth :=
  spec_since fun s u a ⟨hreported, h⟩ => by
    refine ⟨hreported.snoc ?_, ?_⟩
    · rintro c rfl
      exact absurd (hok false) nofun
    rw [live_snoc, hevent]
    rcases h with ⟨hclean, hlive⟩ | ⟨hdirty, hleft⟩
    · exact .inl ⟨hclean.snoc fun hfails => absurd (hfails.symm.trans (hok a)) nofun, hlive⟩
    · exact .inr ⟨not_cleanedUp_snoc hdirty, hleft⟩

theorem spec_clear_runHttpDiscovery (B : Build) (cpid env : Option CStr) :
    (seqLogic ans).Spec (Clear t0 auth) (runHttpDiscovery B cpid env) fun r =>
      if r.isNone then Failed t0 auth else Clear t0 auth := by
  refine spec_runHttpDiscovery (fun _ _ _ _ => trivial)
    (fun _ _ _ _ => spec_clear_httpsRequest ans t0 auth B _ _ _) (fun answer hnone s t h => ?_)
    fun answer json hjson => ?_
  · rwa [if_pos hnone] at h
  · rw [hjson, if_neg nofun]
    exact spec_step ans t0 auth (o := .iotclDiscoveryParseDiscoveryResponse json)
      (fun _ _ => rfl) rfl

theorem spec_judged_acceptSync (json : CStr) (ret : Option IotclSyncResponse) :
    (seqLogic ans).Spec
      (if fails (.iotclDiscoveryParseSyncResponse json) ret then Failed t0 auth else Clear t0 auth)
      (acceptSync ret) fun r => if r.isNone then Failed t0 auth else Clear t0 auth := by
  cases ret with
  | none =>
    refine .bind (Q := fun _ => Failed t0 auth) (.modify fun s t h => h) fun _ => ?_
    exact .bind (spec_free ans t0 auth (o := .iotclDiscoveryFreeSyncResponse none) (fun _ => rfl)
      fun _ _ => rfl) fun _ => .pure fun s t h => h
  | some response =>
    refine .bind (Q := fun _ => if response.ds ≠ .ok then Failed t0 auth else Clear t0 auth)
      (.modify ?_) fun _ => .ite (fun hds => ?_) fun hds => ?_
    · intro s t h
      by_cases hds : response.ds = .ok
      · rw [if_neg (not_not.mpr hds)]
        rwa [if_neg (by simp [fails, hds])] at h
      · rw [if_pos hds]
        rwa [if_pos (by simp [fails, hds])] at h
    · rw [if_pos hds]
      exact .bind (spec_free ans t0 auth (o := .iotclDiscoveryFreeSyncResponse (some response))
        (fun _ => rfl) fun _ _ => rfl) fun _ => .pure fun s t h => h
    · rw [if_neg hds]
      exact .pure fun s t h => h

theorem spec_clear_runHttpSync (B : Build) (cpid uniqueid : Option CStr) :
    (seqLogic ans).Spec (Clear t0 auth) (runHttpSync B cpid uniqueid) fun r =>
      if r.isNone then Failed t0 auth else Clear t0 auth := by
  refine spec_runHttpSync (fun _ _ _ => .inl trivial)
    (fun _ _ _ _ _ _ _ => (spec_clear_httpsRequest ans t0 auth B _ _ _).pre fun _ _ h => h.2)
    (fun answer hnone s t h => ?_) (fun answer json hjson => ?_)
    (spec_judged_acceptSync ans t0 auth [])
  · rwa [if_pos hnone] at h
  · rw [hjson, if_neg nofun]
    exact spec_step ans t0 auth (o := .iotclDiscoveryParseSyncResponse json) (fun _ _ => rfl) rfl

theorem spec_startHub (B : Build) (response : IotclSyncResponse) :
    (seqLogic ans).Spec (Clear t0 auth) (startHub B response) (Judged t0 auth) := by
  refine .bind_get (φ := fun s => s.sdk.config.auth = auth) (fun s t ⟨u, _, h⟩ => h.1)
    fun s0 h0 => ?_
  refine .bind (Q := fun _ => Clear t0 auth) (.modify fun s t h => h) fun _ => ?_
  refine .bind (spec_since (o := .iotclInit (libConfigOf s0.sdk.config response))
    (ψ := fun a _ u' => ∃ u, u' = u ++ [⟨.iotclInit (libConfigOf s0.sdk.config response), a⟩] ∧
      failures u = [] ∧ live u = ⟨false, false⟩) fun s u a h => ⟨u, rfl, h.2⟩) fun initialised =>
    .ite (fun hfailed => ?_) fun hok => ?_
  · obtain rfl : initialised = false := hfailed
    refine .pure ?_
    rintro s t ⟨_, ht, u, rfl, hnil, -⟩
    have hfailures : failures (u ++ [⟨.iotclInit (libConfigOf s0.sdk.config response), false⟩]) =
        [.iotclInit (libConfigOf s0.sdk.config response)] := by
      rw [failures_snoc_failed rfl, hnil]
      rfl
    refine ⟨_, ht, judge_lost (by rw [hfailures]; nofun) (not_reported (.inr ?_) ?_ ?_)⟩
    all_goals rw [hfailures]
    · exact ⟨_, List.mem_singleton_self _⟩
    · rintro op hop
      rw [List.mem_singleton.mp hop]
      rfl
    · exact fun hmem => absurd (List.mem_singleton.mp hmem) nofun
  · obtain rfl : initialised = true := by simpa using hok
    subst h0
    refine (spec_iothubClientInit ans t0 B.adu _ _).pre ?_
    rintro s t ⟨_, ht, u, rfl, hnil, hlive⟩
    exact ⟨_, ht, by rw [failures_snoc_ok rfl, hnil], by rw [live_snoc, hlive]; rfl⟩

theorem spec_iotconnectSdkInit (B : Build) (ac : IotConnectAzrtosConfig) :
    (seqLogic ans).Spec (fun s t => s.sdk.config.auth = auth ∧ t = t0) (iotconnectSdkInit B ac)
      (Judged t0 auth) := by
  refine .bind (Q := fun _ => Clear t0 auth) (.modify ?_) fun _ => ?_
  · rintro s t ⟨hauth, rfl⟩
    exact ⟨[], (List.append_nil t).symm, hauth, rfl, rfl⟩
  refine .bind_get_any fun s0 => ?_
  refine .bind (spec_step ans t0 auth (o := .iotclDiscoveryFreeDiscoveryResponse
    s0.sdk.discoveryResponse) (fun _ _ => rfl) rfl) fun _ => ?_
  refine .bind (spec_step ans t0 auth (o := .iotclDiscoveryFreeSyncResponse s0.sdk.syncResponse)
    (fun _ _ => rfl) rfl) fun _ => ?_
  refine .bind (Q := fun _ => Clear t0 auth) (.modify fun s t h => h) fun _ => ?_
  have hgiveUp : ∀ status : UINT, status ≠ nxSuccess →
      (seqLogic ans).Spec (Failed t0 auth) (pure status : M UINT) (Judged t0 auth) :=
    fun status hne => .pure fun s t ⟨u, ht, h⟩ => ⟨u, ht, judge_troubled hne h⟩
  refine .bind (spec_clear_runHttpDiscovery ans t0 auth B _ _) fun discovery => ?_
  refine .bind (Q := fun _ => if discovery.isNone then Failed t0 auth else Clear t0 auth)
    (.modify fun s t h => ?_) fun _ => .ite (fun hnone => ?_) fun hsome => ?_
  · cases discovery <;> exact h
  · rw [if_pos hnone]
    exact hgiveUp _ (by decide)
  rw [if_neg hsome]
  refine .bind (spec_clear_runHttpSync ans t0 auth B _ _) fun sync => ?_
  refine .bind (Q := fun _ => if sync.isNone then Failed t0 auth else Clear t0 auth)
    (.modify fun s t h => ?_) fun _ => ?_
  · cases sync <;> exact h
  · cases sync with
    | none => exact hgiveUp _ (by decide)
    | some response => exact spec_startHub ans t0 auth B response

end

/-! ## Sending -/

/-- Zero stands for a message that the telemetry send call accepted, a failure for another
status. -/
structure TruthfulSend (message : CStr) (ret : UINT) (u : Tr Op Ans) : Prop where
  zero : ret = nxSuccess →
    ∃ packet, (⟨.nxAzureIotHubClientTelemetrySend packet message, nxSuccess⟩ : Ev Op Ans) ∈ u
  failed : failures u ≠ [] → ret ≠ nxSuccess

/-- The telemetry send call, if it is made, accepts the message. -/
def Accepted (message : CStr) (u : Tr Op Ans) : Prop :=
  ∀ packet, Op.nxAzureIotHubClientTelemetrySend packet message ∉ failures u

theorem spec_iothubSendMessage (ans : Tr Op Ans → (op : Op) → Ans op) (t0 : Tr Op Ans)
    (message : CStr) :
    (seqLogic ans).Spec (fun _ t => t = t0) (iothubSendMessage message) fun ret =>
      Since t0 fun _ u => TruthfulSend message ret u ↔ Accepted message u := by
  have hnone : ∀ s t, t = t0 → Since t0 (fun (_ : St) u => u = []) s t := fun s t ht =>
    ⟨[], by rw [ht, List.append_nil], rfl⟩
  refine .bind ((spec_since (ψ :=
    fun a _ u => u = [⟨.nxAzureIotHubClientTelemetryMessageCreate, a⟩])
    fun s u a hu => by rw [hu]; rfl).pre hnone) fun ⟨status, packet⟩ =>
      .ite (fun hne => ?_) fun hok => ?_
  · refine .pure ?_
    rintro s t ⟨u, ht, rfl⟩
    refine ⟨_, ht, iff_of_true ⟨fun hret => absurd hret hne, fun _ => hne⟩ fun packet hmem => ?_⟩
    exact ((mem_failures_snoc (u := [])).mp hmem).elim (fun h => nomatch h) fun h => nomatch h.2
  obtain rfl : status = nxSuccess := not_not.mp hok
  refine .bind (spec_since (o := .nxAzureIotHubClientTelemetrySend packet message)
    (ψ := fun a _ u => u = [⟨.nxAzureIotHubClientTelemetryMessageCreate, (nxSuccess, packet)⟩,
      ⟨.nxAzureIotHubClientTelemetrySend packet message, a⟩]) fun s u a hu => by rw [hu]; rfl)
    fun sent => .ite (fun hne => ?_) fun hok => ?_
  · refine .bind (spec_since (o := .nxAzureIotHubClientTelemetryMessageDelete packet)
      (ψ := fun _ _ u => .nxAzureIotHubClientTelemetrySend packet message ∈ failures u)
      fun s u a hu => ?_) fun _ => .pure ?_
    · have hfails : fails (.nxAzureIotHubClientTelemetrySend packet message) sent = true := by
        simpa [fails] using hne
      rw [hu, mem_failures_snoc]
      exact .inl ((mem_failures_snoc (u := [_])).mpr (.inr ⟨hfails, rfl⟩))
    · rintro s t ⟨u, ht, hmem⟩
      refine ⟨u, ht, iff_of_false (fun h => ?_) fun h => h packet hmem⟩
      exact h.failed (List.ne_nil_of_mem hmem) rfl
  · obtain rfl : sent = nxSuccess := not_not.mp hok
    refine .pure ?_
    rintro s t ⟨u, ht, rfl⟩
    exact ⟨_, ht, iff_of_true ⟨fun _ => ⟨packet, by simp⟩, fun hne => absurd rfl hne⟩
      fun packet hmem => nomatch hmem⟩

/-! ## Runs -/

/-- What a specification says of a call that returns. -/
theorem since_run {ans : Tr Op Ans → (op : Op) → Ans op} {p : M UINT} {s : St} {t : Tr Op Ans}
    {R : UINT → St → Tr Op Ans → Prop}
    (h : (seqLogic ans).Spec (fun s' t' => s' = s ∧ t' = t) p fun ret => Since t (R ret))
    {ret : UINT} (hret : (p.run (.sequential ans) s t).res = .ok ret) :
    R ret (p.run (.sequential ans) s t).st ((p.run (.sequential ans) s t).tr.drop t.length) := by
  obtain ⟨u, hu⟩ := Prog.run_grows (.sequential ans) s t p
  have hsat := h.sat ⟨rfl, rfl⟩ hu (.of_forall fun _ _ _ => trivial)
  unfold Out.Sat at hsat
  rw [hret] at hsat
  obtain ⟨v, hv, hR⟩ := hsat
  rwa [hv, List.drop_left]

/-- Which calls are truthful. `iotconnect_sdk_init` and `iothub_client_init`: those in which no step
fails, or a step other than `iotcl_init`, `nx_azure_iot_log_init`, `model_id_set` and connect
does, or the authentication type is unknown, or both `model_id_set` and connect fail, and no
call to end an object fails. `iothub_send_message`: those in which the send call does
not fail. -/
theorem success_truthful_iff (B : Build) (ans : Tr Op Ans → (op : Op) → Ans op) (s : St)
    (t : Tr Op Ans) :
    (∀ ac ret, let o := (iotconnectSdkInit B ac).run (.sequential ans) s t
      o.res = .ok ret → (Truthful ret o.st (o.tr.drop t.length) ↔
        Sound s.sdk.config.auth (o.tr.drop t.length))) ∧
    (∀ c ac ret, let o := (iothubClientInit B.adu c ac).run (.sequential ans) s t
      o.res = .ok ret → (Truthful ret o.st (o.tr.drop t.length) ↔
        Sound c.auth (o.tr.drop t.length))) ∧
    (∀ message ret, let o := (iothubSendMessage message).run (.sequential ans) s t
      o.res = .ok ret → (TruthfulSend message ret (o.tr.drop t.length) ↔
        Accepted message (o.tr.drop t.length))) := by
  refine ⟨?_, ?_, ?_⟩
  · intro ac ret o hret
    refine since_run ((spec_iotconnectSdkInit ans t s.sdk.config.auth B ac).pre ?_) hret
    rintro s' t' ⟨rfl, rfl⟩
    exact ⟨rfl, rfl⟩
  · intro c ac ret o hret
    refine since_run ((spec_iothubClientInit ans t B.adu c ac).pre ?_) hret
    rintro s' t' ⟨rfl, rfl⟩
    exact ⟨[], (List.append_nil _).symm, rfl, rfl⟩
  · intro message ret o hret
    exact since_run ((spec_iothubSendMessage ans t message).pre fun s' t' h => h.2) hret

/-- A device configured with a symmetric key. -/
def configured : St :=
  ⟨.init, { SdkStatics.init with
    config := ⟨some (cstr "env"), some (cstr "cpid"), some (cstr "duid"),
      .iotcKey (some (cstr "key")), none, none, some 0⟩ }⟩

def keyConfig : IotConnectIotHubConfig :=
  ⟨cstr "hub", cstr "device", .iotcKey (some (cstr "key")), none, some (.app 0)⟩

def sdkInitRun (ans : (op : Op) → Ans op) : Out Op Ans St UINT :=
  (iotconnectSdkInit .sample ⟨1, 2, 3⟩).run (.sequential fun _ => ans) configured []

def hubInitRun (ans : (op : Op) → Ans op) : Out Op Ans St UINT :=
  (iothubClientInit false keyConfig ⟨1, 2, 3⟩).run (.sequential fun _ => ans) configured []

def sendRun (ans : (op : Op) → Ans op) : Out Op Ans St UINT :=
  (iothubSendMessage (cstr "hi")).run (.sequential fun _ => ans) configured []

theorem success_truthful_plain :
    Truthful nxSuccess (sdkInitRun allGood).st (sdkInitRun allGood).tr ∧
      Truthful nxSuccess (hubInitRun allGood).st (hubInitRun allGood).tr ∧
      (TruthfulSend (cstr "hi") nxSuccess (sendRun allGood).tr ↔
        Accepted (cstr "hi") (sendRun allGood).tr) := by
  obtain ⟨hsdk, hhub, hsend⟩ := success_truthful_iff .sample (fun _ => allGood) configured []
  refine ⟨(hsdk ⟨1, 2, 3⟩ nxSuccess (by decide +kernel)).mpr (.inl (by decide +kernel)), ?_, ?_⟩
  · exact (hhub keyConfig ⟨1, 2, 3⟩ nxSuccess (by decide +kernel)).mpr (.inl (by decide +kernel))
  · exact hsend (cstr "hi") nxSuccess (by decide +kernel)

def iotclInitFails : (op : Op) → Ans op
  | .iotclInit _ => false
  | op => allGood op

def connectFails : (op : Op) → Ans op
  | .nxAzureIotHubClientConnect => 1
  | op => allGood op

def sendFails : (op : Op) → Ans op
  | .nxAzureIotHubClientTelemetrySend .. => 1
  | op => allGood op

/-- The three functions return zero for a failing `iotcl_init`, connect and telemetry send call. -/
theorem failures_return_zero :
    ((sdkInitRun iotclInitFails).res = .ok nxSuccess ∧
      ¬ Truthful nxSuccess (sdkInitRun iotclInitFails).st (sdkInitRun iotclInitFails).tr) ∧
    ((hubInitRun connectFails).res = .ok nxSuccess ∧
      ¬ Truthful nxSuccess (hubInitRun connectFails).st (hubInitRun connectFails).tr) ∧
    ((sendRun sendFails).res = .ok nxSuccess ∧
      ¬ TruthfulSend (cstr "hi") nxSuccess (sendRun sendFails).tr) := by
  refine ⟨⟨by decide +kernel, fun h => ?_⟩, ⟨by decide +kernel, fun h => ?_⟩,
    ⟨by decide +kernel, fun h => ?_⟩⟩
  · exact (h.failed (by decide +kernel)).1 rfl
  · exact (h.failed (by decide +kernel)).1 rfl
  · exact h.failed (by decide +kernel) rfl

end Iotc.Sdk
