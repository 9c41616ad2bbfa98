import Iotc.Hub.Lifecycle
import Iotc.Resume.Hoare
import Iotc.Sdk.Rules

/-!
# The parsed responses

`heap` is what a trace has parsed and not freed, with the dtg pointer that the telemetry library
keeps: the one of the last `iotcl_init`, unless that failed. Discovery and sync responses are
held properly in every session. The dtg pointer is the current sync response's
as long as no response is given up while the library has a pointer (`responses_owned`).
-/

namespace Iotc.Sdk

open Iotc.C Iotc.Resume Iotc.Hub
open Iotc.Web (nxSuccess IotConnectAzrtosConfig)

/-! ## The heap -/

inductive Response where
  | discovery (handle : Nat)
  | sync (handle : Nat)
  deriving DecidableEq

structure Heap where
  live : List Response := []
  freedTwice : Bool := false
  /-- Without it no telemetry can be created. -/
  dtg : Option (Nat × CStr) := none
  /-- The application was called while `dtg` pointed into a freed response. -/
  dangled : Bool := false

def Heap.free (h : Heap) (r : Response) : Heap :=
  { h with live := h.live.erase r, freedTwice := h.freedTwice || decide (r ∉ h.live) }

def Heap.add (h : Heap) : Ev Op Ans → Heap
  | ⟨.iotclDiscoveryParseDiscoveryResponse _, some r⟩ =>
    { h with live := .discovery r.handle :: h.live }
  | ⟨.iotclDiscoveryParseSyncResponse _, some r⟩ => { h with live := .sync r.handle :: h.live }
  | ⟨.iotclDiscoveryFreeDiscoveryResponse (some r), _⟩ => h.free (.discovery r.handle)
  | ⟨.iotclDiscoveryFreeSyncResponse (some r), _⟩ => h.free (.sync r.handle)
  | ⟨.iotclInit c, initialised⟩ => { h with dtg := if initialised then c.telemetryDtg else none }
  | ⟨.statusCb .., _⟩ =>
    { h with dangled := h.dangled || h.dtg.any fun p => decide (.sync p.1 ∉ h.live) }
  | _ => h

def heap (t : Tr Op Ans) : Heap := t.foldl Heap.add {}

theorem heap_snoc (t : Tr Op Ans) (ev : Ev Op Ans) : heap (t ++ [ev]) = (heap t).add ev := by
  simp [heap]

/-- The static pointers are NULL or designate responses that are not freed. -/
structure Held (s : St) (h : Heap) : Prop where
  not_twice : h.freedTwice = false
  discovery : ∀ r, s.sdk.discoveryResponse = some r → .discovery r.handle ∈ h.live
  sync : ∀ r, s.sdk.syncResponse = some r → .sync r.handle ∈ h.live

/-- The dtg pointer of the library is that of `lib_config` and belongs to the sync response. -/
structure Linked (s : St) (h : Heap) : Prop where
  not_dangled : h.dangled = false
  dtg : ∀ p, h.dtg = some p → s.sdk.libConfig.telemetryDtg = some p ∧
    ∃ r, s.sdk.syncResponse = some r ∧ p = (r.handle, r.dtg)

/-! ## Sessions -/

/-- What the application and its environment do; `configure` is what the application writes to the
configuration. -/
inductive SdkCall where
  | configure (config : IotConnectClientConfig)
  | init (ac : IotConnectAzrtosConfig)
  | event (type : IotConnectEventType)
  | disconnect
  | connectionStatus (status : UINT)

def sdkApi (B : Build) : SdkCall → M Unit
  | .configure config => .modify (·.setSdk ({ · with config }))
  | .init ac => do let _ ← iotconnectSdkInit B ac
  | .event type => do let _ ← onMessageIntercept B type
  | .disconnect => iotconnectSdkDisconnect
  | .connectionStatus status => connectionStatusCallback status

/-- Every step towards a new response that brings it nearer. -/
def obtains : Ev Op Ans → Bool
  | ⟨.iotconnectHttpsRequest _, answer⟩ => (responseJson answer).isSome
  | ⟨.iotclDiscoveryParseDiscoveryResponse _, ret⟩ => ret.isSome
  | ⟨.iotclDiscoveryParseSyncResponse _, ret⟩ => ret.any (·.ds = .ok)
  | _ => true

/-- While the library has a dtg pointer, no ON_FORCE_SYNC comes, and an initialisation obtains both
responses. -/
def Keeps (c : SdkCall) (_ : St) (t : Tr Op Ans) (ev : Ev Op Ans) : Prop :=
  (heap t).dtg = none ∨ match c with
    | .init _ => obtains ev = true
    | .event .onForceSync => False
    | _ => True

/-! ## Assertions about the heap -/

/-- Where a run may stop. -/
def Crashed (φ : Prop) (_ : St) (t : Tr Op Ans) : Prop :=
  (heap t).freedTwice = false ∧ (φ → (heap t).dangled = false)

/-- Triples in which `φ` stands for what is asked of a session. -/
abbrev Heaps (ans : Tr Op Ans → (op : Op) → Ans op) (A : Tr Op Ans → Ev Op Ans → Prop) (φ : Prop)
    {α : Type} (P : St → Heap → Prop) (p : M α) (Q : α → St → Heap → Prop) : Prop :=
  Triple (World.sequential ans) A (Crashed φ) (fun s t => P s (heap t)) p
    fun a s t => Q a s (heap t)

structure Owned (φ : Prop) (s : St) (h : Heap) : Prop where
  held : Held s h
  linked : φ → Linked s h

/-- The responses are given up; `g` is the pointer the library still has. -/
structure Cleared (φ : Prop) (g : Option (Nat × CStr)) (s : St) (h : Heap) : Prop where
  not_twice : h.freedTwice = false
  not_dangled : φ → h.dangled = false
  dtg_eq : h.dtg = g
  sync_none : s.sdk.syncResponse = none

/-- There is a new discovery response. -/
structure Discovered (φ : Prop) (g : Option (Nat × CStr)) (s : St) (h : Heap) : Prop
    extends Cleared φ g s h where
  discovery : ∀ r, s.sdk.discoveryResponse = some r → .discovery r.handle ∈ h.live

/-- Both responses are new. -/
structure Synced (φ : Prop) (response : IotclSyncResponse) (s : St) (h : Heap) : Prop where
  not_twice : h.freedTwice = false
  not_dangled : φ → h.dangled = false
  discovery : ∀ r, s.sdk.discoveryResponse = some r → .discovery r.handle ∈ h.live
  sync_eq : s.sdk.syncResponse = some response
  sync : .sync response.handle ∈ h.live

section
variable {ans : Tr Op Ans → (op : Op) → Ans op} {A : Tr Op Ans → Ev Op Ans → Prop} {φ : Prop}
  {g : Option (Nat × CStr)}

theorem heaps_call (op : Op) {P : St → Heap → Prop} {Q : Ans op → St → Heap → Prop}
    (h : ∀ s t a, P s (heap t) → A t ⟨op, a⟩ → Q a s ((heap t).add ⟨op, a⟩)) :
    Heaps ans A φ P (.call op) Q :=
  .call_quiet (World.sequential_quiet ans op) fun s t a hP hA => by
    rw [heap_snoc]
    exact h s t a hP hA

/-- A call that leaves the heap alone. -/
theorem heaps_still {op : Op} (hadd : ∀ (h : Heap) (a : Ans op), h.add ⟨op, a⟩ = h)
    {P : St → Heap → Prop} : Heaps ans A φ P (.call op) fun _ => P :=
  heaps_call op fun _ t a hP _ => (hadd (heap t) a).symm ▸ hP

/-- The application may create telemetry when it is told of a disconnect. -/
theorem heaps_statusCb (cb : Nat) (status : IotConnectConnectionStatus) :
    Heaps ans A φ (Owned φ) (.call (Op.statusCb cb status)) fun _ => Owned φ := by
  refine heaps_call _ fun s t a ⟨⟨htwice, hdiscovery, hsync⟩, hlinked⟩ _ =>
    ⟨⟨htwice, hdiscovery, hsync⟩, fun hφ => ⟨?_, (hlinked hφ).dtg⟩⟩
  show ((heap t).dangled || (heap t).dtg.any fun p => decide (.sync p.1 ∉ (heap t).live)) = false
  rw [(hlinked hφ).not_dangled, Bool.false_or]
  cases hdtg : (heap t).dtg with
  | none => rfl
  | some p =>
    obtain ⟨-, r, hr, rfl⟩ := (hlinked hφ).dtg p hdtg
    simpa using hsync r hr

/-- What concerns the hub client only. -/
theorem hubFree_heap : HubFree ((World.sequential ans).logic A (Crashed φ))
    fun s t => Owned φ s (heap t) where
  stop _ _ h := ⟨h.held.not_twice, fun hφ => (h.linked hφ).not_dangled⟩
  call op hop := by
    cases op with
    | statusCb cb status => exact heaps_statusCb cb status
    | _ => first | exact heaps_still fun _ _ => rfl | cases hop
  set _ _ _ h := ⟨⟨h.held.not_twice, h.held.discovery, h.held.sync⟩, fun hφ =>
    ⟨(h.linked hφ).not_dangled, (h.linked hφ).dtg⟩⟩

/-! ## The hub client -/

/-- The library is given the pointer of the response that is held from then on. -/
theorem heaps_startHub (B : Build) (response : IotclSyncResponse) :
    Heaps ans A φ (Synced φ response) (startHub B response) fun _ => Owned φ := by
  refine .bind_get_any fun s0 => ?_
  refine .bind (Q := fun _ s t => Synced φ response s (heap t) ∧
    s.sdk.libConfig = libConfigOf s0.sdk.config response)
    (.modify fun s t ⟨htwice, hdangled, hdiscovery, heq, hsync⟩ =>
      ⟨⟨htwice, hdangled, hdiscovery, heq, hsync⟩, rfl⟩) fun _ => ?_
  refine .bind (Q := fun _ s t => Owned φ s (heap t)) ?_ fun initialised =>
    .ite (fun _ => .pure fun _ _ h => h) fun _ => hubFree_heap.iothubClientInit _ _ _
  refine heaps_call _ (P := fun s h => Synced φ response s h ∧
    s.sdk.libConfig = libConfigOf s0.sdk.config response)
    fun s t initialised ⟨⟨htwice, hdangled, hdiscovery, heq, hsync⟩, hlib⟩ _ => ?_
  refine ⟨⟨htwice, hdiscovery, fun r hr => ?_⟩, fun hφ => ⟨hdangled hφ, fun p hp => ?_⟩⟩
  · obtain rfl : response = r := Option.some.inj (heq.symm.trans hr)
    exact hsync
  · change (if initialised then some (response.handle, response.dtg) else none) = some p at hp
    cases initialised with
    | false => cases hp
    | true =>
      cases hp
      exact ⟨by rw [hlib]; rfl, response, heq, rfl⟩

/-! ## New responses -/

/-- The assumption that whatever does not help to a new response comes while the library has no
pointer. -/
def Watches (A : Tr Op Ans → Ev Op Ans → Prop) (φ : Prop) : Prop :=
  ∀ t ev, A t ev → φ → (heap t).dtg = none ∨ obtains ev = true

theorem Watches.none (hA : Watches A φ) {t : Tr Op Ans} {ev : Ev Op Ans} (hev : A t ev) (hφ : φ)
    (hdtg : (heap t).dtg = g) (h : obtains ev = false) : g = none :=
  hdtg.symm.trans ((hA t ev hev hφ).resolve_right fun h' => Bool.false_ne_true (h.symm.trans h'))

/-- A request leaves the heap alone. -/
theorem heaps_httpsRequest (hA : Watches A φ) {P : St → Heap → Prop}
    (hP : ∀ s h, P s h → h.dtg = g) (B : Build) (host resource : CStr) (payload : Option CStr) :
    Heaps ans A φ P (httpsRequest B host resource payload) fun answer s h =>
      P s h ∧ (responseJson answer = none → φ → g = none) := by
  refine spec_httpsRequest (fun req => ?_) host resource payload
  refine heaps_call (.iotconnectHttpsRequest req) (P := P)
    (Q := fun answer s h => P s h ∧ (responseJson answer = none → φ → g = none))
    fun s t answer h hev => ?_
  refine ⟨h, fun hnone hφ => hA.none hev hφ (hP s _ h) ?_⟩
  show (responseJson answer).isSome = false
  rw [hnone]
  rfl

theorem Cleared.crashed {s : St} {t : Tr Op Ans} (h : Cleared φ g s (heap t)) : Crashed φ s t :=
  ⟨h.not_twice, h.not_dangled⟩

theorem heaps_runHttpDiscovery (hA : Watches A φ) (B : Build) (cpid env : Option CStr) :
    Heaps ans A φ (Cleared φ g) (runHttpDiscovery B cpid env) fun ret s h => Cleared φ g s h ∧
      (ret = none → φ → g = none) ∧ ∀ r, ret = some r → .discovery r.handle ∈ h.live := by
  refine spec_runHttpDiscovery (fun _ _ _ h => h.crashed) (fun _ _ _ _ =>
      heaps_httpsRequest hA (P := Cleared φ g) (fun _ _ hc => hc.dtg_eq) B _ _ _)
    (fun answer hanswer _ _ h => ⟨h.1, fun _ => h.2 hanswer, fun _ h => nomatch h⟩)
    fun answer json _ => ?_
  refine (heaps_call (.iotclDiscoveryParseDiscoveryResponse json) (P := Cleared φ g)
    (Q := fun ret s h => Cleared φ g s h ∧ (ret = none → φ → g = none) ∧
      ∀ r, ret = some r → .discovery r.handle ∈ h.live) fun s t ret hc hev => ?_).pre
      fun _ _ => And.left
  cases ret with
  | none => exact ⟨hc, fun _ hφ => hA.none hev hφ hc.dtg_eq rfl, fun _ h => nomatch h⟩
  | some r =>
    refine ⟨⟨hc.not_twice, hc.not_dangled, hc.dtg_eq, hc.sync_none⟩, (fun h => nomatch h), ?_⟩
    rintro _ ⟨⟩
    exact List.mem_cons_self

/-- What is not accepted is freed. -/
theorem heaps_acceptSync (ret : Option IotclSyncResponse)
    (hret : ret.any (·.ds = .ok) = false → φ → g = none) :
    Heaps ans A φ (fun s h => Discovered φ g s h ∧ ∀ r, ret = some r → .sync r.handle ∈ h.live)
      (acceptSync ret) fun ret s h => Discovered φ g s h ∧ (ret = none → φ → g = none) ∧
        ∀ r, ret = some r → .sync r.handle ∈ h.live := by
  have hresult : ∀ lastSyncResult, Heaps ans A φ
      (fun s h => Discovered φ g s h ∧ ∀ r, ret = some r → .sync r.handle ∈ h.live)
      (.modify (·.setSdk ({ · with lastSyncResult })))
      fun _ s h => Discovered φ g s h ∧ ∀ r, ret = some r → .sync r.handle ∈ h.live :=
    fun _ => .modify fun s t ⟨⟨⟨htwice, hdangled, hdtg, hnone⟩, hdiscovery⟩, hlive⟩ =>
      ⟨⟨⟨htwice, hdangled, hdtg, hnone⟩, hdiscovery⟩, hlive⟩
  cases ret with
  | none =>
    refine .bind (hresult _) fun _ => .bind (Q := fun _ s t => Discovered φ g s (heap t))
      ((heaps_still fun _ _ => rfl).pre fun _ _ => And.left) fun _ => ?_
    exact .pure fun s t h => ⟨h, fun _ => hret rfl, fun _ h => nomatch h⟩
  | some response =>
  refine .bind (hresult _) fun _ => .ite (fun hds => ?_) fun _ => ?_
  · refine .bind (Q := fun _ s t => Discovered φ g s (heap t))
      (heaps_call (.iotclDiscoveryFreeSyncResponse (some response)) (P := fun s h =>
        Discovered φ g s h ∧ ∀ r, some response = some r → .sync r.handle ∈ h.live)
        (Q := fun _ => Discovered φ g) fun s t _ ⟨hc, hlive⟩ _ => ?_) fun _ =>
      .pure fun s t h => ⟨h, fun _ => hret (by simpa using hds), fun _ h => nomatch h⟩
    refine ⟨⟨?_, hc.not_dangled, hc.dtg_eq, hc.sync_none⟩, fun d hd => ?_⟩
    · show ((heap t).freedTwice || decide (.sync response.handle ∉ (heap t).live)) = false
      simp [hc.not_twice, hlive response rfl]
    · have hne : Response.discovery d.handle ≠ .sync response.handle := nofun
      exact (List.mem_erase_of_ne hne).mpr (hc.discovery d hd)
  · exact .pure fun s t h => ⟨h.1, (fun h => nomatch h), h.2⟩

theorem heaps_runHttpSync (hA : Watches A φ) (B : Build) (cpid uniqueid : Option CStr) :
    Heaps ans A φ (Discovered φ g) (runHttpSync B cpid uniqueid) fun ret s h =>
      Discovered φ g s h ∧ (ret = none → φ → g = none) ∧
        ∀ r, ret = some r → .sync r.handle ∈ h.live := by
  refine spec_runHttpSync (T := fun (ret : Option IotclSyncResponse) s t =>
    (ret.any (·.ds = .ok) = false → φ → g = none) ∧ Discovered φ g s (heap t) ∧
      ∀ r, ret = some r → .sync r.handle ∈ (heap t).live) (fun _ _ h => .inl h.toCleared.crashed)
    (fun _ _ _ _ _ _ _ => (heaps_httpsRequest hA (P := Discovered φ g) (fun _ _ hc => hc.dtg_eq)
      B _ _ _).pre fun _ _ => And.right)
    (fun answer hanswer _ _ h => ⟨h.1, fun _ => h.2 hanswer, fun _ h => nomatch h⟩)
    (fun answer json _ => ?_) fun ret => .of_imp fun hret => heaps_acceptSync ret hret
  refine (heaps_call (.iotclDiscoveryParseSyncResponse json) (P := Discovered φ g)
    (Q := fun ret s h => (ret.any (·.ds = .ok) = false → φ → g = none) ∧ Discovered φ g s h ∧
      ∀ r, ret = some r → .sync r.handle ∈ h.live) fun s t ret hc hev => ?_).pre fun _ _ => And.left
  refine ⟨fun hds hφ => hA.none hev hφ hc.dtg_eq hds, ?_⟩
  cases ret with
  | none => exact ⟨hc, fun _ h => nomatch h⟩
  | some r =>
    refine ⟨⟨⟨hc.not_twice, hc.not_dangled, hc.dtg_eq, hc.sync_none⟩, fun d hd => ?_⟩, ?_⟩
    · exact List.mem_cons_of_mem _ (hc.discovery d hd)
    · rintro _ ⟨⟩
      exact List.mem_cons_self

theorem Held.free {h : Heap} {r : Response} (htwice : h.freedTwice = false) (hr : r ∈ h.live) :
    (h.free r).freedTwice = false := by
  simp [Heap.free, htwice, hr]

/-- Both responses are freed; `P` is what the assumption says of the pointer at that time. -/
theorem heaps_free {P : Option (Nat × CStr) → Prop} (hP : ∀ t ev, A t ev → P (heap t).dtg)
    (s0 : St) {f : SdkStatics → SdkStatics} (hf : ∀ sdk, (f sdk).syncResponse = none)
    {α : Type} {p : M α} {Q : α → St → Tr Op Ans → Prop}
    (hp : ∀ g, P g → Triple (World.sequential ans) A (Crashed φ)
      (fun s t => Cleared φ g s (heap t)) p Q) :
    Triple (World.sequential ans) A (Crashed φ) (fun s t => s = s0 ∧ Owned φ s (heap t)) (do
      let _ ← (.call (Op.iotclDiscoveryFreeDiscoveryResponse s0.sdk.discoveryResponse) : M Unit)
      let _ ← (.call (Op.iotclDiscoveryFreeSyncResponse s0.sdk.syncResponse) : M Unit)
      .modify (·.setSdk f)
      p) Q := by
  refine .fix (fun _ t => (heap t).dtg) fun g => ?_
  let Freed (h : Heap) : Prop :=
    h.freedTwice = false ∧ (φ → h.dangled = false) ∧ h.dtg = g
  refine .bind (Q := fun _ _ t => P g ∧ Freed (heap t) ∧
    ∀ r, s0.sdk.syncResponse = some r → .sync r.handle ∈ (heap t).live) (.call_quiet
      (World.sequential_quiet ans _) fun s t _ ⟨hdtg, heq, hheld, hlinked⟩ hev => ?_)
    fun _ => .of_imp fun hg => ?_
  · subst heq
    refine ⟨hdtg ▸ hP t _ hev, ?_⟩
    rw [heap_snoc]
    cases hd : s.sdk.discoveryResponse with
    | none => exact ⟨⟨hheld.not_twice, fun hφ => (hlinked hφ).not_dangled, hdtg⟩, hheld.sync⟩
    | some d =>
      refine ⟨⟨Held.free hheld.not_twice (hheld.discovery d hd),
        fun hφ => (hlinked hφ).not_dangled, hdtg⟩, fun r hr => ?_⟩
      have hne : Response.sync r.handle ≠ .discovery d.handle := nofun
      exact (List.mem_erase_of_ne hne).mpr (hheld.sync r hr)
  refine .bind (Q := fun _ _ t => Freed (heap t)) (.call_quiet (World.sequential_quiet ans _)
    fun s t _ ⟨⟨htwice, hdangled, hdtg⟩, hsync⟩ _ => ?_) fun _ => ?_
  · rw [heap_snoc]
    cases hr : s0.sdk.syncResponse with
    | none => exact ⟨htwice, hdangled, hdtg⟩
    | some r => exact ⟨Held.free htwice (hsync r hr), hdangled, hdtg⟩
  · exact .bind (Q := fun _ s t => Cleared φ g s (heap t))
      (.modify fun s t ⟨htwice, hdangled, hdtg⟩ =>
      ⟨htwice, hdangled, hdtg, hf s.sdk⟩) fun _ => hp g hg

/-- The two requests for new responses, as they are made by the initialisation and on
ON_FORCE_SYNC. -/
theorem heaps_renew (hA : Watches A φ) (B : Build) (cpid env duid : Option CStr) {α : Type} {a : α}
    {k : Option IotclSyncResponse → M α} (hnone : Heaps ans A φ (Owned φ) (k none) fun _ => Owned φ)
    (hsome : ∀ r, Heaps ans A φ (fun s h => Synced φ r s h ∧ h.dtg = g) (k (some r))
      fun _ => Owned φ) :
    Heaps ans A φ (Cleared φ g) (do
      let discovery ← runHttpDiscovery B cpid env
      .modify (·.setSdk ({ · with discoveryResponse := discovery }))
      if discovery.isNone then
        return a
      let sync ← runHttpSync B cpid duid
      .modify (·.setSdk ({ · with syncResponse := sync }))
      k sync) fun _ => Owned φ := by
  refine .bind (heaps_runHttpDiscovery hA B cpid env) fun discovery => ?_
  refine .bind (Q := fun _ s t => (discovery = none → φ → g = none) ∧ Discovered φ g s (heap t) ∧
    s.sdk.discoveryResponse = discovery)
      (.modify fun s t ⟨⟨htwice, hdangled, hdtg, hsync⟩, hg, hr⟩ =>
      ⟨hg, ⟨⟨htwice, hdangled, hdtg, hsync⟩, hr⟩, rfl⟩) fun _ => .of_imp fun hg => ?_
  refine .ite (fun h => .pure fun s t ⟨hc, hd⟩ => ?_) fun _ => ?_
  · have hnone := Option.isNone_iff_eq_none.mp h
    refine ⟨⟨hc.not_twice, hc.discovery, fun r hr => ?_⟩, fun hφ =>
      ⟨hc.not_dangled hφ, fun p hp => ?_⟩⟩
    · cases hc.sync_none.symm.trans hr
    · cases (hg hnone hφ).symm.trans (hc.dtg_eq.symm.trans hp)
  refine .bind ((heaps_runHttpSync hA B cpid duid).pre fun _ _ => And.left) fun sync => ?_
  cases sync with
  | none =>
    refine .bind (Q := fun _ s t => Owned φ s (heap t)) (.modify fun s t ⟨hc, hg, _⟩ => ?_) fun _ =>
      hnone
    refine ⟨⟨hc.not_twice, hc.discovery, fun _ h => nomatch h⟩, fun hφ => ⟨hc.not_dangled hφ, ?_⟩⟩
    exact fun p hp => nomatch (hg rfl hφ).symm.trans (hc.dtg_eq.symm.trans hp)
  | some r =>
    exact .bind (Q := fun _ s t => Synced φ r s (heap t) ∧ (heap t).dtg = g)
      (.modify fun s t ⟨hc, _, hr⟩ => ⟨⟨hc.not_twice, hc.not_dangled, hc.discovery, rfl, hr r rfl⟩,
        hc.dtg_eq⟩) fun _ => hsome r

/-! ## Initialisation and events -/

theorem heaps_iotconnectSdkInit (hA : Watches A φ) (B : Build) (ac : IotConnectAzrtosConfig) :
    Heaps ans A φ (Owned φ) (iotconnectSdkInit B ac) fun _ => Owned φ := by
  refine .bind (Q := fun _ s t => Owned φ s (heap t)) (.modify fun s t
    ⟨⟨htwice, hdiscovery, hsync⟩, hlinked⟩ => ⟨⟨htwice, hdiscovery, hsync⟩, fun hφ =>
      ⟨(hlinked hφ).not_dangled, (hlinked hφ).dtg⟩⟩) fun _ => .bind_get_eq fun s0 => ?_
  refine heaps_free (P := fun _ => True) (fun _ _ _ => trivial) s0 (fun _ => rfl) fun g _ => ?_
  exact heaps_renew hA B _ _ _ (.pure fun _ _ h => h) fun r =>
    (heaps_startHub B r).pre fun _ _ => And.left

theorem heaps_onMessageIntercept (B : Build) (type : IotConnectEventType)
    (hnone : type = .onForceSync → ∀ t ev, A t ev → φ → (heap t).dtg = none) :
    Heaps ans A φ (Owned φ) (onMessageIntercept B type) fun _ => Owned φ := by
  cases type with
  | other type => exact .pure fun _ _ h => h
  | onClose => exact .bind hubFree_heap.iothubClientDisconnect fun _ => .pure fun _ _ h => h
  | onForceSync =>
    refine .bind hubFree_heap.iothubClientDisconnect fun _ => .bind_get_eq fun s0 => ?_
    refine heaps_free (P := fun g => φ → g = none) (hnone rfl) s0 (fun _ => rfl) fun g hg => ?_
    have hA : Watches A φ := fun t ev hev hφ => .inl (hnone rfl t ev hev hφ)
    refine heaps_renew hA B _ _ _ (.pure fun _ _ h => h) fun r => .pure fun s t ⟨hs, hdtg⟩ => ?_
    refine ⟨⟨hs.not_twice, hs.discovery, fun r' hr => ?_⟩, fun hφ =>
      ⟨hs.not_dangled hφ, fun p hp => ?_⟩⟩
    · obtain rfl : r = r' := Option.some.inj (hs.sync_eq.symm.trans hr)
      exact hs.sync
    · cases (hg hφ).symm.trans (hdtg.symm.trans hp)

theorem heaps_sdkApi (B : Build) (c : SdkCall) {s : St}
    (hA : ∀ t ev, A t ev → φ → Keeps c s t ev) :
    Heaps ans A φ (Owned φ) (sdkApi B c) fun _ => Owned φ := by
  cases c with
  | configure config =>
    exact .modify fun s t ⟨⟨htwice, hdiscovery, hsync⟩, hlinked⟩ =>
      ⟨⟨htwice, hdiscovery, hsync⟩, fun hφ => ⟨(hlinked hφ).not_dangled, (hlinked hφ).dtg⟩⟩
  | init ac => exact .bind (heaps_iotconnectSdkInit hA B ac) fun _ => .pure fun _ _ h => h
  | event type =>
    refine .bind (heaps_onMessageIntercept B type ?_) fun _ => .pure fun _ _ h => h
    rintro rfl t ev h hφ
    exact (hA t ev h hφ).resolve_right id
  | disconnect => exact hubFree_heap.iothubClientDisconnect
  | connectionStatus status => exact hubFree_heap.connectionStatusCallback status

end

/-- In every session the responses are freed at most once, and the static pointers designate
responses that are not freed. In a session that keeps them while the library has a dtg pointer, the
pointer belongs to the sync response that is held. -/
theorem responses_owned (B : Build) (ans : Tr Op Ans → (op : Op) → Ans op) (calls : List SdkCall) :
    let o := (session (sdkApi B) calls).run (.sequential ans) ⟨.init, .init⟩ []
    ((heap o.tr).freedTwice = false ∧ (o.res.isOk → Held o.st (heap o.tr))) ∧
      (SessionAlong (.sequential ans) (sdkApi B) Keeps calls ⟨.init, .init⟩ [] →
        (heap o.tr).dangled = false ∧ (o.res.isOk → Linked o.st (heap o.tr))) := by
  intro o
  have hstart : ∀ φ, Owned φ ⟨.init, .init⟩ (heap []) := fun φ =>
    ⟨⟨rfl, (fun _ h => nomatch h), fun _ h => nomatch h⟩, fun _ => ⟨rfl, fun _ h => nomatch h⟩⟩
  have hall : o.Sat (fun _ s t => Owned False s (heap t)) (Crashed False) :=
    (Logic.Spec.session fun c _ => heaps_sdkApi (A := fun _ _ => True) (s := ⟨.init, .init⟩) B c
      fun _ _ _ => False.elim).sat (hstart False) (List.nil_append _).symm
      (.of_forall fun _ _ _ => trivial)
  have hkeeps : SessionAlong (.sequential ans) (sdkApi B) Keeps calls ⟨.init, .init⟩ [] →
      o.Sat (fun _ s t => Owned True s (heap t)) (Crashed True) := fun h =>
    h.sat (P := fun s t => Owned True s (heap t)) (fun c s0 => (heaps_sdkApi B c
      fun _ _ h _ => h).pre fun _ _ h => h.2) (hstart True)
  clear_value o
  obtain ⟨res, s, t⟩ := o
  cases res with
  | ok _ =>
    exact ⟨⟨hall.held.not_twice, fun _ => hall.held⟩, fun h =>
      ⟨((hkeeps h).linked trivial).not_dangled, fun _ => (hkeeps h).linked trivial⟩⟩
  | error e =>
    exact ⟨⟨hall.1, fun h => nomatch h⟩, fun h => ⟨(hkeeps h).2 trivial, fun h => nomatch h⟩⟩

instance decidableKeeps : ∀ c s t ev, Decidable (Keeps c s t ev)
  | .init _, _, t, ev => inferInstanceAs (Decidable ((heap t).dtg = none ∨ obtains ev = true))
  | .event .onForceSync, _, t, _ => inferInstanceAs (Decidable ((heap t).dtg = none ∨ False))
  | .configure _, _, _, _ | .disconnect, _, _, _ | .connectionStatus _, _, _, _ =>
    isTrue (.inr trivial)
  | .event .onClose, _, _, _ | .event (.other _), _, _, _ => isTrue (.inr trivial)

/-- Every call succeeds, but that the library may refuse its configuration at the start; every
response is a new object. -/
def responseAns (refuses : Bool) (t : Tr Op Ans) : (op : Op) → Ans op
  | .iotclDiscoveryParseDiscoveryResponse _ => some ⟨t.length, [], []⟩
  | .iotclDiscoveryParseSyncResponse _ => some ⟨t.length, .ok, [], [], [], []⟩
  | .iotclInit _ => !(refuses && decide (t.length < 10))
  | op => allGood op

def clientConfig : IotConnectClientConfig :=
  ⟨some (cstr "env"), some (cstr "cpid"), some (cstr "duid"), .iotcKey (some (cstr "key")), none,
    none, some 0⟩

def responseRun (refuses : Bool) (calls : List SdkCall) : Out Op Ans St (List Unit) :=
  (session (sdkApi .sample) calls).run (.sequential (responseAns refuses)) ⟨.init, .init⟩ []

/-- A library that refuses its first configuration has no pointer when ON_FORCE_SYNC comes. -/
def keptCalls : List SdkCall :=
  [.configure clientConfig, .init ⟨1, 2, 3⟩, .event .onForceSync, .init ⟨1, 2, 3⟩,
    .event (.other 3), .disconnect]

theorem responses_owned_kept :
    let o := responseRun true keptCalls
    (heap o.tr).dtg = some (18, []) ∧ o.res.isOk = true ∧ Held o.st (heap o.tr) ∧
      Linked o.st (heap o.tr) := by
  intro o
  have hok : o.res.isOk = true := by decide +kernel
  have hcalls : SessionAlong (.sequential (responseAns true)) (sdkApi .sample) Keeps keptCalls
      ⟨.init, .init⟩ [] :=
    .cons (by decide +kernel) fun _ => .cons (by decide +kernel) fun _ =>
      .cons (by decide +kernel) fun _ => .cons (by decide +kernel) fun _ =>
        .cons (by decide +kernel) fun _ => .cons (by decide +kernel) fun _ => .nil
  obtain ⟨⟨-, hheld⟩, hlinked⟩ := responses_owned .sample (responseAns true) keptCalls
  exact ⟨by decide +kernel, hok, hheld hok, (hlinked hcalls).2 hok⟩

/-- ON_FORCE_SYNC frees the sync response that the library's dtg pointer belongs to. -/
theorem force_sync_dangles :
    let o := responseRun false [.configure clientConfig, .init ⟨1, 2, 3⟩, .event .onForceSync]
    o.res.isOk = true ∧ (heap o.tr).dtg = some (5, []) ∧ .sync 5 ∉ (heap o.tr).live ∧
      ¬Linked o.st (heap o.tr) := by
  intro o
  have hdtg : (heap o.tr).dtg = some (5, []) := by decide +kernel
  have hsync : o.st.sdk.syncResponse.map (·.handle) = some 28 := by decide +kernel
  refine ⟨by decide +kernel, hdtg, by decide +kernel, fun h => ?_⟩
  obtain ⟨-, r, hr, hp⟩ := h.dtg _ hdtg
  rw [hr] at hsync
  have hhandle : r.handle = 28 := Option.some.inj hsync
  exact absurd ((Prod.mk.inj hp).1.trans hhandle) (by decide)

end Iotc.Sdk
