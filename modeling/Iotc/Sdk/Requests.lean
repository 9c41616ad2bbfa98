import Iotc.Di.Rules
import Iotc.Hub.Lifecycle
import Iotc.Resume.Hoare
import Iotc.Sdk.Rules
import Mathlib.Data.List.TakeDrop

/-!
# The texts of the requests

Each request is formatted into a buffer whose size is a bound of the configuration, a constant or
a sum of lengths, and nothing is checked against it. `requests_complete_iff` says for which strings
the text is complete and fits.
-/

namespace Iotc.Sdk

open Iotc.C Iotc.Resume
open Iotc.Web (nxSuccess IotConnectAzrtosConfig IotConnectHttpRequest)

/-- With its terminator. -/
def Fits (text : CStr) (size : Nat) : Prop := text.length + 1 ≤ size

section
variable {Op : Type} {Ans : Op → Type} {σ α : Type}

/-- The requests among the calls of a trace. -/
def sent (request : Op → Option IotConnectHttpRequest) (u : Tr Op Ans) :
    List IotConnectHttpRequest := u.filterMap fun ev => request ev.1

/-- Every request is as it should be, and a call that sends none returns: it has not been stopped
by a buffer that is too short. -/
def Complete (full : IotConnectHttpRequest → Prop) (requests : List IotConnectHttpRequest)
    (o : Out Op Ans σ α) : Prop :=
  (∀ r ∈ requests, full r) ∧ (requests = [] → o.res.isOk)

theorem complete_single {full : IotConnectHttpRequest → Prop} {r : IotConnectHttpRequest}
    {o : Out Op Ans σ α} : Complete full [r] o ↔ full r := by
  simp [Complete]

theorem sent_snoc (request : Op → Option IotConnectHttpRequest) (u : Tr Op Ans) (ev : Ev Op Ans) :
    sent request (u ++ [ev]) = sent request u ++ (request ev.1).toList := by
  unfold sent
  rw [List.filterMap_append]
  cases h : request ev.1 <;> simp [h]

/-- A call that sends nothing. -/
theorem spec_unsent {request : Op → Option IotConnectHttpRequest} {E : σ → Tr Op Ans → Prop}
    {φ : List IotConnectHttpRequest → Prop} {op : Op} (h : request op = none) :
    (Logic.added E).Spec (fun _ u => φ (sent request u)) (.call op)
      fun _ _ u => φ (sent request u) :=
  .of_call fun _ u hφ a => by
    rwa [sent_snoc, h, Option.toList_none, List.append_nil]

end

/-! ## `iotconnect.c` -/

section
open Hub

def hubRequest : Op → Option IotConnectHttpRequest
  | .iotconnectHttpsRequest r => some r
  | _ => none

/-- The size of `sync_path`. -/
def syncPathSize (path : CStr) : Nat := path.length + (cstr "sync?").length + 1

/-- The size of `post_data`. -/
def postDataSize (B : Build) : Nat := B.postDataMaxLen + 1

def FullDiscovery (B : Build) (cpid env : CStr) (r : IotConnectHttpRequest) : Prop :=
  r.resource = some (resourcePathDiscovery cpid env) ∧
    Fits (resourcePathDiscovery cpid env) (resourceStrBuffSize B)

def FullSync (B : Build) (path cpid duid : CStr) (r : IotConnectHttpRequest) : Prop :=
  r.resource = some (resourcePathSync path) ∧ Fits (resourcePathSync path) (syncPathSize path) ∧
    r.payload = some (B.postDataTemplate cpid duid) ∧
    Fits (B.postDataTemplate cpid duid) (postDataSize B)

variable {B : Build}

/-- Exactly one request, with this resource and payload. -/
def SentOne (resource : CStr) (payload : Option CStr) (_ : St) (u : Tr Op Ans) : Prop :=
  ∃ r : IotConnectHttpRequest, r.resource = some resource ∧ r.payload = payload ∧
    sent hubRequest u = [r]

theorem spec_sent_httpsRequest {E : St → Tr Op Ans → Prop} (host resource : CStr)
    (payload : Option CStr) :
    (Logic.added E).Spec (fun _ u => u = []) (httpsRequest B host resource payload)
      fun _ => SentOne resource payload := by
  refine .bind_get_any fun s => .of_call fun _ u hu a => ?_
  exact ⟨_, rfl, rfl, by rw [hu]; rfl⟩

/-- The end of the two functions. -/
theorem spec_sentOne {E : St → Tr Op Ans → Prop} {resource : CStr} {payload : Option CStr} {op : Op}
    (h : hubRequest op = none) :
    (Logic.added E).Spec (SentOne resource payload) (.call op) fun _ => SentOne resource payload :=
  .of_call fun _ u ⟨r, hresource, hpayload, hsent⟩ a => by
    refine ⟨r, hresource, hpayload, ?_⟩
    rw [sent_snoc, h, Option.toList_none, List.append_nil, hsent]

theorem spec_sent_discovery {E : St → Tr Op Ans → Prop} {cpid env : CStr}
    (h : Fits (resourcePathDiscovery cpid env) (resourceStrBuffSize B)) :
    (Logic.added E).Spec (fun _ u => u = [])
      (runHttpDiscovery B (some cpid) (some env))
      fun _ => SentOne (resourcePathDiscovery cpid env) none := by
  refine spec_runHttpDiscovery (fun hnot => absurd ⟨cpid, env, rfl, rfl, h⟩ hnot)
    (fun _ _ hcpid henv => ?_) (fun _ _ _ _ h => h) fun _ _ _ => spec_sentOne rfl
  cases hcpid
  cases henv
  exact spec_sent_httpsRequest _ _ _

theorem spec_sent_acceptSync {E : St → Tr Op Ans → Prop} {resource : CStr} {payload : Option CStr}
    (ret : Option IotclSyncResponse) :
    (Logic.added E).Spec (SentOne resource payload) (acceptSync ret)
      fun _ => SentOne resource payload := by
  refine spec_acceptSync (.modify fun _ _ h => h) fun r => ?_
  exact spec_sentOne rfl

theorem spec_sent_sync {E : St → Tr Op Ans → Prop} {s : St}
    {discovery : IotclDiscoveryResponse} (cpid duid : CStr)
    (h : s.sdk.discoveryResponse = some discovery) :
    (Logic.added E).Spec (fun s' u => s' = s ∧ u = [])
      (runHttpSync B (some cpid) (some duid)) fun _ => SentOne (resourcePathSync discovery.path)
        (some ((B.postDataTemplate cpid duid).take (B.postDataMaxLen - 1))) := by
  refine spec_runHttpSync (fun s' _ hs => .inr ?_) (fun s' d _ _ hd hcpid hduid => ?_)
    (fun _ _ _ _ h => h) (fun _ _ _ => ?_) spec_sent_acceptSync
  · rw [hs.1, h]
    exact ⟨rfl, rfl, rfl⟩
  · cases hcpid
    cases hduid
    rintro _ u ⟨rfl, rfl, hu⟩
    cases h.symm.trans hd
    exact spec_sent_httpsRequest _ _ _ _ u hu
  · exact spec_sentOne rfl

theorem fits_discovery_iff (cpid env : CStr) :
    Fits (resourcePathDiscovery cpid env) (resourceStrBuffSize B) ↔
      cpid.length + env.length ≤
        B.configIotconnectCpidMaxLen + B.configIotconnectEnvMaxLen + 14 := by
  have hformat : (cstr "/api/sdk/cpid/%s/lang/M_C/ver/2.0/env/%s").length = 40 := rfl
  have hfront : (cstr "/api/sdk/cpid/").length = 14 := rfl
  have hmiddle : (cstr "/lang/M_C/ver/2.0/env/").length = 22 := rfl
  simp only [Fits, resourcePathDiscovery, resourceStrBuffSize, List.length_append, hformat, hfront,
    hmiddle]
  omega

theorem full_sync_iff {path cpid duid : CStr} {r : IotConnectHttpRequest}
    (hresource : r.resource = some (resourcePathSync path))
    (hpayload : r.payload = some ((B.postDataTemplate cpid duid).take (B.postDataMaxLen - 1))) :
    FullSync B path cpid duid r ↔ (B.postDataTemplate cpid duid).length ≤ B.postDataMaxLen - 1 := by
  have hpath : Fits (resourcePathSync path) (syncPathSize path) := by
    have hlen : (cstr "sync").length = 4 := rfl
    have hlen' : (cstr "sync?").length = 5 := rfl
    simp only [Fits, resourcePathSync, syncPathSize, List.length_append, hlen, hlen']
    omega
  unfold FullSync
  rw [hresource, hpayload, and_iff_right rfl, and_iff_right hpath, Option.some.injEq,
    List.take_eq_self_iff]
  refine and_iff_left_of_imp fun h => ?_
  simp only [Fits, postDataSize]
  omega

variable (ans : Tr Op Ans → (op : Op) → Ans op) (s : St) (t : Tr Op Ans)

/-- The configured lengths need not be kept one by one. -/
theorem discovery_complete_iff (cpid env : CStr) :
    let o := (runHttpDiscovery B (some cpid) (some env)).run (.sequential ans) s t
    Complete (FullDiscovery B cpid env) (sent hubRequest (o.tr.drop t.length)) o ↔
      cpid.length + env.length ≤
        B.configIotconnectCpidMaxLen + B.configIotconnectEnvMaxLen + 14 := by
  intro o
  rw [← fits_discovery_iff]
  by_cases hfits : Fits (resourcePathDiscovery cpid env) (resourceStrBuffSize B)
  · obtain ⟨r, hresource, -, hsent⟩ :=
      ((spec_sent_discovery hfits).added_sat ans (s := s) rfl t).both
    rw [hsent, complete_single]
    exact iff_of_true ⟨hresource, hfits⟩ hfits
  · have hrun : o = ⟨.error .fault, s, t⟩ := by
      unfold o runHttpDiscovery
      dsimp only
      rw [run_ite, if_pos (Nat.not_le.mp hfits)]
      rfl
    rw [hrun, List.drop_length]
    exact iff_of_false (fun h => by cases h.2 rfl) hfits

theorem sync_complete_iff (discovery : IotclDiscoveryResponse) (cpid duid : CStr) :
    let s := s.setSdk ({ · with discoveryResponse := some discovery })
    let o := (runHttpSync B (some cpid) (some duid)).run (.sequential ans) s t
    Complete (FullSync B discovery.path cpid duid) (sent hubRequest (o.tr.drop t.length)) o ↔
      (B.postDataTemplate cpid duid).length ≤ B.postDataMaxLen - 1 := by
  intro s' o
  obtain ⟨r, hresource, hpayload, hsent⟩ :=
    ((spec_sent_sync cpid duid (s := s') rfl).added_sat ans ⟨rfl, rfl⟩ t).both
  rw [hsent, complete_single, full_sync_iff hresource hpayload]

end

/-! ## `iotconnect_di.c` -/

section
open Di

def diRequest : Op → Option IotConnectHttpRequest
  | .iotconnectHttpsRequest r => some r
  | _ => none

/-- `setup_request` puts the path of the agent and the suffix together. -/
def SetsUp (path pathSuffix : CStr) (o : Res Op Ans St IotConnectHttpRequest) : Prop :=
  ∃ r s, o = .done r s ∧ r.resource = stringAt (path ++ pathSuffix ++ [0]) ∧
    Fits (path ++ pathSuffix) urlResouceBufferSize

theorem defined_bind {α β : Type} (a : α) (f : α → M β) (s : St) :
    (defined (some a) >>= f) s = f a s := rfl

theorem setup_iff (B : Di.Build) (r : IotConnectHttpRequest) (path : Box CStr) (pathSuffix : CStr)
    (s : St) :
    SetsUp path.val pathSuffix
        (setupRequest B r pathSuffix { s with discoveryAgentPath := some path }) ↔
      path.val.length + pathSuffix.length + 1 ≤ urlResouceBufferSize := by
  have hfits : Fits (path.val ++ pathSuffix) urlResouceBufferSize ↔
      path.val.length + pathSuffix.length + 1 ≤ urlResouceBufferSize := by
    rw [Fits, List.length_append]
  rw [← hfits]
  refine ⟨fun ⟨_, _, _, _, h⟩ => h, fun h => ?_⟩
  have hlen := hfits.mp h
  have hpath : 0 + (path.val ++ [0]).length ≤ urlResouceBufferSize := by
    rw [List.length_append, List.length_singleton]; omega
  have hsuffix : path.val.length + (pathSuffix ++ [0]).length ≤ urlResouceBufferSize := by
    rw [List.length_append, List.length_singleton]; omega
  obtain ⟨b1, hb1⟩ := s.resourceBuffer.write?_isSome hpath
  obtain ⟨b2, hb2⟩ := b1.write?_isSome hsuffix
  obtain ⟨rest, hbytes⟩ := Buf.strcat_bytes hb1 hb2
  have hrun : setupRequest B r pathSuffix { s with discoveryAgentPath := some path } =
      .done { r with
        resource := stringAt b2.bytes
        hostName := s.discoveryAgentHost.map Box.val
        tlsCert := some B.iotconnectGodaddyG2RootCert
        tlsCertLen := B.iotconnectGodaddyG2RootCert.length }
        { s with discoveryAgentPath := some path, resourceBuffer := b2 } := by
    unfold setupRequest
    rw [Prog.get_bind]
    show (defined (some path) >>= _) _ = _
    rw [defined_bind]
    dsimp only
    rw [hb1, defined_bind, hb2, defined_bind]
    rfl
  refine ⟨_, _, hrun, ?_, h⟩
  dsimp only
  rw [hbytes, stringAt_append_zero, stringAt_terminated]

/-- What is allocated for the path of `discovery_call`. -/
def discoveryPathSize (B : Di.Build) (cpid env : CStr) : Nat :=
  B.discoveryV3ResourceFormat.length + env.length + cpid.length

def discoveryPath (B : Di.Build) (cpid env : CStr) : CStr :=
  sprintf B.discoveryV3ResourceFormat [cpid, env]

def FullAgentDiscovery (B : Di.Build) (cn env : CStr) (r : IotConnectHttpRequest) : Prop :=
  ∃ cpid duid, splitCnToCpidAndDuid cn = .ok (cpid, duid) ∧
    r.resource = some (discoveryPath B cpid env) ∧
    Fits (discoveryPath B cpid env) (discoveryPathSize B cpid env)

variable {B : Di.Build} {cpid env cn : CStr}

theorem fits_agentDiscovery_iff :
    Fits (discoveryPath B cpid env) (discoveryPathSize B cpid env) ↔
      cstr "%s" <:+: B.discoveryV3ResourceFormat ∨ env ≠ [] ∨ cpid ≠ [] := by
  unfold Fits discoveryPath discoveryPathSize
  by_cases hconversion : cstr "%s" <:+: B.discoveryV3ResourceFormat
  · have hlt := length_sprintf_lt hconversion (List.cons_ne_nil cpid [env])
    rw [List.flatten_cons, List.flatten_cons, List.flatten_nil, List.append_nil,
      List.length_append] at hlt
    exact iff_of_true (by omega) (.inl hconversion)
  · rw [sprintf_plain _ hconversion, or_iff_right hconversion, ← List.length_pos_iff,
      ← List.length_pos_iff]
    omega

/-- The one request of `discovery_call` is out. -/
def AgentAsked (resource : CStr) (_ : St) (u : Tr Op Ans) : Prop :=
  ∃ r : IotConnectHttpRequest, r.resource = some resource ∧ sent diRequest u = [r]

theorem spec_agentAsked {E : St → Tr Op Ans → Prop} {resource : CStr} {op : Op}
    (h : diRequest op = none) :
    (Logic.added E).Spec (AgentAsked resource) (.call op) fun _ => AgentAsked resource :=
  spec_unsent (φ := fun requests => ∃ r : IotConnectHttpRequest, r.resource = some resource ∧
    requests = [r]) h

theorem detached_agentAsked (resource : CStr) :
    Detached (Logic.added (AgentAsked resource)) (AgentAsked resource) where
  stop _ _ h := h
  call op hop := spec_agentAsked (by cases op <;> first | rfl | cases hop)
  set _ _ _ _ h := h

theorem spec_discoveryAnswer_asked (azrtosConfig : IotConnectAzrtosConfig) (path : Nat)
    (resource : CStr) :
    (Logic.added (AgentAsked resource)).Spec (fun _ u => sent diRequest u = [])
      (discoveryAnswer B azrtosConfig path resource) fun _ => AgentAsked resource := by
  have hret : ∀ ret, (Logic.added (AgentAsked resource)).Spec (AgentAsked resource)
      (do freeCall (some path); return .error ret : M (Except Int (Box IotclDiscoveryV3Response)))
      fun _ => AgentAsked resource := fun ret => then_return (spec_agentAsked rfl) _
  refine .bind (Q := fun _ => AgentAsked resource) (.of_call fun _ u hsent a => ?_)
    fun answer => .ite (fun _ => hret _) fun _ => ?_
  · exact ⟨discoveryRequest B azrtosConfig resource, rfl, by rw [sent_snoc, hsent]; rfl⟩
  · split
    · exact hret _
    · exact hret _
    · refine .bind (spec_agentAsked rfl) fun r => ?_
      cases r with
      | none => exact hret _
      | some r => exact then_return (spec_agentAsked rfl) _

theorem spec_discoveryCall_asked {duid : CStr} (azrtosConfig : IotConnectAzrtosConfig)
    (hsplit : splitCnToCpidAndDuid cn = .ok (cpid, duid))
    (hfits : Fits (discoveryPath B cpid env) (discoveryPathSize B cpid env)) :
    (Logic.added (AgentAsked (discoveryPath B cpid env))).Spec (fun _ u => u = [])
      (discoveryCall B azrtosConfig (some env) cn)
      fun _ s u => sent diRequest u = [] ∨ AgentAsked (discoveryPath B cpid env) s u := by
  unfold discoveryCall
  rw [hsplit]
  refine .bind (Q := fun e _ u => e = env ∧ u = []) (.pure fun _ _ hu => ⟨rfl, hu⟩) fun e =>
    .of_imp fun he => ?_
  subst he
  refine .bind (Q := fun _ _ u => sent diRequest u = []) (.of_call fun _ u hu a => ?_) fun path =>
    ?_
  · rw [show u = [] from hu]
    rfl
  cases path with
  | none => exact .pure fun _ _ h => .inl h
  | some path =>
    refine .ite (fun hlt => absurd hfits (Nat.not_le.mpr hlt)) fun _ => ?_
    refine .bind (spec_discoveryAnswer_asked _ _ _) fun res => ?_
    cases res with
    | error ret => exact .pure fun _ _ h => .inr h
    | ok r =>
      dsimp only
      split
      · exact .bind ((detached_agentAsked _).freeDiscovery r) fun _ => .pure fun _ _ h => .inr h
      · exact ((detached_agentAsked _).acceptAgent r _).post fun _ _ _ h => .inr h

/-- No allocation of the call fails. -/
def Allocated (u : Tr Op Ans) : Prop := ∀ size, (⟨.malloc size, none⟩ : Ev Op Ans) ∉ u

/-- A path that is too long is written past the end of its allocation, if there is one. -/
theorem spec_discoveryCall_overrun {duid : CStr} (azrtosConfig : IotConnectAzrtosConfig)
    (hsplit : splitCnToCpidAndDuid cn = .ok (cpid, duid))
    (hfits : ¬ Fits (discoveryPath B cpid env) (discoveryPathSize B cpid env)) :
    (Logic.added fun _ u => sent diRequest u = [] ∧ Allocated u).Spec (fun _ u => u = [])
      (discoveryCall B azrtosConfig (some env) cn)
      fun _ _ u => sent diRequest u = [] ∧ ¬ Allocated u := by
  unfold discoveryCall
  rw [hsplit]
  refine .bind (Q := fun e _ u => e = env ∧ u = []) (.pure fun _ _ hu => ⟨rfl, hu⟩) fun e =>
    .of_imp fun he => ?_
  subst he
  refine .bind (Q := fun path _ u => ∃ size, u = [⟨.malloc size, path⟩])
    (.of_call fun _ u hu a => ⟨discoveryPathSize B cpid e, ?_⟩) fun path => ?_
  · obtain rfl : u = [] := hu
    rfl
  cases path with
  | none =>
    refine .pure fun _ u ⟨size, hu⟩ => ⟨by rw [hu]; rfl, fun h => h size ?_⟩
    rw [hu]
    exact List.mem_singleton_self _
  | some path =>
    refine .ite (fun _ => .stop fun _ u ⟨size, hu⟩ => ⟨by rw [hu]; rfl, fun size' hmem => ?_⟩)
      fun hlt => absurd (Nat.not_lt.mp hlt) hfits
    rw [hu, List.mem_singleton] at hmem
    cases hmem

theorem discoveryCall_complete_iff (azrtosConfig : IotConnectAzrtosConfig)
    (ans : Tr Op Ans → (op : Op) → Ans op) (s : St) (t : Tr Op Ans) :
    let o := (discoveryCall B azrtosConfig (some env) cn).run (.sequential ans) s t
    Complete (FullAgentDiscovery B cn env) (sent diRequest (o.tr.drop t.length)) o ↔
      (Allocated (o.tr.drop t.length) → ∀ cpid duid, splitCnToCpidAndDuid cn = .ok (cpid, duid) →
        cstr "%s" <:+: B.discoveryV3ResourceFormat ∨ env ≠ [] ∨ cpid ≠ []) := by
  intro o
  have hnone : ∀ {u : Tr Op Ans}, sent diRequest u = [] → o.res.isOk →
      Complete (FullAgentDiscovery B cn env) (sent diRequest u) o := by
    intro u hsent hok
    rw [hsent]
    exact ⟨fun _ h => absurd h List.not_mem_nil, fun _ => hok⟩
  cases hsplit : splitCnToCpidAndDuid cn with
  | error ret =>
    have hrun : o = ⟨.ok ret, s, t⟩ := by
      unfold o discoveryCall
      rw [hsplit]
      rfl
    refine iff_of_true (hnone ?_ ?_) fun _ _ _ h => by cases h
    · rw [hrun, List.drop_length]
      rfl
    · rw [hrun]
      rfl
  | ok parts =>
    obtain ⟨cpid, duid⟩ := parts
    by_cases hfits : Fits (discoveryPath B cpid env) (discoveryPathSize B cpid env)
    · have hsat := (spec_discoveryCall_asked azrtosConfig hsplit hfits).added_sat ans (s := s) rfl t
      change o.Sat _ _ at hsat
      have hasked : ∀ {s u}, AgentAsked (discoveryPath B cpid env) s u →
          Complete (FullAgentDiscovery B cn env) (sent diRequest u) o := by
        rintro _ _ ⟨r, hresource, hsent⟩
        rw [hsent, complete_single]
        exact ⟨cpid, duid, hsplit, hresource, hfits⟩
      refine iff_of_true ?_ fun _ _ _ h => ?_
      · generalize o = o at hsat hnone hasked
        obtain ⟨ret | ret, s', t'⟩ := o
        · exact hasked (s := s') hsat
        · exact hsat.elim (fun hsent => hnone hsent rfl) (hasked (s := s'))
      · cases h
        exact fits_agentDiscovery_iff.mp hfits
    · have hspec := spec_discoveryCall_overrun azrtosConfig hsplit hfits
      have hsat := hspec.added_sat ans (s := s) rfl t
      change o.Sat _ _ at hsat
      generalize o = o at hsat hnone
      obtain ⟨ret | ret, s', t'⟩ := o
      · refine iff_of_false (fun h => ?_) fun h => hfits ?_
        · cases h.2 hsat.1
        · exact fits_agentDiscovery_iff.mpr (h hsat.2 cpid duid rfl)
      · exact iff_of_true (hnone hsat.1 rfl) fun h => absurd h hsat.2

end

/-! ## All of them -/

/-- What the application, the build and the servers give. -/
structure Strings where
  cpid : CStr
  env : CStr
  duid : CStr
  cn : CStr
  discovery : Hub.IotclDiscoveryResponse
  agentPath : Di.Box CStr
  pathSuffix : CStr

/-- Exact for each of the four. The size of the discovery path is right for every format with a
conversion; each of the other three sizes bounds the strings. -/
theorem requests_complete_iff (B : Build) (D : Di.Build) (x : Strings)
    (azrtosConfig : IotConnectAzrtosConfig) (ans : Tr Hub.Op Hub.Ans → (op : Hub.Op) → Hub.Ans op)
    (s : Hub.St) (t : Tr Hub.Op Hub.Ans) (ans' : Tr Di.Op Di.Ans → (op : Di.Op) → Di.Ans op)
    (s' : Di.St) (t' : Tr Di.Op Di.Ans) :
    (let o := (runHttpDiscovery B (some x.cpid) (some x.env)).run (.sequential ans) s t
     Complete (FullDiscovery B x.cpid x.env) (sent hubRequest (o.tr.drop t.length)) o ↔
      x.cpid.length + x.env.length ≤
        B.configIotconnectCpidMaxLen + B.configIotconnectEnvMaxLen + 14) ∧
    (let s := s.setSdk ({ · with discoveryResponse := some x.discovery })
     let o := (runHttpSync B (some x.cpid) (some x.duid)).run (.sequential ans) s t
     Complete (FullSync B x.discovery.path x.cpid x.duid) (sent hubRequest (o.tr.drop t.length)) o ↔
      (B.postDataTemplate x.cpid x.duid).length ≤ B.postDataMaxLen - 1) ∧
    (SetsUp x.agentPath.val x.pathSuffix (Di.setupRequest D Di.noRequest x.pathSuffix
        { s' with discoveryAgentPath := some x.agentPath }) ↔
      x.agentPath.val.length + x.pathSuffix.length + 1 ≤ Di.urlResouceBufferSize) ∧
    (let o := (Di.discoveryCall D azrtosConfig (some x.env) x.cn).run (.sequential ans') s' t'
     Complete (FullAgentDiscovery D x.cn x.env) (sent diRequest (o.tr.drop t'.length)) o ↔
      (Allocated (o.tr.drop t'.length) →
        ∀ cpid duid, Di.splitCnToCpidAndDuid x.cn = .ok (cpid, duid) →
          cstr "%s" <:+: D.discoveryV3ResourceFormat ∨ x.env ≠ [] ∨ cpid ≠ [])) :=
  ⟨discovery_complete_iff ans s t x.cpid x.env,
    sync_complete_iff ans s t x.discovery x.cpid x.duid,
    setup_iff D Di.noRequest x.agentPath x.pathSuffix s',
    discoveryCall_complete_iff azrtosConfig ans' s' t'⟩

/-- A cpid of 98 characters, one of 1000 in the sync request, and an agent's path of 26. -/
theorem requests_overrun :
    (let cpid := List.replicate 98 0x61
     let o := (runHttpDiscovery .sample (some cpid) (some [])).run
      (.sequential fun _ => Hub.allGood) ⟨.init, .init⟩ []
     ¬ Complete (FullDiscovery .sample cpid []) (sent hubRequest o.tr) o) ∧
    (let cpid := List.replicate 1000 0x61
     let s : Hub.St := ⟨.init, .init⟩
     let s := s.setSdk ({ · with discoveryResponse := some ⟨0, [], []⟩ })
     let o := (runHttpSync .sample (some cpid) (some [])).run
      (.sequential fun _ => Hub.allGood) s []
     ¬ Complete (FullSync .sample [] cpid []) (sent hubRequest o.tr) o) ∧
    (let path : Di.Box CStr := ⟨1, List.replicate 26 0x61⟩
     ¬ SetsUp path.val Di.ddimSignPath (Di.setupRequest ⟨[], [], []⟩ Di.noRequest Di.ddimSignPath
        { Di.St.boot with discoveryAgentPath := some path })) := by
  refine ⟨fun h => ?_, fun h => ?_, fun h => ?_⟩
  · have hlen := (discovery_complete_iff (fun _ => Hub.allGood) ⟨.init, .init⟩ [] _ _).mp h
    rw [List.length_replicate] at hlen
    exact absurd hlen (by decide)
  · have hlen := (sync_complete_iff (fun _ => Hub.allGood) ⟨.init, .init⟩ [] ⟨0, [], []⟩ _ _).mp h
    have htext : ∀ cpid : CStr, (Build.sample.postDataTemplate cpid []).length = cpid.length + 1 :=
      fun cpid => by simp [Build.sample, cstr]
    rw [htext, List.length_replicate] at hlen
    exact absurd hlen (by decide)
  · have hlen := (setup_iff _ _ ⟨1, _⟩ _ _).mp h
    rw [List.length_replicate] at hlen
    exact absurd hlen (by decide)

end Iotc.Sdk
