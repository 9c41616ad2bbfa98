import Iotc.Di.Issued
import Iotc.Resume.Hoare

/-!
# What a call leaves on the heap

`ledger` keeps count of the heap objects that a call obtains and frees. Everything is freed once,
the host and the path of the agent apart, except for the serialised requests: these belong to
the caller of iotc-c-lib, and nothing in `iotconnect_di.c` frees them (`none_left_iff`).
-/

namespace Iotc.Di

open Iotc.C Iotc.Resume
open Iotc.Web (IotConnectAzrtosConfig IotConnectHttpRequest nxSuccess)

/-! ## The ledger -/

/-- A heap object by the function that frees it. -/
inductive Obj where
  /-- From `malloc`, or a serialised string. -/
  | block (addr : Nat)
  | authRsp (addr : Nat)
  | signRsp (addr : Nat)
  | ackRsp (addr : Nat)
  | discoveryRsp (addr : Nat)
  deriving DecidableEq

structure Ledger where
  held : List Obj := []
  /-- Something was freed that was not held. -/
  misfreed : Bool := false
  /-- The strings that the `create_serialized_string` functions have handed over. -/
  payloads : List Obj := []

namespace Ledger

def obtain (l : Ledger) (x : Option Obj) : Ledger := { l with held := x.toList ++ l.held }

def free (l : Ledger) : Option Obj → Ledger
  | none => l
  | some x =>
    { l with held := l.held.erase x, misfreed := l.misfreed || decide (x ∉ l.held) }

def serialized (l : Ledger) (payload : Option (Box CStr)) : Ledger :=
  let x := payload.map fun p => Obj.block p.addr
  { l.obtain x with payloads := x.toList ++ l.payloads }

def add (l : Ledger) : Ev Op Ans → Ledger
  | ⟨.malloc _, addr⟩ => l.obtain (Option.map Obj.block addr)
  | ⟨.free addr, _⟩ => l.free (addr.map .block)
  | ⟨.iotclDdimAuthRequestCreateSerializedString _, payload⟩ => l.serialized payload
  | ⟨.iotclDdimSignRequestCreateSerializedString _, payload⟩ => l.serialized payload
  | ⟨.iotclDdimAckRequestCreateSerializedString _, payload⟩ => l.serialized payload
  | ⟨.iotclDdimParseAuthResponse _, r⟩ => l.obtain (Option.map (fun r => .authRsp r.addr) r)
  | ⟨.iotclDdimParseSignResponse _, r⟩ => l.obtain (Option.map (fun r => .signRsp r.addr) r)
  | ⟨.iotclDdimParseAckResponse _, r⟩ => l.obtain (Option.map (fun r => .ackRsp r.addr) r)
  | ⟨.iotclParseDiscoveryV3Response _, r⟩ =>
    l.obtain (Option.map (fun r => .discoveryRsp r.addr) r)
  | ⟨.iotclDdimFreeAuthResponse r, _⟩ => l.free (r.map fun r => .authRsp r.addr)
  | ⟨.iotclDdimFreeSignResponse r, _⟩ => l.free (r.map fun r => .signRsp r.addr)
  | ⟨.iotclDdimFreeAckResponse r, _⟩ => l.free (r.map fun r => .ackRsp r.addr)
  | ⟨.iotclFreeDiscoveryV3Response r, _⟩ => l.free (r.map fun r => .discoveryRsp r.addr)
  | _ => l

end Ledger

/-- The agent's host and path. -/
def agentObjs (s : St) : List Obj :=
  (s.discoveryAgentHost.map fun host => Obj.block host.addr).toList ++
    (s.discoveryAgentPath.map fun path => Obj.block path.addr).toList

/-- The events `u` of a call that starts in `s`. -/
def ledger (s : St) (u : Tr Op Ans) : Ledger := u.foldl Ledger.add { held := agentObjs s }

/-- Host and path are both there, or both NULL. -/
def Both (s : St) : Prop := s.discoveryAgentHost.isSome = s.discoveryAgentPath.isSome

/-- A call from `s` to `s'` has left nothing but the agent's strings on the heap. -/
structure NoneLeft (s s' : St) (u : Tr Op Ans) : Prop where
  freed_once : (ledger s u).misfreed = false
  held : (ledger s u).held.Perm (agentObjs s')
  both : Both s'

/-! ## Assertions about the ledger -/

/-- The objects `own` are held, and the payloads. -/
structure Owing (φ : St → Prop) (own : St → List Obj) (s : St) (l : Ledger) : Prop where
  state : φ s
  not_misfreed : l.misfreed = false
  held : l.held.Perm (own s ++ l.payloads)

/-- Where the agent's strings are settled, and `own` is held besides. -/
abbrev Tidy (own : List Obj) : St → Ledger → Prop := Owing Both fun s => agentObjs s ++ own

/-- After a function that returns an object, or fails without one. -/
def After {α : Type} (obj : Nat → Obj) (own : List Obj) :
    Except Int (Box α) → St → Ledger → Prop
  | .error _ => Tidy own
  | .ok r => Tidy (obj r.addr :: own)

def NoAgent (s : St) : Prop := s.discoveryAgentHost = none ∧ s.discoveryAgentPath = none

/-- Where there is no agent. -/
abbrev Bare (own : List Obj) : St → Ledger → Prop := Owing NoAgent fun _ => own

abbrev heapLogic : Logic Op Ans St Ledger := .ghost Ledger.add fun _ _ => True

section
variable {φ ψ : St → Prop} {own own' : St → List Obj} {objs : List Obj} {s : St} {l : Ledger}

theorem Owing.perm (h : Owing φ own s l) (hstate : ψ s) (hown : (own s).Perm (own' s)) :
    Owing ψ own' s l :=
  ⟨hstate, h.not_misfreed, h.held.trans (hown.append_right _)⟩

theorem Bare.tidy (h : Bare objs s l) : Tidy objs s l := by
  obtain ⟨hhost, hpath⟩ := h.state
  have hobjs : agentObjs s = [] := by simp [agentObjs, hhost, hpath]
  exact h.perm (by rw [Both, hhost, hpath]) (by rw [hobjs]; exact .refl _)

theorem owing_still {op : Op} {I : St → Ledger → Prop} (h : ∀ l a, Ledger.add l ⟨op, a⟩ = l) :
    heapLogic.Spec I (.call op) fun _ => I :=
  .of_call fun s l hI a => by rw [h]; exact hI

theorem owing_obtain (op : Op) {x : Ans op → Option Obj}
    (h : ∀ l a, Ledger.add l ⟨op, a⟩ = l.obtain (x a)) :
    heapLogic.Spec (Owing φ own) (.call op) fun a => Owing φ fun s => (x a).toList ++ own s := by
  refine .of_call fun s l hl a => ?_
  rw [h]
  refine ⟨hl.state, hl.not_misfreed, ?_⟩
  rw [List.append_assoc]
  exact hl.held.append_left _

theorem owing_free {op : Op} {x : Option Obj} (h : ∀ l a, Ledger.add l ⟨op, a⟩ = l.free x) :
    heapLogic.Spec (Owing φ fun s => x.toList ++ own s) (.call op) fun _ => Owing φ own := by
  refine .of_call fun s l hl a => ?_
  rw [h]
  cases x with
  | none => exact hl
  | some x =>
    have hmem : x ∈ l.held := hl.held.mem_iff.mpr List.mem_cons_self
    refine ⟨hl.state, ?_, ?_⟩
    · simp [Ledger.free, hl.not_misfreed, hmem]
    · have herase := hl.held.erase x
      rwa [Option.toList_some, List.singleton_append, List.cons_append,
        List.erase_cons_head] at herase

theorem owing_serialized {op : Op} {payload : Ans op → Option (Box CStr)}
    (h : ∀ l a, Ledger.add l ⟨op, a⟩ = l.serialized (payload a)) :
    heapLogic.Spec (Owing φ own) (.call op) fun _ => Owing φ own := by
  refine .of_call fun s l hl a => ?_
  rw [h]
  generalize payload a = p
  cases p with
  | none => exact hl
  | some p =>
    exact ⟨hl.state, hl.not_misfreed, (hl.held.cons _).trans List.perm_middle.symm⟩

/-- The state changes, and what is owed does not. -/
theorem owing_modify (ψ : St → Prop) (own' : St → List Obj) {f : St → St}
    (hstate : ∀ s, φ s → ψ (f s)) (hown : ∀ s, φ s → (own s).Perm (own' (f s))) :
    heapLogic.Spec (Owing φ own) (.modify f) fun _ => Owing ψ own' :=
  .modify fun s _ h => ⟨hstate s h.state, h.not_misfreed,
    h.held.trans ((hown s h.state).append_right _)⟩

theorem owing_malloc (size : Nat) :
    heapLogic.Spec (Owing φ own) (mallocCall size)
      fun a => Owing φ fun s => (a.map Obj.block).toList ++ own s :=
  owing_obtain (.malloc size) (x := fun a => Option.map Obj.block a) fun _ _ => rfl

theorem owing_freeCall (own : St → List Obj) (addr : Option Nat) :
    heapLogic.Spec (Owing φ fun s => (addr.map Obj.block).toList ++ own s) (freeCall addr)
      fun _ => Owing φ own :=
  owing_free fun _ _ => rfl

theorem owing_pure {α : Type} {I : St → Ledger → Prop} (a : α) :
    heapLogic.Spec I (pure a) fun _ => I := .pure fun _ _ h => h

theorem tidy_obtain (op : Op) {x : Ans op → Option Obj}
    (h : ∀ l a, Ledger.add l ⟨op, a⟩ = l.obtain (x a)) :
    heapLogic.Spec (Tidy objs) (.call op) fun a => Tidy ((x a).toList ++ objs) := by
  refine (owing_obtain op h).post fun a s l hl => hl.perm hl.state ?_
  rw [← List.append_assoc, ← List.append_assoc]
  exact List.perm_append_comm.append_right _

theorem tidy_free {op : Op} {x : Option Obj} (h : ∀ l a, Ledger.add l ⟨op, a⟩ = l.free x) :
    heapLogic.Spec (Tidy (x.toList ++ objs)) (.call op) fun _ => Tidy objs := by
  refine (owing_free h).pre fun s l hl => hl.perm hl.state ?_
  rw [← List.append_assoc, ← List.append_assoc]
  exact List.perm_append_comm.append_right _

/-- What a driver does to its own memory. -/
theorem tidy_driverCall {α : Type} {op : Op} (mem : Ans op → DriverMem) (value : Ans op → α)
    (h : ∀ l a, Ledger.add l ⟨op, a⟩ = l) :
    heapLogic.Spec (Tidy objs) (driverCall op mem value) fun _ => Tidy objs :=
  .bind (owing_still h) fun _ => .bind (owing_modify _ _ (fun _ h => h) fun _ _ => .refl _) fun _ =>
    owing_pure _

end

/-! ## The discovery of the agent -/

section
variable {B : Build} {azrtosConfig : IotConnectAzrtosConfig} {driver : Nat} {objs : List Obj}

theorem bare_then_return {β : Type} {I J : St → Ledger → Prop} {p : M β}
    (h : heapLogic.Spec I p fun _ => J) {α : Type} (b : α) :
    heapLogic.Spec I (do let _ ← p; return b) fun _ => J := .bind h fun _ => owing_pure b

/-- Two blocks become the agent's strings, or none stays. -/
theorem bare_parseDiscoveryHostAndPath (url : CStr) :
    heapLogic.Spec (Bare objs) (parseDiscoveryHostAndPath url) fun ret s l =>
      if ret = 0 then Tidy objs s l else Bare objs s l := by
  refine .ite (fun _ => .pure fun _ _ h => h) fun _ =>
    bind_defined (fun _ _ _ => trivial) fun path _ => .bind (owing_malloc _) fun pathAddr => ?_
  cases pathAddr with
  | none =>
    refine .bind (owing_modify NoAgent (fun _ => objs) (fun _ h => ⟨h.1, rfl⟩)
      fun _ _ => .refl _) fun _ => ?_
    exact .bind (owing_freeCall _ none) fun _ => .pure fun _ _ h => h
  | some pathAddr =>
    refine .bind (owing_modify (fun s => s.discoveryAgentHost = none ∧
      s.discoveryAgentPath = some ⟨pathAddr, path⟩) (fun _ => .block pathAddr :: objs)
      (fun _ h => ⟨h.1, rfl⟩) fun _ _ => .refl _) fun _ => .bind (owing_malloc _) fun hostAddr => ?_
    cases hostAddr with
    | none =>
      refine .bind (owing_modify (fun s => s.discoveryAgentHost = none)
        (fun _ => .block pathAddr :: objs) (fun _ _ => rfl) fun _ _ => .refl _) fun _ => ?_
      refine .bind (owing_freeCall (fun _ => objs) (some pathAddr)) fun _ => ?_
      exact .bind (owing_modify NoAgent (fun _ => objs) (fun _ h => ⟨h, rfl⟩)
        fun _ _ => .refl _) fun _ => .pure fun _ _ h => h
    | some hostAddr =>
      refine .bind (Q := fun _ => Tidy objs) (owing_modify _ _ (fun s h => ?_) fun s h => ?_)
        fun _ => .pure fun _ _ h => h
      · simp [Both, h.2]
      · simp [agentObjs, h.2]

theorem bare_forgetAgent : heapLogic.Spec (Bare objs) forgetAgent fun _ => Bare objs := by
  refine .bind_get (fun _ _ h => h.state) fun s ⟨hhost, hpath⟩ => ?_
  rw [hhost, hpath]
  exact .bind (owing_pure ()) fun _ => owing_pure ()

theorem tidy_freeDiscovery (r : Box IotclDiscoveryV3Response) :
    heapLogic.Spec (Tidy (.discoveryRsp r.addr :: objs)) (freeDiscovery r) fun _ => Tidy objs :=
  tidy_free (x := some (.discoveryRsp r.addr)) fun _ _ => rfl

/-- The end of `discovery_call`, from an agent's URL on. -/
theorem bare_acceptAgent (r : Box IotclDiscoveryV3Response) (bu : CStr) :
    heapLogic.Spec (Bare (.discoveryRsp r.addr :: objs)) (acceptAgent r bu)
      fun _ => Tidy objs := by
  refine .bind bare_forgetAgent fun _ => .bind (owing_malloc _) fun agentUrl => ?_
  cases agentUrl with
  | none => exact bare_then_return ((tidy_freeDiscovery r).pre fun _ _ h => Bare.tidy h) _
  | some agentUrl =>
    have hfree : heapLogic.Spec (Tidy (.block agentUrl :: .discoveryRsp r.addr :: objs))
        (freeCall (some agentUrl)) fun _ => Tidy (.discoveryRsp r.addr :: objs) :=
      tidy_free (x := some (.block agentUrl)) fun _ _ => rfl
    refine .bind (bare_parseDiscoveryHostAndPath bu) fun ret => .ite (fun hret => ?_) fun hret => ?_
    · simp only [if_neg hret]
      refine .bind bare_forgetAgent fun _ => .bind (hfree.pre fun _ _ h => Bare.tidy h) fun _ => ?_
      exact bare_then_return (tidy_freeDiscovery r) _
    · simp only [if_pos (Classical.not_not.mp hret)]
      exact .bind hfree fun _ => bare_then_return (tidy_freeDiscovery r) _

theorem bare_discoveryAnswer (discoveryPath : Nat) (resource : CStr) :
    heapLogic.Spec (Bare (.block discoveryPath :: objs))
      (discoveryAnswer B azrtosConfig discoveryPath resource) fun res =>
        match res with
        | .error _ => Bare objs
        | .ok r => Bare (.discoveryRsp r.addr :: objs) := by
  have hfree : ∀ own : List Obj, heapLogic.Spec (Bare (.block discoveryPath :: own))
      (freeCall (some discoveryPath)) fun _ => Bare own := fun _ =>
    owing_freeCall _ (some discoveryPath)
  refine .bind (owing_still fun _ _ => rfl) fun answer =>
    .ite (fun _ => .bind (hfree _) fun _ => .pure fun _ _ h => h) fun _ => ?_
  split
  · exact .bind (hfree _) fun _ => .pure fun _ _ h => h
  · exact .bind (hfree _) fun _ => .pure fun _ _ h => h
  · next text _ _ =>
    refine .bind (owing_obtain (.iotclParseDiscoveryV3Response text)
      (x := fun r => Option.map (fun r => .discoveryRsp r.addr) r) fun _ _ => rfl) fun r => ?_
    cases r with
    | none => exact .bind (hfree _) fun _ => .pure fun _ _ h => h
    | some r =>
      refine .bind ((hfree (.discoveryRsp r.addr :: objs)).pre fun _ _ h =>
        h.perm h.state (.swap ..)) fun _ => .pure fun _ _ h => h

theorem bare_discoveryCall (env : Option CStr) (cn : CStr) :
    heapLogic.Spec (Bare objs) (discoveryCall B azrtosConfig env cn) fun _ => Tidy objs := by
  have hreturn : ∀ ret : Int, heapLogic.Spec (Bare objs) (pure ret) fun _ => Tidy objs :=
    fun _ => .pure fun _ _ => Bare.tidy
  unfold discoveryCall
  split
  · exact hreturn _
  · refine bind_defined (fun _ _ _ => trivial) fun env _ => .bind (owing_malloc _)
      fun discoveryPath => ?_
    cases discoveryPath with
    | none => exact hreturn _
    | some discoveryPath =>
      refine .ite (fun _ => .stop fun _ _ _ => trivial) fun _ =>
        .bind (bare_discoveryAnswer discoveryPath _) fun res => ?_
      cases res with
      | error ret => exact hreturn ret
      | ok r =>
        dsimp only
        split
        · exact bare_then_return ((tidy_freeDiscovery r).pre fun _ _ h => Bare.tidy h) _
        · exact bare_acceptAgent r _

/-- The discovery is made where host and path are both missing. -/
theorem tidy_ensureAgent (env : Option CStr) :
    heapLogic.Spec (Tidy objs) (ensureAgent B azrtosConfig driver env) fun _ => Tidy objs := by
  refine .bind_get_eq fun s0 => .ite (fun hnone => ?_) fun _ => .pure fun _ _ h => h.2
  refine .pre (P := Bare objs) ?_ fun s l ⟨hs, h⟩ => ?_
  · have hextract : heapLogic.Spec (Bare objs)
        (driverCall (.extractBootstrapCn driver) Prod.snd Prod.fst : M (Option CStr))
        fun _ => Bare objs :=
      .bind (owing_still fun _ _ => rfl) fun _ =>
        .bind (owing_modify _ _ (fun _ h => h) fun _ _ => .refl _) fun _ => owing_pure _
    refine .bind hextract fun cn => ?_
    cases cn with
    | none => exact .pure fun _ _ => Bare.tidy
    | some cn =>
      exact .bind (bare_discoveryCall env cn) fun ret =>
        .ite (fun _ => owing_pure _) fun _ => owing_pure _
  · subst hs
    have hboth := h.state
    have hagent : NoAgent s := by
      unfold Both at hboth
      unfold NoAgent
      cases hhost : s.discoveryAgentHost <;> cases hpath : s.discoveryAgentPath <;> simp_all
    refine h.perm hagent ?_
    simp [agentObjs, hagent.1, hagent.2]

/-! ## The requests -/

theorem tidy_binToHex (bin : Bytes) :
    heapLogic.Spec (Tidy objs) (binToHex bin) fun _ => Tidy objs :=
  (spec_binToHex (fun _ _ _ => trivial) (fun _ _ _ _ h => ⟨h.state, h.not_misfreed, h.held⟩)
    bin).post fun _ _ _ h => h.2

theorem tidy_readDriver (d : DriverBytes) :
    heapLogic.Spec (Tidy objs) (readDriver d) fun _ => Tidy objs :=
  .bind_get_any fun _ => (spec_defined (fun _ _ _ => trivial) _).post fun _ _ _ h => h.2

/-- A request holds the response that it returns, and frees any other. -/
theorem tidy_run {R : Type} {call : DdimCall R} {onUnparsed : M Unit} (obj : Nat → Obj)
    (hserialize : heapLogic.Spec (Tidy objs) call.serialize fun _ => Tidy objs)
    (hparse : ∀ text, heapLogic.Spec (Tidy objs) (call.parse text) fun r =>
      Tidy ((r.map fun r => obj r.addr).toList ++ objs))
    (hunparsed : heapLogic.Spec (Tidy objs) onUnparsed fun _ => Tidy objs)
    (hfree : ∀ r, heapLogic.Spec (Tidy (obj r.addr :: objs)) (call.free (some r))
      fun _ => Tidy objs) :
    heapLogic.Spec (Tidy objs) (call.run B azrtosConfig onUnparsed) (After obj objs) := by
  refine (DdimCall.run_rule (E := Tidy objs) (J := fun r => Tidy (obj r.addr :: objs))
    (fun _ _ _ => trivial) (fun _ _ _ h => ⟨h.state, h.not_misfreed, h.held⟩) hserialize
    (fun _ => owing_still fun _ _ => rfl) (fun text => ?_) hunparsed (fun _ _ h => h)
    fun r _ => hfree r).post fun res s l h => ?_
  · exact (hparse text).post fun r _ _ h => by cases r <;> exact h
  · cases res with
    | error ret => exact h
    | ok r => exact h.1

theorem tidy_ddimCallAuth (request : IotclDdimAuthRequest CharPtr) :
    heapLogic.Spec (Tidy objs) (ddimCallAuth B azrtosConfig request) (After .authRsp objs) := by
  have hfree : ∀ r : Box IotclDdimAuthResponse, heapLogic.Spec (Tidy (.authRsp r.addr :: objs))
      ((authCall request).free (some r)) fun _ => Tidy objs := fun r =>
    tidy_free (x := some (.authRsp r.addr)) fun _ _ => rfl
  refine .bind (tidy_run .authRsp ?_ (fun _ => tidy_obtain _ fun _ _ => rfl) (owing_pure _)
    hfree) fun res => ?_
  · exact .bind_get_any fun s => bind_defined (fun _ _ _ => trivial) fun _ _ =>
      bind_defined (fun _ _ _ => trivial) fun _ _ => owing_serialized fun _ _ => rfl
  · cases res with
    | error ret => exact .pure fun _ _ h => h
    | ok r =>
      refine .ite (fun _ => ?_) fun _ => .pure fun _ _ h => h
      exact .bind (hfree r) fun _ => .pure fun _ _ h => h

theorem tidy_ddimCallSign (request : IotclDdimSignRequest CharPtr) :
    heapLogic.Spec (Tidy objs) (ddimCallSign B azrtosConfig request) (After .signRsp objs) := by
  have hfree : ∀ r : Box IotclDdimSignResponse, heapLogic.Spec (Tidy (.signRsp r.addr :: objs))
      ((signCall request).free (some r)) fun _ => Tidy objs := fun r =>
    tidy_free (x := some (.signRsp r.addr)) fun _ _ => rfl
  have hnull : heapLogic.Spec (Tidy objs) ((signCall request).free none) fun _ => Tidy objs :=
    owing_still fun _ _ => rfl
  refine tidy_run .signRsp ?_ (fun _ => tidy_obtain _ fun _ _ => rfl) hnull hfree
  exact .bind_get_any fun s => bind_defined (fun _ _ _ => trivial) fun _ _ =>
    bind_defined (fun _ _ _ => trivial) fun _ _ => bind_defined (fun _ _ _ => trivial) fun _ _ =>
      owing_serialized fun _ _ => rfl

theorem tidy_ddimCallAck (request : IotclDdimAckRequest CharPtr) :
    heapLogic.Spec (Tidy objs) (ddimCallAck B azrtosConfig request) (After .ackRsp objs) := by
  have hfree : ∀ r : Box IotclDdimAckResponse, heapLogic.Spec (Tidy (.ackRsp r.addr :: objs))
      ((ackCall request).free (some r)) fun _ => Tidy objs := fun r =>
    tidy_free (x := some (.ackRsp r.addr)) fun _ _ => rfl
  have hnull : heapLogic.Spec (Tidy objs) ((ackCall request).free none) fun _ => Tidy objs :=
    owing_still fun _ _ => rfl
  refine tidy_run .ackRsp ?_ (fun _ => tidy_obtain _ fun _ _ => rfl) hnull hfree
  exact .bind_get_any fun s => bind_defined (fun _ _ _ => trivial) fun _ _ =>
    owing_serialized fun _ _ => rfl

/-! ## The whole call -/

theorem tidy_authenticate (env : Option CStr) :
    heapLogic.Spec (Tidy objs) (authenticate B azrtosConfig driver env) (After .authRsp objs) := by
  refine .bind (tidy_ensureAgent env) fun ret => .ite (fun _ => .pure fun _ _ h => h) fun _ => ?_
  refine .bind (tidy_driverCall _ _ fun _ _ => rfl) fun cert =>
    .ite (fun _ => .pure fun _ _ h => h) fun _ => ?_
  refine .bind (tidy_readDriver _) fun bin => .bind (tidy_binToHex bin) fun bcert =>
    .ite (fun _ => .pure fun _ _ h => h) fun _ => .bind (tidy_ddimCallAuth _) fun res => ?_
  cases res with
  | error ret => exact .pure fun _ _ h => h
  | ok r => exact .pure fun _ _ h => h

theorem tidy_hashCsr (rn cid : CStr) (csr : DriverBytes) :
    heapLogic.Spec (Tidy objs) (hashCsr rn cid csr) fun _ => Tidy objs := by
  refine .bind (owing_still fun _ _ => rfl) fun status => .ite (fun _ => owing_pure _) fun _ => ?_
  refine .bind (owing_still fun _ _ => rfl) fun onRn => .bind (owing_still fun _ _ => rfl)
    fun onCid => .bind (tidy_readDriver csr) fun bin => ?_
  refine .bind (owing_still fun _ _ => rfl) fun onCsr => .ite (fun _ => owing_pure _) fun _ => ?_
  exact .bind (owing_still fun _ _ => rfl) fun digest =>
    .ite (fun _ => owing_pure _) fun _ => owing_pure _

theorem tidy_signatureOf (hash : Buf iotcSha256HashSize) :
    heapLogic.Spec (Tidy objs) (signatureOf driver hash) fun _ => Tidy objs := by
  refine .bind (tidy_driverCall _ _ fun _ _ => rfl) fun signed =>
    .ite (fun _ => owing_pure _) fun _ => bind_defined (fun _ _ _ => trivial) fun der _ => ?_
  cases der with
  | error ret => exact owing_pure _
  | ok der => exact owing_pure _

theorem tidy_signedCsr (auth : IotclDdimAuthResponse) :
    heapLogic.Spec (Tidy objs) (signedCsr driver auth) fun _ => Tidy objs := by
  refine bind_defined (fun _ _ _ => trivial) fun cn _ =>
    .bind (tidy_driverCall _ _ fun _ _ => rfl) fun csr => .ite (fun _ => owing_pure _) fun _ => ?_
  refine bind_defined (fun _ _ _ => trivial) fun rn _ => bind_defined (fun _ _ _ => trivial)
    fun cid _ => .bind (tidy_hashCsr rn cid csr) fun hash => ?_
  cases hash with
  | error ret => exact owing_pure _
  | ok hash =>
    refine .bind (tidy_signatureOf hash) fun der => ?_
    cases der with
    | error ret => exact owing_pure _
    | ok der => exact owing_pure _

theorem tidy_copySignature (der : Bytes) :
    heapLogic.Spec (Tidy objs) (copySignature der) (After .block objs) := by
  refine .bind (tidy_binToHex der) fun hex => .ite (fun _ => .pure fun _ _ h => h) fun _ => ?_
  refine .bind_get_any fun s => .bind (tidy_obtain (.malloc _)
    (x := fun a => Option.map Obj.block a) fun _ _ => rfl) fun addr => ?_
  cases addr with
  | none => exact .pure fun _ _ h => h
  | some addr => exact .pure fun _ _ h => h

theorem tidy_requestCert (csr : DriverBytes) (sig : Box Bytes) :
    heapLogic.Spec (Tidy objs) (requestCert B azrtosConfig csr sig) (After .signRsp objs) := by
  refine .bind (tidy_readDriver csr) fun bin => .bind (tidy_binToHex bin) fun hex =>
    .ite (fun _ => .pure fun _ _ h => h) fun _ => .bind (tidy_ddimCallSign _) fun res => ?_
  cases res with
  | error ret => exact .pure fun _ _ h => h
  | ok r => exact .pure fun _ _ h => h

theorem tidy_storeAndAck (cid : Option CStr) (sign : IotclDdimSignResponse) :
    heapLogic.Spec (Tidy objs) (storeAndAck B azrtosConfig driver cid sign)
      (After .ackRsp objs) := by
  refine .bind (spec_hexToBin (fun _ _ _ => trivial)
    (fun _ _ _ _ h => ⟨h.state, h.not_misfreed, h.held⟩) _) fun _ => .bind_get_any fun s => ?_
  refine .ite (fun _ => .pure fun _ _ h => h) fun _ =>
    .bind (tidy_driverCall _ _ fun _ _ => rfl) fun status =>
    .ite (fun _ => .pure fun _ _ h => h) fun _ => .bind (tidy_ddimCallAck _) fun res => ?_
  cases res with
  | error ret => exact .pure fun _ _ h => h
  | ok r => exact .pure fun _ _ h => h

/-- What the cleanup label frees, in its order. -/
def Locals.heldObjs (l : Locals) : List Obj :=
  (l.authRsp.map fun r => Obj.authRsp r.addr).toList ++
    ((l.signRsp.map fun r => Obj.signRsp r.addr).toList ++
      ((l.ackRsp.map fun r => Obj.ackRsp r.addr).toList ++
        (l.sig.map fun r => Obj.block r.addr).toList))

theorem tidy_ifSome {α : Type} {x : Option α} {obj : α → Obj} {act : α → M Unit}
    (h : ∀ a, heapLogic.Spec (Tidy (obj a :: objs)) (act a) fun _ => Tidy objs) :
    heapLogic.Spec (Tidy ((x.map obj).toList ++ objs)) (ifSome x act) fun _ => Tidy objs := by
  cases x with
  | none => exact owing_pure ()
  | some a => exact h a

theorem tidy_cleanup (l : Locals) :
    heapLogic.Spec (Tidy l.heldObjs) (cleanup l) fun _ => Tidy [] := by
  refine .bind (tidy_ifSome fun r => tidy_free (x := some (.authRsp r.addr)) fun _ _ => rfl)
    fun _ => ?_
  refine .bind (tidy_ifSome fun r => tidy_free (x := some (.signRsp r.addr)) fun _ _ => rfl)
    fun _ => ?_
  refine .bind (tidy_ifSome fun r => tidy_free (x := some (.ackRsp r.addr)) fun _ _ => rfl)
    fun _ => ?_
  rw [← List.append_nil (l.sig.map fun r => Obj.block r.addr).toList]
  exact tidy_ifSome fun r => tidy_free (x := some (.block r.addr)) fun _ _ => rfl

/-- Whatever the call holds at its end, its local pointers designate. -/
theorem tidy_obtainIdentity (env : Option CStr) :
    heapLogic.Spec (Tidy []) (obtainIdentity B azrtosConfig driver env)
      fun res => Tidy res.2.heldObjs := by
  refine .bind (tidy_authenticate env) fun auth => ?_
  cases auth with
  | error ret => exact .pure fun _ _ h => h
  | ok auth =>
    refine .bind (tidy_signedCsr auth.val) fun csr => ?_
    cases csr with
    | error ret => exact .pure fun _ _ h => h
    | ok csr =>
      refine .bind (tidy_copySignature csr.2) fun sig => ?_
      cases sig with
      | error ret => exact .pure fun _ _ h => h
      | ok sig =>
        refine .bind (tidy_requestCert csr.1 sig) fun sign => ?_
        cases sign with
        | error ret =>
          exact .pure fun _ _ h => h.perm h.state (.append_left _ (.swap ..))
        | ok sign =>
          refine .bind (tidy_storeAndAck _ _) fun ack => ?_
          have hsorted : ([.signRsp sign.addr, .block sig.addr, .authRsp auth.addr] :
              List Obj).Perm [.authRsp auth.addr, .signRsp sign.addr, .block sig.addr] :=
            List.perm_append_singleton _ [_, _]
          cases ack with
          | error ret => exact .pure fun _ _ h => h.perm h.state (.append_left _ hsorted)
          | ok ack =>
            refine .pure fun _ _ h => h.perm h.state (.append_left _ ?_)
            refine (hsorted.cons _).trans ((List.Perm.swap ..).trans (.cons _ (.swap ..)))

theorem tidy_iotcdiObtainOperationalIdentity (env : Option CStr) :
    heapLogic.Spec (Tidy []) (iotcdiObtainOperationalIdentity B azrtosConfig driver env)
      fun _ => Tidy [] :=
  .bind (tidy_obtainIdentity env) fun res => .bind (tidy_cleanup res.2) fun _ => owing_pure _

end

/-! ## Sessions -/

/-- The objects that are held when nothing but the agent's strings and the payloads is. -/
theorem none_left_iff_payloads {s s' : St} {u : Tr Op Ans} (h : Tidy [] s' (ledger s u)) :
    NoneLeft s s' u ↔ (ledger s u).payloads = [] := by
  have hheld := h.held
  rw [List.append_nil] at hheld
  constructor
  · intro hnone
    have hlen := (hnone.held.symm.trans hheld).length_eq
    rw [List.length_append] at hlen
    exact List.eq_nil_of_length_eq_zero (by omega)
  · intro hnil
    rw [hnil, List.append_nil] at hheld
    exact ⟨h.not_misfreed, hheld, h.state⟩

/-- In every session, a call that returns leaves nothing behind exactly when it was handed no
serialised request. -/
theorem none_left_iff (B : Build) (ans : Tr Op Ans → (op : Op) → Ans op) (calls : List ObtainArgs)
    (t : Tr Op Ans) :
    EachCall (World.sequential ans) (obtain B) (fun _ s t o => o.res.isOk →
      (NoneLeft s o.st (o.tr.drop t.length) ↔ (ledger s (o.tr.drop t.length)).payloads = []))
      calls .boot t := by
  refine EachCall.of_inv (I := fun s _ => Both s) (fun c s t hboth _ => ?_)
    (.all (R := fun _ _ _ _ => True) (fun _ _ _ => trivial) ..) rfl
  have hspec : heapLogic.Spec (Tidy []) (obtain B c) fun _ => Tidy [] :=
    tidy_iotcdiObtainOperationalIdentity c.env
  have hsat := hspec.ghost_sat ans (s := s) (γ := { held := agentObjs s })
    ⟨hboth, rfl, by simp⟩ t
  constructor
  · intro hok
    obtain ⟨ret, -, htidy⟩ := hsat.ok hok
    exact none_left_iff_payloads htidy
  · intro hok
    obtain ⟨ret, -, htidy⟩ := hsat.ok hok
    exact htidy.state

/-- Everything succeeds, and each block is at an address of its own. -/
def heapAns (t : Tr Op Ans) : (op : Op) → Ans op
  | .malloc _ => some (100 + t.length)
  | op => sampleAns (some (cstr "0aFf")) t op

def leakingRun : Out Op Ans St Int :=
  (obtain ⟨cstr "discovery", cstr "/api/%s/%s", [48]⟩ ⟨⟨1, 2, 3⟩, 0, some (cstr "env")⟩).run
    (.sequential heapAns) .boot []

/-- The three serialised requests of a successful call stay on the heap. -/
theorem payloads_left :
    leakingRun.res.toOption = some 0 ∧
      (ledger .boot leakingRun.tr).held =
        [.block 3, .block 2, .block 1, .block 107, .block 106] ∧
      agentObjs leakingRun.st = [.block 107, .block 106] ∧
      ¬ EachCall (.sequential heapAns) (obtain ⟨cstr "discovery", cstr "/api/%s/%s", [48]⟩)
        (fun _ s t o => o.res.isOk → NoneLeft s o.st (o.tr.drop t.length))
        [⟨⟨1, 2, 3⟩, 0, some (cstr "env")⟩] .boot [] := by
  have hrun : (leakingRun.res.toOption, (ledger .boot leakingRun.tr).held,
      agentObjs leakingRun.st) = (some 0,
        [.block 3, .block 2, .block 1, .block 107, .block 106], [.block 107, .block 106]) := by
    decide +kernel
  obtain ⟨hres, hrest⟩ := Prod.mk.inj hrun
  obtain ⟨hheld, hagent⟩ := Prod.mk.inj hrest
  refine ⟨hres, hheld, hagent, fun h => ?_⟩
  have hok : leakingRun.res.isOk := by
    cases hr : leakingRun.res with
    | ok ret => rfl
    | error e => rw [hr] at hres; cases hres
  have hleft : NoneLeft .boot leakingRun.st (leakingRun.tr.drop 0) := h.1 hok
  have hperm := hleft.held
  rw [List.drop_zero, hheld, hagent] at hperm
  exact absurd hperm.length_eq (by decide)

end Iotc.Di
