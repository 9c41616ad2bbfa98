import Iotc.Di.Client
import Iotc.Resume.Logic

/-!
# Rules for the identity client

Triples for its functions that hold in every program logic, from what holds of the calls they
make. `Unmoved` says that an assertion is about nothing that the discovery of the agent
touches, `Detached` about nothing that its end does.
-/

namespace Iotc.Di

open Iotc.C Iotc.Resume
open Iotc.Web (IotConnectAzrtosConfig IotConnectHttpRequest nxSuccess)

variable {Γ α β : Type} {L : Logic Op Ans St Γ} {I : St → Γ → Prop}

theorem spec_defined (hstop : ∀ s γ, I s γ → L.stop s γ) (x : Option α) :
    L.Spec I (defined x) fun a s γ => x = some a ∧ I s γ := by
  cases x with
  | none => exact .stop hstop
  | some a => exact .pure fun _ _ h => ⟨rfl, h⟩

theorem bind_defined {x : Option α} {f : α → M β} {Q : β → St → Γ → Prop}
    (hstop : ∀ s γ, I s γ → L.stop s γ) (h : ∀ a, x = some a → L.Spec I (f a) Q) :
    L.Spec I (defined x >>= f) Q :=
  .bind (spec_defined hstop x) fun a => .of_imp (h a)

theorem spec_ifSome {x : Option α} {act : α → M Unit}
    (h : ∀ a, L.Spec I (act a) fun _ => I) : L.Spec I (ifSome x act) fun _ => I := by
  cases x with
  | none => exact .pure fun _ _ h => h
  | some a => exact h a

/-- A conversion to hex that does not fail leaves the text of the bytes in the work buffer. -/
theorem spec_binToHex (hstop : ∀ s γ, I s γ → L.stop s γ)
    (hset : ∀ s γ w size, I s γ → I { s with workBuffer := w, workBufferSize := size } γ)
    (bin : Bytes) :
    L.Spec I (binToHex bin) fun p s γ => (p ≠ .null → p = .workBuffer ∧ (bin ≠ [] →
      s.workBuffer.bytes.take s.workBufferSize = Lib.Hex.encode bin ++ [0])) ∧ I s γ := by
  refine .bind_get_any fun s => ?_
  split
  · exact .stop hstop
  · next w _ =>
    exact .bind (.modify fun s γ h => hset s γ w 0 h) fun _ =>
      .pure fun _ _ h => ⟨fun hnull => absurd rfl hnull, h⟩
  · next w hexIdx hloop =>
    refine .bind (Q := fun _ s γ => (bin ≠ [] →
      s.workBuffer.bytes.take s.workBufferSize = Lib.Hex.encode bin ++ [0]) ∧ I s γ)
      (.modify fun s γ h => ⟨fun hbin => ?_, hset s γ w (hexIdx + 1) h⟩) fun _ =>
        .pure fun _ _ h => ⟨fun _ => ⟨rfl, h.1⟩, h.2⟩
    exact (binToHexLoop_eq hbin hloop).2

theorem spec_hexToBin (hstop : ∀ s γ, I s γ → L.stop s γ)
    (hset : ∀ s γ w size, I s γ → I { s with workBuffer := w, workBufferSize := size } γ)
    (hexStr : CharPtr) : L.Spec I (hexToBin hexStr) fun _ => I := by
  have hof : ∀ own, L.Spec I (hexToBinOf own) fun _ => I := by
    intro own
    refine .bind_get_any fun s => ?_
    split
    · exact .stop hstop
    · next m _ =>
      exact .bind (.modify fun s γ h => hset s γ m.work 0 h) fun _ => .pure fun _ _ h => h
    · next m binIdx _ =>
      exact .bind (.modify fun s γ h => hset s γ m.work binIdx h) fun _ => .pure fun _ _ h => h
  cases hexStr with
  | null => exact .pure fun _ _ h => h
  | _ => exact hof _

/-! ## The requests -/

/-- The family of the requests: what its parts do, the whole does. What is known of a request once it
is set up is `S`, and `K` holds once its text is serialised. `J` holds of a response from the parse
on, and `E` when there is none to return. -/
theorem DdimCall.run_sent {R : Type} {B : Build} {azrtosConfig : IotConnectAzrtosConfig}
    {call : DdimCall R} {onUnparsed : M Unit} {S : IotConnectHttpRequest → Prop}
    {K : Option (Box CStr) → St → Γ → Prop} {I' E : St → Γ → Prop} {J : Box R → St → Γ → Prop}
    (hsetup : L.Spec I (setupRequest B noRequest call.path) fun r s γ => S r ∧ I s γ)
    (hserialize : L.Spec I call.serialize K)
    (hhttp : ∀ r, S r → ∀ payload : Option (Box CStr), L.Spec (K payload)
      (.call (.iotconnectHttpsRequest
        { r with azrtosConfig := some azrtosConfig, payload := payload.map Box.val })) fun _ => I')
    (hparse : ∀ text, L.Spec I' (call.parse text) fun r s γ =>
      match r with
      | none => I' s γ
      | some r => J r s γ)
    (hunparsed : L.Spec I' onUnparsed fun _ => I') (hE : ∀ s γ, I' s γ → E s γ)
    (hfree : ∀ r, call.ec r.val ≠ 0 → L.Spec (J r) (call.free (some r)) fun _ => E) :
    L.Spec I (call.run B azrtosConfig onUnparsed) fun res s γ =>
      match res with
      | .error _ => E s γ
      | .ok r => J r s γ ∧ call.ec r.val = 0 := by
  refine .bind hsetup fun httpReq => .of_imp fun hreq => .bind hserialize fun payload =>
    .bind (hhttp httpReq hreq payload) fun answer => ?_
  refine .ite (fun _ => .pure hE) fun _ => ?_
  split
  · exact .pure hE
  · exact .pure hE
  · refine .bind (hparse _) fun r => ?_
    cases r with
    | none => exact .bind hunparsed fun _ => .pure hE
    | some r =>
      refine .ite (fun hec => ?_) fun hec => ?_
      · exact .bind (hfree r hec) fun _ => .pure fun _ _ h => h
      · exact .pure fun _ _ h => ⟨h, Classical.not_not.mp hec⟩

/-- The same where it does not matter what is sent. -/
theorem DdimCall.run_rule {R : Type} {B : Build} {azrtosConfig : IotConnectAzrtosConfig}
    {call : DdimCall R} {onUnparsed : M Unit} {E : St → Γ → Prop} {J : Box R → St → Γ → Prop}
    (hstop : ∀ s γ, I s γ → L.stop s γ)
    (hbuffer : ∀ s γ buffer, I s γ → I { s with resourceBuffer := buffer } γ)
    (hserialize : L.Spec I call.serialize fun _ => I)
    (hhttp : ∀ r, L.Spec I (.call (.iotconnectHttpsRequest r)) fun _ => I)
    (hparse : ∀ text, L.Spec I (call.parse text) fun r s γ =>
      match r with
      | none => I s γ
      | some r => J r s γ)
    (hunparsed : L.Spec I onUnparsed fun _ => I) (hE : ∀ s γ, I s γ → E s γ)
    (hfree : ∀ r, call.ec r.val ≠ 0 → L.Spec (J r) (call.free (some r)) fun _ => E) :
    L.Spec I (call.run B azrtosConfig onUnparsed) fun res s γ =>
      match res with
      | .error _ => E s γ
      | .ok r => J r s γ ∧ call.ec r.val = 0 := by
  refine DdimCall.run_sent (S := fun _ => True) ?_ hserialize (fun _ _ _ => hhttp _) hparse
    hunparsed hE hfree
  refine .bind_get_any fun s => bind_defined hstop fun path _ => ?_
  refine bind_defined hstop fun _ _ => bind_defined hstop fun buffer _ => ?_
  exact .bind (.modify fun s γ h => hbuffer s γ buffer h) fun _ => .pure fun _ _ h => ⟨trivial, h⟩

/-- For an assertion `J` that freeing the response does not touch. -/
theorem DdimCall.run_spec {R : Type} {B : Build} {azrtosConfig : IotConnectAzrtosConfig}
    {call : DdimCall R} {onUnparsed : M Unit} {J : R → St → Γ → Prop}
    (hstop : ∀ s γ, I s γ → L.stop s γ)
    (hbuffer : ∀ s γ buffer, I s γ → I { s with resourceBuffer := buffer } γ)
    (hserialize : L.Spec I call.serialize fun _ => I)
    (hhttp : ∀ r, L.Spec I (.call (.iotconnectHttpsRequest r)) fun _ => I)
    (hparse : ∀ text, L.Spec I (call.parse text) fun r s γ =>
      match r with
      | none => I s γ
      | some r => J r.val s γ)
    (hunparsed : L.Spec I onUnparsed fun _ => I)
    (hfree : ∀ r, L.Spec (J r.val) (call.free (some r)) fun _ => J r.val) :
    L.Spec I (call.run B azrtosConfig onUnparsed) fun res s γ =>
      match res with
      | .error _ => I s γ ∨ ∃ r, J r s γ ∧ call.ec r ≠ 0
      | .ok r => J r.val s γ ∧ call.ec r.val = 0 :=
  DdimCall.run_rule (E := fun s γ => I s γ ∨ ∃ r, J r s γ ∧ call.ec r ≠ 0)
    (J := fun r => J r.val) hstop hbuffer hserialize hhttp hparse hunparsed (fun _ _ h => .inl h)
    fun r hec => (hfree r).post fun _ _ _ h => .inr ⟨r.val, h, hec⟩

/-! ## The discovery of the agent -/

/-- The calls made once the agent's URL is there. -/
def Op.OfAgent : Op → Prop
  | .iotclFreeDiscoveryV3Response _ | .malloc _ | .free _ => True
  | _ => False

/-- The calls made until the agent is known; the one request is without a payload. -/
def Op.OfDiscovery : Op → Prop
  | .iotconnectHttpsRequest r => r.payload = none
  | .extractBootstrapCn _ | .iotclParseDiscoveryV3Response _ | .iotclFreeDiscoveryV3Response _
  | .malloc _ | .free _ => True
  | _ => False

/-- The end of a branch. -/
theorem then_return {p : M α} (h : L.Spec I p fun _ => I) (b : β) :
    L.Spec I (do let _ ← p; return b) fun _ => I := .bind h fun _ => .pure fun _ _ h => h

theorem spec_ret (b : β) : L.Spec I (pure b) fun _ => I := .pure fun _ _ h => h

/-- The agent's strings do not matter, nor do the calls that bring them there. -/
structure Detached (L : Logic Op Ans St Γ) (I : St → Γ → Prop) : Prop where
  stop : ∀ s γ, I s γ → L.stop s γ
  call : ∀ op, op.OfAgent → L.Spec I (.call op) fun _ => I
  set : ∀ s γ host path, I s γ →
    I { s with discoveryAgentHost := host, discoveryAgentPath := path } γ

namespace Detached

theorem malloc (h : Detached L I) (size : Nat) : L.Spec I (mallocCall size) fun _ => I :=
  h.call (.malloc size) trivial

theorem free (h : Detached L I) (addr : Option Nat) : L.Spec I (freeCall addr) fun _ => I :=
  h.call (.free addr) trivial

theorem setHost (h : Detached L I) (host : Option (Box CStr)) :
    L.Spec I (.modify ({ · with discoveryAgentHost := host })) fun _ => I :=
  .modify fun s γ hI => h.set s γ host s.discoveryAgentPath hI

theorem setPath (h : Detached L I) (path : Option (Box CStr)) :
    L.Spec I (.modify ({ · with discoveryAgentPath := path })) fun _ => I :=
  .modify fun s γ hI => h.set s γ s.discoveryAgentHost path hI

theorem parseDiscoveryHostAndPath (h : Detached L I) (url : CStr) :
    L.Spec I (parseDiscoveryHostAndPath url) fun _ => I := by
  refine .ite (fun _ => spec_ret _) fun _ => bind_defined h.stop fun path _ => ?_
  refine .bind (h.malloc _) fun pathAddr => ?_
  cases pathAddr with
  | none => exact .bind (h.setPath _) fun _ => then_return (h.free _) _
  | some pathAddr =>
    refine .bind (h.setPath _) fun _ => .bind (h.malloc _) fun hostAddr => ?_
    cases hostAddr with
    | none =>
      exact .bind (h.setHost _) fun _ => .bind (h.free _) fun _ => then_return (h.setPath _) _
    | some hostAddr => exact then_return (h.setHost _) _

theorem forgetAgent (h : Detached L I) : L.Spec I forgetAgent fun _ => I := by
  refine .bind_get_any fun s => .bind (spec_ifSome fun host => ?_) fun _ =>
    spec_ifSome fun path => ?_
  · exact .bind (h.free _) fun _ => h.setHost _
  · exact .bind (h.free _) fun _ => h.setPath _

theorem freeDiscovery (h : Detached L I) (r : Box IotclDiscoveryV3Response) :
    L.Spec I (freeDiscovery r) fun _ => I :=
  h.call (.iotclFreeDiscoveryV3Response (some r)) trivial

theorem acceptAgent (h : Detached L I) (r : Box IotclDiscoveryV3Response) (bu : CStr) :
    L.Spec I (acceptAgent r bu) fun _ => I := by
  refine .bind h.forgetAgent fun _ => .bind (h.malloc _) fun agentUrl => ?_
  cases agentUrl with
  | none => exact then_return (h.freeDiscovery r) _
  | some agentUrl =>
    refine .bind (h.parseDiscoveryHostAndPath bu) fun res => .ite (fun _ => ?_) fun _ => ?_
    · exact .bind h.forgetAgent fun _ => .bind (h.free _) fun _ => then_return (h.freeDiscovery r) _
    · exact .bind (h.free _) fun _ => then_return (h.freeDiscovery r) _

end Detached

structure Unmoved (L : Logic Op Ans St Γ) (I : St → Γ → Prop) : Prop where
  stop : ∀ s γ, I s γ → L.stop s γ
  call : ∀ op, op.OfDiscovery → L.Spec I (.call op) fun _ => I
  set : ∀ s γ host path mem, I s γ →
    I { s with discoveryAgentHost := host, discoveryAgentPath := path, driverMem := mem } γ

namespace Unmoved

variable {B : Build} {azrtosConfig : IotConnectAzrtosConfig} {driver : Nat}

theorem detached (h : Unmoved L I) : Detached L I where
  stop := h.stop
  call op hop := h.call op (by cases op <;> first | exact hop | cases hop)
  set s γ host path hI := h.set s γ host path s.driverMem hI

theorem discoveryAnswer (h : Unmoved L I) (discoveryPath : Nat) (resource : CStr) :
    L.Spec I (discoveryAnswer B azrtosConfig discoveryPath resource) fun _ => I := by
  refine .bind (h.call (.iotconnectHttpsRequest _) rfl) fun answer => ?_
  refine .ite (fun _ => then_return (h.detached.free _) _) fun _ => ?_
  split
  · exact then_return (h.detached.free _) _
  · exact then_return (h.detached.free _) _
  · refine .bind (h.call (.iotclParseDiscoveryV3Response _) trivial) fun r => ?_
    cases r with
    | none => exact then_return (h.detached.free _) _
    | some r => exact then_return (h.detached.free _) _

theorem discoveryCall (h : Unmoved L I) (env : Option CStr) (cn : CStr) :
    L.Spec I (discoveryCall B azrtosConfig env cn) fun _ => I := by
  unfold Di.discoveryCall
  split
  · exact spec_ret _
  · refine bind_defined h.stop fun env _ => .bind (h.detached.malloc _) fun discoveryPath => ?_
    cases discoveryPath with
    | none => exact spec_ret _
    | some discoveryPath =>
      refine .ite (fun _ => .stop h.stop) fun _ => .bind (h.discoveryAnswer _ _) fun r => ?_
      cases r with
      | error e => exact spec_ret _
      | ok r =>
        dsimp only
        split
        · exact then_return (h.detached.freeDiscovery r) _
        · exact h.detached.acceptAgent r _

theorem ensureAgent (h : Unmoved L I) (env : Option CStr) :
    L.Spec I (ensureAgent B azrtosConfig driver env) fun _ => I := by
  refine .bind_get_any fun s => .ite (fun _ => ?_) fun _ => spec_ret _
  have hextract : L.Spec I (driverCall (.extractBootstrapCn driver) Prod.snd Prod.fst :
      M (Option CStr)) fun _ => I :=
    .bind (h.call _ trivial) fun a => then_return (.modify fun s γ hI =>
      h.set s γ s.discoveryAgentHost s.discoveryAgentPath a.2 hI) _
  refine .bind hextract fun cn => ?_
  cases cn with
  | none => exact spec_ret _
  | some cn =>
    exact .bind (h.discoveryCall env cn) fun res =>
      .ite (fun _ => spec_ret _) fun _ => spec_ret _

end Unmoved

/-! ## The cleanup label -/

theorem spec_cleanup {l : Locals}
    (hauth : ∀ r, L.Spec I (.call (.iotclDdimFreeAuthResponse r)) fun _ => I)
    (hsign : ∀ r, L.Spec I (.call (.iotclDdimFreeSignResponse r)) fun _ => I)
    (hack : ∀ r, L.Spec I (.call (.iotclDdimFreeAckResponse r)) fun _ => I)
    (hfree : ∀ addr, L.Spec I (freeCall addr) fun _ => I) :
    L.Spec I (cleanup l) fun _ => I :=
  .bind (spec_ifSome fun _ => hauth _) fun _ => .bind (spec_ifSome fun _ => hsign _) fun _ =>
    .bind (spec_ifSome fun _ => hack _) fun _ => spec_ifSome fun _ => hfree _

end Iotc.Di
