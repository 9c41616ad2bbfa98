import Iotc.Di.Der
import Iotc.Di.Issued

/-!
# The requests are bound to one another

The bootstrap certificate, the CSR, the signature and their hex texts pass through one work buffer
and the memory of the driver. `Seen` is what the driver, the hash, the device identity
service and the serialisers have handed out in a call; `Carried` says what a request is to carry of
it and where it is to go. Every request of every call does, as long as `sign_hash` leaves the CSR
where it is.
-/

namespace Iotc.Di

open Iotc.C Iotc.Resume
open Iotc.Web (IotConnectAzrtosConfig IotConnectHttpRequest nxSuccess)
open Lib.Hex (encode)

/-- The bytes that a driver call has pointed out, in the driver's memory `mem`. -/
def DriverBytes.bytesIn (d : DriverBytes) (mem : DriverMem) : Option Bytes :=
  if d.len ≤ (mem d.buffer).length then some ((mem d.buffer).take d.len) else none

/-- The DER form of a signature, from its two halves. -/
def derOf (sR : Buf iotc256BitSignatureSize) : Option Bytes :=
  match sigToAsn1Der (some (Buf.zero (iotc256BitSignatureSize + 10))) (some (sR.bytes.take 32))
    (some (sR.bytes.drop 32)) 256 with
  | some (.ok (out, len)) => some (out.bytes.take len)
  | _ => none

theorem derOf_eq (sR : Buf iotc256BitSignatureSize) {out : Buf (iotc256BitSignatureSize + 10)}
    {len : Nat} (h : sigToAsn1Der (some (Buf.zero (iotc256BitSignatureSize + 10))) (some sR.bytes)
      (some (sR.bytes.drop (iotc256BitSignatureSize / 2))) (iotc256BitKeySize * 8) =
        some (.ok (out, len))) :
    derOf sR = some (out.bytes.take len) ∧ out.bytes.take len ≠ [] := by
  have hlen : sR.bytes.length = 64 := sR.length_eq
  have hr : Readable (256 / 8) sR.bytes := ⟨by omega, by omega⟩
  have hr' : Readable (256 / 8) (sR.bytes.take 32) := by
    constructor <;> simp [hlen]
  have hs : Readable (256 / 8) (sR.bytes.drop 32) := by
    constructor <;> simp [hlen]
  have hsame : sigToAsn1Der (some (Buf.zero (iotc256BitSignatureSize + 10)))
      (some (sR.bytes.take 32)) (some (sR.bytes.drop 32)) 256 = some (.ok (out, len)) := by
    rw [← h, sigToAsn1Der_eq _ 256 hr' hs]
    refine Eq.trans ?_ (sigToAsn1Der_eq _ 256 hr hs).symm
    simp only [derSignature, derInteger_take (show 0 < 256 / 8 by decide)]
  refine ⟨by rw [derOf, hsame], fun hnil => ?_⟩
  rw [sigToAsn1Der_eq _ 256 hr' hs] at hsame
  obtain ⟨w, hwrite, hout⟩ := Option.map_eq_some_iff.mp hsame
  cases hout
  have htake := Buf.take_write?_zero hwrite
  rw [hnil] at htake
  simp [derSignature, derHeader] at htake
  split at htake <;> simp at htake

/-! ## What a call has seen -/

/-- The agent's host and path. -/
structure Agent where
  host : Option CStr
  path : Option CStr

def St.agent (s : St) : Agent := ⟨s.discoveryAgentHost.map Box.val, s.discoveryAgentPath.map Box.val⟩

/-- What was handed out last; a digest comes with what was hashed, a signature with what was
signed. `pending` is the end of the path and the text of a request that is serialised and not yet
sent. -/
structure Seen where
  cert : Option DriverBytes := none
  auth : Option IotclDdimAuthResponse := none
  csr : Option DriverBytes := none
  hashed : Bytes := []
  digest : Option (Bytes × Buf iotcSha256HashSize) := none
  signature : Option (Bytes × Buf iotc256BitSignatureSize) := none
  pending : Option (CStr × Option CStr) := none

def Seen.serialized (l : Seen) (path : CStr) (text : Option (Box CStr)) : Seen :=
  { l with pending := some (path, text.map Box.val) }

def Seen.add (l : Seen) : Ev Op Ans → Seen
  | ⟨.getBootstrapCert _, cert⟩ => { l with cert := some cert }
  | ⟨.iotclDdimParseAuthResponse _, some r⟩ => { l with auth := some r.val }
  | ⟨.generateCsr _ _, csr⟩ => { l with csr := some csr }
  | ⟨.nxCryptoSha256Initialize, _⟩ => { l with hashed := [] }
  | ⟨.nxCryptoSha256Update input, _⟩ => { l with hashed := l.hashed ++ input }
  | ⟨.nxCryptoSha256DigestCalculate, (_, digest)⟩ => { l with digest := some (l.hashed, digest) }
  | ⟨.signHash _ hash, ((_, sR), _)⟩ => { l with signature := some (hash, sR) }
  | ⟨.iotclDdimAuthRequestCreateSerializedString _, text⟩ => l.serialized ddimAuthPath text
  | ⟨.iotclDdimSignRequestCreateSerializedString _, text⟩ => l.serialized ddimSignPath text
  | ⟨.iotclDdimAckRequestCreateSerializedString _, text⟩ => l.serialized ddimAckPath text
  | ⟨.iotconnectHttpsRequest _, _⟩ => { l with pending := none }
  | _ => l

def seen (u : Tr Op Ans) : Seen := u.foldl Seen.add {}

/-- `B`, as the driver handed it out. -/
def Seen.certBytes (l : Seen) : Option Bytes := l.cert.bind fun d => d.bytesIn d.mem

/-- `C`, as the driver handed it out. -/
def Seen.csrBytes (l : Seen) : Option Bytes := l.csr.bind fun d => d.bytesIn d.mem

/-- `der` is the signature of the hash of the random number, of `cid` and of the CSR `csr`. -/
def Seen.Signed (l : Seen) (cid : CStr) (csr der : Bytes) : Prop :=
  l.csrBytes = some csr ∧ ∃ auth rn digest sR, l.auth = some auth ∧ auth.rn = some rn ∧
    auth.cid = some cid ∧ l.digest = some (rn ++ cid ++ csr, digest) ∧
    l.signature = some (digest.bytes, sR) ∧ derOf sR = some der

/-- A request goes to the agent, to its path with `suffix` behind it. -/
structure Addressed (agent : Agent) (suffix : CStr) (r : IotConnectHttpRequest) : Prop where
  host_eq : r.hostName = agent.host
  resource_eq : ∃ path, agent.path = some path ∧ r.resource = stringAt (path ++ suffix ++ [0])

/-- What a call carries of what was seen before it. The only request that nothing was serialised for
is that for the agent. -/
def Carried (agent : Agent) (l : Seen) : Op → Prop
  | .iotclDdimAuthRequestCreateSerializedString r =>
    ∃ cert, l.certBytes = some cert ∧ (cert ≠ [] → r.bcert = some (encode cert))
  | .generateCsr _ cn => ∃ auth, l.auth = some auth ∧ auth.cn = some cn
  | .iotclDdimSignRequestCreateSerializedString r => ∃ cid csr der, l.Signed cid csr der ∧
    (csr ≠ [] → r.csr = some (encode csr)) ∧ r.sig = some (encode der)
  | .iotclDdimAckRequestCreateSerializedString r =>
    ∃ cid csr der, l.Signed cid csr der ∧ r.cid = some cid
  | .iotconnectHttpsRequest r =>
    match l.pending with
    | none => r.payload = none
    | some (suffix, text) => r.payload = text ∧ Addressed agent suffix r
  | _ => True

def Carries (agent : Agent) (u : Tr Op Ans) (ev : Ev Op Ans) : Prop := Carried agent (seen u) ev.1

def signedMem : Ev Op Ans → Option DriverMem
  | ⟨.signHash _ _, (_, mem)⟩ => some mem
  | _ => none

/-- A call to `sign_hash` leaves the bytes of the CSR as they were handed out. -/
def Leaves (u : Tr Op Ans) (ev : Ev Op Ans) : Prop :=
  ∀ mem ∈ signedMem ev, ∀ d ∈ (seen u).csr, d.bytesIn mem = d.bytesIn d.mem

instance (u : Tr Op Ans) (ev : Ev Op Ans) : Decidable (Leaves u ev) :=
  inferInstanceAs (Decidable (∀ mem ∈ signedMem ev, _))

/-- Each request of a call carries what belongs to it, and those that carry anything go to one
agent. -/
def Bound (u : Tr Op Ans) : Prop := ∃ agent, Along (Carries agent) [] u

/-! ## Programs that keep the binding -/

/-- The agent is `agent`; all requests so far are bound and `φ` holds of what was seen, if the CSR
was left alone. -/
structure Holds (agent : Agent) (φ : St → Seen → Prop) (s : St) (u : Tr Op Ans) : Prop where
  agent_eq : s.agent = agent
  bound : Along Leaves [] u → Along (Carries agent) [] u ∧ φ s (seen u)

abbrev boundLogic : Logic Op Ans St (Tr Op Ans) :=
  .ghost (fun u ev => u ++ [ev]) fun _ u => Along Leaves [] u → Bound u

section
variable {α β : Type} {agent : Agent} {φ ψ : St → Seen → Prop}

theorem seen_snoc (u : Tr Op Ans) (ev : Ev Op Ans) : seen (u ++ [ev]) = (seen u).add ev := by
  simp [seen]

theorem Holds.imp {s : St} {u : Tr Op Ans} (h : Holds agent φ s u)
    (himp : ∀ l, φ s l → ψ s l) : Holds agent ψ s u :=
  ⟨h.agent_eq, fun hleaves => (h.bound hleaves).imp_right (himp _)⟩

theorem holds_stop : ∀ s u, Holds agent φ s u → boundLogic.stop s u :=
  fun _ _ h hleaves => ⟨agent, (h.bound hleaves).1⟩

theorem spec_holds_call (op : Op) {ψ : Ans op → St → Seen → Prop}
    (hcarried : ∀ s l, φ s l → Carried agent l op)
    (h : ∀ s u a, φ s (seen u) → Leaves u ⟨op, a⟩ → ψ a s ((seen u).add ⟨op, a⟩)) :
    boundLogic.Spec (Holds agent φ) (.call op) fun a => Holds agent (ψ a) := by
  refine .of_call fun s u hP a => ⟨hP.agent_eq, fun hleaves => ?_⟩
  obtain ⟨hu, ha⟩ := along_snoc.mp hleaves
  obtain ⟨hbound, hφ⟩ := hP.bound hu
  rw [seen_snoc]
  exact ⟨along_snoc.mpr ⟨hbound, hcarried s _ hφ⟩, h s u a hφ ha⟩

/-- Calls that are no requests and hand nothing out. -/
theorem spec_holds_plain (op : Op) (hcarried : ∀ l, Carried agent l op := by intro; trivial)
    (hadd : ∀ l a, Seen.add l ⟨op, a⟩ = l := by intros; rfl) :
    boundLogic.Spec (Holds agent φ) (.call op) fun _ => Holds agent φ :=
  spec_holds_call op (fun _ l _ => hcarried l) fun s u a hφ _ => by rw [hadd]; exact hφ

theorem spec_holds_modify {f : St → St} (h : ∀ s l, φ s l → ψ (f s) l)
    (hagent : ∀ s, (f s).agent = s.agent := by intro; rfl) :
    boundLogic.Spec (Holds agent φ) (.modify f) fun _ => Holds agent ψ :=
  .modify fun s _ hP => ⟨(hagent s).trans hP.agent_eq,
    fun hleaves => (hP.bound hleaves).imp_right (h s _)⟩

theorem spec_holds_pure (a : α) :
    boundLogic.Spec (Holds agent φ) (pure a) fun _ => Holds agent φ :=
  .pure fun _ _ h => h

/-- The bytes of a driver's buffer, wherever `φ` says which they are. -/
theorem spec_holds_readDriver (d : DriverBytes) :
    boundLogic.Spec (Holds agent φ) (readDriver d)
      fun bin => Holds agent fun s l => d.bytesIn s.driverMem = some bin ∧ φ s l := by
  refine .bind_get_eq fun s0 => (spec_defined (fun s u h => holds_stop s u h.2) _).post ?_
  rintro bin s u ⟨hbin, rfl, h⟩
  exact h.imp fun l hφ => ⟨hbin, hφ⟩

end

abbrev Nothing : St → Seen → Prop := fun _ _ => True

/-! ## What is sent -/

section
variable {B : Build} {azrtosConfig : IotConnectAzrtosConfig} {agent : Agent}
  {φ : St → Seen → Prop}

theorem spec_setupRequest_addressed (suffix : CStr)
    (hbuffer : ∀ s l buffer, φ s l → φ { s with resourceBuffer := buffer } l) :
    boundLogic.Spec (Holds agent φ) (setupRequest B noRequest suffix)
      fun r s u => Addressed agent suffix r ∧ Holds agent φ s u := by
  have hstop : ∀ s0 s u, s = s0 ∧ Holds agent φ s u → boundLogic.stop s u := fun _ s u h =>
    holds_stop s u h.2
  refine .bind_get_eq fun s0 => bind_defined (hstop s0) fun path hpath =>
    bind_defined (hstop s0) fun first hfirst => bind_defined (hstop s0) fun buffer hbuf => ?_
  have hresource : stringAt buffer.bytes = stringAt (path.val ++ suffix ++ [0]) := by
    have hpathBytes := Buf.take_write?_zero hfirst
    have htext := Buf.take_write? hbuf
    have hfront : first.bytes.take path.val.length = path.val := by
      have htake := congrArg (List.take path.val.length) hpathBytes
      rw [List.take_take, List.take_left, List.length_append,
        Nat.min_eq_left (Nat.le_add_right _ _)] at htake
      exact htake
    rw [hfront] at htext
    have hsplit := List.take_append_drop (path.val.length + (suffix ++ [0]).length) buffer.bytes
    rw [htext, ← List.append_assoc, List.append_assoc] at hsplit
    rw [← hsplit, List.singleton_append, stringAt_append_zero, stringAt_terminated]
  refine .bind (Q := fun _ s u => s0.agent = agent ∧ Holds agent φ s u) (.modify ?_) fun _ => ?_
  · rintro s u ⟨rfl, h⟩
    exact ⟨h.agent_eq, h.agent_eq, fun hleaves => (h.bound hleaves).imp_right (hbuffer s _ _)⟩
  · refine .pure fun s u h => ⟨⟨congrArg Agent.host h.1, path.val, ?_, hresource⟩, h.2⟩
    rw [← h.1, St.agent, hpath]
    rfl

/-- The family of the requests: the text that is serialised is sent to its path. -/
theorem DdimCall.run_bound {R : Type} {call : DdimCall R} {onUnparsed : M Unit}
    {χ : St → Seen → Prop} {ψ : R → St → Seen → Prop}
    (hbuffer : ∀ s l buffer, φ s l → φ { s with resourceBuffer := buffer } l)
    (hserialize : boundLogic.Spec (Holds agent φ) call.serialize fun payload =>
      Holds agent fun s l => l.pending = some (call.path, payload.map Box.val) ∧ χ s l)
    (hsent : ∀ s l, χ s l → χ s { l with pending := none })
    (hparse : ∀ text, boundLogic.Spec (Holds agent χ) (call.parse text) fun r =>
      match r with
      | none => Holds agent χ
      | some r => Holds agent (ψ r.val))
    (hunparsed : boundLogic.Spec (Holds agent χ) onUnparsed fun _ => Holds agent χ)
    (hfree : ∀ r, boundLogic.Spec (Holds agent (ψ r.val)) (call.free (some r))
      fun _ => Holds agent (ψ r.val)) :
    boundLogic.Spec (Holds agent φ) (call.run B azrtosConfig onUnparsed) fun res =>
      match res with
      | .error _ => Holds agent Nothing
      | .ok r => Holds agent (ψ r.val) := by
  refine (DdimCall.run_sent (J := fun r => Holds agent (ψ r.val)) (E := Holds agent Nothing)
    (spec_setupRequest_addressed call.path hbuffer) hserialize (fun r hr payload => ?_)
    (fun text => (hparse text).post fun r s u h => by cases r <;> exact h) hunparsed
    (fun _ _ h => h.imp fun _ _ => trivial)
    fun r _ => (hfree r).post fun _ _ _ h => h.imp fun _ _ => trivial).post fun res s u h => ?_
  · refine spec_holds_call _ (fun s l h => ?_) fun s u a h _ => hsent s _ h.2
    rw [Carried, h.1]
    exact ⟨rfl, hr.host_eq, hr.resource_eq⟩
  · cases res with
    | error ret => exact h
    | ok r => exact h.1

end

/-! ## Up to the auth response -/

section
variable {B : Build} {azrtosConfig : IotConnectAzrtosConfig} {driver : Nat} {agent : Agent}

/-- The request for the agent is the only one so far. -/
def Unsent (_ : St) (u : Tr Op Ans) : Prop :=
  Along Leaves [] u → (∀ agent, Along (Carries agent) [] u) ∧ (seen u).pending = none

theorem Unsent.bound {s : St} {u : Tr Op Ans} (h : Unsent s u) :
    Along Leaves [] u → Bound u := fun hleaves => ⟨⟨none, none⟩, (h hleaves).1 _⟩

theorem spec_unsent_call {op : Op}
    (hcarried : ∀ agent l, l.pending = none → Carried agent l op)
    (hadd : ∀ l a, (Seen.add l ⟨op, a⟩).pending = none ∨ Seen.add l ⟨op, a⟩ = l) :
    boundLogic.Spec Unsent (.call op) fun _ => Unsent := by
  refine .of_call fun s u h a hleaves => ?_
  obtain ⟨hbound, hpending⟩ := h (along_snoc.mp hleaves).1
  refine ⟨fun agent => along_snoc.mpr ⟨hbound agent, hcarried agent _ hpending⟩, ?_⟩
  rw [seen_snoc]
  rcases hadd (seen u) a with hnone | hsame
  · exact hnone
  · rw [hsame, hpending]

theorem unmoved_unsent : Unmoved boundLogic Unsent where
  stop _ _ h := h.bound
  call op hop := by
    cases op with
    | iotconnectHttpsRequest req =>
      refine spec_unsent_call (fun agent l hl => ?_) fun _ _ => .inl rfl
      rw [Carried, hl]
      exact hop
    | extractBootstrapCn _ | iotclParseDiscoveryV3Response _ | iotclFreeDiscoveryV3Response _
    | malloc _ | free _ => exact spec_unsent_call (fun _ _ _ => trivial) fun _ _ => .inr rfl
    | _ => cases hop
  set _ _ _ _ _ h := h

/-- The work buffer holds the text of the certificate `cert` that the driver has handed out. -/
def CertReady (bcert : CharPtr) (s : St) (l : Seen) : Prop :=
  ∃ cert, l.certBytes = some cert ∧ (cert ≠ [] → bcert.deref s = some (some (encode cert)))

theorem deref_workBuffer {s : St} {text : CStr} (htext : 0 ∉ text)
    (h : s.workBuffer.bytes.take s.workBufferSize = text ++ [0]) :
    CharPtr.workBuffer.deref s = some (some text) := by
  have hmem : s.workBuffer.bytes = text ++ 0 :: s.workBuffer.bytes.drop s.workBufferSize := by
    have hsplit := List.take_append_drop s.workBufferSize s.workBuffer.bytes
    rw [h, List.append_assoc] at hsplit
    exact hsplit.symm
  rw [CharPtr.deref, hmem, stringAt_append htext]
  rfl

/-- The text of the certificate. -/
theorem spec_certReady (bin : Bytes) :
    boundLogic.Spec (Holds agent fun _ l => l.certBytes = some bin) (binToHex bin)
      fun p => Holds agent fun s l => p ≠ .null → CertReady p s l := by
  refine (spec_binToHex (I := Holds agent fun _ l => l.certBytes = some bin) holds_stop
    (fun _ _ _ _ h => ⟨h.agent_eq, h.bound⟩) bin).post fun p s u ⟨hp, h⟩ =>
      h.imp fun l hcert hnull => ?_
  obtain ⟨rfl, htext⟩ := hp hnull
  exact ⟨bin, hcert, fun hne => deref_workBuffer (Lib.Hex.zero_notMem_encode bin) (htext hne)⟩

/-- What the auth call leaves behind. -/
def AuthSeen : Except Int (Box IotclDdimAuthResponse) → St → Seen → Prop
  | .error _, _, _ => True
  | .ok r, _, l => l.auth = some r.val

theorem spec_ddimCallAuth_bound (bcert fmt : CharPtr) :
    boundLogic.Spec (Holds agent (CertReady bcert)) (ddimCallAuth B azrtosConfig ⟨bcert, fmt⟩)
      fun res => Holds agent (AuthSeen res) := by
  have hrun : boundLogic.Spec (Holds agent (CertReady bcert))
      ((authCall ⟨bcert, fmt⟩).run B azrtosConfig (return ())) fun res =>
        Holds agent (AuthSeen res) := by
    refine (DdimCall.run_bound (χ := Nothing) (ψ := fun r _ l => l.auth = some r) ?_ ?_
      (fun _ _ h => h) (fun text => ?_) (spec_holds_pure ()) fun r => ?_).post
        fun res s u h => by cases res <;> exact h
    · intro s l buffer h
      cases bcert <;> exact h
    · refine .bind_get_eq fun s0 => bind_defined (fun s u h => holds_stop s u h.2)
        fun bcertText htext => ?_
      refine bind_defined (fun s u h => holds_stop s u h.2) fun fmtText _ => ?_
      refine .pre (P := Holds agent fun s l => s = s0 ∧ CertReady bcert s l) ?_ fun s u h =>
        h.2.imp fun l hl => ⟨h.1, hl⟩
      refine spec_holds_call _ ?_ fun s u a _ _ => ⟨rfl, trivial⟩
      rintro s l ⟨rfl, cert, hcert, hready⟩
      refine ⟨cert, hcert, fun hne => ?_⟩
      rw [hready hne] at htext
      exact (Option.some.inj htext).symm
    · refine (spec_holds_call (.iotclDdimParseAuthResponse text) (ψ := fun r s l => match r with
        | none => Nothing s l
        | some r => l.auth = some r.val) (fun _ _ _ => trivial) fun s u r _ _ => ?_).post
          fun r s u h => ?_
      · cases r with
        | none => trivial
        | some r => rfl
      · cases r <;> exact h
    · exact spec_holds_plain (.iotclDdimFreeAuthResponse (some r))
  refine .bind hrun fun res => ?_
  cases res with
  | error ret => exact .pure fun _ _ h => h
  | ok r =>
    refine .ite (fun _ => ?_) fun _ => .pure fun _ _ h => h
    exact .bind (spec_holds_plain _) fun _ => .pure fun _ _ h => h.imp fun _ _ => trivial

theorem spec_authenticate_bound (env : Option CStr) :
    boundLogic.Spec Unsent (authenticate B azrtosConfig driver env)
      fun res s u => ∃ agent, Holds agent (AuthSeen res) s u := by
  have herror : ∀ {agent : Agent} {ret : Int} {φ : St → Seen → Prop}, boundLogic.Spec
      (Holds agent φ) (pure (.error ret) : M (Except Int (Box IotclDdimAuthResponse)))
        fun res s u => ∃ agent, Holds agent (AuthSeen res) s u :=
    .pure fun _ _ h => ⟨_, h.imp fun _ _ => trivial⟩
  have hknown : ∀ s u, Unsent s u → Holds s.agent Nothing s u := fun s u h =>
    ⟨rfl, fun hleaves => ⟨(h hleaves).1 _, trivial⟩⟩
  refine .bind (unmoved_unsent.ensureAgent env) fun ret =>
    .ite (fun _ => .pure fun s u h => ⟨_, hknown s u h⟩) fun _ => ?_
  refine .fix (fun s _ => s.agent) fun agent => .pre (P := Holds agent Nothing) ?_
    fun s u h => h.1 ▸ hknown s u h.2
  have hcert : boundLogic.Spec (Holds agent Nothing)
      (driverCall (.getBootstrapCert driver) DriverBytes.mem id)
      fun cert => Holds agent fun s l => l.cert = some cert ∧ s.driverMem = cert.mem := by
    refine .bind (spec_holds_call (.getBootstrapCert driver)
      (ψ := fun cert _ l => l.cert = some cert)
      (fun _ _ _ => trivial) fun _ _ _ _ _ => rfl) fun cert => ?_
    exact .bind (spec_holds_modify fun s l h => ⟨h, rfl⟩) fun _ => .pure fun _ _ h => h
  refine .bind hcert fun (cert : DriverBytes) => .ite (fun _ => herror) fun _ => ?_
  refine .bind (spec_holds_readDriver cert) fun bin => ?_
  refine .bind (.pre (spec_certReady bin) fun s u h => h.imp fun l ⟨hbin, hl, hmem⟩ => ?_)
    fun bcert => .ite (fun _ => herror) fun hnull => ?_
  · have hl : l.cert = some cert := hl
    rw [Seen.certBytes, hl, Option.bind_some, ← hmem]
    exact hbin
  · refine .bind (.pre (spec_ddimCallAuth_bound bcert _) fun s u h => h.imp fun l h => h hnull)
      fun res => ?_
    cases res with
    | error ret => exact herror
    | ok r => exact .pure fun _ _ h => ⟨agent, h⟩

end

/-! ## Up to the sign request -/

section
variable {B : Build} {azrtosConfig : IotConnectAzrtosConfig} {driver : Nat} {agent : Agent}
  {auth : IotclDdimAuthResponse} {rn cid : CStr} {csr : DriverBytes}

/-- The CSR has been generated, and stands in the driver's memory. -/
structure Asked (auth : IotclDdimAuthResponse) (csr : DriverBytes) (s : St) (l : Seen) : Prop where
  auth_eq : l.auth = some auth
  csr_eq : l.csr = some csr
  kept : csr.bytesIn s.driverMem = csr.bytesIn csr.mem

/-- Its digest is there as well. -/
structure Hashed (auth : IotclDdimAuthResponse) (csr : DriverBytes) (rn cid : CStr)
    (hash : Buf iotcSha256HashSize) (s : St) (l : Seen) : Prop where
  asked : Asked auth csr s l
  digest : ∃ bin, csr.bytesIn csr.mem = some bin ∧ l.digest = some (rn ++ cid ++ bin, hash)

/-- And its signature. -/
structure SignedIn (cid : CStr) (csr : DriverBytes) (der : Bytes) (s : St) (l : Seen) : Prop where
  kept : csr.bytesIn s.driverMem = csr.bytesIn csr.mem
  signed : ∃ bin, csr.bytesIn csr.mem = some bin ∧ l.Signed cid bin der

theorem spec_hashCsr_bound :
    boundLogic.Spec (Holds agent (Asked auth csr)) (hashCsr rn cid csr) fun res s u => match res with
      | .error _ => Holds agent Nothing s u
      | .ok hash => Holds agent (Hashed auth csr rn cid hash) s u := by
  have herror : ∀ {ret : Int} {φ : St → Seen → Prop}, boundLogic.Spec (Holds agent φ)
      (pure (.error ret) : M (Except Int (Buf iotcSha256HashSize))) fun res s u => match res with
        | .error _ => Holds agent Nothing s u
        | .ok hash => Holds agent (Hashed auth csr rn cid hash) s u :=
    .pure fun _ _ h => h.imp fun _ _ => trivial
  refine .bind (spec_holds_call .nxCryptoSha256Initialize
    (ψ := fun _ s l => Asked auth csr s l ∧ l.hashed = []) (fun _ _ _ => trivial)
    fun _ _ _ h _ => ⟨{ h with }, rfl⟩) fun status => .ite (fun _ => herror) fun _ => ?_
  refine .bind (spec_holds_call (.nxCryptoSha256Update rn)
    (ψ := fun _ s l => Asked auth csr s l ∧ l.hashed = rn) (fun _ _ _ => trivial)
    fun _ _ _ h _ => ⟨{ h.1 with }, by simp [Seen.add, h.2]⟩) fun onRn => ?_
  refine .bind (spec_holds_call (.nxCryptoSha256Update cid)
    (ψ := fun _ s l => Asked auth csr s l ∧ l.hashed = rn ++ cid) (fun _ _ _ => trivial)
    fun _ _ _ h _ => ⟨{ h.1 with }, by simp [Seen.add, h.2]⟩) fun onCid => ?_
  refine .bind (spec_holds_readDriver csr) fun bin => ?_
  refine .bind (spec_holds_call (.nxCryptoSha256Update bin)
    (ψ := fun _ s l => Asked auth csr s l ∧ csr.bytesIn csr.mem = some bin ∧
      l.hashed = rn ++ cid ++ bin) (fun _ _ _ => trivial) fun s u a h _ => ?_) fun onCsr => ?_
  · obtain ⟨hbin, hasked, hhashed⟩ := h
    exact ⟨{ hasked with }, hasked.kept ▸ hbin, by simp [Seen.add, hhashed]⟩
  refine .ite (fun _ => herror) fun _ => ?_
  refine .bind (spec_holds_call .nxCryptoSha256DigestCalculate
    (ψ := fun digest => Hashed auth csr rn cid digest.2) (fun _ _ _ => trivial)
    fun s u a h _ => ⟨{ h.1 with }, bin, h.2.1, ?_⟩) fun digest => ?_
  · rw [← h.2.2]
    rfl
  · exact .ite (fun _ => herror) fun _ => .pure fun _ _ h => h

theorem spec_signatureOf_bound {hash : Buf iotcSha256HashSize} (hrn : auth.rn = some rn)
    (hcid : auth.cid = some cid) :
    boundLogic.Spec (Holds agent (Hashed auth csr rn cid hash)) (signatureOf driver hash)
      fun res s u => match res with
        | .error _ => Holds agent Nothing s u
        | .ok der => der ≠ [] ∧ Holds agent (SignedIn cid csr der) s u := by
  have hsign : boundLogic.Spec (Holds agent (Hashed auth csr rn cid hash))
      (driverCall (.signHash driver hash.bytes) Prod.snd Prod.fst) fun a =>
        Holds agent fun s l => ∀ der, derOf a.2 = some der → SignedIn cid csr der s l := by
    refine .bind (spec_holds_call (.signHash driver hash.bytes) (ψ := fun a _ l => ∀ der,
      derOf a.1.2 = some der → csr.bytesIn a.2 = csr.bytesIn csr.mem ∧
        ∃ bin, csr.bytesIn csr.mem = some bin ∧ l.Signed cid bin der)
      (fun _ _ _ => trivial) fun s u a h hleaves der hder => ?_) fun a => ?_
    · obtain ⟨⟨hauth, hcsr, -⟩, bin, hbin, hdigest⟩ := h
      refine ⟨hleaves a.2 rfl csr hcsr, bin, hbin, ?_, auth, rn, hash, a.1.2, hauth, hrn, hcid,
        hdigest, rfl, hder⟩
      show (seen u).csrBytes = some bin
      rw [Seen.csrBytes, hcsr]
      exact hbin
    · exact .bind (spec_holds_modify fun s l h der hder => ⟨(h der hder).1, (h der hder).2⟩) fun _ =>
        .pure fun _ _ h => h
  refine .bind hsign fun a => ?_
  obtain ⟨status, sR⟩ := a
  refine .ite (fun _ => .pure fun _ _ h => h.imp fun _ _ => trivial) fun _ => ?_
  refine bind_defined holds_stop fun res hres => ?_
  cases res with
  | error e => exact .pure fun _ _ h => h.imp fun _ _ => trivial
  | ok out =>
    obtain ⟨hder, hne⟩ := derOf_eq sR hres
    exact .pure fun _ _ h => ⟨hne, h.imp fun _ hl => hl _ hder⟩

theorem spec_signedCsr_bound :
    boundLogic.Spec (Holds agent fun _ l => l.auth = some auth) (signedCsr driver auth) fun res s u =>
      match res with
      | .error _ => Holds agent Nothing s u
      | .ok (csr, der) => der ≠ [] ∧ ∃ cid, auth.cid = some cid ∧
        Holds agent (SignedIn cid csr der) s u := by
  refine bind_defined holds_stop fun cn hcn => ?_
  have hcsr : boundLogic.Spec (Holds agent fun _ l => l.auth = some auth)
      (driverCall (.generateCsr driver cn) DriverBytes.mem id) fun csr =>
        Holds agent (Asked auth csr) := by
    refine .bind (spec_holds_call (.generateCsr driver cn)
      (ψ := fun csr _ l => l.auth = some auth ∧ l.csr = some csr)
      (fun _ _ h => ⟨auth, h, hcn⟩) fun _ _ _ h _ => ⟨h, rfl⟩) fun csr => ?_
    exact .bind (spec_holds_modify fun s l h => ⟨h.1, h.2, rfl⟩) fun _ => .pure fun _ _ h => h
  refine .bind hcsr fun (csr : DriverBytes) => ?_
  refine .ite (fun _ => .pure fun _ _ h => h.imp fun _ _ => trivial) fun _ => ?_
  refine bind_defined holds_stop fun rn hrn => bind_defined holds_stop fun cid hcid => ?_
  refine .bind spec_hashCsr_bound fun res => ?_
  cases res with
  | error e => exact .pure fun _ _ h => h
  | ok hash =>
    refine .bind (spec_signatureOf_bound hrn hcid) fun res => ?_
    cases res with
    | error e => exact .pure fun _ _ h => h
    | ok der => exact .pure fun _ _ h => ⟨h.1, cid, hcid, h.2⟩

/-- The copy of the signature's text, which is not touched by what follows. -/
theorem spec_copySignature_bound {der : Bytes} (hne : der ≠ []) :
    boundLogic.Spec (Holds agent (SignedIn cid csr der)) (copySignature der) fun res s u =>
      match res with
      | .error _ => Holds agent Nothing s u
      | .ok sig => sig.val = encode der ++ [0] ∧ Holds agent (SignedIn cid csr der) s u := by
  refine .bind (spec_binToHex (I := Holds agent (SignedIn cid csr der)) holds_stop
    (fun _ _ _ _ h => ⟨h.agent_eq, fun hleaves => (h.bound hleaves).imp_right ({ · with })⟩) der)
    fun hex => ?_
  refine .ite (fun _ => .pure fun _ _ h => h.2.imp fun _ _ => trivial) fun hnull => ?_
  refine .bind_get (φ := fun s => s.workBuffer.bytes.take s.workBufferSize = encode der ++ [0])
    (fun s u h => (h.1 hnull).2 hne) fun s htext => ?_
  refine .bind (.pre (spec_holds_plain (.malloc s.workBufferSize)) fun _ _ h => h.2) fun addr => ?_
  cases addr with
  | none => exact .pure fun _ _ h => h.imp fun _ _ => trivial
  | some addr => exact .pure fun _ _ h => ⟨htext, h⟩

/-- Both texts are in place. -/
def SignReady (cid : CStr) (csrHex : CharPtr) (der : Bytes) (s : St) (l : Seen) : Prop :=
  ∃ bin, l.Signed cid bin der ∧ (bin ≠ [] → csrHex.deref s = some (some (encode bin)))

/-- Something was signed for `cid`. -/
def SignedFor (cid : CStr) (_ : St) (l : Seen) : Prop := ∃ bin der, l.Signed cid bin der

/-- The sign request carries both texts. -/
theorem spec_ddimCallSign_bound {csrHex fmt : CharPtr} {der : Bytes} {sig : Box Bytes}
    (hsig : sig.val = encode der ++ [0]) :
    boundLogic.Spec (Holds agent (SignReady cid csrHex der))
      (ddimCallSign B azrtosConfig ⟨csrHex, .heap sig, fmt⟩) fun res =>
        match res with
        | .error _ => Holds agent Nothing
        | .ok _ => Holds agent (SignedFor cid) := by
  refine (DdimCall.run_bound (χ := SignedFor cid) (ψ := fun _ => SignedFor cid) ?_ ?_
    (fun _ _ h => h) (fun text => ?_) (spec_holds_plain (.iotclDdimFreeSignResponse none))
    fun r => ?_).post fun res s u h => by cases res <;> exact h
  · intro s l buffer h
    cases csrHex <;> exact h
  · refine .bind_get_eq fun s0 => bind_defined (fun s u h => holds_stop s u h.2)
      fun csrText htext => ?_
    refine bind_defined (fun s u h => holds_stop s u h.2) fun sigText hsigText => ?_
    refine bind_defined (fun s u h => holds_stop s u h.2) fun fmtText _ => ?_
    refine .pre (P := Holds agent fun s l => s = s0 ∧ SignReady cid csrHex der s l) ?_ fun s u h =>
      h.2.imp fun l hl => ⟨h.1, hl⟩
    refine spec_holds_call _ ?_ fun s u a ⟨_, bin, hsigned, _⟩ _ => ⟨rfl, bin, der, hsigned⟩
    rintro s l ⟨rfl, bin, hsigned, hready⟩
    refine ⟨cid, bin, der, hsigned, fun hne => ?_, ?_⟩
    · rw [hready hne] at htext
      exact (Option.some.inj htext).symm
    · rw [CharPtr.deref, hsig, stringAt_append (Lib.Hex.zero_notMem_encode der)] at hsigText
      exact (Option.some.inj hsigText).symm
  · exact (spec_holds_plain (.iotclDdimParseSignResponse text)).post fun r _ _ h => by
      cases r <;> exact h
  · exact spec_holds_plain (.iotclDdimFreeSignResponse (some r))

theorem spec_requestCert_bound {der : Bytes} {sig : Box Bytes}
    (hsig : sig.val = encode der ++ [0]) :
    boundLogic.Spec (Holds agent (SignedIn cid csr der)) (requestCert B azrtosConfig csr sig)
      fun res => match res with
        | .error _ => Holds agent Nothing
        | .ok _ => Holds agent (SignedFor cid) := by
  refine .bind (spec_holds_readDriver csr) fun bin => ?_
  have hhex : boundLogic.Spec (Holds agent fun s l => csr.bytesIn s.driverMem = some bin ∧
      SignedIn cid csr der s l) (binToHex bin) fun p =>
        Holds agent fun s l => p ≠ .null → SignReady cid p der s l := by
    refine .pre (.post (spec_binToHex (I := Holds agent fun _ l => l.Signed cid bin der) holds_stop
      (fun _ _ _ _ h => ⟨h.agent_eq, h.bound⟩) bin) fun p s u ⟨hp, h⟩ => h.imp fun l hsigned hnull =>
        ?_) fun s u h => h.imp fun l ⟨hbin, hmem, bin', hbin', hsigned⟩ => ?_
    · obtain ⟨rfl, htext⟩ := hp hnull
      exact ⟨bin, hsigned, fun hne => deref_workBuffer (Lib.Hex.zero_notMem_encode bin) (htext hne)⟩
    · rw [← hmem, hbin] at hbin'
      cases hbin'
      exact hsigned
  refine .bind hhex fun p => .ite (fun _ => ?_) fun hnull => ?_
  · exact .pure fun _ _ h => h.imp fun _ _ => trivial
  · refine .bind (.pre (spec_ddimCallSign_bound hsig) fun s u h => h.imp fun l hl => hl hnull)
      fun res => ?_
    cases res with
    | error ret => exact .pure fun _ _ h => h
    | ok r => exact .pure fun _ _ h => h

/-! ## The acknowledgement -/

theorem spec_ddimCallAck_bound :
    boundLogic.Spec (Holds agent (SignedFor cid))
      (ddimCallAck B azrtosConfig ⟨.ofText (some cid)⟩) fun _ => Holds agent Nothing := by
  refine (DdimCall.run_bound (χ := Nothing) (ψ := fun _ => Nothing) (fun _ _ _ h => h) ?_
    (fun _ _ h => h) (fun text => ?_) (spec_holds_plain (.iotclDdimFreeAckResponse none))
    fun r => spec_holds_plain (.iotclDdimFreeAckResponse (some r))).post
      fun res s u h => by cases res <;> exact h
  · refine .bind_get_any fun s => bind_defined holds_stop fun text htext => ?_
    refine spec_holds_call _ (fun s l ⟨bin, der, hsigned⟩ => ⟨cid, bin, der, hsigned, ?_⟩)
      fun s u a h _ => ⟨rfl, trivial⟩
    exact (Option.some.inj htext).symm
  · exact (spec_holds_plain (.iotclDdimParseAckResponse text)).post fun r _ _ h => by
      cases r <;> exact h

theorem spec_storeAndAck_bound {sign : IotclDdimSignResponse} :
    boundLogic.Spec (Holds agent (SignedFor cid))
      (storeAndAck B azrtosConfig driver (some cid) sign) fun _ => Holds agent Nothing := by
  have hend : ∀ {s u}, Holds agent (SignedFor cid) s u → Holds agent Nothing s u := fun h =>
    h.imp fun _ _ => trivial
  refine .bind (spec_hexToBin (I := Holds agent (SignedFor cid)) holds_stop
    (fun _ _ _ _ h => ⟨h.agent_eq, h.bound⟩) _) fun _ => ?_
  refine .bind_get_any fun s => .ite (fun _ => .pure fun _ _ h => hend h) fun _ => ?_
  refine .bind (.bind (spec_holds_plain _) fun _ =>
    .bind (spec_holds_modify fun _ _ h => h) fun _ =>
    .pure fun _ _ h => h) fun stored => .ite (fun _ => .pure fun _ _ h => hend h) fun _ => ?_
  refine .bind spec_ddimCallAck_bound fun res => ?_
  cases res with
  | error ret => exact .pure fun _ _ h => h
  | ok r => exact .pure fun _ _ h => h

/-! ## The whole call -/

theorem spec_obtain_bound (env : Option CStr) :
    boundLogic.Spec Unsent (iotcdiObtainOperationalIdentity B azrtosConfig driver env)
      fun _ s u => ∃ agent, Holds agent Nothing s u := by
  have hnothing : ∀ {agent φ s u}, Holds agent φ s u → ∃ agent, Holds agent Nothing s u := fun h =>
    ⟨_, h.imp fun _ _ => trivial⟩
  have hobtain : boundLogic.Spec Unsent (obtainIdentity B azrtosConfig driver env)
      fun _ s u => ∃ agent, Holds agent Nothing s u := by
    refine .bind (spec_authenticate_bound env) fun auth => .of_exists fun agent => ?_
    cases auth with
    | error ret => exact .pure fun _ _ h => hnothing h
    | ok auth =>
      refine .bind spec_signedCsr_bound fun res => ?_
      rcases res with ret | ⟨csr, der⟩
      · exact .pure fun _ _ h => hnothing h
      refine .of_imp fun hne => .of_exists fun cid => .of_imp fun hcid => ?_
      refine .bind (spec_copySignature_bound hne) fun res => ?_
      rcases res with ret | sig
      · exact .pure fun _ _ h => hnothing h
      refine .of_imp fun hsig => .bind (spec_requestCert_bound hsig) fun res => ?_
      rcases res with ret | sign
      · exact .pure fun _ _ h => hnothing h
      rw [hcid]
      refine .bind spec_storeAndAck_bound fun res => ?_
      rcases res with ret | ack
      · exact .pure fun _ _ h => hnothing h
      · exact .pure fun _ _ h => hnothing h
  exact .bind hobtain fun _ => .of_exists fun agent => .bind (spec_cleanup
    (fun _ => spec_holds_plain _) (fun _ => spec_holds_plain _) (fun _ => spec_holds_plain _)
    fun _ => spec_holds_plain _) fun _ => .pure fun _ _ h => ⟨agent, h⟩

end

/-! ## Sessions -/

/-- In every session, each request of each call whose `sign_hash` leaves the CSR alone carries what
belongs to it: the auth request the certificate, the CSR the common name, the sign request the CSR
and the signature of its hash, the acknowledgement the identifier that was hashed; and what was
serialised is what is sent, to the agent, on the path of the request. -/
theorem requests_bound (B : Build) (ans : Tr Op Ans → (op : Op) → Ans op) (calls : List ObtainArgs)
    (s : St) (t : Tr Op Ans) : ∀ x ∈ turns (World.sequential ans) (obtain B) calls s t,
      Along Leaves [] x.events → Bound x.events := by
  refine turns_all (fun c s t hleaves => ?_) calls s t
  have hstart : Unsent s [] := fun _ => ⟨fun _ => .nil, rfl⟩
  obtain ⟨s', h⟩ := (spec_obtain_bound c.env).turn ans hstart t
  simp only [foldl_snoc, List.nil_append] at h
  split at h
  · obtain ⟨agent, h⟩ := h
    exact ⟨agent, (h.bound hleaves).1⟩
  · exact h hleaves

/-- A driver with one buffer, in which the CSR replaces the certificate. -/
def oneBufferAns : Tr Op Ans → (op : Op) → Ans op := fun t op =>
  match op with
  | .getBootstrapCert _ => (⟨0, 0, 2, fun _ => [0x30, 0x82]⟩ : DriverBytes)
  | .generateCsr _ _ => (⟨0, 0, 3, fun _ => [0x30, 0x0A, 0xFF]⟩ : DriverBytes)
  | .signHash _ _ => ((0, ⟨List.replicate 32 0x11 ++ List.replicate 32 0x22, rfl⟩),
      fun _ => [0x30, 0x0A, 0xFF])
  | op => sampleAns (some (cstr "0aFf")) t op

def oneBufferTurns : List (Turn Op Ans Int) :=
  turns (World.sequential oneBufferAns) (obtain ⟨cstr "discovery", cstr "/api/%s/%s", [48]⟩)
    [⟨⟨1, 2, 3⟩, 0, some (cstr "env")⟩] St.boot []

def textsOf : Ev Op Ans → List (Option CStr)
  | ⟨.iotclDdimAuthRequestCreateSerializedString r, _⟩ => [r.bcert]
  | ⟨.iotclDdimSignRequestCreateSerializedString r, _⟩ => [r.csr, r.sig]
  | ⟨.iotclDdimAckRequestCreateSerializedString r, _⟩ => [r.cid]
  | ⟨.iotconnectHttpsRequest r, _⟩ => [r.resource, r.payload]
  | _ => []

theorem requests_bound_one_buffer :
    oneBufferTurns.map (fun x => x.events.flatMap textsOf) =
      [[some (cstr "/api/c/env"), none,
        some (cstr "3082"), some (cstr "/path/x509/auth"), some (cstr "auth"),
        some (cstr "300aff"),
        some (encode ([0x30, 0x44, 0x02, 0x20] ++ List.replicate 32 0x11 ++ [0x02, 0x20] ++
          List.replicate 32 0x22)),
        some (cstr "/path/x509/cert/sign"), some (cstr "sign"),
        some (cstr "i"), some (cstr "/path/x509/cert/ack"), some (cstr "ack")]] ∧
    ∀ x ∈ oneBufferTurns, Bound x.events := by
  refine And.imp_right (fun (hleaves : ∀ x ∈ oneBufferTurns, Along Leaves [] x.events) x hx =>
    requests_bound _ _ _ _ _ x hx (hleaves x hx)) ?_
  decide +kernel

end Iotc.Di
