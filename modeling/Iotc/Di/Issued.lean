import Iotc.Di.Rules
import Iotc.Resume.Hoare

/-!
# Only the issued certificate is stored

What `iotcdi_obtain_operational_identity` hands to the driver is the certificate of the sign
response of the same call, decoded, exactly when no sign response without an error comes without
a certificate: `hex_to_bin` leaves the size of the work buffer alone on NULL, and the CSR's hex
text, still there, passes for a certificate.
-/

namespace Iotc.Di

open Iotc.C Iotc.Resume
open Iotc.Web (IotConnectAzrtosConfig IotConnectHttpRequest nxSuccess)

/-! ## What a call has done -/

/-- The sign responses that were parsed, what was stored, and whether anything was sent after a
sign response. -/
structure Log where
  signs : List IotclDdimSignResponse := []
  stored : List Bytes := []
  acked : Bool := false
  deriving DecidableEq

def Log.add (l : Log) : Ev Op Ans → Log
  | ⟨.iotclDdimParseSignResponse _, some r⟩ => { l with signs := l.signs ++ [r.val] }
  | ⟨.storeOperationalCert _ cert, _⟩ => { l with stored := l.stored ++ [cert] }
  | ⟨.iotconnectHttpsRequest _, _⟩ => { l with acked := l.acked || !l.signs.isEmpty }
  | ⟨.iotclDdimAckRequestCreateSerializedString _, _⟩ => { l with acked := true }
  | _ => l

def log (u : Tr Op Ans) : Log := u.foldl Log.add {}

/-- The bytes of a certificate: an even number of digits, not zero, that the work buffer has room
for. -/
def certBytes (cert : CStr) : Option Bytes :=
  (decodedFrom 0 (cert.takeWhile (· ≠ 0))).filter (· ≠ [])

/-- The certificate that the sign response of a call has issued. -/
def Log.issued (l : Log) : Option Bytes :=
  match l.signs with
  | [r] => r.cert.bind certBytes
  | _ => none

/-- What is stored is what was issued; if nothing was, the call stores nothing, acknowledges
nothing and does not return zero. -/
structure OnlyIssued (res : Except Stop Int) (l : Log) : Prop where
  stored : ∀ bs ∈ l.stored, l.issued = some bs
  refused : l.issued = none → l.stored = [] ∧ l.acked = false ∧ ∀ ret, res = .ok ret → ret ≠ 0

/-- Every sign response without an error comes with a certificate. -/
def CertGiven (l : Log) : Prop := ∀ r ∈ l.signs, r.ec = 0 → r.cert ≠ none

def Judged (res : Except Stop Int) (l : Log) : Prop := OnlyIssued res l ↔ CertGiven l

section
variable {l : Log} {res : Except Stop Int} {r : IotclDdimSignResponse}

theorem judged_unstored (hgiven : CertGiven l) (hstored : l.stored = []) (hacked : l.acked = false)
    (hres : ∀ ret, res = .ok ret → ret ≠ 0) : Judged res l := by
  refine iff_of_true ⟨fun bs hbs => ?_, fun _ => ⟨hstored, hacked, hres⟩⟩ hgiven
  rw [hstored] at hbs
  cases hbs

theorem judged_issued {cert : CStr} {bs : Bytes} (hsigns : l.signs = [r])
    (hcert : r.cert = some cert) (hbytes : certBytes cert = some bs) (hstored : l.stored = [bs]) :
    Judged res l := by
  have hissued : l.issued = some bs := by simp [Log.issued, hsigns, hcert, hbytes]
  refine iff_of_true ⟨fun bs' hbs => ?_, fun hnone => ?_⟩ fun r' hr _ => ?_
  · rw [hstored, List.mem_singleton] at hbs
    rw [hissued, hbs]
  · rw [hissued] at hnone
    cases hnone
  · rw [hsigns, List.mem_singleton] at hr
    rw [hr, hcert]
    exact Option.some_ne_none cert

/-- Something is stored though there is no certificate. -/
theorem judged_stale (hsigns : l.signs = [r]) (hec : r.ec = 0) (hcert : r.cert = none)
    (hstored : l.stored ≠ []) : Judged res l := by
  have hissued : l.issued = none := by simp [Log.issued, hsigns, hcert]
  refine iff_of_false (fun h => hstored (h.refused hissued).1) fun h => ?_
  exact h r (by rw [hsigns]; exact List.mem_singleton_self r) hec hcert

end

/-! ## Programs that keep an assertion -/

abbrev issueLogic : Logic Op Ans St Log := .ghost Log.add fun _ l => ∀ e, Judged (.error e) l

section
variable {I : St → Log → Prop} {α : Type}

theorem spec_call {op : Op} {P : St → Log → Prop} {Q : Ans op → St → Log → Prop}
    (h : ∀ s l a, P s l → Q a s (l.add ⟨op, a⟩)) : issueLogic.Spec P (.call op) Q :=
  .of_call fun s l hP a => h s l a hP

end

/-! ## Up to the auth response -/

/-- Nothing of note has been done. -/
abbrev Calm : St → Log → Prop := fun _ l => l = {}

theorem calm_judged : ∀ s l, Calm s l → ∀ e, Judged (.error e) l := by
  rintro s l rfl e
  exact judged_unstored nofun rfl rfl nofun

section
variable {B : Build} {azrtosConfig : IotConnectAzrtosConfig} {driver : Nat}

theorem calm_call {op : Op} (h : ∀ a, Log.add {} ⟨op, a⟩ = {}) :
    issueLogic.Spec Calm (.call op) fun _ => Calm :=
  spec_call fun _ _ a hl => by rw [hl]; exact h a

theorem calm_driverCall {α : Type} {op : Op} {mem : Ans op → DriverMem} {value : Ans op → α}
    (h : ∀ a, Log.add {} ⟨op, a⟩ = {}) :
    issueLogic.Spec Calm (driverCall op mem value) fun _ => Calm :=
  .bind (calm_call h) fun _ => .bind (.modify fun _ _ h => h) fun _ => .pure fun _ _ h => h

theorem calm_pure {α : Type} (a : α) : issueLogic.Spec Calm (pure a) fun _ => Calm :=
  .pure fun _ _ h => h

/-- The end of a branch. -/
theorem calm_return {α β : Type} {p : M α} (h : issueLogic.Spec Calm p fun _ => Calm) (b : β) :
    issueLogic.Spec Calm (do let _ ← p; return b) fun _ => Calm :=
  .bind h fun _ => calm_pure b

theorem calm_unmoved : Unmoved issueLogic Calm where
  stop := calm_judged
  call op hop := by
    cases op <;> try cases hop
    all_goals exact calm_call fun _ => rfl
  set _ _ _ _ _ h := h

/-- Calm throughout, and an error is not zero. -/
abbrev CalmOr {α : Type} (res : Except Int α) : St → Log → Prop :=
  fun _ l => l = {} ∧ res ≠ .error 0

theorem calm_error {α : Type} {ret : Int} (h : ret ≠ 0) :
    issueLogic.Spec Calm (pure (.error ret) : M (Except Int α)) CalmOr :=
  .pure fun _ _ hl => ⟨hl, fun he => h (by cases he; rfl)⟩

theorem calm_ok {α : Type} (a : α) : issueLogic.Spec Calm (pure (.ok a) : M (Except Int α))
    CalmOr :=
  .pure fun _ _ hl => ⟨hl, nofun⟩

/-- A function that goes on with what came out of a calm one. -/
theorem CalmOr.bind {α β : Type} {p : M (Except Int α)} {f : Except Int α → M (Except Int β)}
    (hp : issueLogic.Spec Calm p CalmOr)
    (herror : ∀ ret, ret ≠ 0 → issueLogic.Spec Calm (f (.error ret)) CalmOr)
    (hok : ∀ a, issueLogic.Spec Calm (f (.ok a)) CalmOr) :
    issueLogic.Spec Calm (p >>= f) CalmOr := by
  refine .bind hp fun res s l ⟨hl, hres⟩ => ?_
  cases res with
  | error ret => exact herror ret (fun h => hres (h ▸ rfl)) s l hl
  | ok a => exact hok a s l hl

theorem calm_readDriver (d : DriverBytes) : issueLogic.Spec Calm (readDriver d) fun _ => Calm :=
  .bind_get_any fun _ => (spec_defined calm_judged _).post fun _ _ _ h => h.2

/-- A string that is not NULL has a size. -/
theorem calm_binToHex (bin : Bytes) : issueLogic.Spec Calm (binToHex bin)
    fun p s l => (p ≠ .null → s.workBufferSize ≠ 0) ∧ l = {} := by
  refine .bind_get_any fun s => ?_
  split
  · exact .stop calm_judged
  · exact .bind (.modify (Q := fun _ => Calm) fun _ _ h => h) fun _ =>
      .pure fun _ _ hl => ⟨fun h => absurd rfl h, hl⟩
  · next w hexIdx _ =>
    have hsize : issueLogic.Spec Calm
        (.modify ({ · with workBuffer := w, workBufferSize := hexIdx + 1 }))
        fun _ s l => s.workBufferSize ≠ 0 ∧ l = {} := .modify fun _ _ hl => ⟨nofun, hl⟩
    exact .bind hsize fun _ => .pure fun _ _ h => ⟨fun _ => h.1, h.2⟩

theorem calm_hex (bin : Bytes) : issueLogic.Spec Calm (binToHex bin) fun _ => Calm :=
  (calm_binToHex bin).post fun _ _ _ h => h.2

theorem calm_ddimCallAuth (request : IotclDdimAuthRequest CharPtr) :
    issueLogic.Spec Calm (ddimCallAuth B azrtosConfig request) fun _ => Calm := by
  have hrun : issueLogic.Spec Calm ((authCall request).run B azrtosConfig (return ()))
      fun _ => Calm := by
    refine (DdimCall.run_spec (J := fun _ => Calm) calm_judged (fun _ _ _ h => h) ?_
      (fun _ => calm_call fun _ => rfl) (fun text => ?_) (calm_pure ())
      fun _ => calm_call fun _ => rfl).post fun res s l h => ?_
    · exact .bind_get_any fun s => bind_defined calm_judged fun _ _ =>
        bind_defined calm_judged fun _ _ => calm_call fun _ => rfl
    · exact (calm_call fun _ => rfl).post fun r _ _ h => by cases r <;> exact h
    · cases res with
      | error ret => exact h.elim id fun ⟨_, h, _⟩ => h
      | ok r => exact h.1
  refine .bind hrun fun res => ?_
  cases res with
  | error ret => exact calm_pure _
  | ok r => exact .ite (fun _ => calm_return (calm_call fun _ => rfl) _) fun _ => calm_pure _

theorem calm_authenticate (env : Option CStr) :
    issueLogic.Spec Calm (authenticate B azrtosConfig driver env) CalmOr := by
  refine .bind (calm_unmoved.ensureAgent env) fun ret => .ite (fun h => calm_error h) fun _ => ?_
  refine .bind (calm_driverCall fun _ => rfl) fun cert => ?_
  refine .ite (fun _ => calm_error (by decide)) fun _ => .bind (calm_readDriver _) fun bin => ?_
  refine .bind (calm_hex bin) fun bcert => .ite (fun _ => calm_error (by decide)) fun _ => ?_
  refine .bind (calm_ddimCallAuth _) fun res => ?_
  cases res with
  | error ret => exact calm_error (by decide)
  | ok r => exact calm_ok r

/-! ## Up to the sign request -/

theorem calm_hashCsr (rn cid : CStr) (csr : DriverBytes) :
    issueLogic.Spec Calm (hashCsr rn cid csr) CalmOr := by
  refine .bind (calm_call fun _ => rfl) fun status =>
    .ite (fun _ => calm_error (by decide)) fun _ => ?_
  refine .bind (calm_call fun _ => rfl) fun onRn => .bind (calm_call fun _ => rfl) fun onCid => ?_
  refine .bind (calm_readDriver csr) fun bin => .bind (calm_call fun _ => rfl) fun onCsr => ?_
  refine .ite (fun _ => calm_error (by decide)) fun _ =>
    .bind (calm_call fun _ => rfl) fun digest => ?_
  exact .ite (fun _ => calm_error (by decide)) fun _ => calm_ok _

theorem calm_signatureOf (hash : Buf iotcSha256HashSize) :
    issueLogic.Spec Calm (signatureOf driver hash) CalmOr := by
  refine .bind (calm_driverCall fun _ => rfl) fun signed => ?_
  refine .ite (fun _ => calm_error (by decide)) fun _ => bind_defined calm_judged fun der _ => ?_
  cases der with
  | error ret => exact calm_error (by decide)
  | ok der => exact calm_ok _

theorem calm_signedCsr (auth : IotclDdimAuthResponse) :
    issueLogic.Spec Calm (signedCsr driver auth) CalmOr := by
  refine bind_defined calm_judged fun cn _ => .bind (calm_driverCall fun _ => rfl) fun csr => ?_
  refine .ite (fun _ => calm_error (by decide)) fun _ => bind_defined calm_judged fun rn _ => ?_
  refine bind_defined calm_judged fun cid _ => CalmOr.bind (calm_hashCsr rn cid csr)
    (fun ret h => calm_error h) fun hash => ?_
  exact CalmOr.bind (calm_signatureOf hash) (fun ret h => calm_error h) fun der => calm_ok _

theorem calm_copySignature (der : Bytes) :
    issueLogic.Spec Calm (copySignature der) CalmOr := by
  refine .bind (calm_hex der) fun hex => .ite (fun _ => calm_error (by decide)) fun _ => ?_
  refine .bind_get_any fun s => .bind (calm_call fun _ => rfl) fun addr => ?_
  cases addr with
  | none => exact calm_error (by decide)
  | some addr => exact calm_ok _

/-- The sign response `r` is there, and the work buffer holds the CSR's digits. -/
abbrev Signed (r : IotclDdimSignResponse) : St → Log → Prop :=
  fun s l => s.workBufferSize ≠ 0 ∧ l = { signs := [r] }

theorem spec_ddimCallSign (request : IotclDdimSignRequest CharPtr) :
    issueLogic.Spec (fun s l => s.workBufferSize ≠ 0 ∧ l = {})
      (ddimCallSign B azrtosConfig request) fun res s l =>
      match res with
      | .error _ => l.stored = [] ∧ l.acked = false ∧ CertGiven l
      | .ok r => Signed r.val s l ∧ r.val.ec = 0 := by
  have hE : ∀ (s : St) (l : Log), s.workBufferSize ≠ 0 ∧ l = {} → ∀ e, Judged (.error e) l :=
    fun s l h => calm_judged s l h.2
  refine (DdimCall.run_spec (J := Signed) hE (fun _ _ _ h => h) ?_ (fun r => ?_) (fun text => ?_)
    ?_ fun r => ?_).post fun res s l h => ?_
  · refine .bind_get_any fun s => bind_defined hE fun _ _ => bind_defined hE fun _ _ =>
      bind_defined hE fun _ _ => spec_call fun _ _ _ ⟨hsize, hl⟩ => ?_
    exact ⟨hsize, by rw [hl]; rfl⟩
  · exact spec_call fun _ _ _ ⟨hsize, hl⟩ => ⟨hsize, by rw [hl]; rfl⟩
  · refine spec_call fun s l r ⟨hsize, hl⟩ => ?_
    cases r with
    | none => exact ⟨hsize, hl⟩
    | some r => exact ⟨hsize, by rw [hl]; rfl⟩
  · exact spec_call fun _ _ _ h => h
  · exact spec_call fun _ _ _ h => h
  · cases res with
    | error ret =>
      rcases h with ⟨-, rfl⟩ | ⟨r, ⟨-, rfl⟩, hec⟩
      · exact ⟨rfl, rfl, nofun⟩
      · refine ⟨rfl, rfl, fun r' hr hec' => absurd hec' ?_⟩
        rw [List.mem_singleton.mp hr]
        exact hec
    | ok r => exact h

/-- A failure before anything was stored. -/
abbrev Unstored (ret : Int) (l : Log) : Prop :=
  ret ≠ 0 ∧ l.stored = [] ∧ l.acked = false ∧ CertGiven l

theorem spec_requestCert (csr : DriverBytes) (sig : Box Bytes) :
    issueLogic.Spec Calm (requestCert B azrtosConfig csr sig) fun res s l =>
      match res with
      | .error ret => Unstored ret l
      | .ok r => Signed r.val s l ∧ r.val.ec = 0 := by
  refine .bind (calm_readDriver csr) fun bin => .bind (calm_binToHex bin) fun hex => ?_
  refine .ite (fun _ => ?_) fun hnull => ?_
  · exact .pure fun s l ⟨_, hl⟩ => ⟨by decide, by rw [hl], by rw [hl], by rw [hl]; nofun⟩
  · refine .bind ((spec_ddimCallSign _).pre fun s l h => ⟨h.1 hnull, h.2⟩) fun res => ?_
    cases res with
    | error ret => exact .pure fun s l h => ⟨by decide, h⟩
    | ok r => exact .pure fun s l h => h

/-! ## From the sign response on -/

theorem spec_hexToBin_null {P : St → Log → Prop} :
    issueLogic.Spec P (hexToBin (.ofText none)) fun _ => P := .pure fun _ _ h => h

/-- A certificate that is there is converted, or leaves no size behind. -/
theorem spec_hexToBin_text {r : IotclDdimSignResponse} (cert : CStr) :
    issueLogic.Spec (Signed r) (hexToBin (.ofText (some cert))) fun _ s l =>
      l = { signs := [r] } ∧
      match certBytes cert with
      | none => s.workBufferSize = 0
      | some bs => s.workBufferSize ≠ 0 ∧ s.workBuffer.bytes.take s.workBufferSize = bs := by
  intro s l h
  obtain ⟨m, hconv, hbytes⟩ :=
    hexToBinMem_eq (m := ⟨s.workBuffer, some (cert ++ [0])⟩) (stringAt_terminated cert)
  show (hexToBinOf (some (cert ++ [0])) s).wp issueLogic l _
  rw [hexToBinOf_eq hconv]
  refine ⟨h.2, ?_⟩
  rw [certBytes]
  cases hdec : decodedFrom 0 (cert.takeWhile (· ≠ 0)) with
  | none => rfl
  | some bs =>
    by_cases hempty : bs = []
    · rw [hempty]
      rfl
    · rw [Option.filter_some, if_pos (by simpa using hempty)]
      exact ⟨fun h => hempty (List.length_eq_zero_iff.mp h), hbytes bs hdec⟩

/-- What is settled once `bs` has been stored. -/
def Settled (r : IotclDdimSignResponse) (bs : Bytes) : Prop :=
  ∀ l res, l.signs = [r] → l.stored = [bs] → Judged res l

/-- After the sign response `r` and the storing of `bs`. -/
abbrev Stored (r : IotclDdimSignResponse) (bs : Bytes) : St → Log → Prop :=
  fun _ l => l.signs = [r] ∧ l.stored = [bs]

theorem spec_ddimCallAck {r : IotclDdimSignResponse} {bs : Bytes} (hsettled : Settled r bs)
    (request : IotclDdimAckRequest CharPtr) :
    issueLogic.Spec (Stored r bs) (ddimCallAck B azrtosConfig request) fun _ => Stored r bs := by
  have hE : ∀ s l, Stored r bs s l → ∀ e, Judged (.error e) l := fun _ l h e =>
    hsettled l _ h.1 h.2
  refine (DdimCall.run_spec (J := fun _ => Stored r bs) hE (fun _ _ _ h => h) ?_
    (fun _ => spec_call fun _ _ _ h => h) (fun text => ?_) (spec_call fun _ _ _ h => h)
    fun _ => spec_call fun _ _ _ h => h).post fun res s l h => ?_
  · exact .bind_get_any fun s => bind_defined hE fun _ _ => spec_call fun _ _ _ h => h
  · exact spec_call fun _ _ a h => by cases a <;> exact h
  · cases res with
    | error ret => exact h.elim id fun ⟨_, h, _⟩ => h
    | ok r => exact h.1

/-- The judgement on what is to be returned. -/
abbrev Verdict {α : Type} (res : Except Int α) (l : Log) : Prop :=
  match res with
  | .error ret => Judged (.ok ret) l
  | .ok _ => Judged (.ok 0) l

theorem spec_storeConverted {P : St → Log → Prop} {r : IotclDdimSignResponse} {cid : Option CStr}
    (hsize : ∀ s l, P s l → s.workBufferSize ≠ 0) (hl : ∀ s l, P s l → l = { signs := [r] })
    (hsettled : ∀ s l, P s l → Settled r (s.workBuffer.bytes.take s.workBufferSize)) :
    issueLogic.Spec P (storeConverted B azrtosConfig driver cid) fun res _ l => Verdict res l := by
  refine .bind_get (fun s l h => And.intro (hsize s l h) (hsettled s l h)) fun s ⟨hs, hset⟩ => ?_
  generalize s.workBuffer.bytes.take s.workBufferSize = bs at hset
  rw [if_neg hs]
  have hstore : issueLogic.Spec P
      (driverCall (.storeOperationalCert driver bs) Prod.snd Prod.fst) fun _ => Stored r bs := by
    refine .bind (spec_call (Q := fun _ => Stored r bs) fun s l _ h => ?_) fun _ =>
      .bind (.modify fun _ _ h => h) fun _ => .pure fun _ _ h => h
    rw [hl s l h]
    exact ⟨rfl, rfl⟩
  refine .bind hstore fun status => .ite (fun _ => .pure fun _ l h => hset l _ h.1 h.2) fun _ => ?_
  refine .bind (spec_ddimCallAck hset _) fun res => ?_
  cases res with
  | error ret => exact .pure fun _ l h => hset l _ h.1 h.2
  | ok r => exact .pure fun _ l h => hset l _ h.1 h.2

theorem spec_storeAndAck {r : IotclDdimSignResponse} (hec : r.ec = 0) (cid : Option CStr) :
    issueLogic.Spec (Signed r) (storeAndAck B azrtosConfig driver cid r) fun res _ l =>
      Verdict res l := by
  unfold storeAndAck
  cases hcert : r.cert with
  | none =>
    refine .bind spec_hexToBin_null fun _ => spec_storeConverted (fun _ _ h => h.1)
      (fun _ _ h => h.2) fun _ _ _ l res hsigns hstored => ?_
    exact judged_stale hsigns hec hcert (by rw [hstored]; exact List.cons_ne_nil _ _)
  | some cert =>
    refine .bind (spec_hexToBin_text cert) fun _ => ?_
    cases hbytes : certBytes cert with
    | none =>
      refine .bind_get (fun s l h => h.2) fun s hs => ?_
      rw [if_pos hs]
      refine .pure fun _ l h => ?_
      rw [h.1]
      exact judged_unstored (fun r' hr _ => by simp_all) rfl rfl nofun
    | some bs =>
      refine spec_storeConverted (fun _ _ h => h.2.1) (fun _ _ h => h.1)
        fun s _ h l res hsigns hstored => ?_
      exact judged_issued hsigns hcert hbytes (by rw [hstored, h.2.2])

/-! ## The whole call -/

theorem calm_verdict {ret : Int} (hret : ret ≠ 0) (s : St) (l : Log) (h : Calm s l) :
    Judged (.ok ret) l := by
  rw [h]
  exact judged_unstored nofun rfl rfl fun _ he => by cases he; exact hret

theorem spec_obtainIdentity (env : Option CStr) :
    issueLogic.Spec Calm (obtainIdentity B azrtosConfig driver env)
      fun res _ l => Judged (.ok res.1) l := by
  refine .bind (calm_authenticate env) fun auth => ?_
  cases auth with
  | error ret => exact .pure fun s l h => calm_verdict (fun h0 => h.2 (h0 ▸ rfl)) s l h.1
  | ok auth =>
    refine .bind ((calm_signedCsr auth.val).pre fun _ _ h => h.1) fun csr => ?_
    cases csr with
    | error ret => exact .pure fun s l h => calm_verdict (fun h0 => h.2 (h0 ▸ rfl)) s l h.1
    | ok csr =>
      refine .bind ((calm_copySignature csr.2).pre fun _ _ h => h.1) fun sig => ?_
      cases sig with
      | error ret => exact .pure fun s l h => calm_verdict (fun h0 => h.2 (h0 ▸ rfl)) s l h.1
      | ok sig =>
        refine .bind ((spec_requestCert csr.1 sig).pre fun _ _ h => h.1) fun sign => ?_
        cases sign with
        | error ret =>
          exact .pure fun s l h => judged_unstored h.2.2.2 h.2.1 h.2.2.1 fun _ he => by
            cases he; exact h.1
        | ok sign =>
          refine .pre (.of_imp fun hec => ?_) fun s l h => And.intro h.2 h.1
          refine .bind (spec_storeAndAck hec _) fun ack => ?_
          cases ack with
          | error ret => exact .pure fun _ _ h => h
          | ok ack => exact .pure fun _ _ h => h

theorem spec_iotcdiObtainOperationalIdentity (env : Option CStr) :
    issueLogic.Spec Calm (iotcdiObtainOperationalIdentity B azrtosConfig driver env)
      fun ret _ l => Judged (.ok ret) l :=
  .bind (spec_obtainIdentity env) fun _ => .bind (spec_cleanup (fun _ => spec_call fun _ _ _ h => h)
    (fun _ => spec_call fun _ _ _ h => h) (fun _ => spec_call fun _ _ _ h => h) fun _ =>
      spec_call fun _ _ _ h => h) fun _ => .pure fun _ _ h => h

end

/-! ## Sessions -/

structure ObtainArgs where
  azrtosConfig : IotConnectAzrtosConfig
  driver : Nat
  env : Option CStr

def obtain (B : Build) (c : ObtainArgs) : M Int :=
  iotcdiObtainOperationalIdentity B c.azrtosConfig c.driver c.env

/-- A session stores nothing but issued certificates, and fails where none was issued, exactly
when no sign response of it lacks its certificate. -/
theorem only_issued_stored_iff (B : Build) (ans : Tr Op Ans → (op : Op) → Ans op)
    (calls : List ObtainArgs) (s : St) (t : Tr Op Ans) :
    (∀ x ∈ turns (World.sequential ans) (obtain B) calls s t, OnlyIssued x.res (log x.events)) ↔
      ∀ x ∈ turns (World.sequential ans) (obtain B) calls s t, CertGiven (log x.events) := by
  have hjudged : ∀ x ∈ turns (World.sequential ans) (obtain B) calls s t,
      Judged x.res (log x.events) := by
    refine turns_all (fun c s t => ?_) calls s t
    obtain ⟨s', h⟩ := (spec_iotcdiObtainOperationalIdentity c.env).turn ans (s := s) rfl t
    generalize hx : turn (World.sequential ans) _ s t = x at h
    replace hx : turn (World.sequential ans) (obtain B c) s t = x := hx
    rw [hx]
    obtain ⟨res, u⟩ := x
    cases res with
    | ok ret => exact h
    | error e => exact h e
  exact forall₂_congr hjudged

/-- A world in which everything succeeds and the sign response carries `cert`. -/
def sampleAns (cert : Option CStr) : Tr Op Ans → (op : Op) → Ans op := fun _ op =>
  match op with
  | .extractBootstrapCn _ => (some (cstr "c-d"), fun _ => [0xAB])
  | .getBootstrapCert _ | .generateCsr .. => (⟨0, 0, 1, fun _ => [0xAB]⟩ : DriverBytes)
  | .signHash .. => ((0, Buf.zero _), fun _ => [0xAB])
  | .storeOperationalCert .. => (0, fun _ => [0xAB])
  | .nxCryptoSha256Initialize | .nxCryptoSha256Update _ => (0 : UInt32)
  | .nxCryptoSha256DigestCalculate => (0, Buf.zero _)
  | .iotconnectHttpsRequest _ => (nxSuccess, some (cstr "answer"))
  | .iotclDdimAuthRequestCreateSerializedString _ => some ⟨1, cstr "auth"⟩
  | .iotclDdimSignRequestCreateSerializedString _ => some ⟨2, cstr "sign"⟩
  | .iotclDdimAckRequestCreateSerializedString _ => some ⟨3, cstr "ack"⟩
  | .iotclDdimParseAuthResponse _ => some ⟨4, 0, some (cstr "i"), some (cstr "n"), some (cstr "r")⟩
  | .iotclDdimParseSignResponse _ => some ⟨5, 0, cert⟩
  | .iotclDdimParseAckResponse _ => some ⟨6, ⟨0⟩⟩
  | .iotclParseDiscoveryV3Response _ => some ⟨7, ⟨some (cstr "https://host/path")⟩⟩
  | .iotclDdimFreeAuthResponse _ | .iotclDdimFreeSignResponse _ | .iotclDdimFreeAckResponse _ => ()
  | .iotclFreeDiscoveryV3Response _ => ()
  | .malloc _ => some 8
  | .free _ => ()

def sampleTurns (cert : Option CStr) : List (Turn Op Ans Int) :=
  turns (World.sequential (sampleAns cert))
    (obtain ⟨cstr "discovery", cstr "/api/%s/%s", [48]⟩) [⟨⟨1, 2, 3⟩, 0, some (cstr "env")⟩]
    St.boot []

/-- Without a certificate the CSR's hex text, with its terminator, is stored and acknowledged. -/
theorem csr_stored_without_cert :
    (sampleTurns none).map (fun x => log x.events) =
      [{ signs := [⟨0, none⟩], stored := [[0x61, 0x62, 0]], acked := true }] ∧
    ¬ ∀ x ∈ sampleTurns none, OnlyIssued x.res (log x.events) := by
  have hlogs : (sampleTurns none).map (fun x => log x.events) =
      [{ signs := [⟨0, none⟩], stored := [[0x61, 0x62, 0]], acked := true }] := by
    decide +kernel
  refine ⟨hlogs, fun h => ?_⟩
  obtain ⟨x, hx, hlog⟩ := List.mem_map.mp (hlogs ▸ List.mem_singleton_self _)
  have hrefused := (h x hx).refused
  rw [hlog] at hrefused
  cases (hrefused rfl).1

end Iotc.Di
