import Iotc.Resume.Nested
import Iotc.Resume.Zoom
import Iotc.Web.Rules

/-!
# Downloads from inside a download

The interface here is `iotc_download` on requests in memory, with callbacks that may call it again.
An accepted call is the only one that writes to its request record. `nesting` says how `event_cb`
guards the download that is in progress: calls made from inside its callbacks are rejected and
leave no trace but one event for their own callback, so the download runs as it does alone.
-/

namespace Iotc.Web

open Iotc.C Iotc.Resume

/-! ## Requests in memory -/

inductive CustomHandler where
  | requestHandler
  | other (handler : Nat)

inductive ResponsePtr where
  | responseBuffer
  | other (ptr : Nat)

/-- `IotConnectHttpRequest` in memory: what its user fills in, and what the clients assign. -/
structure RequestRecord where
  request : IotConnectHttpRequest
  response : Option ResponsePtr := none
  customHandlerCb : Option CustomHandler := none

abbrev Requests : Type := Nat → RequestRecord

abbrev Mem (B : Build) : Type := St B × Requests

/-- The arguments of `iotc_download`. -/
structure DownloadCall where
  r : Option Nat
  eventCallback : Option Handler
  resume : Bool

variable {B : Build}

/-- The arguments pass the first check. -/
def DownloadCall.valid (c : DownloadCall) (requests : Requests) : Bool :=
  match c.r with
  | some ptr => (requests ptr).request.hostName.isSome && (requests ptr).request.resource.isSome &&
      c.eventCallback.isSome
  | none => false

def DownloadCall.accepted (c : DownloadCall) (m : Mem B) : Bool :=
  c.valid m.2 && m.1.dl.eventCb.isNone

/-- What an accepted call assigns to its request before it calls anything: `custom_handler_cb`, and
`response` where `iotconnect_https_request` finds the arguments it needs. -/
def RequestRecord.accept (x : RequestRecord) : RequestRecord :=
  { x with
    customHandlerCb := some .requestHandler
    response := if x.request.azrtosConfig.isSome ∧ x.request.tlsCert.isSome ∧
      x.request.tlsCertLen ≠ 0 then some .responseBuffer else x.response }

def DownloadCall.mark (c : DownloadCall) (m : Mem B) : Mem B :=
  match c.r with
  | some ptr => if c.accepted m then (m.1, Function.update m.2 ptr (m.2 ptr).accept) else m
  | none => m

/-- `iotc_download` on a request in memory. -/
def iotcDownloadAt (fuel : Nat) (c : DownloadCall) : Prog Op Ans (Mem B) UINT := do
  let m ← .get
  .modify c.mark
  (iotcDownload fuel (c.r.map fun ptr => (m.2 ptr).request) c.eventCallback c.resume).zoom

/-! ## Rejection -/

/-- Who sees a status that is reported to a handler. -/
def recipient (h : Option Handler) (o : OtaStatics) : Option Nat :=
  match h with
  | some (.app cb) => some cb
  | some .otaFwDownloadHandler => o.userDownloadCb
  | none => none

def DownloadCall.refusal (c : DownloadCall) (requests : Requests) : UINT :=
  if c.valid requests then nxNotSupported else nxInvalidParameters

/-- Report `status` to the callback `cb` and return it. -/
def report (status : UINT) (cb : Option Nat) (m : Mem B) : Res Op Ans (Mem B) UINT :=
  match cb with
  | some cb => .call (.userDownloadCb cb (.status status)) m fun _ m => .done status m
  | none => .done status m

theorem rejectDownload_eq (h : Option Handler) (status : UINT) (m : Mem B) :
    (rejectDownload h status m.1).zoom m.2 = report status (recipient h m.1.ota) m := by
  cases h with
  | none => rfl
  | some h =>
    cases h with
    | app cb => rfl
    | otaFwDownloadHandler =>
      obtain ⟨⟨dl, buffer, ⟨driver, ucb, adudr, ready⟩⟩, requests⟩ := m
      cases ucb <;> rfl

theorem DownloadCall.mark_rejected {c : DownloadCall} {m : Mem B} (h : c.accepted m = false) :
    c.mark m = m := by
  unfold mark
  cases c.r with
  | none => rfl
  | some ptr => exact if_neg (by rw [h]; nofun)

theorem DownloadCall.valid_some {requests : Requests} {ptr : Nat} {h : Handler} {resume : Bool} :
    valid ⟨some ptr, some h, resume⟩ requests = false ↔
      (requests ptr).request.hostName.isNone ∨ (requests ptr).request.resource.isNone := by
  show (_ && _ && true) = false ↔ _
  generalize (requests ptr).request.hostName = host
  generalize (requests ptr).request.resource = resource
  cases host <;> cases resource <;> simp

theorem DownloadCall.refusal_invalid {c : DownloadCall} {requests : Requests}
    (h : c.valid requests = false) : c.refusal requests = nxInvalidParameters :=
  if_neg (by rw [h]; nofun)

/-- A call that is not accepted reports to its callback and does nothing else. -/
theorem iotcDownloadAt_rejected (fuel : Nat) {c : DownloadCall} {m : Mem B}
    (h : c.accepted m = false) : iotcDownloadAt fuel c m =
      report (c.refusal m.2) (recipient c.eventCallback m.1.ota) m := by
  rw [← rejectDownload_eq, iotcDownloadAt, Prog.get_bind, Prog.modify_bind, c.mark_rejected h]
  show (iotcDownload fuel _ _ _ m.1).zoom m.2 = _
  congr 1
  obtain ⟨_ | ptr, _ | handler, resume⟩ := c
  · rfl
  · rfl
  · rw [DownloadCall.refusal_invalid (by simp [DownloadCall.valid])]
    rfl
  · by_cases hargs : (m.2 ptr).request.hostName.isNone ∨ (m.2 ptr).request.resource.isNone
    · rw [DownloadCall.refusal_invalid (DownloadCall.valid_some.mpr hargs)]
      exact congrFun (if_pos hargs) _
    · have hvalid : DownloadCall.valid ⟨some ptr, some handler, resume⟩ m.2 = true := by
        rw [← Bool.not_eq_false]
        exact mt DownloadCall.valid_some.mp hargs
      rw [DownloadCall.accepted, hvalid, Bool.true_and, Option.isNone_eq_false_iff] at h
      have hrefusal : DownloadCall.refusal ⟨some ptr, some handler, resume⟩ m.2 = nxNotSupported :=
        if_pos hvalid
      rw [hrefusal]
      refine (congrFun (if_neg hargs) _).trans ?_
      rw [Prog.get_bind]
      exact congrFun (if_pos h) _

theorem DownloadCall.accepted_iff {c : DownloadCall} {m : Mem B} :
    c.accepted m = true ↔ c.valid m.2 = true ∧ m.1.dl.eventCb = none := by
  simp [accepted]

/-! ## An accepted call -/

/-- While a download is in progress the world comes back with everything as it was. -/
def Shielded (W : World Op Ans (Mem B)) : Prop :=
  ∀ op m t, m.1.dl.eventCb ≠ none → ∃ t', W.during op m t = idle m t'

/-- `event_cb` is set. -/
abbrev Held (s : St B) (_ : Tr Op Ans) : Prop := s.dl.eventCb ≠ none

/-- The runs of a download in progress: `event_cb` is set wherever they wait. -/
abbrev heldLogic (W : World Op Ans (Mem B)) (requests : Requests) :
    Logic Op Ans (St B) (Tr Op Ans) :=
  (W.watched (fun p => p.st.1.dl.eventCb ≠ none) fun _ _ => True).zoom requests

section
variable {W : World Op Ans (Mem B)} {requests : Requests}

theorem spec_held_call (hW : Shielded W) (op : Op) :
    (heldLogic W requests).Spec Held (.call op) fun _ => Held := by
  refine .of_call fun s t h => ⟨h, ?_⟩
  obtain ⟨t', ht'⟩ := hW op (s, requests) t h
  rw [ht']
  exact ⟨rfl, h⟩

theorem spec_held_fireEvent (hW : Shielded W) (evt : IotConnectDownloadEvent) :
    (heldLogic W requests).Spec Held (fireEvent evt) fun _ => Held :=
  spec_fireEvent (fun op _ => spec_held_call hW op) (fun _ _ _ h => h) (fun _ _ _ => trivial) evt

/-- A call that finds `event_cb` NULL and passes the checks sets it, waits with it set, and leaves
it NULL again. -/
theorem spec_iotcDownload_accepted (hW : Shielded W) (fuel : Nat) {r : IotConnectHttpRequest}
    (hr : ¬(r.hostName.isNone ∨ r.resource.isNone)) (h : Handler) (resume : Bool) :
    (heldLogic W requests).Spec (fun s _ => s.dl.eventCb = none)
      (iotcDownload fuel (some r) (some h) resume) fun _ s _ => s.dl.eventCb = none := by
  have hsteady : Steady (heldLogic W requests) (Held (B := B)) :=
    .of_silent (fun op _ => spec_held_call hW op) (fun _ _ _ _ _ _ _ h => h)
      (fun _ _ _ => trivial) fun evt _ => spec_held_fireEvent hW evt
  refine .ite (fun h => absurd h hr) fun _ => ?_
  refine .bind_get (φ := fun s => s.dl.eventCb = none) (fun _ _ h => h) fun s0 h0 => ?_
  refine .ite (fun h => by rw [h0] at h; cases h) fun _ => ?_
  refine .bind (Q := fun _ => Held) (.modify fun _ _ _ => Option.some_ne_none h) fun _ => ?_
  refine .bind (spec_iotconnectHttpsRequest (Q := fun _ => Held)
    (fun op _ => spec_held_call hW op) (fun _ _ _ h => h) (fun _ => spec_held_call hW _)
    (fun _ _ _ _ h => h) r (hsteady.requestHandler fuel r {})) fun status => ?_
  exact .bind (spec_held_fireEvent hW _) fun _ => .bind (.modify fun _ _ _ => rfl) fun _ =>
    .pure fun _ _ h => h

theorem DownloadCall.mark_fst (c : DownloadCall) (m : Mem B) : (c.mark m).1 = m.1 := by
  unfold mark
  split
  · split <;> rfl
  · rfl

theorem wp_iotcDownloadAt_accepted (hW : Shielded W) (fuel : Nat) {c : DownloadCall} {m : Mem B}
    (h : c.accepted m = true) (t : Tr Op Ans) :
    (iotcDownloadAt fuel c m).wp (W.watched (fun p => p.st.1.dl.eventCb ≠ none) fun _ _ => True) t
      fun _ m' _ => m'.1.dl.eventCb = none := by
  obtain ⟨hvalid, hfree⟩ := DownloadCall.accepted_iff.mp h
  rw [iotcDownloadAt, Prog.get_bind, Prog.modify_bind]
  obtain ⟨_ | ptr, _ | handler, resume⟩ := c
  · cases hvalid
  · cases hvalid
  · simp [DownloadCall.valid] at hvalid
  · have hr : ¬((m.2 ptr).request.hostName.isNone ∨ (m.2 ptr).request.resource.isNone) :=
      mt DownloadCall.valid_some.mpr (by rw [hvalid]; nofun)
    refine Res.wp_mono (fun _ _ _ h => h.2) (Res.wp_zoom (Q := fun _ s _ => s.dl.eventCb = none)
      (spec_iotcDownload_accepted hW fuel hr handler resume _ t ?_))
    rw [DownloadCall.mark_fst]
    exact hfree

end

/-! ## The guard -/

abbrev DownloadMade (B : Build) : Type := Made Op Ans (Mem B) DownloadCall UINT

/-- An accepted call is on the stack. -/
def Running (above : List (DownloadCall × Mem B)) : Prop := ∃ f ∈ above, f.1.accepted f.2 = true

/-- How a call finds the client: nothing is in progress, or a download is, with everything as it
was left. -/
inductive Guard (B : Build) where
  | free
  | held (m : Mem B)

def Guard.Holds : Guard B → List (DownloadCall × Mem B) → Mem B → Prop
  | .free, above, m => m.1.dl.eventCb = none ∧ ¬Running above
  | .held m0, above, m => m = m0 ∧ m.1.dl.eventCb ≠ none ∧ Running above

/-- Where a call may stop. -/
def Guard.Stops : Guard B → Prop
  | .free => True
  | .held _ => False

theorem Guard.Holds.guarded {i : Guard B} {above : List (DownloadCall × Mem B)} {m : Mem B}
    (h : i.Holds above m) : m.1.dl.eventCb = none ↔ ¬Running above := by
  cases i with
  | free => exact iff_of_true h.1 h.2
  | held => exact iff_of_false h.2.1 (not_not_intro h.2.2)

theorem Running.cons {above : List (DownloadCall × Mem B)} {c : DownloadCall} {m : Mem B} :
    Running ((c, m) :: above) ↔ c.accepted m = true ∨ Running above := by
  simp [Running]

/-- A rejected call does not count. -/
theorem Guard.Holds.push {i : Guard B} {above : List (DownloadCall × Mem B)} {c : DownloadCall}
    {m m' : Mem B} (hc : c.accepted m = false) :
    i.Holds ((c, m) :: above) m' ↔ i.Holds above m' := by
  have hrun : Running ((c, m) :: above) ↔ Running above := by
    rw [Running.cons, hc]
    simp
  cases i <;> simp only [Holds, hrun]

/-- What a call comes to: `event_cb` is set exactly while an accepted call is on the stack; a call
made then is rejected, reports that to its own callback and changes nothing; and an accepted call
does what it does where nothing else runs and its own calls have the same answers. -/
structure Guarded (fuel : Nat) (x : DownloadMade B) : Prop where
  entry : x.st.1.dl.eventCb = none ↔ ¬Running x.above
  waiting : ∀ p ∈ x.points, p.st.1.dl.eventCb = none ↔ ¬Running ((x.call, x.st) :: x.above)
  exit : x.out.res.isOk → (x.out.st.1.dl.eventCb = none ↔ ¬Running x.above)
  rejected : Running x.above → x.out.res = .ok (x.call.refusal x.st.2) ∧ x.out.st = x.st ∧
    x.own.map (·.1) = (recipient x.call.eventCallback x.st.1.ota).toList.map fun cb =>
      Op.userDownloadCb cb (.status (x.call.refusal x.st.2))
  alone : x.call.accepted x.st = true → ∀ t, (∃ ans, Answers ans t x.own) ∧
    ∀ ans, Answers ans t x.own → (iotcDownloadAt fuel x.call).run (.sequential ans) x.st t =
      ⟨x.out.res, x.out.st, t ++ x.own⟩

section
variable {W : World Op Ans (Mem B)} {fuel : Nat} {c : DownloadCall}
  {above : List (DownloadCall × Mem B)} {m : Mem B} {t : Tr Op Ans}

/-- What each call does where it finds the client as `i` says. -/
abbrev MeetsGuard (fuel : Nat) (i : Guard B) (x : DownloadMade B) : Prop :=
  x.Meets reent (fun i above m _ => i.Holds above m) (fun i _ _ => i.Stops) (Guarded fuel) i

abbrev Lets (W : World Op Ans (Mem B)) : Prop :=
  ∀ op (i : Guard B) above m t, i.Holds above m →
    (W.during op m t).Sat (fun _ m _ => i.Holds above m) fun _ _ => i.Stops

/-- Below an accepted call nothing changes. -/
theorem shielded_of_lets (hW : Lets W) (hc : c.accepted m = true) : Shielded W := by
  intro op m' t hm'
  have hrun : Running [(c, m)] := Running.cons.mpr (.inl hc)
  have hsat := hW op (.held m') [(c, m)] m' t ⟨rfl, hm', hrun⟩
  generalize W.during op m' t = o at hsat
  obtain ⟨_ | _, m'', t'⟩ := o
  · exact hsat.elim
  · obtain ⟨rfl, -⟩ := hsat
    exact ⟨t', rfl⟩

theorem meets_accepted (hW : Lets W) (hc : c.accepted m = true) {i : Guard B}
    (h : i.Holds above m) : MeetsGuard fuel i (make W (iotcDownloadAt fuel) above c m t) := by
  have hshield := shielded_of_lets hW hc
  have hrun : Running ((c, m) :: above) := Running.cons.mpr (.inl hc)
  obtain ⟨hsat, hpoints⟩ := (wp_iotcDownloadAt_accepted hshield fuel hc t).watched
  cases i with
  | held => exact absurd (DownloadCall.accepted_iff.mp hc).2 h.2.1
  | free =>
    have hkeep : (make W (iotcDownloadAt fuel) above c m t).out.Sat
        (fun _ m _ => Guard.free.Holds above m) fun _ _ => (Guard.free (B := B)).Stops :=
      hsat.mono (fun _ _ _ hfree => ⟨hfree, h.2⟩) fun _ _ _ => trivial
    refine ⟨hkeep, fun p hp _ => ⟨.held p.st, rfl, hpoints p hp, hrun⟩, h.guarded,
      fun p hp => iff_of_false (hpoints p hp) (not_not_intro hrun), fun hok => ?_,
      fun hr => absurd hr h.2, fun _ t' => ⟨exists_answers W.ans t' _, fun ans hans => ?_⟩⟩
    · obtain ⟨_, -, hend⟩ := hkeep.ok hok
      exact hend.guarded
    · exact Res.run_replay (fun p hp => hshield p.op p.st p.tr (hpoints p hp)) hans

theorem wp_report (hW : Lets W) {i : Guard B} (status : UINT) (cb : Option Nat)
    (h : i.Holds above m) :
    (report status cb m).wp (W.watched (fun p => i.Holds above p.st) fun _ _ => i.Stops) t
      fun res m' _ => res = status ∧ i.Holds above m' := by
  cases cb with
  | none => exact ⟨rfl, h⟩
  | some cb => exact ⟨h, (hW _ i above m t h).mono (fun _ _ _ h => ⟨rfl, h⟩) fun _ _ he => he⟩

theorem own_report (hW : Lets W) (status : UINT) (cb : Option Nat)
    (h : (Guard.held m).Holds above m) : ((report status cb m).own W t).map (·.1) =
      cb.toList.map fun cb => Op.userDownloadCb cb (.status status) := by
  cases cb with
  | none => rfl
  | some cb =>
    have hsat := hW (.userDownloadCb cb (.status status)) _ above m t h
    show (if (W.during _ m t).res.isOk then [_] else []).map _ = _
    generalize W.during (.userDownloadCb cb (.status status)) m t = o at hsat
    obtain ⟨_ | _, m', t'⟩ := o
    · exact hsat.elim
    · rfl

theorem meets_rejected (hW : Lets W) (hc : c.accepted m = false) {i : Guard B}
    (h : i.Holds above m) : MeetsGuard fuel i (make W (iotcDownloadAt fuel) above c m t) := by
  have h' : i.Holds ((c, m) :: above) m := (Guard.Holds.push hc).mpr h
  obtain ⟨hsat, hpoints⟩ := (wp_report (t := t) hW (c.refusal m.2)
    (recipient c.eventCallback m.1.ota) h').watched
  rw [← iotcDownloadAt_rejected fuel hc] at hsat hpoints
  have hkeep : (make W (iotcDownloadAt fuel) above c m t).out.Sat
      (fun _ m _ => i.Holds above m) fun _ _ => i.Stops :=
    hsat.mono (fun _ _ _ h => (Guard.Holds.push hc).mp h.2) fun _ _ he => he
  refine ⟨hkeep, fun p hp _ => ⟨i, hpoints p hp⟩, h.guarded,
    fun p hp => (hpoints p hp).guarded, fun hok => ?_, fun hr => ?_, fun h => ?_⟩
  · obtain ⟨_, -, hend⟩ := hkeep.ok hok
    exact hend.guarded
  · cases i with
    | free => exact absurd hr h.2
    | held m0 =>
      obtain rfl := h.1
      have hend : ∃ t', (iotcDownloadAt fuel c m).run W t = ⟨.ok (c.refusal m.2), m, t'⟩ := by
        generalize (iotcDownloadAt fuel c m).run W t = o at hsat
        obtain ⟨_ | _, m', t'⟩ := o
        · exact hsat.elim
        · obtain ⟨rfl, hm, -⟩ := hsat
          obtain rfl : m' = m := hm
          exact ⟨t', rfl⟩
      obtain ⟨t', hrun⟩ := hend
      have hown := own_report (t := t) hW (c.refusal m.2) (recipient c.eventCallback m.1.ota) h'
      rw [← iotcDownloadAt_rejected fuel hc] at hown
      exact ⟨congrArg Out.res hrun, congrArg Out.st hrun, hown⟩
  · exact absurd (hc.symm.trans h) Bool.false_ne_true

/-- **A rejected download does not disturb the running one.** -/
theorem nested_downloads_guarded (fuel : Nat) (ans : Tr Op Ans → (op : Op) → Ans op)
    (calls : Tr Op Ans → Op → List DownloadCall) (d : Nat) (cs : List DownloadCall) (m : Mem B)
    (hfree : m.1.dl.eventCb = none) (t : Tr Op Ans) :
    ∀ x ∈ made (iotcDownloadAt fuel) ans reent calls d [] cs m t, Guarded fuel x := by
  have hinit : Guard.free.Holds [] m := ⟨hfree, by simp [Running]⟩
  refine (made_all (I := fun i above m _ => Guard.Holds i above m) (E := fun i _ _ => Guard.Stops i)
    (fun W _ hlets i above c m t h => ?_) d cs hinit).2
  cases hc : c.accepted m with
  | true => exact meets_accepted hlets hc h
  | false => exact meets_rejected hlets hc h

end

/-- A callback that asks for the file again, with a callback of its own that does so too. -/
def again (_ : Tr Op Ans) : Op → List DownloadCall
  | .userDownloadCb cb _ => [⟨some 0, some (.app (cb + 1)), true⟩]
  | _ => []

theorem nested_downloads_guarded_again :
    let ans := fun _ : Tr Op Ans => allGood (headOf "1") (chunkOf [7])
    let m : Mem { iotcDlDataBufferSize := 4 } := (.init _, fun _ => { request := fileRequest })
    let xs := made (iotcDownloadAt 1) ans reent again 2 [] [⟨some 0, some (.app 7), false⟩] m []
    xs.map (fun x => (x.above.length, x.out.res.toOption)) = [(0, some nxSuccess),
      (1, some nxNotSupported), (2, some nxNotSupported), (1, some nxNotSupported),
      (2, some nxNotSupported), (1, some nxNotSupported), (2, some nxNotSupported)] ∧
    ∀ x ∈ xs, Guarded 1 x :=
  ⟨by decide +kernel, nested_downloads_guarded 1 _ again 2 _ _ rfl []⟩

end Iotc.Web
