import Iotc.Ota.Rules
import Iotc.Resume.Nested

/-!
# After a failed command

`statuses` are the answers of the driver along a trace. From a failed command on, a trace is
`Contained` that only deletes the web client and reports a status until a download initialises its
driver again. `failure_contained` says that all nested sessions are, and what their
calls come to.

A download in progress is `Driven`: the commands it has sent all succeeded, except perhaps the
last. The user's callback runs in one of two `Stage`s; inside a download every call it
makes is rejected and finds the client's variables as it leaves them.
-/

namespace Iotc.Ota

open Iotc.C Iotc.Resume Iotc.Web

/-! ## Commands along a trace -/

/-- What the driver answered, in order. -/
def statuses (t : Tr Op Ans) : List UINT :=
  t.filterMap fun
    | ⟨.aduDriver .., status⟩ => some status
    | _ => none

/-- The last command has failed. -/
def CommandFailed (t : Tr Op Ans) : Prop :=
  ∃ status, (statuses t).getLast? = some status ∧ status ≠ nxSuccess

/-- What may follow a failed command: the end of a download, and the start of one. -/
def AfterFailure : Op → Prop
  | .nxWebHttpClientDelete => True
  | .userDownloadCb _ (.status _) => True
  | .aduDriver _ req => req.command = .driverInitialize
  | _ => False

/-- Nothing else follows a failed command until one succeeds. -/
def Contained (t : Tr Op Ans) : Prop :=
  Along (fun t ev => CommandFailed t → AfterFailure ev.1) [] t

theorem statuses_append (t u : Tr Op Ans) : statuses (t ++ u) = statuses t ++ statuses u :=
  List.filterMap_append

theorem CommandFailed.congr {t t' : Tr Op Ans} (h : statuses t' = statuses t) :
    CommandFailed t' ↔ CommandFailed t := by
  unfold CommandFailed
  rw [h]

theorem Contained.snoc {t : Tr Op Ans} {ev : Ev Op Ans} (h : Contained t)
    (hev : CommandFailed t → AfterFailure ev.1) : Contained (t ++ [ev]) :=
  along_append.mpr ⟨h, along_single.mpr hev⟩

/-- An event that is no answer of the driver. -/
def NoCommand (ev : Ev Op Ans) : Prop := statuses [ev] = []

theorem statuses_snoc {t : Tr Op Ans} {ev : Ev Op Ans} (h : NoCommand ev) :
    statuses (t ++ [ev]) = statuses t := by
  rw [statuses_append, h, List.append_nil]

theorem noCommand_of_silent {op : Op} {a : Ans op} (h : op.silent = true) : NoCommand ⟨op, a⟩ := by
  cases op <;> first | rfl | cases h

/-! ## Stages -/

variable {B : Build}

/-- Where a call of the interface finds the client: no download is in progress, or one is, with
these variables and after these answers of the driver. -/
inductive Stage (B : Build) where
  | idle
  | busy (s : St B) (answers : List UINT)

def Stage.Holds : Stage B → St B → Tr Op Ans → Prop
  | .idle, s, t => Contained t ∧ (CommandFailed t → s.ota.firmwareReady = false)
  | .busy s0 answers, s, t => (s = s0 ∧ statuses t = answers) ∧ Contained t ∧
      s.ota.aduDriver.isSome ∧ s.ota.firmwareReady = false

/-- Where a call may stop. -/
def Stage.Stops : Stage B → St B → Tr Op Ans → Prop
  | .idle, _, t => Contained t ∧ ¬CommandFailed t
  | .busy .., _, _ => False

theorem Stage.Holds.unready {i : Stage B} {s : St B} {t : Tr Op Ans} (h : i.Holds s t)
    (hfailed : CommandFailed t) : s.ota.firmwareReady = false := by
  cases i with
  | idle => exact h.2 hfailed
  | busy => exact h.2.2.2

/-- An event after which nothing has changed for the driver. -/
theorem Stage.Holds.snoc {i : Stage B} {s : St B} {t : Tr Op Ans} {ev : Ev Op Ans}
    (h : i.Holds s t) (hnone : NoCommand ev) (hev : CommandFailed t → AfterFailure ev.1) :
    i.Holds s (t ++ [ev]) := by
  have hstatuses := statuses_snoc (t := t) hnone
  cases i with
  | idle =>
    refine ⟨h.1.snoc hev, fun hfailed => h.2 ?_⟩
    exact (CommandFailed.congr hstatuses).mp hfailed
  | busy s0 answers => exact ⟨⟨h.1.1, hstatuses.trans h.1.2⟩, h.2.1.snoc hev, h.2.2⟩

/-- A world in which the user's callback alone lets calls run, and these keep every stage. -/
structure Hosts (W : World Op Ans (St B)) : Prop where
  calm : Calm W
  lets : ∀ op (i : Stage B) s t, i.Holds s t → (W.during op s t).Sat (fun _ => i.Holds) i.Stops

/-- Where a call waits for the user, the calls made find a stage. -/
abbrev Staged (p : Point Op Ans (St B)) : Prop :=
  reent p.op = true → ∃ i : Stage B, i.Holds p.st p.tr

section
variable {W : World Op Ans (St B)} {E : St B → Tr Op Ans → Prop}

theorem Hosts.undisturbed (hW : Hosts W) : Undisturbed (W.watched Staged E) fun _ _ => True :=
  fun op hop => (hW.calm op hop).watched fun _ _ h => by
    rw [show reent op = true from h] at hop
    cases hop

/-- A status for the user. -/
theorem spec_userStatus (hW : Hosts W) {i : Stage B} (hE : ∀ s t, i.Stops s t → E s t)
    (cb : Nat) (status : UINT) :
    (W.watched Staged E).Spec i.Holds (userDownloadCb cb (.status status)) fun _ => i.Holds := by
  refine .of_call fun s t h => ⟨fun _ => ⟨i, h⟩, ?_⟩
  exact (hW.lets _ i s t h).mono (fun _ _ _ h => h.snoc rfl fun _ => trivial) hE

theorem spec_rejectFwDownload (hW : Hosts W) {i : Stage B} (cb : Option Nat) (status : UINT) :
    (W.watched Staged i.Stops).Spec i.Holds (rejectFwDownload cb status) fun res s t =>
      res = status ∧ i.Holds s t := by
  cases cb with
  | none => exact .pure fun s t h => ⟨rfl, h⟩
  | some cb =>
    exact .bind (spec_userStatus hW (fun _ _ h => h) cb status) fun _ => .pure fun s t h => ⟨rfl, h⟩

theorem statuses_rejectFwDownload (cb : Option Nat) (status : UINT) (s : St B) (t : Tr Op Ans) :
    statuses ((rejectFwDownload cb status s).own W t) = [] := by
  cases cb with
  | none => rfl
  | some cb =>
    show statuses (if _ then [_] else []) = []
    split <;> rfl

/-! ## Inside a download -/

/-- Since `t0` the driver has answered, with success but perhaps for the last time. -/
def Answered (t0 : Tr Op Ans) (failed : Bool) (t : Tr Op Ans) : Prop :=
  ∃ ys e, statuses t = statuses t0 ++ (ys ++ [e]) ∧ (∀ y ∈ ys, y = nxSuccess) ∧
    (failed = true ↔ e ≠ nxSuccess)

theorem Answered.failed_iff {t0 t : Tr Op Ans} {failed : Bool} (h : Answered t0 failed t) :
    CommandFailed t ↔ failed = true := by
  obtain ⟨ys, e, ht, -, he⟩ := h
  unfold CommandFailed
  rw [ht, he]
  simp

theorem Answered.congr {t0 t t' : Tr Op Ans} {failed : Bool} (h : Answered t0 failed t)
    (ht : statuses t' = statuses t) : Answered t0 failed t' := by
  unfold Answered
  rwa [ht]

theorem Answered.command {t0 t : Tr Op Ans} (h : Answered t0 false t) (ad : Nat)
    (req : AduDriverRequest) (status : UINT) :
    Answered t0 (decide (status ≠ nxSuccess)) (t ++ [⟨.aduDriver ad req, status⟩]) := by
  obtain ⟨ys, e, ht, hys, he⟩ := h
  refine ⟨ys ++ [e], status, ?_, ?_, decide_eq_true_iff⟩
  · rw [statuses_append, ht]
    simp [statuses]
  · have he : e = nxSuccess := by simpa using he
    simpa [he, or_imp, forall_and] using hys

/-- A download is in progress for the driver. -/
structure Driven (t0 : Tr Op Ans) (φ : DlStatics B → Prop) (failed : Bool) (s : St B)
    (t : Tr Op Ans) : Prop where
  dl : φ s.dl
  driver : s.ota.aduDriver.isSome
  unready : s.ota.firmwareReady = false
  contained : Contained t
  answered : Answered t0 failed t

/-- The requests have come to `status`. -/
def Outcome (t0 : Tr Op Ans) (φ : DlStatics B → Prop) (status : UINT) (s : St B) (t : Tr Op Ans) :
    Prop :=
  ∃ failed, (failed = true → status ≠ nxSuccess) ∧ Driven t0 φ failed s t

/-- Where a download may stop. -/
def Unfailed (t0 : Tr Op Ans) (_ : St B) (t : Tr Op Ans) : Prop :=
  Contained t ∧ Answered t0 false t

variable {t0 : Tr Op Ans} {φ : DlStatics B → Prop} {failed : Bool}

theorem Driven.snoc {s : St B} {t : Tr Op Ans} {ev : Ev Op Ans} (h : Driven t0 φ failed s t)
    (hnone : NoCommand ev) (hev : failed = true → AfterFailure ev.1) :
    Driven t0 φ failed s (t ++ [ev]) :=
  ⟨h.dl, h.driver, h.unready, h.contained.snoc fun hf => hev (h.answered.failed_iff.mp hf),
    h.answered.congr (statuses_snoc hnone)⟩

theorem Driven.stable (hφ : ∀ dl buffer dataLength, φ dl → φ { dl with buffer, dataLength }) :
    Stable (Driven (B := B) t0 φ false) where
  silent _ _ _ _ hop h := h.snoc (noCommand_of_silent hop) nofun
  buffer _ _ buffer dataLength h := { h with dl := hφ _ buffer dataLength h.dl }
  response _ _ _ h := { h with }

theorem Driven.weaken {ψ : DlStatics B → Prop} {s : St B} {t : Tr Op Ans}
    (h : Driven t0 φ failed s t) (hφ : ∀ dl, φ dl → ψ dl) : Driven t0 ψ failed s t :=
  { h with dl := hφ _ h.dl }

theorem Driven.outcome {s : St B} {t : Tr Op Ans} (h : Driven t0 φ false s t) (status : UINT) :
    Outcome t0 φ status s t := ⟨false, nofun, h⟩

/-- The user's callback; after a failed command it is told of a status only. -/
theorem spec_userDownloadCb (hW : Hosts W) (cb : Nat)
    {evt : IotConnectDownloadEvent} (hevt : failed = true → ∃ status, evt = .status status) :
    (W.watched Staged E).Spec (Driven t0 φ failed) (userDownloadCb cb evt) fun _ =>
      Driven t0 φ failed := by
  refine .of_call fun s t h => ?_
  have hbusy : (Stage.busy s (statuses t)).Holds s t :=
    ⟨⟨rfl, rfl⟩, h.contained, h.driver, h.unready⟩
  refine ⟨fun _ => ⟨_, hbusy⟩, (hW.lets _ _ s t hbusy).mono ?_ fun _ _ h => h.elim⟩
  rintro _ s' t' ⟨⟨rfl, ht⟩, hcontained, -⟩
  have h' : Driven t0 φ failed s' t' :=
    { h with contained := hcontained, answered := h.answered.congr ht }
  refine h'.snoc rfl fun hf => ?_
  obtain ⟨status, rfl⟩ := hevt hf
  trivial

/-- A command of a download whose commands have succeeded so far. -/
theorem spec_sendAduDriver (hW : Hosts W) (req : AduDriverRequest) :
    (W.watched Staged E).Spec (Driven t0 φ false) (sendAduDriver req) fun status =>
      Driven t0 φ (decide (status ≠ nxSuccess)) := by
  refine .bind_get (φ := fun s => s.ota.aduDriver.isSome) (fun s t h => h.driver) fun s0 h0 => ?_
  obtain ⟨ad, had⟩ := Option.isSome_iff_exists.mp h0
  rw [had]
  refine .bind (Q := fun status => Driven t0 φ (decide (status ≠ nxSuccess)))
    (.call_atomic (hW.undisturbed _ rfl) fun s t status h _ => ?_) fun status => ?_
  · have hok : ¬CommandFailed t := fun hf => nomatch h.answered.failed_iff.mp hf
    exact ⟨h.dl, h.driver, h.unready, h.contained.snoc fun hf => absurd hf hok,
      h.answered.command ad req status⟩
  · exact .bind (Q := fun _ => Driven t0 φ (decide (status ≠ nxSuccess)))
      (.modify fun s t h => { h with }) fun _ => .pure fun s t h => h

/-- The end of an event: the user is told. -/
theorem spec_tellUser (hW : Hosts W) {evt : IotConnectDownloadEvent}
    (hevt : failed = true → ∃ status, evt = .status status) :
    (W.watched Staged E).Spec (Driven t0 φ failed) (do
      let s ← .get
      match s.ota.userDownloadCb with
      | some cb => userDownloadCb cb evt
      | none => return true) fun _ => Driven t0 φ failed := by
  refine .bind_get_any fun s0 => ?_
  cases s0.ota.userDownloadCb with
  | none => exact .pure fun _ _ h => h
  | some cb => exact spec_userDownloadCb hW cb hevt

theorem spec_callHandler_status (hW : Hosts W) (status : UINT) :
    (W.watched Staged E).Spec (Driven t0 φ failed)
      (callHandler .otaFwDownloadHandler (.status status)) fun _ => Driven t0 φ failed := by
  refine .bind (Q := fun _ => Driven t0 φ failed) (.pure fun _ _ h => h) fun _ => ?_
  exact .ite (fun _ => .pure fun _ _ h => h) fun _ => spec_tellUser hW fun _ => ⟨status, rfl⟩

theorem spec_fireEvent_driven (hW : Hosts W)
    (hφ : ∀ dl, φ dl → dl.eventCb = some .otaFwDownloadHandler) (evt : IotConnectDownloadEvent) :
    (W.watched Staged E).Spec (Driven t0 φ false) (fireEvent evt) fun accepted s t =>
      if accepted then Driven t0 φ false s t else ∃ failed, Driven t0 φ failed s t := by
  refine .bind_get (φ := fun s => s.dl.eventCb = some .otaFwDownloadHandler)
    (fun s t h => hφ _ h.dl) fun s0 h0 => ?_
  rw [h0]
  refine .bind (Q := fun status => Driven t0 φ (decide (status ≠ nxSuccess))) ?_ fun status => ?_
  · cases evt with
    | fileSize n => exact spec_sendAduDriver hW _
    | data dataPtr dataSize offset n => exact spec_sendAduDriver hW _
    | unknown | status _ => exact .pure fun _ _ h => h
  refine .ite (fun _ => .pure fun s t h => ⟨_, h⟩) fun hok => ?_
  have hok : decide (status ≠ nxSuccess) = false := decide_eq_false hok
  have hevt : false = true → ∃ status, evt = .status status := nofun
  rw [hok]
  refine (spec_tellUser hW hevt).post fun accepted s t h => ?_
  cases accepted with
  | true => exact h
  | false => exact ⟨false, h⟩

/-- An event that is not accepted ends the download with an error. -/
theorem spec_driven_guard (hW : Hosts W) {ψ : DlStatics B → Prop}
    (hφ : ∀ dl, φ dl → dl.eventCb = some .otaFwDownloadHandler) (hψ : ∀ dl, φ dl → ψ dl)
    (evt : IotConnectDownloadEvent) {q : M B UINT}
    (hq : (W.watched Staged E).Spec (Driven t0 φ false) q (Outcome t0 ψ)) :
    (W.watched Staged E).Spec (Driven t0 φ false) (do
      let accepted ← fireEvent evt
      if accepted = false then return nxDownloadAbortedByUser else q) (Outcome t0 ψ) := by
  refine .bind (spec_fireEvent_driven hW hφ evt) fun accepted => ?_
  cases accepted with
  | false =>
    refine .ite (fun _ => .pure fun s t h => ?_) fun h => absurd rfl h
    obtain ⟨failed, h⟩ := h
    exact ⟨failed, fun _ => by decide, h.weaken hψ⟩
  | true => exact .ite (fun h => nomatch h) fun _ => hq.pre fun s t h => h

/-- The download client is at work for the OTA client. -/
abbrev ForOta (dl : DlStatics B) : Prop := dl.eventCb = some .otaFwDownloadHandler

theorem spec_chunkLoop (hW : Hosts W) (hE : ∀ s t, Unfailed t0 s t → E s t)
    (r : IotConnectHttpRequest) (client : NxWebHttpClient) (fuel : Nat) :
    (W.watched Staged E).Spec (Driven t0 ForOta false) (chunkLoop r (rangeClient client) fuel)
      (Outcome t0 ForOta) := by
  refine .fix (fun s _ => (s.dl.fileBytesReceived, s.dl.fileSize)) fun (start, n) => ?_
  let I : SizeT → SizeT → St B → Tr Op Ans → Prop := fun off n =>
    Driven t0 (fun dl => (dl.fileBytesReceived = off ∧ dl.fileSize = n) ∧ ForOta dl) false
  have hI : ∀ off s t, I off n s t → Driven t0 ForOta false s t := fun off s t h =>
    h.weaken fun _ h => h.2
  refine ((triple_chunkLoop hW.undisturbed (I := I) (H := fun _ => True) (n := n)
    (R := fun s t => ∃ failed, Driven t0 ForOta failed s t)
    (fun off => Driven.stable fun _ _ _ h => h) (fun off s t h => hE s t ⟨h.contained, h.answered⟩)
    (fun off s t h => h.dl.1) (fun _ _ => trivial) (fun off dataPtr _ =>
      (spec_fireEvent_driven hW (fun _ h => h.2) _).post fun accepted s t h => ?_)
    r client fuel start trivial).post fun status s t h => ?_).pre fun s t ⟨heq, h⟩ => ?_
  · cases accepted with
    | true =>
      refine { h with dl := ⟨⟨?_, h.dl.1.2⟩, h.dl.2⟩ }
      rw [← h.dl.1.1]
      rfl
    | false =>
      obtain ⟨failed, h⟩ := h
      exact ⟨failed, h.weaken fun _ h => h.2⟩
  · by_cases hok : status = nxSuccess
    · rw [if_pos hok] at h
      obtain ⟨off, -, h⟩ := h
      exact (hI off s t h).outcome status
    · rw [if_neg hok] at h
      rcases h with ⟨off, h⟩ | ⟨failed, h⟩
      · exact (hI off s t h).outcome status
      · exact ⟨failed, fun _ => hok, h⟩
  · obtain ⟨hstart, hn⟩ := Prod.mk.inj heq
    exact { h with dl := ⟨⟨hstart, hn⟩, h.dl⟩ }

theorem spec_requestHandler (hW : Hosts W) (hE : ∀ s t, Unfailed t0 s t → E s t) (fuel : Nat)
    (r : IotConnectHttpRequest) (client : NxWebHttpClient) :
    (W.watched Staged E).Spec (Driven t0 ForOta false) (requestHandler fuel r client)
      (Outcome t0 ForOta) := by
  have hstable : Stable (Driven (B := B) t0 ForOta false) := Driven.stable fun _ _ _ h => h
  refine .bind ((triple_getFileSize hW.undisturbed hstable
    (fun s t d _ h _ _ => hE s _ ⟨h.contained, h.answered⟩) (fun s t n h => { h with })
    r client).post fun _ _ _ h => h.1) fun status => ?_
  refine .ite (fun _ => .pure fun s t h => h.outcome status) fun _ => .bind_get_any fun s0 => ?_
  refine spec_driven_guard hW (fun _ h => h) (fun _ h => h) _ <| .bind_get_any fun s1 => ?_
  refine .ite (fun _ => ?_) fun _ => .ite (fun _ => .pure fun s t h => h.outcome _) fun _ => ?_
  · exact .bind (Q := fun _ => Driven t0 ForOta false) (.modify fun s t h => { h with }) fun _ =>
      spec_chunkLoop hW hE r client fuel
  · exact spec_chunkLoop hW hE r client fuel

/-- A download for the OTA client: if a command fails, it returns an error. -/
theorem spec_iotcDownload (hW : Hosts W) (hE : ∀ s t, Unfailed t0 s t → E s t) (fuel : Nat)
    (r : Option IotConnectHttpRequest) (resume : Bool) :
    (W.watched Staged E).Spec (Driven t0 (fun _ => True) false)
      (iotcDownload fuel r (some .otaFwDownloadHandler) resume) (Outcome t0 fun _ => True) := by
  refine Web.spec_iotcDownload (J := Driven t0 ForOta false) (K := Outcome t0 ForOta)
    (T := Outcome t0 fun _ => True) (fun status _ => ?_) (fun s t _ h => { h with dl := rfl })
    (fun r => ?_) (fun status => ?_) (fun status s t h => ?_) r
  · exact .bind (spec_callHandler_status hW status) fun _ => .pure fun s t h => h.outcome status
  · exact triple_iotconnectHttpsRequest hW.undisturbed (Driven.stable fun _ _ _ h => h)
      (fun status s t a ⟨failed, hf, h⟩ => ⟨failed, hf, h.snoc rfl fun _ => trivial⟩)
      (fun status s t _ h => h.outcome status) r (spec_requestHandler hW hE fuel r {})
  · refine .of_exists fun failed => .of_imp fun hf => ?_
    refine .bind_get (φ := fun s => ForOta s.dl) (fun s t h => h.dl) fun s1 h1 => ?_
    rw [h1]
    exact (spec_callHandler_status hW status).post fun _ s t h =>
      ⟨failed, hf, h.weaken fun _ _ => trivial⟩
  · obtain ⟨failed, hf, h⟩ := h
    exact ⟨failed, hf, { h with dl := trivial }⟩

/-! ## Calls -/

/-- A call that sent commands to the driver has come to `status`. -/
def Commanded (t0 : Tr Op Ans) (status : UINT) (s : St B) (t : Tr Op Ans) : Prop :=
  Stage.idle.Holds s t ∧
    ∃ failed, (failed = true → status ≠ nxSuccess) ∧ Answered t0 failed t

/-- No firmware is ready: the client is between two downloads. -/
theorem Commanded.of_unready {s : St B} {t : Tr Op Ans} {status : UINT}
    (hcontained : Contained t) (hready : s.ota.firmwareReady = false)
    (hf : failed = true → status ≠ nxSuccess) (hanswered : Answered t0 failed t) :
    Commanded t0 status s t :=
  ⟨⟨hcontained, fun _ => hready⟩, failed, hf, hanswered⟩

theorem Answered.single (t : Tr Op Ans) (ad : Nat) (req : AduDriverRequest) (status : UINT) :
    Answered t (decide (status ≠ nxSuccess)) (t ++ [⟨.aduDriver ad req, status⟩]) :=
  ⟨[], status, statuses_append _ _, nofun, decide_eq_true_iff⟩

theorem spec_acceptFwDownload (hW : Hosts W) (fuel : Nat) (r : Option IotConnectHttpRequest)
    (ad : Nat) (resume : Bool) (cb : Option Nat) :
    (W.watched Staged (Unfailed t0)).Spec
      (fun s t => t = t0 ∧ s.ota.firmwareReady = false ∧ Contained t)
      (acceptFwDownload fuel r ad resume cb) (Commanded t0) := by
  let Sent : UINT → St B → Tr Op Ans → Prop := fun status s t => s.ota.firmwareReady = false ∧
    Contained t ∧ Answered t0 (decide (status ≠ nxSuccess)) t
  have hok : decide (nxSuccess ≠ nxSuccess) = false := by decide
  refine rule_acceptFwDownload (K := Sent) (J := Driven t0 (fun _ => True) false)
    (T := Outcome t0 fun _ => True)
    (rule_sendDriver (K := Sent) (.call_atomic (hW.undisturbed _ rfl) ?_) fun _ s t h => h)
    (fun status s t hne h => .of_unready h.2.1 h.1 (fun _ => hne) h.2.2)
    (fun s t h => ⟨trivial, rfl, h.1, h.2.1, hok ▸ h.2.2⟩)
    (spec_iotcDownload hW (fun _ _ h => h) fuel r resume) (fun s t h => ?_) fun status s t h => ?_
  · rintro s t status ⟨rfl, hready, hcontained⟩ -
    exact ⟨hready, hcontained.snoc fun _ => rfl, .single t ad _ status⟩
  · obtain ⟨failed, hf, h⟩ := h
    refine ⟨⟨h.contained, fun hfailed => ?_⟩, failed, hf, h.answered⟩
    exact absurd rfl (hf (h.answered.failed_iff.mp hfailed))
  · obtain ⟨failed, hf, h⟩ := h
    exact .of_unready h.contained h.unready hf h.answered

theorem spec_iotcOtaFwApply (hW : Hosts W) {s0 : St B} {ad : Nat} (had : s0.ota.aduDriver = some ad)
    (hready : s0.ota.firmwareReady = true) :
    (W.watched Staged (Unfailed t0)).Spec
      (fun s t => s = s0 ∧ t = t0 ∧ Contained t ∧ ¬CommandFailed t) iotcOtaFwApply
      (Commanded t0) := by
  let Sent : UINT → St B → Tr Op Ans → Prop := fun status _ t =>
    Contained t ∧ Answered t0 (decide (status ≠ nxSuccess)) t
  have hend : ∀ status s t, Sent status s t → Commanded t0 status
      (s.setOta ({ · with aduDriver := none, firmwareReady := false })) t := fun status s t h =>
    .of_unready h.1 rfl (fun hf => of_decide_eq_true hf) h.2
  have hok : decide (nxSuccess ≠ nxSuccess) = false := by decide
  refine rule_iotcOtaFwApply (K := Sent) (T := Sent) ?_
    (fun ad => rule_sendDriver (K := Sent) (.call_atomic (hW.undisturbed _ rfl) ?_)
      fun _ s t h => h)
    (fun status s t _ h => hend status s t h)
    (fun ad => rule_sendDriver (K := Sent) (.call_atomic (hW.undisturbed _ rfl) ?_)
      fun _ s t h => h)
    hend
  · rintro s t hinvalid ⟨rfl, -⟩
    rw [had, hready] at hinvalid
    rcases hinvalid with h | h <;> cases h
  · rintro s t status ⟨-, -, -, rfl, hcontained, hf⟩ -
    exact ⟨hcontained.snoc fun h => absurd h hf, .single t ad _ status⟩
  · rintro s t status ⟨hcontained, hanswered⟩ -
    rw [hok] at hanswered
    have hf : ¬CommandFailed t := fun h => nomatch hanswered.failed_iff.mp h
    exact ⟨hcontained.snoc fun h => absurd h hf, hanswered.command ad _ status⟩

/-! ## What calls come to -/

/-- A call that gets as far as the driver. -/
def Accepted (c : OtaCall) (o : OtaStatics) : Prop :=
  match c with
  | .download _ ad _ _ => ad ≠ none ∧ o.aduDriver = none
  | .apply => o.aduDriver ≠ none ∧ o.firmwareReady = true
  | .cancel => False

abbrev OtaMade (B : Build) : Type := Made Op Ans (St B) OtaCall UINT

/-- The driver's answers during a call. -/
def answers (x : OtaMade B) : List UINT := statuses (x.out.tr.drop x.tr.length)

/-- A failed command is contained by the call that sent it and by the calls around it and
behind it. -/
structure Contains (x : OtaMade B) : Prop where
  returned : Accepted x.call x.st.ota → (∃ e ∈ answers x, e ≠ nxSuccess) → x.out.res.isOk
  error : (∃ e ∈ answers x, e ≠ nxSuccess) → ∀ status, x.out.res = .ok status → status ≠ nxSuccess
  last : Accepted x.call x.st.ota → ∀ e ∈ (answers x).dropLast, e = nxSuccess
  unsent : ¬Accepted x.call x.st.ota → statuses x.own = []
  rejected : CommandFailed x.tr → x.call = .apply ∨ x.call = .cancel →
    x.out = ⟨.ok nxInvalidParameters, x.st, x.tr⟩

theorem contains_of_commanded {x : OtaMade B} (haccepted : Accepted x.call x.st.ota)
    (hsat : x.out.Sat (Commanded x.tr) (Unfailed x.tr)) (hgrows : ∃ u, x.out.tr = x.tr ++ u)
    (hready : CommandFailed x.tr → x.st.ota.firmwareReady = false) : Contains x := by
  obtain ⟨u, hu⟩ := hgrows
  have hanswers : answers x = statuses u := by rw [answers, hu, List.drop_left]
  have hend : ∀ {failed}, Answered x.tr failed x.out.tr → ∃ ys e, answers x = ys ++ [e] ∧
      (∀ y ∈ ys, y = nxSuccess) ∧ (failed = true ↔ e ≠ nxSuccess) := by
    rintro failed ⟨ys, e, ht, hys, he⟩
    rw [hu, statuses_append] at ht
    exact ⟨ys, e, hanswers.trans (List.append_cancel_left ht), hys, he⟩
  have hfailed : ∀ {failed}, Answered x.tr failed x.out.tr → (∃ e ∈ answers x, e ≠ nxSuccess) →
      failed = true := by
    intro failed h ⟨e, hmem, hne⟩
    obtain ⟨ys, e', heq, hys, he⟩ := hend h
    rw [heq] at hmem
    rcases List.mem_append.mp hmem with hmem | hmem
    · exact absurd (hys e hmem) hne
    · rw [List.mem_singleton.mp hmem] at hne
      exact he.mpr hne
  have hlast : ∀ {failed}, Answered x.tr failed x.out.tr →
      ∀ e ∈ (answers x).dropLast, e = nxSuccess := by
    intro failed h
    obtain ⟨ys, e', heq, hys, -⟩ := hend h
    rwa [heq, List.dropLast_concat]
  have hrejected : CommandFailed x.tr → x.call = .apply ∨ x.call = .cancel →
      x.out = ⟨.ok nxInvalidParameters, x.st, x.tr⟩ := by
    rintro hf (hcall | hcall) <;> rw [hcall] at haccepted
    · exact absurd (haccepted.2.symm.trans (hready hf)) (by decide)
    · exact haccepted.elim
  obtain ⟨above, c, s, t, points, own, res, s', t'⟩ := x
  cases res with
  | error e =>
    refine ⟨fun _ h => (nomatch hfailed hsat.2 h), fun _ _ h => (nomatch h), fun _ => hlast hsat.2,
      fun h => absurd haccepted h, hrejected⟩
  | ok status =>
    obtain ⟨-, failed, hf, hanswered⟩ := hsat
    refine ⟨fun _ _ => rfl, fun h status' heq => ?_, fun _ => hlast hanswered,
      fun h => absurd haccepted h, hrejected⟩
    cases heq
    exact hf (hfailed hanswered h)

/-! ## Each call -/

/-- What each call does where it finds the client in the stage `i`. -/
abbrev Meets (i : Stage B) (x : OtaMade B) : Prop :=
  x.Meets reent (fun i _ => i.Holds) Stage.Stops Contains i

theorem Unfailed.stops {s : St B} {t : Tr Op Ans} (h : Unfailed t0 s t) : Stage.idle.Stops s t :=
  ⟨h.1, fun hf => nomatch h.2.failed_iff.mp hf⟩

theorem meets_of_commanded {api : OtaCall → M B UINT} {above : List (OtaCall × St B)} {c : OtaCall}
    {s : St B} {t : Tr Op Ans} (haccepted : Accepted c s.ota)
    (h : (api c s).wp (W.watched Staged (Unfailed t)) t (Commanded t))
    (hready : CommandFailed t → s.ota.firmwareReady = false) :
    Meets .idle (make W api above c s t) := by
  obtain ⟨hsat, hpoints⟩ := h.watched
  refine ⟨hsat.mono (fun _ _ _ h => h.1) fun _ _ h => h.stops, hpoints, ?_⟩
  exact contains_of_commanded haccepted hsat (Prog.run_grows W s t (api c)) hready

/-- A call that returns at once. -/
theorem meets_of_done {api : OtaCall → M B UINT} {above : List (OtaCall × St B)} {c : OtaCall}
    {i : Stage B} {s : St B} {t : Tr Op Ans} (status : UINT) (s' : St B)
    (hdone : api c s = .done status s') (haccepted : ¬Accepted c s.ota) (h : i.Holds s' t)
    (hrejected : CommandFailed t → status = nxInvalidParameters ∧ s' = s) :
    Meets i (make W api above c s t) := by
  have hmake : make W api above c s t = ⟨above, c, s, t, [], [], ⟨.ok status, s', t⟩⟩ := by
    unfold make Prog.run
    rw [hdone]
    rfl
  have hnone : ∀ e, e ∉ answers (B := B) ⟨above, c, s, t, [], [], ⟨.ok status, s', t⟩⟩ := by
    simp [answers, statuses]
  rw [hmake]
  refine ⟨h, fun p hp => absurd hp List.not_mem_nil, fun h => absurd h haccepted, ?_,
    fun h => absurd h haccepted, fun _ => rfl, ?_⟩
  · rintro ⟨e, he, -⟩
    exact absurd he (hnone e)
  · intro hf _
    obtain ⟨rfl, rfl⟩ := hrejected hf
    rfl

/-- A call that sends no command and returns an error. -/
theorem meets_of_error {api : OtaCall → M B UINT} {above : List (OtaCall × St B)} {c : OtaCall}
    {i : Stage B} {s : St B} {t : Tr Op Ans} (haccepted : ¬Accepted c s.ota)
    (hcall : c ≠ .apply ∧ c ≠ .cancel)
    (h : (api c s).wp (W.watched Staged i.Stops) t fun status s t =>
      status ≠ nxSuccess ∧ i.Holds s t)
    (hown : statuses ((api c s).own W t) = []) : Meets i (make W api above c s t) := by
  obtain ⟨hsat, hpoints⟩ := h.watched
  refine ⟨hsat.mono (fun _ _ _ h => h.2) fun _ _ h => h, hpoints, fun h => absurd h haccepted, ?_,
    fun h => absurd h haccepted, fun _ => hown, fun _ h => absurd h (not_or.mpr hcall)⟩
  intro _ status hres
  obtain ⟨status', hres', hne, -⟩ := hsat.ok (by
    rw [show ((api c s).run W t).res = .ok status from hres]
    rfl)
  cases hres.symm.trans hres'
  exact hne

theorem meets_cancel (fuel : Nat) {above : List (OtaCall × St B)} {i : Stage B} {s : St B}
    {t : Tr Op Ans} (h : i.Holds s t) : Meets i (make W (api fuel) above .cancel s t) := by
  by_cases hready : s.ota.firmwareReady = false
  · refine meets_of_done nxInvalidParameters s ?_ id h fun _ => ⟨rfl, rfl⟩
    show (if s.ota.firmwareReady = false then (pure nxInvalidParameters : M B UINT) else _) s = _
    rw [if_pos hready]
    rfl
  · cases i with
    | busy => exact absurd h.2.2.2 hready
    | idle =>
      refine meets_of_done nxSuccess (s.setOta
        ({ · with aduDriver := none, firmwareReady := false })) ?_ id ⟨h.1, fun _ => rfl⟩
          fun hf => absurd (h.2 hf) hready
      show (if s.ota.firmwareReady = false then (pure nxInvalidParameters : M B UINT) else _) s = _
      rw [if_neg hready]
      rfl

theorem meets_apply (hW : Hosts W) (fuel : Nat) {above : List (OtaCall × St B)} {i : Stage B}
    {s : St B} {t : Tr Op Ans} (h : i.Holds s t) :
    Meets i (make W (api fuel) above .apply s t) := by
  by_cases haccepted : Accepted .apply s.ota
  · have ⟨hdriver, hready⟩ := haccepted
    obtain ⟨ad, had⟩ := Option.ne_none_iff_exists'.mp hdriver
    have hok : ¬CommandFailed t := fun hf => Bool.noConfusion (hready.symm.trans (h.unready hf))
    cases i with
    | busy => exact Bool.noConfusion (hready.symm.trans h.2.2.2)
    | idle =>
      exact meets_of_commanded haccepted
        (spec_iotcOtaFwApply hW had hready s t ⟨rfl, rfl, h.1, hok⟩) h.2
  · refine meets_of_done nxInvalidParameters s ?_ haccepted h fun _ => ⟨rfl, rfl⟩
    show iotcOtaFwApply s = _
    unfold iotcOtaFwApply
    rw [Prog.get_bind]
    cases hdriver : s.ota.aduDriver with
    | none => rfl
    | some ad =>
      have hready : s.ota.firmwareReady = false :=
        Bool.eq_false_iff.mpr fun hr => haccepted ⟨by rw [hdriver]; exact nofun, hr⟩
      simp only [hready, if_true]
      rfl

/-- A rejected download clears the flag and reports a status. -/
theorem iotcOtaFwDownload_rejected (fuel : Nat) (r : Option IotConnectHttpRequest)
    (ad : Option Nat) (resume : Bool) (cb : Option Nat) {s : St B}
    (h : ¬Accepted (.download r ad resume cb) s.ota) :
    ∃ status, status ≠ nxSuccess ∧ iotcOtaFwDownload fuel r ad resume cb s =
      rejectFwDownload cb status (s.setOta ({ · with firmwareReady := false })) := by
  unfold iotcOtaFwDownload
  rw [Prog.modify_bind, Prog.get_bind, if_neg (fun h => nomatch h)]
  cases ad with
  | none => exact ⟨nxInvalidParameters, by decide, rfl⟩
  | some ad =>
    have hdriver : s.ota.aduDriver.isSome = true := by
      rw [Option.isSome_iff_ne_none]
      exact fun hn => h ⟨nofun, hn⟩
    exact ⟨nxNotSupported, by decide, congrFun (if_pos hdriver) _⟩

theorem iotcOtaFwDownload_accepted (fuel : Nat) (r : Option IotConnectHttpRequest) {ad : Nat}
    (resume : Bool) (cb : Option Nat) {s : St B} (h : s.ota.aduDriver = none) :
    iotcOtaFwDownload fuel r (some ad) resume cb s =
      acceptFwDownload fuel r ad resume cb (s.setOta ({ · with firmwareReady := false })) := by
  have hdriver : ¬s.ota.aduDriver.isSome = true := by rw [h]; nofun
  unfold iotcOtaFwDownload
  rw [Prog.modify_bind, Prog.get_bind, if_neg (fun h => nomatch h)]
  exact congrFun (if_neg hdriver) _

theorem meets_download (hW : Hosts W) (fuel : Nat) (r : Option IotConnectHttpRequest)
    (ad : Option Nat) (resume : Bool) (cb : Option Nat) {above : List (OtaCall × St B)}
    {i : Stage B} {s : St B} {t : Tr Op Ans} (h : i.Holds s t) :
    Meets i (make W (api fuel) above (.download r ad resume cb) s t) := by
  let s' := s.setOta ({ · with firmwareReady := false })
  by_cases haccepted : Accepted (.download r ad resume cb) s.ota
  · obtain ⟨had, hdriver⟩ := haccepted
    obtain ⟨ad, rfl⟩ := Option.ne_none_iff_exists'.mp had
    cases i with
    | busy =>
      have hsome := h.2.2.1
      rw [hdriver] at hsome
      cases hsome
    | idle =>
      refine meets_of_commanded ⟨had, hdriver⟩ ?_ h.2
      show (iotcOtaFwDownload fuel r (some ad) resume cb s).wp _ _ _
      rw [iotcOtaFwDownload_accepted fuel r resume cb hdriver]
      exact spec_acceptFwDownload hW fuel r ad resume cb s' t ⟨rfl, rfl, h.1⟩
  · obtain ⟨status, hne, hrun⟩ := iotcOtaFwDownload_rejected fuel r ad resume cb haccepted
    have h' : i.Holds s' t := by
      cases i with
      | idle => exact ⟨h.1, fun _ => rfl⟩
      | busy s0 xs =>
        have hsame : s' = s := by
          obtain ⟨dl, buffer, ⟨driver, ucb, adudr, ready⟩⟩ := s
          obtain rfl : ready = false := h.2.2.2
          rfl
        rw [hsame]
        exact h
    have hrun : api fuel (.download r ad resume cb) s = rejectFwDownload cb status s' := hrun
    refine meets_of_error haccepted ⟨nofun, nofun⟩ ?_ ?_
    · rw [hrun]
      refine Res.wp_mono (fun _ _ _ h => ?_) (spec_rejectFwDownload hW cb status s' t h')
      exact ⟨h.1.symm ▸ hne, h.2⟩
    · rw [hrun]
      exact statuses_rejectFwDownload cb status s' t

theorem meets_api (hW : Hosts W) (fuel : Nat) (c : OtaCall) {above : List (OtaCall × St B)}
    {i : Stage B} {s : St B} {t : Tr Op Ans} (h : i.Holds s t) :
    Meets i (make W (api fuel) above c s t) := by
  cases c with
  | download r ad resume cb => exact meets_download hW fuel r ad resume cb h
  | apply => exact meets_apply hW fuel h
  | cancel => exact meets_cancel fuel h

end

/-- **A failed command is contained.** In every session, at every depth of calls from inside the
user's callback: from a failed command on nothing but the end of the download happens until a
download initialises its driver anew, and each call made does its part. -/
theorem failure_contained (fuel : Nat) (ans : Tr Op Ans → (op : Op) → Ans op)
    (calls : Tr Op Ans → Op → List OtaCall) (d : Nat) (cs : List OtaCall) :
    let api := api (B := B) fuel
    Contained ((session api cs).run (.nested api ans reent calls d) (.init B) []).tr ∧
      ∀ x ∈ made api ans reent calls d [] cs (.init B) [], Contains x := by
  intro api
  have hinit : Stage.idle.Holds (.init B) [] := ⟨.nil, fun _ => rfl⟩
  have hrun : _ ∧ ∀ x ∈ made api ans reent calls d [] cs (.init B) [], Contains x :=
    made_all (I := fun (i : Stage B) _ => i.Holds) (E := Stage.Stops)
      (fun W hcalm hlets i above c s t h =>
        meets_api ⟨hcalm, fun op i s t => hlets op i above s t⟩ fuel c h) d cs hinit
  refine ⟨?_, hrun.2⟩
  have hsat := hrun.1
  generalize (session api cs).run (.nested api ans reent calls d) (.init B) [] = o at hsat
  obtain ⟨_ | _, s, t⟩ := o <;> exact hsat.1

end Iotc.Ota
