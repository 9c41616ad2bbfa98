import Iotc.Ota.Rules

/-!
# What the user sees of a download

The OTA client commands the driver and tells its user. `Streamed` says how the two go together in
a call: each FILE_SIZE and DATA event comes right after the command that the driver accepted, and
the status that the call returns comes last. `stream_iff`: that is so in every call except where
the driver refuses to be initialised, of which the user is told nothing.
-/

namespace Iotc.Ota

open Iotc.C Iotc.Resume Iotc.Web

variable {B : Build}

/-! ## Dialogues -/

/-- The calls of the driver and of the user. -/
def dialogue (u : Tr Op Ans) : Tr Op Ans := u.filter fun ev => !ev.1.silent

/-- The event that passes on a command: of the same size, data and offset. -/
inductive PassesOn : AduDriverRequest → IotConnectDownloadEvent → Prop where
  | fileSize (fileSize : SizeT) : PassesOn (preprocessRequest fileSize) (.fileSize fileSize)
  | data (dataPtr : List UInt8) (dataSize offset fileSize : SizeT) :
    PassesOn (writeRequest dataPtr dataSize offset) (.data dataPtr dataSize offset fileSize)

/-- Commands of the driver `ad`: a refused one by itself, an accepted one followed by its event. -/
inductive Relayed (ad : Option Nat) (cb : Nat) : Tr Op Ans → Prop where
  | nil : Relayed ad cb []
  | refused {v : Tr Op Ans} {a : Nat} {req : AduDriverRequest} {evt : IotConnectDownloadEvent}
    {status : UINT} : Relayed ad cb v → a ∈ ad → PassesOn req evt → status ≠ nxSuccess →
    Relayed ad cb (v ++ [⟨.aduDriver a req, status⟩])
  | accepted {v : Tr Op Ans} {a : Nat} {req : AduDriverRequest} {evt : IotConnectDownloadEvent}
    {goOn : Bool} : Relayed ad cb v → a ∈ ad → PassesOn req evt →
    Relayed ad cb (v ++ [⟨.aduDriver a req, nxSuccess⟩, ⟨.userDownloadCb cb evt, goOn⟩])

abbrev initializeRequest : AduDriverRequest := { command := .driverInitialize }

/-- A command to initialise the driver. -/
def Initialises (ad : Option Nat) (ev : Ev Op Ans) : Prop :=
  ∃ a ∈ ad, ∃ status : UINT, ev = ⟨.aduDriver a initializeRequest, status⟩

/-- The dialogue of a call under way. -/
def Streaming (ad : Option Nat) (cb : Nat) (w : Tr Op Ans) : Prop :=
  ∃ init v, w = init ++ v ∧ (∀ ev ∈ init, Initialises ad ev) ∧ Relayed ad cb v

/-- The dialogue of a call that returns `status`. -/
def Streamed (ad : Option Nat) (cb : Nat) (status : UINT) (w : Tr Op Ans) : Prop :=
  ∃ v goOn, w = v ++ [⟨.userDownloadCb cb (.status status), goOn⟩] ∧ Streaming ad cb v

/-- What the stream is to be in a call from the trace `t`, whether it returns or not. -/
def StreamRight (ad : Option Nat) (cb : Nat) (t : Tr Op Ans) (o : Out Op Ans (St B) UINT) : Prop :=
  o.Sat (fun status _ t' => Streamed ad cb status (dialogue (t'.drop t.length)))
    fun _ t' => Streaming ad cb (dialogue (t'.drop t.length))

/-- The status that the user is told by an event. -/
def toldStatus : Ev Op Ans → Option UINT
  | ⟨.userDownloadCb _ (.status status), _⟩ => some status
  | _ => none

theorem Relayed.statuses {ad : Option Nat} {cb : Nat} {v : Tr Op Ans} (h : Relayed ad cb v) :
    v.filterMap toldStatus = [] := by
  induction h with
  | nil => rfl
  | refused _ _ _ _ ih => rw [List.filterMap_append, ih]; rfl
  | accepted _ _ hreq ih =>
    rw [List.filterMap_append, ih]
    cases hreq <;> rfl

theorem Streaming.statuses {ad : Option Nat} {cb : Nat} {w : Tr Op Ans} (h : Streaming ad cb w) :
    w.filterMap toldStatus = [] := by
  obtain ⟨init, v, rfl, hinit, hv⟩ := h
  rw [List.filterMap_append, hv.statuses, List.append_nil, List.filterMap_eq_nil_iff]
  intro ev hev
  obtain ⟨a, -, status, rfl⟩ := hinit ev hev
  rfl

/-- One status is told. -/
theorem Streamed.statuses {ad : Option Nat} {cb : Nat} {status : UINT} {w : Tr Op Ans}
    (h : Streamed ad cb status w) : w.filterMap toldStatus = [status] := by
  obtain ⟨v, goOn, rfl, hv⟩ := h
  rw [List.filterMap_append, hv.statuses]
  rfl

theorem dialogue_append (u v : Tr Op Ans) : dialogue (u ++ v) = dialogue u ++ dialogue v :=
  List.filter_append ..

theorem dialogue_silent {op : Op} (h : op.silent = true) (u : Tr Op Ans) (a : Ans op) :
    dialogue (u ++ [⟨op, a⟩]) = dialogue u := by
  simp [dialogue, h]

/-! ## The handler -/

section
variable {a cb : Nat} {h : Option Handler}

/-- The client works for the driver `a` and the user `cb`, and the download client for `h`. -/
structure Relays (a cb : Nat) (h : Option Handler) (s : St B) (u : Tr Op Ans) : Prop where
  driver : s.ota.aduDriver = some a
  user : s.ota.userDownloadCb = some cb
  event_cb : s.dl.eventCb = h
  stream : Streaming (some a) cb (dialogue u)

/-- The status has been told. -/
def Told (a cb : Nat) (status : UINT) (_ : St B) (u : Tr Op Ans) : Prop :=
  Streamed (some a) cb status (dialogue u)

abbrev streamLogic (ad : Option Nat) (cb : Nat) : Logic Op Ans (St B) (Tr Op Ans) :=
  .added fun _ u => Streaming ad cb (dialogue u)

theorem Streaming.refused {ad : Option Nat} {w : Tr Op Ans} {req : AduDriverRequest}
    {evt : IotConnectDownloadEvent} {status : UINT} (h : Streaming ad cb w) (ha : a ∈ ad)
    (hreq : PassesOn req evt) (hstatus : status ≠ nxSuccess) :
    Streaming ad cb (w ++ [⟨.aduDriver a req, status⟩]) := by
  obtain ⟨init, v, rfl, hinit, hv⟩ := h
  exact ⟨init, _, List.append_assoc .., hinit, hv.refused ha hreq hstatus⟩

theorem Streaming.accepted {ad : Option Nat} {w : Tr Op Ans} {req : AduDriverRequest}
    {evt : IotConnectDownloadEvent} {goOn : Bool} (h : Streaming ad cb w) (ha : a ∈ ad)
    (hreq : PassesOn req evt) :
    Streaming ad cb (w ++ [⟨.aduDriver a req, nxSuccess⟩, ⟨.userDownloadCb cb evt, goOn⟩]) := by
  obtain ⟨init, v, rfl, hinit, hv⟩ := h
  exact ⟨init, _, List.append_assoc .., hinit, hv.accepted ha hreq⟩

theorem Relays.silent {s : St B} {u : Tr Op Ans} (hs : Relays a cb h s u) {op : Op}
    (hop : op.silent = true) (answer : Ans op) : Relays a cb h s (u ++ [⟨op, answer⟩]) := by
  refine { hs with stream := ?_ }
  rw [dialogue_silent hop]
  exact hs.stream

/-- Telling the user the status ends the dialogue. -/
theorem spec_tell {ad : Option Nat} {P : St B → Tr Op Ans → Prop} (status : UINT)
    (hP : ∀ s u, P s u → Streaming ad cb (dialogue u)) :
    (streamLogic ad cb).Spec P (userDownloadCb cb (.status status)) fun _ _ u =>
      Streamed ad cb status (dialogue u) :=
  .of_call fun s u hs goOn => ⟨dialogue u, goOn, dialogue_append .., hP s u hs⟩

/-- The driver has answered to `req`. -/
def DriverAnswers (a cb : Nat) (h : Option Handler) (req : AduDriverRequest) (status : UINT)
    (s : St B) (u : Tr Op Ans) : Prop :=
  ∃ v, u = v ++ [⟨.aduDriver a req, status⟩] ∧ Relays a cb h s v

theorem spec_stream_sendAduDriver (req : AduDriverRequest) :
    (streamLogic (some a) cb).Spec (Relays (B := B) a cb h) (sendAduDriver req)
      (DriverAnswers a cb h req) := by
  refine .bind_get (φ := fun s => s.ota.aduDriver = some a) (fun s u hs => hs.driver) fun s hs => ?_
  rw [hs]
  refine .bind (Q := DriverAnswers a cb h req) (.of_call fun s u hs status => ⟨u, rfl, hs⟩)
    fun status => ?_
  refine .bind (Q := fun _ => DriverAnswers a cb h req status) (.modify ?_) fun _ =>
    .pure fun s u hs => hs
  rintro s u ⟨v, hu, hs⟩
  exact ⟨v, hu, { hs with }⟩

/-- An event of the file is relayed. -/
theorem spec_relay {req : AduDriverRequest} {evt : IotConnectDownloadEvent}
    (hreq : PassesOn req evt) :
    (streamLogic (some a) cb).Spec (Relays (B := B) a cb h) (otaFwDownloadHandler evt)
      fun _ => Relays a cb h := by
  have hcommand : driverCommand (B := B) evt = sendAduDriver req := by cases hreq <;> rfl
  unfold otaFwDownloadHandler
  rw [hcommand]
  refine .bind (spec_stream_sendAduDriver req) fun status =>
    .ite (fun hne => .pure ?_) fun heq => ?_
  · rintro s u ⟨v, rfl, hs⟩
    refine { hs with stream := ?_ }
    rw [dialogue_append]
    exact hs.stream.refused rfl hreq hne
  · obtain rfl : status = nxSuccess := Classical.not_not.mp heq
    refine .bind_get (φ := fun s => s.ota.userDownloadCb = some cb) ?_ fun s hs => ?_
    · rintro s u ⟨v, -, hs⟩
      exact hs.user
    rw [hs]
    refine .of_call ?_
    rintro s u ⟨v, rfl, hs⟩ goOn
    refine { hs with stream := ?_ }
    show Streaming _ _ (dialogue ((v ++ [_]) ++ [_]))
    rw [List.append_assoc, dialogue_append]
    exact hs.stream.accepted rfl hreq

theorem spec_relayStatus (status : UINT) :
    (streamLogic (some a) cb).Spec (Relays (B := B) a cb h)
      (callHandler .otaFwDownloadHandler (.status status)) fun _ => Told a cb status := by
  refine .bind (Q := fun driver s u => driver = nxSuccess ∧ Relays a cb h s u)
    (.pure fun s u hs => ⟨rfl, hs⟩) fun driver => .of_imp fun hdriver => ?_
  refine .ite (fun hne => absurd hdriver hne) fun _ => ?_
  refine .bind_get (φ := fun s => s.ota.userDownloadCb = some cb) (fun s u hs => hs.user)
    fun s hs => ?_
  rw [hs]
  exact spec_tell status fun s u hs => hs.stream

/-! ## The download -/

/-- The download client works for the OTA client. -/
abbrev Listens (a cb : Nat) : St B → Tr Op Ans → Prop :=
  Relays a cb (some .otaFwDownloadHandler)

theorem spec_listens_fireEvent {evt : IotConnectDownloadEvent}
    {Q : Bool → St B → Tr Op Ans → Prop}
    (hevt : (streamLogic (some a) cb).Spec (Listens a cb)
      (callHandler .otaFwDownloadHandler evt) Q) :
    (streamLogic (some a) cb).Spec (Listens a cb) (fireEvent evt) Q := by
  refine .bind_get (φ := fun s => s.dl.eventCb = some .otaFwDownloadHandler)
    (fun s u hs => hs.event_cb) fun s hs => ?_
  rw [hs]
  exact hevt

theorem steady_listens : Steady (streamLogic (B := B) (some a) cb) (Listens a cb) := by
  refine .of_silent (fun op hop => .of_call fun s u hs answer => hs.silent hop answer)
    (fun s u _ _ _ _ _ hs => { hs with }) (fun s u hs => hs.stream) fun evt hevt => ?_
  refine spec_listens_fireEvent ?_
  cases evt with
  | fileSize n => exact spec_relay (.fileSize n)
  | data dataPtr dataSize offset fileSize =>
    exact spec_relay (.data dataPtr dataSize offset fileSize)
  | unknown | status _ => cases hevt

/-- A download of the OTA client tells its user everything. -/
theorem spec_stream_iotcDownload (fuel : Nat) (r : Option IotConnectHttpRequest) (resume : Bool) :
    (streamLogic (some a) cb).Spec (Relays (B := B) a cb h)
      (iotcDownload fuel r (some .otaFwDownloadHandler) resume) (Told a cb) := by
  refine Web.spec_iotcDownload (J := Listens a cb) (K := fun _ => Listens a cb) (T := Told a cb)
    (fun status _ => .bind (spec_relayStatus status) fun _ => .pure fun s u hs => hs)
    (fun s u _ hs => { hs with event_cb := rfl }) (fun r => ?_)
    (fun status => spec_listens_fireEvent (spec_relayStatus status)) (fun status s u hs => hs) r
  exact spec_iotconnectHttpsRequest (fun op hop => .of_call fun s u hs answer =>
      hs.silent (Op.silent_of_connection hop) answer)
    (fun s u _ hs => { hs with }) (fun _ => .of_call fun s u hs answer => hs.silent rfl answer)
    (fun _ s u _ hs => hs) r (steady_listens.requestHandler fuel r {})

end

/-! ## The call -/

theorem streaming_nil (ad : Option Nat) (cb : Nat) : Streaming ad cb (dialogue []) :=
  ⟨[], [], rfl, nofun, .nil⟩

theorem spec_stream_reject (ad : Option Nat) (cb : Nat) (status : UINT) :
    (streamLogic (B := B) ad cb).Spec (fun _ u => u = []) (rejectFwDownload (some cb) status)
      fun ret _ u => Streamed ad cb ret (dialogue u) := by
  refine .bind (spec_tell status ?_) fun _ => .pure fun s u h => h
  rintro s u rfl
  exact streaming_nil ad cb

/-- The driver `a` was asked to initialise, and refused. -/
def Refuses (a : Nat) (status : UINT) (u : Tr Op Ans) : Prop :=
  status ≠ nxSuccess ∧ u = [⟨.aduDriver a initializeRequest, status⟩]

theorem spec_stream_accept (fuel : Nat) (r : Option IotConnectHttpRequest) (a : Nat)
    (resume : Bool) (cb : Nat) :
    (streamLogic (B := B) (some a) cb).Spec (fun _ u => u = [])
      (acceptFwDownload fuel r a resume (some cb)) fun status _ u =>
        Streamed (some a) cb status (dialogue u) ∨ Refuses a status u := by
  let initialised : UINT → St B → Tr Op Ans → Prop := fun status _ u =>
    u = [⟨.aduDriver a initializeRequest, status⟩]
  refine rule_acceptFwDownload (K := initialised) (J := fun s u => ∃ h, Relays a cb h s u)
    (T := Told a cb)
    (rule_sendDriver (K := initialised) (.of_call fun s u hu status => ?_) fun _ s u hu => hu)
    (fun status s u hne hu => .inr ⟨hne, hu⟩) (fun s u hu => ?_)
    (.of_exists fun h => spec_stream_iotcDownload fuel r resume) (fun s u h => .inl h)
    fun _ s u h => .inl h
  · rw [hu]
    rfl
  · refine ⟨s.dl.eventCb, rfl, rfl, rfl, _, [], (List.append_nil _).symm, ?_, .nil⟩
    intro ev hev
    rw [show u = _ from hu] at hev
    exact ⟨a, rfl, _, List.mem_singleton.mp hev⟩

theorem spec_stream_download (fuel : Nat) (r : Option IotConnectHttpRequest) (ad : Option Nat)
    (resume : Bool) (cb : Nat) (s0 : St B) :
    (streamLogic ad cb).Spec (fun s u => s = s0 ∧ u = [])
      (iotcOtaFwDownload fuel r ad resume (some cb)) fun status _ u =>
        Streamed ad cb status (dialogue u) ∨
          ∃ a ∈ ad, s0.ota.aduDriver = none ∧ Refuses a status u := by
  have hreject : ∀ status, (streamLogic (B := B) ad cb).Spec
      (fun s u => s.ota.aduDriver = s0.ota.aduDriver ∧ u = [])
      (rejectFwDownload (some cb) status) fun status _ u =>
        Streamed ad cb status (dialogue u) ∨
          ∃ a ∈ ad, s0.ota.aduDriver = none ∧ Refuses a status u := fun status =>
    (spec_stream_reject ad cb status).conseq (fun s u h => h.2) fun _ s u h => .inl h
  refine .bind (Q := fun _ s u => s.ota.aduDriver = s0.ota.aduDriver ∧ u = []) (.modify ?_)
    fun _ => ?_
  · rintro s u ⟨rfl, hu⟩
    exact ⟨rfl, hu⟩
  refine .bind_get (φ := fun s => s.ota.aduDriver = s0.ota.aduDriver) (fun s u h => h.1)
    fun s hs => .ite (fun _ => hreject _) fun _ => ?_
  cases ad with
  | none => exact hreject _
  | some a =>
    refine .ite (fun _ => hreject _) fun hfree => ?_
    rw [hs, Option.not_isSome_iff_eq_none] at hfree
    refine (spec_stream_accept fuel r a resume cb).conseq (fun s u h => h.2)
      fun status s u h => ?_
    exact h.imp_right fun hrefuses => ⟨a, rfl, hfree, hrefuses⟩

section
variable (fuel : Nat) (r : Option IotConnectHttpRequest) (ad : Option Nat) (resume : Bool)
  (cb : Nat) (ans : Tr Op Ans → (op : Op) → Ans op) (s : St B) (t : Tr Op Ans)

/-- A call whose driver refuses returns the driver's status and does nothing else. -/
theorem run_refused {a : Nat} (hfree : s.ota.aduDriver = none)
    (hrefuses : ans t (.aduDriver a initializeRequest) ≠ nxSuccess) :
    ∃ s', (iotcOtaFwDownload fuel r (some a) resume (some cb)).run (.sequential ans) s t =
      ⟨.ok (ans t (.aduDriver a initializeRequest)), s',
        t ++ [⟨.aduDriver a initializeRequest, ans t (.aduDriver a initializeRequest)⟩]⟩ := by
  have hsend : ∀ s : St B, ∃ s',
      (sendDriver a initializeRequest).run (.sequential ans) s t =
        ⟨.ok (ans t (.aduDriver a initializeRequest)), s',
          t ++ [⟨.aduDriver a initializeRequest, ans t (.aduDriver a initializeRequest)⟩]⟩ :=
    fun s => ⟨_, rfl⟩
  obtain ⟨s', hs'⟩ := hsend (s.setOta ({ · with firmwareReady := false }))
  refine ⟨s', ?_⟩
  simp [iotcOtaFwDownload, acceptFwDownload, hfree, hs', hrefuses]

theorem stream_iff :
    StreamRight ad cb t
        ((iotcOtaFwDownload fuel r ad resume (some cb)).run (.sequential ans) s t) ↔
      ∀ a ∈ ad, s.ota.aduDriver = none →
        ans t (.aduDriver a initializeRequest) = nxSuccess := by
  constructor
  · rintro h a rfl hfree
    by_contra hrefuses
    obtain ⟨s', hrun⟩ := run_refused fuel r resume cb ans s t hfree hrefuses
    rw [hrun] at h
    have hstatuses := Streamed.statuses h
    rw [List.drop_left] at hstatuses
    cases hstatuses
  · intro haccepts
    have hsat := (spec_stream_download fuel r ad resume cb s).added_sat ans ⟨rfl, rfl⟩ t
    obtain ⟨u, hu⟩ :=
      Prog.run_grows (.sequential ans) s t (iotcOtaFwDownload fuel r ad resume (some cb))
    have halong := Res.run_answers _ hu
    change Out.Sat ((iotcOtaFwDownload fuel r ad resume (some cb)).run (.sequential ans) s t) _ _
      at hsat
    generalize (iotcOtaFwDownload fuel r ad resume (some cb)).run (.sequential ans) s t = o
      at hsat hu ⊢
    obtain ⟨status | status, s', t'⟩ := o
    · exact hsat
    · obtain rfl : t' = t ++ u := hu
      rcases hsat with hstreamed | ⟨a, ha, hfree, hne, hevents⟩
      · exact hstreamed
      · rw [List.drop_left] at hevents
        rw [hevents] at halong
        exact absurd ((along_single.mp halong).trans (haccepts a ha hfree)) hne

end

/-- A driver that cannot be initialised. -/
def brokenDriver : (op : Op) → Ans op
  | .aduDriver .. => 1
  | op => allGood (headOf "1") (chunkOf [7]) op

/-- The user is not told of a driver that cannot be initialised. -/
theorem refusal_untold :
    ¬ StreamRight (some 1) 7 []
      ((iotcOtaFwDownload 1 (some fileRequest) (some 1) false (some 7)).run
        (.sequential fun _ => brokenDriver) (St.init .default) []) := by
  intro h
  exact absurd (Streamed.statuses h) (by decide +kernel)

end Iotc.Ota
