import Iotc.Ota.Rules

/-!
# The driver pointer and the ready flag

`adu_driver` and `firmware_ready` encode one state. An application is `disciplined` that asks
for no download while a firmware is ready. For its sessions, to any depth of calls from inside
the user's callback, the two variables agree whenever no call is executing
(`never_wedged`); an undisciplined one can leave a driver that nothing releases
(`download_when_ready_wedges`).
-/

namespace Iotc.Ota

open Iotc.C Iotc.Resume Iotc.Web

variable {B : Build}

/-! ## Downloads keep the OTA client's variables -/

section
variable {W : World Op Ans (St B)} {I : OtaStatics → Prop}

/-- An assertion on the OTA client's variables, and the trivial ones. -/
abbrev OfOta (I : OtaStatics → Prop) : St B → Tr Op Ans → Prop := fun s _ => I s.ota

abbrev Any : Tr Op Ans → Ev Op Ans → Prop := fun _ _ => True

/-- Whatever runs while the application's callback is pending keeps `I`, and so does a change of
the request sent to the driver. -/
structure Keeps (W : World Op Ans (St B)) (I : OtaStatics → Prop) : Prop where
  calm : Calm W
  lets : ∀ op, W.Lets Any (fun _ _ => True) op (OfOta I) (OfOta I)
  adudr : ∀ o adudr, I o → I { o with adudr }

theorem OfOta.stable : Stable (OfOta (B := B) I) :=
  ⟨fun _ _ _ _ _ h => h, fun _ _ _ _ h => h, fun _ _ _ h => h⟩

theorem Keeps.call (h : Keeps W I) (op : Op) :
    Triple W Any (fun _ _ => True) (OfOta I) (Prog.call op) fun _ => OfOta I :=
  .call (h.lets op) fun _ _ _ h _ => h

/-- The driver does not call back. -/
theorem triple_sendDriver (hW : Calm W) (hI : ∀ o adudr, I o → I { o with adudr }) (ad : Nat)
    (req : AduDriverRequest) :
    Triple W Any (fun _ _ => True) (OfOta I) (sendDriver ad req) fun _ => OfOta I :=
  rule_sendDriver (K := fun _ => OfOta I) (.call_quiet (hW _ rfl) fun _ _ _ h _ => h)
    fun _ s _ hs => hI s.ota _ hs

theorem Keeps.callHandler (h : Keeps W I) (handler : Handler) (evt : IotConnectDownloadEvent) :
    Triple W Any (fun _ _ => True) (OfOta I) (callHandler handler evt) fun _ => OfOta I :=
  spec_callHandler (fun op _ => h.call op) (fun s _ => h.adudr s.ota) (fun _ _ _ => trivial)
    handler evt

theorem Keeps.fireEvent (h : Keeps W I) (evt : IotConnectDownloadEvent) :
    Triple W Any (fun _ _ => True) (OfOta I) (fireEvent evt) fun _ => OfOta I :=
  spec_fireEvent (fun op _ => h.call op) (fun s _ => h.adudr s.ota) (fun _ _ _ => trivial) evt

theorem Keeps.steady (h : Keeps W I) :
    Steady (W.logic Any fun _ _ => True) (OfOta (B := B) I) :=
  .of_silent (fun op _ => h.call op) (fun _ _ _ _ _ _ _ h => h) (fun _ _ _ => trivial)
    fun evt _ => h.fireEvent evt

/-- A download leaves the OTA client's variables to the calls made from inside its callbacks. -/
theorem Keeps.iotcDownload (h : Keeps W I) (fuel : Nat) (r : Option IotConnectHttpRequest)
    (handler : Handler) (resume : Bool) :
    Triple W Any (fun _ _ => True) (OfOta I) (iotcDownload fuel r (some handler) resume)
      fun _ => OfOta I := by
  exact Web.spec_iotcDownload (J := OfOta I) (K := fun _ => OfOta I) (T := fun _ => OfOta I)
    (fun _ _ => .bind (h.callHandler handler _) fun _ => .pure fun _ _ h => h)
    (fun _ _ _ h => h) (fun r => triple_iotconnectHttpsRequest h.calm.logic OfOta.stable
      (fun _ => OfOta.stable.delete) (fun _ _ _ _ h => h) r (h.steady.requestHandler fuel r {}))
    (fun _ => h.fireEvent _) (fun _ _ _ h => h) r

end

/-! ## Disciplined applications -/

def OtaCall.isDownload : OtaCall → Bool
  | .download .. => true
  | _ => false

/-- A call by an application that asks for no download while a firmware is ready. -/
def disciplined (fuel : Nat) (c : OtaCall) : M B (Option UINT) := do
  let s ← .get
  if c.isDownload ∧ s.ota.firmwareReady then
    return none
  let status ← api fuel c
  return some status

/-- The client is between two downloads, or inside one. -/
inductive Phase where
  | idle
  | busy

/-- Between downloads there is a driver exactly when a firmware is ready; inside a download there
is a driver and no firmware is ready. -/
def InPhase : Phase → OtaStatics → Prop
  | .idle, o => o.aduDriver.isSome = o.firmwareReady
  | .busy, o => o.aduDriver.isSome = true ∧ o.firmwareReady = false

theorem InPhase.idle_of_unready {o : OtaStatics} (hdriver : o.aduDriver = none)
    (hready : o.firmwareReady = false) : InPhase .idle o := by
  show o.aduDriver.isSome = o.firmwareReady
  rw [hdriver, hready]
  rfl

section
variable {W : World Op Ans (St B)}

theorem Keeps.rejectFwDownload {I : OtaStatics → Prop} (h : Keeps W I) (cb : Option Nat)
    (status : UINT) :
    Triple W Any (fun _ _ => True) (OfOta I) (rejectFwDownload cb status) fun _ => OfOta I := by
  cases cb with
  | none => exact .pure fun _ _ h => h
  | some cb => exact .bind (h.call _) fun _ => .pure fun _ _ h => h

/-- A download asked for while no firmware is ready keeps the phase. -/
theorem triple_download_phase (h : ∀ p, Keeps W (InPhase p)) (p : Phase) (fuel : Nat)
    (r : Option IotConnectHttpRequest) (ad : Option Nat) (resume : Bool) (cb : Option Nat) :
    Triple W Any (fun _ _ => True)
      (OfOta fun o => InPhase p o ∧ o.firmwareReady = false)
      (iotcOtaFwDownload fuel r ad resume cb) fun _ => OfOta (InPhase p) := by
  refine .bind (Q := fun _ => OfOta fun o => InPhase p o ∧ o.firmwareReady = false)
    (.modify fun s _ hs => ?_) fun _ => ?_
  · cases p with
    | idle => exact ⟨hs.1.trans hs.2, rfl⟩
    | busy => exact ⟨⟨hs.1.1, rfl⟩, rfl⟩
  have hreject : ∀ status, Triple W Any (fun _ _ => True)
      (OfOta fun o => InPhase p o ∧ o.firmwareReady = false) (rejectFwDownload cb status)
      fun _ => OfOta (InPhase p) := fun status =>
    ((h p).rejectFwDownload cb status).pre fun _ _ hs => hs.1
  refine .bind_get_eq fun s0 => .ite (fun _ => (hreject _).pre fun _ _ hs => hs.2) fun _ => ?_
  cases ad with
  | none => exact (hreject _).pre fun _ _ hs => hs.2
  | some ad =>
  refine .ite (fun _ => (hreject _).pre fun _ _ hs => hs.2) fun hfree => ?_
  have hfree : s0.ota.aduDriver = none := by simpa using hfree
  cases p with
  | busy =>
    rintro s t ⟨rfl, hs⟩
    rw [OfOta, InPhase, hfree] at hs
    exact absurd hs.1.1 (by decide)
  | idle =>
    refine rule_acceptFwDownload (J := OfOta (InPhase .busy)) (T := fun _ => OfOta (InPhase .busy))
      ((triple_sendDriver (I := fun o => o.aduDriver = none ∧ o.firmwareReady = false)
        (h .idle).calm (fun _ _ h => h) ad _).pre ?_)
      (fun _ s t _ hs => .idle_of_unready hs.1 hs.2) (fun s t hs => ⟨rfl, hs.2⟩)
      ((h .busy).iotcDownload fuel r _ resume) (fun s t hs => hs.1)
      fun _ s t hs => .idle_of_unready rfl hs.2
    rintro s t ⟨rfl, hs⟩
    exact ⟨hfree, hs.2⟩

theorem triple_apply_phase (h : ∀ p, Keeps W (InPhase p)) (p : Phase) :
    Triple W Any (fun _ _ => True) (OfOta (InPhase p)) (iotcOtaFwApply (B := B))
      fun _ => OfOta (InPhase p) := by
  refine .bind_get_eq fun s0 => ?_
  cases had : s0.ota.aduDriver with
  | none => exact .pure fun _ _ hs => hs.2
  | some ad =>
  refine .ite (fun _ => .pure fun _ _ hs => hs.2) fun hready => ?_
  cases p with
  | busy =>
    rintro s t ⟨rfl, hs⟩
    exact absurd hs.2 hready
  | idle =>
    have hend : ∀ status : UINT, Triple W Any (fun _ _ => True) (OfOta (InPhase .idle)) (do
        .modify (·.setOta ({ · with aduDriver := none, firmwareReady := false }))
        return status : M B UINT) fun _ => OfOta (InPhase .idle) := fun status =>
      .bind (Q := fun _ => OfOta (InPhase .idle)) (.modify fun s t hs => .idle_of_unready rfl rfl)
        fun _ => .pure fun _ _ h => h
    have hsend := triple_sendDriver (h .idle).calm (h .idle).adudr ad
    refine .bind ((hsend _).pre fun s t hs => hs.2) fun status => .ite (fun _ => hend _) fun _ => ?_
    exact .bind (hsend _) hend

theorem triple_cancel_phase (p : Phase) :
    Triple W Any (fun _ _ => True) (OfOta (InPhase p)) (iotcOtaFwCancel (B := B))
      fun _ => OfOta (InPhase p) := by
  refine .bind_get_eq fun s0 => .ite (fun _ => .pure fun _ _ hs => hs.2) fun hready => ?_
  cases p with
  | busy =>
    rintro s t ⟨rfl, hs⟩
    exact absurd hs.2 hready
  | idle =>
    exact .bind (Q := fun _ => OfOta (InPhase .idle))
      (.modify fun s t _ => .idle_of_unready rfl rfl)
      fun _ => .pure fun _ _ h => h

/-- A call by a disciplined application keeps the phase. -/
theorem triple_disciplined (h : ∀ p, Keeps W (InPhase p)) (p : Phase) (fuel : Nat) (c : OtaCall) :
    Triple W Any (fun _ _ => True) (OfOta (InPhase p)) (disciplined fuel c)
      fun _ => OfOta (InPhase p) := by
  refine .bind_get_eq fun s0 => .ite (fun _ => .pure fun _ _ hs => hs.2) fun hmade => ?_
  cases c with
  | apply =>
    exact .bind ((triple_apply_phase h p).pre fun _ _ hs => hs.2) fun _ => .pure fun _ _ h => h
  | cancel =>
    exact .bind ((triple_cancel_phase p).pre fun _ _ hs => hs.2) fun _ => .pure fun _ _ h => h
  | download r ad resume cb =>
    refine .bind ((triple_download_phase h p fuel r ad resume cb).pre ?_) fun _ =>
      .pure fun _ _ h => h
    rintro s t ⟨rfl, hs⟩
    exact ⟨hs, by simpa [OtaCall.isDownload] using hmade⟩

end

/-! ## Rejection, acceptance, cancellation -/

/-- A rejected download call does nothing but report to its callback. -/
theorem run_iotcOtaFwDownload_rejected (fuel : Nat) (r : Option IotConnectHttpRequest)
    (ad : Option Nat) (resume : Bool) (cb : Option Nat) (W : World Op Ans (St B)) {s : St B}
    (t : Tr Op Ans) (hready : s.ota.firmwareReady = false)
    (hrejected : ad = none ∨ s.ota.aduDriver.isSome) :
    ∃ status, status ≠ nxSuccess ∧ (iotcOtaFwDownload fuel r ad resume cb).run W s t =
      (rejectFwDownload cb status).run W s t := by
  have hsame : s.setOta ({ · with firmwareReady := false }) = s := by
    obtain ⟨dl, buffer, ⟨driver, ucb, adudr, ready⟩⟩ := s
    obtain rfl : ready = false := hready
    rfl
  unfold iotcOtaFwDownload
  rw [run_bind, run_modify, Out.bind_ok, hsame, run_bind, run_get, Out.bind_ok, run_ite,
    if_neg (by rw [hready]; decide)]
  cases ad with
  | none => exact ⟨nxInvalidParameters, by decide, rfl⟩
  | some ad =>
    obtain hdriver := hrejected.resolve_left nofun
    exact ⟨nxNotSupported, by decide, by rw [run_ite, if_pos hdriver]⟩

/-- The callback aside, a rejection leaves everything as it is. -/
theorem run_rejectFwDownload_st (ans : Tr Op Ans → (op : Op) → Ans op) (cb : Option Nat)
    (status : UINT) (s : St B) (t : Tr Op Ans) :
    ((rejectFwDownload cb status).run (.sequential ans) s t).st = s := by
  cases cb <;> rfl

/-- A well-formed download call made in `s` gets as far as initialising its driver. -/
def Accepts (s : St B) : Prop :=
  ∀ fuel r ad resume cb (ans : Tr Op Ans → (op : Op) → Ans op) t, ∃ status u,
    ((iotcOtaFwDownload fuel r (some ad) resume cb).run (.sequential ans) s t).tr =
      t ++ ⟨.aduDriver ad { command := .driverInitialize }, status⟩ :: u

def Cancels (s : St B) : Prop :=
  ∀ (W : World Op Ans (St B)) t, (iotcOtaFwCancel.run W s t).res = .ok nxSuccess

theorem accepts_of_no_driver {s : St B} (hdriver : s.ota.aduDriver = none) : Accepts s := by
  intro fuel r ad resume cb ans t
  have hW := World.sequential_quiet (σ := St B) ans
  let s' := s.setOta ({ · with firmwareReady := false })
  have hrun : (iotcOtaFwDownload fuel r (some ad) resume cb).run (.sequential ans) s t =
      (acceptFwDownload fuel r ad resume cb).run (.sequential ans) s' t := by
    unfold iotcOtaFwDownload
    rw [run_bind, run_modify, Out.bind_ok, run_bind, run_get, Out.bind_ok, run_ite,
      if_neg (by simp), run_ite, if_neg (by simp [hdriver])]
  have hsend : (sendDriver ad { command := .driverInitialize } : M B UINT).run (.sequential ans)
      s' t = ⟨.ok (ans t (.aduDriver ad {})),
        s'.setOta ({ · with adudr := { status := ans t (.aduDriver ad {}) } }),
        t ++ [⟨.aduDriver ad {}, ans t (.aduDriver ad {})⟩]⟩ := by
    rw [sendDriver, run_bind, run_call_quiet (hW _)]
    rfl
  rw [hrun, acceptFwDownload, run_bind, hsend, Out.bind_ok]
  obtain ⟨u, hu⟩ := Prog.run_grows (.sequential ans) _ _ _
  exact ⟨_, u, by rw [hu, List.append_assoc]; rfl⟩

theorem cancels_of_ready {s : St B} (hready : s.ota.firmwareReady = true) : Cancels s := by
  intro W t
  unfold iotcOtaFwCancel
  rw [run_bind, run_get, Out.bind_ok, run_ite, if_neg (by rw [hready]; decide)]
  rfl

/-- A session of a disciplined application, with calls from inside its callbacks `depth` deep. -/
def disciplinedRun (B : Build) (ans : Tr Op Ans → (op : Op) → Ans op)
    (calls : Tr Op Ans → Op → List OtaCall) (depth fuel : Nat) (cs : List OtaCall) :
    Out Op Ans (St B) (List (Option UINT)) :=
  (session (disciplined fuel) cs).run (World.nested (disciplined fuel) ans reent calls depth)
    (St.init B) []

/-- Whenever no call of a disciplined application is executing, the driver pointer and the ready
flag agree, a rejected download leaves the client as it is, and either a download is accepted or
a cancellation succeeds. -/
theorem never_wedged (ans : Tr Op Ans → (op : Op) → Ans op) (calls : Tr Op Ans → Op → List OtaCall)
    (depth fuel : Nat) (cs : List OtaCall) :
    let o := disciplinedRun B ans calls depth fuel cs
    o.res.isOk →
      (o.st.ota.aduDriver.isSome ↔ o.st.ota.firmwareReady = true) ∧
      (∀ r ad resume cb W t (s : St B), s.ota.firmwareReady = false →
        (ad = none ∨ s.ota.aduDriver.isSome) → ∃ status, status ≠ nxSuccess ∧
          (iotcOtaFwDownload fuel r ad resume cb).run W s t =
            (rejectFwDownload cb status).run W s t ∧
          ((rejectFwDownload cb status).run (.sequential ans) s t).st = s) ∧
      (Accepts o.st ∨ Cancels o.st) := by
  intro o hok
  obtain ⟨u, hu⟩ := Prog.run_grows (World.nested (disciplined fuel) ans reent calls depth)
    (St.init B) [] (session (disciplined fuel) cs)
  obtain ⟨_, -, hphase⟩ := ((nested_triple (I := fun p => OfOta (InPhase p)) (fun W hW hlets p c =>
    triple_disciplined (fun p => ⟨hW, fun op => hlets op p, fun o _ h => by cases p <;> exact h⟩)
      p fuel c) ans calls depth Phase.idle cs).sat (s := St.init B) rfl hu
      (.of_forall fun _ _ _ => trivial)).ok hok
  have hagree : o.st.ota.aduDriver.isSome = o.st.ota.firmwareReady := hphase
  refine ⟨by rw [hagree], fun r ad resume cb W t s hready hrejected => ?_, ?_⟩
  · obtain ⟨status, hne, hrun⟩ :=
      run_iotcOtaFwDownload_rejected fuel r ad resume cb W t hready hrejected
    exact ⟨status, hne, hrun, run_rejectFwDownload_st ans cb status s t⟩
  · cases hready : o.st.ota.firmwareReady with
    | true => exact .inr (cancels_of_ready hready)
    | false =>
      rw [hready] at hagree
      exact .inl (accepts_of_no_driver (by simpa using hagree))

/-- From inside every callback the application tries to cancel and to download again. -/
def busyCallbacks (_ : Tr Op Ans) (_ : Op) : List OtaCall :=
  [.cancel, .download (some fileRequest) (some 1) true (some 1)]

/-- A download with two levels of calls from inside its callbacks. -/
def nestedDownload : Out Op Ans (St .default) (List (Option UINT)) :=
  disciplinedRun .default (fun _ => allGood (headOf "3") (chunkOf [1, 2, 3])) busyCallbacks 2 10
    [.download (some fileRequest) (some 0) false (some 0)]

theorem never_wedged_nested :
    (nestedDownload.st.ota.aduDriver.isSome ↔ nestedDownload.st.ota.firmwareReady = true) ∧
      nestedDownload.st.ota.firmwareReady = true := by
  have hready : nestedDownload.st.ota.firmwareReady = true := by decide +kernel
  have hok : nestedDownload.res.isOk := by decide +kernel
  refine ⟨?_, hready⟩
  unfold nestedDownload at hok ⊢
  have h := never_wedged (B := .default) (fun _ => allGood (headOf "3") (chunkOf [1, 2, 3]))
    busyCallbacks
    2 10 [.download (some fileRequest) (some 0) false (some 0)] hok
  exact h.1

/-- A download asked for while a firmware is ready, with a NULL driver. -/
def wedged : St .default :=
  ((session (api 10) [.download (some fileRequest) (some 0) false (some 0),
    .download (some fileRequest) none false (some 0)]).run
      (.sequential fun _ => allGood (headOf "3") (chunkOf [1, 2, 3])) (St.init .default) []).st

/-- It leaves a driver without a ready firmware: no call can release it any more. -/
theorem download_when_ready_wedges :
    wedged.ota.aduDriver = some 0 ∧ wedged.ota.firmwareReady = false ∧ ¬ Accepts wedged ∧
      ¬ Cancels wedged := by
  have hdriver : wedged.ota.aduDriver = some 0 := by decide +kernel
  have hready : wedged.ota.firmwareReady = false := by decide +kernel
  refine ⟨hdriver, hready, fun haccepts => ?_, fun hcancels => ?_⟩
  · obtain ⟨status, u, hu⟩ := haccepts 0 none 0 false none (fun _ => allGood (headOf "3")
      (chunkOf [])) []
    obtain ⟨e, -, hrun⟩ := run_iotcOtaFwDownload_rejected 0 none (some 0) false none
      (.sequential fun _ => allGood (headOf "3") (chunkOf [])) [] hready
        (.inr (by rw [hdriver]; rfl))
    rw [hrun] at hu
    cases hu
  · have hres := hcancels (.sequential fun _ => allGood (headOf "3") (chunkOf [])) []
    unfold iotcOtaFwCancel at hres
    rw [run_bind, run_get, Out.bind_ok, run_ite, if_pos hready] at hres
    exact absurd hres (by decide)

end Iotc.Ota
