import Iotc.Hub.Lifecycle

/-!
# Creations and deletions

`objects` reads off the history what exists of the Azure IoT instance and the hub client, and is
`none` from the first call on that creates, initialises, deletes or deinitialises out of turn.
The cleanup goes by `is_connected`, so the calls are in turn as long as that flag is not
cleared behind the application's back (`create_delete_paired`); a connection dropped
by the server does just that (`drop_then_init_leaks`).
-/

namespace Iotc.Hub

open Iotc.C Iotc.Resume
open Iotc.Web (nxSuccess IotConnectAzrtosConfig)

structure Objects where
  azureIot : Bool
  client : Bool
  deriving DecidableEq, Repr

/-- A call to delete or deinitialise ends the object; one to create or initialise makes it if it
succeeds. -/
def Objects.act (o : Objects) : HubAct → Option Objects
  | .called _ (.nxAzureIotCreate _) => if o.azureIot then none else some o
  | .answered (.init ..) ⟨.nxAzureIotCreate _, a⟩ =>
    some { o with azureIot := o.azureIot || a == nxSuccess }
  | .called _ .nxAzureIotDelete => if o.azureIot then some { o with azureIot := false } else none
  | .called _ (.nxAzureIotHubClientInitialize ..) => if o.client then none else some o
  | .answered (.init ..) ⟨.nxAzureIotHubClientInitialize .., a⟩ =>
    some { o with client := o.client || a == nxSuccess }
  | .called _ .nxAzureIotHubClientDeInitialize =>
    if o.client then some { o with client := false } else none
  | _ => some o

def objects (t : HubHist) : Option Objects := t.foldlM Objects.act ⟨false, false⟩

theorem objects_append (t u : HubHist) :
    objects (t ++ u) = (objects t).bind fun o => u.foldlM Objects.act o := by
  unfold objects
  rw [List.foldlM_append]
  rfl

theorem objects_single (t : HubHist) (act : HubAct) :
    objects (t ++ [act]) = (objects t).bind (·.act act) := by
  rw [objects_append]
  congr 1
  funext o
  simp

/-- The steps under which the calls stay in turn. -/
def inTurn (st : Stage) (s : St) (_ : HubHist) : HubAct → Bool
  | .started (.init ..) => !s.hub.isConnected
  | .started (.callback _ _ status) =>
    if status = nxSuccess then s.hub.isConnected || st == .connecting || st == .connected
    else !s.hub.isConnected || st != .idle
  | .answered (.init ..) ⟨.nxAzureIotHubClientConnect, a⟩ => a == nxSuccess || !s.hub.isConnected
  | _ => true

def Phase.objects : Phase → Objects
  | .absent => ⟨false, false⟩
  | .created => ⟨true, false⟩
  | .initialised => ⟨true, true⟩

def Stage.objects (s : St) : Stage → Objects
  | .idle => ⟨s.hub.isConnected, s.hub.isConnected⟩
  | .setup ph | .closing ph => ph.objects
  | .connecting | .connected | .stopped => ⟨true, true⟩
  | .notifying => ⟨false, false⟩

/-- Stages in which the flag is down. -/
def Stage.down : Stage → Bool
  | .setup _ | .closing _ | .notifying => true
  | _ => false

structure Paired (st : Stage) (s : St) (t : HubHist) : Prop where
  objects : objects t = some (st.objects s)
  down : st.down = true → s.hub.isConnected = false

/-- A call of the initialisation is in turn where it is made. -/
theorem act_called (c : HubCall) (op : Op) :
    op.from.objects.act (.called c op) = some op.pending.objects := by
  cases op with
  | nxSecureX509CertificateInitialize cert => cases cert <;> rfl
  | _ => rfl

theorem act_answered (c : IotConnectIotHubConfig) (az : IotConnectAzrtosConfig) (op : Op)
    (a : Ans op) :
    op.pending.objects.act (.answered (.init c az) ⟨op, a⟩) = some (op.answered a).objects := by
  cases op with
  | nxSecureX509CertificateInitialize cert => cases cert <;> rfl
  | nxAzureIotCreate az =>
    by_cases ha : a = nxSuccess
    · subst ha
      rfl
    · simp [Op.pending, Op.answered, Phase.objects, Objects.act, ha]
  | nxAzureIotHubClientInitialize host deviceName crypto =>
    by_cases ha : a = nxSuccess
    · subst ha
      rfl
    · simp [Op.pending, Op.answered, Phase.objects, Objects.act, ha]
  | _ => rfl

/-- Notifications and deliveries touch no object. -/
theorem foldlM_notice (o : Objects) (s : St) (c : HubCall) (status : IotConnectConnectionStatus) :
    (notice s c status).foldlM Objects.act o = some o := by
  unfold notice
  cases receiver s <;> rfl

theorem Paired.of_absent {s : St} {t : HubHist} (hobjects : Hub.objects t = some ⟨false, false⟩)
    (hdown : s.hub.isConnected = false) : Paired .idle s t :=
  ⟨by rw [hobjects, Stage.objects, hdown], nofun⟩

/-- A delivery in turn leaves the flag as it is for an idle application, and down where it has to
be. -/
theorem inTurn_deliver {st : Stage} {s : St} {t : HubHist} {n conn : Nat} {status : UINT}
    (hA : inTurn st s t (.started (.callback n conn status)) = true)
    (hdown : st.down = true → s.hub.isConnected = false) :
    (st = .idle → (s.hub.deliver status).isConnected = s.hub.isConnected) ∧
      (st.down = true → (s.hub.deliver status).isConnected = false) := by
  unfold HubStatics.deliver
  by_cases hstatus : status = nxSuccess
  · rw [if_neg (not_not.mpr hstatus)]
    simp only [inTurn, if_pos hstatus] at hA
    constructor
    · rintro rfl
      simpa using hA.symm
    · intro hst
      rw [hdown hst] at hA
      cases st <;> simp [Stage.down] at hst hA
  · rw [if_pos hstatus]
    simp only [inTurn, if_neg hstatus] at hA
    refine ⟨?_, fun _ => rfl⟩
    rintro rfl
    simpa using hA

theorem Life.paired {s0 : St} (h0 : s0.hub.isConnected = false) {st : Stage} {s : St} {t : HubHist}
    (h : Life (fun st s t act => inTurn st s t act = true) s0 st s t) : Paired st s t := by
  induction h with
  | boot => exact ⟨by rw [Stage.objects, h0]; rfl, nofun⟩
  | @startInit s t c az _ hA ih =>
    have hdown : s.hub.isConnected = false := by simpa [inTurn] using hA
    refine ⟨?_, fun _ => rfl⟩
    rw [objects_single, ih.objects, Stage.objects, hdown]
    rfl
  | @call s t c az op _ _ ih =>
    refine ⟨?_, fun _ => ih.down rfl⟩
    rw [objects_single, ih.objects]
    exact act_called _ op
  | @answer s t c az op a _ _ ih =>
    refine ⟨?_, fun _ => ih.down rfl⟩
    rw [objects_single, ih.objects]
    exact act_answered c az op a
  | connect _ ih | established _ _ ih =>
    refine ⟨?_, nofun⟩
    rw [objects_single, ih.objects]
    rfl
  | @refused s t c az a _ ha hA ih =>
    refine ⟨?_, fun _ => ?_⟩
    · rw [objects_single, ih.objects]
      rfl
    · have hok : (a == nxSuccess) = false := by simpa using ha
      simpa [inTurn, hok] using hA
  | finish _ ih => exact ⟨ih.objects, nofun⟩
  | giveUp _ ih => exact .of_absent ih.objects (ih.down rfl)
  | crash _ ih => exact ⟨ih.objects, nofun⟩
  | ignore _ _ ih =>
    refine ⟨?_, nofun⟩
    rw [objects_single, ih.objects]
    rfl
  | @close s t _ hconnected ih =>
    refine ⟨?_, fun _ => rfl⟩
    rw [objects_append, ih.objects, Stage.objects, hconnected]
    rfl
  | deInitialize _ ih | delete _ ih | notify _ _ ih =>
    refine ⟨?_, fun _ => ih.down rfl⟩
    rw [objects_single, ih.objects]
    rfl
  | unnoticed _ _ ih | noticed _ ih => exact .of_absent ih.objects (ih.down rfl)
  | @deliver st s t n conn status _ hA ih =>
    obtain ⟨hidle, hdown⟩ := inTurn_deliver hA ih.down
    refine ⟨?_, hdown⟩
    rw [objects_append, ih.objects]
    show (notice s _ _).foldlM Objects.act (st.objects s) = _
    rw [foldlM_notice]
    cases st with
    | idle => rw [Stage.objects, Stage.objects, St.setHub_hub, hidle rfl]
    | _ => rfl
  | @reply st s t c ev _ hc ih =>
    refine ⟨?_, ih.down⟩
    rw [objects_single, ih.objects]
    cases c with
    | init c az => exact absurd rfl (hc c az)
    | _ => rfl

/-- In every run in which no drop is reported to an idle application while `is_connected` is set,
no connection while it is not set and none is being made, and no connect call fails after
such a report, every creation, initialisation, deletion and deinitialisation is in turn. -/
theorem create_delete_paired (adu : Bool) (sdk : SdkStatics) {g : Cfg Party HubCall Op Ans St Unit}
    (h : Reach (hubClient adu) (fun ctl s t act => inTurn (stage (ctl .app)) s t act = true)
      (.rest ⟨.init, sdk⟩) g) : (objects g.hist).isSome := by
  rw [((reach_life h).paired rfl).objects]
  rfl

/-- Two connections, the first of which the application ends. -/
theorem create_delete_paired_reconnect :
    ∃ g, Reach (hubClient true) (fun ctl s t act => inTurn (stage (ctl .app)) s t act = true)
      (.rest ⟨.init, .init⟩) g ∧ g.st.hub.isConnected = true ∧ (objects g.hist).isSome := by
  obtain ⟨g, hg, hup⟩ := Reach.of_run (I := hubClient true)
    (A := fun ctl s t act => inTurn (stage (ctl .app)) s t act = true) (c := .rest ⟨.init, .init⟩)
    (connected ++ serve .app 2 ++ .start .disconnect :: serve .app 4 ++ connected ++ serve .app 2)
    (fun g => g.st.hub.isConnected) (by decide +kernel)
  exact ⟨g, hg, hup, create_delete_paired true .init hg⟩

/-- Initialisations are made only while the client says that it is not connected. -/
def whenDown (s : St) : HubAct → Bool
  | .started (.init ..) => !s.hub.isConnected
  | _ => true

/-- A connection dropped by the server is never cleaned up, and the next initialisation creates the
Azure IoT instance over the old one. -/
theorem drop_then_init_leaks :
    ∃ g, Reach (hubClient false) (fun _ s _ act => whenDown s act = true) (.rest ⟨.init, .init⟩) g ∧
      objects g.hist = none := by
  obtain ⟨g, hg, hnone⟩ := Reach.of_run (I := hubClient false)
    (A := fun _ s _ act => whenDown s act = true) (c := .rest ⟨.init, .init⟩)
    (connected ++ delivered 1 7 ++ connected) (fun g => (objects g.hist).isNone) (by decide +kernel)
  exact ⟨g, hg, Option.isNone_iff_eq_none.mp hnone⟩

end Iotc.Hub
