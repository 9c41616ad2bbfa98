import Iotc.Hub.Lifecycle

/-!
# The connected flag

`link` reads the current connection off the history. Between calls of the application
`is_connected` says whether that connection is up (`flag_follows_connection`), as long as
the deliveries respect an order the code does not enforce: a drop reported after the connect
call has returned, but before `iothub_client_init` assigns the flag, is lost
(`drop_overwritten`).
-/

namespace Iotc.Hub

open Iotc.C Iotc.Resume
open Iotc.Web (nxSuccess)

/-- The connection of the latest initialisation, number `cur`, and what has become of it. -/
structure Link where
  cur : Nat
  established : Bool
  dropped : Bool
  requested : Bool

def Link.act (l : Link) : HubAct → Link
  | .started (.init ..) => ⟨l.cur + 1, false, false, false⟩
  | .started .disconnect => { l with requested := true }
  | .started (.callback _ conn status) =>
    if status ≠ nxSuccess ∧ conn = l.cur then { l with dropped := true } else l
  | .answered (.init ..) ⟨.nxAzureIotHubClientConnect, a⟩ =>
    { l with established := l.established || a == nxSuccess }
  | _ => l

def link (t : HubHist) : Link := t.foldl Link.act ⟨0, false, false, false⟩

/-- Established, not dropped, and not asked to end. -/
def Link.up (l : Link) : Bool := l.established && !l.dropped && !l.requested

theorem link_append (t u : HubHist) : link (t ++ u) = u.foldl Link.act (link t) :=
  List.foldl_append

/-- The order of steps in which no report is lost. -/
def inOrder (st : Stage) (s : St) (t : HubHist) : HubAct → Bool
  | .started (.callback _ conn status) =>
    if status = nxSuccess then s.hub.isConnected || st == .connecting || st == .connected
    else if conn = (link t).cur then st != .connected
    else !s.hub.isConnected || st != .idle
  | .answered (.init ..) ⟨.nxAzureIotHubClientConnect, a⟩ =>
    if a = nxSuccess then !(link t).dropped else !s.hub.isConnected
  | _ => true

/-- The flag and the current connection at a stage of the application. -/
def Agree (s : St) (l : Link) : Stage → Prop
  | .idle => s.hub.isConnected = l.up
  | .setup _ => s.hub.isConnected = false ∧ l.established = false ∧ l.requested = false
  | .connecting => l.established = false ∧ l.requested = false
  | .connected => l.established = true ∧ l.dropped = false ∧ l.requested = false
  | .closing _ | .notifying => s.hub.isConnected = false ∧ l.requested = true
  | .stopped => True

/-- Notifications say nothing of the connection. -/
theorem foldl_notice (l : Link) (s : St) (c : HubCall) (status : IotConnectConnectionStatus) :
    (notice s c status).foldl Link.act l = l := by
  unfold notice
  cases receiver s <;> rfl

theorem Link.act_answered (l : Link) (c : IotConnectIotHubConfig) (az : Web.IotConnectAzrtosConfig)
    {op : Op} (a : Ans op) (h : op ≠ .nxAzureIotHubClientConnect) :
    l.act (.answered (.init c az) ⟨op, a⟩) = l := by
  cases op <;> first | rfl | exact absurd rfl h

theorem Agree.deliver {st : Stage} {s : St} {t : HubHist} {n conn : Nat} {status : UINT}
    (hA : inOrder st s t (.started (.callback n conn status)) = true) (h : Agree s (link t) st) :
    Agree (s.setHub (·.deliver status)) ((link t).act (.started (.callback n conn status))) st := by
  by_cases hok : status = nxSuccess
  · have hact : (link t).act (.started (.callback n conn status)) = link t := if_neg fun h =>
      h.1 hok
    have hflag : (s.hub.deliver status).isConnected = true := by simp [HubStatics.deliver, hok]
    simp only [inOrder, if_pos hok] at hA
    rw [hact]
    cases st with
    | idle =>
      have hup : s.hub.isConnected = true := by simpa using hA
      exact hflag.trans (hup.symm.trans h)
    | setup ph | closing ph | notifying => simp [h.1] at hA
    | connecting | connected | stopped => exact h
  have hflag : (s.hub.deliver status).isConnected = false := by simp [HubStatics.deliver, hok]
  simp only [inOrder, if_neg hok] at hA
  by_cases hcur : conn = (link t).cur
  · have hact : (link t).act (.started (.callback n conn status)) =
        { link t with dropped := true } := if_pos ⟨hok, hcur⟩
    rw [if_pos hcur] at hA
    rw [hact]
    cases st with
    | idle => simp [Agree, Link.up, hflag]
    | connected => simp at hA
    | setup ph | closing ph | notifying => exact ⟨hflag, h.2⟩
    | connecting | stopped => exact h
  · have hact : (link t).act (.started (.callback n conn status)) = link t :=
      if_neg fun h => hcur h.2
    rw [if_neg hcur] at hA
    rw [hact]
    cases st with
    | idle =>
      have hdown : s.hub.isConnected = false := by simpa using hA
      exact hflag.trans (hdown.symm.trans h)
    | setup ph | closing ph | notifying => exact ⟨hflag, h.2⟩
    | connecting | connected | stopped => exact h

theorem Life.agree {s0 : St} (h0 : s0.hub.isConnected = false) {st : Stage} {s : St} {t : HubHist}
    (h : Life (fun st s t act => inOrder st s t act = true) s0 st s t) : Agree s (link t) st := by
  induction h with
  | boot => exact h0
  | startInit _ _ _ => rw [link_append]; exact ⟨rfl, rfl, rfl⟩
  | call _ _ ih => rw [link_append]; exact ih
  | answer _ hop ih =>
    rw [link_append]
    show Agree _ ((link _).act _) _
    rw [Link.act_answered _ _ _ _ hop]
    exact ih
  | connect _ ih => rw [link_append]; exact ih.2
  | @established s t c az _ hA ih =>
    rw [link_append]
    have hdropped : (link t).dropped = false := by simpa [inOrder] using hA
    exact ⟨by simp [Link.act], hdropped, ih.2⟩
  | @refused s t c az a _ ha hA ih =>
    rw [link_append]
    have hdown : s.hub.isConnected = false := by simpa [inOrder, ha] using hA
    exact ⟨hdown, by simp [Link.act, ih.1, ha], ih.2⟩
  | @finish s t _ ih =>
    obtain ⟨hest, hdropped, hrequested⟩ := ih
    simp [Agree, Link.up, hest, hdropped, hrequested]
  | giveUp _ ih => simp [Agree, Link.up, ih.1, ih.2.1]
  | crash _ _ => trivial
  | @ignore s t _ hdown ih =>
    rw [link_append]
    simp [Agree, Link.up, Link.act, hdown]
  | close _ _ _ => rw [link_append]; exact ⟨rfl, rfl⟩
  | deInitialize _ ih | delete _ ih | notify _ _ ih => rw [link_append]; exact ih
  | unnoticed _ _ ih | noticed _ ih => simp [Agree, Link.up, ih.1, ih.2]
  | @deliver st s t n conn status _ hA ih =>
    rw [link_append, List.foldl_cons, foldl_notice]
    exact ih.deliver hA
  | @reply st s t c ev _ hc ih =>
    rw [link_append]
    cases c with
    | init c az => exact absurd rfl (hc c az)
    | _ => exact ih

/-- Whenever no call of the application is executing, the flag says whether the current connection
is up, in every run in which: a drop of the current connection is not reported between the
success of its connect call and the end of the initialisation, nor before a connect call that
then succeeds; a drop of an earlier one is not reported to an idle application that is
connected; a connection is not reported while the flag is clear and none is being made; and no
connect call fails after such a report. -/
theorem flag_follows_connection (adu : Bool) (sdk : SdkStatics)
    {g : Cfg Party HubCall Op Ans St Unit}
    (h : Reach (hubClient adu) (fun ctl s t act => inOrder (stage (ctl .app)) s t act = true)
      (.rest ⟨.init, sdk⟩) g) (hidle : g.ctl .app = .idle) :
    g.st.hub.isConnected = (link g.hist).up := by
  have hagree := (reach_life h).agree rfl
  rw [hidle] at hagree
  exact hagree

/-- A connection that is dropped while the application is idle, and a second one. -/
theorem flag_follows_connection_dropped :
    ∃ g, Reach (hubClient false) (fun ctl s t act => inOrder (stage (ctl .app)) s t act = true)
      (.rest ⟨.init, .init⟩) g ∧ (link g.hist).cur = 2 ∧ g.st.hub.isConnected =
        (link g.hist).up := by
  obtain ⟨g, hg, hp⟩ := Reach.of_run (I := hubClient false)
    (A := fun ctl s t act => inOrder (stage (ctl .app)) s t act = true) (c := .rest ⟨.init, .init⟩)
    (connected ++ delivered 1 7 ++ connected)
    (fun g => (link g.hist).cur == 2 && (g.ctl .app).isIdle) (by decide +kernel)
  rw [Bool.and_eq_true, beq_iff_eq] at hp
  exact ⟨g, hg, hp.1, flag_follows_connection false .init hg (Ctl.eq_idle hp.2)⟩

/-- A drop that is reported after the connect call has returned, and before the initialisation
goes on, is overwritten by the assignment at its end. -/
theorem drop_overwritten :
    ∃ g, Reach (hubClient false) (fun _ _ _ _ => True) (.rest ⟨.init, .init⟩) g ∧
      g.ctl .app = .idle ∧ g.st.hub.isConnected = true ∧ (link g.hist).up = false := by
  obtain ⟨g, hg, hp⟩ := Reach.of_run (I := hubClient false) (A := fun _ _ _ _ => True)
    (c := .rest ⟨.init, .init⟩)
    (.start keyInit :: serve .app 11 ++ .answer .app allGood :: delivered 1 7 ++ [.resume .app])
    (fun g => (g.ctl .app).isIdle && g.st.hub.isConnected && !(link g.hist).up)
    (by decide +kernel)
  rw [Bool.and_eq_true, Bool.and_eq_true, Bool.not_eq_true'] at hp
  exact ⟨g, hg, Ctl.eq_idle hp.1.1, hp.1.2, hp.2⟩

end Iotc.Hub
