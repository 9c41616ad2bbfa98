import Iotc.Hub.Lifecycle

/-!
# Disconnect notifications

`ledger` keeps the books of every connection: whether it was established, whether it has ended,
and how often the application's callback was told MQTT_DISCONNECTED for it. A drop and a requested
disconnect are both notified, so a connection is notified once exactly as long as it
ends once (`notified_once`): a hub client that also reports a requested disconnect makes
it twice (`requested_notified_twice`).
-/

namespace Iotc.Hub

open Iotc.C Iotc.Resume Function
open Iotc.Web (nxSuccess IotConnectAzrtosConfig)

structure Entry where
  established : Bool
  ended : Bool
  notified : Nat

def Entry.blank : Entry := ⟨false, false, 0⟩

/-- An established connection ends by a drop or by `nx_azure_iot_hub_client_disconnect`. -/
def Entry.close (e : Entry) : Entry := { e with ended := e.ended || e.established }

theorem Entry.close_eq_self {e : Entry} (h : e.established = false) : e.close = e := by
  obtain ⟨est, ended, notified⟩ := e
  obtain rfl : est = false := h
  simp [close]

def Entry.establish (e : Entry) : Entry := { e with established := true }

def Entry.notify (e : Entry) : Entry := { e with notified := e.notified + 1 }

structure Ledger where
  cur : Nat
  entry : Nat → Entry

def Ledger.change (l : Ledger) (k : Nat) (f : Entry → Entry) : Ledger :=
  { l with entry := update l.entry k (f (l.entry k)) }

@[simp] theorem Ledger.change_cur (l : Ledger) (k : Nat) (f : Entry → Entry) :
    (l.change k f).cur = l.cur := rfl

@[simp] theorem Ledger.change_self (l : Ledger) (k : Nat) (f : Entry → Entry) :
    (l.change k f).entry k = f (l.entry k) := update_self ..

theorem Ledger.change_of_ne (l : Ledger) {j k : Nat} (f : Entry → Entry) (h : j ≠ k) :
    (l.change k f).entry j = l.entry j := update_of_ne h ..

def Ledger.act (l : Ledger) : HubAct → Ledger
  | .started (.init ..) => { l with cur := l.cur + 1 }
  | .started (.callback _ conn status) => if status ≠ nxSuccess then l.change conn .close else l
  | .answered (.init ..) ⟨.nxAzureIotHubClientConnect, a⟩ =>
    if a = nxSuccess then l.change l.cur .establish else l
  | .called .disconnect .nxAzureIotHubClientDisconnect => l.change l.cur .close
  | .called .disconnect (.statusCb _ .mqttDisconnected) => l.change l.cur .notify
  | .called (.callback _ conn _) (.statusCb _ .mqttDisconnected) => l.change conn .notify
  | _ => l

def ledger (t : HubHist) : Ledger := t.foldl Ledger.act ⟨0, fun _ => .blank⟩

theorem ledger_append (t u : HubHist) : ledger (t ++ u) = u.foldl Ledger.act (ledger t) :=
  List.foldl_append

theorem ledger_single (t : HubHist) (act : HubAct) : ledger (t ++ [act]) = (ledger t).act act :=
  ledger_append t [act]

/-- The steps of runs in which each connection ends once, and is told so while it stands. -/
def endsOnce (st : Stage) (s : St) (t : HubHist) : HubAct → Bool
  | .started (.init c _) => (receiver (s.setHub ({ · with config := c }))).isSome
  | .started (.callback _ conn status) =>
    if status = nxSuccess then s.hub.isConnected || st == .connecting || st == .connected
    else !((ledger t).entry conn).ended && (conn != (ledger t).cur || st != .connected)
  | .answered (.init ..) ⟨.nxAzureIotHubClientConnect, a⟩ =>
    a != nxSuccess || ((ledger t).entry (ledger t).cur).notified == 0
  | _ => true

/-- Notified if and only if it has ended. -/
def Entry.Told (e : Entry) : Prop := e.established = true → e.notified = e.ended.toNat

/-- The current connection at a stage of the application. -/
def Entry.At (e : Entry) (s : St) : Stage → Prop
  | .idle => e.Told ∧ (s.hub.isConnected = true → e.ended = false)
  | .setup _ | .connecting | .stopped => e.established = false
  | .connected => e = ⟨true, false, 0⟩
  | .closing _ => s.hub.isConnected = false ∧
      (e.established = true → e.ended = true ∧ e.notified = 0)
  | .notifying => s.hub.isConnected = false ∧ e.Told ∧ (e.established = true → e.ended = true)

structure Booked (st : Stage) (s : St) (l : Ledger) : Prop where
  established : ∀ k, (l.entry k).ended = true → (l.entry k).established = true
  fresh : ∀ k, l.cur < k → (l.entry k).established = false
  others : ∀ k, k ≠ l.cur → (l.entry k).Told
  cur : (l.entry l.cur).At s st
  received : (receiver s).isSome ∨
    st = .idle ∧ s.hub.isConnected = false ∧ ∀ k, (l.entry k).established = false

theorem Entry.At.of_down {e : Entry} {s s' : St} {st : Stage} (h : e.At s st)
    (hdown : s'.hub.isConnected = false) : e.At s' st := by
  cases st with
  | idle => exact ⟨h.1, fun hup => absurd (hup.symm.trans hdown) nofun⟩
  | closing ph | notifying => exact ⟨hdown, h.2⟩
  | setup ph | connecting | connected | stopped => exact h

/-- An entry that has not ended is told of its end. -/
theorem Entry.At.drop {e : Entry} {s s' : St} {st : Stage} (h : e.At s st)
    (hended : e.ended = false) (hst : st ≠ .connected) (hdown : s'.hub.isConnected = false) :
    e.close.notify.At s' st := by
  obtain ⟨est, ended, notified⟩ := e
  obtain rfl : ended = false := hended
  cases st with
  | idle =>
    refine ⟨fun hest => ?_, fun hup => absurd (hup.symm.trans hdown) nofun⟩
    have htold := h.1 hest
    obtain rfl : est = true := hest
    simpa [close, notify] using htold
  | setup ph | connecting | stopped => exact h
  | connected => exact absurd rfl hst
  | closing ph => exact ⟨hdown, fun hest => absurd (h.2 hest).1 nofun⟩
  | notifying => exact ⟨hdown, fun hest => absurd (h.2.2 hest) nofun, fun hest =>
      absurd (h.2.2 hest) nofun⟩

theorem Entry.Told.drop {e : Entry} (h : e.Told) (hended : e.ended = false) :
    e.close.notify.Told := by
  intro hest
  have htold := h hest
  obtain ⟨est, ended, notified⟩ := e
  obtain rfl : ended = false := hended
  obtain rfl : est = true := hest
  simpa [close, notify] using htold

/-- The books after a reported drop. -/
theorem Booked.drop {st : Stage} {s : St} {l : Ledger} (h : Booked st s l) {conn : Nat}
    {status : UINT} (hstatus : status ≠ nxSuccess) (hended : (l.entry conn).ended = false)
    (hst : conn ≠ l.cur ∨ st ≠ .connected) (hreceiver : (receiver s).isSome) :
    Booked st (s.setHub (·.deliver status)) ((l.change conn .close).change conn .notify) := by
  have hdown : (s.hub.deliver status).isConnected = false := by
    simp [HubStatics.deliver, hstatus]
  have hself : ((l.change conn .close).change conn .notify).entry conn =
      (l.entry conn).close.notify := by simp
  have hother : ∀ k, k ≠ conn →
      ((l.change conn .close).change conn .notify).entry k = l.entry k := fun k hk => by
    rw [Ledger.change_of_ne _ _ hk, Ledger.change_of_ne _ _ hk]
  constructor
  · intro k hk
    by_cases hconn : k = conn
    · subst hconn
      rw [hself] at hk ⊢
      simpa [Entry.close, Entry.notify, hended] using hk
    · rw [hother k hconn] at hk ⊢
      exact h.established k hk
  · intro k hk
    by_cases hconn : k = conn
    · subst hconn
      rw [hself]
      exact h.fresh k hk
    · rw [hother k hconn]
      exact h.fresh k hk
  · intro k hk
    by_cases hconn : k = conn
    · subst hconn
      rw [hself]
      exact (h.others k hk).drop hended
    · rw [hother k hconn]
      exact h.others k hk
  · show Entry.At (((l.change conn .close).change conn .notify).entry l.cur) _ _
    by_cases hconn : l.cur = conn
    · subst hconn
      rw [hself]
      exact h.cur.drop hended (hst.resolve_left (not_not.mpr rfl)) hdown
    · rw [hother _ hconn]
      exact h.cur.of_down hdown
  · exact .inl (by rwa [receiver_deliver])

/-- At no stage is an established connection notified ahead of its end. -/
theorem Entry.At.notified_le {e : Entry} {s : St} {st : Stage} (h : e.At s st)
    (hest : e.established = true) : e.notified ≤ e.ended.toNat := by
  cases st with
  | idle => exact Nat.le_of_eq (h.1 hest)
  | setup ph | connecting | stopped => exact absurd (hest.symm.trans h) nofun
  | connected =>
    obtain rfl : e = ⟨true, false, 0⟩ := h
    exact Nat.le_refl 0
  | closing ph => exact (h.2 hest).2 ▸ Nat.zero_le _
  | notifying => exact Nat.le_of_eq (h.2.1 hest)

theorem Ledger.act_called (l : Ledger) (c : IotConnectIotHubConfig) (az : IotConnectAzrtosConfig)
    (op : Op) : l.act (.called (.init c az) op) = l := by
  cases op <;> rfl

theorem Ledger.act_answered (l : Ledger) (c : IotConnectIotHubConfig) (az : IotConnectAzrtosConfig)
    {op : Op} (a : Ans op) (h : op ≠ .nxAzureIotHubClientConnect) :
    l.act (.answered (.init c az) ⟨op, a⟩) = l := by
  cases op <;> first | rfl | exact absurd rfl h

/-- Outside `idle` the notifications reach the application. -/
theorem Booked.receives {st : Stage} {s : St} {l : Ledger} (h : Booked st s l) (hst : st ≠ .idle) :
    (receiver s).isSome := h.received.resolve_right fun h => hst h.1

/-- A step that leaves the books and the receiver alone. -/
theorem Booked.move {st st' : Stage} {s s' : St} {l : Ledger} (h : Booked st s l)
    (hcur : (l.entry l.cur).At s' st') (hreceiver : (receiver s').isSome) : Booked st' s' l :=
  { h with cur := hcur, received := .inl hreceiver }

/-- A step that changes the current connection's entry. -/
theorem Booked.change {st st' : Stage} {s s' : St} {l : Ledger} (h : Booked st s l)
    {f : Entry → Entry} (hcur : (f (l.entry l.cur)).At s' st')
    (hended : (f (l.entry l.cur)).ended = true → (f (l.entry l.cur)).established = true)
    (hreceiver : (receiver s').isSome) : Booked st' s' (l.change l.cur f) := by
  refine ⟨fun k hk => ?_, fun k (hk : l.cur < k) => ?_, fun k (hk : k ≠ l.cur) => ?_, ?_,
    .inl hreceiver⟩
  · by_cases hcur : k = l.cur
    · subst hcur
      rw [Ledger.change_self] at hk ⊢
      exact hended hk
    · rw [Ledger.change_of_ne _ _ hcur] at hk ⊢
      exact h.established k hk
  · rw [Ledger.change_of_ne _ _ (Nat.ne_of_gt hk)]
    exact h.fresh k hk
  · rw [Ledger.change_of_ne _ _ hk]
    exact h.others k hk
  · rw [Ledger.change_cur, Ledger.change_self]
    exact hcur

theorem Booked.not_ended {st : Stage} {s : St} {l : Ledger} (h : Booked st s l) {k : Nat}
    (hest : (l.entry k).established = false) : (l.entry k).ended = false :=
  Bool.eq_false_iff.mpr fun hended => absurd ((h.established k hended).symm.trans hest) nofun

theorem Booked.deliver {st : Stage} {s : St} {t : HubHist} {n conn : Nat} {status : UINT}
    (h : Booked st s (ledger t))
    (hA : endsOnce st s t (.started (.callback n conn status)) = true) :
    Booked st (s.setHub (·.deliver status)) (ledger (t ++ .started (.callback n conn status) ::
      notice s (.callback n conn status) (connectionStatus status))) := by
  rw [ledger_append, List.foldl_cons]
  by_cases hok : status = nxSuccess
  · simp only [endsOnce, if_pos hok] at hA
    have hbooks : (notice s (.callback n conn status) (connectionStatus status)).foldl Ledger.act
        ((ledger t).act (.started (.callback n conn status))) = ledger t := by
      rw [Ledger.act, if_neg (not_not.mpr hok), notice, connectionStatus, if_neg (not_not.mpr hok)]
      cases receiver s <;> rfl
    rw [hbooks]
    have hreceiver : (receiver s).isSome := by
      refine h.received.resolve_right ?_
      rintro ⟨hst, hdown, -⟩
      rw [hst, hdown] at hA
      cases hA
    refine h.move ?_ (by rwa [receiver_deliver])
    have hcur := h.cur
    cases st with
    | idle =>
      have hup : s.hub.isConnected = true := by simpa using hA
      exact ⟨hcur.1, fun _ => hcur.2 hup⟩
    | setup ph | connecting | connected | stopped => exact hcur
    | closing ph | notifying => simp [hcur.1] at hA
  · simp only [endsOnce, if_neg hok, Bool.and_eq_true, Bool.not_eq_true', Bool.or_eq_true,
      bne_iff_ne] at hA
    obtain ⟨hended, hst⟩ := hA
    rw [Ledger.act, if_pos hok]
    cases hreceiver : receiver s with
    | some cb =>
      rw [notice, hreceiver, connectionStatus, if_pos hok]
      exact h.drop hok hended hst (by rw [hreceiver]; rfl)
    | none =>
      -- nothing has been established yet
      have hnone : ¬ (receiver s).isSome := by rw [hreceiver]; exact Bool.false_ne_true
      obtain ⟨rfl, hdown, hfresh⟩ := h.received.resolve_left hnone
      have hsame : (ledger t).change conn .close = ledger t := by
        rw [Ledger.change, Entry.close_eq_self (hfresh conn), update_eq_self]
      rw [notice, hreceiver, hsame]
      have hflag : (s.hub.deliver status).isConnected = false := by simp [HubStatics.deliver, hok]
      exact { h with cur := h.cur.of_down hflag, received := .inr ⟨rfl, hflag, hfresh⟩ }

theorem Life.booked {s0 : St} (h0 : s0.hub.isConnected = false) {st : Stage} {s : St} {t : HubHist}
    (h : Life (fun st s t act => endsOnce st s t act = true) s0 st s t) :
    Booked st s (ledger t) := by
  induction h with
  | boot =>
    exact ⟨nofun, fun _ _ => rfl, fun _ _ => nofun, ⟨nofun, fun _ => rfl⟩,
      .inr ⟨rfl, h0, fun _ => rfl⟩⟩
  | @startInit s t c az _ hA ih =>
    rw [ledger_append]
    refine ⟨ih.established, fun k hk => ih.fresh k (Nat.lt_of_succ_lt hk), fun k hk => ?_,
      ih.fresh _ (Nat.lt_succ_self _), .inl hA⟩
    by_cases hcur : k = (ledger t).cur
    · subst hcur
      exact ih.cur.1
    · exact ih.others k hcur
  | @call s t c az op _ _ ih =>
    rw [ledger_single, Ledger.act_called]
    exact ih.move ih.cur (ih.receives nofun)
  | @answer s t c az op a _ hop ih =>
    rw [ledger_single, Ledger.act_answered _ _ _ _ hop]
    exact ih.move ih.cur (ih.receives nofun)
  | @connect s t c az _ ih =>
    rw [ledger_single, Ledger.act_called]
    exact ih.move ih.cur (ih.receives nofun)
  | @established s t c az _ hA ih =>
    rw [ledger_single]
    refine ih.change (f := .establish) ?_ (fun _ => rfl) (ih.receives nofun)
    have hnotified : ((ledger t).entry (ledger t).cur).notified = 0 := by simpa [endsOnce] using hA
    have hended : ((ledger t).entry (ledger t).cur).ended = false :=
      ih.not_ended ih.cur
    show Entry.mk true _ _ = _
    rw [hnotified, hended]
  | @refused s t c az a _ ha hA ih =>
    rw [ledger_single, Ledger.act, if_neg ha]
    exact ih.move ih.cur (ih.receives nofun)
  | @finish s t _ ih =>
    refine ih.move ?_ (ih.receives nofun)
    have hcur : (ledger t).entry (ledger t).cur = ⟨true, false, 0⟩ := ih.cur
    rw [hcur]
    exact ⟨fun _ => rfl, fun _ => rfl⟩
  | @giveUp s t _ ih =>
    exact ih.move ⟨fun hest => absurd (hest.symm.trans ih.cur) nofun, fun _ => ih.not_ended ih.cur⟩
      (ih.receives nofun)
  | crash _ ih => exact ih.move ih.cur (ih.receives nofun)
  | @ignore s t _ _ ih => rw [ledger_append]; exact ih
  | @close s t _ hconnected ih =>
    rw [ledger_append]
    have hreceiver : (receiver s).isSome := ih.received.resolve_right fun h =>
      absurd (hconnected.symm.trans h.2.1) nofun
    refine ih.change (f := .close) ⟨rfl, fun hest => ?_⟩ (fun hended => ?_) hreceiver
    · have hended := ih.cur.2 hconnected
      refine ⟨Bool.or_eq_true_iff.mpr (.inr hest), ?_⟩
      exact (ih.cur.1 hest).trans (by rw [hended]; rfl)
    · exact (Bool.or_eq_true_iff.mp hended).elim (ih.established _) id
  | @deInitialize s t _ ih | @delete s t _ ih =>
    rw [ledger_append]
    exact ih.move ih.cur (ih.receives nofun)
  | @notify s t cb _ hcb ih =>
    rw [ledger_single]
    refine ih.change (f := .notify) ⟨ih.cur.1, fun hest => ?_, fun hest => (ih.cur.2 hest).1⟩
      (ih.established _) (ih.receives nofun)
    obtain ⟨hended, hnotified⟩ := ih.cur.2 hest
    show _ + 1 = Bool.toNat (Entry.ended (Entry.mk _ _ _))
    rw [hnotified, hended]
    rfl
  | @unnoticed s t _ hnone ih =>
    have hsome := ih.receives nofun
    rw [hnone] at hsome
    cases hsome
  | @noticed s t _ ih =>
    exact ih.move ⟨ih.cur.2.1, fun hup => absurd (hup.symm.trans ih.cur.1) nofun⟩
      (ih.receives nofun)
  | @deliver st s t n conn status _ hA ih => exact ih.deliver hA
  | @reply st s t c ev _ hc ih =>
    rw [ledger_append]
    cases c with
    | init c az => exact absurd rfl (hc c az)
    | _ => exact ih

/-- In every run in which the hub client reports no requested disconnect, no drop twice, no drop
between the success of a connect call and the end of its initialisation nor before a connect
call that then succeeds, and no connection while the flag is clear and none is being made, an
established connection is never notified more than once, nor before it has ended; and
once no call of the application is executing, it has been notified if it has ended. -/
theorem notified_once (adu : Bool) (sdk : SdkStatics) {g : Cfg Party HubCall Op Ans St Unit}
    (h : Reach (hubClient adu) (fun ctl s t act => endsOnce (stage (ctl .app)) s t act = true)
      (.rest ⟨.init, sdk⟩) g) (k : Nat) (hest : ((ledger g.hist).entry k).established = true) :
    ((ledger g.hist).entry k).notified ≤ ((ledger g.hist).entry k).ended.toNat ∧
      (g.ctl .app = .idle →
        ((ledger g.hist).entry k).notified = ((ledger g.hist).entry k).ended.toNat) := by
  have hbooked := (reach_life h).booked rfl
  by_cases hcur : k = (ledger g.hist).cur
  · subst hcur
    have hat := hbooked.cur
    refine ⟨hat.notified_le hest, fun hidle => ?_⟩
    rw [hidle] at hat
    exact hat.1 hest
  · have htold := hbooked.others k hcur hest
    exact ⟨Nat.le_of_eq htold, fun _ => htold⟩

/-- A connection dropped by the server, and one that the application ends. -/
theorem notified_once_each :
    ∃ g, Reach (hubClient false) (fun ctl s t act => endsOnce (stage (ctl .app)) s t act = true)
      (.rest ⟨.init, .init⟩) g ∧ (ledger g.hist).cur = 2 ∧
      ((ledger g.hist).entry 2).notified = ((ledger g.hist).entry 2).ended.toNat := by
  obtain ⟨g, hg, hp⟩ := Reach.of_run (I := hubClient false)
    (A := fun ctl s t act => endsOnce (stage (ctl .app)) s t act = true)
    (c := .rest ⟨.init, .init⟩)
    (connected ++ delivered 1 7 ++ connected ++ .start .disconnect :: serve .app 4)
    (fun g => (g.ctl .app).isIdle && (ledger g.hist).cur == 2 &&
      ((ledger g.hist).entry 2).established) (by decide +kernel)
  rw [Bool.and_eq_true, Bool.and_eq_true, beq_iff_eq] at hp
  exact ⟨g, hg, hp.1.2, (notified_once false .init hg 2 hp.2).2 (Ctl.eq_idle hp.1.1)⟩

/-- A hub client that reports the requested disconnect too, from inside
`nx_azure_iot_hub_client_disconnect`. -/
theorem requested_notified_twice :
    ∃ g, Reach (hubClient false) (fun _ _ _ _ => True) (.rest ⟨.init, .init⟩) g ∧
      g.ctl .app = .idle ∧ ((ledger g.hist).entry 1).established = true ∧
      ((ledger g.hist).entry 1).notified = 2 := by
  obtain ⟨g, hg, hp⟩ := Reach.of_run (I := hubClient false) (A := fun _ _ _ _ => True)
    (c := .rest ⟨.init, .init⟩)
    (connected ++ .start .disconnect :: delivered 1 7 ++ serve .app 4)
    (fun g => (g.ctl .app).isIdle && ((ledger g.hist).entry 1).established &&
      ((ledger g.hist).entry 1).notified == 2) (by decide +kernel)
  rw [Bool.and_eq_true, Bool.and_eq_true, beq_iff_eq] at hp
  exact ⟨g, hg, Ctl.eq_idle hp.1.1, hp.1.2, hp.2⟩

end Iotc.Hub
