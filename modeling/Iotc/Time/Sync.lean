import Iotc.Time.Clock

/-!
# A failed synchronisation

`sntp_time_sync` has seven ways out. On each the SNTP client is deleted if it was created, and
stopped before that if it was to run; the base changes on the one that returns `NX_SUCCESS` only
(`failed_sync_undone`).
-/

namespace Iotc.Time

open Iotc.C Iotc.Resume
open Iotc.Web (nxSuccess)

/-! ## The SNTP client in the events -/

def creates : Ev Op Ans → Bool
  | ⟨.nxSntpClientCreate .., status⟩ => status = nxSuccess
  | _ => false

def runs : Ev Op Ans → Bool
  | ⟨.nxSntpClientRunUnicast, _⟩ => true
  | _ => false

def stops : Ev Op Ans → Bool
  | ⟨.nxSntpClientStop, _⟩ => true
  | _ => false

def deletes : Ev Op Ans → Bool
  | ⟨.nxSntpClientDelete, _⟩ => true
  | _ => false

/-- The client was stopped after the attempt to run it. -/
def StoppedAfterRun (u : Tr Op Ans) : Prop :=
  ∃ v ev w, u = v ++ ev :: w ∧ stops ev ∧ v.any runs

/-- No client is left behind. -/
structure CleanedUp (u : Tr Op Ans) : Prop where
  deleted_once : u.countP deletes = if u.any creates then 1 else 0
  /-- The deletion is the last event. -/
  deleted_last : ∀ v ev w, u = v ++ ev :: w → deletes ev →
    v.any creates ∧ (v.any runs → StoppedAfterRun v) ∧ w = []

/-- What a call from the state `s` comes to that adds the events `u`. -/
structure SyncEffect (B : Build) (s : St) (u : Tr Op Ans) (o : Out Op Ans St UINT) : Prop where
  stored : o.res = .ok nxSuccess → Stored B o.st u
  unchanged : o.res ≠ .ok nxSuccess → o.st = s
  cleanedUp : CleanedUp u

/-- Where a list is split at the first element of a kind. -/
theorem split_unique {α : Type} {p : α → Bool} {l v w : List α} {a b : α} (hl : l.countP p = 0)
    (h : l ++ [a] = v ++ b :: w) (hb : p b) : v = l ∧ w = [] := by
  rcases List.eq_nil_or_concat w with rfl | ⟨w, c, rfl⟩
  · exact ⟨(List.append_inj' h rfl).1.symm, rfl⟩
  · have hmem : b ∈ l := by
      rw [List.concat_eq_append, ← List.cons_append, ← List.append_assoc] at h
      rw [(List.append_inj' h rfl).1]
      simp
    exact absurd hb (List.countP_eq_zero.mp hl b hmem)

variable {v : Tr Op Ans} {a : UINT}

theorem CleanedUp.of_absent (hc : v.any creates = false) (hd : v.countP deletes = 0) :
    CleanedUp v := by
  refine ⟨by simp [hc, hd], fun v' ev w h hev => ?_⟩
  have hmem : ev ∈ v := h ▸ List.mem_append_right _ List.mem_cons_self
  exact absurd hev (List.countP_eq_zero.mp hd ev hmem)

theorem CleanedUp.of_delete (hc : v.any creates = true) (hd : v.countP deletes = 0)
    (hrun : v.any runs → StoppedAfterRun v) : CleanedUp (v ++ [⟨.nxSntpClientDelete, a⟩]) := by
  refine ⟨by simp [hc, hd, deletes], fun v' ev w h hev => ?_⟩
  obtain ⟨rfl, rfl⟩ := split_unique hd h hev
  exact ⟨hc, hrun, rfl⟩

/-! ## The ways out -/

section
variable {B : Build} {s0 : St} {c r : Bool} {φ : St → Prop}

/-- Before the client is stopped or deleted: whether it was created, and whether it was run. -/
structure Phase (φ : St → Prop) (c r : Bool) (s : St) (u : Tr Op Ans) : Prop where
  state : φ s
  created : u.any creates = c
  attempted : u.any runs = r
  kept : u.countP deletes = 0

/-- The end of a call that started in `s0`. -/
structure Ended (s0 : St) (ret : UINT) (s : St) (u : Tr Op Ans) : Prop where
  unchanged : ret ≠ nxSuccess → s = s0
  cleanedUp : CleanedUp u

/-- A lookup that does not end stands before the creation. -/
abbrev syncLogic (s0 : St) : Logic Op Ans St (Tr Op Ans) := .added (Phase (· = s0) false false)

/-- A call other than the creation and the deletion, which is the run or not. -/
theorem spec_phase {op : Op} (r' : Bool) (hc : ∀ a, creates ⟨op, a⟩ = false)
    (hd : ∀ a, deletes ⟨op, a⟩ = false) (hr : ∀ a, (r || runs ⟨op, a⟩) = r') :
    (syncLogic s0).Spec (Phase φ c r) (.call op) fun _ => Phase φ c r' := by
  refine .of_call fun s u h a => ⟨h.state, ?_, ?_, ?_⟩
  · simp [h.created, hc a]
  · simpa [h.attempted] using hr a
  · simp [h.kept, hd a]

/-- A call that concerns the client no further. -/
theorem spec_silent {op : Op}
    (h : ∀ a, creates ⟨op, a⟩ = false ∧ deletes ⟨op, a⟩ = false ∧ runs ⟨op, a⟩ = false) :
    (syncLogic s0).Spec (Phase φ c r) (.call op) fun _ => Phase φ c r :=
  spec_phase _ (fun a => (h a).1) (fun a => (h a).2.1) fun a => by rw [(h a).2.2, Bool.or_false]

theorem spec_deleteAndReturn_ended {status : UINT} (hφ : status ≠ nxSuccess → ∀ s, φ s → s = s0) :
    (syncLogic s0).Spec (Phase φ true false) (deleteAndReturn status) (Ended s0) := by
  intro s u h a
  refine ⟨fun hret => hφ hret s h.state, .of_delete h.created h.kept fun hrun => ?_⟩
  rw [h.attempted] at hrun
  cases hrun

theorem spec_stopAndReturn_ended {status : UINT} (hφ : status ≠ nxSuccess → ∀ s, φ s → s = s0) :
    (syncLogic s0).Spec (Phase φ true true) (stopAndReturn status) (Ended s0) := by
  intro s u h stopped a
  refine ⟨fun hret => hφ hret s h.state, .of_delete ?_ ?_ fun _ => ?_⟩
  · simp [h.created]
  · simp [h.kept, deletes]
  · exact ⟨u, _, [], rfl, rfl, h.attempted⟩

theorem spec_acceptUpdate_ended (sntpSeconds : ULONG) :
    (syncLogic s0).Spec (Phase (· = s0) true true) (acceptUpdate B sntpSeconds) (Ended s0) := by
  refine .bind (Q := fun _ => Phase (· = s0) true true) ?_ fun _ => ?_
  · exact .bind (spec_silent fun _ => ⟨rfl, rfl, rfl⟩) fun _ => .pure fun _ _ h => h
  · refine .bind (Q := fun _ => Phase (fun _ => True) true true) (.modify fun _ _ h => ?_)
      fun _ => spec_stopAndReturn_ended fun h => absurd rfl h
    exact ⟨trivial, h.created, h.attempted, h.kept⟩

/-- Each poll leaves the client running, whatever it comes to. -/
theorem spec_pollLoop_ended (i : Nat) :
    (syncLogic s0).Spec (Phase (· = s0) true true) (pollLoop B i) (Ended s0) := by
  induction i with
  | zero => exact spec_stopAndReturn_ended fun _ _ hs => hs
  | succ i ih =>
    refine .bind (spec_silent fun _ => ⟨rfl, rfl, rfl⟩) fun (status, serverStatus) =>
      .ite (fun _ => ?_) fun _ => ?_
    · exact .bind (spec_silent fun _ => ⟨rfl, rfl, rfl⟩) fun (status, sntpSeconds) =>
        .ite (fun _ => ih) fun _ => spec_acceptUpdate_ended sntpSeconds
    · exact .bind (spec_silent fun _ => ⟨rfl, rfl, rfl⟩) fun _ => ih

theorem spec_create (ipPtr poolPtr : Nat) :
    (syncLogic s0).Spec (Phase (· = s0) false false) (.call (.nxSntpClientCreate ipPtr poolPtr))
      fun (status : UINT) => Phase (· = s0) (status = nxSuccess) false := by
  refine .of_call fun s u h a => ⟨h.state, ?_, ?_, ?_⟩
  · simp [h.created, creates]
  · simp [h.attempted, runs]
  · simp [h.kept, deletes]

theorem spec_runClient_ended (ipPtr poolPtr : Nat) (sntpServerAddress : ULONG) :
    (syncLogic s0).Spec (Phase (· = s0) false false) (runClient B ipPtr poolPtr sntpServerAddress)
      (Ended s0) := by
  refine .bind (spec_create ipPtr poolPtr) fun status => .ite (fun h => .pure fun s u hu => ?_)
    fun h => ?_
  · have hc := hu.created
    rw [decide_eq_false h] at hc
    exact ⟨fun _ => hu.state, .of_absent hc hu.kept⟩
  obtain rfl : status = nxSuccess := Classical.not_not.mp h
  refine .bind (spec_silent fun _ => ⟨rfl, rfl, rfl⟩) fun status =>
    .ite (fun _ => spec_deleteAndReturn_ended fun _ _ hs => hs) fun _ => ?_
  refine .bind (spec_silent fun _ => ⟨rfl, rfl, rfl⟩) fun status =>
    .ite (fun _ => spec_deleteAndReturn_ended fun _ _ hs => hs) fun _ => ?_
  refine .bind (spec_phase true (fun _ => rfl) (fun _ => rfl) fun _ => rfl) fun status =>
    .ite (fun _ => spec_stopAndReturn_ended fun _ _ hs => hs) fun _ => ?_
  exact spec_pollLoop_ended _

theorem spec_lookupLoop_phase (dnsPtr : Nat) (name : CStr) (fuel : Nat) (address : ULONG) :
    (syncLogic s0).Spec (Phase (· = s0) false false) (lookupLoop B dnsPtr name fuel address)
      fun _ => Phase (· = s0) false false := by
  induction fuel generalizing address with
  | zero => exact .stop fun _ _ h => h
  | succ fuel ih =>
    exact .bind (spec_silent fun _ => ⟨rfl, rfl, rfl⟩) fun lookup =>
      .ite (fun _ => ih _) fun _ => .pure fun _ _ h => h

theorem spec_sntpTimeSync_ended (fuel : Nat) (stack : ULONG) (ipPtr poolPtr dnsPtr : Nat)
    (name : CStr) :
    (syncLogic s0).Spec (Phase (· = s0) false false)
      (sntpTimeSync B fuel stack ipPtr poolPtr dnsPtr name) (Ended s0) := by
  refine .bind (spec_lookupLoop_phase dnsPtr name fuel stack) fun (status, address) =>
    .ite (fun _ => .pure fun s u h => ?_) fun _ => spec_runClient_ended ipPtr poolPtr address
  exact ⟨fun _ => h.state, .of_absent h.created h.kept⟩

end

/-- Every synchronisation cleans up after itself, and one that does not return `NX_SUCCESS` leaves
the base as it is. -/
theorem failed_sync_undone (B : Build) (ans : Tr Op Ans → (op : Op) → Ans op) (fuel : Nat)
    (stack : ULONG) (ipPtr poolPtr dnsPtr : Nat) (name : CStr) (s : St) (t : Tr Op Ans) :
    SyncEffect B s
      (((sntpTimeSync B fuel stack ipPtr poolPtr dnsPtr name).run (.sequential ans) s t).tr.drop
        t.length)
      ((sntpTimeSync B fuel stack ipPtr poolPtr dnsPtr name).run (.sequential ans) s t) := by
  have hsat := (spec_sntpTimeSync_ended (B := B) fuel stack ipPtr poolPtr dnsPtr name).added_sat
    ans (s := s) ⟨rfl, rfl, rfl, rfl⟩ t
  refine ⟨stored_of_success, ?_, ?_⟩
  all_goals
    generalize (sntpTimeSync B fuel stack ipPtr poolPtr dnsPtr name).run _ s t = o at hsat
    obtain ⟨r, s', t'⟩ := o
  · intro hfailed
    cases r with
    | ok ret => exact hsat.unchanged fun h => hfailed (congrArg Except.ok h)
    | error e => exact hsat.state
  · cases r with
    | ok ret => exact hsat.cleanedUp
    | error e => exact .of_absent hsat.created hsat.kept

end Iotc.Time
