import Iotc.Resume.Hoare
import Iotc.Time.Client
import Mathlib.Algebra.Group.Nat.Defs

/-!
# Reading the clock

The base that a synchronisation leaves is the Unix time less the system's seconds, modulo `2^32`.
What wraps on the way cancels when the clock is read (`clock_exact`).
-/

namespace Iotc.Time

open Iotc.C Iotc.Resume
open Iotc.Web (nxSuccess)

variable {B : Build}

/-! ## The base -/

/-- The last events of a successful `sntp_time_sync`: the update and the ticks read for it. -/
def updateEvents (sntpSeconds ticks : ULONG) (stopped deleted : UINT) : Tr Op Ans :=
  [⟨.nxSntpClientGetLocalTime, (nxSuccess, sntpSeconds)⟩, ⟨.txTimeGet, ticks⟩,
    ⟨.nxSntpClientStop, stopped⟩, ⟨.nxSntpClientDelete, deleted⟩]

/-- The base is computed from the update that the events end with. -/
def Stored (B : Build) (s : St) (u : Tr Op Ans) : Prop :=
  ∃ sntpSeconds ticks, s.unixTimeBase =
      sntpSeconds - (ticks / B.txTimerTicksPerSecond + unixToNtpEpochSecond) ∧
    ∃ v stopped deleted, u = v ++ updateEvents sntpSeconds ticks stopped deleted

abbrev clockLogic : Logic Op Ans St (Tr Op Ans) := .added fun _ _ => True

/-- A call before the update. -/
theorem spec_call (op : Op) :
    clockLogic.Spec (fun _ _ => True) (.call op) fun _ _ _ => True :=
  .of_call fun _ _ _ _ => trivial

theorem spec_stopAndReturn {status : UINT} (h : status ≠ nxSuccess) :
    clockLogic.Spec (fun _ _ => True) (stopAndReturn status) fun ret s u =>
      ret = nxSuccess → Stored B s u :=
  .bind (spec_call _) fun _ => .bind (spec_call _) fun _ => .pure fun _ _ _ hret => absurd hret h

theorem spec_deleteAndReturn {status : UINT} (h : status ≠ nxSuccess) :
    clockLogic.Spec (fun _ _ => True) (deleteAndReturn status) fun ret s u =>
      ret = nxSuccess → Stored B s u :=
  .bind (spec_call _) fun _ => .pure fun _ _ _ hret => absurd hret h

theorem spec_acceptUpdate (sntpSeconds : ULONG) :
    clockLogic.Spec
      (fun _ u => ∃ v, u = v ++ [⟨.nxSntpClientGetLocalTime, (nxSuccess, sntpSeconds)⟩])
      (acceptUpdate B sntpSeconds) fun ret s u => ret = nxSuccess → Stored B s u := by
  intro s u ⟨v, hu⟩ ticks stopped deleted _
  refine ⟨sntpSeconds, ticks, rfl, v, stopped, deleted, ?_⟩
  rw [hu]
  simp only [updateEvents, List.append_assoc, List.cons_append, List.nil_append]

theorem spec_pollLoop (i : Nat) :
    clockLogic.Spec (fun _ _ => True) (pollLoop B i) fun ret s u =>
      ret = nxSuccess → Stored B s u := by
  induction i with
  | zero => exact spec_stopAndReturn (by decide)
  | succ i ih =>
    refine .bind (spec_call _) fun (status, serverStatus) => .ite (fun _ => ?_) fun _ => ?_
    · refine .bind (Q := fun a _ u => ∃ v, u = v ++ [⟨.nxSntpClientGetLocalTime, a⟩])
        (.of_call fun _ u _ a => ⟨u, rfl⟩) fun (status, sntpSeconds) =>
          .ite (fun _ => ?_) fun h => ?_
      · exact ih.pre fun _ _ _ => trivial
      · obtain rfl : status = nxSuccess := Classical.not_not.mp h
        exact spec_acceptUpdate sntpSeconds
    · exact .bind (spec_call _) fun _ => ih

theorem spec_runClient (ipPtr poolPtr : Nat) (sntpServerAddress : ULONG) :
    clockLogic.Spec (fun _ _ => True) (runClient B ipPtr poolPtr sntpServerAddress) fun ret s u =>
      ret = nxSuccess → Stored B s u := by
  refine .bind (spec_call _) fun status => .ite (fun h => .pure fun _ _ _ hret => absurd hret h)
    fun _ => ?_
  refine .bind (spec_call _) fun status => .ite (fun h => spec_deleteAndReturn h) fun _ => ?_
  refine .bind (spec_call _) fun status => .ite (fun h => spec_deleteAndReturn h) fun _ => ?_
  exact .bind (spec_call _) fun status => .ite (fun h => spec_stopAndReturn h) fun _ =>
    spec_pollLoop _

theorem spec_lookupLoop (dnsPtr : Nat) (name : CStr) (fuel : Nat) (address : ULONG) :
    clockLogic.Spec (fun _ _ => True) (lookupLoop B dnsPtr name fuel address)
      fun _ _ _ => True := by
  induction fuel generalizing address with
  | zero => exact .stop fun _ _ _ => trivial
  | succ fuel ih =>
    exact .bind (spec_call _) fun lookup => .ite (fun _ => ih _) fun _ => .pure fun _ _ h => h

theorem spec_sntpTimeSync (fuel : Nat) (stack : ULONG) (ipPtr poolPtr dnsPtr : Nat) (name : CStr) :
    clockLogic.Spec (fun _ _ => True) (sntpTimeSync B fuel stack ipPtr poolPtr dnsPtr name)
      fun ret s u => ret = nxSuccess → Stored B s u :=
  .bind (spec_lookupLoop _ _ _ _) fun _ =>
    .ite (fun h => .pure fun _ _ _ hret => absurd hret h) fun _ => spec_runClient _ _ _

/-- A successful synchronisation has stored its base. -/
theorem stored_of_success {ans : Tr Op Ans → (op : Op) → Ans op} {s : St} {t : Tr Op Ans}
    {fuel : Nat} {stack : ULONG} {ipPtr poolPtr dnsPtr : Nat} {name : CStr}
    (hok : ((sntpTimeSync B fuel stack ipPtr poolPtr dnsPtr name).run (.sequential ans) s t).res =
      .ok nxSuccess) :
    Stored B ((sntpTimeSync B fuel stack ipPtr poolPtr dnsPtr name).run (.sequential ans) s t).st
      (((sntpTimeSync B fuel stack ipPtr poolPtr dnsPtr name).run (.sequential ans) s t).tr.drop
        t.length) := by
  have hsat := (spec_sntpTimeSync (B := B) fuel stack ipPtr poolPtr dnsPtr name).added_sat ans
    (s := s) trivial t
  unfold Out.Sat at hsat
  rw [hok] at hsat
  exact hsat rfl

/-! ## Synchronised states -/

/-- The states in which a synchronisation to the Unix time `unixTime` at the tick count `ticks`
leaves the clock. -/
inductive SyncedAt (B : Build) (unixTime ticks : ULONG) : St → Prop where
  | setTime {ans : Tr Op Ans → (op : Op) → Ans op} {s : St} {t : Tr Op Ans}
      (hticks : ans t .txTimeGet = ticks) :
      SyncedAt B unixTime ticks ((setTime B unixTime).run (.sequential ans) s t).st
  | sntp {ans : Tr Op Ans → (op : Op) → Ans op} {s : St} {t u : Tr Op Ans} {fuel : Nat}
      {stack : ULONG} {ipPtr poolPtr dnsPtr : Nat} {name : CStr} {stopped deleted : UINT}
      (hok : ((sntpTimeSync B fuel stack ipPtr poolPtr dnsPtr name).run (.sequential ans) s t).res =
        .ok nxSuccess)
      (htr : ((sntpTimeSync B fuel stack ipPtr poolPtr dnsPtr name).run (.sequential ans) s t).tr =
        t ++ (u ++ updateEvents (unixTime + unixToNtpEpochSecond) ticks stopped deleted)) :
      SyncedAt B unixTime ticks
        ((sntpTimeSync B fuel stack ipPtr poolPtr dnsPtr name).run (.sequential ans) s t).st

theorem SyncedAt.base {unixTime ticks : ULONG} {s : St} (h : SyncedAt B unixTime ticks s) :
    s.unixTimeBase = unixTime - ticks / B.txTimerTicksPerSecond := by
  cases h with
  | setTime hticks =>
    subst hticks
    rfl
  | sntp hok htr =>
    obtain ⟨sntpSeconds, ticks', hbase, v, stopped', deleted', hevents⟩ := stored_of_success hok
    rw [htr, List.drop_left] at hevents
    have hlength : ∀ a b c d, (updateEvents a b c d).length = 4 := fun _ _ _ _ => rfl
    have hlast := (List.append_inj' hevents ((hlength ..).trans (hlength ..).symm)).2
    simp only [updateEvents, List.cons.injEq, Sigma.mk.injEq, heq_eq_eq, true_and, and_true,
      Prod.mk.injEq] at hlast
    obtain ⟨rfl, rfl, -⟩ := hlast
    rw [hbase, ← UInt32.toNat_inj]
    have := (ticks / B.txTimerTicksPerSecond).toNat_lt
    simp only [UInt32.toNat_sub, UInt32.toNat_add]
    omega

/-- The clock reads the time of the synchronisation and the seconds that the tick counter has
counted since, modulo `2^32`. -/
theorem clock_exact {unixTime ticks : ULONG} {s : St} (h : SyncedAt B unixTime ticks s)
    (ans : Tr Op Ans → (op : Op) → Ans op) (t : Tr Op Ans) (hle : ticks ≤ ans t .txTimeGet) :
    ∃ time, ((unixTimeGet B).run (.sequential ans) s t).res = .ok (nxSuccess, time) ∧
      time.toNat = (unixTime.toNat + (ans t .txTimeGet).toNat / B.txTimerTicksPerSecond.toNat -
        ticks.toNat / B.txTimerTicksPerSecond.toNat) % 2 ^ 32 := by
  refine ⟨s.unixTimeBase + ans t .txTimeGet / B.txTimerTicksPerSecond, rfl, ?_⟩
  have hmono : ticks.toNat / B.txTimerTicksPerSecond.toNat ≤
      (ans t .txTimeGet).toNat / B.txTimerTicksPerSecond.toNat :=
    Nat.div_le_div_right (UInt32.le_iff_toNat_le.mp hle)
  have hlt : ticks.toNat / B.txTimerTicksPerSecond.toNat < 2 ^ 32 :=
    (Nat.div_le_self _ _).trans_lt ticks.toNat_lt
  rw [h.base, UInt32.toNat_add, UInt32.toNat_sub, UInt32.toNat_div, UInt32.toNat_div]
  generalize ticks.toNat / B.txTimerTicksPerSecond.toNat = q at hmono hlt ⊢
  generalize (ans t .txTimeGet).toNat / B.txTimerTicksPerSecond.toNat = q' at hmono ⊢
  omega

/-- The first second of the NTP counter's second era, with more system seconds than NTP seconds. -/
theorem clock_exact_era :
    SyncedAt .sample 0x7C558180 0xFFFFFFFF ((sntpTimeSync .sample 1 0 1 2 3 (cstr "pool")).run
      (.sequential fun _ => answering 0 0xFFFFFFFF) .init []).st ∧
    ∃ time, ((unixTimeGet .sample).run (.sequential fun _ => answering 0 0xFFFFFFFF)
        ((sntpTimeSync .sample 1 0 1 2 3 (cstr "pool")).run
          (.sequential fun _ => answering 0 0xFFFFFFFF) .init []).st []).res =
        .ok (nxSuccess, time) ∧
      time.toNat = 0x7C558180 := by
  have hsynced : SyncedAt .sample 0x7C558180 0xFFFFFFFF
      ((sntpTimeSync .sample 1 0 1 2 3 (cstr "pool")).run
        (.sequential fun _ => answering 0 0xFFFFFFFF) .init []).st :=
    .sntp (u := ((sntpTimeSync .sample 1 0 1 2 3 (cstr "pool")).run
      (.sequential fun _ => answering 0 0xFFFFFFFF) .init []).tr.take 6) rfl rfl
  obtain ⟨time, hres, htime⟩ :=
    clock_exact hsynced (fun _ => answering 0 0xFFFFFFFF) [] (UInt32.le_refl _)
  exact ⟨hsynced, time, hres, htime⟩

end Iotc.Time
