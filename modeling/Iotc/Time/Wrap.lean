import Iotc.Time.Clock
import Mathlib.Algebra.Order.Ring.Abs
import Mathlib.Data.Rat.Cast.Order
import Mathlib.Order.Monotone.Basic
import Mathlib.Tactic.FieldSimp
import Mathlib.Tactic.Linarith
import Mathlib.Tactic.Ring

/-!
# The clock and the wrap of the tick counter

`tx_time_get` shows an unbounded tick count modulo `2^32`, and `unix_time_get` divides what it
shows. Up to the first wrap after a synchronisation the clock is less than a second off and never
goes back; behind it, unless a tick is a second, neither holds (`steady_iff`).
-/

namespace Iotc.Time

open Iotc.C Iotc.Resume
open Iotc.Web (nxSuccess)

variable {B : Build}

/-- The ticks that `tx_time_get` shows: the `n`th moment is the one with `n` events behind it. -/
def Ticking (count : Nat → Nat) (ans : Tr Op Ans → (op : Op) → Ans op) : Prop :=
  Monotone count ∧ ∀ t, ans t .txTimeGet = .ofNat (count t.length)

/-- The synchronised time and the seconds since, at the tick count `n`. -/
def trueTime (B : Build) (unixTime : ULONG) (synced n : Nat) : ℚ :=
  unixTime.toNat + ((n : ℚ) - synced) / B.txTimerTicksPerSecond.toNat

/-- Readings that never go back and stay within two seconds of the true time; the first is taken
at the moment `m`. -/
structure Steady (B : Build) (unixTime : ULONG) (synced : Nat) (count : Nat → Nat) (m : Nat)
    (times : List ULONG) : Prop where
  sorted : times.Pairwise (· ≤ ·)
  near : ∀ i time, times[i]? = some time →
    |(time.toNat : ℚ) - trueTime B unixTime synced (count (m + i))| < 2

/-- So is every run of readings, however many, up to the tick count `last`. -/
def RunsSteady (B : Build) (unixTime : ULONG) (synced last : Nat) (s : St) : Prop :=
  ∀ (count : Nat → Nat) (ans : Tr Op Ans → (op : Op) → Ans op) (t : Tr Op Ans) (k : Nat),
    Ticking count ans → synced ≤ count t.length → (∀ i < k, count (t.length + i) ≤ last) →
    ∃ times, ((session (fun _ => unixTimeGet B) (List.replicate k ())).run
        (.sequential ans) s t).res = .ok (times.map (nxSuccess, ·)) ∧
      Steady B unixTime synced count t.length times

/-- What `unix_time_get` reads at the tick count `n`. -/
def reading (B : Build) (s : St) (n : Nat) : ULONG :=
  s.unixTimeBase + .ofNat n / B.txTimerTicksPerSecond

theorem run_readings {count : Nat → Nat} {ans : Tr Op Ans → (op : Op) → Ans op}
    (h : Ticking count ans) (s : St) (t : Tr Op Ans) (k : Nat) :
    ((session (fun _ => unixTimeGet B) (List.replicate k ())).run (.sequential ans) s t).res =
      .ok ((List.range k).map fun i => (nxSuccess, reading B s (count (t.length + i)))) := by
  induction k generalizing t with
  | zero => rfl
  | succ k ih =>
    have hrun : (unixTimeGet B).run (.sequential ans) s t = ⟨.ok (nxSuccess,
        reading B s (count t.length)), s, t ++ [⟨.txTimeGet, ans t .txTimeGet⟩]⟩ := by
      rw [reading, ← h.2]
      rfl
    have hnext := ih (t ++ [⟨.txTimeGet, ans t .txTimeGet⟩])
    generalize hrest : (session (fun _ => unixTimeGet B) (List.replicate k ())).run
      (.sequential ans) s (t ++ [⟨.txTimeGet, ans t .txTimeGet⟩]) = o at hnext
    obtain ⟨res, s', t'⟩ := o
    dsimp only at hnext
    subst hnext
    rw [List.replicate_succ, session, run_bind, hrun, Out.bind_ok, run_bind, hrest, Out.bind_ok,
      run_pure, List.range_succ_eq_map, List.map_cons, List.map_map]
    simp only [List.length_append, List.length_singleton, Nat.add_zero, Function.comp_def,
      Nat.succ_eq_add_one, Nat.add_assoc, Nat.add_comm 1]

/-! ## Arithmetic -/

section
variable {unixTime : ULONG} {synced n : Nat} {s : St}

/-- Without fractions. -/
theorem near_iff (time : ULONG) :
    |(time.toNat : ℚ) - trueTime B unixTime synced n| < 2 ↔
      B.txTimerTicksPerSecond.toNat * unixTime.toNat + n <
          B.txTimerTicksPerSecond.toNat * time.toNat + synced +
            2 * B.txTimerTicksPerSecond.toNat ∧
        B.txTimerTicksPerSecond.toNat * time.toNat + synced <
          B.txTimerTicksPerSecond.toNat * unixTime.toNat + n +
            2 * B.txTimerTicksPerSecond.toNat := by
  have hpos : (0 : ℚ) < B.txTimerTicksPerSecond.toNat :=
    Nat.cast_pos.mpr (UInt32.lt_iff_toNat_lt.mp B.ticks_pos)
  unfold trueTime
  generalize B.txTimerTicksPerSecond.toNat = T at hpos ⊢
  have hscale : |(time.toNat : ℚ) - (unixTime.toNat + (n - synced) / T)| < 2 ↔
      |(T * time.toNat - T * unixTime.toNat - (n - synced) : ℚ)| < 2 * T := by
    have heq : (T * time.toNat - T * unixTime.toNat - (n - synced) : ℚ) =
        T * (time.toNat - (unixTime.toNat + (n - synced) / T)) := by
      field_simp
      ring
    rw [heq, abs_mul, abs_of_pos hpos, mul_comm 2, mul_lt_mul_iff_right₀ hpos]
  rw [hscale, abs_lt]
  refine and_congr ?_ ?_ <;> rw [← @Nat.cast_lt ℚ] <;> push_cast
  · constructor <;> intro h <;> linarith
  · constructor <;> intro h <;> linarith

theorem trueTime_lt_iff :
    trueTime B unixTime synced n < 2 ^ 32 ↔
      B.txTimerTicksPerSecond.toNat * unixTime.toNat + n <
        2 ^ 32 * B.txTimerTicksPerSecond.toNat + synced := by
  have hpos : (0 : ℚ) < B.txTimerTicksPerSecond.toNat :=
    Nat.cast_pos.mpr (UInt32.lt_iff_toNat_lt.mp B.ticks_pos)
  unfold trueTime
  generalize B.txTimerTicksPerSecond.toNat = T at hpos ⊢
  have heq : (unixTime.toNat + (n - synced) / T : ℚ) = (T * unixTime.toNat + (n - synced)) / T := by
    field_simp
  rw [heq, div_lt_iff₀ hpos, ← @Nat.cast_lt ℚ]
  push_cast
  constructor <;> intro h <;> linarith

theorem reading_toNat (h : SyncedAt B unixTime (.ofNat synced) s) (n : Nat) :
    (reading B s n).toNat =
      ((2 ^ 32 - synced % 2 ^ 32 / B.txTimerTicksPerSecond.toNat + unixTime.toNat) % 2 ^ 32 +
        n % 2 ^ 32 / B.txTimerTicksPerSecond.toNat) % 2 ^ 32 := by
  rw [reading, h.base, UInt32.toNat_add, UInt32.toNat_sub, UInt32.toNat_div, UInt32.toNat_div,
    UInt32.toNat_ofNat', UInt32.toNat_ofNat']

/-- Whole seconds that a counter shows. -/
theorem seconds_bounds (B : Build) (n : Nat) :
    B.txTimerTicksPerSecond.toNat * (n / B.txTimerTicksPerSecond.toNat) ≤ n ∧
      n < B.txTimerTicksPerSecond.toNat * (n / B.txTimerTicksPerSecond.toNat) +
        B.txTimerTicksPerSecond.toNat := by
  have hpos : 0 < B.txTimerTicksPerSecond.toNat := UInt32.lt_iff_toNat_lt.mp B.ticks_pos
  exact ⟨Nat.mul_div_le n _, Nat.lt_mul_div_succ n hpos⟩

/-- Ticks of a second do not suffer from the wrap. -/
theorem reading_of_one (h : SyncedAt B unixTime (.ofNat synced) s) (hle : synced ≤ n)
    (htrue : trueTime B unixTime synced n < 2 ^ 32) (hone : B.txTimerTicksPerSecond = 1) :
    (reading B s n).toNat = unixTime.toNat + (n - synced) := by
  have hT : B.txTimerTicksPerSecond.toNat = 1 := by rw [hone]; rfl
  rw [trueTime_lt_iff, hT] at htrue
  rw [reading_toNat h, hT, Nat.div_one, Nat.div_one]
  omega

/-- Before the counter wraps, it is the synchronised time and the seconds it has shown since. -/
theorem reading_of_unwrapped (h : SyncedAt B unixTime (.ofNat synced) s) (hle : synced ≤ n)
    (hwrap : n / 2 ^ 32 = synced / 2 ^ 32)
    (hlt : unixTime.toNat + n % 2 ^ 32 / B.txTimerTicksPerSecond.toNat -
      synced % 2 ^ 32 / B.txTimerTicksPerSecond.toNat < 2 ^ 32) :
    (reading B s n).toNat + synced % 2 ^ 32 / B.txTimerTicksPerSecond.toNat =
        unixTime.toNat + n % 2 ^ 32 / B.txTimerTicksPerSecond.toNat := by
  have hmono : synced % 2 ^ 32 / B.txTimerTicksPerSecond.toNat ≤
      n % 2 ^ 32 / B.txTimerTicksPerSecond.toNat := Nat.div_le_div_right (by omega)
  have hsynced : synced % 2 ^ 32 / B.txTimerTicksPerSecond.toNat ≤ synced % 2 ^ 32 :=
    Nat.div_le_self ..
  rw [reading_toNat h]
  generalize synced % 2 ^ 32 / B.txTimerTicksPerSecond.toNat = b at *
  generalize n % 2 ^ 32 / B.txTimerTicksPerSecond.toNat = a at *
  omega

end

/-! ## Runs -/

/-- A tick is a second; or the counter has not wrapped since the synchronisation, and the seconds
it has shown do not take the clock to `2^32`. -/
def Unwrapped (B : Build) (unixTime : ULONG) (synced n : Nat) : Prop :=
  B.txTimerTicksPerSecond = 1 ∨ n / 2 ^ 32 = synced / 2 ^ 32 ∧
    unixTime.toNat + n % 2 ^ 32 / B.txTimerTicksPerSecond.toNat -
      synced % 2 ^ 32 / B.txTimerTicksPerSecond.toNat < 2 ^ 32

section
variable {unixTime : ULONG} {synced last n : Nat} {s : St}

theorem Unwrapped.earlier (h : Unwrapped B unixTime synced last) (hle : synced ≤ n)
    (hlast : n ≤ last) : Unwrapped B unixTime synced n := by
  refine h.imp_right fun ⟨hwrap, hlt⟩ => ⟨by omega, ?_⟩
  have hmono : n % 2 ^ 32 / B.txTimerTicksPerSecond.toNat ≤
      last % 2 ^ 32 / B.txTimerTicksPerSecond.toNat := Nat.div_le_div_right (by omega)
  omega

theorem trueTime_mono (hlast : n ≤ last) (h : trueTime B unixTime synced last < 2 ^ 32) :
    trueTime B unixTime synced n < 2 ^ 32 := by
  rw [trueTime_lt_iff] at h ⊢
  omega

/-- The clock is less than a second off. -/
theorem near_of_unwrapped (h : SyncedAt B unixTime (.ofNat synced) s) (hle : synced ≤ n)
    (htrue : trueTime B unixTime synced n < 2 ^ 32) (hn : Unwrapped B unixTime synced n) :
    |((reading B s n).toNat : ℚ) - trueTime B unixTime synced n| < 2 := by
  rw [near_iff]
  rcases hn with hone | ⟨hwrap, hlt⟩
  · have hT : B.txTimerTicksPerSecond.toNat = 1 := by rw [hone]; rfl
    rw [reading_of_one h hle htrue hone, hT]
    omega
  · have hread := congrArg (B.txTimerTicksPerSecond.toNat * ·)
      (reading_of_unwrapped h hle hwrap hlt)
    obtain ⟨hn0, hn1⟩ := seconds_bounds B (n % 2 ^ 32)
    obtain ⟨hs0, hs1⟩ := seconds_bounds B (synced % 2 ^ 32)
    simp only [Nat.mul_add] at hread
    omega

theorem reading_mono (h : SyncedAt B unixTime (.ofNat synced) s) (hle : synced ≤ n)
    (hlast : n ≤ last) (htrue : trueTime B unixTime synced last < 2 ^ 32)
    (hun : Unwrapped B unixTime synced last) : reading B s n ≤ reading B s last := by
  rw [UInt32.le_iff_toNat_le]
  rcases hun with hone | ⟨hwrap, hlt⟩
  · rw [reading_of_one h hle (trueTime_mono hlast htrue) hone,
      reading_of_one h (hle.trans hlast) htrue hone]
    omega
  · have hmono : n % 2 ^ 32 / B.txTimerTicksPerSecond.toNat ≤
        last % 2 ^ 32 / B.txTimerTicksPerSecond.toNat := Nat.div_le_div_right (by omega)
    have hread := reading_of_unwrapped h hle (n := n) (by omega) (by omega)
    have hlast := reading_of_unwrapped h (hle.trans hlast) hwrap hlt
    omega

/-- The readings on the two sides of the first wrap: the seconds shown so far are lost. -/
theorem wrap_unsteady (h : SyncedAt B unixTime (.ofNat synced) s)
    (hone : B.txTimerTicksPerSecond ≠ 1) (hn : n = 2 ^ 32 * (synced / 2 ^ 32 + 1)) :
    ¬ (reading B s (n - 1) ≤ reading B s n ∧
      |((reading B s (n - 1)).toNat : ℚ) - trueTime B unixTime synced (n - 1 : Nat)| < 2 ∧
      |((reading B s n).toNat : ℚ) - trueTime B unixTime synced n| < 2) := by
  rintro ⟨hle, hbefore, hafter⟩
  rw [near_iff] at hbefore hafter
  rw [UInt32.le_iff_toNat_le] at hle
  have hshown : (n - 1) % 2 ^ 32 = 2 ^ 32 - 1 := by omega
  have hzero : n % 2 ^ 32 = 0 := by omega
  have hT : 2 ≤ B.txTimerTicksPerSecond.toNat := by
    have hpos := UInt32.lt_iff_toNat_lt.mp B.ticks_pos
    have hne : B.txTimerTicksPerSecond.toNat ≠ 1 := fun h1 => hone (UInt32.toNat_inj.mp h1)
    simp only [UInt32.toNat_zero] at hpos
    omega
  have hfull : 1 ≤ (2 ^ 32 - 1) / B.txTimerTicksPerSecond.toNat :=
    Nat.div_pos (by have := B.txTimerTicksPerSecond.toNat_lt; omega) (by omega)
  have hfits : (2 ^ 32 - 1) / B.txTimerTicksPerSecond.toNat ≤ 2 ^ 32 - 1 := Nat.div_le_self ..
  have hU := unixTime.toNat_lt
  obtain ⟨ha0, ha1⟩ := seconds_bounds B (2 ^ 32 - 1)
  obtain ⟨hb0, hb1⟩ := seconds_bounds B (synced % 2 ^ 32)
  have hb : synced % 2 ^ 32 / B.txTimerTicksPerSecond.toNat ≤ synced % 2 ^ 32 := Nat.div_le_self ..
  have hread1 := reading_toNat h (n - 1)
  have hread2 := reading_toNat h n
  rw [hshown] at hread1
  rw [hzero, Nat.zero_div, Nat.add_zero] at hread2
  generalize (reading B s (n - 1)).toNat = r1 at *
  generalize (reading B s n).toNat = r2 at *
  generalize (2 ^ 32 - 1) / B.txTimerTicksPerSecond.toNat = a at *
  generalize synced % 2 ^ 32 / B.txTimerTicksPerSecond.toNat = b at *
  generalize B.txTimerTicksPerSecond.toNat = T at *
  generalize unixTime.toNat = U at *
  rcases Nat.lt_or_ge U b with hlt | hge
  · have hval : r2 + b = 2 ^ 32 + U := by omega
    have hmul := congrArg (T * ·) hval
    simp only [Nat.mul_add] at hmul
    omega
  · have hval : r2 + b = U := by omega
    have hmul := congrArg (T * ·) hval
    simp only [Nat.mul_add] at hmul
    rcases Nat.lt_or_ge (r2 + a) (2 ^ 32) with hsmall | hlarge
    · omega
    · have hval1 : r1 + 2 ^ 32 = r2 + a := by omega
      have hmul1 := congrArg (T * ·) hval1
      simp only [Nat.mul_add] at hmul1
      omega

/-- A clock that has run past `2^32` before the true time has. -/
theorem overrun_unsteady (h : SyncedAt B unixTime (.ofNat synced) s)
    (htrue : trueTime B unixTime synced n < 2 ^ 32) (hwrap : n / 2 ^ 32 = synced / 2 ^ 32)
    (hover : 2 ^ 32 ≤ unixTime.toNat + n % 2 ^ 32 / B.txTimerTicksPerSecond.toNat -
      synced % 2 ^ 32 / B.txTimerTicksPerSecond.toNat) :
    ¬ |((reading B s n).toNat : ℚ) - trueTime B unixTime synced n| < 2 := by
  intro hnear
  rw [near_iff] at hnear
  rw [trueTime_lt_iff] at htrue
  have hpos : 0 < B.txTimerTicksPerSecond.toNat := UInt32.lt_iff_toNat_lt.mp B.ticks_pos
  have hU := unixTime.toNat_lt
  obtain ⟨ha0, ha1⟩ := seconds_bounds B (n % 2 ^ 32)
  obtain ⟨hb0, hb1⟩ := seconds_bounds B (synced % 2 ^ 32)
  have hb : synced % 2 ^ 32 / B.txTimerTicksPerSecond.toNat ≤ synced % 2 ^ 32 := Nat.div_le_self ..
  have hread := reading_toNat h n
  generalize (reading B s n).toNat = r at *
  generalize n % 2 ^ 32 / B.txTimerTicksPerSecond.toNat = a at *
  generalize synced % 2 ^ 32 / B.txTimerTicksPerSecond.toNat = b at *
  generalize B.txTimerTicksPerSecond.toNat = T at *
  generalize unixTime.toNat = U at *
  have hlt : T * (U + a) < T * (2 ^ 32 + b + 1) := by
    simp only [Nat.mul_add]
    omega
  have hval : U + a = 2 ^ 32 + b := by
    have := Nat.lt_of_mul_lt_mul_left hlt
    omega
  have hmul := congrArg (T * ·) hval
  simp only [Nat.mul_add] at hmul
  obtain rfl : r = 0 := by omega
  omega

/-- A run of readings is one of the function `reading`. -/
theorem times_eq {count : Nat → Nat} {ans : Tr Op Ans → (op : Op) → Ans op}
    (h : Ticking count ans) {t : Tr Op Ans} {k : Nat} {times : List ULONG}
    (hrun : ((session (fun _ => unixTimeGet B) (List.replicate k ())).run
      (.sequential ans) s t).res = .ok (times.map (nxSuccess, ·))) :
    times = (List.range k).map fun i => reading B s (count (t.length + i)) := by
  rw [run_readings h] at hrun
  have hmap : times.map ((nxSuccess, ·) : ULONG → UINT × ULONG) =
      ((List.range k).map fun i => reading B s (count (t.length + i))).map (nxSuccess, ·) := by
    rw [List.map_map]
    exact (Except.ok.inj hrun).symm
  exact List.map_injective_iff.mpr (fun _ _ heq => (Prod.mk.inj heq).2) hmap

/-- Every non-decreasing sequence of tick counts is shown in some run. -/
theorem steady_of_runs
    (hruns : RunsSteady B unixTime synced last s)
    (count : Nat → Nat) (k : Nat) (hmono : Monotone count) (hsynced : synced ≤ count 0)
    (hlast : ∀ i < k, count i ≤ last) :
    Steady B unixTime synced count 0 ((List.range k).map fun i => reading B s (count i)) := by
  have hticks : Ticking count fun t => answering 0 (.ofNat (count t.length)) :=
    ⟨hmono, fun _ => rfl⟩
  obtain ⟨times, hrun, hsteady⟩ := hruns count _ [] k hticks hsynced
    (by simpa only [List.length_nil, Nat.zero_add] using hlast)
  have htimes := times_eq hticks hrun
  simp only [List.length_nil, Nat.zero_add] at htimes
  exact htimes ▸ hsteady

theorem unwrapped_of_runs (h : SyncedAt B unixTime (.ofNat synced) s) (hle : synced ≤ last)
    (htrue : trueTime B unixTime synced last < 2 ^ 32)
    (hruns : RunsSteady B unixTime synced last s) : Unwrapped B unixTime synced last := by
  by_contra hun
  rw [Unwrapped, not_or, not_and, not_lt] at hun
  obtain ⟨hone, hover⟩ := hun
  by_cases hwrap : last / 2 ^ 32 = synced / 2 ^ 32
  · have hsteady := steady_of_runs hruns (fun _ => last) 1 monotone_const hle
      fun _ _ => Nat.le_refl _
    exact overrun_unsteady h htrue hwrap (hover hwrap) (hsteady.near 0 _ rfl)
  · obtain ⟨w, hw⟩ : ∃ w, w = 2 ^ 32 * (synced / 2 ^ 32 + 1) := ⟨_, rfl⟩
    have hmono : Monotone fun i => w - 1 + min i 1 := fun i j hij =>
      Nat.add_le_add_left (min_le_min_right 1 hij) _
    have hsteady := steady_of_runs hruns _ 2 hmono (by omega) fun i _ => by omega
    have hnext : w - 1 + min 1 1 = w := by omega
    refine wrap_unsteady h hone hw ⟨?_, hsteady.near 0 _ rfl, ?_⟩
    · have hsorted := hsteady.sorted
      simp only [List.range_succ_eq_map, List.range_zero, List.map_cons, List.map_nil,
        List.pairwise_pair, Nat.succ_eq_add_one, Nat.zero_add, hnext] at hsorted
      exact hsorted
    · have hnear := hsteady.near 1 _ rfl
      simp only [Nat.zero_add, hnext] at hnear
      exact hnear

theorem runs_of_unwrapped (h : SyncedAt B unixTime (.ofNat synced) s)
    (htrue : trueTime B unixTime synced last < 2 ^ 32) (hun : Unwrapped B unixTime synced last) :
    RunsSteady B unixTime synced last s := by
  intro count ans t k hticks hsynced hlast
  refine ⟨(List.range k).map fun i => reading B s (count (t.length + i)), ?_, ?_, ?_⟩
  · rw [run_readings hticks, List.map_map]
    rfl
  · refine List.pairwise_map.mpr (List.pairwise_lt_range.imp_of_mem fun {i j} _ hj hij => ?_)
    have hj := hlast j (List.mem_range.mp hj)
    have hi : synced ≤ count (t.length + i) := hsynced.trans (hticks.1 (Nat.le_add_right _ _))
    have hij : count (t.length + i) ≤ count (t.length + j) :=
      hticks.1 (Nat.add_le_add_left hij.le _)
    exact reading_mono h hi hij (trueTime_mono hj htrue) (hun.earlier (hi.trans hij) hj)
  · intro i time htime
    obtain ⟨hi, rfl⟩ : i < k ∧ reading B s (count (t.length + i)) = time := by
      rw [List.getElem?_map] at htime
      obtain ⟨j, hj, htime⟩ := Option.map_eq_some_iff.mp htime
      obtain ⟨hi, hji⟩ := List.getElem?_eq_some_iff.mp hj
      rw [List.getElem_range] at hji
      rw [List.length_range] at hi
      exact ⟨hi, hji ▸ htime⟩
    have hsynced : synced ≤ count (t.length + i) :=
      hsynced.trans (hticks.1 (Nat.le_add_right _ _))
    exact near_of_unwrapped h hsynced (trueTime_mono (hlast i hi) htrue)
      (hun.earlier hsynced (hlast i hi))

/-- The clock is steady up to the tick count `last` just when the tick counter does not wrap on the
way there or wraps without harm. -/
theorem steady_iff (h : SyncedAt B unixTime (.ofNat synced) s) (hle : synced ≤ last)
    (htrue : trueTime B unixTime synced last < 2 ^ 32) :
    RunsSteady B unixTime synced last s ↔ Unwrapped B unixTime synced last :=
  ⟨unwrapped_of_runs h hle htrue, runs_of_unwrapped h htrue⟩

end

/-- The clock of the samples set at start-up. -/
def setAtBoot : St :=
  ((setTime .sample 1600000000).run (.sequential fun _ => answering 0 0) .init []).st

/-- A day later. -/
theorem steady_a_day : RunsSteady .sample 1600000000 0 8640000 setAtBoot :=
  (steady_iff (.setTime rfl) (Nat.zero_le _)
    (trueTime_lt_iff.mpr (by decide))).mpr (.inr (by decide))

/-- After 497 days the counter wraps. -/
theorem wrap_goes_back :
    SyncedAt .sample 1600000000 0 setAtBoot ∧ trueTime .sample 1600000000 0 (2 ^ 32) < 2 ^ 32 ∧
      ¬ RunsSteady .sample 1600000000 0 (2 ^ 32) setAtBoot := by
  have htrue : trueTime .sample 1600000000 0 (2 ^ 32) < 2 ^ 32 := trueTime_lt_iff.mpr (by decide)
  refine ⟨.setTime rfl, htrue, fun hruns => ?_⟩
  have hun := unwrapped_of_runs (.setTime rfl) (Nat.zero_le _) htrue hruns
  exact absurd hun (by unfold Unwrapped; decide)

end Iotc.Time
