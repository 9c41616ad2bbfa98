import Iotc.Resume.Hoare
import Iotc.Time.Client

/-!
# The lookup of the time server

The loop of `sntp_time_sync` looks at the low byte of the address and not at the status of the
lookup. A failed lookup ends it only by an address left over from before, which is to say by the
content of an uninitialised variable (`gives_up_iff`).
-/

namespace Iotc.Time

open Iotc.C Iotc.Resume
open Iotc.Web (nxSuccess)

/-- A call of `sntp_time_sync`: its arguments, the answers it gets from the trace `t` on, and what
the variable for the address holds at first. -/
structure SyncCall where
  B : Build
  ipPtr : Nat
  poolPtr : Nat
  dnsPtr : Nat
  sntpServerName : CStr
  ans : Tr Op Ans → (op : Op) → Ans op
  t : Tr Op Ans
  stack : ULONG

namespace SyncCall

variable (c : SyncCall)

abbrev lookupOp : Op :=
  .nxDnsHostByNameGet c.dnsPtr c.sntpServerName (5 * c.B.nxIpPeriodicRate)

/-- The first `i` lookups, if there are so many. -/
def lookups : Nat → Tr Op Ans
  | 0 => []
  | i + 1 => lookups i ++ [⟨c.lookupOp, c.ans (c.t ++ lookups i) c.lookupOp⟩]

/-- What lookup `i` comes to. -/
def lookup (i : Nat) : Lookup := c.ans (c.t ++ c.lookups i) c.lookupOp

/-- The address after `i` lookups. -/
def address : Nat → ULONG
  | 0 => c.stack
  | i + 1 => (c.lookup i).addressAfter (address i)

def run (fuel : Nat) (s : St) : Out Op Ans St UINT :=
  (sntpTimeSync c.B fuel c.stack c.ipPtr c.poolPtr c.dnsPtr c.sntpServerName).run
    (.sequential c.ans) s c.t

/-! ## The loop -/

theorem mem_lookups {i : Nat} {ev : Ev Op Ans} (h : ev ∈ c.lookups i) : ev.1 = c.lookupOp := by
  induction i with
  | zero => exact absurd h List.not_mem_nil
  | succ i ih =>
    rcases List.mem_append.mp h with h | h
    · exact ih h
    · rw [List.mem_singleton.mp h]

theorem lookups_prefix {i k : Nat} (h : i < k) :
    ∃ v, c.lookups k = c.lookups i ++ ⟨c.lookupOp, c.lookup i⟩ :: v := by
  induction k with
  | zero => exact absurd h (Nat.not_lt_zero i)
  | succ k ih =>
    rcases Nat.lt_succ_iff_lt_or_eq.mp h with h | rfl
    · obtain ⟨v, hv⟩ := ih h
      exact ⟨v ++ [_], by rw [lookups, hv, List.append_assoc, List.cons_append]⟩
    · exact ⟨[], rfl⟩

theorem length_lookups (i : Nat) : (c.lookups i).length = i := by
  induction i with
  | zero => rfl
  | succ i ih => rw [lookups, List.length_append, ih, List.length_singleton]

/-- The loop, `i` lookups behind it. -/
def loopFrom (fuel i : Nat) (s : St) : Out Op Ans St (UINT × ULONG) :=
  (lookupLoop c.B c.dnsPtr c.sntpServerName fuel (c.address i)).run (.sequential c.ans) s
    (c.t ++ c.lookups i)

theorem loopFrom_succ (fuel i : Nat) (s : St) :
    c.loopFrom (fuel + 1) i s = if c.address (i + 1) &&& 0xFF = 0 then c.loopFrom fuel (i + 1) s
      else ⟨.ok ((c.lookup i).status, c.address (i + 1)), s, c.t ++ c.lookups (i + 1)⟩ := by
  have htr : c.t ++ c.lookups (i + 1) = c.t ++ c.lookups i ++ [⟨c.lookupOp, c.lookup i⟩] := by
    rw [List.append_assoc]
    rfl
  rw [loopFrom, loopFrom, htr, lookupLoop, run_bind, run_call_quiet (World.sequential_quiet _ _),
    Out.bind_ok, run_ite]
  rfl

/-- The loop ends after lookup `k`. -/
structure EndsAt (k : Nat) : Prop where
  before : ∀ j < k, c.address (j + 1) &&& 0xFF = 0
  last : c.address (k + 1) &&& 0xFF ≠ 0

/-- The loop ends at some lookup, or the turns it was given are used up. -/
theorem run_loop (fuel i : Nat) (s : St) (hi : ∀ j < i, c.address (j + 1) &&& 0xFF = 0) :
    (∃ k, c.EndsAt k ∧ c.loopFrom fuel i s =
        ⟨.ok ((c.lookup k).status, c.address (k + 1)), s, c.t ++ c.lookups (k + 1)⟩) ∨
      (∀ j < i + fuel, c.address (j + 1) &&& 0xFF = 0) ∧
        c.loopFrom fuel i s = ⟨.error .fuel, s, c.t ++ c.lookups (i + fuel)⟩ := by
  induction fuel generalizing i with
  | zero => exact .inr ⟨hi, rfl⟩
  | succ fuel ih =>
    rw [loopFrom_succ]
    by_cases hzero : c.address (i + 1) &&& 0xFF = 0
    · have hi' : ∀ j < i + 1, c.address (j + 1) &&& 0xFF = 0 := by
        intro j hj
        rcases Nat.lt_succ_iff_lt_or_eq.mp hj with hj | rfl
        · exact hi j hj
        · exact hzero
      rw [if_pos hzero, Nat.add_comm fuel, ← Nat.add_assoc]
      exact ih (i + 1) hi'
    · exact .inl ⟨i, ⟨hi, hzero⟩, if_neg hzero⟩

/-! ## After the loop -/

/-- A call made once the server's address is known. -/
def Uses (address : ULONG) : Op → Prop
  | .nxDnsHostByNameGet .. => False
  | .nxSntpClientInitializeUnicast used => used = address
  | _ => True

section
variable {B : Build} {address : ULONG}

def Used (address : ULONG) (_ : St) (u : Tr Op Ans) : Prop := ∀ ev ∈ u, Uses address ev.1

abbrev usesLogic (address : ULONG) : Logic Op Ans St (Tr Op Ans) := .added (Used address)

theorem spec_uses {op : Op} (h : Uses address op) :
    (usesLogic address).Spec (Used address) (.call op)
      fun _ => Used address := by
  refine .of_call fun s u hu a ev hev => ?_
  rcases List.mem_append.mp hev with hev | hev
  · exact hu ev hev
  · rw [List.mem_singleton.mp hev]
    exact h

theorem uses_return (status : UINT) :
    (usesLogic address).Spec (Used address) (pure status)
      fun _ => Used address := .pure fun _ _ h => h

theorem uses_deleteAndReturn (status : UINT) :
    (usesLogic address).Spec (Used address) (deleteAndReturn status)
      fun _ => Used address :=
  .bind (spec_uses trivial) fun _ => uses_return _

theorem uses_stopAndReturn (status : UINT) :
    (usesLogic address).Spec (Used address) (stopAndReturn status)
      fun _ => Used address :=
  .bind (spec_uses trivial) fun _ => .bind (spec_uses trivial) fun _ => uses_return _

theorem uses_pollLoop (i : Nat) :
    (usesLogic address).Spec (Used address) (pollLoop B i)
      fun _ => Used address := by
  induction i with
  | zero => exact uses_stopAndReturn _
  | succ i ih =>
    refine .bind (spec_uses trivial) fun _ => .ite (fun _ => ?_) fun _ => ?_
    · refine .bind (spec_uses trivial) fun _ => .ite (fun _ => ih) fun _ => ?_
      have hsystem : (usesLogic address).Spec (Used address) (systemTime B) fun _ => Used address :=
        .bind (spec_uses trivial) fun _ => .pure fun _ _ h => h
      exact .bind hsystem fun _ => .bind (.modify fun _ _ h ev hev => h ev hev) fun _ =>
        uses_stopAndReturn _
    · exact .bind (spec_uses trivial) fun _ => ih

theorem uses_runClient (ipPtr poolPtr : Nat) :
    (usesLogic address).Spec (Used address)
      (runClient B ipPtr poolPtr address) fun _ => Used address := by
  refine .bind (spec_uses trivial) fun _ => .ite (fun _ => uses_return _) fun _ => ?_
  refine .bind (spec_uses rfl) fun _ => .ite (fun _ => uses_deleteAndReturn _) fun _ => ?_
  refine .bind (spec_uses trivial) fun _ => .ite (fun _ => uses_deleteAndReturn _) fun _ => ?_
  exact .bind (spec_uses trivial) fun _ => .ite (fun _ => uses_stopAndReturn _) fun _ =>
    uses_pollLoop _

end

/-- A whole call: it makes lookups up to the one that ends the loop, and goes on just when that
one has succeeded. -/
theorem run_cases (fuel : Nat) (s : St) :
    (∃ k, c.EndsAt k ∧ (c.lookup k).status ≠ nxSuccess ∧
      c.run fuel s = ⟨.ok (c.lookup k).status, s, c.t ++ c.lookups (k + 1)⟩) ∨
    (∃ k w, c.EndsAt k ∧ (c.lookup k).status = nxSuccess ∧
      (c.run fuel s).tr = c.t ++ (c.lookups (k + 1) ++ w) ∧
      ∀ ev ∈ w, Uses (c.address (k + 1)) ev.1) ∨
    (∀ j < fuel, c.address (j + 1) &&& 0xFF = 0) ∧
      c.run fuel s = ⟨.error .fuel, s, c.t ++ c.lookups fuel⟩ := by
  have hrun : c.run fuel s = (c.loopFrom fuel 0 s).bind fun out s t =>
      (if out.1 ≠ nxSuccess then pure out.1 else runClient c.B c.ipPtr c.poolPtr out.2 : M UINT).run
        (.sequential c.ans) s t := by
    rw [run, sntpTimeSync, run_bind, loopFrom, lookups, List.append_nil]
    rfl
  rw [hrun]
  rcases c.run_loop fuel 0 s (fun j hj => absurd hj (Nat.not_lt_zero j)) with
    ⟨k, hk, hloop⟩ | ⟨hzero, hloop⟩
  · rw [hloop, Out.bind_ok, run_ite]
    by_cases hstatus : (c.lookup k).status = nxSuccess
    · refine .inr (.inl ?_)
      rw [if_neg (not_not_intro hstatus)]
      have hnone : Used (c.address (k + 1)) s [] := fun _ h => absurd h List.not_mem_nil
      have hused := ((uses_runClient (B := c.B) c.ipPtr c.poolPtr).added_sat c.ans hnone
        (c.t ++ c.lookups (k + 1))).both
      obtain ⟨w, hw⟩ := Prog.run_grows (.sequential c.ans) s (c.t ++ c.lookups (k + 1))
        (runClient c.B c.ipPtr c.poolPtr (c.address (k + 1)))
      refine ⟨k, w, hk, hstatus, hw.trans (List.append_assoc ..), ?_⟩
      rwa [hw, List.drop_left] at hused
    · rw [if_pos hstatus]
      exact .inl ⟨k, hk, hstatus, rfl⟩
  · rw [hloop, Out.bind_error]
    rw [Nat.zero_add] at hzero ⊢
    exact .inr (.inr ⟨hzero, rfl⟩)

/-! ## Giving up -/

/-- A lookup that has failed. -/
def FailedLookup (ev : Ev Op Ans) : Prop :=
  ∃ status err cleared, ev = ⟨c.lookupOp, .failed status err cleared⟩

/-- The first failed lookup is the last call and its status is returned; and every call past the
lookups stands behind a successful one, whose address it uses. -/
structure GivesUp (s : St) : Prop where
  stops : ∀ fuel u v status err cleared,
    (c.run fuel s).tr = c.t ++ (u ++ ⟨c.lookupOp, .failed status err cleared⟩ :: v) →
    (∀ ev ∈ u, ¬ c.FailedLookup ev) → (c.run fuel s).res = .ok status ∧ v = []
  goesOn : ∀ fuel u ev v, (c.run fuel s).tr = c.t ++ (u ++ ev :: v) → ev.1 ≠ c.lookupOp →
    ∃ u' address w, u = u' ++ ⟨c.lookupOp, .found address⟩ :: w ∧ address &&& 0xFF ≠ 0 ∧
      (∀ e ∈ w, e.1 ≠ c.lookupOp) ∧
      ∀ used, ev.1 = .nxSntpClientInitializeUnicast used → used = address

/-- When a lookup fails, it is the first one, it leaves the address as it is, and the variable
for the address happens to hold a low byte that is not zero. -/
def FailsOnStack : Prop :=
  ∀ i status err cleared, c.lookup i = .failed status err cleared →
    (∀ j < i, ∃ address, c.lookup j = .found address ∧ address &&& 0xFF = 0) →
    i = 0 ∧ cleared = false ∧ c.stack &&& 0xFF ≠ 0

theorem lookups_split {i : Nat} {u v : Tr Op Ans} {ev : Ev Op Ans}
    (h : c.lookups i = u ++ ev :: v) :
    u.length < i ∧ i = u.length + (v.length + 1) ∧ u = c.lookups u.length ∧
      ev = ⟨c.lookupOp, c.lookup u.length⟩ := by
  have hlength := congrArg List.length h
  rw [length_lookups, List.length_append, List.length_cons] at hlength
  have hlt : u.length < i := by omega
  obtain ⟨v', hv'⟩ := c.lookups_prefix hlt
  obtain ⟨hu, hev⟩ := List.append_inj (h.symm.trans hv') (c.length_lookups _).symm
  exact ⟨hlt, hlength, hu, (List.cons.inj hev).1⟩

theorem found_of_mem {i : Nat} (hfound : ∀ j < i, ∃ address, c.lookup j = .found address) :
    ∀ ev ∈ c.lookups i, ¬ c.FailedLookup ev := by
  rintro _ hev ⟨status, err, cleared, rfl⟩
  obtain ⟨u, v, hsplit⟩ := List.append_of_mem hev
  obtain ⟨hlt, -, -, hev⟩ := c.lookups_split hsplit
  obtain ⟨address, hlookup⟩ := hfound _ hlt
  simp [hlookup] at hev

theorem EndsAt.le {k i : Nat} (h : c.EndsAt k) (hi : ∀ j < i, c.address (j + 1) &&& 0xFF = 0) :
    i ≤ k := by
  by_contra hlt
  exact h.last (hi k (Nat.lt_of_not_le hlt))

/-- Behind a failed lookup that has not ended the loop there is another one. -/
theorem not_stops {s : St} (h : c.GivesUp s) {i k : Nat} {status : UINT}
    {err : status ≠ nxSuccess} {cleared : Bool} (hfailed : c.lookup i = .failed status err cleared)
    (hnone : ∀ ev ∈ c.lookups i, ¬ c.FailedLookup ev) (hlt : i < k) (fuel : Nat) (w : Tr Op Ans)
    (htr : (c.run fuel s).tr = c.t ++ (c.lookups (k + 1) ++ w)) : False := by
  obtain ⟨v, hv⟩ := c.lookups_prefix (Nat.lt_succ_of_lt hlt)
  have hlength := congrArg List.length hv
  rw [length_lookups, List.length_append, length_lookups, List.length_cons] at hlength
  rw [hv, hfailed, List.append_assoc, List.cons_append] at htr
  obtain ⟨-, hnil⟩ := h.stops _ _ _ _ _ _ htr hnone
  rw [(List.append_eq_nil_iff.mp hnil).1, List.length_nil] at hlength
  omega

theorem failsOnStack_of_givesUp {s : St} (h : c.GivesUp s) : c.FailsOnStack := by
  intro i status err cleared hfailed hfound
  have hzero : ∀ j < i, c.address (j + 1) &&& 0xFF = 0 := by
    intro j hj
    obtain ⟨address, hlookup, hzero⟩ := hfound j hj
    rw [SyncCall.address, hlookup]
    exact hzero
  have hnone := c.found_of_mem fun j hj => (hfound j hj).imp fun _ hj => hj.1
  have hends : c.address (i + 1) &&& 0xFF ≠ 0 := by
    intro hi
    have hzero' : ∀ j < i + 1, c.address (j + 1) &&& 0xFF = 0 := by
      intro j hj
      rcases Nat.lt_succ_iff_lt_or_eq.mp hj with hj | rfl
      · exact hzero j hj
      · exact hi
    rcases c.run_cases (i + 1) s with ⟨k, hk, -, hrun⟩ | ⟨k, w, hk, -, htr, -⟩ | ⟨-, hrun⟩
    · refine c.not_stops h hfailed hnone (hk.le c hzero') (i + 1) [] ?_
      rw [hrun, List.append_nil]
    · exact c.not_stops h hfailed hnone (hk.le c hzero') (i + 1) w htr
    · have htr : (c.run (i + 1) s).tr =
          c.t ++ (c.lookups i ++ ⟨c.lookupOp, .failed status err cleared⟩ :: []) := by
        rw [hrun, ← hfailed]
        rfl
      have hres := (h.stops _ _ _ _ _ _ htr hnone).1
      rw [hrun] at hres
      cases hres
  rw [address, hfailed] at hends
  cases cleared with
  | true => exact (hends (show (0 : ULONG) &&& 0xFF = 0 by decide)).elim
  | false =>
    cases i with
    | zero => exact ⟨rfl, rfl, hends⟩
    | succ i => exact absurd (hzero i (Nat.lt_succ_self i)) hends

/-- The first failed lookup of a run. -/
theorem FailsOnStack.first (h : c.FailsOnStack) {i : Nat} {u v : Tr Op Ans} {status : UINT}
    {err : status ≠ nxSuccess} {cleared : Bool}
    (hsplit : c.lookups i = u ++ ⟨c.lookupOp, .failed status err cleared⟩ :: v)
    (hnone : ∀ ev ∈ u, ¬ c.FailedLookup ev)
    (hzero : ∀ j < u.length, c.address (j + 1) &&& 0xFF = 0) :
    c.lookup 0 = .failed status err cleared ∧ c.address 1 &&& 0xFF ≠ 0 ∧ i = v.length + 1 := by
  obtain ⟨-, hi, hu, hev⟩ := c.lookups_split hsplit
  have hfailed : c.lookup u.length = .failed status err cleared := by simpa using hev.symm
  have hfound : ∀ j < u.length, ∃ address, c.lookup j = .found address ∧ address &&& 0xFF = 0 := by
    intro j hj
    obtain ⟨v', hv'⟩ := c.lookups_prefix hj
    have hmem : (⟨c.lookupOp, c.lookup j⟩ : Ev Op Ans) ∈ u := by
      rw [hu, hv']
      exact List.mem_append_right _ List.mem_cons_self
    have hzero := hzero j hj
    rw [address] at hzero
    cases hlookup : c.lookup j with
    | found a => exact ⟨a, rfl, by rwa [hlookup] at hzero⟩
    | failed st err cleared => exact absurd ⟨st, err, cleared, by rw [hlookup]⟩ (hnone _ hmem)
  obtain ⟨hlength, rfl, hstack⟩ := h _ _ _ _ hfailed hfound
  rw [hlength] at hfailed hi
  refine ⟨hfailed, ?_, by omega⟩
  rw [address, hfailed]
  exact hstack

/-- Where a call past the lookups stands in the events of a run that goes on. -/
theorem split_past {us w u v : Tr Op Ans} {ev : Ev Op Ans} (h : us ++ w = u ++ ev :: v)
    (hev : ev ∉ us) : ∃ x, u = us ++ x ∧ w = x ++ ev :: v := by
  rcases List.append_eq_append_iff.mp h with ⟨x, hu, hw⟩ | ⟨x, hus, hev'⟩
  · exact ⟨x, hu, hw⟩
  · cases x with
    | nil => exact ⟨[], by simpa using hus.symm, hev'.symm⟩
    | cons y x =>
      obtain ⟨rfl, -⟩ := List.cons.inj hev'
      exact absurd (hus ▸ List.mem_append_right u List.mem_cons_self) hev

/-- Where one of the lookups stands. -/
theorem split_before {us w u v : Tr Op Ans} {ev : Ev Op Ans} (h : us ++ w = u ++ ev :: v)
    (hev : ev ∉ w) : ∃ x, us = u ++ ev :: x := by
  rcases List.append_eq_append_iff.mp h with ⟨x, -, hw⟩ | ⟨x, hus, hev'⟩
  · exact absurd (hw ▸ List.mem_append_right x List.mem_cons_self) hev
  · cases x with
    | nil => exact absurd ((show ev :: v = w from hev') ▸ List.mem_cons_self) hev
    | cons y x =>
      obtain ⟨rfl, -⟩ := List.cons.inj hev'
      exact ⟨x, hus⟩

theorem EndsAt.eq_zero {k : Nat} (h : c.EndsAt k) (h1 : c.address 1 &&& 0xFF ≠ 0) : k = 0 := by
  by_contra hne
  exact h1 (h.before 0 (Nat.pos_of_ne_zero hne))

theorem FailsOnStack.stops (h : c.FailsOnStack) {s : St} {fuel : Nat} {u v : Tr Op Ans}
    {status : UINT} {err : status ≠ nxSuccess} {cleared : Bool}
    (htr : (c.run fuel s).tr = c.t ++ (u ++ ⟨c.lookupOp, .failed status err cleared⟩ :: v))
    (hu : ∀ ev ∈ u, ¬ c.FailedLookup ev) : (c.run fuel s).res = .ok status ∧ v = [] := by
  rcases c.run_cases fuel s with ⟨k, hk, -, hrun⟩ | ⟨k, w, hk, hstatus, htr', hw⟩ | ⟨hzero, hrun⟩
  · rw [hrun] at htr ⊢
    have hsplit := List.append_cancel_left htr
    obtain ⟨hlt, -⟩ := c.lookups_split hsplit
    obtain ⟨hfailed, hends, hlength⟩ := h.first c hsplit hu fun j hj => hk.before j (by omega)
    obtain rfl := hk.eq_zero c hends
    exact ⟨by rw [hfailed]; rfl, List.eq_nil_of_length_eq_zero (by omega)⟩
  · -- the loop has ended with a success, which is not the first lookup
    rw [htr'] at htr
    obtain ⟨x, hsplit⟩ := split_before (List.append_cancel_left htr) fun hmem => hw _ hmem
    obtain ⟨hlt, -⟩ := c.lookups_split hsplit
    obtain ⟨hfailed, hends, -⟩ := h.first c hsplit hu fun j hj => hk.before j (by omega)
    obtain rfl := hk.eq_zero c hends
    rw [hfailed] at hstatus
    exact absurd hstatus err
  · rw [hrun] at htr
    have hsplit := List.append_cancel_left htr
    obtain ⟨hlt, -⟩ := c.lookups_split hsplit
    obtain ⟨-, hends, -⟩ := h.first c hsplit hu fun j hj => hzero j (by omega)
    exact absurd (hzero 0 (by omega)) hends

/-- Only a successful lookup lets the call go on. -/
theorem run_goesOn {s : St} {fuel : Nat} {u v : Tr Op Ans} {ev : Ev Op Ans}
    (htr : (c.run fuel s).tr = c.t ++ (u ++ ev :: v)) (hev : ev.1 ≠ c.lookupOp) :
    ∃ u' address w, u = u' ++ ⟨c.lookupOp, .found address⟩ :: w ∧ address &&& 0xFF ≠ 0 ∧
      (∀ e ∈ w, e.1 ≠ c.lookupOp) ∧
      ∀ used, ev.1 = .nxSntpClientInitializeUnicast used → used = address := by
  have hlookups : ∀ i, ev ∉ c.lookups i := fun i hmem => hev (c.mem_lookups hmem)
  have hmem : ∀ i, c.lookups i ≠ u ++ ev :: v := fun i heq =>
    hlookups i (heq ▸ List.mem_append_right _ List.mem_cons_self)
  rcases c.run_cases fuel s with ⟨k, hk, -, hrun⟩ | ⟨k, w, hk, hstatus, htr', hw⟩ | ⟨-, hrun⟩
  · rw [hrun] at htr
    exact absurd (List.append_cancel_left htr) (hmem _)
  · rw [htr'] at htr
    obtain ⟨x, rfl, rfl⟩ := split_past (List.append_cancel_left htr) (hlookups _)
    have hpast : ∀ e ∈ x ++ ev :: v, e.1 ≠ c.lookupOp := fun e he heq => by
      have huses := hw e he
      rw [heq] at huses
      exact huses
    have hfound : ∃ found, c.lookup k = .found found := by
      cases hlookup : c.lookup k with
      | found found => exact ⟨found, rfl⟩
      | failed status err cleared =>
        rw [hlookup] at hstatus
        exact absurd hstatus err
    obtain ⟨found, hlookup⟩ := hfound
    have haddress : c.address (k + 1) = found := by rw [address, hlookup]; rfl
    refine ⟨c.lookups k, found, x, ?_, haddress ▸ hk.last,
      fun e he => hpast e (List.mem_append_left _ he), fun used hused => ?_⟩
    · rw [← hlookup, lookups, List.append_assoc]
      rfl
    · have huses := hw ev (List.mem_append_right _ List.mem_cons_self)
      rw [hused, haddress] at huses
      exact huses
  · rw [hrun] at htr
    exact absurd (List.append_cancel_left htr) (hmem _)

/-- The name lookup gives up at the first failure just when a failure comes first and finds a
usable address in the uninitialised variable. -/
theorem gives_up_iff (s : St) : c.GivesUp s ↔ c.FailsOnStack :=
  ⟨c.failsOnStack_of_givesUp, fun h =>
    ⟨fun _ _ _ _ _ _ htr hu => h.stops c htr hu, fun _ _ _ _ htr hev => c.run_goesOn htr hev⟩⟩

end SyncCall

/-- A name server that never answers, and a variable that happens to be zero. -/
def deadServer : SyncCall where
  B := .sample
  ipPtr := 1
  poolPtr := 2
  dnsPtr := 3
  sntpServerName := cstr "pool"
  ans _
    | .nxDnsHostByNameGet .. => .failed 0xA3 (by decide) false
    | op => answering 0 0 op
  t := []
  stack := 0

/-- The name is looked up for ever. -/
theorem keeps_looking_up : ¬ deadServer.GivesUp .init := by
  intro h
  obtain ⟨-, -, hstack⟩ := deadServer.failsOnStack_of_givesUp h 0 _ _ _ rfl
    fun j hj => absurd hj (Nat.not_lt_zero j)
  exact hstack rfl

end Iotc.Time
