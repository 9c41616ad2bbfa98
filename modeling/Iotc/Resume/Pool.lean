import Iotc.Resume.Logic
import Iotc.Resume.Run
import Mathlib.Logic.Function.Basic

/-!
# Parties that share a state

An `Iface` is a set of calls, each made by one party. In a configuration of its pool every
party is idle or inside a call, and they all work on one state. A party runs without
interruption from one call of the world to the next; between the answer to such a call
and the party going on, the others may run. `Reach I A` holds of the configurations that
runs whose acts meet the assumption `A` lead to.

`Reach.invariant` reduces an invariant `J` of all parties' controls, the state and the
history to one specification for each call, in the logic `I.logic J c` where every call of
the world establishes `J` and is resumed in any state of `J`.
-/

namespace Iotc.Resume

open Function

/-- Where a party is: `waiting` for an answer, or `ready` to go on with it. -/
inductive Ctl (Call Op : Type) (Ans : Op → Type) where
  | idle
  | waiting (c : Call) (op : Op)
  | ready (c : Call) (ev : Ev Op Ans)
  | stopped

def Ctl.isIdle {Call Op : Type} {Ans : Op → Type} : Ctl Call Op Ans → Bool
  | .idle => true
  | _ => false

theorem Ctl.eq_idle {Call Op : Type} {Ans : Op → Type} {x : Ctl Call Op Ans}
    (h : x.isIdle = true) : x = .idle := by
  cases x <;> first | rfl | cases h

inductive Act (Call Op : Type) (Ans : Op → Type) where
  | started (c : Call)
  | called (c : Call) (op : Op)
  | answered (c : Call) (ev : Ev Op Ans)

abbrev Hist (Call Op : Type) (Ans : Op → Type) : Type := List (Act Call Op Ans)

/-- A party's control with what is left of its call. -/
inductive Thread (Call Op : Type) (Ans : Op → Type) (σ β : Type) where
  | idle
  | waiting (c : Call) (op : Op) (k : Ans op → σ → Res Op Ans σ β)
  | ready (c : Call) (op : Op) (a : Ans op) (k : Ans op → σ → Res Op Ans σ β)
  | stopped

structure Iface (ι Call Op : Type) (Ans : Op → Type) (σ β : Type) where
  prog : Call → Prog Op Ans σ β
  party : Call → ι

variable {ι Call Op : Type} {Ans : Op → Type} {σ β : Type}

def Thread.ctl : Thread Call Op Ans σ β → Ctl Call Op Ans
  | .idle => .idle
  | .waiting c op _ => .waiting c op
  | .ready c op a _ => .ready c ⟨op, a⟩
  | .stopped => .stopped

/-- What is left of call `c`, the state it leaves, and the call of the world it makes. -/
def Res.thread (c : Call) : Res Op Ans σ β → Thread Call Op Ans σ β
  | .done _ _ => .idle
  | .stop _ _ => .stopped
  | .call op _ k => .waiting c op k

def Res.st : Res Op Ans σ β → σ
  | .done _ s => s
  | .stop _ s => s
  | .call _ s _ => s

def Res.acts (c : Call) : Res Op Ans σ β → Hist Call Op Ans
  | .call op _ _ => [.called c op]
  | _ => []

structure Cfg (ι Call Op : Type) (Ans : Op → Type) (σ β : Type) where
  st : σ
  thread : ι → Thread Call Op Ans σ β
  hist : Hist Call Op Ans

namespace Cfg

def ctl (g : Cfg ι Call Op Ans σ β) : ι → Ctl Call Op Ans := Thread.ctl ∘ g.thread

/-- Every party is idle. -/
def rest (s : σ) : Cfg ι Call Op Ans σ β := ⟨s, fun _ => .idle, []⟩

variable [DecidableEq ι] (I : Iface ι Call Op Ans σ β) (g : Cfg ι Call Op Ans σ β)

/-- The party of `c` has run as far as `r`. -/
def land (c : Call) (r : Res Op Ans σ β) : Cfg ι Call Op Ans σ β :=
  ⟨r.st, update g.thread (I.party c) (r.thread c), g.hist ++ r.acts c⟩

def start (c : Call) : Cfg ι Call Op Ans σ β :=
  ({ g with hist := g.hist ++ [.started c] } : Cfg ι Call Op Ans σ β).land I c (I.prog c g.st)

def answer (c : Call) (op : Op) (a : Ans op) (k : Ans op → σ → Res Op Ans σ β) :
    Cfg ι Call Op Ans σ β :=
  ⟨g.st, update g.thread (I.party c) (.ready c op a k), g.hist ++ [.answered c ⟨op, a⟩]⟩

end Cfg

/-! ## Reachable configurations -/

section
variable [DecidableEq ι] (I : Iface ι Call Op Ans σ β)
  (A : (ι → Ctl Call Op Ans) → σ → Hist Call Op Ans → Act Call Op Ans → Prop)

/-- The configurations of the runs from `g0` whose acts meet `A` where they happen. -/
inductive Reach (g0 : Cfg ι Call Op Ans σ β) : Cfg ι Call Op Ans σ β → Prop where
  | init : Reach g0 g0
  | start {g : Cfg ι Call Op Ans σ β} {c : Call} : Reach g0 g → g.thread (I.party c) = .idle →
    A g.ctl g.st g.hist (.started c) → Reach g0 (g.start I c)
  | answer {g : Cfg ι Call Op Ans σ β} {c : Call} {op : Op}
      {k : Ans op → σ → Res Op Ans σ β} {a : Ans op} : Reach g0 g →
    g.thread (I.party c) = .waiting c op k → A g.ctl g.st g.hist (.answered c ⟨op, a⟩) →
    Reach g0 (g.answer I c op a k)
  | resume {g : Cfg ι Call Op Ans σ β} {c : Call} {op : Op}
      {k : Ans op → σ → Res Op Ans σ β} {a : Ans op} : Reach g0 g →
    g.thread (I.party c) = .ready c op a k → Reach g0 (g.land I c (k a g.st))

/-! ## Running a schedule -/

/-- A step of a schedule; `answer i a` answers what party `i` waits for by `a`. -/
inductive Move (ι Call Op : Type) (Ans : Op → Type) where
  | start (c : Call)
  | answer (i : ι) (a : (op : Op) → Ans op)
  | resume (i : ι)

variable [∀ ctl s t act, Decidable (A ctl s t act)]

/-- The move, if it is possible and its act meets `A`. -/
def Cfg.step (g : Cfg ι Call Op Ans σ β) : Move ι Call Op Ans → Option (Cfg ι Call Op Ans σ β)
  | .start c =>
    match g.thread (I.party c) with
    | .idle => if A g.ctl g.st g.hist (.started c) then some (g.start I c) else none
    | _ => none
  | .answer i a =>
    match g.thread i with
    | .waiting c op k =>
      if I.party c = i ∧ A g.ctl g.st g.hist (.answered c ⟨op, a op⟩) then
        some (g.answer I c op (a op) k)
      else none
    | _ => none
  | .resume i =>
    match g.thread i with
    | .ready c _ a k => if I.party c = i then some (g.land I c (k a g.st)) else none
    | _ => none

def Cfg.run (g : Cfg ι Call Op Ans σ β) :
    List (Move ι Call Op Ans) → Option (Cfg ι Call Op Ans σ β)
  | [] => some g
  | m :: ms => (g.step I A m).bind fun g => g.run ms

variable {I A}

theorem Reach.step {g0 g g' : Cfg ι Call Op Ans σ β} {m : Move ι Call Op Ans}
    (h : Reach I A g0 g) (hm : g.step I A m = some g') : Reach I A g0 g' := by
  cases m with
  | start c =>
    simp only [Cfg.step] at hm
    split at hm
    · next hidle =>
      split at hm
      · next hA => exact Option.some.inj hm ▸ h.start hidle hA
      · cases hm
    · cases hm
  | answer i a =>
    simp only [Cfg.step] at hm
    split at hm
    · next hwait =>
      split at hm
      · next hA =>
        obtain ⟨rfl, hA⟩ := hA
        exact Option.some.inj hm ▸ h.answer hwait hA
      · cases hm
    · cases hm
  | resume i =>
    simp only [Cfg.step] at hm
    split at hm
    · next hready =>
      split at hm
      · next hi =>
        subst hi
        exact Option.some.inj hm ▸ h.resume hready
      · cases hm
    · cases hm

theorem Reach.run {g0 g g' : Cfg ι Call Op Ans σ β} {ms : List (Move ι Call Op Ans)}
    (h : Reach I A g0 g) (hms : g.run I A ms = some g') : Reach I A g0 g' := by
  induction ms generalizing g with
  | nil => exact Option.some.inj hms ▸ h
  | cons m ms ih =>
    obtain ⟨g1, hm, hms⟩ := Option.bind_eq_some_iff.mp hms
    exact ih (h.step hm) hms

/-- A schedule that can be run leads to a reachable configuration. -/
theorem Reach.of_run {c : Cfg ι Call Op Ans σ β} (ms : List (Move ι Call Op Ans))
    (p : Cfg ι Call Op Ans σ β → Bool) (h : (c.run I A ms).any p = true) :
    ∃ g, Reach I A c g ∧ p g = true := by
  obtain ⟨g, hg, hp⟩ := Option.any_eq_true _ _ |>.mp h
  exact ⟨g, Reach.init.run hg, hp⟩

end

/-! ## The logic of a pool -/

section
variable [DecidableEq ι] (I : Iface ι Call Op Ans σ β)
  (J : (ι → Ctl Call Op Ans) → σ → Hist Call Op Ans → Prop)

/-- The logic of the call `c`: a call of the world establishes `J`, and the answer finds the
party in any state of `J`. -/
def Iface.logic (c : Call) : Logic Op Ans σ ((ι → Ctl Call Op Ans) × Hist Call Op Ans) where
  call op s γ Φ := J (update γ.1 (I.party c) (.waiting c op)) s (γ.2 ++ [.called c op]) ∧
    ∀ ctl s t a, J ctl s t → ctl (I.party c) = .ready c ⟨op, a⟩ → Φ a s (ctl, t)
  stop s γ := J (update γ.1 (I.party c) .stopped) s γ.2
  mono h hcall := ⟨hcall.1, fun ctl s t a hJ hctl => h _ _ _ (hcall.2 ctl s t a hJ hctl)⟩

/-- The call returns in `J`. -/
def Iface.Returns (c : Call) (s : σ) (γ : (ι → Ctl Call Op Ans) × Hist Call Op Ans) : Prop :=
  J (update γ.1 (I.party c) .idle) s γ.2

/-- What is left of a party's call keeps `J`, whatever the others do first. -/
def Iface.Waits (i : ι) : Thread Call Op Ans σ β → Prop
  | .waiting c op k => I.party c = i ∧ ∀ ctl s t a, J ctl s t → ctl i = .ready c ⟨op, a⟩ →
      (k a s).wp (I.logic J c) (ctl, t) fun _ => I.Returns J c
  | .ready c op a k => I.party c = i ∧ ∀ ctl s t, J ctl s t → ctl i = .ready c ⟨op, a⟩ →
      (k a s).wp (I.logic J c) (ctl, t) fun _ => I.Returns J c
  | _ => True

structure Cfg.Keeps (g : Cfg ι Call Op Ans σ β) : Prop where
  inv : J g.ctl g.st g.hist
  waits : ∀ i, I.Waits J i (g.thread i)

variable {I J}

theorem Cfg.ctl_update (g : Cfg ι Call Op Ans σ β) (i : ι) (x : Thread Call Op Ans σ β)
    (s : σ) (t : Hist Call Op Ans) :
    (⟨s, update g.thread i x, t⟩ : Cfg ι Call Op Ans σ β).ctl = update g.ctl i x.ctl :=
  comp_update ..

theorem Cfg.Keeps.waits_update {g : Cfg ι Call Op Ans σ β} (h : ∀ j, I.Waits J j (g.thread j))
    {i : ι} {x : Thread Call Op Ans σ β} (hx : I.Waits J i x) (j : ι) :
    I.Waits J j (update g.thread i x j) := by
  by_cases hj : j = i
  · subst hj
    rwa [update_self]
  · rw [update_of_ne hj]
    exact h j

/-- A party that runs by the logic keeps the configuration. -/
theorem Cfg.Keeps.land {g : Cfg ι Call Op Ans σ β} (h : ∀ j, I.Waits J j (g.thread j)) {c : Call}
    {r : Res Op Ans σ β} (hr : r.wp (I.logic J c) (g.ctl, g.hist) fun _ => I.Returns J c) :
    (g.land I c r).Keeps I J := by
  refine ⟨?_, fun j => waits_update h ?_ j⟩
  · unfold Cfg.land
    rw [Cfg.ctl_update]
    cases r with
    | done a s =>
      show J _ _ (g.hist ++ [])
      rw [List.append_nil]
      exact hr
    | stop e s =>
      show J _ _ (g.hist ++ [])
      rw [List.append_nil]
      exact hr
    | call op s k => exact hr.1
  · cases r with
    | done a s | stop e s => trivial
    | call op s k => exact ⟨rfl, fun ctl s t a hJ hctl => hr.2 ctl s t a hJ hctl⟩

variable {A : (ι → Ctl Call Op Ans) → σ → Hist Call Op Ans → Act Call Op Ans → Prop}

/-- `J` holds of every reachable configuration if it holds at first, every call keeps it by the
logic of the pool, and every answer keeps it. -/
theorem Reach.invariant {s0 : σ} (hinit : J (fun _ => .idle) s0 [])
    (hstart : ∀ c, (I.logic J c).Spec (fun s γ => ∃ t, γ.2 = t ++ [.started c] ∧ J γ.1 s t ∧
      γ.1 (I.party c) = .idle ∧ A γ.1 s t (.started c)) (I.prog c) fun _ => I.Returns J c)
    (hanswer : ∀ ctl s t c op a, J ctl s t → ctl (I.party c) = .waiting c op →
      A ctl s t (.answered c ⟨op, a⟩) →
      J (update ctl (I.party c) (.ready c ⟨op, a⟩)) s (t ++ [.answered c ⟨op, a⟩]))
    {g : Cfg ι Call Op Ans σ β} (h : Reach I A (.rest s0) g) : J g.ctl g.st g.hist := by
  suffices g.Keeps I J from this.inv
  induction h with
  | init => exact ⟨hinit, fun _ => trivial⟩
  | @start g c _ hidle hA ih =>
    refine Cfg.Keeps.land (g := { g with hist := g.hist ++ [.started c] }) ih.waits ?_
    refine hstart c g.st (g.ctl, g.hist ++ [.started c]) ⟨g.hist, rfl, ih.inv, ?_, hA⟩
    exact congrArg Thread.ctl hidle
  | @answer g c op k a _ hwait hA ih =>
    have hctl : g.ctl (I.party c) = .waiting c op := congrArg Thread.ctl hwait
    have hk := ih.waits (I.party c)
    rw [hwait] at hk
    refine ⟨?_, fun j => Cfg.Keeps.waits_update ih.waits ?_ j⟩
    · unfold Cfg.answer
      rw [Cfg.ctl_update]
      exact hanswer _ _ _ _ _ _ ih.inv hctl hA
    · exact ⟨rfl, fun ctl s t hJ hc => hk.2 ctl s t a hJ hc⟩
  | @resume g c op k a _ hready ih =>
    have hk := ih.waits (I.party c)
    rw [hready] at hk
    exact Cfg.Keeps.land ih.waits (hk.2 g.ctl g.st g.hist ih.inv (congrArg Thread.ctl hready))

end

end Iotc.Resume
