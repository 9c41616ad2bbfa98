import Mathlib.Tactic.Common

/-!
# Machines that read a stream

A `Machine` reads one symbol at a time; on each it goes on with some output, or stops with a
verdict. `Machine.run` reads a list and says what was put out and where it ended, with the symbols
behind a stop. What it makes of a list does not depend on how the list is cut (`run_append`), and
`Passes` composes the stretches on which it does not stop.
-/

namespace Iotc.Lib

/-- What a machine does on one symbol. -/
inductive Turn (σ β ω : Type) where
  | next (s : σ) (out : List β)
  | stop (w : ω)

/-- Where a run ends: in a state, for want of symbols, or with a verdict and what was left. -/
inductive Halt (σ α ω : Type) where
  | more (s : σ)
  | stopped (w : ω) (rest : List α)
  deriving DecidableEq

structure Machine (σ α β ω : Type) where
  step : σ → α → Turn σ β ω

namespace Machine

variable {σ α β ω : Type} (m : Machine σ α β ω)

def run : σ → List α → List β × Halt σ α ω
  | s, [] => ([], .more s)
  | s, a :: as =>
    match m.step s a with
    | .next s' out => (out ++ (run s' as).1, (run s' as).2)
    | .stop w => ([], .stopped w as)

@[simp] theorem run_nil (s : σ) : m.run s [] = ([], .more s) := rfl

variable {m}

theorem run_next {s s' : σ} {a : α} {out : List β} (h : m.step s a = .next s' out) (as : List α) :
    m.run s (a :: as) = (out ++ (m.run s' as).1, (m.run s' as).2) := by
  rw [run, h]

theorem run_stop {s : σ} {a : α} {w : ω} (h : m.step s a = .stop w) (as : List α) :
    m.run s (a :: as) = ([], .stopped w as) := by
  rw [run, h]

/-- Symbols behind a stretch that was read without a stop. -/
theorem run_append {s s' : σ} {xs : List α} {out : List β} (h : m.run s xs = (out, .more s'))
    (ys : List α) : m.run s (xs ++ ys) = (out ++ (m.run s' ys).1, (m.run s' ys).2) := by
  induction xs generalizing s out with
  | nil =>
    cases h
    simp
  | cons a as ih =>
    cases hstep : m.step s a with
    | stop w =>
      rw [run_stop hstep] at h
      cases h
    | next s1 out1 =>
      rw [run_next hstep, Prod.mk.injEq] at h
      obtain ⟨rfl, hmore⟩ := h
      have hrest := ih (show m.run s1 as = ((m.run s1 as).1, _) from Prod.ext rfl hmore)
      rw [List.cons_append, run_next hstep, hrest, List.append_assoc]

/-- `xs` takes the machine from `s` to `s'`, putting out `out`. -/
def Passes (m : Machine σ α β ω) (s : σ) (xs : List α) (out : List β) (s' : σ) : Prop :=
  m.run s xs = (out, .more s')

namespace Passes

variable {s s' s'' : σ} {xs ys : List α} {out out' : List β}

theorem nil (s : σ) : Passes m s [] [] s := rfl

theorem trans (h : Passes m s xs out s') (h' : Passes m s' ys out' s'') :
    Passes m s (xs ++ ys) (out ++ out') s'' := by
  unfold Passes at h'
  rw [Passes, run_append h, h']

theorem single {a : α} (h : m.step s a = .next s' out) : Passes m s [a] out s' := by
  simp [Passes, run_next h]

theorem cons {a : α} (h : m.step s a = .next s' out) (h' : Passes m s' xs out' s'') :
    Passes m s (a :: xs) (out ++ out') s'' :=
  (single h).trans h'

/-- What the machine makes of a list that starts with the stretch. -/
theorem run_eq (h : Passes m s xs out s') (ys : List α) :
    m.run s (xs ++ ys) = (out ++ (m.run s' ys).1, (m.run s' ys).2) := run_append h ys

end Passes

end Machine

end Iotc.Lib
