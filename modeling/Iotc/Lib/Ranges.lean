import Mathlib.Algebra.Group.Nat.Defs
import Mathlib.Algebra.Order.Monoid.Defs
import Mathlib.Tactic.Common

/-!
# Ranges that cover and ranges that tile

A range is a start and a size. `Covers a ws b`: every point from `a` up to `b` lies in one of
the ranges. `Tiles a ws b`: the ranges lead from `a` to `b`, each starting where the one
before ends, so they leave no gap and do not overlap.
-/

namespace Iotc.Lib

variable {α : Type*}

/-- The range that starts at `w.1` and is `w.2` long. -/
def InRange [Add α] [LE α] [LT α] (w : α × α) (b : α) : Prop := w.1 ≤ b ∧ b < w.1 + w.2

section
variable [LinearOrder α] [Add α]

def Covers (a : α) (ws : List (α × α)) (b : α) : Prop :=
  ∀ p, a ≤ p → p < b → ∃ w ∈ ws, InRange w p

variable {a b c k : α} {ws : List (α × α)}

theorem Covers.empty (h : b ≤ a) : Covers a ws b := fun _ ha hb =>
  absurd (ha.trans_lt hb) h.not_gt

theorem Covers.le (h : Covers a ws b) (hc : c ≤ b) : Covers a ws c := fun p ha hp =>
  h p ha (hp.trans_le hc)

/-- A range that starts where the covered part ends covers on to its own end. -/
theorem Covers.extend (h : Covers a ws b) : Covers a (ws ++ [(b, k)]) (b + k) := by
  intro p ha hp
  rcases lt_or_ge p b with hlt | hge
  · obtain ⟨w, hw, hin⟩ := h p ha hlt
    exact ⟨w, List.mem_append_left _ hw, hin⟩
  · exact ⟨(b, k), by simp, hge, hp⟩

end

section
variable [AddMonoid α] [LT α]

inductive Tiles : α → List (α × α) → α → Prop where
  | nil (a : α) : Tiles a [] a
  | cons {a k b : α} {ws : List (α × α)} : 0 < k → Tiles (a + k) ws b → Tiles a ((a, k) :: ws) b

variable {a b c k : α} {ws vs : List (α × α)}

theorem Tiles.append (h : Tiles a ws b) (h' : Tiles b vs c) : Tiles a (ws ++ vs) c := by
  induction h with
  | nil => exact h'
  | cons hk _ ih => exact .cons hk (ih h')

theorem Tiles.snoc (h : Tiles a ws b) (hk : 0 < k) : Tiles a (ws ++ [(b, k)]) (b + k) :=
  h.append (.cons hk (.nil _))

end

end Iotc.Lib
