import Mathlib.Tactic.Common

/-!
# Memory that is programmed once

A cell of a flash memory is erased or holds what was programmed since; where an operation has
failed, nothing is known of it. `fill` is what an erasure does and `store` what programming
does; `Holds` and `Blank` say what stands from an address on.
-/

namespace Iotc.Lib

inductive Cell (α : Type) where
  | erased
  | holds (a : α)
  | unknown
  deriving DecidableEq

abbrev Cells (α : Type) : Type := Nat → Cell α

namespace Cells

variable {α : Type}

/-- The `n` cells from `a` on become `c`. -/
def fill (m : Cells α) (a n : Nat) (c : Cell α) : Cells α :=
  fun p => if a ≤ p ∧ p < a + n then c else m p

/-- `xs` is programmed from `a` on. -/
def store (m : Cells α) (a : Nat) (xs : List α) : Cells α :=
  fun p => if a ≤ p then (xs[p - a]?).elim (m p) .holds else m p

def Holds (m : Cells α) (a : Nat) (xs : List α) : Prop :=
  ∀ i x, xs[i]? = some x → m (a + i) = .holds x

def Blank (m : Cells α) (a b : Nat) : Prop := ∀ p, a ≤ p → p < b → m p = .erased

/-- The `n` cells from `a` on can be programmed. -/
def ready [DecidableEq α] (m : Cells α) (a n : Nat) : Bool :=
  (List.range n).all fun i => m (a + i) = .erased

variable {m : Cells α} {a b c n p : Nat} {xs ys : List α}

theorem ready_iff [DecidableEq α] : m.ready a n = true ↔ m.Blank a (a + n) := by
  unfold ready Blank
  simp only [List.all_eq_true, List.mem_range, decide_eq_true_eq]
  constructor
  · intro h p ha hp
    have := h (p - a) (by omega)
    rwa [Nat.add_sub_of_le ha] at this
  · intro h i hi
    exact h (a + i) (by omega) (by omega)

theorem blank_fill : (m.fill a n .erased).Blank a (a + n) := fun _ ha hp => if_pos ⟨ha, hp⟩

theorem store_before (h : p < a) : m.store a xs p = m p := if_neg (by omega)

theorem store_behind (h : a + xs.length ≤ p) : m.store a xs p = m p := by
  unfold store
  split
  · rw [List.getElem?_eq_none (by omega)]
    rfl
  · rfl

theorem store_at {i : Nat} {x : α} (h : xs[i]? = some x) : m.store a xs (a + i) = .holds x := by
  unfold store
  rw [if_pos (by omega), Nat.add_sub_cancel_left, h]
  rfl

theorem holds_nil : m.Holds a [] := by
  intro i x h
  simp at h

/-- Programming goes on where it stopped. -/
theorem Holds.store (h : m.Holds a xs) : (m.store (a + xs.length) ys).Holds a (xs ++ ys) := by
  intro i x hx
  by_cases hi : i < xs.length
  · rw [List.getElem?_append_left hi] at hx
    rw [store_before (by omega)]
    exact h i x hx
  · rw [List.getElem?_append_right (by omega)] at hx
    have hat := store_at (m := m) (a := a + xs.length) hx
    rwa [Nat.add_assoc, Nat.add_sub_of_le (by omega)] at hat

theorem Holds.left (h : m.Holds a (xs ++ ys)) : m.Holds a xs := by
  intro i x hx
  have hi := (List.getElem?_eq_some_iff.mp hx).1
  exact h i x (by rwa [List.getElem?_append_left hi])

theorem Blank.store (h : m.Blank a b) : (m.store a xs).Blank (a + xs.length) b := by
  intro p ha hp
  rw [store_behind ha]
  exact h p (by omega) hp

theorem Blank.mono (h : m.Blank a b) (ha : a ≤ c) (hb : n ≤ b) : m.Blank c n :=
  fun p hp hn => h p (by omega) (by omega)

end Cells

end Iotc.Lib
