import Mathlib.Tactic.Common

/-!
# Blocks of memory

A block is an address and a size, in a memory of cells of any type. `overwrite` is the memory
after a range has been written, and `Apart` says of two blocks that one ends where the other begins
or before.
-/

namespace Iotc.Lib

structure Block where
  addr : Nat
  size : Nat
  deriving DecidableEq

namespace Block

def Has (b : Block) (a : Nat) : Prop := b.addr ≤ a ∧ a < b.addr + b.size

def Apart (b c : Block) : Prop := b.addr + b.size ≤ c.addr ∨ c.addr + c.size ≤ b.addr

variable {b c : Block} {i : Nat}

theorem has_add (h : i < b.size) : b.Has (b.addr + i) := by
  unfold Has
  omega

/-- Blocks that are not empty stand at addresses of their own. -/
theorem Apart.addr_ne (h : b.Apart c) (hb : 0 < b.size) (hc : 0 < c.size) : b.addr ≠ c.addr := by
  unfold Apart at h
  omega

end Block

section
variable {α : Type*} (m : Nat → α) (p n : Nat) (f : Nat → α)

/-- `f` is written to the `n` cells from `p` on. -/
def overwrite : Nat → α := fun a => if p ≤ a ∧ a < p + n then f (a - p) else m a

variable {m p n f} {a i : Nat}

theorem overwrite_add (h : i < n) : overwrite m p n f (p + i) = f i := by
  rw [overwrite, if_pos (by omega), Nat.add_sub_cancel_left]

theorem overwrite_off (h : a < p ∨ p + n ≤ a) : overwrite m p n f a = m a :=
  if_neg (by omega)

end

end Iotc.Lib
