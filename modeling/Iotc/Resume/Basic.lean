import Mathlib.Tactic.Common

/-!
# Resumption programs

A `Res` is what is left of a program: it is `done`, it has stopped, or it waits
for the answer to a `call` it made to the world outside, with the state it
leaves behind and the rest of the program as a function of the answer and of
the state found on return. What happens between two calls is one atomic step.
A `Prog` reads a state and becomes a `Res`; `Prog` is a monad, so C functions are
written in `do` notation over their static variables.

The trees are well founded: a loop whose turns are bounded by nothing takes the
number of turns as an argument and stops with `Stop.fuel` when it runs out.
-/

namespace Iotc.Resume

/-- Why a program stops without returning. -/
inductive Stop where
  /-- The C program has undefined behaviour here. -/
  | fault
  /-- A loop is still going after the turns it was given. -/
  | fuel
  deriving DecidableEq, Repr

inductive Res (Op : Type) (Ans : Op → Type) (σ α : Type) : Type where
  | done (a : α) (s : σ)
  | stop (e : Stop) (s : σ)
  | call (op : Op) (s : σ) (k : Ans op → σ → Res Op Ans σ α)

variable {Op : Type} {Ans : Op → Type} {σ α β : Type}

def Res.bind : Res Op Ans σ α → (α → σ → Res Op Ans σ β) → Res Op Ans σ β
  | .done a s, f => f a s
  | .stop e s, _ => .stop e s
  | .call op s k, f => .call op s fun a s' => (k a s').bind f

/-- A program over the calls `Op`, answered in `Ans`, with static variables `σ`. -/
def Prog (Op : Type) (Ans : Op → Type) (σ α : Type) : Type := σ → Res Op Ans σ α

instance : Monad (Prog Op Ans σ) where
  pure a := fun s => .done a s
  bind p f := fun s => (p s).bind f

namespace Prog

/-- Call the world and return its answer. -/
def call (op : Op) : Prog Op Ans σ (Ans op) := fun s => .call op s .done

def get : Prog Op Ans σ σ := fun s => .done s s

def modify (f : σ → σ) : Prog Op Ans σ Unit := fun s => .done () (f s)

def stop (e : Stop) : Prog Op Ans σ α := fun s => .stop e s

theorem get_bind (f : σ → Prog Op Ans σ α) (s : σ) : (get >>= f) s = f s s := rfl

theorem modify_bind (g : σ → σ) (f : Unit → Prog Op Ans σ α) (s : σ) :
    (modify g >>= f) s = f () (g s) := rfl

end Prog

end Iotc.Resume
