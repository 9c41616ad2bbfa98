import Iotc.Resume.Basic

/-!
# Program logics for resumption programs

A `Logic` says what must hold where a program calls the world, as a transformer of
predicates on the answer, the state and a context `Γ` in which the program goes on.
`Res.wp` folds it over a program and `Logic.Spec` is the triple that comes of it. The
rules here are those all logics share; they differ in the rule for calls.
-/

namespace Iotc.Resume

variable {Op : Type} {Ans : Op → Type} {σ Γ α β : Type}

structure Logic (Op : Type) (Ans : Op → Type) (σ Γ : Type) where
  /-- What a call of `op` needs for the program to go on in `Φ`. -/
  call : (op : Op) → σ → Γ → (Ans op → σ → Γ → Prop) → Prop
  /-- Where a program may stop. -/
  stop : σ → Γ → Prop
  mono : ∀ {op : Op} {s : σ} {γ : Γ} {Φ Ψ : Ans op → σ → Γ → Prop},
    (∀ a s γ, Φ a s γ → Ψ a s γ) → call op s γ Φ → call op s γ Ψ

/-- The weakest precondition of what is left of a program. -/
def Res.wp (L : Logic Op Ans σ Γ) : Res Op Ans σ α → Γ → (α → σ → Γ → Prop) → Prop
  | .done a s, γ, Q => Q a s γ
  | .stop _ s, γ, _ => L.stop s γ
  | .call op s k, γ, Q => L.call op s γ fun a s γ => (k a s).wp L γ Q

theorem Res.wp_bind (L : Logic Op Ans σ Γ) (r : Res Op Ans σ α) (f : α → σ → Res Op Ans σ β)
    (γ : Γ) (Q : β → σ → Γ → Prop) :
    (r.bind f).wp L γ Q = r.wp L γ fun a s γ => (f a s).wp L γ Q := by
  induction r generalizing γ with
  | done a s | stop e s => rfl
  | call op s k ih =>
    simp only [Res.bind, Res.wp]
    congr 1
    funext a s γ
    exact ih a s γ

theorem Res.wp_mono {L : Logic Op Ans σ Γ} {Q Q' : α → σ → Γ → Prop}
    (hQ : ∀ a s γ, Q a s γ → Q' a s γ) {r : Res Op Ans σ α} {γ : Γ} (h : r.wp L γ Q) :
    r.wp L γ Q' := by
  induction r generalizing γ with
  | done a s => exact hQ a s γ h
  | stop e s => exact h
  | call op s k ih => exact L.mono (fun a s γ h => ih a s h) h

/-- From `P` the program goes to `Q`, by what the logic says of its calls. -/
def Logic.Spec (L : Logic Op Ans σ Γ) (P : σ → Γ → Prop) (p : Prog Op Ans σ α)
    (Q : α → σ → Γ → Prop) : Prop := ∀ s γ, P s γ → (p s).wp L γ Q

namespace Logic.Spec

variable {L : Logic Op Ans σ Γ} {P P' : σ → Γ → Prop} {Q Q' : α → σ → Γ → Prop}
  {R : β → σ → Γ → Prop}

theorem pure {a : α} (h : ∀ s γ, P s γ → Q a s γ) :
    L.Spec P (Pure.pure a : Prog Op Ans σ α) Q := h

theorem modify {f : σ → σ} {Q : Unit → σ → Γ → Prop} (h : ∀ s γ, P s γ → Q () (f s) γ) :
    L.Spec P (Prog.modify f) Q := h

theorem stop {e : Stop} (h : ∀ s γ, P s γ → L.stop s γ) :
    L.Spec P (Prog.stop e : Prog Op Ans σ α) Q := h

theorem of_call {op : Op} {Q : Ans op → σ → Γ → Prop} (h : ∀ s γ, P s γ → L.call op s γ Q) :
    L.Spec P (Prog.call op) Q := h

theorem conseq {p : Prog Op Ans σ α} (h : L.Spec P p Q) (hpre : ∀ s γ, P' s γ → P s γ)
    (hpost : ∀ a s γ, Q a s γ → Q' a s γ) : L.Spec P' p Q' := fun s γ hP =>
  Res.wp_mono hpost (h s γ (hpre s γ hP))

theorem pre {p : Prog Op Ans σ α} (h : L.Spec P p Q) (hpre : ∀ s γ, P' s γ → P s γ) :
    L.Spec P' p Q := fun s γ hP => h s γ (hpre s γ hP)

theorem post {p : Prog Op Ans σ α} (h : L.Spec P p Q) (hpost : ∀ a s γ, Q a s γ → Q' a s γ) :
    L.Spec P p Q' := h.conseq (fun _ _ hP => hP) hpost

theorem bind {p : Prog Op Ans σ α} {f : α → Prog Op Ans σ β} (hp : L.Spec P p Q)
    (hf : ∀ a, L.Spec (Q a) (f a) R) : L.Spec P (p >>= f) R := by
  intro s γ hP
  show ((p s).bind fun a s => f a s).wp L γ R
  rw [Res.wp_bind]
  exact Res.wp_mono (fun a s γ hQ => hf a s γ hQ) (hp s γ hP)

/-- Reading the state: what the precondition says of it holds of the value read. -/
theorem bind_get {φ : σ → Prop} {f : σ → Prog Op Ans σ β} (hφ : ∀ s γ, P s γ → φ s)
    (h : ∀ s, φ s → L.Spec P (f s) R) : L.Spec P (Prog.get >>= f) R :=
  fun s γ hP => h s (hφ s γ hP) s γ hP

theorem bind_get_any {f : σ → Prog Op Ans σ β} (h : ∀ s, L.Spec P (f s) R) :
    L.Spec P (Prog.get >>= f) R := fun s γ hP => h s s γ hP

theorem bind_get_eq {f : σ → Prog Op Ans σ β}
    (h : ∀ s0, L.Spec (fun s γ => s = s0 ∧ P s γ) (f s0) R) : L.Spec P (Prog.get >>= f) R :=
  fun s γ hP => h s s γ ⟨rfl, hP⟩

/-- A value that depends on the state and the context is fixed in front of the triple. -/
theorem fix {δ : Type} (v : σ → Γ → δ) {p : Prog Op Ans σ α}
    (h : ∀ x, L.Spec (fun s γ => v s γ = x ∧ P s γ) p Q) : L.Spec P p Q :=
  fun s γ hP => h (v s γ) s γ ⟨rfl, hP⟩

theorem ite {c : Prop} [Decidable c] {p q : Prog Op Ans σ α} (hp : c → L.Spec P p Q)
    (hq : ¬c → L.Spec P q Q) : L.Spec P (if c then p else q) Q := by
  split
  · next h => exact hp h
  · next h => exact hq h

/-- A fact that does not depend on the state moves in front of the triple. -/
theorem of_imp {φ : Prop} {p : Prog Op Ans σ α} (h : φ → L.Spec P p Q) :
    L.Spec (fun s γ => φ ∧ P s γ) p Q := fun s γ hP => h hP.1 s γ hP.2

theorem of_exists {δ : Type} {P : δ → σ → Γ → Prop} {p : Prog Op Ans σ α}
    (h : ∀ x, L.Spec (P x) p Q) : L.Spec (fun s γ => ∃ x, P x s γ) p Q :=
  fun s γ ⟨x, hP⟩ => h x s γ hP

end Logic.Spec

end Iotc.Resume
