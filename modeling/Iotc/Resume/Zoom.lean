import Iotc.Resume.Hoare

/-!
# Programs over a part of the state

`Prog.zoom` is a program over `σ` at work in states `σ × ρ`: what is in `ρ` is the business of what
runs while it waits.
-/

namespace Iotc.Resume

variable {Op : Type} {Ans : Op → Type} {σ ρ Γ α : Type}

def Res.zoom : Res Op Ans σ α → ρ → Res Op Ans (σ × ρ) α
  | .done a s, m => .done a (s, m)
  | .stop e s, m => .stop e (s, m)
  | .call op s k, m => .call op (s, m) fun a x => (k a x.1).zoom x.2

def Prog.zoom (p : Prog Op Ans σ α) : Prog Op Ans (σ × ρ) α := fun x => (p x.1).zoom x.2

/-- The logic of a part of the state while the other part is `m`. -/
def Logic.zoom (L : Logic Op Ans (σ × ρ) Γ) (m : ρ) : Logic Op Ans σ Γ where
  call op s γ Φ := L.call op (s, m) γ fun a x γ => x.2 = m ∧ Φ a x.1 γ
  stop s γ := L.stop (s, m) γ
  mono h := L.mono fun _ _ _ hΦ => ⟨hΦ.1, h _ _ _ hΦ.2⟩

theorem Res.wp_zoom {L : Logic Op Ans (σ × ρ) Γ} {m : ρ} {r : Res Op Ans σ α} {γ : Γ}
    {Q : α → σ → Γ → Prop} (h : r.wp (L.zoom m) γ Q) :
    (r.zoom m).wp L γ fun a x γ => x.2 = m ∧ Q a x.1 γ := by
  induction r generalizing γ with
  | done a s => exact ⟨rfl, h⟩
  | stop e s => exact h
  | call op s k ih =>
    refine L.mono ?_ h
    rintro a ⟨s', m'⟩ γ' ⟨rfl, h⟩
    exact ih a s' h

end Iotc.Resume
