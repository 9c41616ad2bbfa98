import Mathlib.Tactic.Common

/-!
# Programs with early exits

`Meets x s Q E` says of a program in `EStateM`, started in `s`, that it comes to its end with `Q`
or leaves early with `E`. The rules follow the program's text.
-/

namespace Iotc.Lib

variable {ε σ α β : Type}

def Meets (x : EStateM ε σ α) (s : σ) (Q : α → σ → Prop) (E : ε → σ → Prop) : Prop :=
  match x s with
  | .ok a s' => Q a s'
  | .error e s' => E e s'

namespace Meets

variable {x : EStateM ε σ α} {f : α → EStateM ε σ β} {s : σ} {Q Q' : α → σ → Prop}
  {R : β → σ → Prop} {E E' : ε → σ → Prop}

theorem of_ok {a : α} {s' : σ} (hx : x s = .ok a s') (h : Q a s') : Meets x s Q E := by
  rw [Meets, hx]
  exact h

theorem of_error {e : ε} {s' : σ} (hx : x s = .error e s') (h : E e s') : Meets x s Q E := by
  rw [Meets, hx]
  exact h

theorem congr {y : EStateM ε σ α} {t : σ} (hx : x s = y t) (h : Meets y t Q E) : Meets x s Q E := by
  rwa [Meets, hx]

theorem pure {a : α} (h : Q a s) : Meets (Pure.pure a) s Q E := h

theorem throw {e : ε} (h : E e s) : Meets (MonadExcept.throw e : EStateM ε σ α) s Q E := h

theorem modify {g : σ → σ} {Q : PUnit → σ → Prop} (h : Q () (g s)) :
    Meets (modifyGet fun s => (PUnit.unit, g s) : EStateM ε σ PUnit) s Q E := h

theorem bind_get {f : σ → EStateM ε σ β} (h : Meets (f s) s R E) : Meets (get >>= f) s R E := h

theorem bind_set {t : σ} {f : PUnit → EStateM ε σ β} (h : Meets (f ()) t R E) :
    Meets (MonadStateOf.set t >>= f) s R E := h

theorem bind_modify {g : σ → σ} {f : PUnit → EStateM ε σ β} (h : Meets (f ()) (g s) R E) :
    Meets (modifyGet (fun s => (PUnit.unit, g s)) >>= f) s R E := h

theorem bind (hx : Meets x s (fun a s' => Meets (f a) s' R E) E) : Meets (x >>= f) s R E := by
  have hbind : (x >>= f) s = EStateM.bind x f s := rfl
  unfold Meets at hx ⊢
  rw [hbind, EStateM.bind]
  cases hr : x s with
  | ok a s' => simpa [hr, Meets] using hx
  | error e s' => simpa [hr] using hx

theorem mono (h : Meets x s Q E) (hQ : ∀ a s', Q a s' → Q' a s') (hE : ∀ e s', E e s' → E' e s') :
    Meets x s Q' E' := by
  unfold Meets at *
  split at h
  · next hr => exact hQ _ _ h
  · next hr => exact hE _ _ h

theorem any : Meets x s (fun _ _ => True) (fun _ _ => True) := by
  unfold Meets
  split <;> trivial

/-- A step whose end is known before the rest is looked at. -/
theorem seq (hx : Meets x s Q E) (hf : ∀ a s', Q a s' → Meets (f a) s' R E) :
    Meets (x >>= f) s R E :=
  bind (hx.mono hf fun _ _ h => h)

theorem ite {c : Prop} [Decidable c] {x y : EStateM ε σ α} (hx : c → Meets x s Q E)
    (hy : ¬ c → Meets y s Q E) : Meets (if c then x else y) s Q E := by
  split
  · next hc => exact hx hc
  · next hc => exact hy hc

theorem ok {a : α} {s' : σ} (h : Meets x s Q E) (hx : x s = .ok a s') : Q a s' := by
  rwa [Meets, hx] at h

theorem error {e : ε} {s' : σ} (h : Meets x s Q E) (hx : x s = .error e s') : E e s' := by
  rwa [Meets, hx] at h

end Meets

end Iotc.Lib
