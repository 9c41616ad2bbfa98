import Iotc.Resume.Basic

/-!
# Runs against a world

A `World` answers every call as a function of the trace so far, so quantifying
over worlds quantifies over every sequence of answers; `during` is what else runs
while a call is pending. `Prog.run` is the run of a program in a world: the result,
the last state and the trace. Between two runs of the same world the trace is
carried along.

`World.nested` is the world whose calls may call back into an interface `api`:
while a re-entrant call is pending, a list of `api` calls runs, whose own
re-entrant calls may nest again, `d` levels deep.
-/

namespace Iotc.Resume

variable {Op : Type} {Ans : Op → Type} {σ α β : Type}

/-- A call and its answer. -/
abbrev Ev (Op : Type) (Ans : Op → Type) : Type := (op : Op) × Ans op

abbrev Tr (Op : Type) (Ans : Op → Type) : Type := List (Ev Op Ans)

structure Out (Op : Type) (Ans : Op → Type) (σ α : Type) where
  res : Except Stop α
  st : σ
  tr : Tr Op Ans

def Out.bind (o : Out Op Ans σ α) (f : α → σ → Tr Op Ans → Out Op Ans σ β) : Out Op Ans σ β :=
  match o.res with
  | .ok a => f a o.st o.tr
  | .error e => ⟨.error e, o.st, o.tr⟩

@[simp] theorem Out.bind_ok (a : α) (s : σ) (t : Tr Op Ans)
    (f : α → σ → Tr Op Ans → Out Op Ans σ β) : (⟨.ok a, s, t⟩ : Out Op Ans σ α).bind f = f a s t :=
  rfl

@[simp] theorem Out.bind_error (e : Stop) (s : σ) (t : Tr Op Ans)
    (f : α → σ → Tr Op Ans → Out Op Ans σ β) :
    (⟨.error e, s, t⟩ : Out Op Ans σ α).bind f = ⟨.error e, s, t⟩ := rfl

theorem Out.bind_assoc {γ : Type} (o : Out Op Ans σ α) (f : α → σ → Tr Op Ans → Out Op Ans σ β)
    (g : β → σ → Tr Op Ans → Out Op Ans σ γ) :
    (o.bind f).bind g = o.bind fun a s t => (f a s t).bind g := by
  obtain ⟨r, s, t⟩ := o
  cases r <;> rfl

/-- What runs while a call is pending only adds to the trace. -/
structure World (Op : Type) (Ans : Op → Type) (σ : Type) where
  ans : Tr Op Ans → (op : Op) → Ans op
  during : Op → σ → Tr Op Ans → Out Op Ans σ Unit
  grows : ∀ op s t, ∃ u, (during op s t).tr = t ++ u

/-- Nothing else runs while a call is pending. -/
def idle (s : σ) (t : Tr Op Ans) : Out Op Ans σ Unit := ⟨.ok (), s, t⟩

def Res.run (W : World Op Ans σ) : Res Op Ans σ α → Tr Op Ans → Out Op Ans σ α
  | .done a s, t => ⟨.ok a, s, t⟩
  | .stop e s, t => ⟨.error e, s, t⟩
  | .call op s k, t => (W.during op s t).bind fun _ s' t' =>
      (k (W.ans t' op) s').run W (t' ++ [⟨op, W.ans t' op⟩])

def Prog.run (W : World Op Ans σ) (p : Prog Op Ans σ α) (s : σ) (t : Tr Op Ans) :
    Out Op Ans σ α := (p s).run W t

/-! ## Computing runs -/

section
variable (W : World Op Ans σ) (s : σ) (t : Tr Op Ans)

theorem Res.run_bind (r : Res Op Ans σ α) (f : α → σ → Res Op Ans σ β) (t : Tr Op Ans) :
    (r.bind f).run W t = (r.run W t).bind fun a s t => (f a s).run W t := by
  induction r generalizing t with
  | done a s => rfl
  | stop e s => rfl
  | call op s k ih =>
    simp only [Res.bind, Res.run, Out.bind_assoc]
    congr 1
    funext _ s' t'
    exact ih ..

@[simp] theorem run_pure (a : α) : (pure a : Prog Op Ans σ α).run W s t = ⟨.ok a, s, t⟩ := rfl

@[simp] theorem run_bind (p : Prog Op Ans σ α) (f : α → Prog Op Ans σ β) :
    (p >>= f).run W s t = (p.run W s t).bind fun a s t => (f a).run W s t :=
  Res.run_bind W (p s) (fun a s => f a s) t

@[simp] theorem run_get : (Prog.get : Prog Op Ans σ σ).run W s t = ⟨.ok s, s, t⟩ := rfl

@[simp] theorem run_modify (f : σ → σ) :
    (Prog.modify f : Prog Op Ans σ Unit).run W s t = ⟨.ok (), f s, t⟩ := rfl

@[simp] theorem run_stop (e : Stop) :
    (Prog.stop e : Prog Op Ans σ α).run W s t = ⟨.error e, s, t⟩ := rfl

@[simp] theorem run_ite (c : Prop) [Decidable c] (p q : Prog Op Ans σ α) :
    (if c then p else q).run W s t = if c then p.run W s t else q.run W s t := by
  split <;> rfl

theorem run_call (op : Op) : (Prog.call op : Prog Op Ans σ (Ans op)).run W s t =
    (W.during op s t).bind fun _ s' t' => ⟨.ok (W.ans t' op), s', t' ++ [⟨op, W.ans t' op⟩]⟩ := rfl

theorem Res.run_grows (r : Res Op Ans σ α) (t : Tr Op Ans) : ∃ u, (r.run W t).tr = t ++ u := by
  induction r generalizing t with
  | done a s => exact ⟨[], (List.append_nil t).symm⟩
  | stop e s => exact ⟨[], (List.append_nil t).symm⟩
  | call op s k ih =>
    obtain ⟨u, hu⟩ := W.grows op s t
    unfold Res.run
    generalize W.during op s t = o at hu
    obtain ⟨r, s', t'⟩ := o
    subst hu
    cases r with
    | error e => exact ⟨u, rfl⟩
    | ok _ =>
      obtain ⟨v, hv⟩ := ih (W.ans (t ++ u) op) s' (t ++ u ++ [⟨op, W.ans (t ++ u) op⟩])
      exact ⟨u ++ [⟨op, W.ans (t ++ u) op⟩] ++ v, by
        rw [Out.bind_ok, hv]; simp only [List.append_assoc]⟩

theorem Prog.run_grows (p : Prog Op Ans σ α) : ∃ u, (p.run W s t).tr = t ++ u :=
  Res.run_grows W (p s) t

end

/-- Nothing else runs while `op` is pending. -/
def World.Quiet (W : World Op Ans σ) (op : Op) : Prop := ∀ s t, W.during op s t = idle s t

theorem run_call_quiet {W : World Op Ans σ} {op : Op} (h : W.Quiet op) (s : σ) (t : Tr Op Ans) :
    (Prog.call op : Prog Op Ans σ (Ans op)).run W s t =
      ⟨.ok (W.ans t op), s, t ++ [⟨op, W.ans t op⟩]⟩ := by
  rw [run_call, h s t]
  rfl

/-- The world in which every call is atomic. -/
def World.sequential (ans : Tr Op Ans → (op : Op) → Ans op) : World Op Ans σ :=
  ⟨ans, fun _ => idle, fun _ _ t => ⟨[], (List.append_nil t).symm⟩⟩

theorem World.sequential_quiet (ans : Tr Op Ans → (op : Op) → Ans op) (op : Op) :
    (World.sequential ans : World Op Ans σ).Quiet op := fun _ _ => rfl

/-! ## Sessions and re-entrance -/

section
variable {Call : Type} (api : Call → Prog Op Ans σ β)

/-- The calls of an interface one after the other, with their results. -/
def session : List Call → Prog Op Ans σ (List β)
  | [] => pure []
  | c :: cs => do
    let b ← api c
    let bs ← session cs
    return b :: bs

/-- The world of depth `d`: while an operation marked `reent` is pending, the
interface calls `calls` runs at depth `d - 1`. -/
def World.nested (ans : Tr Op Ans → (op : Op) → Ans op) (reent : Op → Bool)
    (calls : Tr Op Ans → Op → List Call) : Nat → World Op Ans σ
  | 0 => World.sequential ans
  | d + 1 => ⟨ans, fun op s t =>
      if reent op then
        (do let _ ← session api (calls t op)).run (World.nested ans reent calls d) s t
      else idle s t, fun op s t => by
        split
        · exact Prog.run_grows ..
        · exact ⟨[], (List.append_nil t).symm⟩⟩

theorem World.nested_quiet {ans : Tr Op Ans → (op : Op) → Ans op} {reent : Op → Bool}
    {calls : Tr Op Ans → Op → List Call} {d : Nat} {op : Op} (h : reent op = false) :
    (World.nested api ans reent calls d).Quiet op := by
  intro s t
  cases d with
  | zero => rfl
  | succ d => simp [World.nested, h]

end

end Iotc.Resume
