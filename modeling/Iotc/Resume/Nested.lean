import Iotc.Resume.Hoare

/-!
# The calls of a nested session

While a run waits for one of its calls, others may run. `points` are the places where it waits
and `own` the events it adds itself. `made` lists every call that a nested session makes, at any
depth, with the calls that are pending around it; `made_all` is the induction over it.

A run that finds its state again after every wait is the run of a sequential world that gives the
same answers (`Res.run_replay`).
-/

namespace Iotc.Resume

variable {Op : Type} {Ans : Op → Type} {σ α β : Type}

/-! ## Waiting -/

/-- A call that is pending, with the state and the trace it was made in. -/
structure Point (Op : Type) (Ans : Op → Type) (σ : Type) where
  op : Op
  st : σ
  tr : Tr Op Ans

/-- Where a run waits. -/
def Res.points (W : World Op Ans σ) : Res Op Ans σ α → Tr Op Ans → List (Point Op Ans σ)
  | .done .., _ | .stop .., _ => []
  | .call op s k, t =>
    let o := W.during op s t
    ⟨op, s, t⟩ :: if o.res.isOk then
      (k (W.ans o.tr op) o.st).points W (o.tr ++ [⟨op, W.ans o.tr op⟩])
    else []

/-- The events of a run without those of what runs while it waits. -/
def Res.own (W : World Op Ans σ) : Res Op Ans σ α → Tr Op Ans → Tr Op Ans
  | .done .., _ | .stop .., _ => []
  | .call op s k, t =>
    let o := W.during op s t
    if o.res.isOk then
      ⟨op, W.ans o.tr op⟩ :: (k (W.ans o.tr op) o.st).own W (o.tr ++ [⟨op, W.ans o.tr op⟩])
    else []

/-- The logic of all runs in `W`, with `G` wherever they wait. -/
def World.watched (W : World Op Ans σ) (G : Point Op Ans σ → Prop) (E : σ → Tr Op Ans → Prop) :
    Logic Op Ans σ (Tr Op Ans) where
  call op s t Φ := G ⟨op, s, t⟩ ∧ (W.during op s t).Sat
    (fun _ s' t' => Φ (W.ans t' op) s' (t' ++ [⟨op, W.ans t' op⟩])) E
  stop := E
  mono h hcall := ⟨hcall.1, hcall.2.mono (fun _ _ _ hΦ => h _ _ _ hΦ) fun _ _ he => he⟩

section
variable {W : World Op Ans σ} {G : Point Op Ans σ → Prop} {E : σ → Tr Op Ans → Prop}

theorem World.Quiet.watched {op : Op} (h : W.Quiet op) (hG : ∀ s t, G ⟨op, s, t⟩) :
    (W.watched G E).Atomic (fun _ _ => True) op := by
  intro s t Φ hΦ
  refine ⟨hG s t, ?_⟩
  rw [h s t]
  exact hΦ _ trivial

theorem Res.wp.watched {r : Res Op Ans σ α} {t : Tr Op Ans} {Q : α → σ → Tr Op Ans → Prop}
    (h : r.wp (W.watched G E) t Q) : (r.run W t).Sat Q E ∧ ∀ p ∈ r.points W t, G p := by
  induction r generalizing t with
  | done a s | stop e s => exact ⟨h, fun p hp => absurd hp List.not_mem_nil⟩
  | call op s k ih =>
    obtain ⟨hG, hcall⟩ := h
    unfold Res.run Res.points
    generalize W.during op s t = o at hcall
    obtain ⟨_ | _, s', t'⟩ := o
    · refine ⟨hcall, fun p hp => ?_⟩
      rw [List.mem_singleton.mp hp]
      exact hG
    · obtain ⟨hrun, hpoints⟩ := ih _ s' hcall
      exact ⟨hrun, List.forall_mem_cons.mpr ⟨hG, hpoints⟩⟩

end

/-! ## Replay -/

/-- `ans` answers as the events `u` say when they follow `t`. -/
abbrev Answers (ans : Tr Op Ans → (op : Op) → Ans op) (t u : Tr Op Ans) : Prop :=
  Along (fun t ev => ans t ev.1 = ev.2) t u

/-- There are answers for any events. -/
theorem exists_answers (ans : Tr Op Ans → (op : Op) → Ans op) (t u : Tr Op Ans) :
    ∃ ans', Answers ans' t u := by
  classical
  induction u generalizing t with
  | nil => exact ⟨ans, .nil⟩
  | cons ev u ih =>
    obtain ⟨ans', h⟩ := ih (t ++ [ev])
    refine ⟨fun t' op => if h : t' = t ∧ ev.1 = op then h.2 ▸ ev.2 else ans' t' op,
      .cons (dif_pos ⟨rfl, rfl⟩) ?_⟩
    -- the answers given later stand behind longer traces
    refine h.longer fun v ev' hev => (dif_neg fun ht => ?_).trans hev
    simpa using congrArg List.length ht.1

/-- A run that finds its state again after every wait does what it does where nothing else runs,
if its own calls have the same answers. -/
theorem Res.run_replay {W : World Op Ans σ} {r : Res Op Ans σ α} {t t' : Tr Op Ans}
    (hsame : ∀ p ∈ r.points W t, ∃ t, W.during p.op p.st p.tr = idle p.st t)
    {ans : Tr Op Ans → (op : Op) → Ans op} (hans : Answers ans t' (r.own W t)) :
    r.run (World.sequential ans) t' = ⟨(r.run W t).res, (r.run W t).st, t' ++ r.own W t⟩ := by
  induction r generalizing t t' with
  | done a s | stop e s => simp only [Res.run, Res.own, List.append_nil]
  | call op s k ih =>
    obtain ⟨t1, h1⟩ := hsame ⟨op, s, t⟩ List.mem_cons_self
    simp only [Res.points, Res.own, Res.run, h1, idle] at hsame hans ⊢
    obtain ⟨ha, hans⟩ := along_cons.mp hans
    have hrest := ih _ s (fun p hp => hsame p (List.mem_cons_of_mem _ hp)) hans
    show (k (ans t' op) s).run (World.sequential ans) (t' ++ [⟨op, ans t' op⟩]) = _
    rw [show ans t' op = W.ans t1 op from ha, hrest, List.append_assoc]
    rfl

/-! ## Calls -/

section
variable {Call : Type}

/-- A call of an interface: the calls pending around it, each with the state it started from, and
what it comes to. -/
structure Made (Op : Type) (Ans : Op → Type) (σ Call β : Type) where
  above : List (Call × σ)
  call : Call
  st : σ
  tr : Tr Op Ans
  points : List (Point Op Ans σ)
  own : Tr Op Ans
  out : Out Op Ans σ β

def make (W : World Op Ans σ) (api : Call → Prog Op Ans σ β) (above : List (Call × σ)) (c : Call)
    (s : σ) (t : Tr Op Ans) : Made Op Ans σ Call β :=
  ⟨above, c, s, t, (api c s).points W t, (api c s).own W t, (api c).run W s t⟩

/-- The calls of a session in `W`, and what `inner` makes while they wait. -/
def madeIn (W : World Op Ans σ) (api : Call → Prog Op Ans σ β)
    (inner : List (Call × σ) → Point Op Ans σ → List (Made Op Ans σ Call β))
    (above : List (Call × σ)) : List Call → σ → Tr Op Ans → List (Made Op Ans σ Call β)
  | [], _, _ => []
  | c :: cs, s, t =>
    let x := make W api above c s t
    x :: (x.points.flatMap (inner ((c, s) :: above)) ++
      if x.out.res.isOk then madeIn W api inner above cs x.out.st x.out.tr else [])

/-- The calls that a session makes in `World.nested`. -/
def made (api : Call → Prog Op Ans σ β) (ans : Tr Op Ans → (op : Op) → Ans op) (reent : Op → Bool)
    (calls : Tr Op Ans → Op → List Call) :
    Nat → List (Call × σ) → List Call → σ → Tr Op Ans → List (Made Op Ans σ Call β)
  | 0 => madeIn (World.nested api ans reent calls 0) api fun _ _ => []
  | d + 1 => madeIn (World.nested api ans reent calls (d + 1)) api fun above p =>
      if reent p.op then made api ans reent calls d above (calls p.tr p.op) p.st p.tr else []

variable {api : Call → Prog Op Ans σ β} {ι : Type} {I : ι → List (Call × σ) → σ → Tr Op Ans → Prop}
  {E : ι → σ → Tr Op Ans → Prop} {R : Made Op Ans σ Call β → Prop}

/-- What is asked of a call: it keeps `I`, the calls made while it waits find `I`, and `R`
holds of it. -/
def Made.Meets (reent : Op → Bool) (I : ι → List (Call × σ) → σ → Tr Op Ans → Prop)
    (E : ι → σ → Tr Op Ans → Prop) (R : Made Op Ans σ Call β → Prop) (i : ι)
    (x : Made Op Ans σ Call β) : Prop :=
  x.out.Sat (fun _ => I i x.above) (E i) ∧
    (∀ p ∈ x.points, reent p.op → ∃ j, I j ((x.call, x.st) :: x.above) p.st p.tr) ∧ R x

variable {reent : Op → Bool} {ans : Tr Op Ans → (op : Op) → Ans op}
  {calls : Tr Op Ans → Op → List Call}

theorem madeIn_all {W : World Op Ans σ}
    {inner : List (Call × σ) → Point Op Ans σ → List (Made Op Ans σ Call β)}
    (hmeets : ∀ i above c s t, I i above s t → (make W api above c s t).Meets reent I E R i)
    (hinner : ∀ above p, (reent p.op → ∃ j, I j above p.st p.tr) → ∀ x ∈ inner above p, R x)
    {i : ι} {above : List (Call × σ)} (cs : List Call) {s : σ} {t : Tr Op Ans} (h : I i above s t) :
    ((session api cs).run W s t).Sat (fun _ => I i above) (E i) ∧
      ∀ x ∈ madeIn W api inner above cs s t, R x := by
  induction cs generalizing s t with
  | nil => exact ⟨h, fun x hx => absurd hx List.not_mem_nil⟩
  | cons c cs ih =>
    obtain ⟨hout, hpoints, hR⟩ := hmeets i above c s t h
    have hwaiting : ∀ x ∈ (make W api above c s t).points.flatMap (inner ((c, s) :: above)),
        R x := by
      intro x hx
      obtain ⟨p, hp, hx⟩ := List.mem_flatMap.mp hx
      exact hinner _ p (hpoints p hp) x hx
    unfold madeIn
    simp only [session, run_bind]
    rw [List.forall_mem_cons, List.forall_mem_append]
    change ((api c).run W s t).Sat _ _ at hout
    rw [show (make W api above c s t).out = (api c).run W s t from rfl]
    generalize (api c).run W s t = o at hout
    obtain ⟨_ | b, s', t'⟩ := o
    · exact ⟨hout, hR, hwaiting, fun x hx => absurd hx List.not_mem_nil⟩
    · obtain ⟨hrest, hmade⟩ := ih hout
      refine ⟨?_, hR, hwaiting, hmade⟩
      show (((session api cs).run W s' t').bind _).Sat _ _
      generalize (session api cs).run W s' t' = o at hrest
      obtain ⟨_ | _, s', t'⟩ := o <;> exact hrest

/-- What each call does in any world whose re-entrant calls keep `I`, all calls of a nested session
do, at every depth. -/
theorem made_all
    (hapi : ∀ W : World Op Ans σ, (∀ op, reent op = false → W.Quiet op) →
      (∀ op i above s t, I i above s t → (W.during op s t).Sat (fun _ => I i above) (E i)) →
      ∀ i above c s t, I i above s t → (make W api above c s t).Meets reent I E R i)
    (d : Nat) {i : ι} {above : List (Call × σ)} (cs : List Call) {s : σ} {t : Tr Op Ans}
    (h : I i above s t) :
    ((session api cs).run (World.nested api ans reent calls d) s t).Sat (fun _ => I i above) (E i) ∧
      ∀ x ∈ made api ans reent calls d above cs s t, R x := by
  induction d generalizing i above cs s t with
  | zero =>
    refine madeIn_all (hapi _ (fun op _ => World.sequential_quiet ans op) ?_) ?_ cs h
    · exact fun op i above s t h => h
    · exact fun above p _ x hx => absurd hx List.not_mem_nil
  | succ d ih =>
    refine madeIn_all (hapi _ (fun op h => World.nested_quiet api h) fun op i above s t h => ?_)
      (fun above p hp x hx => ?_) cs h
    · by_cases hop : reent op
      · have hsat := (ih (calls t op) h).1
        simp only [World.nested, if_pos hop, run_bind]
        generalize (session api (calls t op)).run _ s t = o at hsat
        obtain ⟨_ | _, s', t'⟩ := o <;> exact hsat
      · rw [World.nested_quiet api (Bool.not_eq_true _ ▸ hop) s t]
        exact h
    · split at hx
      · next hop =>
        obtain ⟨j, hj⟩ := hp hop
        exact (ih _ hj).2 x hx
      · cases hx

end

end Iotc.Resume
