import Iotc.Resume.Logic
import Iotc.Resume.Run

/-!
# Triples over states and traces

`Triple W A E P p Q`: a run of `p` in the world `W` from a state and a trace in `P`
returns in `Q` or stops in `E`, provided the events it adds meet the assumption `A`. An
assertion speaks of the trace as well as of the state. Where nothing interrupts a run, its
ghost state may stand for the trace: `Logic.ghost` folds the events into it.

`nested_lets` is the induction over the depth of re-entrance: what each interface call
keeps when the calls made during it keep it, all that runs while a call is pending keeps at every
depth, and with it every session (`nested_triple`).
`EachCall` says something of each call of a session by itself.
-/

namespace Iotc.Resume

variable {Op : Type} {Ans : Op → Type} {σ α β : Type}

/-! ## Properties along a trace -/

/-- `A` holds of each event of `u`, given the trace before it, when `u` follows `t`. -/
inductive Along (A : Tr Op Ans → Ev Op Ans → Prop) : Tr Op Ans → Tr Op Ans → Prop where
  | nil {t : Tr Op Ans} : Along A t []
  | cons {t u : Tr Op Ans} {ev : Ev Op Ans} : A t ev → Along A (t ++ [ev]) u → Along A t (ev :: u)

section
variable {A : Tr Op Ans → Ev Op Ans → Prop} {t u v : Tr Op Ans} {ev : Ev Op Ans}

theorem along_cons : Along A t (ev :: u) ↔ A t ev ∧ Along A (t ++ [ev]) u :=
  ⟨fun h => by cases h with | cons hev hu => exact ⟨hev, hu⟩, fun h => .cons h.1 h.2⟩

theorem along_single : Along A t [ev] ↔ A t ev :=
  along_cons.trans (and_iff_left .nil)

theorem along_append : Along A t (u ++ v) ↔ Along A t u ∧ Along A (t ++ u) v := by
  induction u generalizing t with
  | nil => simp [Along.nil]
  | cons ev u ih =>
    simp only [List.cons_append, along_cons, ih, and_assoc, List.append_assoc, List.nil_append]

theorem along_snoc : Along A t (u ++ [ev]) ↔ Along A t u ∧ A (t ++ u) ev :=
  along_append.trans (and_congr_right fun _ => along_single)

instance decidableAlong [∀ t ev, Decidable (A t ev)] : ∀ t u, Decidable (Along A t u)
  | _, [] => isTrue .nil
  | t, ev :: u =>
    have := decidableAlong (t ++ [ev]) u
    decidable_of_iff (A t ev ∧ Along A (t ++ [ev]) u) along_cons.symm

theorem Along.of_forall (h : ∀ ev ∈ u, ∀ t, A t ev) : Along A t u := by
  induction u generalizing t with
  | nil => exact .nil
  | cons ev u ih =>
    exact .cons (h ev List.mem_cons_self t) (ih fun ev hev => h ev (List.mem_cons_of_mem _ hev))

/-- What is assumed of the events of `u` only. -/
theorem Along.imp_mem {A' : Tr Op Ans → Ev Op Ans → Prop} (h : Along A t u)
    (hA : ∀ t, ∀ ev ∈ u, A t ev → A' t ev) : Along A' t u := by
  induction h with
  | nil => exact .nil
  | @cons t u ev hev _ ih =>
    exact .cons (hA t ev List.mem_cons_self hev)
      (ih fun t' ev' hmem => hA t' ev' (List.mem_cons_of_mem _ hmem))

/-- What is assumed of the traces along the way only. -/
theorem Along.longer {A' : Tr Op Ans → Ev Op Ans → Prop} (h : Along A t u)
    (hA : ∀ v ev, A (t ++ v) ev → A' (t ++ v) ev) : Along A' t u := by
  induction h with
  | nil => exact .nil
  | @cons t u ev hev _ ih =>
    refine .cons ?_ (ih fun v ev' => ?_)
    · simpa using hA [] ev (by simpa using hev)
    · rw [List.append_assoc]
      exact hA ([ev] ++ v) ev'

/-- Every event, with what stands before it. -/
theorem Along.split (h : Along A t (u ++ ev :: v)) : A (t ++ u) ev :=
  (along_cons.mp (along_append.mp h).2).1

end

/-- Each event of a run that nothing interrupts carries the answer of the world to the trace
before it. -/
theorem Res.run_answers {ans : Tr Op Ans → (op : Op) → Ans op} (r : Res Op Ans σ α)
    {t u : Tr Op Ans} (hu : (r.run (World.sequential ans) t).tr = t ++ u) :
    Along (fun t ev => ev.2 = ans t ev.1) t u := by
  induction r generalizing t u with
  | done a s | stop e s =>
    obtain rfl : u = [] := List.self_eq_append_right.mp hu
    exact .nil
  | call op s k ih =>
    obtain ⟨v, hv⟩ := (k (ans t op) s).run_grows (World.sequential ans) (t ++ [⟨op, ans t op⟩])
    have hu : (t ++ [⟨op, ans t op⟩]) ++ v = t ++ u := hv.symm.trans hu
    rw [List.append_assoc] at hu
    obtain rfl := List.append_cancel_left hu
    exact .cons rfl (ih _ _ hv)

/-- An assumption that allows every answer of the world holds along its runs. -/
theorem Along.of_answers {A : Tr Op Ans → Ev Op Ans → Prop} {ans : Tr Op Ans → (op : Op) → Ans op}
    (h : ∀ t op t', A t ⟨op, ans t' op⟩) {p : Prog Op Ans σ α} {s : σ} {t : Tr Op Ans} :
    Along A t ((p.run (World.sequential ans) s t).tr.drop t.length) := by
  obtain ⟨u, hu⟩ := Prog.run_grows (World.sequential ans) s t p
  rw [hu, List.drop_left]
  refine (Res.run_answers (p s) hu).longer fun v ⟨op, a⟩ ha => ?_
  obtain rfl : a = ans (t ++ v) op := ha
  exact h _ op _

/-! ## Triples -/

/-- `Q` where the run returned, `E` where it stopped. -/
def Out.Sat (o : Out Op Ans σ α) (Q : α → σ → Tr Op Ans → Prop) (E : σ → Tr Op Ans → Prop) :
    Prop :=
  match o.res with
  | .ok a => Q a o.st o.tr
  | .error _ => E o.st o.tr

theorem Out.Sat.mono {o : Out Op Ans σ α} {Q Q' : α → σ → Tr Op Ans → Prop}
    {E E' : σ → Tr Op Ans → Prop} (h : o.Sat Q E) (hq : ∀ a s t, Q a s t → Q' a s t)
    (he : ∀ s t, E s t → E' s t) : o.Sat Q' E' := by
  obtain ⟨r, s, t⟩ := o
  cases r with
  | ok a => exact hq a s t h
  | error e => exact he s t h

theorem Out.Sat.ok {o : Out Op Ans σ α} {Q : α → σ → Tr Op Ans → Prop} {E : σ → Tr Op Ans → Prop}
    (h : o.Sat Q E) (hok : o.res.isOk) : ∃ a, o.res = .ok a ∧ Q a o.st o.tr := by
  obtain ⟨r, s, t⟩ := o
  cases r with
  | ok a => exact ⟨a, rfl, h⟩
  | error e => cases hok

/-- What holds of a run however it ends. -/
theorem Out.Sat.both {o : Out Op Ans σ α} {P : σ → Tr Op Ans → Prop} (h : o.Sat (fun _ => P) P) :
    P o.st o.tr := by
  obtain ⟨r, s, t⟩ := o
  cases r <;> exact h

/-- The logic of the runs in `W` whose events meet `A`: whatever runs while a call is pending comes
to an end, or stops in `E`, and the program goes on with the answer. -/
def World.logic (W : World Op Ans σ) (A : Tr Op Ans → Ev Op Ans → Prop)
    (E : σ → Tr Op Ans → Prop) : Logic Op Ans σ (Tr Op Ans) where
  call op s t Φ := ∀ u, (W.during op s t).tr = t ++ u → Along A t u →
    (W.during op s t).Sat (fun _ s' t' => A t' ⟨op, W.ans t' op⟩ →
      Φ (W.ans t' op) s' (t' ++ [⟨op, W.ans t' op⟩])) E
  stop := E
  mono h hcall u hu hA := (hcall u hu hA).mono (fun _ _ _ hΦ ha => h _ _ _ (hΦ ha))
    fun _ _ he => he

abbrev Triple (W : World Op Ans σ) (A : Tr Op Ans → Ev Op Ans → Prop) (E : σ → Tr Op Ans → Prop)
    (P : σ → Tr Op Ans → Prop) (p : Prog Op Ans σ α) (Q : α → σ → Tr Op Ans → Prop) : Prop :=
  (W.logic A E).Spec P p Q

/-- A call of `op` returns at once, with any answer that `A` allows. -/
def Logic.Atomic (L : Logic Op Ans σ (Tr Op Ans)) (A : Tr Op Ans → Ev Op Ans → Prop) (op : Op) :
    Prop :=
  ∀ s t (Φ : Ans op → σ → Tr Op Ans → Prop),
    (∀ a, A t ⟨op, a⟩ → Φ a s (t ++ [⟨op, a⟩])) → L.call op s t Φ

/-- What else runs while `op` is pending leads from `P` to `P'`. -/
def World.Lets (W : World Op Ans σ) (A : Tr Op Ans → Ev Op Ans → Prop) (E : σ → Tr Op Ans → Prop)
    (op : Op) (P P' : σ → Tr Op Ans → Prop) : Prop :=
  ∀ s t u, P s t → (W.during op s t).tr = t ++ u → Along A t u →
    (W.during op s t).Sat (fun _ => P') E

section
variable {W : World Op Ans σ} {A : Tr Op Ans → Ev Op Ans → Prop} {E : σ → Tr Op Ans → Prop}
  {P P' : σ → Tr Op Ans → Prop}

theorem World.Quiet.lets {op : Op} (h : W.Quiet op) : W.Lets A E op P P := by
  intro s t u hP _ _
  rw [h s t]
  exact hP

theorem World.Quiet.atomic {op : Op} (h : W.Quiet op) : (W.logic A E).Atomic A op := by
  intro s t Φ hΦ u _ _
  rw [h s t]
  exact hΦ _

/-- The weakest precondition speaks of the run. -/
theorem wp_iff_run {r : Res Op Ans σ α} {t : Tr Op Ans} {Q : α → σ → Tr Op Ans → Prop} :
    r.wp (W.logic A E) t Q ↔
      ∀ u, (r.run W t).tr = t ++ u → Along A t u → (r.run W t).Sat Q E := by
  induction r generalizing t with
  | done a s => exact ⟨fun h _ _ _ => h, fun h => h [] (List.append_nil t).symm .nil⟩
  | stop e s => exact ⟨fun h _ _ _ => h, fun h => h [] (List.append_nil t).symm .nil⟩
  | call op s k ih =>
    obtain ⟨u1, hu1⟩ := W.grows op s t
    show (∀ u, (W.during op s t).tr = t ++ u → _ → _) ↔ _
    unfold Res.run
    generalize W.during op s t = o at hu1
    obtain ⟨r, s1, t1⟩ := o
    subst hu1
    cases r with
    | error e => exact Iff.rfl
    | ok _ =>
      rw [Out.bind_ok]
      generalize hev : (⟨op, W.ans (t ++ u1) op⟩ : Ev Op Ans) = ev
      constructor
      · intro h u hu hA
        obtain ⟨u2, hu2⟩ := Res.run_grows W (k (W.ans (t ++ u1) op) s1) (t ++ u1 ++ [ev])
        have htr := hu2.symm.trans hu
        rw [List.append_assoc, List.append_assoc] at htr
        obtain rfl := List.append_cancel_left htr
        obtain ⟨hA1, hA2⟩ := along_append.mp hA
        obtain ⟨hev', hA2⟩ := along_append.mp hA2
        have hstep := h u1 rfl hA1 (hev ▸ along_single.mp hev')
        exact (ih _ s1).mp (hev ▸ hstep) u2 hu2 hA2
      · intro h u hu hA
        obtain rfl := List.append_cancel_left hu
        refine fun hev' => (ih _ s1).mpr fun u2 hu2 hA2 => ?_
        rw [hev] at hev' hu2 hA2 ⊢
        refine h (u1 ++ ([ev] ++ u2)) ?_ ?_
        · rw [hu2]; simp only [List.append_assoc]
        · exact along_append.mpr ⟨hA, along_append.mpr ⟨along_single.mpr hev', hA2⟩⟩

theorem triple_iff_run {p : Prog Op Ans σ α} {Q : α → σ → Tr Op Ans → Prop} :
    Triple W A E P p Q ↔
      ∀ s t u, P s t → (p.run W s t).tr = t ++ u → Along A t u → (p.run W s t).Sat Q E :=
  ⟨fun h s t u hP => wp_iff_run.mp (h s t hP) u,
    fun h s t hP => wp_iff_run.mpr fun u => h s t u hP⟩

namespace Logic.Spec

variable {Q : α → σ → Tr Op Ans → Prop} {R : β → σ → Tr Op Ans → Prop}

theorem sat {p : Prog Op Ans σ α} (h : Triple W A E P p Q) {s : σ} {t u : Tr Op Ans} (hP : P s t)
    (htr : (p.run W s t).tr = t ++ u) (hA : Along A t u) : (p.run W s t).Sat Q E :=
  triple_iff_run.mp h s t u hP htr hA

theorem trivial {p : Prog Op Ans σ α} (h : ∀ s t, E s t) :
    Triple W A E P p fun _ _ _ => True := by
  refine triple_iff_run.mpr fun s t u _ _ _ => ?_
  unfold Out.Sat
  split
  · exact True.intro
  · exact h _ _

/-- A call: what runs while it is pending, then any answer the assumption allows. -/
theorem call {op : Op} {Q : Ans op → σ → Tr Op Ans → Prop} (hlets : W.Lets A E op P P')
    (h : ∀ s t a, P' s t → A t ⟨op, a⟩ → Q a s (t ++ [⟨op, a⟩])) :
    Triple W A E P (Prog.call op) Q :=
  .of_call fun s t hP u hu hA => (hlets s t u hP hu hA).mono
    (fun _ s' t' hP' ha => h s' t' _ hP' ha) fun _ _ he => he

theorem call_atomic {L : Logic Op Ans σ (Tr Op Ans)} {op : Op} {Q : Ans op → σ → Tr Op Ans → Prop}
    (hop : L.Atomic A op) (h : ∀ s t a, P s t → A t ⟨op, a⟩ → Q a s (t ++ [⟨op, a⟩])) :
    L.Spec P (Prog.call op) Q := .of_call fun s t hP => hop s t Q fun a => h s t a hP

theorem call_quiet {op : Op} {Q : Ans op → σ → Tr Op Ans → Prop} (hop : W.Quiet op)
    (h : ∀ s t a, P s t → A t ⟨op, a⟩ → Q a s (t ++ [⟨op, a⟩])) :
    Triple W A E P (Prog.call op) Q := call_atomic hop.atomic h

end Logic.Spec

/-! ## Ghost state -/

/-- The logic whose context is a fold of the events, for runs that nothing interrupts: a call
has any answer. -/
def Logic.ghost {Γ : Type} (add : Γ → Ev Op Ans → Γ) (E : σ → Γ → Prop) : Logic Op Ans σ Γ where
  call op s γ Φ := ∀ a, Φ a s (add γ ⟨op, a⟩)
  stop := E
  mono h hcall a := h _ _ _ (hcall a)

/-- The fold that keeps every event. -/
theorem foldl_snoc (u v : Tr Op Ans) : v.foldl (fun u ev => u ++ [ev]) u = u ++ v := by
  induction v generalizing u with
  | nil => exact (List.append_nil u).symm
  | cons ev v ih => rw [List.foldl_cons, ih, List.append_assoc, List.singleton_append]

section
variable {Γ : Type} {add : Γ → Ev Op Ans → Γ} {E : σ → Γ → Prop}

theorem Res.wp.ghost {r : Res Op Ans σ α} {γ : Γ} {Q : α → σ → Γ → Prop}
    (h : r.wp (Logic.ghost add E) γ Q) (ans : Tr Op Ans → (op : Op) → Ans op) {t u : Tr Op Ans}
    (hu : (r.run (World.sequential ans) t).tr = t ++ u) :
    (r.run (World.sequential ans) t).Sat (fun a s _ => Q a s (u.foldl add γ))
      fun s _ => E s (u.foldl add γ) := by
  induction r generalizing γ t u with
  | done a s | stop e s =>
    obtain rfl : u = [] := List.self_eq_append_right.mp hu
    exact h
  | call op s k ih =>
    obtain ⟨v, hv⟩ := (k (ans t op) s).run_grows (World.sequential ans) (t ++ [⟨op, ans t op⟩])
    have hu : (t ++ [⟨op, ans t op⟩]) ++ v = t ++ u := hv.symm.trans hu
    rw [List.append_assoc] at hu
    obtain rfl := List.append_cancel_left hu
    exact ih _ _ (h _) hv

end

/-- What a triple says of the fold holds of the events that a run adds. -/
theorem Logic.Spec.ghost_sat {Γ : Type} {add : Γ → Ev Op Ans → Γ} {P E : σ → Γ → Prop}
    {p : Prog Op Ans σ α} {Q : α → σ → Γ → Prop} (h : (Logic.ghost add E).Spec P p Q)
    (ans : Tr Op Ans → (op : Op) → Ans op) {s : σ} {γ : Γ} (hP : P s γ) (t : Tr Op Ans) :
    (p.run (World.sequential ans) s t).Sat
      (fun a s' t' => Q a s' ((t'.drop t.length).foldl add γ))
      fun s' t' => E s' ((t'.drop t.length).foldl add γ) := by
  obtain ⟨u, hu⟩ := Prog.run_grows (World.sequential ans) s t p
  have hsat := (h s γ hP).ghost ans hu
  change (p.run (World.sequential ans) s t).Sat _ _ at hsat
  generalize p.run (World.sequential ans) s t = o at hu hsat
  obtain ⟨r, s', t'⟩ := o
  obtain rfl : t' = t ++ u := hu
  simpa only [Out.Sat, List.drop_left] using hsat

/-- The logic whose context is the events added so far. -/
abbrev Logic.added (E : σ → Tr Op Ans → Prop) : Logic Op Ans σ (Tr Op Ans) :=
  .ghost (fun u ev => u ++ [ev]) E

theorem Logic.Spec.added_sat {P E : σ → Tr Op Ans → Prop} {p : Prog Op Ans σ α}
    {Q : α → σ → Tr Op Ans → Prop} (h : (Logic.added E).Spec P p Q)
    (ans : Tr Op Ans → (op : Op) → Ans op) {s : σ} (hP : P s []) (t : Tr Op Ans) :
    (p.run (World.sequential ans) s t).Sat (fun a s' t' => Q a s' (t'.drop t.length))
      fun s' t' => E s' (t'.drop t.length) := by
  simpa only [foldl_snoc, List.nil_append] using h.ghost_sat ans hP t

/-! ## Sessions -/

/-- One call of a session: its result and the events it added. -/
structure Turn (Op : Type) (Ans : Op → Type) (β : Type) where
  res : Except Stop β
  events : Tr Op Ans

def turn (W : World Op Ans σ) (p : Prog Op Ans σ β) (s : σ) (t : Tr Op Ans) : Turn Op Ans β :=
  ⟨(p.run W s t).res, (p.run W s t).tr.drop t.length⟩

/-- What a triple says of ghost state holds of the events that a call adds. -/
theorem Logic.Spec.turn {Γ : Type} {add : Γ → Ev Op Ans → Γ} {E P : σ → Γ → Prop}
    {p : Prog Op Ans σ β} {Q : β → σ → Γ → Prop} (h : (Logic.ghost add E).Spec P p Q)
    (ans : Tr Op Ans → (op : Op) → Ans op) {s : σ} {γ : Γ} (hP : P s γ) (t : Tr Op Ans) :
    ∃ s', match (Resume.turn (World.sequential ans) p s t).res with
      | .ok b => Q b s' ((Resume.turn (World.sequential ans) p s t).events.foldl add γ)
      | .error _ => E s' ((Resume.turn (World.sequential ans) p s t).events.foldl add γ) := by
  obtain ⟨u, hu⟩ := Prog.run_grows (World.sequential ans) s t p
  have hsat := (h s γ hP).ghost ans hu
  have hevents : (Resume.turn (World.sequential ans) p s t).events = u := by
    rw [Resume.turn, hu, List.drop_left]
  rw [hevents]
  exact ⟨_, hsat⟩

/-- The calls of a session that are made: all, or those up to the first that stops. -/
def turns {Call : Type} (W : World Op Ans σ) (api : Call → Prog Op Ans σ β) :
    List Call → σ → Tr Op Ans → List (Turn Op Ans β)
  | [], _, _ => []
  | c :: cs, s, t => turn W (api c) s t ::
      if ((api c).run W s t).res.isOk then
        turns W api cs ((api c).run W s t).st ((api c).run W s t).tr
      else []

theorem turns_all {Call : Type} {W : World Op Ans σ} {api : Call → Prog Op Ans σ β}
    {R : Turn Op Ans β → Prop} (h : ∀ c s t, R (turn W (api c) s t)) (cs : List Call) (s : σ)
    (t : Tr Op Ans) : ∀ x ∈ turns W api cs s t, R x := by
  induction cs generalizing s t with
  | nil => simp [turns]
  | cons c cs ih =>
    intro x hx
    rcases List.mem_cons.mp hx with rfl | hx
    · exact h c s t
    · split at hx
      · exact ih _ _ x hx
      · cases hx

/-- `R` holds of each call of a session that is made, where it starts and of what it comes to. -/
def EachCall {Call : Type} (W : World Op Ans σ) (api : Call → Prog Op Ans σ β)
    (R : Call → σ → Tr Op Ans → Out Op Ans σ β → Prop) : List Call → σ → Tr Op Ans → Prop
  | [], _, _ => True
  | c :: cs, s, t => R c s t ((api c).run W s t) ∧ (((api c).run W s t).res.isOk →
      EachCall W api R cs ((api c).run W s t).st ((api c).run W s t).tr)

/-- An invariant carries what each call does under a condition over the session. -/
theorem EachCall.of_inv {Call : Type} {W : World Op Ans σ} {api : Call → Prog Op Ans σ β}
    {cond R : Call → σ → Tr Op Ans → Out Op Ans σ β → Prop} {I : σ → Tr Op Ans → Prop}
    (hstep : ∀ c s t, I s t → cond c s t ((api c).run W s t) → R c s t ((api c).run W s t) ∧
      (((api c).run W s t).res.isOk → I ((api c).run W s t).st ((api c).run W s t).tr))
    {cs : List Call} {s : σ} {t : Tr Op Ans} (hcond : EachCall W api cond cs s t) (hI : I s t) :
    EachCall W api R cs s t := by
  induction cs generalizing s t with
  | nil => trivial
  | cons c cs ih =>
    obtain ⟨hR, hnext⟩ := hstep c s t hI hcond.1
    exact ⟨hR, fun hok => ih (hcond.2 hok) (hnext hok)⟩

theorem EachCall.all {Call : Type} {W : World Op Ans σ} {api : Call → Prog Op Ans σ β}
    {R : Call → σ → Tr Op Ans → Out Op Ans σ β → Prop} (h : ∀ c s t, R c s t ((api c).run W s t))
    (cs : List Call) (s : σ) (t : Tr Op Ans) : EachCall W api R cs s t := by
  induction cs generalizing s t with
  | nil => trivial
  | cons c cs ih => exact ⟨h c s t, fun _ => ih _ _⟩

variable {Call : Type} {api : Call → Prog Op Ans σ β}

theorem Logic.Spec.session {cs : List Call} (h : ∀ c ∈ cs, Triple W A E P (api c) fun _ => P) :
    Triple W A E P (Resume.session api cs) fun _ => P := by
  induction cs with
  | nil => exact .pure fun _ _ hP => hP
  | cons c cs ih =>
    refine .bind (h c List.mem_cons_self) fun _ => ?_
    exact .bind (ih fun c hc => h c (List.mem_cons_of_mem _ hc)) fun _ => .pure fun _ _ hP => hP

/-- The events of each call of a session meet the assumption `cond` makes about that call in
the state it starts from. -/
inductive SessionAlong (W : World Op Ans σ) (api : Call → Prog Op Ans σ β)
    (cond : Call → σ → Tr Op Ans → Ev Op Ans → Prop) : List Call → σ → Tr Op Ans → Prop where
  | nil {s : σ} {t : Tr Op Ans} : SessionAlong W api cond [] s t
  | cons {c : Call} {cs : List Call} {s : σ} {t : Tr Op Ans} :
    Along (cond c s) t (((api c).run W s t).tr.drop t.length) →
    (((api c).run W s t).res.isOk →
      SessionAlong W api cond cs ((api c).run W s t).st ((api c).run W s t).tr) →
    SessionAlong W api cond (c :: cs) s t

/-- What each call keeps under its assumption, a session keeps whose calls meet theirs. -/
theorem SessionAlong.sat {cond : Call → σ → Tr Op Ans → Ev Op Ans → Prop}
    (h : ∀ c s0, Triple W (cond c s0) E (fun s t => s = s0 ∧ P s t) (api c) fun _ => P)
    {cs : List Call} {s : σ} {t : Tr Op Ans} (hcs : SessionAlong W api cond cs s t) (hP : P s t) :
    ((Resume.session api cs).run W s t).Sat (fun _ => P) E := by
  induction cs generalizing s t with
  | nil => exact hP
  | cons c cs ih =>
    obtain ⟨u, hu⟩ := Prog.run_grows W s t (api c)
    obtain _ | ⟨hA, hrest⟩ := hcs
    rw [hu, List.drop_left] at hA
    have hstep := (h c s).sat ⟨rfl, hP⟩ hu hA
    simp only [Resume.session, run_bind]
    generalize (api c).run W s t = o at hstep hrest
    obtain ⟨r, s', t'⟩ := o
    cases r with
    | error e => exact hstep
    | ok b =>
      have hsat := ih (hrest rfl) hstep
      rw [Out.bind_ok]
      generalize (Resume.session api cs).run W s' t' = o at hsat
      obtain ⟨r, s', t'⟩ := o
      cases r <;> exact hsat

/-- Assumptions that allow every answer of the world are met. -/
theorem SessionAlong.of_answers {cond : Call → σ → Tr Op Ans → Ev Op Ans → Prop}
    {ans : Tr Op Ans → (op : Op) → Ans op} {cs : List Call}
    (h : ∀ c ∈ cs, ∀ s t op t', cond c s t ⟨op, ans t' op⟩) (s : σ) (t : Tr Op Ans) :
    SessionAlong (World.sequential ans) api cond cs s t := by
  induction cs generalizing s t with
  | nil => exact .nil
  | cons c cs ih =>
    refine .cons ?_ fun _ => ih (fun c hc => h c (List.mem_cons_of_mem _ hc)) _ _
    exact Along.of_answers fun t => h c List.mem_cons_self s t

end

/-- Whatever runs while a call is pending keeps each of the assertions `I i`, at every depth of
re-entrance, if each of the calls made there keeps it in every world whose re-entrant calls keep
it. -/
theorem nested_lets {Call ι : Type} {api : Call → Prog Op Ans σ β} {reent : Op → Bool}
    {A : Tr Op Ans → Ev Op Ans → Prop} {E : σ → Tr Op Ans → Prop} {I : ι → σ → Tr Op Ans → Prop}
    {calls : Tr Op Ans → Op → List Call}
    (hapi : ∀ W : World Op Ans σ, (∀ op, reent op = false → W.Quiet op) →
      (∀ op i, W.Lets A E op (I i) (I i)) →
      ∀ i t op, ∀ c ∈ calls t op, Triple W A E (I i) (api c) fun _ => I i)
    (ans : Tr Op Ans → (op : Op) → Ans op) (d : Nat) (op : Op) (i : ι) :
    (World.nested api ans reent calls d).Lets A E op (I i) (I i) := by
  induction d generalizing op i with
  | zero => exact (World.sequential_quiet ans op).lets
  | succ d ih =>
    intro s t u hP htr hA
    by_cases h : reent op
    · simp only [World.nested, if_pos h] at htr ⊢
      have hsession := Logic.Spec.session
        (hapi _ (fun op h => World.nested_quiet api h) (fun op i => ih op i) i t op)
      have hvoid : Triple (World.nested api ans reent calls d) A E (I i)
          (do let _ ← session api (calls t op)) fun _ => I i :=
        .bind hsession fun _ => .pure fun _ _ hP => hP
      exact hvoid.sat hP htr hA
    · rw [World.nested_quiet api (Bool.not_eq_true _ ▸ h) s t]
      exact hP

/-- So does every session whose calls keep them. -/
theorem nested_triple {Call ι : Type} {api : Call → Prog Op Ans σ β} {reent : Op → Bool}
    {A : Tr Op Ans → Ev Op Ans → Prop} {E : σ → Tr Op Ans → Prop} {I : ι → σ → Tr Op Ans → Prop}
    (hapi : ∀ W : World Op Ans σ, (∀ op, reent op = false → W.Quiet op) →
      (∀ op i, W.Lets A E op (I i) (I i)) → ∀ i c, Triple W A E (I i) (api c) fun _ => I i)
    (ans : Tr Op Ans → (op : Op) → Ans op) (calls : Tr Op Ans → Op → List Call) (d : Nat) (i : ι)
    (cs : List Call) :
    Triple (World.nested api ans reent calls d) A E (I i) (session api cs) fun _ => I i :=
  .session fun c _ => hapi _ (fun _ h => World.nested_quiet api h)
    (nested_lets (fun W hW hlets i _ _ c _ => hapi W hW hlets i c) ans d) i c

end Iotc.Resume
