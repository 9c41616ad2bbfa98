import Iotc.Web.Response
import Iotc.Web.Rules

/-!
# The web client and its packets

`ledger` keeps the books of a request: whether its web client exists, which packets it holds,
whether it used a packet it did not hold or deleted a client it did not have. A failed append or
send leaves the packet with the request. `request_owned_iff` says in which runs the books are in
order.

A custom handler is `Tidy` when it hands the client back as it got it and keeps no packet;
`request_handler` of the download client is.
-/

namespace Iotc.Web

open Iotc.C Iotc.Resume

/-! ## The books -/

/-- The packets a receive loop obtains. -/
def received (last : BodyEnd) : List Packet → List Nat
  | p :: ps =>
    if p.payload = [] ∨ p.extractStatus ≠ nxSuccess then [p.ptr] else p.ptr :: received last ps
  | [] =>
    match last with
    | .failed .. => []
    | .done p => [p.ptr]

/-- What a receive that fails leaves in the packet pointer of a receive loop. -/
def leftBehind (last : BodyEnd) : List Packet → Option Nat
  | p :: ps => if p.payload = [] ∨ p.extractStatus ≠ nxSuccess then none else leftBehind last ps
  | [] =>
    match last with
    | .failed _ _ ptr => ptr
    | .done _ => none

structure Ledger where
  client : Bool := false
  held : List Nat := []
  /-- An allocation failed. -/
  unset : Bool := false
  misused : Bool := false

/-- A packet is used: it has to be held. -/
def Ledger.use (l : Ledger) (ptr : Nat) : Ledger :=
  { l with misused := l.misused || decide (ptr ∉ l.held) }

/-- A packet is given away. -/
def Ledger.give (l : Ledger) (ptr : Nat) : Ledger :=
  { l.use ptr with held := l.held.erase ptr }

def Ledger.add (l : Ledger) : Ev Op Ans → Ledger
  | ⟨.nxWebHttpClientCreate .., status⟩ =>
    if status = nxSuccess then { l with client := true, misused := l.misused || l.client } else l
  | ⟨.nxWebHttpClientDelete, _⟩ => { l with client := false, misused := l.misused || !l.client }
  | ⟨.nxWebHttpClientRequestPacketAllocate, some ptr⟩ => { l with held := ptr :: l.held }
  | ⟨.nxWebHttpClientRequestPacketAllocate, none⟩ => { l with unset := true }
  | ⟨.nxPacketDataAppend ptr _, _⟩ => l.use ptr
  | ⟨.nxWebHttpClientRequestPacketSend ptr, status⟩ =>
    if status = nxSuccess then l.give ptr else l.use ptr
  | ⟨.nxWebHttpClientResponseBodyGet _, d⟩ => { l with held := received d.last d.packets ++ l.held }
  | ⟨.nxPacketRelease ptr, _⟩ => l.give ptr
  | _ => l

def ledger (u : Tr Op Ans) : Ledger := u.foldl Ledger.add {}

/-- The books are in order at the end of a request, with or without a custom handler: nothing was
misused, and where the request returns, the client is deleted and no packet is held. A request
without handler that does not return has used the packet it never got. -/
structure Owned (custom : Bool) (res : Except Stop UINT) (l : Ledger) : Prop where
  not_misused : l.misused = false
  returned : custom = false → l.unset = true → res.isOk
  settled : res.isOk → l.client = false ∧ l.held = []

/-- An answer after which the request keeps its books in order. The code has a return of its own
behind a successful connect to a request without resource, does not look at the status of the
allocation, and leaves the packet of a failed append or send alone. -/
def Careful (resource : Option CStr) (custom : Bool) : Ev Op Ans → Prop
  | ⟨.nxWebHttpClientSecureConnect, status⟩ =>
    status = nxSuccess → custom = false → resource ≠ none
  | ⟨.nxWebHttpClientRequestPacketAllocate, ptr⟩ => custom = false → ptr ≠ none
  | ⟨.nxPacketDataAppend .., status⟩ => custom = false → status = nxSuccess
  | ⟨.nxWebHttpClientRequestPacketSend _, status⟩ => custom = false → status = nxSuccess
  | ⟨.nxWebHttpClientResponseBodyGet _, d⟩ => leftBehind d.last d.packets = none
  | _ => True

theorem ledger_snoc (u : Tr Op Ans) (ev : Ev Op Ans) : ledger (u ++ [ev]) = (ledger u).add ev := by
  simp [ledger]

theorem Ledger.use_misused {l : Ledger} (h : l.misused = true) (ptr : Nat) :
    (l.use ptr).misused = true := by
  simp [Ledger.use, h]

/-- What is misused stays misused. -/
theorem Ledger.add_misused {l : Ledger} (h : l.misused = true) (ev : Ev Op Ans) :
    (l.add ev).misused = true := by
  obtain ⟨op, a⟩ := ev
  cases op with
  | nxWebHttpClientCreate ipPtr poolPtr =>
    simp only [Ledger.add]
    split
    · simp [h]
    · exact h
  | nxWebHttpClientRequestPacketAllocate => cases a <;> exact h
  | nxWebHttpClientRequestPacketSend ptr =>
    simp only [Ledger.add]
    split <;> exact use_misused h ptr
  | nxPacketDataAppend ptr _ | nxPacketRelease ptr => exact use_misused h ptr
  | nxWebHttpClientDelete => simp [Ledger.add, h]
  | _ => exact h

/-- What the loop lets go of and what it still designates is what it obtained and what was left
behind. -/
theorem receive_packets {n : Nat} {room : SizeT → SizeT} {full : UInt32 → SizeT → Bool}
    {last : BodyEnd} (ps : List Packet) {buffer : Buf n} {dl : SizeT} {released : List Nat}
    {rcv : Received n} (h : receive room full last buffer dl released ps = .ok rcv) :
    rcv.released ++ rcv.receivePacket.toList =
      released ++ (received last ps ++ (leftBehind last ps).toList) := by
  induction ps generalizing buffer dl released with
  | nil =>
    cases last with
    | failed status err ptr =>
      cases h
      rfl
    | done p =>
      simp only [receive] at h
      split at h
      · cases h; rfl
      · split at h
        · cases h; rfl
        · split at h
          · cases h
          · cases h
            simp [received, leftBehind]
  | cons p ps ih =>
    simp only [receive] at h
    split at h
    · next hp => cases h; simp [received, leftBehind, hp]
    · next hp =>
      split at h
      · next he => cases h; simp [received, leftBehind, he]
      · next he =>
        split at h
        · cases h
        · rw [ih h, received, leftBehind, if_neg (not_or.mpr ⟨hp, he⟩),
            if_neg (not_or.mpr ⟨hp, he⟩), List.append_assoc]
          rfl

/-! ## Runs with their books -/

/-- The books are `good` after careful answers only, and `bad` after others. -/
def Judged (resource : Option CStr) (custom : Bool) (good bad : Ledger → Prop) (u : Tr Op Ans) :
    Prop :=
  ((∀ ev ∈ u, Careful resource custom ev) ∧ good (ledger u)) ∨
    ((¬∀ ev ∈ u, Careful resource custom ev) ∧ bad (ledger u))

/-- A ledger that is in order, with these packets still to be given away. -/
structure Ledger.Holds (l : Ledger) (client : Bool) (ptrs : List Nat) : Prop where
  client_eq : l.client = client
  held_eq : l.held = ptrs
  not_misused : l.misused = false

abbrev Level (resource : Option CStr) (custom client : Bool) (ptrs : List Nat) :
    Tr Op Ans → Prop :=
  Judged resource custom (·.Holds client ptrs) (·.misused = true)

/-- Where a run may stop. -/
abbrev Crashed (resource : Option CStr) (custom : Bool) : Tr Op Ans → Prop :=
  Judged resource custom (fun l => custom = true ∧ l.misused = false)
    fun l => custom = false → l.unset = true

abbrev bookLogic (B : Build) (resource : Option CStr) (custom : Bool) :
    Logic Op Ans (St B) (Tr Op Ans) :=
  Logic.ghost (fun u ev => u ++ [ev]) fun _ u => Crashed resource custom u

/-- A custom handler that leaves the client as it is and keeps no packet, and misuses none unless a
receive that fails has left a packet behind. -/
def Tidy {B : Build} (handler : IotConnectHttpRequest → NxWebHttpClient → M B UINT) : Prop :=
  ∀ r, (bookLogic B r.resource true).Spec (fun _ => Level r.resource true true []) (handler r {})
    fun _ _ => Level r.resource true true []

section
variable {B : Build} {resource : Option CStr} {custom client : Bool}
  {good bad good' bad' : Ledger → Prop} {ptrs : List Nat} {u : Tr Op Ans}

theorem Judged.snoc {ev : Ev Op Ans} (h : Judged resource custom good bad u)
    (hgood : ∀ l, Careful resource custom ev → good l → good' (l.add ev))
    (hlapse : ∀ l, ¬Careful resource custom ev → good l → bad' (l.add ev))
    (hbad : ∀ l, bad l → bad' (l.add ev)) : Judged resource custom good' bad' (u ++ [ev]) := by
  have hall : (∀ e ∈ u ++ [ev], Careful resource custom e) ↔
      (∀ e ∈ u, Careful resource custom e) ∧ Careful resource custom ev := by
    rw [List.forall_mem_append, List.forall_mem_singleton]
  unfold Judged
  rw [hall, ledger_snoc]
  rcases h with ⟨hu, h⟩ | ⟨hu, h⟩
  · by_cases hev : Careful resource custom ev
    · exact .inl ⟨⟨hu, hev⟩, hgood _ hev h⟩
    · exact .inr ⟨fun h => hev h.2, hlapse _ hev h⟩
  · exact .inr ⟨fun h => hu h.1, hbad _ h⟩

theorem Judged.imp (h : Judged resource custom good bad u) (hgood : ∀ l, good l → good' l)
    (hbad : ∀ l, bad l → bad' l) : Judged resource custom good' bad' u :=
  Or.imp (fun h => ⟨h.1, hgood _ h.2⟩) (fun h => ⟨h.1, hbad _ h.2⟩) h

/-- A careful answer that does not show in the books. -/
theorem spec_other {op : Op} (hadd : ∀ (a : Ans op) (l : Ledger), l.add ⟨op, a⟩ = l)
    (hcareful : ∀ a : Ans op, Careful resource custom ⟨op, a⟩) :
    (bookLogic B resource custom).Spec (fun _ => Judged resource custom good bad) (.call op)
      fun _ _ => Judged resource custom good bad :=
  .of_call fun _ _ h a => h.snoc (fun l _ hl => (hadd a l).symm ▸ hl)
    (fun _ hev _ => absurd (hcareful a) hev) fun l hl => (hadd a l).symm ▸ hl

/-! ## Receive loops -/

/-- The packets a receive loop is going to release: those it holds, and one more when a receive that
failed has left one behind. -/
inductive Due (resource : Option CStr) (custom client : Bool) : List Nat → Tr Op Ans → Prop where
  | level {ptrs : List Nat} {u : Tr Op Ans} (h : Level resource custom client ptrs u) :
    Due resource custom client ptrs u
  | stray {ptrs : List Nat} {p : Nat} {u : Tr Op Ans}
    (hu : ¬∀ ev ∈ u, Careful resource custom ev) (h : (ledger u).Holds client ptrs) :
    Due resource custom client (ptrs ++ [p]) u

theorem Ledger.Holds.give {l : Ledger} {p : Nat} (h : l.Holds client (p :: ptrs)) :
    (l.give p).Holds client ptrs := by
  obtain ⟨hclient, hheld, hmisused⟩ := h
  refine ⟨hclient, ?_, ?_⟩
  · simp [Ledger.give, hheld]
  · simp [Ledger.give, Ledger.use, hheld, hmisused]

theorem Ledger.Holds.give_misused {l : Ledger} (h : l.Holds client []) (p : Nat) :
    (l.give p).misused = true := by
  simp [Ledger.give, Ledger.use, h.held_eq]

/-- Releasing the packet left behind is the misuse. -/
theorem Due.release {p : Nat} {a : Unit} (h : Due resource custom client (p :: ptrs) u) :
    Due resource custom client ptrs (u ++ [⟨.nxPacketRelease p, a⟩]) := by
  have hlater : (¬∀ ev ∈ u, Careful resource custom ev) →
      ¬∀ ev ∈ u ++ [⟨.nxPacketRelease p, a⟩], Careful resource custom ev :=
    fun hu hall => hu fun ev hev => hall ev (List.mem_append_left _ hev)
  generalize hq : p :: ptrs = qs at h
  cases h with
  | level h =>
    subst hq
    exact .level (h.snoc (fun l _ hl => hl.give) (fun _ hev _ => absurd trivial hev)
      fun l hl => l.add_misused hl _)
  | @stray held q _ hu h =>
    cases held with
    | nil =>
      obtain ⟨rfl, rfl⟩ : p = q ∧ ptrs = [] := by simpa using hq
      refine .level (.inr ⟨hlater hu, ?_⟩)
      rw [ledger_snoc]
      exact h.give_misused p
    | cons q' held =>
      obtain ⟨rfl, rfl⟩ : p = q' ∧ ptrs = held ++ [q] := by simpa using hq
      refine .stray (hlater hu) ?_
      rw [ledger_snoc]
      exact h.give

theorem Due.settled (h : Due resource custom client [] u) : Level resource custom client [] u := by
  generalize hq : ([] : List Nat) = qs at h
  cases h with
  | level h => exact h
  | stray hu h => simp at hq

/-- A custom handler may stop anywhere. -/
theorem Due.crashed (h : Due resource true client ptrs u) : Crashed resource true u := by
  cases h with
  | level h => exact Judged.imp h (fun l hl => ⟨rfl, hl.not_misused⟩) fun _ _ h => nomatch h
  | stray hu h => exact .inr ⟨hu, fun h => nomatch h⟩

theorem spec_releaseAll (rest : List Nat) :
    (bookLogic B resource custom).Spec (fun _ => Due resource custom client (ptrs ++ rest))
      (releaseAll ptrs) fun _ _ => Due resource custom client rest := by
  induction ptrs with
  | nil => exact .pure fun _ _ h => h
  | cons p ps ih => exact .bind (.of_call fun _ _ h _ => h.release) fun _ => ih

theorem spec_releaseHeld (ptr : Option Nat) :
    (bookLogic B resource custom).Spec (fun _ => Due resource custom client ptr.toList)
      (releaseHeld ptr) fun _ _ => Level resource custom client [] := by
  cases ptr with
  | none => exact .pure fun _ _ h => h.settled
  | some p => exact .of_call fun _ _ h _ => h.release.settled

theorem spec_bodyGet (m : Method) :
    (bookLogic B resource custom).Spec (fun _ => Level resource custom client [])
      (nxWebHttpClientResponseBodyGet m) fun d _ => Due resource custom client
        (received d.last d.packets ++ (leftBehind d.last d.packets).toList) := by
  refine .of_call fun s u h d => ?_
  have hholds : ∀ l : Ledger, l.Holds client [] →
      (l.add ⟨.nxWebHttpClientResponseBodyGet m, d⟩).Holds client (received d.last d.packets) := by
    intro l hl
    refine ⟨hl.client_eq, ?_, hl.not_misused⟩
    show received d.last d.packets ++ l.held = received d.last d.packets
    rw [hl.held_eq, List.append_nil]
  cases hleft : leftBehind d.last d.packets with
  | none =>
    rw [Option.toList_none, List.append_nil]
    exact .level (h.snoc (fun l _ hl => hholds l hl) (fun _ hev _ => absurd hleft hev)
      fun l hl => l.add_misused hl _)
  | some p =>
    have hev : ¬Careful resource custom ⟨.nxWebHttpClientResponseBodyGet m, d⟩ := fun hev => by
      rw [Careful, hleft] at hev
      cases hev
    have hu : ¬∀ ev ∈ u ++ [⟨.nxWebHttpClientResponseBodyGet m, d⟩], Careful resource custom ev :=
      fun hall => hev (hall _ (List.mem_append_right _ List.mem_cons_self))
    rcases h with ⟨-, h⟩ | ⟨-, h⟩
    · refine .stray hu ?_
      rw [ledger_snoc]
      exact hholds _ h
    · refine .level (.inr ⟨hu, ?_⟩)
      rw [ledger_snoc]
      exact Ledger.add_misused h _

/-! ## The download client as a custom handler -/

theorem spec_getResponse (m : Method) (nx : NxWebHttpClient) :
    (bookLogic B resource true).Spec (fun _ => Level resource true true []) (getResponse m nx)
      fun _ _ => Level resource true true [] := by
  refine .bind (spec_bodyGet m) fun d => .bind_get_any fun s => ?_
  obtain ⟨rcv, hrcv, -⟩ := receive_start_spec (chunkCapped B) d.last d.packets s.dl.buffer
  have hpackets := receive_packets d.packets hrcv
  rw [List.nil_append] at hpackets
  rw [hrcv, ← hpackets]
  cases runHeaderCallback nx d s.dl.fileSize with
  | ok fileSize =>
    exact .bind (.modify fun _ _ h => h) fun _ => .bind (spec_releaseAll _) fun _ =>
      .bind (spec_releaseHeld _) fun _ => .pure fun _ _ h => h
  | error e =>
    exact .stop fun _ u h => h.crashed

/-- What keeps the books level. -/
abbrev Keeps (resource : Option CStr) {α : Type} (p : M B α) : Prop :=
  (bookLogic B resource true).Spec (fun _ => Level resource true true []) p
    fun _ _ => Level resource true true []

/-- Requests and events do not show in the books. -/
theorem keeps_call {op : Op} (h : op.request = true ∨ op.silent = false) :
    Keeps resource (.call op : M B (Ans op)) := by
  have hplain : (∀ (a : Ans op) (l : Ledger), l.add ⟨op, a⟩ = l) ∧
      ∀ a : Ans op, Careful resource true ⟨op, a⟩ := by
    cases op <;> first | exact ⟨fun _ _ => rfl, fun _ => trivial⟩ | exact h.elim nofun nofun
  exact spec_other hplain.1 hplain.2

theorem level_steady :
    Steady (bookLogic B resource true) fun _ => Level resource true true [] where
  request _ hop := keeps_call (.inl hop)
  range _ _ := spec_addRangeHeader (spec_other (fun _ _ => rfl) fun _ => trivial)
    (fun _ _ _ h => h) (fun _ _ _ h => (Due.level h).crashed) (keeps_call (.inl rfl))
  response := spec_getResponse
  event evt _ := spec_fireEvent (fun _ hop => keeps_call (.inr hop)) (fun _ _ _ h => h)
    (fun _ _ h => (Due.level h).crashed) evt
  progress _ _ _ _ h := h
  stop _ _ h := (Due.level h).crashed

theorem tidy_requestHandler (fuel : Nat) : Tidy (requestHandler (B := B) fuel) := fun r =>
  level_steady.requestHandler fuel r {}

/-! ## Without a custom handler -/

/-- An append or a send has failed. -/
abbrev Kept (resource : Option CStr) : Tr Op Ans → Prop :=
  Judged resource false (fun _ => False) fun l => l.misused = true ∨ l.held ≠ []

/-- What remains when a request returns. -/
abbrev Settled (resource : Option CStr) (custom : Bool) : Tr Op Ans → Prop :=
  Judged resource custom (·.Holds false []) (¬·.Holds false [])

theorem not_holds_of_misused {l : Ledger} (h : l.misused = true) : ¬l.Holds client ptrs :=
  fun hl => Bool.false_ne_true (hl.not_misused.symm.trans h)

/-- Delete the client and return. -/
theorem spec_closed (status : UINT) :
    (bookLogic B resource custom).Spec (fun _ => Level resource custom true [])
      (do let _ ← nxWebHttpClientDelete; return status) fun _ _ => Settled resource custom := by
  refine .bind (Q := fun _ _ => Level resource custom false [])
    (.of_call fun _ _ h a => ?_)
    fun _ => .pure fun _ _ h => Judged.imp h (fun _ h => h) fun _ => not_holds_of_misused
  refine h.snoc (fun l _ hl => ⟨rfl, hl.held_eq, ?_⟩) (fun _ hev _ => absurd trivial hev)
    fun l hl => l.add_misused hl _
  simp [Ledger.add, hl.client_eq, hl.not_misused]

theorem spec_closed_kept (status : UINT) :
    (bookLogic B resource false).Spec (fun _ => Kept resource)
      (do let _ ← nxWebHttpClientDelete; return status) fun _ _ => Settled resource false := by
  refine .bind (Q := fun _ _ => Kept resource) (.of_call fun _ _ h a => ?_) fun _ =>
    .pure fun _ _ h => Judged.imp h (fun _ => False.elim) fun l hl hh => ?_
  · exact h.snoc (fun l _ => False.elim) (fun l _ => False.elim) fun l hl =>
      hl.imp_left fun hl => l.add_misused hl _
  · exact hl.elim (fun hl => not_holds_of_misused hl hh) fun hl => hl hh.held_eq

theorem spec_sendRequest (r : IotConnectHttpRequest) :
    (bookLogic B resource false).Spec (fun _ => Level resource false true []) (sendRequest r)
      fun _ _ => Level resource false true [] := by
  have hother : ∀ {op : Op}, (∀ (a : Ans op) (l : Ledger), l.add ⟨op, a⟩ = l) →
      (∀ a : Ans op, Careful resource false ⟨op, a⟩) →
      (bookLogic B resource false).Spec (fun _ => Level resource false true []) (.call op)
        fun _ _ => Level resource false true [] := fun hadd hcareful => spec_other hadd hcareful
  have hquit : ∀ (status : UINT) (s : St B) u, status ≠ nxSuccess →
      Level resource false true [] u → Level resource false true [] u := fun _ _ _ _ h => h
  unfold sendRequest
  cases r.payload with
  | none =>
    refine spec_guard (hother (fun _ _ => rfl) fun _ => trivial) hquit ?_
    exact hother (fun _ _ => rfl) fun _ => trivial
  | some payload =>
    refine spec_guard (hother (fun _ _ => rfl) fun _ => trivial) hquit ?_
    refine spec_guard (hother (fun _ _ => rfl) fun _ => trivial) hquit ?_
    exact hother (fun _ _ => rfl) fun _ => trivial

/-- The packet of the body: a failed append or send leaves it with the request. -/
theorem spec_sendPacket (ptr : Nat) (payload : CStr) :
    (bookLogic B resource false).Spec (fun _ => Level resource false true [ptr])
      (sendPacket ptr payload) fun status _ u =>
        if status = nxSuccess then Level resource false true [] u else Kept resource u := by
  have huse : ∀ {l : Ledger}, l.Holds true [ptr] → (l.use ptr).Holds true [ptr] := by
    refine fun hl => ⟨hl.client_eq, hl.held_eq, ?_⟩
    simp [Ledger.use, hl.held_eq, hl.not_misused]
  have hheld : ∀ {l : Ledger}, l.Holds true [ptr] → l.misused = true ∨ l.held ≠ [] := fun hl =>
    .inr (hl.held_eq ▸ List.cons_ne_nil ptr [])
  refine .bind (Q := fun status _ u => if status = nxSuccess then Level resource false true [ptr] u
    else Kept resource u) (.of_call fun _ u h status => ?_) fun status => ?_
  · by_cases hok : status = nxSuccess
    · rw [if_pos hok]
      exact h.snoc (fun l _ hl => huse hl) (fun _ hev _ => absurd (fun _ => hok) hev)
        fun l hl => l.add_misused hl _
    · rw [if_neg hok]
      exact h.snoc (fun l hev _ => hok (hev rfl)) (fun l _ hl => hheld (huse hl))
        fun l hl => .inl (l.add_misused hl _)
  · refine .ite (fun hne => .pure fun _ _ h => ?_) fun hok => .of_call fun _ u h sent => ?_
    · rwa [if_neg hne] at h ⊢
    rw [if_pos (Classical.not_not.mp hok)] at h
    by_cases hsent : sent = nxSuccess
    · rw [if_pos hsent]
      refine h.snoc (fun l _ hl => ?_) (fun _ hev _ => absurd (fun _ => hsent) hev)
        fun l hl => l.add_misused hl _
      simp only [Ledger.add, if_pos hsent]
      exact hl.give
    · rw [if_neg hsent]
      refine h.snoc (fun l hev _ => hsent (hev rfl)) (fun l _ hl => ?_)
        fun l hl => .inl (l.add_misused hl _)
      simp only [Ledger.add, if_neg hsent]
      exact hheld (huse hl)

theorem spec_sendPayload (payload : Option CStr) :
    (bookLogic B resource false).Spec (fun _ => Level resource false true []) (sendPayload payload)
      fun status _ u =>
        if status = nxSuccess then Level resource false true [] u else Kept resource u := by
  cases payload with
  | none => exact .pure fun _ _ h => by rwa [if_pos rfl]
  | some payload =>
    refine .bind (Q := fun (ptr : Option Nat) _ u =>
      (∀ p, ptr = some p → Level resource false true [p] u) ∧ (ptr = none →
        Judged resource false (fun _ => False) (fun l => l.unset = true) u))
      (.of_call fun _ u h (ptr : Option Nat) => ?_) fun ptr => ?_
    · cases ptr with
      | some ptr =>
        refine ⟨?_, fun h => nomatch h⟩
        rintro _ ⟨⟩
        refine h.snoc (fun l _ hl => ⟨hl.client_eq, ?_, hl.not_misused⟩)
          (fun _ hev _ => absurd (fun _ => Option.some_ne_none ptr) hev) fun l hl =>
            l.add_misused hl _
        exact congrArg (ptr :: ·) hl.held_eq
      | none =>
        refine ⟨(fun _ h => nomatch h), fun _ => ?_⟩
        exact h.snoc (fun l hev _ => hev rfl rfl) (fun _ _ _ => rfl) fun _ _ => rfl
    · cases ptr with
      | some ptr => exact (spec_sendPacket ptr payload).pre fun _ _ h => h.1 ptr rfl
      | none =>
        refine .stop fun _ u h => ?_
        show Crashed resource false u
        exact Judged.imp (h.2 rfl) (fun _ => False.elim) fun _ h _ => h

theorem spec_receiveResponse (m : Method) :
    (bookLogic B resource false).Spec (fun _ => Level resource false true []) (receiveResponse m)
      fun _ _ => Level resource false true [] := by
  refine .bind (spec_bodyGet m) fun d => .bind_get_any fun s => ?_
  obtain ⟨rcv, hrcv, -, hlen, -⟩ :=
    receive_start_spec (responseCapped B) d.last d.packets s.responseBuffer
  have hpackets := receive_packets d.packets hrcv
  rw [List.nil_append] at hpackets
  rw [hrcv, ← hpackets]
  have hpos := UInt32.lt_iff_toNat_lt.mp B.http_pos
  refine .bind (spec_releaseAll _) fun _ => .bind (Q := fun _ _ =>
    Due resource false true rcv.receivePacket.toList) (.modify fun _ _ h => h) fun _ => ?_
  refine .bind (spec_writeResponse (fun _ _ _ h => h) ?_) fun _ => spec_releaseHeld _
  simp only [UInt32.reduceToNat, List.length_singleton] at *
  omega

/-- Where the request stands after the connect: with the client, and something to ask for. -/
abbrev Connected (resource : Option CStr) (custom : Bool) (status : UINT) : Tr Op Ans → Prop :=
  Judged resource custom
    (fun l => l.Holds true [] ∧ (status = nxSuccess → custom = false → resource ≠ none))
    fun l => l.misused = true ∨
      (status = nxSuccess ∧ custom = false ∧ resource = none ∧ l.client = true)

theorem spec_plainExchange (r : IotConnectHttpRequest) :
    (bookLogic B r.resource false).Spec (fun _ => Connected r.resource false nxSuccess)
      (plainExchange r) fun _ _ => Settled r.resource false := by
  refine .ite (fun hnone => .pure fun _ _ h => ?_) fun hsome => ?_
  · refine Judged.imp h (fun l hl => absurd (Option.isNone_iff_eq_none.mp hnone) (hl.2 rfl rfl))
      fun l hl hh => hl.elim (fun hl => not_holds_of_misused hl hh) fun hl => ?_
    exact Bool.false_ne_true (hh.client_eq.symm.trans hl.2.2.2)
  refine .pre (P := fun _ => Level r.resource false true []) ?_ fun _ _ h => ?_
  · refine .bind (spec_sendRequest r) fun status => .ite (fun _ => spec_closed status) fun _ => ?_
    refine .bind (spec_sendPayload r.payload) fun status => .ite (fun hne => ?_) fun hok => ?_
    · exact (spec_closed_kept status).pre fun _ _ h => by rwa [if_neg hne] at h
    · refine .bind ((spec_receiveResponse _).pre fun _ _ h => ?_) fun _ => spec_closed nxSuccess
      rwa [if_pos (Classical.not_not.mp hok)] at h
  · refine Judged.imp h (fun l hl => hl.1) fun l hl => hl.resolve_right fun hl => hsome ?_
    exact Option.isNone_iff_eq_none.mpr hl.2.2.1

theorem spec_connectExchange (r : IotConnectHttpRequest) (config : IotConnectAzrtosConfig)
    (host : CStr) {cb : Option (IotConnectHttpRequest → NxWebHttpClient → M B UINT)}
    (hcb : ∀ handler ∈ cb, Tidy handler) :
    (bookLogic B r.resource cb.isSome).Spec (fun _ => Level r.resource cb.isSome false [])
      (connectExchange r config host cb) fun _ _ => Settled r.resource cb.isSome := by
  refine .bind (Q := fun status _ => Level r.resource cb.isSome (decide (status = nxSuccess)) [])
    (.of_call fun _ _ h status => ?_) fun status => ?_
  · refine h.snoc (fun l _ hl => ?_) (fun _ hev _ => absurd trivial hev) fun l hl =>
      l.add_misused hl _
    obtain ⟨hclient, hheld, hmisused⟩ := hl
    by_cases hok : status = nxSuccess
    · refine ⟨?_, ?_, ?_⟩ <;> simp [Ledger.add, hok, hclient, hheld, hmisused]
    · refine ⟨?_, ?_, ?_⟩ <;> simp [Ledger.add, hok, hclient, hheld, hmisused]
  refine .ite (fun hne => .pure fun _ _ h => ?_) fun hok => ?_
  · rw [decide_eq_false hne] at h
    exact Judged.imp h (fun _ h => h) fun _ => not_holds_of_misused
  rw [decide_eq_true (Classical.not_not.mp hok)]
  refine .bind (spec_other (fun _ _ => rfl) fun _ => trivial) fun status =>
    .ite (fun _ => spec_closed status) fun _ => ?_
  refine .bind (Q := fun status _ => Connected r.resource cb.isSome status)
    (.of_call fun _ _ h status => ?_) fun status => .ite (fun hne => ?_) fun hok => ?_
  · refine h.snoc (fun l hev hl => ⟨hl, hev⟩) (fun l hev hl => .inr ?_) fun l hl => .inl hl
    obtain ⟨hok, hev⟩ := Classical.not_imp.mp hev
    obtain ⟨hcustom, hnone⟩ := Classical.not_imp.mp hev
    exact ⟨hok, hcustom, Classical.not_not.mp hnone, hl.client_eq⟩
  · refine (spec_closed status).pre fun _ _ h => Judged.imp h (fun _ h => h.1) fun l hl => ?_
    exact hl.resolve_right fun hl => hne hl.1
  · rw [Classical.not_not.mp hok]
    cases cb with
    | none => exact spec_plainExchange r
    | some handler =>
      refine .bind ((hcb handler rfl r).pre fun _ _ h => ?_) fun status => spec_closed status
      exact Judged.imp h (fun l hl => hl.1) fun l hl => hl.resolve_right fun hl => nomatch hl.2.1

theorem spec_httpsRequest (r : Option IotConnectHttpRequest)
    {cb : Option (IotConnectHttpRequest → NxWebHttpClient → M B UINT)}
    (hcb : ∀ handler ∈ cb, Tidy handler) :
    (bookLogic B (r.bind (·.resource)) cb.isSome).Spec
      (fun _ => Level (r.bind (·.resource)) cb.isSome false []) (iotconnectHttpsRequest r cb)
      fun _ _ => Settled (r.bind (·.resource)) cb.isSome := by
  have hinvalid : ∀ resource, (bookLogic B resource cb.isSome).Spec
      (fun _ => Level resource cb.isSome false []) (pure nxInvalidParameters : M B UINT)
      fun _ _ => Settled resource cb.isSome := fun resource =>
    .pure fun _ _ h => Judged.imp h (fun _ h => h) fun _ => not_holds_of_misused
  obtain _ | ⟨_ | config, _ | host, resource, payload, tlsCert, tlsCertLen⟩ := r
  · exact hinvalid _
  · exact hinvalid _
  · exact hinvalid _
  · exact hinvalid _
  refine .ite (fun _ => hinvalid _) fun _ => ?_
  refine .bind (spec_writeResponse (fun _ _ _ h => h) (Nat.succ_le_of_lt B.http_pos)) fun _ => ?_
  exact spec_connectExchange ⟨some config, some host, resource, payload, tlsCert, tlsCertLen⟩ config
    host hcb

/-- The books of a request are in order after careful answers, whatever handler takes it over. Where
the request returns, or has no handler, they are in order after no others. -/
theorem request_owned_iff (ans : Tr Op Ans → (op : Op) → Ans op) (r : Option IotConnectHttpRequest)
    (cb : Option (IotConnectHttpRequest → NxWebHttpClient → M B UINT))
    (hcb : ∀ handler ∈ cb, Tidy handler) (s : St B) (t : Tr Op Ans) :
    let o := (iotconnectHttpsRequest r cb).run (.sequential ans) s t
    let u := o.tr.drop t.length
    ((∀ ev ∈ u, Careful (r.bind (·.resource)) cb.isSome ev) → Owned cb.isSome o.res (ledger u)) ∧
      (cb = none ∨ o.res.isOk → Owned cb.isSome o.res (ledger u) →
        ∀ ev ∈ u, Careful (r.bind (·.resource)) cb.isSome ev) := by
  intro o u
  obtain ⟨v, hv⟩ := Prog.run_grows (.sequential ans) s t (iotconnectHttpsRequest r cb)
  have hstart : Level (r.bind (·.resource)) cb.isSome false [] [] :=
    .inl ⟨(fun _ h => nomatch h), rfl, rfl, rfl⟩
  have hsat : o.Sat (fun _ _ _ => Settled (r.bind (·.resource)) cb.isSome v)
      fun _ _ => Crashed (r.bind (·.resource)) cb.isSome v := by
    have h := (spec_httpsRequest r hcb s [] hstart).ghost ans hv
    rwa [foldl_snoc, List.nil_append] at h
  obtain rfl : u = v := by simp only [u, o, hv, List.drop_left]
  clear_value o
  obtain ⟨res, s', t'⟩ := o
  cases res with
  | ok status =>
    rcases hsat with ⟨hall, hl⟩ | ⟨hall, hl⟩
    · refine ⟨fun _ => ⟨hl.not_misused, fun _ _ => rfl, fun _ => ⟨hl.client_eq, hl.held_eq⟩⟩, ?_⟩
      exact fun _ _ => hall
    · refine ⟨fun h => absurd h hall, fun _ howned => absurd ?_ hl⟩
      exact ⟨(howned.settled rfl).1, (howned.settled rfl).2, howned.not_misused⟩
  | error e =>
    rcases hsat with ⟨hall, hl⟩ | ⟨hall, hl⟩
    · refine ⟨fun _ => ⟨hl.2, fun hcustom => ?_, fun h => nomatch h⟩, fun _ _ => hall⟩
      exact absurd (hl.1.symm.trans hcustom) (by decide)
    · refine ⟨fun h => absurd h hall, fun hreturn howned => ?_⟩
      obtain rfl : cb = none := hreturn.resolve_right fun h => nomatch h
      exact nomatch howned.returned rfl (hl rfl)

end

theorem request_owned_download :
    let o := (iotconnectHttpsRequest (some fileRequest) (some (requestHandler 1))).run
      (.sequential fun _ => allGood (headOf "1") (chunkOf [7]))
      ((St.init .default).setDl ({ · with eventCb := some (.app 7) })) []
    o.res = .ok nxSuccess ∧ Owned true o.res (ledger o.tr) := by
  intro o
  refine ⟨by decide +kernel, (request_owned_iff _ (some fileRequest) (some (requestHandler 1))
    (fun handler h => Option.some.inj h ▸ tidy_requestHandler 1) _ []).1 fun ev hev => ?_⟩
  obtain ⟨v, w, hvw⟩ : ∃ v w, o.tr = v ++ ev :: w := List.append_of_mem hev
  have halong := Res.run_answers (iotconnectHttpsRequest _ _ _) (List.nil_append o.tr).symm
  rw [hvw] at halong
  obtain ⟨op, a⟩ := ev
  obtain rfl : a = allGood (headOf "1") (chunkOf [7]) op := halong.split
  cases op with
  | nxWebHttpClientSecureConnect => exact fun _ h => nomatch h
  | nxWebHttpClientResponseBodyGet m => cases m <;> rfl
  | _ => first | exact trivial | exact fun h => nomatch h

/-- The result of a request without handler, and its books. -/
def books (ans : (op : Op) → Ans op) (r : IotConnectHttpRequest) : Except Stop UINT × Ledger :=
  let o := (iotconnectHttpsRequest (some r) none).run (.sequential fun _ => ans)
    (St.init .default) []
  (o.res, ledger o.tr)

def postRequest : IotConnectHttpRequest := { fileRequest with payload := some (cstr "x") }

/-- The network of `allGood` with other answers about the packet of the body. -/
def packetAns (ptr : Option Nat) (append send : UINT) : (op : Op) → Ans op
  | .nxWebHttpClientRequestPacketAllocate => ptr
  | .nxPacketDataAppend .. => append
  | .nxWebHttpClientRequestPacketSend _ => send
  | op => allGood (headOf "1") (chunkOf [7]) op

/-- No resource leaves the client, a failed append or send the packet; a failed allocation is not
noticed. -/
theorem request_owned_fails :
    let noResource := books (packetAns (some 0) 0 0) { fileRequest with resource := none }
    let noPacket := books (packetAns none 0 0) postRequest
    let noAppend := books (packetAns (some 0) 1 0) postRequest
    let noSend := books (packetAns (some 0) 0 1) postRequest
    (noResource.1 = .ok nxInvalidParameters ∧ noResource.2.client = true) ∧
      (noPacket.1 = .error .fault ∧ noPacket.2.unset = true) ∧
      (noAppend.1 = .ok 1 ∧ noAppend.2.held = [0]) ∧ (noSend.1 = .ok 1 ∧ noSend.2.held = [0]) ∧
      ∀ x ∈ [noResource, noPacket, noAppend, noSend], ¬Owned false x.1 x.2 := by
  intro noResource noPacket noAppend noSend
  have h1 : noResource.1 = .ok nxInvalidParameters ∧ noResource.2.client = true := by
    decide +kernel
  have h2 : noPacket.1 = .error .fault ∧ noPacket.2.unset = true := by decide +kernel
  have h3 : noAppend.1 = .ok 1 ∧ noAppend.2.held = [0] := by decide +kernel
  have h4 : noSend.1 = .ok 1 ∧ noSend.2.held = [0] := by decide +kernel
  refine ⟨h1, h2, h3, h4, ?_⟩
  clear_value noResource noPacket noAppend noSend
  simp only [List.forall_mem_cons, List.not_mem_nil, false_implies, implies_true, and_true]
  refine ⟨fun h => ?_, fun h => ?_, fun h => ?_, fun h => ?_⟩
  · exact Bool.false_ne_true ((h.settled (h1.1 ▸ rfl)).1.symm.trans h1.2)
  · have hreturned := h.returned rfl h2.2
    rw [h2.1] at hreturned
    cases hreturned
  · exact List.cons_ne_nil 0 [] (h3.2.symm.trans (h.settled (h3.1 ▸ rfl)).2)
  · exact List.cons_ne_nil 0 [] (h4.2.symm.trans (h.settled (h4.1 ▸ rfl)).2)

end Iotc.Web
