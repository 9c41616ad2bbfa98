import Iotc.Http.ChunkedText
import Iotc.Http.Collect
import Iotc.Http.HeaderText
import Iotc.Web.Chunk

/-!
# The body of a response

`bodyPackets` is the loop every caller has around `responseBodyGet`: the packets it is handed with
`NX_SUCCESS`, and how it ends. On a chunked response these packets hold what the coding makes of
the bytes ahead, however they arrive (`meets_bodyPackets_chunked`).
-/

namespace Iotc.Http

open Iotc.C Iotc.Web Iotc.Lib

/-- A packet of that length, as its receiver copies it out. -/
def packetOf (c : Chain) (length : Nat) : Packet := ⟨c.head.ptr, c.bytes.take length, nxSuccess⟩

def bodyPackets (P : Pool) : Nat → M (List Packet × BodyEnd)
  | 0 => throw .fuel
  | fuel + 1 => do
    let status ← responseBodyGet P
    let s ← get
    if h : status = nxSuccess ∨ status = nxWebHttpGetDone then
      let some out := s.returned | fault
      if status = nxWebHttpGetDone then
        return ([], .done (packetOf out s.packetLength))
      let (packets, last) ← bodyPackets P fuel
      return (packetOf out s.packetLength :: packets, last)
    else
      return ([], .failed status (not_or.mp h) (s.returned.map (·.head.ptr)))

/-- What all the packets hold. -/
def bodyBytes (r : List Packet × BodyEnd) : List UInt8 := (Delivery.mk [] 0 r.1 r.2).body

def lastStatus : BodyEnd → UINT
  | .failed status _ _ => status
  | .done _ => nxWebHttpGetDone

/-! ## One call on a chunked response -/

/-- Between the calls for a chunked body. -/
structure Midway (P : Pool) (s : St) : Prop where
  busy : s.state ≠ .ready
  received : s.responseHeaderReceived = true
  chunked : s.responseChunked = true
  resting : Resting P s

variable {P : Pool} {s s' : St}

/-- What the end of a response leaves as it was. -/
def Closes (s s' : St) : Prop :=
  s' = { s with
    state := s'.state
    responseHeaderReceived := s'.responseHeaderReceived
    responseChunked := s'.responseChunked
    chunkedResponseRemainingSize := s'.chunkedResponseRemainingSize
    responsePacket := s'.responsePacket
    released := s'.released
    broken := s'.broken }

theorem Closes.trans {s s' s'' : St} (h : Closes s s') (h' : Closes s' s'') : Closes s s'' := by
  unfold Closes at *
  rw [h', h]

theorem meets_dropPacket (status : UINT) (s : St) :
    Meets (dropPacket status) s (fun _ s' => Closes s s' ∧ s'.responseChunked = s.responseChunked ∧
      s'.responsePacket = s.responsePacket) (fun _ _ => False) := by
  refine .bind_get (.ite (fun _ => ?_) fun _ => .pure ⟨rfl, rfl, rfl⟩)
  cases s.packetPptr with
  | none => exact .pure ⟨rfl, rfl, rfl⟩
  | some c => exact .modify ⟨rfl, rfl, rfl⟩

/-- A response fails with the packet that it is to release no longer there. -/
def Unheld (status : UINT) (s : St) : Prop :=
  status ≠ nxWebHttpGetDone ∧ s.responseChunked = true ∧ s.responsePacket = none

/-- Where the calls of NetX are not checked, the release of a packet that is not there goes wrong. -/
theorem meets_resetChunks (P : Pool) (status : UINT) (s : St) :
    Meets (resetChunks P status) s
      (fun _ s' => Closes s s' ∧ (Unheld status s → P.errorChecking = true))
      (fun e _ => e = .fault ∧ P.errorChecking = false ∧ Unheld status s) := by
  refine .bind_get (.ite (fun hchunked => ?_) fun hplain =>
    .pure ⟨rfl, fun h => absurd h.2.1 hplain⟩)
  have hrelease : status ≠ nxWebHttpGetDone → Meets (releasePtr P s.responsePacket) s
      (fun _ s' => Closes s s' ∧ (Unheld status s → P.errorChecking = true))
      (fun e _ => e = .fault ∧ P.errorChecking = false ∧ Unheld status s) := by
    intro hstatus
    unfold Unheld
    cases hresp : s.responsePacket with
    | some c => exact .modify ⟨rfl, fun h => by cases h.2.2⟩
    | none =>
      refine .ite (fun hcheck => .pure ⟨rfl, fun _ => hcheck⟩) fun hcheck =>
        .throw ⟨rfl, ?_, hstatus, hchunked, rfl⟩
      exact Bool.eq_false_iff.mpr hcheck
  by_cases hstatus : status = nxWebHttpGetDone
  · rw [if_neg (not_not.mpr hstatus)]
    exact .bind (.pure (.modify ⟨rfl, fun h => absurd hstatus h.1⟩))
  · rw [if_pos hstatus]
    exact .seq (hrelease hstatus) fun _ s' hs' => .modify ⟨hs'.1.trans rfl, hs'.2⟩

theorem meets_leaveBody (status : UINT) (s : St) :
    Meets (leaveBody status) s (fun _ s' => Closes s s' ∧ s'.state = .ready ∧
      s'.responseHeaderReceived = false) (fun _ _ => False) := by
  refine .bind_modify (.bind_get ?_)
  split
  · exact .bind_modify (.modify ⟨rfl, rfl, rfl⟩)
  · exact .modify ⟨rfl, rfl, rfl⟩

theorem meets_endResponse (P : Pool) (status : UINT) (s : St) :
    Meets (endResponse P status) s
      (fun _ s' => Closes s s' ∧ s'.state = .ready ∧ s'.responseHeaderReceived = false ∧
        (Unheld status s → P.errorChecking = true))
      (fun e _ => e = .fault ∧ P.errorChecking = false ∧ Unheld status s) := by
  refine .seq ((meets_dropPacket status s).mono (fun _ _ => id) fun _ _ => False.elim) ?_
  rintro _ s1 ⟨hclose1, hchunked, hpacket⟩
  have hreset := meets_resetChunks P status s1
  unfold Unheld at hreset ⊢
  rw [hchunked, hpacket] at hreset
  refine .seq hreset fun _ s2 ⟨hclose2, hunheld⟩ => ?_
  refine (meets_leaveBody status s2).mono ?_ fun _ _ => False.elim
  rintro _ s3 ⟨hclose3, hready, hheader⟩
  exact ⟨(hclose1.trans hclose2).trans hclose3, hready, hheader, hunheld⟩

/-- What a call that succeeds makes of a chunked body. -/
structure NextPart (P : Pool) (s s' : St) : Prop where
  midway : Midway P s'
  ends : endStatus s'.incoming = endStatus s.incoming
  reported : s'.reported = s.reported
  packet : ∃ xs out, s'.returned = some out ∧ s'.packetLength = out.length ∧ out.bytes ≠ [] ∧
    s.unread = xs ++ s'.unread ∧ Machine.Passes chunked s.phase xs out.bytes s'.phase

/-- A call that succeeds takes some of the bytes ahead. -/
theorem NextPart.length_lt (h : NextPart P s s') : s'.unread.length < s.unread.length := by
  obtain ⟨xs, out, -, -, hne, hunread, hpass⟩ := h.packet
  have hxs : xs ≠ [] := by
    rintro rfl
    exact hne (congrArg Prod.fst hpass).symm
  have hpos := List.length_pos_iff.mpr hxs
  rw [hunread, List.length_append]
  omega

/-- The end of a chunked body has been read. -/
def BodyDone (s s' : St) : Prop :=
  s'.returned.isSome ∧ s'.packetLength = 0 ∧ s'.reported = s.reported ∧
    ∃ rest, chunked.run s.phase s.unread = ([], .stopped .done rest)

theorem endStatus_err (inc : List (Except Failure Received)) :
    endStatus inc ≠ nxSuccess ∧ endStatus inc ≠ nxWebHttpGetDone := by
  induction inc with
  | nil => exact ⟨by decide, by decide⟩
  | cons x rest ih =>
    cases x with
    | error e => exact e.err
    | ok r => exact ih

theorem Fails.err {φ : Phase} {status : UINT} (h : Fails φ s (.status status) s') :
    status ≠ nxSuccess ∧ status ≠ nxWebHttpGetDone := by
  rcases h with ⟨he, -⟩ | ⟨he, -⟩
  · cases he
    exact endStatus_err _
  · cases he
    exact ⟨by decide, by decide⟩

/-- A call that fails gives back at once that no packet is there to be received. -/
theorem meets_takeBody_chunked (hP : P.Serves) (h : Midway P s) :
    Meets (takeBody P) s
      (fun r s' => (r = .ok nxSuccess ∧ NextPart P s s') ∨
        (r = .ok nxWebHttpGetDone ∧ BodyDone s s') ∨
        ((∃ status, ((status ≠ nxNoPacket ∧ r = .ok status) ∨ (status = nxNoPacket ∧
            r = .error status)) ∧ Fails s.phase s.atRest (.status status) s') ∧
          s'.responseChunked = true ∧ s'.reported = s.reported))
      (fun _ _ => False) := by
  refine .bind_get ?_
  rw [if_pos h.chunked]
  refine .bind (meets_attempt ((meets_responseChunkedGet hP h.resting).mono ?_ ?_))
  · rintro status s1 (⟨rfl, hdel⟩ | ⟨rfl, hsame, hlen, hsome, hdone⟩)
    · refine .bind_modify (.pure (.inl ⟨rfl, ?_⟩))
      obtain ⟨xs, out, hout, hlen, hne, hunread, hpass⟩ := hdel.packet
      have hsame := hdel.same
      obtain ⟨hrest, hleft⟩ :=
        hdel.resting.congr (t := { s1 with returned := s1.packetPptr }) rfl rfl rfl
      refine ⟨⟨?_, ?_, ?_, hrest⟩, hdel.ends, ?_, xs, out, hout, hlen, hne, ?_, hpass⟩
      · rw [hsame]
        exact h.busy
      · rw [hsame]
        exact h.received
      · rw [hsame]
        exact h.chunked
      · rw [hsame]
      · rw [hleft]
        exact hunread
    · exact .bind_modify (.pure (.inr (.inl ⟨rfl, hsome, hlen, by rw [hsame], hdone⟩)))
  · rintro e s1 ⟨hsame, hfails⟩
    left
    obtain ⟨status, rfl⟩ : ∃ status, e = .status status := by
      rcases hfails with ⟨rfl, -⟩ | ⟨rfl, -⟩ <;> exact ⟨_, rfl⟩
    have hchunked : s1.responseChunked = true := by
      rw [hsame]
      exact h.chunked
    have hrep : s1.reported = s.reported := by rw [hsame]
    refine ⟨status, rfl, .ite (fun hno => ?_) fun hne => ?_⟩
    · exact .pure (.inr (.inr ⟨⟨status, .inr ⟨hno, rfl⟩, hfails⟩, hchunked, hrep⟩))
    · exact .bind_modify (.pure (.inr (.inr ⟨⟨status, .inl ⟨hne, rfl⟩, hfails⟩, hchunked, hrep⟩)))

/-- The status that a call gives on a body that the coding reads like that, and that goes on no
further. -/
def Gives (P : Pool) (run : List UInt8 × Halt Phase UInt8 Verdict) (ends status : UINT) : Prop :=
  match run.2 with
  | .stopped .done _ => False
  | .stopped .malformed _ => status = nxNotFound
  | .more _ => status = ends ∧ (P.errorChecking = true ∨ ends = nxNoPacket)

/-- Instead of that a packet that is not there is released. -/
def Crashes (P : Pool) (run : List UInt8 × Halt Phase UInt8 Verdict) (ends : UINT) (e : Exit) :
    Prop :=
  e = .fault ∧ P.errorChecking = false ∧
    match run.2 with
    | .stopped .done _ => False
    | .stopped .malformed _ => True
    | .more _ => ends ≠ nxNoPacket

theorem Gives.err {run : List UInt8 × Halt Phase UInt8 Verdict}
    {inc : List (Except Failure Received)} {status : UINT} (h : Gives P run (endStatus inc) status) :
    status ≠ nxSuccess ∧ status ≠ nxWebHttpGetDone := by
  unfold Gives at h
  split at h
  · exact h.elim
  · subst h
    exact ⟨by decide, by decide⟩
  · rw [h.1]
    exact endStatus_err inc

/-- The status of a failure is given where the packet that is released is there, or the release is
checked, or nothing is released. -/
theorem Fails.gives {φ : Phase} {status : UINT} (h : Fails φ s (.status status) s')
    (hheld : status = nxNoPacket ∨ (s'.responsePacket = none → P.errorChecking = true)) :
    Gives P (chunked.run φ s.ahead) (endStatus s.incoming) status := by
  unfold Gives
  rcases h with ⟨he, hnone, out, ψ, hpass⟩ | ⟨he, out, rest, hrun⟩
  · cases he
    unfold Machine.Passes at hpass
    rw [hpass]
    exact ⟨rfl, hheld.symm.imp_left fun hcheck => hcheck hnone⟩
  · cases he
    rw [hrun]

theorem Fails.crashes {φ : Phase} {status : UINT} (h : Fails φ s (.status status) s')
    (hcheck : P.errorChecking = false) (hne : status ≠ nxNoPacket) :
    Crashes P (chunked.run φ s.ahead) (endStatus s.incoming) .fault := by
  refine ⟨rfl, hcheck, ?_⟩
  rcases h with ⟨he, -, out, ψ, hpass⟩ | ⟨he, out, rest, hrun⟩
  · cases he
    unfold Machine.Passes at hpass
    rw [hpass]
    exact hne
  · rw [hrun]
    trivial

/-- What a call comes to once it has a packet of a chunked body. -/
theorem meets_finishCall_chunked (hP : P.Serves) (h : Midway P s) :
    Meets (finishCall P (.ok nxSuccess)) s
      (fun status s' => s'.reported = s.reported ∧ ((status = nxSuccess ∧ NextPart P s s') ∨
        (status = nxWebHttpGetDone ∧ BodyDone s s') ∨
        Gives P (chunked.run s.phase s.unread) (endStatus s.incoming) status))
      (fun e _ => Crashes P (chunked.run s.phase s.unread) (endStatus s.incoming) e) := by
  rw [finishCall, if_pos rfl]
  refine .bind ((meets_takeBody_chunked hP h).mono ?_ fun _ _ => False.elim)
  rintro r s1 (⟨rfl, hnext⟩ | ⟨rfl, hdone⟩ | ⟨⟨status, hr, hfails⟩, hchunked, hrep⟩)
  · exact .pure ⟨hnext.reported, .inl ⟨rfl, hnext⟩⟩
  · refine .seq (meets_endResponse P nxWebHttpGetDone s1 |>.mono (fun _ _ => id) ?_) ?_
    · rintro e s2 ⟨-, -, hne, -⟩
      exact absurd rfl hne
    · rintro _ s2 ⟨hclose, -⟩
      obtain ⟨hsome, hlen, hrep, hrun⟩ := hdone
      have hret : s2.returned = s1.returned := by rw [hclose]
      have hlen2 : s2.packetLength = s1.packetLength := by rw [hclose]
      have hrep2 : s2.reported = s1.reported := by rw [hclose]
      exact .pure ⟨hrep2.trans hrep, .inr (.inl ⟨rfl, by rw [hret]; exact hsome, hlen2.trans hlen,
        hrep2.trans hrep, hrun⟩)⟩
  · rcases hr with ⟨hne, rfl⟩ | ⟨hno, rfl⟩
    · refine .ite (fun _ => ?_) fun hsuccess => absurd hfails.err.1 hsuccess
      refine .seq (meets_endResponse P status s1 |>.mono (fun _ _ => id) ?_) ?_
      · rintro e s2 ⟨rfl, hcheck, -⟩
        exact hfails.crashes hcheck hne
      · rintro _ s2 ⟨hclose, -, -, hunheld⟩
        refine .pure ⟨by rw [hclose]; exact hrep, .inr (.inr (hfails.gives (.inr fun hnone => ?_)))⟩
        exact hunheld ⟨hfails.err.2, hchunked, hnone⟩
    · exact .pure ⟨hrep, .inr (.inr (hfails.gives (.inl hno)))⟩

/-- The same for every call behind the first. -/
theorem meets_responseBodyGet_chunked (hP : P.Serves) (h : Midway P s) :
    Meets (responseBodyGet P) s
      (fun status s' => s'.reported = s.reported ∧ ((status = nxSuccess ∧ NextPart P s s') ∨
        (status = nxWebHttpGetDone ∧ BodyDone s s') ∨
        Gives P (chunked.run s.phase s.unread) (endStatus s.incoming) status))
      (fun e _ => Crashes P (chunked.run s.phase s.unread) (endStatus s.incoming) e) := by
  let t : St := { s with returned := none, packetPptr := none }
  obtain ⟨hrest, hunread⟩ := h.resting.congr (t := t) rfl rfl rfl
  have hcall := meets_finishCall_chunked (s := t) hP ⟨h.busy, h.received, h.chunked, hrest⟩
  refine .bind_get ?_
  rw [if_neg h.busy]
  refine .bind_set ?_
  rw [if_neg (by simp [h.received]), if_neg (by simp [h.chunked])]
  refine .bind (.pure (hcall.mono ?_ fun _ _ => id))
  rintro status s' ⟨hrep, ⟨hsuccess, hnext⟩ | hrest⟩
  · exact ⟨hrep, .inl ⟨hsuccess, hnext.midway, hnext.ends, hnext.reported, hnext.packet⟩⟩
  · exact ⟨hrep, .inr hrest⟩

/-! ## All the calls -/

/-- What the loop has to show for a body that the coding reads like that. -/
def Agrees (P : Pool) (run : List UInt8 × Halt Phase UInt8 Verdict) (ends : UINT)
    (r : List Packet × BodyEnd) : Prop :=
  match run.2 with
  | .stopped .done _ => (∃ ptr, r.2 = .done ⟨ptr, [], nxSuccess⟩) ∧ bodyBytes r = run.1
  | _ => Gives P run ends (lastStatus r.2) ∧ bodyBytes r <+: run.1

/-- Packets a receive loop takes everything from. -/
def Sound (packets : List Packet) : Prop :=
  ∀ p ∈ packets, p.payload ≠ [] ∧ p.extractStatus = nxSuccess

theorem sound_cons {p : Packet} {packets : List Packet} (hp : p.payload ≠ [])
    (hextract : p.extractStatus = nxSuccess) (h : Sound packets) : Sound (p :: packets) := by
  intro q hq
  rcases List.mem_cons.mp hq with rfl | hq
  · exact ⟨hp, hextract⟩
  · exact h q hq

theorem bodyBytes_cons (p : Packet) (packets : List Packet) (last : BodyEnd) :
    bodyBytes (p :: packets, last) = p.payload ++ bodyBytes (packets, last) := by
  simp [bodyBytes, Delivery.body]

/-- What the loop has to show once it was done is what the coding read. -/
theorem Agrees.done_iff {run : List UInt8 × Halt Phase UInt8 Verdict} {inc : List (Except Failure Received)}
    {r : List Packet × BodyEnd} (h : Agrees P run (endStatus inc) r) :
    lastStatus r.2 = nxWebHttpGetDone ↔ ∃ rest, run = (bodyBytes r, .stopped .done rest) := by
  unfold Agrees at h
  constructor
  · intro hlast
    split at h
    · next rest hstop => exact ⟨rest, Prod.ext h.2.symm hstop⟩
    · exact absurd hlast h.1.err.2
  · rintro ⟨rest, hrun⟩
    rw [hrun] at h
    obtain ⟨⟨ptr, hdone⟩, -⟩ := h
    rw [hdone]
    rfl

/-- A packet in front, for the stretch it was made of. -/
theorem Agrees.cons {φ ψ : Phase} {xs ys : List UInt8} {ends : UINT} {p : Packet}
    {packets : List Packet} {last : BodyEnd} (hpass : Machine.Passes chunked φ xs p.payload ψ)
    (h : Agrees P (chunked.run ψ ys) ends (packets, last)) :
    Agrees P (chunked.run φ (xs ++ ys)) ends (p :: packets, last) := by
  rw [hpass.run_eq]
  unfold Agrees Gives at h ⊢
  rw [bodyBytes_cons]
  cases hhalt : (chunked.run ψ ys).2 with
  | more ψ' =>
    rw [hhalt] at h
    exact ⟨h.1, (List.prefix_append_right_inj _).mpr h.2⟩
  | stopped v rest =>
    rw [hhalt] at h
    cases v with
    | done => exact ⟨h.1, congrArg (p.payload ++ ·) h.2⟩
    | malformed => exact ⟨h.1, (List.prefix_append_right_inj _).mpr h.2⟩

theorem Gives.agrees {run : List UInt8 × Halt Phase UInt8 Verdict}
    {inc : List (Except Failure Received)} {status : UINT} (h : Gives P run (endStatus inc) status)
    (err : status ≠ nxSuccess ∧ status ≠ nxWebHttpGetDone) (ptr : Option Nat) :
    Agrees P run (endStatus inc) ([], .failed status err ptr) := by
  unfold Agrees
  split
  · next hstop =>
    unfold Gives at h
    rw [hstop] at h
    exact h.elim
  · exact ⟨h, List.nil_prefix⟩

/-- Nothing goes wrong on a body that is whole. -/
theorem Crashes.not_done {run : List UInt8 × Halt Phase UInt8 Verdict} {ends : UINT} {e : Exit}
    (h : Crashes P run ends e) (out rest : List UInt8) : run ≠ (out, .stopped .done rest) := by
  rintro rfl
  exact h.2.2

/-- What is left of the loop when a call for a chunked body has come back. -/
theorem meets_afterCall {fuel : Nat} {status : UINT} {ends : UINT} (hends : ends = endStatus s.incoming)
    (hloop : ∀ t : St, NextPart P s t → Meets (bodyPackets P fuel) t
      (fun r t' => t'.reported = t.reported ∧ Sound r.1 ∧
        Agrees P (chunked.run t.phase t.unread) (endStatus t.incoming) r)
      (fun e _ => Crashes P (chunked.run t.phase t.unread) (endStatus t.incoming) e))
    (hcall : (status = nxSuccess ∧ NextPart P s s') ∨ (status = nxWebHttpGetDone ∧ BodyDone s s') ∨
      Gives P (chunked.run s.phase s.unread) ends status) (hrep : s'.reported = s.reported) :
    Meets (do
      let t ← get
      if h : status = nxSuccess ∨ status = nxWebHttpGetDone then
        let some out := t.returned | fault
        if status = nxWebHttpGetDone then
          return ([], BodyEnd.done (packetOf out t.packetLength))
        let (packets, last) ← bodyPackets P fuel
        return (packetOf out t.packetLength :: packets, last)
      else
        return ([], .failed status (not_or.mp h) (t.returned.map (·.head.ptr)))) s'
      (fun r t' => t'.reported = s.reported ∧ Sound r.1 ∧
        Agrees P (chunked.run s.phase s.unread) ends r)
      (fun e _ => Crashes P (chunked.run s.phase s.unread) ends e) := by
  subst hends
  refine .bind_get ?_
  rcases hcall with ⟨rfl, hnext⟩ | ⟨rfl, hdone⟩ | hgives
  · obtain ⟨xs, out, hout, hlen, hne, hunread, hpass⟩ := hnext.packet
    rw [dif_pos (.inl rfl), hout]
    have hpayload : (packetOf out s'.packetLength).payload = out.bytes := by
      rw [packetOf, hlen, Chain.length, List.take_length]
    refine .bind ((hloop s' hnext).mono ?_ ?_)
    · rintro ⟨packets, last⟩ t ⟨hrep2, hsound, hagree⟩
      refine .pure ⟨hrep2.trans hrep, sound_cons (by rw [hpayload]; exact hne) rfl hsound, ?_⟩
      · rw [hunread, ← hnext.ends]
        exact hagree.cons (by rw [hpayload]; exact hpass)
    · rintro e t ⟨rfl, hcheck, hhalt⟩
      refine ⟨rfl, hcheck, ?_⟩
      rw [hunread, hpass.run_eq, ← hnext.ends]
      exact hhalt
  · obtain ⟨hsome, hlen, -, rest, hrun⟩ := hdone
    obtain ⟨out, hout⟩ := Option.isSome_iff_exists.mp hsome
    rw [dif_pos (.inr rfl), hout]
    refine .pure ⟨hrep, fun p hp => absurd hp List.not_mem_nil, ?_⟩
    rw [hrun, hlen]
    exact ⟨⟨out.head.ptr, rfl⟩, rfl⟩
  · rw [dif_neg (not_or.mpr hgives.err)]
    exact .pure ⟨hrep, fun p hp => absurd hp List.not_mem_nil, hgives.agrees hgives.err _⟩

/-- From any place between two calls on, the loop hands out what the coding makes of the bytes
ahead: all of it when the body is whole, and the start of it otherwise. -/
theorem meets_bodyPackets_chunked (hP : P.Serves) (fuel : Nat) (h : Midway P s)
    (hfuel : s.unread.length < fuel) :
    Meets (bodyPackets P fuel) s
      (fun r s' => s'.reported = s.reported ∧ Sound r.1 ∧
        Agrees P (chunked.run s.phase s.unread) (endStatus s.incoming) r)
      (fun e _ => Crashes P (chunked.run s.phase s.unread) (endStatus s.incoming) e) := by
  induction fuel generalizing s with
  | zero => omega
  | succ fuel ih =>
    refine .bind ((meets_responseBodyGet_chunked hP h).mono ?_ fun _ _ => id)
    rintro status s1 ⟨hrep, hcall⟩
    refine meets_afterCall rfl (fun t hnext => ih hnext.midway ?_) hcall hrep
    have := hnext.length_lt
    omega

end Iotc.Http
