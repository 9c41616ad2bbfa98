import Iotc.Http.Reading
import Iotc.Http.Response

/-!
# Collecting the header

`getServerResponse` puts the packets it receives into the first one until it has seen a blank line.
What it returns are the bytes of these packets in their order, and where it stops does not depend on
how the bytes were cut into packets (`meets_getServerResponse`).
-/

namespace Iotc.Http

open Iotc.C Iotc.Web Iotc.Lib

/-! ## Appending -/

/-- No packet is larger than those of the pool. -/
def Pool.Roomy (P : Pool) (c : Chain) : Prop := ∀ p ∈ c.packets, p.data.length + p.room ≤ P.payload

/-- What fits is put into one of the packets. -/
theorem mem_pushLast {xs : List UInt8} {p : NxPacket} {qs : List NxPacket} {r : NxPacket}
    (hxs : xs.length ≤ Chain.lastRoom p qs) (hr : r ∈ (Chain.pushLast xs p qs).packets) :
    ∃ q ∈ p :: qs, r.data.length + r.room = q.data.length + q.room ∧ (q.data ≠ [] → r.data ≠ []) := by
  induction qs generalizing p with
  | nil =>
    obtain rfl : r = Chain.push xs p := by simpa [Chain.pushLast, Chain.packets] using hr
    refine ⟨p, List.mem_cons_self, ?_, ?_⟩
    · simp only [Chain.lastRoom] at hxs
      simp only [Chain.push, List.length_append]
      omega
    · simp [Chain.push]
      tauto
  | cons q qs ih =>
    rcases List.mem_cons.mp hr with rfl | hr
    · exact ⟨r, List.mem_cons_self, rfl, id⟩
    · obtain ⟨q', hq', h⟩ := ih (p := q) hxs hr
      exact ⟨q', List.mem_cons_of_mem _ hq', h⟩

section
variable {P : Pool} {c : Chain} {xs : List UInt8} {more : List NxPacket}

theorem bytes_extend (h : Overflows P.payload c xs more) : (c.extend xs more).bytes = c.bytes ++ xs := by
  have hfilled := Chain.bytes_pushLast (xs.take (Chain.lastRoom c.head c.next)) c.head c.next
  rw [Chain.extend, Chain.bytes_mk, List.flatMap_append, h.bytes, ← List.append_assoc]
  rw [Chain.bytes] at hfilled
  rw [hfilled, List.append_assoc, List.take_append_drop]

/-- Every packet of the longer chain is one of those before, perhaps fuller, or a new one. -/
theorem mem_extend (h : Overflows P.payload c xs more) {r : NxPacket}
    (hr : r ∈ (c.extend xs more).packets) :
    (∃ q ∈ c.packets, r.data.length + r.room = q.data.length + q.room ∧
      (q.data ≠ [] → r.data ≠ [])) ∨ (r.data ≠ [] ∧ r.data.length + r.room ≤ P.payload) := by
  have htake : (xs.take (Chain.lastRoom c.head c.next)).length ≤ Chain.lastRoom c.head c.next := by
    rw [List.length_take]
    omega
  rw [Chain.extend, Chain.packets, ← List.cons_append, List.mem_append] at hr
  rcases hr with hr | hr
  · exact .inl (mem_pushLast htake hr)
  · exact .inr (h.each r hr)

theorem Pool.Roomy.extend (hc : P.Roomy c) (h : Overflows P.payload c xs more) :
    P.Roomy (c.extend xs more) := by
  intro r hr
  rcases mem_extend h hr with ⟨q, hq, hsum, -⟩ | ⟨-, hle⟩
  · rw [hsum]
    exact hc q hq
  · exact hle

/-- The packets behind the head stay full. -/
theorem full_pushLast {p : NxPacket} {qs : List NxPacket} (hfull : Chain.Full ⟨p, qs⟩) :
    (Chain.pushLast xs p qs).Full := by
  induction qs generalizing p with
  | nil => exact hfull
  | cons q qs ih =>
    have hrest := ih (p := q) (hfull.link rfl)
    have hhead : (Chain.pushLast xs q qs).head.data ≠ [] := by
      have hq := hfull q List.mem_cons_self
      cases qs with
      | nil => simp [Chain.pushLast, Chain.push, hq]
      | cons => exact hq
    intro r hr
    rcases List.mem_cons.mp hr with rfl | hr
    · exact hhead
    · exact hrest r hr

theorem Chain.Full.extend (hfull : c.Full) (h : Overflows P.payload c xs more) :
    (c.extend xs more).Full := by
  intro r hr
  rcases List.mem_append.mp hr with hr | hr
  · exact full_pushLast hfull r hr
  · exact (h.each r hr).1

/-- The first packet holds `n` bytes as soon as the chain does. -/
def Reaches (n : Nat) (c : Chain) : Prop :=
  n ≤ c.head.data.length ∨ (c.next = [] ∧ n ≤ c.head.data.length + c.head.room)

theorem Reaches.le {n : Nat} (h : Reaches n c) (hn : n ≤ c.length) : n ≤ c.head.data.length := by
  rcases h with hle | ⟨hnil, -⟩
  · exact hle
  · rwa [Chain.length, Chain.bytes, hnil, List.flatMap_nil, List.append_nil] at hn

theorem Reaches.extend {n : Nat} (hreach : Reaches n c) (h : Overflows P.payload c xs more) :
    Reaches n (c.extend xs more) := by
  have hgrow : ∀ (p : NxPacket) (qs : List NxPacket) (ys : List UInt8),
      p.data.length ≤ (Chain.pushLast ys p qs).head.data.length := by
    intro p qs ys
    cases qs with
    | nil => simp [Chain.pushLast, Chain.push]
    | cons q qs => exact le_rfl
  rcases hreach with hle | ⟨hnil, hle⟩
  · exact .inl (hle.trans (hgrow c.head c.next _))
  · have hroom : Chain.lastRoom c.head c.next = c.head.room := by rw [hnil]; rfl
    have hhead : (c.extend xs more).head = Chain.push (xs.take c.head.room) c.head := by
      rw [Chain.extend, hroom, hnil]
      rfl
    rcases Nat.lt_or_ge c.head.room xs.length with hlt | hge
    · left
      rw [hhead, Chain.push, List.length_append, List.length_take]
      omega
    · right
      obtain rfl := h.eq_nil (hroom ▸ hge)
      refine ⟨by rw [Chain.extend, hnil]; rfl, ?_⟩
      rw [hhead, Chain.push]
      simp only [List.length_append, List.length_take]
      omega

end

/-- `c'` is `c` with `xs` behind it. -/
structure Grown (P : Pool) (c c' : Chain) (xs : List UInt8) : Prop where
  bytes : c'.bytes = c.bytes ++ xs
  full : c.Full → c'.Full
  roomy : P.Roomy c → P.Roomy c'
  reaches : ∀ n, Reaches n c → Reaches n c'

theorem Grown.refl (P : Pool) (c : Chain) : Grown P c c [] :=
  ⟨(List.append_nil _).symm, id, id, fun _ => id⟩

theorem Grown.trans {P : Pool} {c c' c'' : Chain} {xs ys : List UInt8} (h : Grown P c c' xs)
    (h' : Grown P c' c'' ys) : Grown P c c'' (xs ++ ys) where
  bytes := by rw [h'.bytes, h.bytes, List.append_assoc]
  full := h'.full ∘ h.full
  roomy := h'.roomy ∘ h.roomy
  reaches n := h'.reaches n ∘ h.reaches n

/-- The packets of a chain, one after the other. -/
theorem appendPackets_eq {P : Pool} (hP : P.Serves) (ps : List NxPacket) (c : Chain) (s : St)
    (hne : P.errorChecking = true → ∀ p ∈ ps, p.data ≠ []) :
    ∃ k c', appendPackets P c ps s = .ok c' { s with allocated := s.allocated + k } ∧
      Grown P c c' (ps.flatMap (·.data)) := by
  induction ps generalizing c s with
  | nil => exact ⟨0, c, rfl, Grown.refl P c⟩
  | cons p ps ih =>
    obtain ⟨more, hmore, happend⟩ :=
      nxPacketDataAppend_eq hP (c := c) (fun hcheck => hne hcheck p List.mem_cons_self) s
    obtain ⟨k, c', hrun, hgrown⟩ := ih (c.extend p.data more)
      { s with allocated := s.allocated + more.length }
      fun hcheck q hq => hne hcheck q (List.mem_cons_of_mem _ hq)
    have hstep : Grown P c (c.extend p.data more) p.data :=
      ⟨bytes_extend hmore, fun hfull => hfull.extend hmore, fun hroomy => hroomy.extend hmore,
        fun n hreach => hreach.extend hmore⟩
    refine ⟨more.length + k, c', ?_, hstep.trans hgrown⟩
    show EStateM.bind _ _ s = _
    rw [EStateM.bind, happend]
    simp only [hrun, Nat.add_assoc]

/-! ## The blank line -/

theorem scanBlank_append (k : Nat) (xs ys : List UInt8) :
    scanBlank k (xs ++ ys) = (scanBlank k xs).bind fun k' => scanBlank k' ys := by
  induction xs generalizing k with
  | nil => rfl
  | cons x xs ih =>
    rw [List.cons_append, scanBlank, scanBlank]
    split
    · rfl
    · exact ih _

/-- What the loop leaves as it was: all but the packets received, allocated and released. -/
def OnlyCollects (s s' : St) : Prop :=
  s' = { s with incoming := s'.incoming, allocated := s'.allocated, released := s'.released }

theorem OnlyCollects.trans {s s' s'' : St} (h : OnlyCollects s s') (h' : OnlyCollects s' s'') :
    OnlyCollects s s'' := by
  unfold OnlyCollects at *
  rw [h', h]

/-- `c` is `head` with the bytes received meanwhile behind it. -/
structure Collected (P : Pool) (head : Chain) (xs : List UInt8) (s : St) (c : Chain) (s' : St) :
    Prop where
  only : OnlyCollects s s'
  grown : Grown P head c xs
  bytes : incomingBytes s.incoming = xs ++ incomingBytes s'.incoming
  ends : endStatus s'.incoming = endStatus s.incoming
  suffix : s'.incoming <:+ s.incoming

/-- Packets that can be appended: where the calls of NetX are checked, none of them is empty. -/
def Pool.Takes (P : Pool) (r : Received) : Prop :=
  P.errorChecking = true → ∀ p ∈ r.chain.packets, p.data ≠ []

theorem meets_receive (s : St) :
    Meets receive s
      (fun c s' => ∃ r rest, c = r.chain ∧ s.incoming = .ok r :: rest ∧
        s' = { s with incoming := rest })
      (fun e s' => OnlyCollects s s' ∧ e = .status (endStatus s.incoming) ∧
        incomingBytes s.incoming = []) := by
  have hrun := receive_eq s
  unfold Meets
  rw [hrun]
  cases hinc : s.incoming with
  | nil => exact ⟨rfl, rfl, rfl⟩
  | cons x rest =>
    cases x with
    | error e => exact ⟨rfl, rfl, rfl⟩
    | ok r => exact ⟨r, rest, rfl, rfl, rfl⟩

/-- The loop ends with the packet that completes the blank line. -/
theorem meets_headerLoop {P : Pool} (hP : P.Serves) (fuel : Nat) (k : Nat) (head : Chain)
    (unread : List UInt8) {s : St} (hfuel : s.incoming.length < fuel)
    (htakes : ∀ r, .ok r ∈ s.incoming → P.Takes r) :
    Meets (headerLoop P fuel k head unread) s
      (fun c s' => ∃ xs, Collected P head xs s c s' ∧ scanBlank k (unread ++ xs) = none)
      (fun e s' => OnlyCollects s s' ∧ e = .status (endStatus s.incoming) ∧
        scanBlank k (unread ++ incomingBytes s.incoming) ≠ none) := by
  induction fuel generalizing k head unread s with
  | zero => omega
  | succ fuel ih =>
    rw [headerLoop]
    cases hscan : scanBlank k unread with
    | none =>
      refine .pure ⟨[], ⟨rfl, Grown.refl P head, rfl, rfl, List.suffix_rfl⟩, ?_⟩
      rw [List.append_nil, hscan]
    | some k' =>
      refine .bind (meets_attempt ((meets_receive s).mono ?_ ?_))
      · rintro c s1 ⟨r, rest, rfl, hinc, rfl⟩
        have hne : P.errorChecking = true → ∀ p ∈ r.chain.packets, p.data ≠ [] :=
          htakes r (hinc ▸ List.mem_cons_self)
        obtain ⟨n, c', hrun, hgrown⟩ :=
          appendPackets_eq hP r.chain.packets head { s with incoming := rest } hne
        refine .bind (.of_ok (attempt_ok hrun) (.bind_modify ?_))
        let s1 : St := { s with
          incoming := rest
          allocated := s.allocated + n
          released := s.released ++ r.chain.ptrs }
        have honly1 : OnlyCollects s s1 := rfl
        have hturn := ih k' c' r.chain.bytes (s := s1)
          (by rw [hinc, List.length_cons] at hfuel; exact Nat.lt_of_succ_lt_succ hfuel)
          (fun r' hr' => htakes r' (hinc ▸ List.mem_cons_of_mem _ hr'))
        refine hturn.mono ?_ ?_
        · rintro c2 s2 ⟨xs, hcol, hblank⟩
          refine ⟨r.chain.bytes ++ xs, ⟨?_, hgrown.trans hcol.grown, ?_, ?_, ?_⟩, ?_⟩
          · exact honly1.trans hcol.only
          · rw [hinc, incomingBytes, hcol.bytes, List.append_assoc]
          · rw [hcol.ends, hinc]
            rfl
          · rw [hinc]
            exact hcol.suffix.trans (List.suffix_cons _ _)
          · rw [scanBlank_append, hscan]
            exact hblank
        · rintro e s2 ⟨honly, he, hblank⟩
          refine ⟨honly1.trans honly, ?_, ?_⟩
          · rw [he, hinc]
            rfl
          · rw [hinc, incomingBytes, scanBlank_append, hscan]
            exact hblank
      · rintro e s1 ⟨honly, rfl, hnil⟩
        refine .inl ⟨_, rfl, .bind_modify (.throw ⟨honly.trans rfl, rfl, ?_⟩)⟩
        rw [hnil, List.append_nil, hscan]
        exact Option.some_ne_none _

/-- The header is there when a blank line is among the bytes that arrive, and the packet returned
holds all that was received up to then. -/
theorem meets_getServerResponse {P : Pool} (hP : P.Serves) {s : St} {first : Received}
    {rest : List (Except Failure Received)} (hinc : s.incoming = .ok first :: rest)
    (htakes : ∀ r, .ok r ∈ rest → P.Takes r) :
    Meets (getServerResponse P) s
      (fun c s' => OnlyCollects s s' ∧ (∃ xs, Grown P first.chain c xs) ∧
        incomingBytes s.incoming = c.bytes ++ incomingBytes s'.incoming ∧
        endStatus s'.incoming = endStatus s.incoming ∧ s'.incoming <:+ rest ∧
        scanBlank 0 c.bytes = none)
      (fun e s' => OnlyCollects s s' ∧ e = .status (endStatus s.incoming) ∧
        scanBlank 0 (incomingBytes s.incoming) ≠ none) := by
  let s1 : St := { s with incoming := rest }
  have honly1 : OnlyCollects s s1 := rfl
  have hreceive : receive s = .ok first.chain s1 := by rw [receive_eq, hinc]
  have hbytes : incomingBytes s.incoming = first.chain.bytes ++ incomingBytes rest := by
    rw [hinc, incomingBytes]
  have hend : endStatus s.incoming = endStatus rest := by rw [hinc, endStatus]
  refine .bind (.of_ok hreceive (.bind_get ?_))
  have hloop := meets_headerLoop hP (rest.length + 1) 0 first.chain first.chain.bytes (s := s1)
    (Nat.lt_succ_self _) htakes
  refine hloop.mono ?_ ?_
  · rintro c s2 ⟨xs, hcol, hblank⟩
    have hc := hcol.grown.bytes
    have hrest : incomingBytes rest = xs ++ incomingBytes s2.incoming := hcol.bytes
    refine ⟨honly1.trans hcol.only, ⟨xs, hcol.grown⟩, ?_, ?_, hcol.suffix, ?_⟩
    · rw [hbytes, hc, hrest, List.append_assoc]
    · rw [hend, hcol.ends]
    · rw [hc]
      exact hblank
  · rintro e s2 ⟨honly, he, hblank⟩
    refine ⟨honly1.trans honly, by rw [he, hend], ?_⟩
    rw [hbytes]
    exact hblank

end Iotc.Http
