import Iotc.Http.Chunked

/-!
# Reading over the ends of packets

`St.ahead` is what a reader of the response has before it: the rest of the packet it stands in, the
packets linked behind, and those still to be received. `responseRead` takes the first byte of it
however it is cut into packets (`meets_responseRead`), as long as the control block is `Consistent`.
-/

namespace Iotc.Http

open Iotc.C Iotc.Web Iotc.Lib

/-! ## What is ahead -/

/-- The status the receive calls come to when nothing more arrives. -/
def endStatus : List (Except Failure Received) → UINT
  | [] => nxNoPacket
  | .error e :: _ => e.status
  | .ok _ :: rest => endStatus rest

def St.ahead (s : St) : List UInt8 :=
  (if s.chunkedResponseRemainingSize = 0 then [] else (s.current.map Chain.bytes).getD []) ++
    incomingBytes s.incoming

/-- Packets no larger than those of the pool, chained only where the calls of NetX are not
checked: `nx_packet_data_append` refuses to append nothing. -/
structure Pool.Fits (P : Pool) (c : Chain) : Prop where
  le : ∀ p ∈ c.packets, p.data.length ≤ P.payload
  chained : c.next = [] ∨ P.errorChecking = false

/-- What the reader may rely on. -/
structure Consistent (P : Pool) (s : St) : Prop where
  current : 0 < s.chunkedResponseRemainingSize → ∃ c, s.current = some c ∧ c.Full ∧
    c.length = s.chunkedResponseRemainingSize ∧ P.Fits c ∧
    ∀ rp, s.responsePacket = some rp → rp.head.ptr = c.head.ptr ∧ rp.next = c.next
  incoming : ∀ r, .ok r ∈ s.incoming → P.Fits r.chain

/-- `c` is what is left of `out` behind its first `k` bytes. -/
structure Within (out c : Chain) (k : Nat) : Prop where
  split : ∃ mid, out.next = mid ++ c.next ∧
    (Chain.bytes ⟨out.head, mid⟩).length = k + c.head.data.length ∧
    (Chain.bytes ⟨out.head, mid⟩).drop k = c.head.data

/-- A reader that has not left the chain `out` stands `k` bytes into it. -/
def Old (out : Chain) (k : Nat) (s : St) : Prop :=
  s.responsePacket = none → 0 < s.chunkedResponseRemainingSize →
    ∃ c, s.current = some c ∧ Within out c k

/-- Reading changes the reader's place and nothing else. -/
def OnlyReads (s s' : St) : Prop :=
  s' = { s with
    chunkedResponseRemainingSize := s'.chunkedResponseRemainingSize
    responsePacket := s'.responsePacket
    current := s'.current
    incoming := s'.incoming
    released := s'.released }

namespace OnlyReads

theorem refl (s : St) : OnlyReads s s := rfl

theorem trans {s s' s'' : St} (h : OnlyReads s s') (h' : OnlyReads s' s'') : OnlyReads s s'' := by
  unfold OnlyReads at *
  rw [h', h]

variable {s s' : St} (h : OnlyReads s s')
include h

theorem total : s'.totalReceiveBytes = s.totalReceiveBytes := by
  rw [h]

theorem actual : s'.actualBytesReceived = s.actualBytesReceived := by
  rw [h]

theorem packetPptr : s'.packetPptr = s.packetPptr := by
  rw [h]

end OnlyReads

theorem St.ahead_of_pos {s : St} {c : Chain} (hpos : 0 < s.chunkedResponseRemainingSize)
    (hc : s.current = some c) : s.ahead = c.bytes ++ incomingBytes s.incoming := by
  have hne : s.chunkedResponseRemainingSize ≠ 0 := by omega
  simp [St.ahead, hne, hc]

theorem length_ahead {P : Pool} {s : St} (h : Consistent P s) :
    s.ahead.length = s.chunkedResponseRemainingSize + (incomingBytes s.incoming).length := by
  rcases Nat.eq_zero_or_pos s.chunkedResponseRemainingSize with hzero | hpos
  · simp [St.ahead, hzero]
  · obtain ⟨c, hcur, -, hlen, -⟩ := h.current hpos
    rw [St.ahead_of_pos hpos hcur, List.length_append, ← hlen, Chain.length]

/-- The control block holds the packet the reader stands in. -/
def Held (s : St) : Prop := s.responsePacket.isSome ∨ s.chunkedResponseRemainingSize = 0

/-- `s'` is `s` when `xs` has been read. -/
structure Reads (P : Pool) (s : St) (xs : List UInt8) (s' : St) : Prop where
  only : OnlyReads s s'
  consistent : Consistent P s'
  ahead : s.ahead = xs ++ s'.ahead
  ends : endStatus s'.incoming = endStatus s.incoming
  keeps : s.responsePacket.isSome → s'.responsePacket.isSome
  held : Held s → Held s' ∧ (xs = [] ∨ s'.responsePacket.isSome)
  old : ∀ out k, Old out k s → Old out (k + xs.length) s'

theorem Reads.refl {P : Pool} {s : St} (h : Consistent P s) : Reads P s [] s :=
  ⟨OnlyReads.refl s, h, rfl, rfl, id, fun hheld => ⟨hheld, .inl rfl⟩, fun _ _ => id⟩

theorem Reads.trans {P : Pool} {s s' s'' : St} {xs ys : List UInt8} (h : Reads P s xs s')
    (h' : Reads P s' ys s'') : Reads P s (xs ++ ys) s'' where
  only := h.only.trans h'.only
  consistent := h'.consistent
  ahead := by rw [h.ahead, h'.ahead, List.append_assoc]
  ends := h'.ends.trans h.ends
  keeps := h'.keeps ∘ h.keeps
  held hheld := by
    obtain ⟨hheld1, hsome1⟩ := h.held hheld
    obtain ⟨hheld2, hsome2⟩ := h'.held hheld1
    refine ⟨hheld2, ?_⟩
    rcases hsome2 with rfl | hsome2
    · exact hsome1.imp (fun hxs => by rw [hxs, List.nil_append]) h'.keeps
    · exact .inr hsome2
  old out k hold := by
    have := h'.old out _ (h.old out k hold)
    rwa [Nat.add_assoc, ← List.length_append] at this

/-! ## Receiving another packet -/

theorem onlyReads_dropResponse (s : St) : OnlyReads s (dropResponse s) := by
  unfold dropResponse
  split <;> rfl

theorem responsePacket_dropResponse (s : St) : (dropResponse s).responsePacket = none := by
  unfold dropResponse
  split
  · assumption
  · rfl

theorem onlyReads_takePacket (s : St) (c : Chain) : OnlyReads s (takePacket s c) := rfl

theorem onlyReads_incoming (s : St) (rest : List (Except Failure Received)) :
    OnlyReads s { s with incoming := rest } := rfl

/-- The loop ends with the first packet that holds something, or with the status of a receive call
when there is none. -/
theorem meets_refill (inc : List (Except Failure Received)) (s : St) :
    Meets (fun s => refill s inc) s
      (fun _ s' => OnlyReads s s' ∧ ∃ r rest, .ok r ∈ inc ∧ (∀ x ∈ rest, x ∈ inc) ∧
        s'.responsePacket = some r.chain ∧ s'.current = some r.chain ∧ 0 < r.chain.length ∧
        s'.chunkedResponseRemainingSize = r.chain.length ∧ s'.incoming = rest ∧
        incomingBytes inc = r.chain.bytes ++ incomingBytes rest ∧ endStatus inc = endStatus rest)
      (fun e s' => OnlyReads s s' ∧ e = .status (endStatus inc) ∧ s'.responsePacket = none ∧
        incomingBytes inc = []) := by
  induction inc generalizing s with
  | nil =>
    refine .of_error rfl ⟨?_, rfl, responsePacket_dropResponse s, rfl⟩
    exact (onlyReads_dropResponse s).trans (onlyReads_incoming _ _)
  | cons x rest ih =>
    cases x with
    | error f =>
      refine .of_error rfl ⟨?_, rfl, responsePacket_dropResponse s, rfl⟩
      exact (onlyReads_dropResponse s).trans (onlyReads_incoming _ _)
    | ok r =>
      have hmove : OnlyReads s (takePacket (dropResponse s) r.chain) :=
        (onlyReads_dropResponse s).trans (onlyReads_takePacket _ _)
      by_cases hlen : r.chain.length = 0
      · have hbytes : r.chain.bytes = [] := List.length_eq_zero_iff.mp hlen
        have hstep : refill s (.ok r :: rest) = refill (takePacket (dropResponse s) r.chain) rest := by
          rw [refill, if_pos hlen]
        have hrest := ih (takePacket (dropResponse s) r.chain)
        unfold Meets at hrest ⊢
        simp only [hstep]
        split at hrest
        · next hr =>
          obtain ⟨hreads, r', rest', hr', hsub, h1, h2, h3, h4, h5, h6, h7⟩ := hrest
          simp only [hr]
          refine ⟨hmove.trans hreads, r', rest', List.mem_cons_of_mem _ hr', ?_, h1, h2, h3, h4, h5,
            ?_, h7⟩
          · intro x hx
            exact List.mem_cons_of_mem _ (hsub x hx)
          · rw [incomingBytes, hbytes, List.nil_append, h6]
        · next hr =>
          obtain ⟨hreads, hstatus, hnone, hnil⟩ := hrest
          simp only [hr]
          refine ⟨hmove.trans hreads, hstatus, hnone, ?_⟩
          rw [incomingBytes, hbytes, List.nil_append, hnil]
      · refine .of_ok (by rw [refill, if_neg hlen]) ⟨hmove.trans (onlyReads_incoming _ _), r, rest,
          List.mem_cons_self, fun x hx => List.mem_cons_of_mem _ hx, rfl, rfl, by omega, rfl, rfl,
          rfl, rfl⟩

variable {P : Pool} {s : St} {out : Chain} {k : Nat}

/-- What a call leaves that got nothing more to read. -/
structure Starved (s : St) (e : Exit) (s' : St) : Prop where
  reads : OnlyReads s s'
  status : e = .status (endStatus s.incoming)
  dropped : s'.responsePacket = none

/-- Afterwards something is left of the packet the reader stands in. -/
theorem meets_receiveMore (h : Consistent P s) :
    Meets receiveMore s (fun _ s' => Reads P s [] s' ∧ 0 < s'.chunkedResponseRemainingSize)
      (fun e s' => Starved s e s' ∧ s.ahead = []) := by
  by_cases hzero : s.chunkedResponseRemainingSize = 0
  · have hahead : s.ahead = incomingBytes s.incoming := by simp [St.ahead, hzero]
    have hrun : receiveMore s = refill s s.incoming := by rw [receiveMore, if_pos hzero]
    have hrefill := meets_refill s.incoming s
    unfold Meets at hrefill ⊢
    rw [hrun]
    split at hrefill
    · next hr =>
      obtain ⟨hreads, r, rest, hr', hsub, hresp, hcur, hpos, hrem, hinc, hbytes, hend⟩ := hrefill
      simp only [hr]
      refine ⟨⟨hreads, ⟨fun _ => ⟨r.chain, hcur, r.full, hrem.symm, h.incoming r hr', ?_⟩, ?_⟩, ?_, ?_,
        fun _ => by rw [hresp]; rfl, fun _ => ⟨.inl (by rw [hresp]; rfl), .inl rfl⟩, ?_⟩, by omega⟩
      · intro rp hrp
        rw [hresp, Option.some.injEq] at hrp
        subst hrp
        exact ⟨rfl, rfl⟩
      · intro r' hr1
        rw [hinc] at hr1
        exact h.incoming r' (hsub _ hr1)
      · rw [List.nil_append, St.ahead_of_pos (by omega) hcur, hinc, hahead, hbytes]
      · rw [hinc, hend]
      · intro out k _ hnone
        rw [hresp] at hnone
        cases hnone
    · next hr =>
      obtain ⟨hreads, hstatus, hnone, hnil⟩ := hrefill
      simp only [hr]
      exact ⟨⟨hreads, hstatus, hnone⟩, by rw [hahead, hnil]⟩
  · exact .of_ok (by rw [receiveMore, if_neg hzero]) ⟨Reads.refl h, by omega⟩

/-! ## Reading a byte -/

theorem Within.tail {c : Chain} {b : UInt8} {data : List UInt8} (h : Within out c k)
    (hc : c.head.data = b :: data) :
    Within out ⟨{ c.head with data := data }, c.next⟩ (k + 1) := by
  obtain ⟨mid, hnext, hlen, hdrop⟩ := h.split
  refine ⟨mid, hnext, ?_, ?_⟩
  · rw [hlen, hc, List.length_cons]
    show k + (data.length + 1) = k + 1 + data.length
    omega
  · rw [← List.tail_drop, hdrop, hc]
    rfl

theorem Within.link {c : Chain} {p : NxPacket} {ps : List NxPacket} (h : Within out c k)
    (hempty : c.head.data = []) (hc : c.next = p :: ps) : Within out ⟨p, ps⟩ k := by
  obtain ⟨mid, hnext, hlen, hdrop⟩ := h.split
  have hk : (Chain.bytes ⟨out.head, mid⟩).length = k := by
    rw [hlen, hempty]
    rfl
  have hbytes : Chain.bytes ⟨out.head, mid ++ [p]⟩ = Chain.bytes ⟨out.head, mid⟩ ++ p.data := by
    simp
  refine ⟨mid ++ [p], ?_, ?_, ?_⟩
  · rw [hnext, hc, List.append_assoc]
    rfl
  · rw [hbytes, List.length_append, hk]
  · rw [hbytes, ← hk, List.drop_left]

theorem readByte_eq {c : Chain} {b : UInt8} {data : List UInt8} (hc : c.head.data = b :: data)
    (s : St) : readByte c s = .ok b { s with
      current := some ⟨{ c.head with data := data }, c.next⟩
      chunkedResponseRemainingSize := s.chunkedResponseRemainingSize - 1 } := by
  rw [readByte, hc]
  rfl

theorem Pool.Fits.tail {c : Chain} {b : UInt8} {data : List UInt8} (h : P.Fits c)
    (hc : c.head.data = b :: data) : P.Fits ⟨{ c.head with data := data }, c.next⟩ := by
  refine ⟨fun p hp => ?_, h.chained⟩
  rcases List.mem_cons.mp hp with rfl | hp
  · have := h.le c.head List.mem_cons_self
    rw [hc, List.length_cons] at this
    show data.length ≤ P.payload
    omega
  · exact h.le p (List.mem_cons_of_mem _ hp)

theorem Pool.Fits.link {c : Chain} {p : NxPacket} {ps : List NxPacket} (h : P.Fits c)
    (hc : c.next = p :: ps) : P.Fits ⟨p, ps⟩ := by
  refine ⟨fun q hq => h.le q ?_, ?_⟩
  · rw [Chain.packets, hc]
    exact List.mem_cons_of_mem _ hq
  · rcases h.chained with hnil | hcheck
    · rw [hc] at hnil
      cases hnil
    · exact .inr hcheck

theorem Chain.Full.link {c : Chain} {p : NxPacket} {ps : List NxPacket} (h : c.Full)
    (hc : c.next = p :: ps) : Chain.Full ⟨p, ps⟩ := fun q hq =>
  h q (hc ▸ List.mem_cons_of_mem _ hq)

/-- The place behind the first byte of `c`. -/
theorem Consistent.tail {c : Chain} {b : UInt8} {data : List UInt8} (h : Consistent P s)
    (hcur : s.current = some c) (hpos : 0 < s.chunkedResponseRemainingSize)
    (hc : c.head.data = b :: data) :
    Consistent P { s with
      current := some ⟨{ c.head with data := data }, c.next⟩
      chunkedResponseRemainingSize := s.chunkedResponseRemainingSize - 1 } := by
  obtain ⟨c1, hc1, hfull, hlen, hfits, hlink⟩ := h.current hpos
  obtain rfl : c1 = c := Option.some.inj (hc1.symm.trans hcur)
  refine ⟨fun _ => ⟨_, rfl, hfull, ?_, hfits.tail hc, hlink⟩, h.incoming⟩
  simp only [Chain.length, Chain.bytes, hc, List.cons_append, List.length_cons] at hlen ⊢
  omega

/-- The next packet of the chain, at its first byte. -/
theorem consistent_stepChain {c : Chain} {p : NxPacket} {ps : List NxPacket} (h : Consistent P s)
    (hcur : s.current = some c) (hpos : 0 < s.chunkedResponseRemainingSize)
    (hempty : c.head.data = []) (hc : c.next = p :: ps) :
    Consistent P (stepChain s.responsePacket p ps s) := by
  obtain ⟨c1, hc1, hfull, hlen, hfits, hlink⟩ := h.current hpos
  obtain rfl : c1 = c := Option.some.inj (hc1.symm.trans hcur)
  have hbytes : c1.bytes = Chain.bytes ⟨p, ps⟩ := by simp [Chain.bytes, hempty, hc]
  rw [Chain.length, hbytes] at hlen
  cases hresp : s.responsePacket with
  | none =>
    refine ⟨fun _ => ⟨_, rfl, hfull.link hc, hlen, hfits.link hc, ?_⟩, h.incoming⟩
    intro rp hrp
    simp [stepChain, hresp] at hrp
  | some rp0 =>
    refine ⟨fun _ => ⟨_, rfl, hfull.link hc, hlen, hfits.link hc, ?_⟩, h.incoming⟩
    intro rp hrp
    obtain rfl : rp = ⟨p, ps⟩ := by simpa [stepChain] using hrp.symm
    exact ⟨rfl, rfl⟩

theorem onlyReads_stepChain (rp : Option Chain) (p : NxPacket) (ps : List NxPacket) (s : St) :
    OnlyReads s (stepChain rp p ps s) := by
  cases rp <;> rfl

theorem current_stepChain (rp : Option Chain) (p : NxPacket) (ps : List NxPacket) (s : St) :
    (stepChain rp p ps s).current = some ⟨p, ps⟩ := by
  cases rp <;> rfl

theorem remaining_stepChain (rp : Option Chain) (p : NxPacket) (ps : List NxPacket) (s : St) :
    (stepChain rp p ps s).chunkedResponseRemainingSize = s.chunkedResponseRemainingSize := by
  cases rp <;> rfl

theorem incoming_stepChain (rp : Option Chain) (p : NxPacket) (ps : List NxPacket) (s : St) :
    (stepChain rp p ps s).incoming = s.incoming := by
  cases rp <;> rfl

theorem isSome_stepChain (p : NxPacket) (ps : List NxPacket) (s : St) :
    (stepChain s.responsePacket p ps s).responsePacket.isSome = s.responsePacket.isSome := by
  cases h : s.responsePacket with
  | none => simp [stepChain, h]
  | some rp => rfl

theorem Old.stepChain {c : Chain} {p : NxPacket} {ps : List NxPacket} (h : Old out k s)
    (hcur : s.current = some c) (hempty : c.head.data = []) (hc : c.next = p :: ps) :
    Old out k (stepChain s.responsePacket p ps s) := by
  intro hnone hpos
  cases hresp : s.responsePacket with
  | none =>
    rw [remaining_stepChain] at hpos
    obtain ⟨c1, hc1, hwithin⟩ := h hresp hpos
    obtain rfl : c1 = c := Option.some.inj (hc1.symm.trans hcur)
    exact ⟨_, current_stepChain _ p ps s, hwithin.link hempty hc⟩
  | some rp =>
    rw [hresp] at hnone
    cases hnone

/-- On to the next packet of the chain. -/
theorem reads_stepChain {c : Chain} {p : NxPacket} {ps : List NxPacket} (h : Consistent P s)
    (hcur : s.current = some c) (hpos : 0 < s.chunkedResponseRemainingSize)
    (hempty : c.head.data = []) (hc : c.next = p :: ps) :
    Reads P s [] (stepChain s.responsePacket p ps s) where
  only := onlyReads_stepChain _ p ps s
  consistent := consistent_stepChain h hcur hpos hempty hc
  ahead := by
    have hpos' : 0 < (stepChain s.responsePacket p ps s).chunkedResponseRemainingSize := by
      rw [remaining_stepChain]
      exact hpos
    rw [St.ahead_of_pos hpos hcur, St.ahead_of_pos hpos' (current_stepChain _ p ps s),
      incoming_stepChain, Chain.bytes, hempty, hc]
    rfl
  ends := by rw [incoming_stepChain]
  keeps := by rw [isSome_stepChain]; exact id
  held := by
    rw [Held, Held, isSome_stepChain, remaining_stepChain]
    exact fun hheld => ⟨hheld, .inl rfl⟩
  old out k hold := hold.stepChain hcur hempty hc

/-- The first byte of `c`, where the reader stands. -/
theorem meets_readByte {c : Chain} {b : UInt8} {data : List UInt8} (h : Consistent P s)
    (hcur : s.current = some c) (hpos : 0 < s.chunkedResponseRemainingSize)
    (hc : c.head.data = b :: data) :
    Meets (readByte c) s (fun b' s' => Reads P s [b'] s') (fun _ _ => False) := by
  refine .of_ok (readByte_eq hc s) ⟨rfl, h.tail hcur hpos hc, ?_, rfl, id, ?_, ?_⟩
  · obtain ⟨c1, hc1, -, hlen, -, -⟩ := h.current hpos
    obtain rfl : c1 = c := Option.some.inj (hc1.symm.trans hcur)
    rw [St.ahead_of_pos hpos hcur]
    simp only [Chain.length, Chain.bytes, hc, List.cons_append, List.length_cons] at hlen
    simp only [Chain.bytes, hc, St.ahead, Option.map_some, Option.getD_some, List.cons_append,
      List.nil_append]
    split
    · next h0 =>
      have hnil : data ++ c1.next.flatMap (·.data) = [] := by
        apply List.length_eq_zero_iff.mp
        omega
      rw [hnil]
    · rfl
  · rintro (hsome | h0)
    · exact ⟨.inl hsome, .inr hsome⟩
    · omega
  · intro out k hold hnone _
    obtain ⟨c1, hc1, hwithin⟩ := hold hnone hpos
    obtain rfl : c1 = c := Option.some.inj (hc1.symm.trans hcur)
    exact ⟨_, rfl, hwithin.tail hc⟩

/-- The first byte ahead is read, or nothing is ahead. -/
theorem meets_responseRead (h : Consistent P s) :
    Meets responseRead s (fun b s' => Reads P s [b] s')
      (fun e s' => Starved s e s' ∧ s.ahead = []) := by
  refine .seq (meets_receiveMore h) fun _ s1 ⟨hreads, hpos⟩ => ?_
  obtain ⟨c, hcur, hfull, hlen, -, -⟩ := hreads.consistent.current hpos
  refine .bind_get ?_
  simp only [hcur]
  cases hdata : c.head.data with
  | cons b data =>
    rw [if_neg (by simp)]
    exact (meets_readByte hreads.consistent hcur hpos hdata).mono (fun _ _ h2 => hreads.trans h2)
      fun _ _ hfalse => hfalse.elim
  | nil =>
    rw [if_pos rfl]
    cases hnext : c.next with
    | nil =>
      rw [Chain.length, Chain.bytes, hdata, hnext, List.flatMap_nil] at hlen
      simp at hlen
      omega
    | cons p ps =>
      obtain ⟨b, data, hp⟩ := List.exists_cons_of_ne_nil (hfull p (hnext ▸ List.mem_cons_self))
      have hlink := reads_stepChain hreads.consistent hcur hpos hdata hnext
      refine .bind_modify ((meets_readByte hlink.consistent (current_stepChain _ p ps s1)
        (by rw [remaining_stepChain]; exact hpos) hp).mono ?_ fun _ _ hfalse => hfalse.elim)
      exact fun _ _ h2 => hreads.trans (hlink.trans h2)

/-- The next byte is checked. -/
theorem meets_responseByteExpect (h : Consistent P s) (data : UInt8) :
    Meets (responseByteExpect data) s (fun _ s' => Reads P s [data] s')
      (fun e s' => (Starved s e s' ∧ s.ahead = []) ∨
        (OnlyReads s s' ∧ e = .status nxNotFound ∧ ∃ b rest, s.ahead = b :: rest ∧ b ≠ data)) := by
  refine .bind ((meets_responseRead h).mono ?_ ?_)
  · intro b s' hreads
    by_cases hb : b = data
    · subst hb
      rw [if_neg (by simp)]
      exact hreads
    · rw [if_pos hb]
      exact .inr ⟨hreads.only, rfl, b, s'.ahead, hreads.ahead, hb⟩
  · exact fun e s' hstarved => .inl hstarved

/-! ## Past the data of a chunk -/

theorem Within.here (p : NxPacket) (ps : List NxPacket) {n : Nat} (h : n ≤ p.data.length) :
    Within ⟨p, ps⟩ ⟨{ p with data := p.data.drop n }, ps⟩ n := by
  refine ⟨[], rfl, ?_, ?_⟩
  · simp only [Chain.bytes_mk, List.flatMap_nil, List.append_nil, List.length_drop]
    omega
  · simp

theorem Within.behind {p q : NxPacket} {qs : List NxPacket} {c : Chain} {n : Nat}
    (h : Within ⟨q, qs⟩ c n) : Within ⟨p, q :: qs⟩ c (p.data.length + n) := by
  obtain ⟨mid, hnext, hlen, hdrop⟩ := h.split
  have hbytes : Chain.bytes ⟨p, q :: mid⟩ = p.data ++ Chain.bytes ⟨q, mid⟩ := rfl
  refine ⟨q :: mid, ?_, ?_, ?_⟩
  · exact congrArg (q :: ·) hnext
  · rw [hbytes, List.length_append, hlen, Nat.add_assoc]
  · rw [hbytes, List.drop_append, List.drop_eq_nil_of_le (by omega), List.nil_append,
      Nat.add_sub_cancel_left]
    exact hdrop

theorem Pool.Fits.drop {p : NxPacket} {ps : List NxPacket} (h : P.Fits ⟨p, ps⟩) (n : Nat) :
    P.Fits ⟨{ p with data := p.data.drop n }, ps⟩ := by
  refine ⟨fun q hq => ?_, h.chained⟩
  rcases List.mem_cons.mp hq with rfl | hq
  · have := h.le p List.mem_cons_self
    show (p.data.drop n).length ≤ P.payload
    rw [List.length_drop]
    omega
  · exact h.le q (List.mem_cons_of_mem _ hq)

/-- The packets count for their bytes. -/
theorem Pool.Fits.of_data {c c' : Chain} (h : P.Fits c)
    (hdata : c'.packets.map (·.data) = c.packets.map (·.data)) : P.Fits c' := by
  refine ⟨fun p hp => ?_, ?_⟩
  · have hmem : p.data ∈ c.packets.map (·.data) := by
      rw [← hdata]
      exact List.mem_map_of_mem hp
    obtain ⟨q, hq, hqp⟩ := List.mem_map.mp hmem
    rw [← hqp]
    exact h.le q hq
  · refine h.chained.imp_left fun hnil => ?_
    have hlen := congrArg List.length hdata
    simp only [Chain.packets, List.length_map, List.length_cons, hnil, List.length_nil] at hlen
    exact List.length_eq_zero_iff.mp (by omega)

/-- A chain that holds `n` bytes can be skipped so far. -/
theorem skip_spec {n : Nat} (p : NxPacket) (ps : List NxPacket)
    (hn : n ≤ Chain.length ⟨p, ps⟩) (hfull : Chain.Full ⟨p, ps⟩) (hfits : P.Fits ⟨p, ps⟩) :
    ∃ c, skip n p ps = some c ∧ c.bytes = (Chain.bytes ⟨p, ps⟩).drop n ∧ c.Full ∧ P.Fits c ∧
      Within ⟨p, ps⟩ c n := by
  induction ps generalizing n p with
  | nil =>
    have hle : n ≤ p.data.length := by simpa [Chain.length] using hn
    exact ⟨⟨{ p with data := p.data.drop n }, []⟩, by rw [skip, if_pos hle], by simp, hfull,
      hfits.drop n, .here p [] hle⟩
  | cons q qs ih =>
    by_cases hle : n ≤ p.data.length
    · refine ⟨⟨{ p with data := p.data.drop n }, q :: qs⟩, by rw [skip, if_pos hle], ?_, hfull,
        hfits.drop n, .here p _ hle⟩
      rw [Chain.bytes_mk, Chain.bytes_mk, List.drop_append_of_le_length hle]
    · have hbytes : Chain.bytes ⟨p, q :: qs⟩ = p.data ++ Chain.bytes ⟨q, qs⟩ := rfl
      have hrest : n - p.data.length ≤ Chain.length ⟨q, qs⟩ := by
        rw [Chain.length, hbytes, List.length_append] at hn
        rw [Chain.length]
        omega
      obtain ⟨c, hskip, hc, hfull', hfits', hwithin⟩ :=
        ih q hrest (hfull.link rfl) (hfits.link rfl)
      refine ⟨c, by rw [skip, if_neg hle, hskip], ?_, hfull', hfits', ?_⟩
      · have hnil : p.data.drop n = [] := List.drop_eq_nil_of_le (by omega)
        rw [hc, hbytes, List.drop_append, hnil, List.nil_append]
      · have := hwithin.behind (p := p)
        rwa [Nat.add_sub_cancel' (by omega)] at this

/-- A chain that holds `n` bytes can be cut behind them; no packet is lost. -/
theorem trim_spec {n : Nat} (p : NxPacket) (ps : List NxPacket) (hn : n ≤ Chain.length ⟨p, ps⟩) :
    ∃ kept behind, trim n p ps = some (kept, behind) ∧
      kept.bytes = (Chain.bytes ⟨p, ps⟩).take n ∧
      kept.ptrs ++ behind.map (·.ptr) = Chain.ptrs ⟨p, ps⟩ := by
  induction ps generalizing n p with
  | nil =>
    have hle : n ≤ p.data.length := by simpa [Chain.length] using hn
    exact ⟨⟨{ p with data := p.data.take n }, []⟩, [], by rw [trim, if_pos hle], by simp, rfl⟩
  | cons q qs ih =>
    have hbytes : Chain.bytes ⟨p, q :: qs⟩ = p.data ++ Chain.bytes ⟨q, qs⟩ := rfl
    by_cases hlt : p.data.length < n
    · have hrest : n - p.data.length ≤ Chain.length ⟨q, qs⟩ := by
        rw [Chain.length, hbytes, List.length_append] at hn
        rw [Chain.length]
        omega
      obtain ⟨kept, behind, htrim, hkept, hptrs⟩ := ih q hrest
      refine ⟨⟨p, kept.packets⟩, behind, by rw [trim, if_pos hlt, htrim]; rfl, ?_, ?_⟩
      · have hpackets : Chain.bytes ⟨p, kept.packets⟩ = p.data ++ kept.bytes := rfl
        have hle : p.data.length ≤ n := by omega
        rw [hpackets, hbytes, hkept, List.take_append, List.take_of_length_le hle]
      · show p.ptr :: (kept.ptrs ++ behind.map (·.ptr)) = p.ptr :: Chain.ptrs ⟨q, qs⟩
        rw [hptrs]
    · refine ⟨⟨{ p with data := p.data.take n }, []⟩, q :: qs, by rw [trim, if_neg hlt], ?_, rfl⟩
      rw [hbytes, List.take_append_of_le_length (by omega)]
      simp

end Iotc.Http
