import Iotc.Http.Opening

/-!
# Bodies of a known length

Without the chunked coding the client counts. A body is done when a packet ends where the length
says, and refused when one goes beyond it (`meets_countedResponse`).
-/

namespace Iotc.Http

open Iotc.C Iotc.Web Iotc.Lib

/-- Between the calls for a body whose length is known: some of it is missing. -/
structure Counting (s : St) : Prop where
  busy : s.state ≠ .ready
  received : s.responseHeaderReceived = true
  plain : s.responseChunked = false
  less : s.actualBytesReceived < s.totalReceiveBytes
  total_lt : s.totalReceiveBytes < 4294967296

def St.left (s : St) : Nat := s.totalReceiveBytes - s.actualBytesReceived

variable {P : Pool} {s s' : St}

/-- What a call makes of the packet `c` with `left` bytes missing. -/
inductive Counted (s : St) (c : Chain) (left : Nat) : UINT → St → Prop where
  | more (s' : St) (h : Counting s') (left_eq : s'.left = left - c.length) (less : c.length < left)
      (returned : s'.returned = some c) (length : s'.packetLength = c.length)
      (incoming : s'.incoming = s.incoming) (reported : s'.reported = s.reported) :
      Counted s c left nxSuccess s'
  | done (s' : St) (eq : c.length = left) (returned : s'.returned = some c)
      (length : s'.packetLength = c.length) (reported : s'.reported = s.reported) :
      Counted s c left nxWebHttpGetDone s'
  | bad (s' : St) (less : left < c.length) (reported : s'.reported = s.reported) :
      Counted s c left nxWebHttpBadPacketLength s'

/-- A packet that does not go beyond the length. -/
theorem meets_countPacket {c : Chain} (hbusy : s.state ≠ .ready) (hreceived : s.responseHeaderReceived = true)
    (hplain : s.responseChunked = false) (htotal : s.totalReceiveBytes < 4294967296)
    (hactual : s.actualBytesReceived ≤ s.totalReceiveBytes) (hc : s.packetPptr = some c)
    (hlen : s.packetLength = c.length) (hle : c.length ≤ s.left) :
    Meets (finishCall P (.ok nxSuccess)) s (fun status s' => Counted s c s.left status s')
      (fun _ _ => False) := by
  have hsum : u32 (s.actualBytesReceived + s.packetLength) = s.actualBytesReceived + c.length := by
    rw [hlen]
    unfold St.left at hle
    exact u32_of_lt (by omega)
  let t : St := { s with
    actualBytesReceived := s.actualBytesReceived + c.length
    returned := s.packetPptr }
  have htake : takeBody P s = .ok (.ok (if s.totalReceiveBytes = s.actualBytesReceived + c.length then
      nxWebHttpGetDone else nxSuccess)) t := by
    show (if s.responseChunked then _ else _ : M (Except UINT UINT)) s = _
    rw [if_neg (by simp [hplain])]
    show EStateM.Result.ok _ _ = _
    rw [hsum]
  rw [finishCall, if_pos rfl]
  refine .bind (.of_ok htake ?_)
  by_cases hdone : s.totalReceiveBytes = s.actualBytesReceived + c.length
  · rw [if_pos hdone]
    refine .seq (meets_endResponse P nxWebHttpGetDone t |>.mono (fun _ _ => id) ?_) ?_
    · rintro e s2 ⟨-, -, hne, -⟩
      exact absurd rfl hne
    · rintro _ s2 ⟨hclose, -⟩
      refine .pure (.done s2 ?_ ?_ ?_ ?_)
      · unfold St.left
        omega
      · rw [hclose]
        exact hc
      · rw [hclose]
        exact hlen
      · rw [hclose]
  · rw [if_neg hdone]
    unfold St.left at hle
    refine .pure (.more t ⟨hbusy, hreceived, hplain, ?_, htotal⟩ ?_ ?_ hc hlen rfl rfl)
    · show s.actualBytesReceived + c.length < s.totalReceiveBytes
      omega
    · show s.totalReceiveBytes - (s.actualBytesReceived + c.length) = _
      unfold St.left
      omega
    · unfold St.left
      omega

/-- A packet that does. -/
theorem meets_badPacket {c : Chain} {left : Nat} (hplain : s.responseChunked = false)
    (hlt : left < c.length) :
    Meets (finishCall P (.ok nxWebHttpBadPacketLength)) s
      (fun status s' => Counted s c left status s') (fun _ _ => False) := by
  rw [finishCall, if_neg (by decide)]
  refine .bind (.pure (.seq (meets_endResponse P nxWebHttpBadPacketLength s |>.mono (fun _ _ => id) ?_) ?_))
  · rintro e s2 ⟨-, -, -, hchunked, -⟩
    rw [hplain] at hchunked
    cases hchunked
  · rintro _ s2 ⟨hclose, -⟩
    refine .pure (.bad s2 hlt ?_)
    rw [hclose]

/-- A call behind the first. -/
theorem meets_responseBodyGet_counted (h : Counting s) :
    Meets (responseBodyGet P) s
      (fun status s' =>
        (∃ r rest t, s.incoming = .ok r :: rest ∧ t.incoming = rest ∧ t.reported = s.reported ∧
          Counted t r.chain s.left status s') ∨
        (status = endStatus s.incoming ∧ incomingBytes s.incoming = [] ∧ s'.reported = s.reported))
      (fun _ _ => False) := by
  refine .bind_get ?_
  rw [if_neg h.busy]
  refine .bind_set ?_
  rw [if_neg (by simp [h.received]), if_pos h.plain]
  refine .bind (.bind (meets_attempt ((meets_receive _).mono ?_ ?_)))
  · rintro c s1 ⟨r, rest, rfl, hinc, rfl⟩
    let t : St := { s with
      returned := none
      packetPptr := some r.chain
      incoming := rest
      packetLength := r.chain.length }
    have hless := h.less
    have htotal := h.total_lt
    have hleft : u32 (s.totalReceiveBytes + 4294967296 - s.actualBytesReceived) = s.left := by
      unfold u32 St.left
      omega
    refine .bind_get (.bind_set ?_)
    by_cases hlt : s.left < r.chain.length
    · rw [if_pos (by rw [hleft]; exact hlt)]
      refine .pure ((meets_badPacket (s := t) h.plain hlt).mono ?_ fun _ _ => False.elim)
      rintro status s2 hcounted
      exact .inl ⟨r, rest, t, hinc, rfl, rfl, hcounted⟩
    · rw [if_neg (by rw [hleft]; exact hlt)]
      refine .pure ((meets_countPacket (s := t) h.busy h.received h.plain htotal (Nat.le_of_lt hless)
        rfl rfl (Nat.not_lt.mp hlt)).mono ?_ fun _ _ => False.elim)
      rintro status s2 hcounted
      exact .inl ⟨r, rest, t, hinc, rfl, rfl, hcounted⟩
  · rintro e s1 ⟨honly, rfl, hnil⟩
    have hrep : s1.reported = s.reported := by rw [honly]
    refine .inl ⟨_, rfl, ?_⟩
    refine .ite (fun _ => ?_) fun _ => .pure (.pure (.inr ⟨rfl, hnil, hrep⟩))
    exact .bind_modify (.bind_modify (.bind_modify (.pure (.pure (.inr ⟨rfl, hnil, hrep⟩)))))

/-! ## All the calls -/

/-- None of the packets to come is empty. -/
def NoneEmpty (inc : List (Except Failure Received)) : Prop :=
  ∀ x, .ok x ∈ inc → x.chain.bytes ≠ []

theorem NoneEmpty.tail {x : Except Failure Received} {inc : List (Except Failure Received)}
    (h : NoneEmpty (x :: inc)) : NoneEmpty inc := fun y hy => h y (List.mem_cons_of_mem _ hy)

/-- What the loop has to show when `left` bytes are missing and `xs` arrive. -/
def CountsTo (xs : List UInt8) (left : Nat) (ends : UINT) (r : List Packet × BodyEnd) : Prop :=
  (lastStatus r.2 = nxWebHttpGetDone ∧ bodyBytes r = xs.take left ∧ left ≤ xs.length) ∨
    (lastStatus r.2 = ends ∧ bodyBytes r = xs ∧ xs.length < left) ∨
    (lastStatus r.2 = nxWebHttpBadPacketLength ∧ bodyBytes r <+: xs.take left ∧ left < xs.length)

theorem CountsTo.cons {p : Packet} {ys : List UInt8} (left : Nat) {ends : UINT}
    {packets : List Packet} {last : BodyEnd} (hp : p.payload.length < left)
    (h : CountsTo ys (left - p.payload.length) ends (packets, last)) :
    CountsTo (p.payload ++ ys) left ends (p :: packets, last) := by
  have htake : (p.payload ++ ys).take left = p.payload ++ ys.take (left - p.payload.length) := by
    rw [List.take_append, List.take_of_length_le (Nat.le_of_lt hp)]
  unfold CountsTo at h ⊢
  rw [bodyBytes_cons, htake, List.length_append]
  rcases h with ⟨hstatus, hbytes, hlen⟩ | ⟨hstatus, hbytes, hlen⟩ | ⟨hstatus, hbytes, hlen⟩
  · exact .inl ⟨hstatus, by rw [hbytes], by omega⟩
  · exact .inr (.inl ⟨hstatus, by rw [hbytes], by omega⟩)
  · exact .inr (.inr ⟨hstatus, (List.prefix_append_right_inj _).mpr hbytes, by omega⟩)

/-- The packets a call made of `c` and the calls behind it. -/
inductive HandsOn (c : Chain) (left : Nat) (inc : List (Except Failure Received)) :
    List Packet → Prop where
  | more (packets : List Packet) (less : c.length < left) (sound : NoneEmpty inc → Sound packets) :
      HandsOn c left inc (packetOf c c.length :: packets)
  | last (le : left ≤ c.length) : HandsOn c left inc []

/-- What is left of the loop when a call that looked at the packet `c` has come back. -/
theorem meets_afterCounted (fuel : Nat) {c : Chain} {left : Nat} {status : UINT}
    (hloop : ∀ t : St, Counting t → t.incoming = s.incoming → Meets (bodyPackets P fuel) t
      (fun r t' => t'.reported = t.reported ∧
        CountsTo (incomingBytes t.incoming) t.left (endStatus t.incoming) r ∧
        (NoneEmpty t.incoming → Sound r.1)) (fun _ _ => False))
    (hcall : Counted s c left status s') :
    Meets (do
      let t ← get
      if h : status = nxSuccess ∨ status = nxWebHttpGetDone then
        let some out := t.returned | fault
        if status = nxWebHttpGetDone then
          return ([], BodyEnd.done (packetOf out t.packetLength))
        let (packets, last) ← bodyPackets P fuel
        return (packetOf out t.packetLength :: packets, last)
      else
        return ([], .failed status (not_or.mp h) (t.returned.map (·.head.ptr)))) s'
      (fun r t' => t'.reported = s.reported ∧
        CountsTo (c.bytes ++ incomingBytes s.incoming) left (endStatus s.incoming) r ∧
        HandsOn c left s.incoming r.1)
      (fun _ _ => False) := by
  have hpayload : (packetOf c c.length).payload = c.bytes := List.take_length
  refine .bind_get ?_
  cases hcall with
  | more _ h hleft hless hreturned hlength hinc hrep =>
    rw [dif_pos (.inl rfl), hreturned, hlength]
    refine .bind ((hloop s' h hinc).mono ?_ fun _ _ => False.elim)
    rintro ⟨packets, last⟩ t ⟨hrep2, hcounts, hsound⟩
    rw [hinc, hleft] at hcounts
    rw [hinc] at hsound
    refine .pure ⟨hrep2.trans hrep, ?_, .more packets hless hsound⟩
    have hcons := CountsTo.cons (p := packetOf c c.length) left
      (by rw [hpayload]; exact hless) (by rw [hpayload]; exact hcounts)
    rwa [hpayload] at hcons
  | done _ heq hreturned hlength hrep =>
    rw [dif_pos (.inr rfl), hreturned, hlength]
    refine .pure ⟨hrep, .inl ⟨rfl, ?_, ?_⟩, .last (Nat.le_of_eq heq.symm)⟩
    · show (packetOf c c.length).payload = _
      rw [hpayload, ← heq]
      exact (List.take_left' rfl).symm
    · rw [← heq, List.length_append]
      exact Nat.le_add_right _ _
  | bad _ hless hrep =>
    rw [dif_neg (by decide)]
    refine .pure ⟨hrep, .inr (.inr ⟨rfl, List.nil_prefix, ?_⟩), .last (Nat.le_of_lt hless)⟩
    rw [List.length_append]
    unfold Chain.length at hless
    omega

theorem meets_bodyPackets_counted (fuel : Nat) (h : Counting s) (hfuel : s.incoming.length < fuel) :
    Meets (bodyPackets P fuel) s
      (fun r s' => s'.reported = s.reported ∧
        CountsTo (incomingBytes s.incoming) s.left (endStatus s.incoming) r ∧
        (NoneEmpty s.incoming → Sound r.1))
      (fun _ _ => False) := by
  induction fuel generalizing s with
  | zero => omega
  | succ fuel ih =>
    refine .bind ((meets_responseBodyGet_counted h).mono ?_ fun _ _ => False.elim)
    rintro status s1 (⟨r, rest, t, hinc, hrest, hrep, hcounted⟩ | ⟨rfl, hnil, hrep⟩)
    · rw [hinc, List.length_cons] at hfuel
      have hafter := meets_afterCounted fuel
        (fun t' ht' hsame => ih ht' (by rw [hsame, hrest]; omega)) hcounted
      rw [hrest, hrep] at hafter
      rw [hinc]
      refine hafter.mono ?_ fun _ _ => id
      rintro ⟨packets, last⟩ s2 ⟨hrep2, hcounts, hhands⟩
      refine ⟨hrep2, hcounts, fun hnone => ?_⟩
      cases hhands with
      | last => exact fun p hp => absurd hp List.not_mem_nil
      | more packets _ hsound =>
        refine sound_cons ?_ rfl (hsound hnone.tail)
        show r.chain.bytes.take r.chain.length ≠ []
        rw [Chain.length, List.take_length]
        exact hnone r List.mem_cons_self
    · refine .bind_get ?_
      have herr := endStatus_err s.incoming
      rw [dif_neg (not_or.mpr herr)]
      refine .pure ⟨hrep, .inr (.inl ⟨rfl, hnil.symm, ?_⟩), fun _ p hp => absurd hp List.not_mem_nil⟩
      have hless := h.less
      rw [hnil]
      show 0 < s.left
      unfold St.left
      omega

/-! ## A response with a length -/

variable {h : Head} {body : List UInt8}

/-- The state behind the header of a response that is not chunked; `left` is what the packet `c` holds
of the body. -/
structure Entered (s : St) (h : Head) (body : List UInt8) (total : Nat) (c left : Chain) (t : St) :
    Prop where
  state : t.state = s.state
  received : t.responseHeaderReceived = true
  plain : t.responseChunked = false
  total : t.totalReceiveBytes = total
  actual : t.actualBytesReceived = 0
  packet : t.packetPptr = some left
  length : t.packetLength = left.length
  whole : c.bytes = h.text ++ left.bytes
  rest : body = left.bytes ++ incomingBytes t.incoming
  reported : t.reported = tellFields h s

/-- What a call that refuses the packet leaves to the calls behind it. -/
structure Turned (s t : St) : Prop where
  plain : t.responseChunked = false
  incoming : t.incoming = s.incoming
  reported : t.reported = s.reported

theorem enterBody_plain {c : Chain} {n : Nat} (hplain : h.fields.any Field.chunked = false)
    (hopened : Opened P { s with returned := none, packetPptr := none } h body c s') :
    ∃ left, Entered s h body (if s.state = .head then 0 else n) c left
        (enterBody c n h.text.length (openBody h { s' with packetPptr := some c })) ∧
      Turned (enterBody c n h.text.length (openBody h { s' with packetPptr := some c }))
        (openBody h { s' with packetPptr := some c }) := by
  have honly := hopened.only
  unfold OnlyCollects at honly
  obtain ⟨front, hfront, hbody⟩ := hopened.head
  have hdrop : c.head.data.drop h.text.length = front := by rw [hfront, List.drop_left]
  let left : Chain := ⟨{ c.head with data := front }, c.next⟩
  have heq : enterBody c n h.text.length (openBody h { s' with packetPptr := some c }) = { s' with
      packetPptr := some left
      responseChunked := false
      keepAlive := h.fields.foldl (fun k f => f.connection.getD k) (decide (0x10 < h.line.version))
      reported := tellFields h s
      responseHeaderReceived := true
      totalReceiveBytes := if s.state = .head then 0 else n
      actualBytesReceived := 0
      packetLength := left.length } := by
    rw [openBody_eq, enterBody, hdrop, hplain, honly]
    rfl
  have hwhole : c.bytes = h.text ++ left.bytes := by
    rw [Chain.bytes, hfront, List.append_assoc]
    rfl
  refine ⟨left, ?_, ?_⟩
  · rw [heq]
    exact ⟨by rw [honly], rfl, rfl, rfl, rfl, rfl, rfl, hwhole, hbody, rfl⟩
  · rw [heq, openBody_eq, hplain, honly]
    exact ⟨rfl, rfl, rfl⟩

/-- The first call refuses the packet by the length it is announced to have, or goes on with it. -/
theorem responseBodyGet_plain (hP : P.Serves) (harr : Arrives P s h body)
    (hverdict : h.verdict = nxSuccess) (hplain : h.fields.any Field.chunked = false) {n : Nat}
    (hfound : foundLength P s = n) :
    ∃ c left t u, Entered s h body (if s.state = .head then 0 else n) c left t ∧ Turned t u ∧
      endStatus t.incoming = endStatus s.incoming ∧ t.incoming.length < s.incoming.length ∧
      t.incoming <:+ s.incoming ∧
      (∀ first rest, s.incoming = .ok first :: rest → h.text.length ≤ first.chain.head.data.length →
        c = first.chain ∧ t.incoming = rest) ∧
      responseBodyGet P s = if u32 (h.text.length + n) < c.length then
        finishCall P (.ok nxWebHttpBadPacketLength) u else finishCall P (.ok nxSuccess) t := by
  obtain ⟨c, s1, hopened, hlen, hcall⟩ := responseBodyGet_first hP harr
  obtain ⟨front, hfront, hbody⟩ := hopened.head
  have hlen := hlen.symm.trans hfound
  have hresponse := processResponse_eq hfront harr.version { s1 with packetPptr := some c }
  rw [hlen, if_neg (not_not.mpr hverdict), hplain] at hresponse
  obtain ⟨left, hentered, hturned⟩ := enterBody_plain (n := n) hplain hopened
  have hinc : (enterBody c n h.text.length (openBody h { s1 with packetPptr := some c })).incoming =
      s1.incoming := by
    rw [openBody_eq, enterBody, hplain]
    rfl
  refine ⟨c, left, _, _, hentered, hturned, ?_, ?_, ?_, ?_, ?_⟩
  · rw [hinc]
    exact hopened.ends
  · rw [hinc]
    exact hopened.shorter
  · rw [hinc]
    exact hopened.suffix
  · intro first rest hfirst hle
    rw [hinc]
    exact hopened.alone first rest hfirst hle
  · rw [hcall]
    by_cases hlt : u32 (h.text.length + n) < c.length
    · rw [if_pos ⟨hlt, rfl⟩] at hresponse
      rw [if_pos hlt]
      exact bind_ok hresponse
    · rw [if_neg fun hboth => hlt hboth.1] at hresponse
      rw [if_neg hlt]
      exact bind_ok hresponse

/-- What the client makes of the packets of a response with a length. -/
structure Receipt (P : Pool) (s : St) (h : Head) (body : List UInt8) (total : Nat)
    (r : List Packet × BodyEnd) (s' : St) : Prop where
  reported : s'.reported = tellFields h s
  counts : CountsTo body total (endStatus s.incoming) r
  /-- What is handed on first is what the packet with the header holds behind it. -/
  hands : ∃ c left inc, HandsOn left total inc r.1 ∧ c.bytes = h.text ++ left.bytes ∧
    (NoneEmpty s.incoming → NoneEmpty inc) ∧
    ∀ first rest, s.incoming = .ok first :: rest → h.text.length ≤ first.chain.head.data.length →
      c = first.chain

/-- A response whose length is known is received: exactly so many bytes of the body, when a packet
ends there and there are as many, and no byte beyond them in any case. -/
theorem meets_countedResponse (hP : P.Serves) (harr : Arrives P s h body)
    (hverdict : h.verdict = nxSuccess) (hplain : h.fields.any Field.chunked = false) {n : Nat}
    (hfound : foundLength P s = n) (hn : h.text.length + n < 4294967296)
    (hhead : s.state = .head → body = []) {fuel : Nat} (hfuel : s.incoming.length < fuel) :
    Meets (bodyPackets P fuel) s
      (fun r s' => Receipt P s h body (if s.state = .head then 0 else n) r s')
      (fun _ _ => False) := by
  obtain ⟨fuel, rfl⟩ : ∃ k, fuel = k + 1 := ⟨fuel - 1, by omega⟩
  obtain ⟨c, left, t, u, hentered, hturned, hends, hshort, hsuffix, halone, hcall⟩ :=
    responseBodyGet_plain hP harr hverdict hplain hfound
  generalize htotal : (if s.state = .head then 0 else n) = total at *
  rw [u32_of_lt hn] at hcall
  have hclen : c.length = h.text.length + left.length := by
    rw [Chain.length, hentered.whole, List.length_append]
    rfl
  have hloop : ∀ v : St, Counting v → v.incoming = t.incoming → Meets (bodyPackets P fuel) v
      (fun r v' => v'.reported = v.reported ∧
        CountsTo (incomingBytes v.incoming) v.left (endStatus v.incoming) r ∧
        (NoneEmpty v.incoming → Sound r.1)) (fun _ _ => False) :=
    fun v hv hsame => meets_bodyPackets_counted fuel hv (by rw [hsame]; omega)
  have hnobody : s.state = .head → left.length = 0 := by
    intro hs
    have hnil := (List.append_eq_nil_iff.mp (hentered.rest.symm.trans (hhead hs))).1
    rw [Chain.length, hnil]
    rfl
  have hreceipt : ∀ r s', s'.reported = t.reported ∧
      CountsTo (left.bytes ++ incomingBytes t.incoming) total (endStatus t.incoming) r ∧
      HandsOn left total t.incoming r.1 → Receipt P s h body total r s' := by
    rintro r s' ⟨hrep, hcounts, hhands⟩
    rw [← hentered.rest, hends] at hcounts
    refine ⟨hrep.trans hentered.reported, hcounts, c, left, _, hhands, hentered.whole, ?_, ?_⟩
    · exact fun hnone x hx => hnone x (hsuffix.subset hx)
    · exact fun first rest hfirst hle => (halone first rest hfirst hle).1
  by_cases hlt : h.text.length + n < c.length
  · -- the packet is refused, with the fields processed but not the state entered
    have hmore : total < left.length := by
      by_cases hs : s.state = .head
      · have := hnobody hs
        omega
      · rw [if_neg hs] at htotal
        omega
    rw [if_pos hlt] at hcall
    refine .bind (.congr hcall ((meets_badPacket hturned.plain hmore).mono ?_ fun _ _ => id))
    rintro status s2 hcounted
    have hafter := meets_afterCounted fuel (s := u) (by rw [hturned.incoming]; exact hloop) hcounted
    rw [hturned.incoming, hturned.reported] at hafter
    exact hafter.mono hreceipt fun _ _ => id
  · rw [if_neg hlt] at hcall
    have hle : left.length ≤ t.left := by
      rw [St.left, hentered.total, hentered.actual]
      by_cases hs : s.state = .head
      · rw [hnobody hs]
        exact Nat.zero_le _
      · rw [if_neg hs] at htotal
        omega
    have htotal_lt : t.totalReceiveBytes < 4294967296 := by
      rw [hentered.total, ← htotal]
      split <;> omega
    have hleft : t.left = total := by rw [St.left, hentered.total, hentered.actual, Nat.sub_zero]
    have hactual : t.actualBytesReceived ≤ t.totalReceiveBytes := by
      rw [hentered.actual]
      exact Nat.zero_le _
    refine .bind (.congr hcall ((meets_countPacket (by rw [hentered.state]; exact harr.busy)
      hentered.received hentered.plain htotal_lt hactual hentered.packet hentered.length hle).mono ?_
        fun _ _ => id))
    rintro status s2 hcounted
    have hafter := meets_afterCounted fuel (s := t) hloop hcounted
    rw [hleft] at hafter
    exact hafter.mono hreceipt fun _ _ => id

/-- A length is counted in 32 bits: of a body that goes on so far the client takes as many bytes as
are left of the length then, and it is done when it has them. -/
theorem counted_response (hP : P.Serves) (harr : Arrives P s h body)
    (hverdict : h.verdict = nxSuccess) (hplain : h.fields.any Field.chunked = false)
    {before after : List Field} {f : Field} (hfields : h.fields = before ++ f :: after)
    (hbefore : findLengthToken (h.line.text ++ crlf ++ before.flatMap Field.text) = none)
    (hname : SameText f.name (cstr "Content-Length")) (hvalue : Decimal.Numeral f.value)
    (hn : h.text.length + Decimal.value f.value % 4294967296 < 4294967296)
    (hhead : s.state = .head → body = []) {fuel : Nat} (hfuel : s.incoming.length < fuel) :
    ∃ r s', bodyPackets P fuel s = .ok r s' ∧ s'.reported = tellFields h s ∧
      CountsTo body (if s.state = .head then 0 else Decimal.value f.value % 4294967296)
        (endStatus s.incoming) r := by
  have hmeets := meets_countedResponse hP harr hverdict hplain
    (foundLength_field hP harr hfields hbefore hname hvalue) hn hhead hfuel
  cases hrun : bodyPackets P fuel s with
  | ok r s' =>
    have hreceipt := hmeets.ok hrun
    exact ⟨r, s', rfl, hreceipt.reported, hreceipt.counts⟩
  | error e s' => exact (hmeets.error hrun).elim

theorem counted_response_two :
    ∃ r s', bodyPackets .sample 4
        (waiting [(Head.mk .ok [.length 4294967298]).text ++ cstr "h", cstr "i"]) = .ok r s' ∧
      lastStatus r.2 = nxWebHttpGetDone ∧ bodyBytes r = cstr "hi" := by
  have harr : Arrives .sample (waiting [(Head.mk .ok [.length 4294967298]).text ++ cstr "h", cstr "i"])
      ⟨.ok, [.length 4294967298]⟩ (cstr "hi") :=
    arrives_waiting (by decide) (by decide +kernel) (by decide +kernel) (by decide +kernel)
  obtain ⟨r, s', hrun, -, hcounts⟩ := counted_response Pool.sample_serves harr (by decide +kernel)
    (by decide +kernel) (show _ = [] ++ Field.length 4294967298 :: [] from rfl) (by decide +kernel)
    (by decide +kernel) (Decimal.numeral_ofNat _) (by decide +kernel) nofun (show _ < 4 by decide)
  have htwo : Decimal.value (Field.length 4294967298).value % 4294967296 = 2 := by decide +kernel
  rw [htwo, if_neg nofun] at hcounts
  refine ⟨r, s', hrun, ?_⟩
  rcases hcounts with ⟨hlast, hbytes, -⟩ | ⟨-, -, hlen⟩ | ⟨-, -, hlen⟩
  · exact ⟨hlast, hbytes⟩
  · exact absurd hlen (by decide)
  · exact absurd hlen (by decide)

/-- A length so near to 2^32 that the header makes it wrap refuses every response. -/
theorem counted_response_refused (hP : P.Serves) (harr : Arrives P s h body)
    (hverdict : h.verdict = nxSuccess) (hplain : h.fields.any Field.chunked = false)
    {before after : List Field} {f : Field} (hfields : h.fields = before ++ f :: after)
    (hbefore : findLengthToken (h.line.text ++ crlf ++ before.flatMap Field.text) = none)
    (hname : SameText f.name (cstr "Content-Length")) (hvalue : Decimal.Numeral f.value)
    (hwrap : 4294967296 ≤ h.text.length + Decimal.value f.value % 4294967296) {fuel : Nat}
    (hfuel : 0 < fuel) :
    ∃ r s', bodyPackets P fuel s = .ok r s' ∧ r.1 = [] ∧ bodyBytes r = [] ∧
      lastStatus r.2 = nxWebHttpBadPacketLength := by
  obtain ⟨fuel, rfl⟩ : ∃ k, fuel = k + 1 := ⟨fuel - 1, by omega⟩
  obtain ⟨c, left, t, u, hentered, hturned, -, -, -, -, hcall⟩ :=
    responseBodyGet_plain hP harr hverdict hplain
      (foundLength_field hP harr hfields hbefore hname hvalue)
  have hlen : h.text.length ≤ c.length := by
    rw [Chain.length, hentered.whole, List.length_append]
    exact Nat.le_add_right _ _
  have hlt : u32 (h.text.length + u32 (Decimal.value f.value)) < c.length := by
    unfold u32
    omega
  have hpos : 0 < c.length := by omega
  rw [if_pos hlt] at hcall
  have hmeets := meets_badPacket (P := P) hturned.plain hpos
  cases hrun : finishCall P (.ok nxWebHttpBadPacketLength) u with
  | error e s2 => exact (hmeets.error hrun).elim
  | ok status s2 =>
    have hcounted := hmeets.ok hrun
    cases hcounted with
    | more _ _ _ hless => omega
    | done _ heq => omega
    | bad => exact ⟨_, s2, bodyPackets_failed (hcall.trans hrun) (by decide), rfl, rfl, rfl⟩

theorem counted_response_refused_near :
    ∃ r s', bodyPackets .sample 1
        (waiting [(Head.mk .ok [.length 4294967290]).text ++ cstr "hi"]) = .ok r s' ∧
      r.1 = [] ∧ bodyBytes r = [] ∧ lastStatus r.2 = nxWebHttpBadPacketLength := by
  have harr : Arrives .sample (waiting [(Head.mk .ok [.length 4294967290]).text ++ cstr "hi"])
      ⟨.ok, [.length 4294967290]⟩ (cstr "hi") :=
    arrives_waiting (by decide) (by decide +kernel) (by decide +kernel) (by decide +kernel)
  exact counted_response_refused Pool.sample_serves harr (by decide +kernel) (by decide +kernel)
    (show _ = [] ++ Field.length 4294967290 :: [] from rfl) (by decide +kernel) (by decide +kernel)
    (Decimal.numeral_ofNat _) (by decide +kernel) Nat.one_pos

end Iotc.Http
