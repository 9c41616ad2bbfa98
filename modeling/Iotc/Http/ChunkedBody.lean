import Iotc.Http.Reading
import Iotc.Lib.Hex
import Iotc.Lib.Transducer

/-!
# Chunked bodies

`chunked` is the chunked transfer coding as a machine over bytes: it puts out the data of the
chunks and stops behind the last one, or where the coding is broken. A call of
`responseChunkedGet` takes it over the next stretch of what is ahead and hands out what it puts out
on the way (`meets_responseChunkedGet`).
-/

namespace Iotc.Http

open Iotc.C Iotc.Web Iotc.Lib

/-! ## The coding -/

/-- The place in the coding: in the size line of a chunk, behind a number of digits or in its
extension, in its data, or at one of the line ends. -/
inductive Phase where
  | size (n : Nat) (ext : Bool)
  | sizeLf (n : Nat)
  | data (left : Nat)
  | dataCr
  | dataLf
  | lastCr
  | lastLf
  deriving DecidableEq, Repr

inductive Verdict where
  | done
  | malformed
  deriving DecidableEq, Repr

/-- Behind `left` bytes fewer of the chunk's data. -/
def afterData (left : Nat) : Phase := if left = 0 then .dataCr else .data left

/-- Behind the size line. -/
def afterSize (n : Nat) : Phase := if n = 0 then .lastCr else .data n

/-- A line end must come next. -/
def expectByte (b : UInt8) (φ : Phase) (c : UInt8) : Turn Phase UInt8 Verdict :=
  if c = b then .next φ [] else .stop .malformed

def chunkedStep : Phase → UInt8 → Turn Phase UInt8 Verdict
  | .size n ext, c =>
    if ext ∧ c ≠ cr then .next (.size n ext) []
    else
      match Hex.value c with
      | some d => .next (.size (u32 (16 * n + d.toNat)) ext) []
      | none =>
        if c = cr then .next (.sizeLf n) []
        else if c = 0x3B then .next (.size n true) []
        else .stop .malformed
  | .sizeLf n, c => expectByte lf (afterSize n) c
  | .data left, c => .next (afterData (left - 1)) [c]
  | .dataCr, c => expectByte cr .dataLf c
  | .dataLf, c => expectByte lf (.size 0 false) c
  | .lastCr, c => expectByte cr .lastLf c
  | .lastLf, c => if c = lf then .stop .done else .stop .malformed

def chunked : Machine Phase UInt8 UInt8 Verdict := ⟨chunkedStep⟩

theorem chunked_step (φ : Phase) (c : UInt8) : chunked.step φ c = chunkedStep φ c := rfl

/-- The data of a chunk, or the start of it. -/
theorem passes_data (xs : List UInt8) {n : Nat} (h : xs.length ≤ n) :
    Machine.Passes chunked (afterData n) xs xs (afterData (n - xs.length)) := by
  induction xs generalizing n with
  | nil => exact Machine.Passes.nil _
  | cons x xs ih =>
    have hn : n ≠ 0 := by
      rw [List.length_cons] at h
      omega
    have hstep : chunked.step (afterData n) x = .next (afterData (n - 1)) [x] := by
      rw [afterData, if_neg hn]
      rfl
    have hrest := ih (n := n - 1) (by rw [List.length_cons] at h; omega)
    rw [List.length_cons, Nat.add_comm xs.length 1, ← Nat.sub_sub]
    exact hrest.cons hstep

/-- The digits the code knows are the hexadecimal ones of either case. -/
theorem sizeDigit_eq : ∀ c : UInt8, sizeDigit c = (Hex.value c).map UInt8.toNat :=
  Hex.forall_byte (by decide +kernel)

/-! ## What a call makes of the bytes ahead -/

variable {P : Pool} {s s' : St} {φ ψ : Phase}

/-- A call that fails in phase `φ` found the coding broken, or the bytes ahead come to their end
inside the coding; then no packet is held any more. -/
def Fails (φ : Phase) (s : St) (e : Exit) (s' : St) : Prop :=
  (e = .status (endStatus s.incoming) ∧ s'.responsePacket = none ∧
    ∃ out ψ, Machine.Passes chunked φ s.ahead out ψ) ∨
  (e = .status nxNotFound ∧ ∃ out rest, chunked.run φ s.ahead = (out, .stopped .malformed rest))

/-- A failure further on is one of the whole. -/
theorem Fails.after {xs out : List UInt8} {e : Exit} {s'' : St} (h : Fails ψ s' e s'')
    (hpass : Machine.Passes chunked φ xs out ψ) (hahead : s.ahead = xs ++ s'.ahead)
    (hends : endStatus s'.incoming = endStatus s.incoming) : Fails φ s e s'' := by
  rcases h with ⟨he, hnone, out', ψ', hrest⟩ | ⟨he, out', rest, hrest⟩
  · refine .inl ⟨by rw [he, hends], hnone, out ++ out', ψ', ?_⟩
    rw [hahead]
    exact hpass.trans hrest
  · refine .inr ⟨he, out ++ out', rest, ?_⟩
    rw [hahead, hpass.run_eq, hrest]

/-- A stretch is read that the coding passes without output, or the call fails. -/
abbrev Scans {α : Type} (P : Pool) (x : M α) (φ : Phase) (s : St) (Q : α → List UInt8 → St → Prop) :
    Prop :=
  Meets x s (fun a s' => ∃ xs, Reads P s xs s' ∧ Q a xs s')
    (fun e s' => OnlyReads s s' ∧ Fails φ s e s')

/-- A scan behind a stretch that was read. -/
theorem scans_after {α : Type} {x : M α} {xs : List UInt8} {Q : α → List UInt8 → St → Prop}
    (hreads : Reads P s xs s') (hpass : Machine.Passes chunked φ xs [] ψ)
    (h : Scans P x ψ s' fun a ys s'' => Q a (xs ++ ys) s'') :
    Meets x s' (fun a s'' => ∃ ys, Reads P s ys s'' ∧ Q a ys s'')
      (fun e s'' => OnlyReads s s'' ∧ Fails φ s e s'') := by
  refine h.mono ?_ ?_
  · rintro a s2 ⟨ys, hreads2, hQ⟩
    exact ⟨xs ++ ys, hreads.trans hreads2, hQ⟩
  · rintro e s2 ⟨honly, hfails⟩
    exact ⟨hreads.only.trans honly, hfails.after hpass hreads.ahead hreads.ends⟩

/-- Nothing is ahead. -/
theorem Fails.of_starved {e : Exit} (h : Starved s e s') (hnil : s.ahead = []) :
    Fails φ s e s' := by
  refine .inl ⟨h.status, h.dropped, [], φ, ?_⟩
  rw [hnil]
  exact Machine.Passes.nil φ

/-- A line end that is read, where the coding asks for it. -/
theorem scans_responseByteExpect (h : Consistent P s) {data : UInt8}
    (hstep : ∀ c, chunkedStep φ c = expectByte data ψ c) :
    Scans P (responseByteExpect data) φ s fun _ xs _ => Machine.Passes chunked φ xs [] ψ := by
  refine (meets_responseByteExpect h data).mono ?_ ?_
  · intro _ s1 hreads
    refine ⟨[data], hreads, .single ?_⟩
    rw [chunked_step, hstep, expectByte, if_pos rfl]
  · rintro e s1 (⟨hstarved, hnil⟩ | ⟨honly, he, b, rest, hahead, hb⟩)
    · exact ⟨hstarved.reads, Fails.of_starved hstarved hnil⟩
    · refine ⟨honly, .inr ⟨he, [], rest, ?_⟩⟩
      rw [hahead, Machine.run_stop]
      rw [chunked_step, hstep, expectByte, if_neg hb]

/-- A line end behind a stretch that was read. -/
theorem expect_after {xs : List UInt8} (data : UInt8) (χ : Phase) (hreads : Reads P s xs s')
    (hpass : Machine.Passes chunked φ xs [] ψ)
    (hstep : ∀ c, chunkedStep ψ c = expectByte data χ c) :
    Meets (responseByteExpect data) s'
      (fun _ s'' => ∃ ys, Reads P s ys s'' ∧ Machine.Passes chunked φ ys [] χ)
      (fun e s'' => OnlyReads s s'' ∧ Fails φ s e s'') := by
  refine scans_after hreads hpass ((scans_responseByteExpect hreads.consistent hstep).mono ?_
    fun _ _ hfail => hfail)
  rintro _ s2 ⟨ys, hreads2, hpass2⟩
  exact ⟨ys, hreads2, hpass.trans hpass2⟩

/-- The size line up to its carriage return. -/
theorem scans_sizeLoop (fuel : Nat) {n : Nat} {ext : Bool} (h : Consistent P s)
    (hfuel : s.ahead.length < fuel) :
    Scans P (sizeLoop fuel n ext) (.size n ext) s fun n' xs _ =>
      Machine.Passes chunked (.size n ext) xs [] (.sizeLf n') := by
  induction fuel generalizing s n ext with
  | zero => omega
  | succ fuel ih =>
    refine .bind ((meets_responseRead h).mono ?_ fun _ _ ⟨hstarved, hnil⟩ =>
      ⟨hstarved.reads, Fails.of_starved hstarved hnil⟩)
    intro tmp s1 hreads
    -- the byte takes the loop to its next turn with `n'` and `ext'`
    have hnext : ∀ {n' : Nat} {ext' : Bool},
        chunkedStep (.size n ext) tmp = .next (.size n' ext') [] →
        Meets (sizeLoop fuel n' ext') s1
          (fun n'' s2 => ∃ xs, Reads P s xs s2 ∧
            Machine.Passes chunked (.size n ext) xs [] (.sizeLf n''))
          (fun e s2 => OnlyReads s s2 ∧ Fails (.size n ext) s e s2) := by
      intro n' ext' hstep
      have hpass : Machine.Passes chunked (.size n ext) [tmp] [] (.size n' ext') := .single hstep
      have hlen := hreads.ahead
      refine scans_after hreads hpass ((ih hreads.consistent ?_).mono ?_ fun _ _ hfail => hfail)
      · rw [hlen] at hfuel
        simp at hfuel
        omega
      · rintro n'' s2 ⟨ys, hreads2, hpass2⟩
        exact ⟨ys, hreads2, hpass.trans hpass2⟩
    by_cases hext : ext = true ∧ tmp ≠ cr
    · rw [if_pos hext]
      exact hnext (by rw [chunkedStep, if_pos hext])
    · rw [if_neg hext, sizeDigit_eq]
      cases hvalue : Hex.value tmp with
      | some d => exact hnext (by rw [chunkedStep, if_neg hext, hvalue])
      | none =>
        have hstep : chunkedStep (.size n ext) tmp =
            if tmp = cr then .next (.sizeLf n) []
            else if tmp = 0x3B then .next (.size n true) [] else .stop .malformed := by
          rw [chunkedStep, if_neg hext, hvalue]
        simp only [Option.map_none]
        by_cases hcr : tmp = cr
        · rw [if_pos hcr] at hstep ⊢
          exact .pure ⟨[tmp], hreads, .single hstep⟩
        · by_cases hsemi : tmp = 0x3B
          · rw [if_neg hcr, if_pos hsemi] at hstep ⊢
            exact hnext hstep
          · rw [if_neg hcr, if_neg hsemi] at hstep ⊢
            refine .throw ⟨hreads.only, .inr ⟨rfl, [], s1.ahead, ?_⟩⟩
            rw [hreads.ahead]
            exact Machine.run_stop hstep _

/-- Where the control block stands in the coding between two calls. -/
def St.phase (s : St) : Phase :=
  if s.actualBytesReceived < s.totalReceiveBytes then
    .data (s.totalReceiveBytes - s.actualBytesReceived)
  else .size 0 false

/-- The head of a chunk, or nothing when there is more to come of the one before. -/
theorem scans_chunkedSizeGet (h : Consistent P s) :
    Scans P chunkedSizeGet s.phase s fun n xs s' =>
      Machine.Passes chunked s.phase xs [] (afterSize n) ∧ 0 < s'.chunkedResponseRemainingSize := by
  -- both ways end in the same loop
  have hmore : ∀ {n : Nat} {xs : List UInt8} {s1 : St}, Reads P s xs s1 →
      Machine.Passes chunked s.phase xs [] (afterSize n) →
      Meets (receiveMore >>= fun _ => Pure.pure n) s1
        (fun n' s2 => ∃ xs, Reads P s xs s2 ∧ Machine.Passes chunked s.phase xs [] (afterSize n') ∧
          0 < s2.chunkedResponseRemainingSize)
        (fun e s2 => OnlyReads s s2 ∧ Fails s.phase s e s2) := by
    intro n xs s1 hreads hpass
    refine scans_after hreads hpass (.bind ((meets_receiveMore hreads.consistent).mono ?_ ?_))
    · rintro _ s2 ⟨hreads2, hpos⟩
      exact .pure ⟨[], hreads2, by rw [List.append_nil]; exact hpass, hpos⟩
    · rintro e s2 ⟨hstarved, hnil⟩
      exact ⟨hstarved.reads, Fails.of_starved hstarved hnil⟩
  refine .bind_get ?_
  by_cases hleft : s.actualBytesReceived < s.totalReceiveBytes
  · have hphase : s.phase = afterSize (s.totalReceiveBytes - s.actualBytesReceived) := by
      rw [St.phase, if_pos hleft, afterSize, if_neg (by omega)]
    rw [if_pos hleft]
    exact .bind (.pure (hmore (.refl h) (by rw [hphase]; exact Machine.Passes.nil _)))
  · have hphase : s.phase = .size 0 false := by rw [St.phase, if_neg hleft]
    have hfuel : s.ahead.length <
        s.chunkedResponseRemainingSize + (incomingBytes s.incoming).length + 1 := by
      rw [length_ahead h]
      omega
    rw [if_neg hleft]
    refine .bind ((scans_sizeLoop _ h hfuel).mono ?_ ?_)
    · rintro n s1 ⟨xs, hreads, hpass⟩
      rw [← hphase] at hpass
      refine .bind ((expect_after _ _ hreads hpass fun c => rfl).mono ?_ fun _ _ hfail => hfail)
      rintro _ s2 ⟨ys, hreads2, hpass2⟩
      exact hmore hreads2 hpass2
    · rintro e s1 ⟨honly, hfails⟩
      rw [hphase]
      exact ⟨honly, hfails⟩

/-! ## Between two calls -/

/-- The control block with the data pointer where the next call puts it. -/
def St.atRest (s : St) : St := { s with current := s.responsePacket }

/-- The bytes the next calls have before them. -/
def St.unread (s : St) : List UInt8 := s.atRest.ahead

/-- The control block between two calls. -/
def Resting (P : Pool) (s : St) : Prop := Consistent P s.atRest

/-- What a call leaves as it was: all but the reader's place, the packet returned and the counters
of the chunk. -/
def SameCall (s s' : St) : Prop :=
  s' = { s with
    totalReceiveBytes := s'.totalReceiveBytes
    actualBytesReceived := s'.actualBytesReceived
    chunkedResponseRemainingSize := s'.chunkedResponseRemainingSize
    responsePacket := s'.responsePacket
    incoming := s'.incoming
    allocated := s'.allocated
    released := s'.released
    current := s'.current
    packetPptr := s'.packetPptr
    packetLength := s'.packetLength }

theorem SameCall.trans {s s' s'' : St} (h : SameCall s s') (h' : SameCall s' s'') :
    SameCall s s'' := by
  unfold SameCall at *
  rw [h', h]

theorem OnlyReads.sameCall {s s' : St} (h : OnlyReads s s') : SameCall s s' := by
  rw [h]
  rfl

theorem held_atRest (s : St) (h : Resting P s) : Held s.atRest := by
  rcases Nat.eq_zero_or_pos s.chunkedResponseRemainingSize with hzero | hpos
  · exact .inr hzero
  · obtain ⟨c, hcur, -⟩ := h.current hpos
    left
    show s.responsePacket.isSome
    rw [show s.responsePacket = some c from hcur]
    rfl

/-! ## What stands behind a chunk -/

/-- Bytes that fit one packet are copied to one. -/
theorem nxPacketDataAppend_empty {P : Pool} (hP : P.Serves) {ptr : Nat} {data : List UInt8}
    (hfit : data.length ≤ P.payload) (hcheck : P.errorChecking = true → data ≠ []) (s : St) :
    nxPacketDataAppend P ⟨⟨ptr, [], P.payload⟩, []⟩ data s =
      .ok ⟨⟨ptr, data, P.payload - data.length⟩, []⟩ s := by
  obtain ⟨more, hmore, hrun⟩ :=
    nxPacketDataAppend_eq hP (c := ⟨⟨ptr, [], P.payload⟩, []⟩) hcheck s
  obtain rfl := hmore.eq_nil hfit
  have htake : data.take P.payload = data := List.take_of_length_le hfit
  rw [hrun]
  simp [Chain.extend, Chain.lastRoom, Chain.pushLast, Chain.push, htake]

theorem nxPacketAllocate_eq {P : Pool} {ptr : Nat} (h : P.allocate s.allocated = .ok ptr) :
    nxPacketAllocate P s = .ok ptr { s with allocated := s.allocated + 1 } := by
  unfold nxPacketAllocate
  rw [bind_get_eq, bind_set_eq, h]
  rfl

/-- The packet returned still holds the chunk of `n` bytes that `out` starts with. -/
def Holds (out : Chain) (n : Nat) (s : St) : Prop :=
  ∃ out', s.packetPptr = some out' ∧ n ≤ out'.length ∧ out'.bytes.take n = out.bytes.take n

/-- The bytes left of the chain the reader stands in, held for the next call. -/
theorem resting_copy {t : St} {c c' : Chain} (h : Consistent P s)
    (hpos : 0 < s.chunkedResponseRemainingSize) (hcur : s.current = some c)
    (hresp : t.responsePacket = some c')
    (hrem : t.chunkedResponseRemainingSize = s.chunkedResponseRemainingSize)
    (hinc : t.incoming = s.incoming) (hbytes : c'.bytes = c.bytes) (hfull : c'.Full)
    (hfits : P.Fits c') : Resting P t ∧ t.unread = s.ahead := by
  obtain ⟨c1, hc1, -, hlen, -⟩ := h.current hpos
  obtain rfl : c1 = c := Option.some.inj (hc1.symm.trans hcur)
  refine ⟨⟨fun _ => ⟨c', hresp, hfull, ?_, hfits, ?_⟩, ?_⟩, ?_⟩
  · show c'.length = t.chunkedResponseRemainingSize
    rw [Chain.length, hbytes, hrem]
    exact hlen
  · intro rp hrp
    obtain rfl : c' = rp := Option.some.inj (hresp.symm.trans hrp)
    exact ⟨rfl, rfl⟩
  · intro r hr
    exact h.incoming r (hinc ▸ hr)
  · have hpos' : 0 < t.atRest.chunkedResponseRemainingSize := by
      show 0 < t.chunkedResponseRemainingSize
      omega
    rw [St.unread, St.ahead_of_pos hpos' hresp, St.ahead_of_pos hpos hcur, hbytes]
    exact congrArg (c1.bytes ++ incomingBytes ·) hinc

theorem holds_self {out : Chain} {n : Nat} (hout : s.packetPptr = some out) (hn : n ≤ out.length) :
    Holds out n s := ⟨out, hout, hn, rfl⟩

/-- The chain up to the packet the reader stands in holds all that was read of it. -/
theorem Within.cut {out c : Chain} {m n : Nat} (h : Within out c m) (hnm : n ≤ m) :
    n ≤ Chain.length ⟨out.head, out.next.take (out.next.length - c.next.length)⟩ ∧
      (Chain.bytes ⟨out.head, out.next.take (out.next.length - c.next.length)⟩).take n =
        out.bytes.take n := by
  obtain ⟨mid, hnext, hlen, -⟩ := h.split
  have htake : out.next.take (out.next.length - c.next.length) = mid := by
    rw [hnext, List.length_append, Nat.add_sub_cancel, List.take_left]
  have hle : n ≤ (Chain.bytes ⟨out.head, mid⟩).length := by omega
  have hbytes : out.bytes = Chain.bytes ⟨out.head, mid⟩ ++ c.next.flatMap (·.data) := by
    rw [Chain.bytes, hnext, List.flatMap_append, Chain.bytes_mk, List.append_assoc]
  rw [htake, hbytes, List.take_append_of_le_length hle]
  exact ⟨hle, rfl⟩

/-- What stands behind the chunk is there for the next call, in the packet that was received with it
or in a copy. -/
theorem meets_keepRest (hP : P.Serves) {out : Chain} {m n : Nat} (h : Consistent P s)
    (hout : s.packetPptr = some out) (hnm : n ≤ m) (hlen : n ≤ out.length) (hold : Old out m s) :
    Meets (keepRest P) s
      (fun _ s' => SameCall s s' ∧ Resting P s' ∧ s'.unread = s.ahead ∧ s'.incoming = s.incoming ∧
        Holds out n s')
      (fun _ _ => False) := by
  refine .bind_get ?_
  by_cases hzero : s.chunkedResponseRemainingSize = 0
  · have hunread : s.unread = s.ahead := by simp [St.unread, St.ahead, St.atRest, hzero]
    rw [if_pos hzero]
    refine .pure ⟨rfl, ⟨fun hpos => ?_, h.incoming⟩, hunread, rfl, holds_self hout hlen⟩
    have hpos' : 0 < s.chunkedResponseRemainingSize := hpos
    omega
  · have hpos : 0 < s.chunkedResponseRemainingSize := by omega
    obtain ⟨c, hcur, hfull, hclen, hfits, hlink⟩ := h.current hpos
    rw [if_neg hzero]
    simp only [hcur]
    cases hresp : s.responsePacket with
    | some rp =>
      obtain ⟨-, hnext⟩ := hlink rp hresp
      have hkeep := resting_copy (t := { s with
        responsePacket := some ⟨{ rp.head with data := c.head.data }, rp.next⟩ }) h hpos hcur rfl rfl
        rfl (by rw [Chain.bytes_mk, hnext]; rfl) (by rw [Chain.Full, hnext]; exact hfull)
        (hfits.of_data (by rw [Chain.packets, hnext]; rfl))
      exact .bind_modify (.pure ⟨rfl, hkeep.1, hkeep.2, rfl, holds_self hout hlen⟩)
    | none =>
      obtain ⟨ptr, hptr⟩ := hP.allocates s.allocated
      have hfit : c.head.data.length ≤ P.payload := hfits.le c.head List.mem_cons_self
      -- an empty rest would have packets linked behind it, and these only come unchecked
      have hcheck : P.errorChecking = true → c.head.data ≠ [] := by
        intro htrue hnil
        rcases hfits.chained with hnext | hfalse
        · rw [Chain.length, Chain.bytes, hnil, hnext] at hclen
          simp at hclen
          omega
        · rw [htrue] at hfalse
          cases hfalse
      refine .bind (.of_ok (nxPacketAllocate_eq hptr) (.bind_modify (.bind (.of_ok
        (nxPacketDataAppend_empty hP hfit hcheck _) (.bind_modify ?_)))))
      have hcopy : P.Fits ⟨⟨ptr, c.head.data, P.payload - c.head.data.length⟩, c.next⟩ :=
        hfits.of_data rfl
      by_cases hmore : c.head.data.length < s.chunkedResponseRemainingSize
      · have hnext : c.next ≠ [] := by
          intro hnil
          rw [Chain.length, Chain.bytes, hnil] at hclen
          simp at hclen
          omega
        obtain ⟨c1, hc1, hwithin⟩ := hold hresp hpos
        obtain rfl : c1 = c := Option.some.inj (hc1.symm.trans hcur)
        have hcut := hwithin.cut hnm
        rw [if_pos hmore, if_neg hnext]
        simp only [hout]
        have hkeep := resting_copy (t := { s with
          allocated := s.allocated + 1
          responsePacket := some ⟨⟨ptr, c1.head.data, P.payload - c1.head.data.length⟩, c1.next⟩
          packetPptr := some ⟨out.head, out.next.take (out.next.length - c1.next.length)⟩ })
          h hpos hcur rfl rfl rfl rfl hfull hcopy
        exact .modify ⟨rfl, hkeep.1, hkeep.2, rfl, _, rfl, hcut.1, hcut.2⟩
      · have hnext : c.next = [] := by
          by_contra hne
          obtain ⟨p, ps, hps⟩ := List.exists_cons_of_ne_nil hne
          have hp : p.data.length ≠ 0 := by
            intro h0
            exact hfull p (hps ▸ List.mem_cons_self) (List.length_eq_zero_iff.mp h0)
          rw [Chain.length, Chain.bytes, hps, List.length_append, List.flatMap_cons,
            List.length_append] at hclen
          omega
        rw [hnext] at hcopy
        have hkeep := resting_copy (t := { s with
          allocated := s.allocated + 1
          responsePacket := some ⟨⟨ptr, c.head.data, P.payload - c.head.data.length⟩, []⟩ })
          h hpos hcur rfl rfl rfl (by simp [Chain.bytes, hnext]) (fun p hp => by cases hp) hcopy
        rw [if_neg hmore]
        exact .pure ⟨rfl, hkeep.1, hkeep.2, rfl, holds_self hout hlen⟩

/-! ## A call -/

/-- What a call that succeeds makes of the bytes ahead: it takes the coding over a stretch of them
and hands out what the coding puts out there. -/
structure Delivers (P : Pool) (s s' : St) : Prop where
  same : SameCall s s'
  resting : Resting P s'
  ends : endStatus s'.incoming = endStatus s.incoming
  packet : ∃ xs out, s'.packetPptr = some out ∧ s'.packetLength = out.length ∧ out.bytes ≠ [] ∧
    s.unread = xs ++ s'.unread ∧ Machine.Passes chunked s.phase xs out.bytes s'.phase

/-- The chunk, as far as it has come, goes out. -/
theorem meets_finishChunk {out : Chain} {chunkSize length : Nat} (h : Holds out length s) :
    Meets (finishChunk chunkSize length) s
      (fun status s' => status = nxSuccess ∧ SameCall s s' ∧ s'.responsePacket = s.responsePacket ∧
        s'.chunkedResponseRemainingSize = s.chunkedResponseRemainingSize ∧
        s'.incoming = s.incoming ∧ s'.totalReceiveBytes = chunkSize ∧
        s'.actualBytesReceived = length ∧ s'.packetLength = length ∧
        ∃ kept, s'.packetPptr = some kept ∧ kept.bytes = out.bytes.take length)
      (fun _ _ => False) := by
  obtain ⟨out', hout, hle, htake⟩ := h
  obtain ⟨kept, behind, htrim, hkept, -⟩ := trim_spec out'.head out'.next hle
  refine .bind_modify (.bind_get ?_)
  simp only [hout, htrim]
  exact .bind_modify (.pure ⟨rfl, rfl, rfl, rfl, rfl, rfl, rfl, rfl, kept, rfl, hkept.trans htake⟩)

/-- The end of the coding: the last chunk was read up to its size line. -/
theorem meets_lastChunk {xs : List UInt8} {φ : Phase} (hreads : Reads P s xs s')
    (hpass : Machine.Passes chunked φ xs [] .lastCr) (hheld : Held s) :
    Meets lastChunk s'
      (fun status s'' => status = nxWebHttpGetDone ∧ SameCall s s'' ∧ s''.packetLength = 0 ∧
        s''.packetPptr.isSome ∧ ∃ rest, chunked.run φ s.ahead = ([], .stopped .done rest))
      (fun e s'' => SameCall s s'' ∧ Fails φ s e s'') := by
  refine .bind ((expect_after _ _ hreads hpass fun c => rfl).mono ?_ ?_)
  · rintro _ s2 ⟨ys, hreads2, hpass2⟩
    refine .bind ((meets_responseByteExpect hreads2.consistent lf).mono ?_ ?_)
    · intro _ s3 hreads3
      have hall := hreads2.trans hreads3
      have hsome : s3.responsePacket.isSome := (hall.held hheld).2.resolve_left (by simp)
      obtain ⟨rp, hrp⟩ := Option.isSome_iff_exists.mp hsome
      refine .bind_get ?_
      simp only [hrp]
      refine .bind_set (.pure ⟨rfl, hall.only.sameCall.trans rfl, rfl, rfl, s3.ahead, ?_⟩)
      have hstop : chunked.step .lastLf lf = .stop .done := rfl
      rw [hreads2.ahead, hreads3.ahead, hpass2.run_eq, List.singleton_append, Machine.run_stop hstop,
        List.append_nil]
    · rintro e s3 (⟨hstarved, hnil⟩ | ⟨honly, he, b, rest, hahead, hb⟩)
      · exact ⟨(hreads2.only.trans hstarved.reads).sameCall,
          (Fails.of_starved hstarved hnil).after hpass2 hreads2.ahead hreads2.ends⟩
      · have hstop : chunked.step .lastLf b = .stop .malformed := by
          rw [chunked_step, chunkedStep, if_neg hb]
        have hfails : Fails .lastLf s2 e s3 :=
          .inr ⟨he, [], rest, by rw [hahead, Machine.run_stop hstop]⟩
        exact ⟨(hreads2.only.trans honly).sameCall, hfails.after hpass2 hreads2.ahead hreads2.ends⟩
  · rintro e s2 ⟨honly, hfails⟩
    exact ⟨honly.sameCall, hfails⟩

/-- The rest depends on what is held for the next call alone. -/
theorem Resting.congr {t : St} (h : Resting P s) (hresp : t.responsePacket = s.responsePacket)
    (hrem : t.chunkedResponseRemainingSize = s.chunkedResponseRemainingSize)
    (hinc : t.incoming = s.incoming) : Resting P t ∧ t.unread = s.unread := by
  constructor
  · constructor
    · show 0 < t.chunkedResponseRemainingSize → ∃ c, t.responsePacket = some c ∧ c.Full ∧
        c.length = t.chunkedResponseRemainingSize ∧ P.Fits c ∧
        ∀ rp, t.responsePacket = some rp → rp.head.ptr = c.head.ptr ∧ rp.next = c.next
      rw [hresp, hrem]
      exact h.current
    · show ∀ r, .ok r ∈ t.incoming → P.Fits r.chain
      rw [hinc]
      exact h.incoming
  · show (if t.chunkedResponseRemainingSize = 0 then [] else (t.responsePacket.map Chain.bytes).getD [])
      ++ incomingBytes t.incoming = _
    rw [hresp, hrem, hinc]
    rfl

theorem Within.of_data {out out' c : Chain} {k : Nat} (h : Within out c k)
    (hhead : out'.head.data = out.head.data) (hnext : out'.next = out.next) : Within out' c k := by
  obtain ⟨mid, hmid, hlen, hdrop⟩ := h.split
  refine ⟨mid, hnext.trans hmid, ?_, ?_⟩
  · rw [Chain.bytes_mk, hhead]
    exact hlen
  · rw [Chain.bytes_mk, hhead]
    exact hdrop

/-- What a call makes of the data of a chunk. -/
structure Chunk (P : Pool) (n : Nat) (s s' : St) : Prop where
  same : SameCall s s'
  resting : Resting P s'
  ends : endStatus s'.incoming = endStatus s.incoming
  packet : ∃ xs out, s'.packetPptr = some out ∧ s'.packetLength = out.length ∧ out.bytes ≠ [] ∧
    s.ahead = xs ++ s'.unread ∧ Machine.Passes chunked (.data n) xs out.bytes s'.phase

/-- Only a part of the chunk has come: all that is left of the packet. -/
theorem meets_partOfChunk {out : Chain} {k n : Nat}
    (hinc : ∀ r, .ok r ∈ s.incoming → P.Fits r.chain) (hout : s.packetPptr = some out)
    (hk : out.length = k) (hn : k < n) (hzero : s.chunkedResponseRemainingSize = 0) :
    Meets (finishChunk n k) s
      (fun status s' => status = nxSuccess ∧ SameCall s s' ∧ Resting P s' ∧
        s'.incoming = s.incoming ∧ s'.packetLength = k ∧ s'.unread = incomingBytes s.incoming ∧
        Machine.Passes chunked (.data n) out.bytes out.bytes s'.phase ∧
        ∃ kept, s'.packetPptr = some kept ∧ kept.bytes = out.bytes)
      (fun _ _ => False) := by
  subst hk
  refine (meets_finishChunk (holds_self hout le_rfl)).mono ?_ fun _ _ hfalse => hfalse
  rintro status s' ⟨hstatus, hsame, -, hrem, hinc', htotal, hactual, hlen, kept, hkept, hbytes⟩
  have hrem' : s'.chunkedResponseRemainingSize = 0 := hrem.trans hzero
  refine ⟨hstatus, hsame, ⟨fun hpos' => ?_, ?_⟩, hinc', hlen, ?_, ?_, kept, hkept, ?_⟩
  · have hpos2 : 0 < s'.chunkedResponseRemainingSize := hpos'
    omega
  · show ∀ r, .ok r ∈ s'.incoming → P.Fits r.chain
    rw [hinc']
    exact hinc
  · simp [St.unread, St.ahead, St.atRest, hrem', hinc']
  · have hdata := passes_data out.bytes (n := n) (by rw [Chain.length] at hn; omega)
    have hstart : afterData n = .data n := by rw [afterData, if_neg (by omega)]
    have hend : s'.phase = afterData (n - out.bytes.length) := by
      rw [Chain.length] at hn hactual
      rw [St.phase, htotal, hactual, if_pos hn, afterData, if_neg (by omega)]
    rw [hend, ← hstart]
    exact hdata
  · rw [hbytes]
    exact List.take_of_length_le le_rfl

/-- The whole chunk is there: its line end is read, and what follows is kept. -/
theorem meets_wholeChunk (hP : P.Serves) {out : Chain} {n : Nat} (h : Consistent P s)
    (hout : s.packetPptr = some out) (hn : n ≤ out.length) (hold : Old out n s) :
    Meets (do responseByteExpect cr; responseByteExpect lf; keepRest P; finishChunk n n) s
      (fun status s' => status = nxSuccess ∧ SameCall s s' ∧ Resting P s' ∧
        endStatus s'.incoming = endStatus s.incoming ∧ s'.packetLength = n ∧
        (∃ ys, s.ahead = ys ++ s'.unread ∧ Machine.Passes chunked .dataCr ys [] s'.phase) ∧
        ∃ kept, s'.packetPptr = some kept ∧ kept.bytes = out.bytes.take n)
      (fun e s' => SameCall s s' ∧ Fails .dataCr s e s') := by
  have hcr := expect_after cr .dataLf (Reads.refl h) (Machine.Passes.nil .dataCr)
    fun c => rfl
  refine .bind (hcr.mono ?_ fun e s2 ⟨honly, hfails⟩ => ⟨honly.sameCall, hfails⟩)
  rintro _ s2 ⟨xs, hreads2, hpass2⟩
  have hlf := expect_after lf (.size 0 false) hreads2 hpass2 fun c => rfl
  refine .bind (hlf.mono ?_ fun e s3 ⟨honly, hfails⟩ => ⟨honly.sameCall, hfails⟩)
  rintro _ s3 ⟨ys, hreads3, hpass3⟩
  have hout3 : s3.packetPptr = some out := hreads3.only.packetPptr.trans hout
  have hkeep := meets_keepRest hP hreads3.consistent hout3 (Nat.le_add_right n ys.length) hn
    (hreads3.old out n hold)
  refine .bind (hkeep.mono ?_ fun _ _ hfalse => hfalse.elim)
  rintro _ s4 ⟨hsame4, hrest4, hunread4, hinc4, hholds⟩
  refine (meets_finishChunk hholds).mono ?_ fun _ _ hfalse => hfalse.elim
  rintro status s5 ⟨hstatus, hsame5, hresp, hrem, hinc5, htotal, hactual, hlen, hkept⟩
  obtain ⟨hrest5, hunread5⟩ := hrest4.congr hresp hrem hinc5
  have hphase : s5.phase = .size 0 false := by
    rw [St.phase, htotal, hactual, if_neg (Nat.lt_irrefl n)]
  refine ⟨hstatus, (hreads3.only.sameCall.trans hsame4).trans hsame5, hrest5, ?_, hlen, ⟨ys, ?_, ?_⟩,
    hkept⟩
  · rw [hinc5, hinc4, hreads3.ends]
  · rw [hreads3.ahead, hunread5, hunread4]
  · rw [hphase]
    exact hpass3

/-- What comes of the data of a chunk whose size is known. -/
theorem meets_chunkData (hP : P.Serves) {n : Nat} (h : Consistent P s) (hheld : Held s)
    (hpos : 0 < s.chunkedResponseRemainingSize) (hn : n ≠ 0) :
    Meets (chunkData P n) s (fun status s' => status = nxSuccess ∧ Chunk P n s s')
      (fun e s' => SameCall s s' ∧ Fails (.data n) s e s') := by
  obtain ⟨c, hcur, hfull, hlen, hfits, hlink⟩ := h.current hpos
  obtain ⟨rp, hrp⟩ := Option.isSome_iff_exists.mp (hheld.resolve_right (by omega))
  obtain ⟨-, hnext⟩ := hlink rp hrp
  have hahead := St.ahead_of_pos hpos hcur
  -- the packet returned is the one the reader stands in, from the data pointer on
  let out : Chain := ⟨{ rp.head with data := c.head.data }, rp.next⟩
  have hbytes : out.bytes = c.bytes := by
    rw [Chain.bytes_mk, hnext]
    rfl
  have houtlen : out.length = s.chunkedResponseRemainingSize := by
    rw [Chain.length, hbytes]
    exact hlen
  have hstart : afterData n = .data n := by rw [afterData, if_neg hn]
  refine .bind_get (.bind_set ?_)
  rw [hrp]
  rw [hcur]
  refine .bind_modify ?_
  by_cases hall : n ≤ s.chunkedResponseRemainingSize
  · obtain ⟨c', hskip, hc', hfull', hfits', hwithin⟩ :=
      skip_spec c.head c.next (n := n) (by rw [← hlen] at hall; exact hall) hfull hfits
    rw [if_pos hall]
    rw [hskip]
    refine .bind_modify ?_
    let s2 : St := { s with
      packetPptr := some out
      responsePacket := none
      current := some c'
      chunkedResponseRemainingSize := s.chunkedResponseRemainingSize - n }
    have hlen' : c'.length = s.chunkedResponseRemainingSize - n := by
      rw [Chain.length, hc', List.length_drop, ← hlen]
      rfl
    have hsame2 : SameCall s s2 := rfl
    have h2 : Consistent P s2 :=
      ⟨fun _ => ⟨c', rfl, hfull', hlen', hfits', fun rp' hrp' => by cases hrp'⟩, h.incoming⟩
    have hold2 : Old out n s2 := fun _ _ => ⟨c', rfl, hwithin.of_data rfl hnext⟩
    have hahead2 : s.ahead = c.bytes.take n ++ s2.ahead := by
      have hrest : s2.ahead = c'.bytes ++ incomingBytes s.incoming := by
        rcases Nat.eq_zero_or_pos s2.chunkedResponseRemainingSize with hzero | hpos2
        · have hnil : c'.bytes = [] := List.length_eq_zero_iff.mp (hlen'.trans hzero)
          rw [St.ahead, if_pos hzero, hnil]
        · exact St.ahead_of_pos hpos2 rfl
      rw [hahead, hrest, hc', ← List.append_assoc, Chain.bytes, List.take_append_drop]
    have htake : (c.bytes.take n).length = n := by
      rw [List.length_take]
      rw [← hlen, Chain.length] at hall
      omega
    have hdata : Machine.Passes chunked (.data n) (c.bytes.take n) (c.bytes.take n) .dataCr := by
      have hpass := passes_data (c.bytes.take n) (n := n) (by omega)
      rwa [htake, Nat.sub_self, hstart] at hpass
    refine (meets_wholeChunk (s := s2) hP h2 rfl (by omega) hold2).mono ?_ ?_
    · rintro status s' ⟨hstatus, hsame, hrest, hends, hplen, ⟨ys, hys, hpass⟩, kept, hkept, hkbytes⟩
      rw [hbytes] at hkbytes
      refine ⟨hstatus, hsame2.trans hsame, hrest, hends, c.bytes.take n ++ ys, kept, hkept, ?_,
        ?_, ?_, ?_⟩
      · rw [hplen, Chain.length, hkbytes, htake]
      · rw [hkbytes]
        intro hnil
        rw [hnil] at htake
        exact hn htake.symm
      · rw [hahead2, hys, List.append_assoc]
      · rw [hkbytes]
        have hboth := hdata.trans hpass
        rwa [List.append_nil] at hboth
    · rintro e s' ⟨hsame, hfails⟩
      exact ⟨hsame2.trans hsame, hfails.after hdata hahead2 rfl⟩
  · rw [if_neg hall]
    refine .bind_modify ?_
    let s2 : St := { s with
      packetPptr := some out
      responsePacket := none
      current := some c
      chunkedResponseRemainingSize := 0 }
    have hsame2 : SameCall s s2 := rfl
    have hpart := meets_partOfChunk (s := s2) (n := n) h.incoming rfl houtlen (by omega) rfl
    refine hpart.mono ?_ fun _ _ hfalse => hfalse.elim
    rintro status s' ⟨hstatus, hsame, hrest, hinc, hplen, hunread, hpass, kept, hkept, hkbytes⟩
    refine ⟨hstatus, ?_, hrest, ?_, out.bytes, kept, hkept, ?_, ?_, ?_, ?_⟩
    · exact hsame2.trans hsame
    · rw [hinc]
    · rw [hplen, ← houtlen, Chain.length, Chain.length, hkbytes]
    · rw [hkbytes]
      intro hnil
      rw [Chain.length, hnil] at houtlen
      simp at houtlen
      omega
    · rw [hahead, hunread, hbytes]
    · rw [hkbytes]
      exact hpass

/-- A call on a chunked response takes the coding over the next stretch of the bytes ahead, and
fails where the coding does. -/
theorem meets_responseChunkedGet (hP : P.Serves) (h : Resting P s) :
    Meets (responseChunkedGet P) s
      (fun status s' => (status = nxSuccess ∧ Delivers P s s') ∨
        (status = nxWebHttpGetDone ∧ SameCall s s' ∧ s'.packetLength = 0 ∧ s'.packetPptr.isSome ∧
          ∃ rest, chunked.run s.phase s.unread = ([], .stopped .done rest)))
      (fun e s' => SameCall s s' ∧ Fails s.phase s.atRest e s') := by
  have hsame0 : SameCall s s.atRest := rfl
  have hheld := held_atRest s h
  refine .bind_modify (.bind ((scans_chunkedSizeGet h).mono ?_ fun e s1 ⟨honly, hfails⟩ =>
    ⟨hsame0.trans honly.sameCall, hfails⟩))
  rintro n s1 ⟨xs, hreads, hpass, hpos⟩
  have hsame1 : SameCall s s1 := hsame0.trans hreads.only.sameCall
  by_cases hzero : n = 0
  · rw [if_pos hzero]
    rw [hzero] at hpass
    refine (meets_lastChunk hreads hpass hheld).mono ?_ ?_
    · rintro status s2 ⟨hstatus, hsame2, hlen, hsome, hdone⟩
      exact .inr ⟨hstatus, hsame0.trans hsame2, hlen, hsome, hdone⟩
    · rintro e s2 ⟨hsame2, hfails⟩
      exact ⟨hsame0.trans hsame2, hfails⟩
  · have hphase : afterSize n = .data n := by rw [afterSize, if_neg hzero]
    rw [hphase] at hpass
    rw [if_neg hzero]
    refine (meets_chunkData hP hreads.consistent (hreads.held hheld).1 hpos hzero).mono ?_ ?_
    · rintro status s2 ⟨hstatus, hchunk⟩
      obtain ⟨ys, out, hout, hlen, hne, hahead, hpass2⟩ := hchunk.packet
      refine .inl ⟨hstatus, hsame1.trans hchunk.same, hchunk.resting, ?_, xs ++ ys, out, hout, hlen, hne,
        ?_, hpass.trans hpass2⟩
      · exact hchunk.ends.trans hreads.ends
      · rw [St.unread, hreads.ahead, hahead, List.append_assoc]
    · rintro e s2 ⟨hsame2, hfails⟩
      exact ⟨hsame1.trans hsame2, hfails.after hpass hreads.ahead hreads.ends⟩

end Iotc.Http
