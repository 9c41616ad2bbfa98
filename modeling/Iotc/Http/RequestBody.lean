import Iotc.Http.RequestText

/-!
# The chunked body of a request

A chunk goes out in one packet or in several: the first has its size in front, and behind the last
byte the client puts the line end, and the last chunk when there is no more. What the server gets is
the text of a `ChunkedBody` (`meets_sendBody`).
-/

namespace Iotc.Http

open Iotc.C Iotc.Web Iotc.Lib

/-! ## The size of a chunk -/

theorem value_hexDigit {d : Nat} (h : d < 16) :
    Hex.value (if d < 10 then .ofNat (d + 0x30) else .ofNat (d - 10 + 0x61)) = some (.ofNat d) := by
  have hall : ∀ d : Fin 16, Hex.value (if d.val < 10 then .ofNat (d.val + 0x30)
      else .ofNat (d.val - 10 + 0x61)) = some (.ofNat d.val) := by
    decide +kernel
  exact hall ⟨d, h⟩

theorem hexDigits_spec (places : Nat) {n : Nat} (hn : n < 16 ^ places) (hlt : n < 4294967296)
    (string : List UInt8) (hstring : ∀ c ∈ string, (Hex.value c).isSome) :
    sizeFrom 0 (hexDigits places n string) = sizeFrom n string ∧
      ∀ c ∈ hexDigits places n string, (Hex.value c).isSome := by
  induction places generalizing n string with
  | zero =>
    obtain rfl : n = 0 := by simpa using hn
    exact ⟨rfl, hstring⟩
  | succ places ih =>
    rw [hexDigits]
    split
    · next hzero =>
      rw [hzero]
      exact ⟨rfl, hstring⟩
    · have hlow : n &&& 0x0F = n % 16 := Nat.and_two_pow_sub_one_eq_mod n 4
      have hhigh : n >>> 4 = n / 16 := Nat.shiftRight_eq_div_pow n 4
      have hdigit := value_hexDigit (d := n % 16) (Nat.mod_lt _ (by decide))
      simp only [hlow, hhigh]
      obtain ⟨hsize, hall⟩ := ih (n := n / 16) (by rw [Nat.pow_succ] at hn; omega) (by omega)
        ((if n % 16 < 10 then .ofNat (n % 16 + 0x30)
          else .ofNat (n % 16 - 10 + 0x61)) :: string)
        (fun c hc => by
          rcases List.mem_cons.mp hc with rfl | hc
          · rw [hdigit]
            rfl
          · exact hstring c hc)
      refine ⟨?_, hall⟩
      have hdigitNat : (UInt8.ofNat (n % 16)).toNat = n % 16 :=
        UInt8.toNat_ofNat_of_lt' (Nat.lt_trans (Nat.mod_lt n (by decide)) (by decide))
      have hwhole : u32 (16 * (n / 16) + n % 16) = n := by
        rw [Nat.div_add_mod, u32_of_lt hlt]
      rw [hsize, sizeFrom_cons hdigit, hdigitNat, hwhole]

theorem chunkDigits_spec (size : UINT) : sizeFrom 0 (chunkDigits size) = size.toNat ∧
    (∀ c ∈ chunkDigits size, (Hex.value c).isSome) ∧ chunkDigits size ≠ [] := by
  have hlt := size.toNat_lt
  obtain ⟨hsize, hall⟩ := hexDigits_spec 8 (n := size.toNat) (by omega) (by omega) []
    fun c hc => absurd hc List.not_mem_nil
  unfold chunkDigits
  split
  · next hnil =>
    rw [hnil] at hsize
    exact ⟨hsize, by decide, by decide⟩
  · next digits hne => exact ⟨hsize, hall, fun h => hne h⟩

theorem length_chunkDigits (size : UINT) : (chunkDigits size).length ≤ 8 := by
  have hgen : ∀ places n string, (hexDigits places n string).length ≤ places + string.length := by
    intro places
    induction places with
    | zero => exact fun n string => by rw [hexDigits]; omega
    | succ places ih =>
      intro n string
      rw [hexDigits]
      split
      · omega
      · refine (ih _ _).trans ?_
        rw [List.length_cons]
        omega
  have h := hgen 8 size.toNat []
  unfold chunkDigits
  split
  · decide
  · exact h

/-- The size line a chunk is sent with. -/
def chunkLine (size : UINT) : SizeLine :=
  ⟨chunkDigits size, none, (chunkDigits_spec size).2.1, by simp⟩

theorem chunkLine_size (size : UINT) : (chunkLine size).size = size.toNat := (chunkDigits_spec size).1

theorem chunkLine_text (size : UINT) : (chunkLine size).text = chunkDigits size ++ crlf := by
  simp [SizeLine.text, SizeLine.extensionText, chunkLine]

/-! ## One packet -/

/-- A server that accepts everything. -/
def AllAccepted (s : St) : Prop := ∀ e, .error e ∉ s.sending

def sentBytes (s : St) : List UInt8 := s.sent.flatMap Chain.bytes

/-- Within a chunk of which `left` bytes, its head counted, are still to be sent. -/
structure InChunk (left : Nat) (s : St) : Prop where
  chunked : s.requestChunked = true
  le : s.actualBytesTransferred + left = s.totalTransferBytes
  total_lt : s.totalTransferBytes < 4294967296
  accepted : AllAccepted s

/-- What the client puts behind a chunk. -/
def chunkEnd (moreData : Bool) : List UInt8 := crlf ++ if moreData then [] else cstr "0\r\n\r\n"

variable {P : Pool} {s s' : St}

theorem AllAccepted.accepts (h : AllAccepted s) : Accepts s :=
  fun e he => h e (List.mem_of_mem_head? he)

theorem meets_placeIn (hP : P.Serves) (c : Chain) {xs : List UInt8} (hne : xs ≠ []) (s : St) :
    Meets (placeIn P c xs) s (fun c' s' => c'.bytes = c.bytes ++ xs ∧
      s' = { s with allocated := s'.allocated }) (fun _ _ => False) := by
  obtain ⟨more, hmore, hrun⟩ := nxPacketDataAppend_eq hP (c := c) (fun _ => hne) s
  exact .bind (.of_ok (attempt_ok hrun) (.pure ⟨bytes_extend hmore, rfl⟩))

theorem meets_endChunk (hP : P.Serves) (c : Chain) (moreData : Bool) (s : St) :
    Meets (endChunk P c moreData) s (fun c' s' => c'.bytes = c.bytes ++ chunkEnd moreData ∧
      s' = { s with
        allocated := s'.allocated
        requestChunked := if moreData then s.requestChunked else false }) (fun _ _ => False) := by
  refine .seq (meets_placeIn hP c (by decide) s) ?_
  rintro c1 s1 ⟨hbytes1, hs1⟩
  cases moreData with
  | true =>
    refine .pure ⟨hbytes1, ?_⟩
    rw [hs1]
    rfl
  | false =>
    refine .seq (meets_placeIn hP c1 (by decide) s1) ?_
    rintro c2 s2 ⟨hbytes2, hs2⟩
    refine .bind_modify (.pure ⟨?_, ?_⟩)
    · rw [hbytes2, hbytes1, List.append_assoc]
      rfl
    · rw [hs2, hs1]
      rfl

/-- A packet of a chunk is sent; behind the last one the chunk ends. -/
theorem meets_requestPacketSend (hP : P.Serves) {left : Nat} (h : InChunk left s) {packet : Chain}
    (hle : packet.length ≤ left) (moreData : Bool) :
    Meets (requestPacketSend P packet moreData) s
      (fun status s' => status = nxSuccess ∧
        ((packet.length < left ∧ sentBytes s' = sentBytes s ++ packet.bytes ∧
            InChunk (left - packet.length) s') ∨
          (packet.length = left ∧ sentBytes s' = sentBytes s ++ packet.bytes ++ chunkEnd moreData ∧
            AllAccepted s')))
      (fun _ _ => False) := by
  have hsum : u32 (s.actualBytesTransferred + packet.length) =
      s.actualBytesTransferred + packet.length := by
    have := h.le
    have := h.total_lt
    exact u32_of_lt (by omega)
  have hfits : ¬ s.totalTransferBytes < s.actualBytesTransferred + packet.length := by
    have := h.le
    omega
  refine .bind_get ?_
  simp only [hsum]
  rw [if_neg hfits]
  by_cases hlast : s.totalTransferBytes = s.actualBytesTransferred + packet.length
  · rw [if_pos ⟨h.chunked, hlast⟩]
    refine .seq (meets_endChunk hP packet moreData s) ?_
    rintro c s1 ⟨hbytes, hs1⟩
    have hsending : s1.sending = s.sending := by rw [hs1]
    have hsent : s1.sent = s.sent := by rw [hs1]
    have haccepted : AllAccepted s1 := fun e he => h.accepted e (hsending ▸ he)
    refine .bind (.of_ok (attempt_ok (send_ok haccepted.accepts c)) (.bind_modify (.pure ⟨rfl, .inr ?_⟩)))
    refine ⟨by have := h.le; omega, ?_, fun e he => haccepted e (List.mem_of_mem_tail he)⟩
    show (s1.sent ++ [c]).flatMap Chain.bytes = _
    rw [List.flatMap_append, List.flatMap_singleton, hbytes, hsent, List.append_assoc]
    rfl
  · rw [if_neg fun hboth => hlast hboth.2]
    refine .bind (.pure (.bind (.of_ok (attempt_ok (send_ok h.accepted.accepts packet))
      (.bind_modify (.pure ⟨rfl, .inl ?_⟩)))))
    have hless : packet.length < left := by
      have := h.le
      omega
    refine ⟨hless, ?_, h.chunked, ?_, h.total_lt, fun e he => h.accepted e (List.mem_of_mem_tail he)⟩
    · show (s.sent ++ [packet]).flatMap Chain.bytes = _
      rw [List.flatMap_append, List.flatMap_singleton]
      rfl
    · show u32 (s.actualBytesTransferred + packet.length) + (left - packet.length) = s.totalTransferBytes
      have := h.le
      rw [hsum]
      omega

/-! ## One chunk -/

/-- A piece of a body, in a packet of its own. -/
def sendPiece (P : Pool) (piece : List UInt8) (moreData : Bool) : M UINT := do
  let packet ← requestPacketAllocate P
  let packet ← nxPacketDataAppend P packet piece
  requestPacketSend P packet moreData

def sendPieces (P : Pool) (moreData : Bool) : List (List UInt8) → M UINT
  | [] => return nxSuccess
  | piece :: pieces => do
    let status ← sendPiece P piece moreData
    if status ≠ nxSuccess then
      return status
    sendPieces P moreData pieces

/-- A chunk in pieces, none of them empty, of a size that can be counted. -/
structure OutChunk where
  first : List UInt8
  others : List (List UInt8)
  first_ne : first ≠ []
  others_ne : ∀ piece ∈ others, piece ≠ []
  length_lt : (first ++ others.flatten).length + 10 < 4294967296

def OutChunk.data (c : OutChunk) : List UInt8 := c.first ++ c.others.flatten

def OutChunk.size (c : OutChunk) : UINT := .ofNat c.data.length

/-- The calls for a chunk. -/
def sendChunk (P : Pool) (c : OutChunk) (moreData : Bool) : M UINT := do
  let packet ← requestPacketAllocate P
  let packet ← requestChunkedSet P c.size packet
  let packet ← nxPacketDataAppend P packet c.first
  let status ← requestPacketSend P packet moreData
  if status ≠ nxSuccess then
    return status
  sendPieces P moreData c.others

theorem meets_newPacket (hP : P.Serves) (s : St) :
    Meets (requestPacketAllocate P) s
      (fun c s' => c.bytes = [] ∧ s' = { s with allocated := s'.allocated }) (fun _ _ => False) := by
  obtain ⟨ptr, hptr⟩ := hP.allocates s.allocated
  exact .bind (.of_ok (nxPacketAllocate_eq hptr) (.pure ⟨rfl, rfl⟩))

theorem meets_append (hP : P.Serves) (c : Chain) {xs : List UInt8} (hne : xs ≠ []) (s : St) :
    Meets (nxPacketDataAppend P c xs) s
      (fun c' s' => c'.bytes = c.bytes ++ xs ∧ s' = { s with allocated := s'.allocated })
      (fun _ _ => False) := by
  obtain ⟨more, hmore, hrun⟩ := nxPacketDataAppend_eq hP (c := c) (fun _ => hne) s
  exact .of_ok hrun ⟨bytes_extend hmore, rfl⟩

/-- Allocating changes nothing a chunk depends on. -/
theorem InChunk.congr {left : Nat} (h : InChunk left s) (hs : s' = { s with allocated := s'.allocated }) :
    InChunk left s' ∧ sentBytes s' = sentBytes s := by
  rw [hs]
  exact ⟨⟨h.chunked, h.le, h.total_lt, h.accepted⟩, rfl⟩

theorem meets_sendPiece (hP : P.Serves) {left : Nat} (h : InChunk left s) {piece : List UInt8}
    (hne : piece ≠ []) (hle : piece.length ≤ left) (moreData : Bool) :
    Meets (sendPiece P piece moreData) s
      (fun status s' => status = nxSuccess ∧
        ((piece.length < left ∧ sentBytes s' = sentBytes s ++ piece ∧ InChunk (left - piece.length) s') ∨
          (piece.length = left ∧ sentBytes s' = sentBytes s ++ piece ++ chunkEnd moreData ∧
            AllAccepted s')))
      (fun _ _ => False) := by
  refine .seq (meets_newPacket hP s) ?_
  rintro c s1 ⟨hnil, hs1⟩
  obtain ⟨h1, hsent1⟩ := h.congr hs1
  refine .seq (meets_append hP c hne s1) ?_
  rintro c' s2 ⟨hbytes, hs2⟩
  obtain ⟨h2, hsent2⟩ := h1.congr hs2
  rw [hnil, List.nil_append] at hbytes
  have hlen : c'.length = piece.length := by rw [Chain.length, hbytes]
  have hsend := meets_requestPacketSend hP h2 (by rw [hlen]; exact hle) moreData
  rwa [hlen, hbytes, hsent2, hsent1] at hsend

/-- The rest of a chunk, when its pieces make it up. -/
theorem meets_sendPieces (hP : P.Serves) (moreData : Bool) (pieces : List (List UInt8))
    (hne : ∀ piece ∈ pieces, piece ≠ []) (left : Nat) (hleft : pieces.flatten.length = left)
    (hpos : pieces ≠ []) (h : InChunk left s) :
    Meets (sendPieces P moreData pieces) s
      (fun status s' => status = nxSuccess ∧
        sentBytes s' = sentBytes s ++ pieces.flatten ++ chunkEnd moreData ∧ AllAccepted s')
      (fun _ _ => False) := by
  induction pieces generalizing s left with
  | nil => exact absurd rfl hpos
  | cons piece pieces ih =>
    rw [List.flatten_cons, List.length_append] at hleft
    refine .seq (meets_sendPiece hP h (hne piece List.mem_cons_self) (by omega) moreData) ?_
    rintro status s1 ⟨rfl, hcase⟩
    rw [if_neg (by decide)]
    rcases hcase with ⟨hless, hsent, h1⟩ | ⟨heq, hsent, hacc⟩
    · have hmore : pieces ≠ [] := by
        rintro rfl
        simp at hleft
        omega
      refine (ih (fun p hp => hne p (List.mem_cons_of_mem _ hp)) (left - piece.length)
        (by omega) hmore h1).mono ?_ fun _ _ => id
      rintro status s2 ⟨rfl, hsent2, hacc2⟩
      refine ⟨rfl, ?_, hacc2⟩
      rw [hsent2, hsent, List.flatten_cons, List.append_assoc (sentBytes s)]
    · have hnone : pieces = [] := by
        cases pieces with
        | nil => rfl
        | cons p ps =>
          have hp := List.length_pos_iff.mpr (hne p (List.mem_cons_of_mem _ List.mem_cons_self))
          rw [List.flatten_cons, List.length_append] at hleft
          omega
      subst hnone
      refine .pure ⟨rfl, ?_, hacc⟩
      rw [hsent, List.flatten_cons, List.flatten_nil, List.append_nil]

/-- The head of a chunk: the client counts it with the data. -/
theorem meets_requestChunkedSet (hP : P.Serves) (size : UINT) {c : Chain} (hnil : c.bytes = [])
    (hlt : size.toNat + 10 < 4294967296) (hacc : AllAccepted s) :
    Meets (requestChunkedSet P size c) s
      (fun c' s' => c'.bytes = (chunkLine size).text ∧ sentBytes s' = sentBytes s ∧
        InChunk ((chunkLine size).text.length + size.toNat) s')
      (fun _ _ => False) := by
  have hdigits := length_chunkDigits size
  refine .seq (meets_append hP c (chunkDigits_spec size).2.2 s) ?_
  rintro c1 s1 ⟨hbytes1, hs1⟩
  refine .seq (meets_append hP c1 (show crlf ≠ [] by decide) s1) ?_
  rintro c2 s2 ⟨hbytes2, hs2⟩
  have hlen : (chunkLine size).text.length = (chunkDigits size).length + 2 := by
    rw [chunkLine_text, List.length_append]
    rfl
  have htotal : u32 (size.toNat + (chunkDigits size).length + 2) =
      size.toNat + (chunkDigits size).length + 2 := u32_of_lt (by omega)
  refine .bind_modify (.pure ⟨?_, ?_, rfl, ?_, ?_, ?_⟩)
  · rw [hbytes2, hbytes1, hnil, chunkLine_text]
    rfl
  · rw [hs2, hs1]
    rfl
  · show 0 + _ = u32 (size.toNat + (chunkDigits size).length + 2)
    rw [htotal, hlen]
    omega
  · show u32 (size.toNat + (chunkDigits size).length + 2) < _
    exact u32_lt _
  · show ∀ e, .error e ∉ s2.sending
    rw [hs2, hs1]
    exact hacc

theorem OutChunk.size_toNat (c : OutChunk) : c.size.toNat = c.data.length := by
  have hlt : c.data.length < 4294967296 := by
    have := c.length_lt
    unfold OutChunk.data
    omega
  exact UInt32.toNat_ofNat_of_lt' hlt

/-- A chunk goes out as it is written, with the end of the body behind it when it is the last. -/
theorem meets_sendChunk (hP : P.Serves) (c : OutChunk) (moreData : Bool) (hacc : AllAccepted s) :
    Meets (sendChunk P c moreData) s
      (fun status s' => status = nxSuccess ∧ AllAccepted s' ∧
        sentBytes s' = sentBytes s ++ ((chunkLine c.size).text ++ c.data ++ chunkEnd moreData))
      (fun _ _ => False) := by
  have hsize := c.size_toNat
  have hdata : c.data.length = c.first.length + c.others.flatten.length := List.length_append
  have hlt : c.size.toNat + 10 < 4294967296 := by
    rw [hsize]
    exact c.length_lt
  refine .seq (meets_newPacket hP s) ?_
  rintro p s1 ⟨hnil, hs1⟩
  have hacc1 : AllAccepted s1 := by
    rw [hs1]
    exact hacc
  have hsent1 : sentBytes s1 = sentBytes s := by rw [hs1]; rfl
  refine .seq (meets_requestChunkedSet hP c.size hnil hlt hacc1) ?_
  rintro p2 s2 ⟨hbytes2, hsent2, h2⟩
  refine .seq (meets_append hP p2 c.first_ne s2) ?_
  rintro p3 s3 ⟨hbytes3, hs3⟩
  obtain ⟨h3, hsent3⟩ := h2.congr hs3
  have hlen : p3.length = (chunkLine c.size).text.length + c.first.length := by
    rw [Chain.length, hbytes3, List.length_append, hbytes2]
  refine .seq (meets_requestPacketSend hP h3 (by omega) moreData) ?_
  rintro status s4 ⟨rfl, hcase⟩
  rw [if_neg (by decide)]
  rcases hcase with ⟨hless, hsent4, h4⟩ | ⟨heq, hsent4, hacc4⟩
  · have hmore : c.others ≠ [] := by
      intro hnone
      rw [hnone, List.flatten_nil, List.length_nil] at hdata
      omega
    refine (meets_sendPieces hP moreData c.others c.others_ne _ (by omega) hmore h4).mono ?_ fun _ _ => id
    rintro status s5 ⟨rfl, hsent5, hacc5⟩
    refine ⟨rfl, hacc5, ?_⟩
    rw [hsent5, hsent4, hbytes3, hbytes2, hsent3, hsent2, hsent1, OutChunk.data]
    simp only [List.append_assoc]
  · have hnone : c.others = [] := by
      cases hothers : c.others with
      | nil => rfl
      | cons q qs =>
        have hq := List.length_pos_iff.mpr (c.others_ne q (hothers ▸ List.mem_cons_self))
        rw [hothers, List.flatten_cons, List.length_append] at hdata
        omega
    rw [hnone]
    refine .pure ⟨rfl, hacc4, ?_⟩
    rw [hsent4, hbytes3, hbytes2, hsent3, hsent2, hsent1, OutChunk.data, hnone]
    simp only [List.append_assoc, List.flatten_nil, List.append_nil]

/-! ## A whole body -/

/-- The calls for a body: there is more behind every chunk but the last. -/
def sendBody (P : Pool) : List OutChunk → OutChunk → M UINT
  | [], last => sendChunk P last false
  | c :: chunks, last => do
    let status ← sendChunk P c true
    if status ≠ nxSuccess then
      return status
    sendBody P chunks last

def OutChunk.written (c : OutChunk) : BodyChunk where
  line := chunkLine c.size
  data := c.data
  data_ne := List.append_ne_nil_of_left_ne_nil c.first_ne _
  size_eq := by rw [chunkLine_size, c.size_toNat]

/-- The chunks as they are written, and the last one, which is empty. -/
def writtenBody (chunks : List OutChunk) : ChunkedBody where
  chunks := chunks.map OutChunk.written
  last := ⟨[0x30], none, by decide, by simp⟩
  last_zero := rfl

theorem writtenBody_text (chunks : List OutChunk) :
    (writtenBody chunks).text = chunks.flatMap (fun c => c.written.text) ++ cstr "0\r\n\r\n" := by
  have hlast : (writtenBody chunks).last.text ++ crlf = cstr "0\r\n\r\n" := rfl
  rw [ChunkedBody.text, List.append_assoc, hlast]
  simp [writtenBody, List.flatMap_map]

/-- The server gets the text of the chunked body that was sent, and reads its data from it. -/
theorem meets_sendBody (hP : P.Serves) (chunks : List OutChunk) (last : OutChunk)
    (hacc : AllAccepted s) :
    Meets (sendBody P chunks last) s
      (fun status s' => status = nxSuccess ∧
        sentBytes s' = sentBytes s ++ (writtenBody (chunks ++ [last])).text)
      (fun _ _ => False) := by
  induction chunks generalizing s with
  | nil =>
    refine (meets_sendChunk hP last false hacc).mono ?_ fun _ _ => id
    rintro status s' ⟨rfl, -, hsent⟩
    refine ⟨rfl, ?_⟩
    rw [hsent, writtenBody_text, List.nil_append, List.flatMap_singleton]
    simp [OutChunk.written, BodyChunk.text, chunkEnd]
  | cons c chunks ih =>
    refine .seq (meets_sendChunk hP c true hacc) ?_
    rintro status s1 ⟨rfl, hacc1, hsent1⟩
    rw [if_neg (by decide)]
    refine (ih hacc1).mono ?_ fun _ _ => id
    rintro status s2 ⟨rfl, hsent2⟩
    refine ⟨rfl, ?_⟩
    rw [hsent2, hsent1, writtenBody_text, writtenBody_text, List.cons_append, List.flatMap_cons]
    simp [OutChunk.written, BodyChunk.text, chunkEnd]

/-- The body of a request with a length, `sent` bytes of which the server has got. -/
structure Transfer (sent : List UInt8) (s : St) : Prop where
  plain : s.requestChunked = false
  bytes : sentBytes s = sent
  le : s.actualBytesTransferred ≤ s.totalTransferBytes
  total_lt : s.totalTransferBytes < 4294967296

theorem send_cases (c : Chain) (s : St) :
    send c s = .ok () { s with sending := s.sending.tail, sent := s.sent ++ [c] } ∨
      ∃ e : Failure, send c s = .error (.status e.status) { s with sending := s.sending.tail } := by
  by_cases haccepts : Accepts s
  · exact .inl (send_ok haccepts c)
  · unfold Accepts at haccepts
    rw [not_forall_not] at haccepts
    obtain ⟨e, he⟩ := haccepts
    refine .inr ⟨e, ?_⟩
    unfold send
    rw [bind_get_eq, he]
    rfl

/-- A packet of a body with a length is sent as it is, or nothing is. -/
theorem meets_plainPacketSend {sent : List UInt8} (h : Transfer sent s) {packet : Chain}
    (hlen : packet.length + s.totalTransferBytes < 4294967296) (moreData : Bool) :
    Meets (requestPacketSend P packet moreData) s
      (fun status s' => s'.totalTransferBytes = s.totalTransferBytes ∧
        ((status = nxSuccess ∧ Transfer (sent ++ packet.bytes) s' ∧
            s'.actualBytesTransferred = s.actualBytesTransferred + packet.length) ∨
          (status ≠ nxSuccess ∧ Transfer sent s' ∧
            s'.actualBytesTransferred = s.actualBytesTransferred)))
      (fun _ _ => False) := by
  have hle := h.le
  have hsum : u32 (s.actualBytesTransferred + packet.length) =
      s.actualBytesTransferred + packet.length := u32_of_lt (by omega)
  refine .bind_get ?_
  simp only [hsum]
  refine .ite (fun _ => .pure ⟨rfl, .inr ⟨by decide, h, rfl⟩⟩) fun hfits => ?_
  rw [if_neg (by simp [h.plain])]
  refine .bind (.pure ?_)
  rcases send_cases packet s with hsend | ⟨e, hsend⟩
  · refine .bind (.of_ok (attempt_ok hsend) (.bind_modify (.pure ⟨rfl, .inl ⟨rfl, ⟨h.plain, ?_, ?_, ?_⟩, ?_⟩⟩)))
    · show (s.sent ++ [packet]).flatMap Chain.bytes = _
      rw [List.flatMap_append, List.flatMap_singleton, ← h.bytes]
      rfl
    · show u32 (s.actualBytesTransferred + packet.length) ≤ s.totalTransferBytes
      omega
    · exact h.total_lt
    · exact hsum
  · refine .bind (.of_ok (attempt_status hsend) (.bind_modify (.bind_modify (.pure ⟨rfl, .inr ⟨e.err.1, ?_, rfl⟩⟩))))
    exact ⟨h.plain, h.bytes, h.le, h.total_lt⟩

/-- The calls for the packets of a body, whatever becomes of each of them. -/
def sendPackets (P : Pool) : List (Chain × Bool) → M Unit
  | [] => return ()
  | (packet, moreData) :: packets => do
    let _ ← requestPacketSend P packet moreData
    sendPackets P packets

theorem meets_sendPackets (packets : List (Chain × Bool)) {sent : List UInt8} (h : Transfer sent s)
    (hlen : ∀ p ∈ packets, p.1.length + s.totalTransferBytes < 4294967296) :
    Meets (sendPackets P packets) s
      (fun _ s' => ∃ accepted : List Chain, accepted.Sublist (packets.map (·.1)) ∧
        Transfer (sent ++ accepted.flatMap Chain.bytes) s' ∧
        s'.totalTransferBytes = s.totalTransferBytes ∧
        s'.actualBytesTransferred = s.actualBytesTransferred + (accepted.flatMap Chain.bytes).length)
      (fun _ _ => False) := by
  induction packets generalizing s sent with
  | nil => exact .pure ⟨[], .slnil, by simpa using h, rfl, rfl⟩
  | cons p packets ih =>
    obtain ⟨packet, moreData⟩ := p
    refine .seq (meets_plainPacketSend h (hlen _ List.mem_cons_self) moreData) ?_
    rintro status s1 ⟨htotal, hcase⟩
    have hlen1 : ∀ p ∈ packets, p.1.length + s1.totalTransferBytes < 4294967296 := by
      rw [htotal]
      exact fun p hp => hlen p (List.mem_cons_of_mem _ hp)
    rcases hcase with ⟨-, h1, hactual⟩ | ⟨-, h1, hactual⟩
    · refine (ih h1 hlen1).mono ?_ fun _ _ => id
      rintro _ s2 ⟨accepted, hsub, h2, htotal2, hactual2⟩
      refine ⟨packet :: accepted, hsub.cons_cons _, ?_, htotal2.trans htotal, ?_⟩
      · rwa [List.flatMap_cons, ← List.append_assoc]
      · rw [hactual2, hactual, List.flatMap_cons, List.length_append, Nat.add_assoc]
        rfl
    · refine (ih h1 hlen1).mono ?_ fun _ _ => id
      rintro _ s2 ⟨accepted, hsub, h2, htotal2, hactual2⟩
      exact ⟨accepted, hsub.cons _, h2, htotal2.trans htotal, by rw [hactual2, hactual]⟩

end Iotc.Http
