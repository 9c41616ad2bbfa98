import Iotc.Http.Body
import Iotc.Http.HeaderCut

/-!
# The first call for a body

A response that arrives is a `Head` in full with a body behind it, cut into packets anyhow, but for
what the client needs of the first one: the header has to find room in it (`Arrives`). The first
call takes the header off (`meets_firstPacket`).
-/

namespace Iotc.Http

open Iotc.C Iotc.Web Iotc.Lib

/-! ## The end of a header -/

theorem crlfStep_clean {b : UInt8} (h : b ≠ 13 ∧ b ≠ 10) (k : Nat) : crlfStep k b = 0 := by
  rw [crlfStep, if_neg (fun hcr => h.1 hcr.2), if_neg (fun hlf => h.2 hlf.2)]

theorem scanBlank_clean {line : List UInt8} (hclean : Clean line) (hne : line ≠ []) (k : Nat)
    (ys : List UInt8) : scanBlank k (line ++ ys) = scanBlank 0 ys := by
  induction line generalizing k with
  | nil => exact absurd rfl hne
  | cons b line ih =>
    have hstep := crlfStep_clean (hclean b List.mem_cons_self) k
    rw [List.cons_append, scanBlank, hstep, if_neg (by decide)]
    cases line with
    | nil => rfl
    | cons c line => exact ih (fun d hd => hclean d (List.mem_cons_of_mem _ hd)) (by simp) 0

theorem scanBlank_line {line : List UInt8} (hclean : Clean line) (hne : line ≠ []) (k : Nat)
    (ys : List UInt8) : scanBlank k (line ++ (crlf ++ ys)) = scanBlank 2 ys := by
  rw [scanBlank_clean hclean hne]
  rfl

theorem scanBlank_fields (fields : List Field) (ys : List UInt8) :
    scanBlank 2 (fields.flatMap Field.text ++ ys) = scanBlank 2 ys := by
  induction fields with
  | nil => rfl
  | cons f fields ih =>
    have hclean : Clean (f.name ++ [0x3A, 0x20] ++ f.value) := by
      intro b hb
      simp only [List.mem_append, List.mem_cons, List.not_mem_nil, or_false] at hb
      rcases hb with (hb | rfl | rfl) | hb
      · exact ⟨(f.name_ok b hb).2.1, (f.name_ok b hb).2.2.1⟩
      · decide
      · decide
      · exact f.value_ok b hb
    rw [List.flatMap_cons, Field.text, List.append_assoc, List.append_assoc,
      scanBlank_line hclean (by simp), ih]

/-- Up to its last byte a header does not end, and then it does. -/
theorem scanBlank_text (h : Head) : ∃ front, h.text = front ++ [10] ∧ scanBlank 0 front = some 3 ∧
    scanBlank 0 h.text = none := by
  have hne : h.line.text ≠ [] := by simp [StatusLine.text]
  have hscan : ∀ ys, scanBlank 0 (h.line.text ++ crlf ++ h.fields.flatMap Field.text ++ ys) =
      scanBlank 2 ys := by
    intro ys
    rw [List.append_assoc, List.append_assoc, scanBlank_line h.line.clean_text hne, scanBlank_fields]
  refine ⟨h.line.text ++ crlf ++ h.fields.flatMap Field.text ++ [13], ?_, hscan [13], hscan crlf⟩
  rw [Head.text, List.append_assoc _ [13]]
  rfl

/-- Where a blank line was found, the whole header is there. -/
theorem length_le_of_blank {h : Head} {xs ys body : List UInt8} (hblank : scanBlank 0 xs = none)
    (hxs : h.text ++ body = xs ++ ys) : h.text.length ≤ xs.length := by
  obtain ⟨front, hfront, hscan, -⟩ := scanBlank_text h
  by_contra hlt
  have hlen : xs.length ≤ front.length := by
    rw [hfront, List.length_append, List.length_singleton] at hlt
    omega
  have hpre : xs <+: front := by
    refine List.prefix_of_prefix_length_le (List.prefix_append xs ys) ?_ hlen
    rw [← hxs, hfront, List.append_assoc]
    exact List.prefix_append front _
  obtain ⟨more, rfl⟩ := hpre
  rw [scanBlank_append, hblank] at hscan
  cases hscan

/-! ## A response on its way -/

/-- The first packet has room for the header. Where the calls of NetX are checked, it brings it. -/
def Opens (P : Pool) (h : Head) (c : Chain) : Prop :=
  (P.errorChecking = false ∧ Reaches h.text.length c) ∨ h.text.length ≤ c.head.data.length

structure Arrives (P : Pool) (s : St) (h : Head) (body : List UInt8) : Prop where
  busy : s.state ≠ .ready
  fresh : s.responseHeaderReceived = false
  version : h.line.version ≠ 0
  bytes : incomingBytes s.incoming = h.text ++ body
  opens : ∃ first rest, s.incoming = .ok first :: rest ∧ P.Roomy first.chain ∧ Opens P h first.chain
  fits : ∀ r, .ok r ∈ s.incoming → P.Fits r.chain ∧ P.Takes r

variable {P : Pool} {s s' : St} {h : Head} {body : List UInt8}

/-- The packet with the header. -/
structure Opened (P : Pool) (s : St) (h : Head) (body : List UInt8) (c : Chain) (s' : St) : Prop where
  only : OnlyCollects s s'
  full : c.Full
  fits : P.Fits c
  head : ∃ front, c.head.data = h.text ++ front ∧
    body = front ++ c.next.flatMap (·.data) ++ incomingBytes s'.incoming
  ends : endStatus s'.incoming = endStatus s.incoming
  shorter : s'.incoming.length < s.incoming.length
  suffix : s'.incoming <:+ s.incoming
  alone : ∀ first rest, s.incoming = .ok first :: rest →
    h.text.length ≤ first.chain.head.data.length → c = first.chain ∧ s'.incoming = rest
  incoming : ∀ r, .ok r ∈ s'.incoming → P.Fits r.chain

/-- Nothing more is received for a header that is there. -/
theorem getServerResponse_first {first : Received} {rest : List (Except Failure Received)}
    (hinc : s.incoming = .ok first :: rest) (hblank : scanBlank 0 first.chain.bytes = none) :
    getServerResponse P s = .ok first.chain { s with incoming := rest } := by
  have hreceive : receive s = .ok first.chain { s with incoming := rest } := by
    rw [receive_eq, hinc]
  have hloop : headerLoop P (rest.length + 1) 0 first.chain first.chain.bytes =
      (pure first.chain : M Chain) := by
    rw [headerLoop, hblank]
  unfold getServerResponse
  show EStateM.bind _ _ s = _
  rw [EStateM.bind, hreceive]
  show headerLoop P (rest.length + 1) 0 first.chain first.chain.bytes _ = _
  rw [hloop]
  rfl

/-- The header starts the bytes of the packet, so it starts those of its first one. -/
theorem head_data {c : Chain} {later : List UInt8} (hbytes : h.text ++ body = c.bytes ++ later)
    (hle : h.text.length ≤ c.head.data.length) :
    ∃ front, c.head.data = h.text ++ front ∧ body = front ++ c.next.flatMap (·.data) ++ later := by
  have hpre : h.text <+: c.head.data := by
    refine List.prefix_of_prefix_length_le (List.prefix_append h.text body) ?_ hle
    rw [hbytes, Chain.bytes, List.append_assoc]
    exact List.prefix_append _ _
  obtain ⟨front, hfront⟩ := hpre
  refine ⟨front, hfront.symm, ?_⟩
  rw [Chain.bytes, ← hfront] at hbytes
  simpa using hbytes

theorem meets_opening (hP : P.Serves) (harr : Arrives P s h body) :
    Meets (getServerResponse P) s (fun c s' => Opened P s h body c s') (fun _ _ => False) := by
  obtain ⟨first, rest, hinc, hroomy, hopens⟩ := harr.opens
  have hrest : ∀ r, .ok r ∈ rest → .ok r ∈ s.incoming := fun r hr => hinc ▸ List.mem_cons_of_mem _ hr
  have hbytes : h.text ++ body = first.chain.bytes ++ incomingBytes rest := by
    rw [← harr.bytes, hinc, incomingBytes]
  have hfirst := (harr.fits first (hinc ▸ List.mem_cons_self)).1
  by_cases hle : h.text.length ≤ first.chain.head.data.length
  · obtain ⟨front, hfront, hbody⟩ := head_data hbytes hle
    have hblank : scanBlank 0 first.chain.bytes = none := by
      obtain ⟨-, -, -, hnone⟩ := scanBlank_text h
      rw [Chain.bytes, hfront, List.append_assoc, scanBlank_append, hnone]
      rfl
    refine .of_ok (getServerResponse_first hinc hblank) ⟨rfl, first.full, hfirst, ⟨front, hfront, hbody⟩,
      ?_, ?_, ?_, ?_, fun r hr => (harr.fits r (hrest r hr)).1⟩
    · rw [hinc]
      rfl
    · rw [hinc]
      exact Nat.lt_succ_self _
    · rw [hinc]
      exact List.suffix_cons _ _
    · intro other more hother _
      cases hinc.symm.trans hother
      exact ⟨rfl, rfl⟩
  · obtain ⟨hcheck, hreach⟩ := hopens.resolve_right hle
    refine (meets_getServerResponse hP hinc fun r hr => (harr.fits r (hrest r hr)).2).mono ?_ ?_
    · rintro c s1 ⟨honly, ⟨xs, hgrown⟩, hall, hends, hsub, hblank⟩
      rw [harr.bytes] at hall
      have hlen := ((hgrown.reaches _ hreach).le (length_le_of_blank hblank hall))
      refine ⟨honly, hgrown.full first.full, ⟨fun p hp => ?_, .inr hcheck⟩, head_data hall hlen, hends,
        ?_, ?_, ?_, fun r hr => (harr.fits r (hrest r (hsub.subset hr))).1⟩
      · have := hgrown.roomy hroomy p hp
        omega
      · have := hsub.length_le
        rw [hinc, List.length_cons]
        omega
      · rw [hinc]
        exact hsub.trans (List.suffix_cons _ _)
      · intro other more hother hshort
        cases hinc.symm.trans hother
        exact absurd hshort hle
    · rintro e s1 ⟨-, -, hblank⟩
      obtain ⟨-, -, -, hnone⟩ := scanBlank_text h
      rw [harr.bytes, scanBlank_append, hnone] at hblank
      exact hblank rfl

/-! ## What the header says -/

/-- What the status code of a header comes to. -/
def Head.verdict (h : Head) : UINT :=
  match (statusMaps.find? fun m => m.1 = h.line.code).map (·.2) with
  | none => nxWebHttpRequestUnsuccessfulCode
  | some code => if h.line.code.head? = some 0x32 then nxSuccess else code

/-- Of the codes in the table only those of success come to success. -/
theorem statusMaps_err : ∀ m ∈ statusMaps, m.1.head? ≠ some 0x32 →
    m.2 ≠ nxSuccess ∧ m.2 ≠ nxWebHttpGetDone := by
  decide

theorem Head.verdict_ne_done (h : Head) : h.verdict ≠ nxWebHttpGetDone := by
  unfold Head.verdict
  cases hfind : (statusMaps.find? fun m => m.1 = h.line.code).map (·.2) with
  | none =>
    show nxWebHttpRequestUnsuccessfulCode ≠ _
    decide
  | some code =>
    obtain ⟨m, hm, rfl⟩ := Option.map_eq_some_iff.mp hfind
    have hcode : m.1 = h.line.code := by simpa using List.find?_some hm
    by_cases htwo : h.line.code.head? = some 0x32
    · simp only [if_pos htwo]
      decide
    · simp only [if_neg htwo]
      exact (statusMaps_err m (List.mem_of_find?_eq_some hm) (by rw [hcode]; exact htwo)).2

/-- The header with all its fields processed. -/
def openBody (h : Head) (s : St) : St :=
  processFields h.fields { s with responseChunked := false, keepAlive := 0x10 < h.line.version }

theorem processResponse_eq {c : Chain} {front : List UInt8} (hc : c.head.data = h.text ++ front)
    (hversion : h.line.version ≠ 0) (s : St) :
    processResponse c s =
      if h.verdict ≠ nxSuccess then .ok h.verdict s
      else if u32 (h.text.length + contentLengthGet c) < c.length ∧
          h.fields.any Field.chunked = false then
        .ok nxWebHttpBadPacketLength (openBody h s)
      else .ok nxSuccess (enterBody c (contentLengthGet c) h.text.length (openBody h s)) := by
  have htext : c.head.data =
      h.line.text ++ (crlf ++ (h.fields.flatMap Field.text ++ (crlf ++ front))) := by
    simp [hc, Head.text]
  have hstatus := h.line.statusOf_text (crlf ++ (h.fields.flatMap Field.text ++ (crlf ++ front)))
  have hdigit := h.line.getD_text (crlf ++ (h.fields.flatMap Field.text ++ (crlf ++ front)))
  rw [← htext] at hstatus hdigit
  have hfields : processHeaderFields c s = .ok h.text.length (openBody h s) :=
    processHeaderFields_text h hc hversion s
  have hchunked : (openBody h s).responseChunked = h.fields.any Field.chunked := by
    rw [openBody, processFields_eq]
    simp
  have hlen : h.text.length ≤ c.length := by
    rw [Chain.length, Chain.bytes, hc]
    simp
  have hpos : h.text.length ≠ 0 := by simp [Head.text, crlf]
  unfold processResponse Head.verdict
  rw [hstatus]
  cases hfind : (statusMaps.find? fun m => m.1 = h.line.code).map (·.2) with
  | none => rfl
  | some code =>
    have hmem : ∃ m ∈ statusMaps, m.1 = h.line.code ∧ m.2 = code := by
      obtain ⟨m, hm, rfl⟩ := Option.map_eq_some_iff.mp hfind
      exact ⟨m, List.mem_of_find?_eq_some hm, by simpa using List.find?_some hm, rfl⟩
    by_cases htwo : h.line.code.head? = some 0x32
    · simp only [if_neg (fun hne => hdigit.mp hne htwo), if_pos htwo, ne_eq, not_true_eq_false, if_false]
      show EStateM.bind (processHeaderFields c) _ s = _
      rw [EStateM.bind, hfields]
      show (if h.text.length = 0 ∨ c.length < h.text.length ∨
          (u32 (h.text.length + contentLengthGet c) < c.length ∧
            (openBody h s).responseChunked = false) then
          (pure nxWebHttpBadPacketLength : M UINT)
        else do
          modify (enterBody c (contentLengthGet c) h.text.length)
          pure nxSuccess) (openBody h s) = _
      simp only [hchunked, hpos, Nat.not_lt.mpr hlen, false_or]
      split <;> rfl
    · obtain ⟨m, hm, hcode, rfl⟩ := hmem
      have herr := (statusMaps_err m hm (by rw [hcode]; exact htwo)).1
      simp only [if_pos (hdigit.mpr htwo), if_neg htwo, if_pos herr]
      rfl

/-! ## The state behind the header -/

theorem opening_ok (hP : P.Serves) (harr : Arrives P s h body) :
    ∃ c s', getServerResponse P s = .ok c s' ∧ Opened P s h body c s' := by
  have hmeets := meets_opening hP harr
  cases hrun : getServerResponse P s with
  | ok c s' => exact ⟨c, s', rfl, hmeets.ok hrun⟩
  | error e s' => exact (hmeets.error hrun).elim

/-- The length the client finds in the packet that it collects the header in, be it in the header or
in what the packet holds of the body. -/
def foundLength (P : Pool) (s : St) : Nat :=
  match getServerResponse P { s with returned := none, packetPptr := none } with
  | .ok c _ => contentLengthGet c
  | .error _ _ => 0

theorem foundLength_of_ok {c : Chain}
    (hrun : getServerResponse P { s with returned := none, packetPptr := none } = .ok c s') :
    foundLength P s = contentLengthGet c := by
  rw [foundLength, hrun]

/-- A header that comes with the first packet stays there. -/
theorem foundLength_first {first : Received} {rest : List (Except Failure Received)}
    (hinc : s.incoming = .ok first :: rest) (hblank : scanBlank 0 first.chain.bytes = none) :
    foundLength P s = contentLengthGet first.chain :=
  foundLength_of_ok (getServerResponse_first hinc hblank)

theorem length_text (h : Head) : 12 ≤ h.text.length := by
  have hcode := h.line.code_length
  simp only [Head.text, StatusLine.text, List.length_append, List.length_cons, cstr]
  simp
  omega

/-- The first call takes the header off a packet and goes on with what the header says. -/
theorem responseBodyGet_first (hP : P.Serves) (harr : Arrives P s h body) :
    ∃ c s1, Opened P { s with returned := none, packetPptr := none } h body c s1 ∧
      foundLength P s = contentLengthGet c ∧ responseBodyGet P s = (do
        let status ← processResponse c
        finishCall P (.ok status)) { s1 with packetPptr := some c } := by
  let t : St := { s with returned := none, packetPptr := none }
  have harr' : Arrives P t h body :=
    ⟨harr.busy, harr.fresh, harr.version, harr.bytes, harr.opens, harr.fits⟩
  obtain ⟨c, s1, hget, hopened⟩ := opening_ok hP harr'
  obtain ⟨front, hfront, -⟩ := hopened.head
  have hlong : ¬ c.head.data.length < 12 := by
    have := length_text h
    rw [hfront, List.length_append]
    omega
  have hfirst : firstPacket P t = EStateM.bind (processResponse c)
      (fun status => pure (.ok status)) { s1 with packetPptr := some c } := by
    show EStateM.bind (attempt (getServerResponse P)) _ t = _
    rw [EStateM.bind, attempt_ok hget]
    show (if c.head.data.length < 12 then _ else _ : M (Except UINT UINT))
      { s1 with packetPptr := some c } = _
    rw [if_neg hlong]
    rfl
  have hcall : responseBodyGet P s = EStateM.bind (firstPacket P) (finishCall P) t := by
    show (if s.state = .ready then _ else _ : M UINT) s = _
    rw [if_neg harr.busy]
    show (if s.responseHeaderReceived = false then _ else _ : M UINT) t = _
    rw [if_pos harr.fresh]
    rfl
  refine ⟨c, s1, hopened, foundLength_of_ok hget, ?_⟩
  rw [hcall, EStateM.bind, hfirst]
  show _ = EStateM.bind (processResponse c) _ _
  rw [EStateM.bind, EStateM.bind]
  cases processResponse c { s1 with packetPptr := some c } <;> rfl

theorem openBody_eq (h : Head) (s : St) :
    openBody h s = { s with
      responseChunked := h.fields.any Field.chunked
      keepAlive := h.fields.foldl (fun k f => f.connection.getD k) (decide (0x10 < h.line.version))
      reported := if s.responseCallback then s.reported ++ h.fields.map fun f => (f.name, f.value)
        else s.reported } := by
  rw [openBody, processFields_eq]
  simp

/-- The fields the callback is told of. -/
def tellFields (h : Head) (s : St) : List (List UInt8 × List UInt8) :=
  if s.responseCallback then s.reported ++ h.fields.map fun f => (f.name, f.value) else s.reported

/-- Where the coding starts: a length the client believes in counts as the rest of a chunk. -/
def startPhase (n : Nat) : Phase := if n = 0 then .size 0 false else .data n

/-- Behind the header of a chunked response the coding has the body before it. -/
theorem midway_enterBody {c : Chain} {n : Nat} {t : St} (hbusy : s.state ≠ .ready)
    (hchunked : h.fields.any Field.chunked = true)
    (hopened : Opened P { s with returned := none, packetPptr := none } h body c s')
    (ht : t = enterBody c n h.text.length (openBody h { s' with packetPptr := some c })) :
    Midway P t ∧ t.phase = startPhase (if s.state = .head then 0 else n) ∧ t.unread = body ∧
      endStatus t.incoming = endStatus s.incoming ∧ t.reported = tellFields h s := by
  have honly := hopened.only
  unfold OnlyCollects at honly
  obtain ⟨front, hfront, hbody⟩ := hopened.head
  have hdrop : c.head.data.drop h.text.length = front := by rw [hfront, List.drop_left]
  let left : Chain := ⟨{ c.head with data := front }, c.next⟩
  have ht' : t = { s' with
      packetPptr := some left
      responseChunked := true
      keepAlive := h.fields.foldl (fun k f => f.connection.getD k) (decide (0x10 < h.line.version))
      reported := tellFields h s
      responseHeaderReceived := true
      totalReceiveBytes := if s.state = .head then 0 else n
      actualBytesReceived := 0
      packetLength := left.length
      responsePacket := some left
      chunkedResponseRemainingSize := left.length } := by
    rw [ht, openBody_eq, enterBody, hdrop, hchunked, honly]
    rfl
  have hfits : P.Fits left := by
    have := Pool.Fits.drop (show P.Fits ⟨c.head, c.next⟩ from hopened.fits) h.text.length
    rwa [hdrop] at this
  have hstate : t.state = s.state := by
    rw [ht', honly]
  refine ⟨⟨by rw [hstate]; exact hbusy, by rw [ht'], by rw [ht'], ⟨?_, ?_⟩⟩, ?_, ?_, ?_, by rw [ht']⟩
  · intro _
    rw [ht']
    refine ⟨left, rfl, hopened.full, rfl, hfits, ?_⟩
    rintro rp hrp
    cases hrp
    exact ⟨rfl, rfl⟩
  · rw [ht']
    exact hopened.incoming
  · have htotal : t.totalReceiveBytes = if s.state = .head then 0 else n := by rw [ht']
    have hactual : t.actualBytesReceived = 0 := by rw [ht']
    rw [St.phase, startPhase, hactual, htotal]
    by_cases hn : (if s.state = .head then 0 else n) = 0
    · rw [if_neg (by omega), if_pos hn]
    · rw [if_pos (by omega), if_neg hn, Nat.sub_zero]
  · have hunread : t.unread = left.bytes ++ incomingBytes s'.incoming := by
      rw [ht']
      show (if left.length = 0 then [] else left.bytes) ++ _ = _
      split
      · next hzero =>
        rw [List.length_eq_zero_iff.mp hzero]
        rfl
      · rfl
    rw [hunread, hbody]
    rfl
  · rw [ht']
    exact hopened.ends

/-! ## Responses for the examples -/

/-- `HTTP/1.1 200 OK` -/
def StatusLine.ok : StatusLine where
  major := 0x31
  minor := 0x31
  code := cstr "200"
  reason := cstr "OK"
  code_length := rfl
  clean := by decide

/-- `HTTP/1.1 404 Gone` -/
def StatusLine.notFound : StatusLine where
  major := 0x31
  minor := 0x31
  code := cstr "404"
  reason := cstr "Gone"
  code_length := rfl
  clean := by decide

def Field.encoding : Field where
  name := cstr "Transfer-Encoding"
  value := cstr "chunked"
  name_ne := by decide
  name_ok := by decide
  value_ok := by decide
  value_head := by decide

/-- A packet of its own for each of the pieces. -/
def cutInto (pieces : List (List UInt8)) : List (Except Failure Received) :=
  pieces.map fun xs => .ok ⟨⟨⟨7, xs, 0⟩, []⟩, fun _ hp => absurd hp List.not_mem_nil⟩

/-- A client that waits for the answer to a GET request. -/
def waiting (pieces : List (List UInt8)) : St := { state := .get, incoming := cutInto pieces }

theorem incomingBytes_cutInto (pieces : List (List UInt8)) :
    incomingBytes (cutInto pieces) = pieces.flatten := by
  induction pieces with
  | nil => rfl
  | cons xs pieces ih =>
    show Chain.bytes ⟨⟨7, xs, 0⟩, []⟩ ++ incomingBytes (cutInto pieces) = _
    rw [ih, List.flatten_cons, Chain.bytes_mk, List.flatMap_nil, List.append_nil]

/-- Pieces a sample packet has room for, the header in the first, arrive. -/
theorem arrives_waiting {first : List UInt8} {pieces : List (List UInt8)}
    (hversion : h.line.version ≠ 0) (hbytes : (first :: pieces).flatten = h.text ++ body)
    (hlen : h.text.length ≤ first.length)
    (hpieces : ∀ xs ∈ first :: pieces, xs ≠ [] ∧ xs.length ≤ 128) :
    Arrives .sample (waiting (first :: pieces)) h body := by
  refine ⟨nofun, rfl, hversion, (incomingBytes_cutInto _).trans hbytes, ⟨_, _, rfl, ?_, .inr hlen⟩, ?_⟩
  · intro p hp
    obtain rfl := List.mem_singleton.mp hp
    exact (hpieces first List.mem_cons_self).2
  · intro r hr
    obtain ⟨xs, hxs, hr⟩ := List.mem_map.mp hr
    cases hr
    refine ⟨⟨fun p hp => ?_, .inl rfl⟩, fun _ p hp => ?_⟩
    · obtain rfl := List.mem_singleton.mp hp
      exact (hpieces xs hxs).2
    · obtain rfl := List.mem_singleton.mp hp
      exact (hpieces xs hxs).1

/-! ## A chunked response -/

/-- Neither the header nor the body has the token that a length is found by. -/
theorem foundLength_none (hP : P.Serves) (harr : Arrives P s h body)
    (hnone : findLengthToken (h.text ++ body) = none) : foundLength P s = 0 := by
  obtain ⟨c, s1, hopened, hlen, -⟩ := responseBodyGet_first hP harr
  obtain ⟨front, hfront, hbody⟩ := hopened.head
  rw [hbody, List.append_assoc front, ← List.append_assoc] at hnone
  exact hlen.trans (contentLengthGet_none (hfront ▸ findLengthToken_prefix hnone))

theorem foundLength_field (hP : P.Serves) (harr : Arrives P s h body) {before after : List Field}
    {f : Field} (hfields : h.fields = before ++ f :: after)
    (hbefore : findLengthToken (h.line.text ++ crlf ++ before.flatMap Field.text) = none)
    (hname : SameText f.name (cstr "Content-Length")) (hvalue : Decimal.Numeral f.value) :
    foundLength P s = u32 (Decimal.value f.value) := by
  obtain ⟨c, s1, hopened, hlen, -⟩ := responseBodyGet_first hP harr
  obtain ⟨front, hfront, -⟩ := hopened.head
  exact hlen.trans (contentLengthGet_text hfields hbefore hname hvalue hfront)

/-- What the coding makes of the body. -/
def coded (P : Pool) (s : St) (body : List UInt8) : List UInt8 × Halt Phase UInt8 Verdict :=
  chunked.run (startPhase (if s.state = .head then 0 else foundLength P s)) body

/-- A chunked response is received: the loop hands out what the coding makes of the body, however
it arrives. -/
theorem meets_chunkedResponse (hP : P.Serves) (harr : Arrives P s h body)
    (hverdict : h.verdict = nxSuccess) (hchunked : h.fields.any Field.chunked = true) {fuel : Nat}
    (hfuel : body.length + 1 < fuel) :
    Meets (bodyPackets P fuel) s
      (fun r s' => s'.reported = tellFields h s ∧ Sound r.1 ∧
        Agrees P (coded P s body) (endStatus s.incoming) r)
      (fun e _ => Crashes P (coded P s body) (endStatus s.incoming) e) := by
  obtain ⟨fuel, rfl⟩ : ∃ k, fuel = k + 1 := ⟨fuel - 1, by omega⟩
  obtain ⟨c, s1, hopened, hlen, hcall⟩ := responseBodyGet_first hP harr
  obtain ⟨front, hfront, hbody⟩ := hopened.head
  have hresponse := processResponse_eq hfront harr.version { s1 with packetPptr := some c }
  rw [← hlen, if_neg (not_not.mpr hverdict), hchunked, if_neg (by simp)] at hresponse
  unfold coded
  generalize foundLength P s = n at *
  obtain ⟨hmid, hphase, hunread, hends, hrep⟩ :=
    midway_enterBody (n := n) harr.busy hchunked hopened rfl
  generalize enterBody c n h.text.length (openBody h { s1 with packetPptr := some c }) = t at *
  have hget : responseBodyGet P s = finishCall P (.ok nxSuccess) t := by
    rw [hcall]
    show EStateM.bind (processResponse c) _ _ = _
    rw [EStateM.bind, hresponse]
  rw [← hphase, ← hunread, ← hends, ← hrep]
  refine .bind (.congr hget ((meets_finishCall_chunked hP hmid).mono ?_ fun _ _ => id))
  · rintro status s2 ⟨hrep2, hres⟩
    refine meets_afterCall rfl (fun t' hnext => ?_) hres hrep2
    have hshort := hnext.length_lt
    rw [hunread] at hshort
    exact meets_bodyPackets_chunked hP fuel hnext.midway (by omega)

/-- The loop ends with these bytes just when the coding does. -/
theorem bodyPackets_done_iff (hP : P.Serves) (harr : Arrives P s h body)
    (hverdict : h.verdict = nxSuccess) (hchunked : h.fields.any Field.chunked = true) {fuel : Nat}
    (hfuel : body.length + 1 < fuel) (data : List UInt8) :
    (∃ r s', bodyPackets P fuel s = .ok r s' ∧ lastStatus r.2 = nxWebHttpGetDone ∧
        bodyBytes r = data) ↔
      ∃ rest, coded P s body = (data, .stopped .done rest) := by
  have hmeets := meets_chunkedResponse hP harr hverdict hchunked hfuel
  constructor
  · rintro ⟨r, s', hrun, hlast, rfl⟩
    obtain ⟨-, -, hagree⟩ := hmeets.ok hrun
    exact hagree.done_iff.mp hlast
  · rintro ⟨rest, hrun⟩
    cases hres : bodyPackets P fuel s with
    | ok r s' =>
      obtain ⟨-, -, hagree⟩ := hmeets.ok hres
      rw [hrun] at hagree
      obtain ⟨⟨ptr, hdone⟩, hbytes⟩ := hagree
      exact ⟨r, s', rfl, by rw [hdone]; rfl, hbytes⟩
    | error e s' => exact absurd hrun ((hmeets.error hres).not_done _ _)

/-- A response in two packets, cut in a line end. -/
def chunkedHead : Head := ⟨.ok, [.encoding]⟩

/-- The loop comes to its end with `status`: it has told the callback of the fields of the header,
and handed out the start of `out` in packets that are not empty. -/
def EndsWith (P : Pool) (fuel : Nat) (s : St) (h : Head) (out : List UInt8) (status : UINT) : Prop :=
  ∃ r s', bodyPackets P fuel s = .ok r s' ∧ lastStatus r.2 = status ∧ bodyBytes r <+: out ∧
    Sound r.1 ∧ s'.reported = tellFields h s

/-- The loop ends with the first call when that fails. -/
theorem bodyPackets_failed {fuel : Nat} {status : UINT} (hcall : responseBodyGet P s = .ok status s')
    (herr : status ≠ nxSuccess ∧ status ≠ nxWebHttpGetDone) :
    bodyPackets P (fuel + 1) s = .ok ([], .failed status herr (s'.returned.map (·.head.ptr))) s' := by
  rw [bodyPackets]
  refine (bind_ok hcall).trans ?_
  rw [bind_get_eq, dif_neg (not_or.mpr herr)]
  rfl

end Iotc.Http
