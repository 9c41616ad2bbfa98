import Iotc.Http.Header
import Iotc.Http.Reading
import Iotc.Lib.Decimal
import Iotc.Lib.Hex

/-!
# Headers as text

A `Head` is what a server has to say before the body. `Head.text` writes it down, and the client
reads it back: the fields in their order, and the offset of what stands behind the blank line
(`processHeaderFields_text`). `contentLengthGet` finds the length wherever its token comes first
(`contentLengthGet_text`).
-/

namespace Iotc.Http

open Iotc.C Iotc.Web Iotc.Lib

/-- A header field. Its value starts behind the blanks that follow the colon. -/
structure Field where
  name : List UInt8
  value : List UInt8
  name_ne : name ≠ []
  name_ok : ∀ b ∈ name, b ≠ 0 ∧ b ≠ 13 ∧ b ≠ 10 ∧ b ≠ 0x3A
  value_ok : ∀ b ∈ value, b ≠ 13 ∧ b ≠ 10
  value_head : value.head? ≠ some 0x20

def Field.text (f : Field) : List UInt8 := f.name ++ [0x3A, 0x20] ++ f.value ++ crlf

/-- The first line, without its line end. -/
structure StatusLine where
  major : UInt8
  minor : UInt8
  code : List UInt8
  reason : List UInt8
  code_length : code.length = 3
  clean : ∀ b ∈ major :: minor :: (code ++ reason), b ≠ 13 ∧ b ≠ 10

def StatusLine.text (l : StatusLine) : List UInt8 :=
  cstr "HTTP/" ++ [l.major, 0x2E, l.minor, 0x20] ++ l.code ++ 0x20 :: l.reason

/-- The version as the client packs it. -/
def StatusLine.version (l : StatusLine) : UInt8 := ((l.major - 0x30) <<< 4) ||| (l.minor - 0x30)

structure Head where
  line : StatusLine
  fields : List Field

def Head.text (h : Head) : List UInt8 :=
  h.line.text ++ crlf ++ h.fields.flatMap Field.text ++ crlf

/-! ## Lines -/

/-- Neither of the bytes of a line end. -/
def Clean (xs : List UInt8) : Prop := ∀ b ∈ xs, b ≠ 13 ∧ b ≠ 10

instance (xs : List UInt8) : Decidable (Clean xs) :=
  inferInstanceAs (Decidable (∀ b ∈ xs, b ≠ 13 ∧ b ≠ 10))

theorem takeLine_clean {line : List UInt8} (h : Clean line) (rest : List UInt8) :
    takeLine (line ++ (crlf ++ rest)) = (line, crlf ++ rest) := by
  induction line with
  | nil => rfl
  | cons b line ih =>
    have hb := h b List.mem_cons_self
    have hrest := ih fun c hc => h c (List.mem_cons_of_mem _ hc)
    cases line with
    | nil =>
      have hif : b ≠ 13 ∧ (13 : UInt8) ≠ 10 := ⟨hb.1, by decide⟩
      simp only [crlf, List.nil_append, List.cons_append] at hrest ⊢
      rw [takeLine, if_pos hif, hrest]
    | cons c line =>
      have hc := h c (List.mem_cons_of_mem _ List.mem_cons_self)
      simp only [List.cons_append] at hrest ⊢
      rw [takeLine, if_pos ⟨hb.1, hc.2⟩, hrest]

theorem takeName_colon {name : List UInt8} (h : ∀ b ∈ name, b ≠ 0x3A) (rest : List UInt8) :
    takeName (name ++ 0x3A :: rest) = some (name, rest) := by
  induction name with
  | nil => rfl
  | cons b name ih =>
    have hb := h b List.mem_cons_self
    rw [List.cons_append, takeName, if_neg hb, ih fun c hc => h c (List.mem_cons_of_mem _ hc)]
    rfl

/-- The blank behind the colon is skipped, and no more than that. -/
theorem dropBlanks_value (f : Field) (rest : List UInt8) :
    (0x20 :: (f.value ++ (crlf ++ rest))).dropWhile (· = 0x20) = f.value ++ (crlf ++ rest) := by
  have hhead := f.value_head
  cases hv : f.value with
  | nil => rfl
  | cons b value =>
    rw [hv] at hhead
    have hb : b ≠ 0x20 := fun h => hhead (by rw [h]; rfl)
    simp [hb]

theorem StatusLine.clean_text (l : StatusLine) : Clean l.text := by
  have hclean := l.clean
  intro b hb
  simp only [StatusLine.text, List.mem_append, List.mem_cons, List.not_mem_nil, or_false] at hb hclean
  rcases hb with ((hb | rfl | rfl | rfl | rfl) | hb) | rfl | hb
  · revert b
    decide
  · exact hclean _ (.inl rfl)
  · decide
  · exact hclean _ (.inr (.inl rfl))
  · decide
  · exact hclean _ (.inr (.inr (.inl hb)))
  · decide
  · exact hclean _ (.inr (.inr (.inr hb)))

theorem StatusLine.drop_text (l : StatusLine) (ys : List UInt8) :
    (l.text ++ ys).drop 9 = l.code ++ (0x20 :: l.reason ++ ys) := by
  have htext : l.text ++ ys = (cstr "HTTP/" ++ [l.major, 0x2E, l.minor, 0x20]) ++
      (l.code ++ (0x20 :: l.reason ++ ys)) := by
    simp [StatusLine.text]
  rw [htext]
  exact List.drop_left' rfl

theorem StatusLine.statusOf_text (l : StatusLine) (ys : List UInt8) :
    statusOf (l.text ++ ys) = (statusMaps.find? fun m => m.1 = l.code).map (·.2) := by
  rw [statusOf, l.drop_text, List.take_left' l.code_length]

theorem StatusLine.getD_text (l : StatusLine) (ys : List UInt8) :
    (l.text ++ ys).getD 9 0 ≠ 0x32 ↔ l.code.head? ≠ some 0x32 := by
  obtain ⟨b, code, hcode⟩ : ∃ b code, l.code = b :: code :=
    List.exists_cons_of_length_eq_add_one l.code_length
  have hget : (l.text ++ ys)[9]? = some b := by
    have := congrArg List.head? (l.drop_text ys)
    rwa [List.head?_drop, hcode] at this
  rw [List.getD_eq_getElem?_getD, hget, hcode]
  simp

/-! ## Fields -/

theorem Field.text_append (f : Field) (rest : List UInt8) :
    f.text ++ rest = f.name ++ 0x3A :: 0x20 :: (f.value ++ (crlf ++ rest)) := by
  simp [Field.text]

theorem Field.length_text (f : Field) : f.text.length = f.name.length + f.value.length + 4 := by
  simp [Field.text, crlf]
  omega

/-- One field is read and processed. -/
theorem fieldLoop_field (f : Field) (fuel offset : Nat) (rest : List UInt8) (s : St) :
    fieldLoop (fuel + 1) (f.text ++ rest) offset s =
      fieldLoop fuel rest (offset + f.text.length) (processField f.name f.value s) := by
  obtain ⟨b, name, hname⟩ := List.exists_cons_of_ne_nil f.name_ne
  obtain ⟨h0, h13, -, -⟩ := f.name_ok b (hname ▸ List.mem_cons_self)
  have htext := f.text_append rest
  -- the line starts with the name, so it is not blank
  obtain ⟨c, behind, hbehind⟩ : ∃ c behind,
      name ++ 0x3A :: 0x20 :: (f.value ++ (crlf ++ rest)) = c :: behind :=
    List.exists_cons_of_ne_nil (by simp)
  have hcons : f.text ++ rest = b :: c :: behind := by
    rw [htext, hname, List.cons_append, hbehind]
  have htake : takeName (b :: c :: behind) =
      some (f.name, 0x20 :: (f.value ++ (crlf ++ rest))) := by
    rw [← hcons, htext]
    exact takeName_colon (fun b hb => (f.name_ok b hb).2.2.2) _
  have hline := takeLine_clean f.value_ok rest
  have hblank : ¬ (b = 13 ∧ c = 10) := fun h => h13 h.1
  rw [hcons, fieldLoop, if_neg h0, if_neg hblank]
  simp only [htake, dropBlanks_value f rest, hline]
  have hoffset : offset + f.name.length + 1 + ((0x20 :: (f.value ++ (crlf ++ rest))).length -
      (f.value ++ (crlf ++ rest)).length) + f.value.length + 2 = offset + f.text.length := by
    rw [f.length_text, List.length_cons]
    omega
  rw [hoffset]
  rfl

/-- What the client makes of all the fields. -/
def processFields (fields : List Field) (s : St) : St :=
  fields.foldl (fun s f => processField f.name f.value s) s

theorem fieldLoop_fields (fields : List Field) {fuel : Nat} (hfuel : fields.length < fuel)
    (offset : Nat) (rest : List UInt8) (s : St) :
    fieldLoop fuel (fields.flatMap Field.text ++ (crlf ++ rest)) offset s =
      .ok (offset + (fields.flatMap Field.text).length + 2) (processFields fields s) := by
  induction fields generalizing fuel offset s with
  | nil =>
    obtain ⟨fuel, rfl⟩ := Nat.exists_eq_add_of_lt hfuel
    rfl
  | cons f fields ih =>
    obtain ⟨fuel, rfl⟩ : ∃ k, fuel = k + 1 := ⟨fuel - 1, by omega⟩
    rw [List.flatMap_cons, List.append_assoc, fieldLoop_field,
      ih (by rw [List.length_cons] at hfuel; omega), List.length_append, Nat.add_assoc offset,
      Nat.add_assoc offset]
    rfl

theorem Field.length_le (fields : List Field) :
    fields.length ≤ (fields.flatMap Field.text).length := by
  induction fields with
  | nil => exact Nat.le_refl 0
  | cons f fields ih =>
    rw [List.flatMap_cons, List.length_append, f.length_text, List.length_cons]
    omega

/-- A header that was written is read back: the offset is where the body starts, and each field was
processed in its place. -/
theorem processHeaderFields_text (h : Head) {c : Chain} {rest : List UInt8}
    (hc : c.head.data = h.text ++ rest)
    (hversion : h.line.version ≠ 0) (s : St) :
    processHeaderFields c s = .ok h.text.length (processFields h.fields { s with
      responseChunked := false
      keepAlive := 0x10 < h.line.version }) := by
  have htext : c.head.data =
      h.line.text ++ (crlf ++ (h.fields.flatMap Field.text ++ (crlf ++ rest))) := by
    simp [hc, Head.text]
  have hline := takeLine_clean h.line.clean_text (h.fields.flatMap Field.text ++ (crlf ++ rest))
  have hver : version c.head.data = h.line.version := by
    rw [htext, StatusLine.text]
    rfl
  have hfuel : h.fields.length < c.head.data.length + 1 := by
    have := Field.length_le h.fields
    simp only [htext, List.length_append]
    omega
  have hlen : h.text.length =
      h.line.text.length + 2 + (h.fields.flatMap Field.text).length + 2 := by
    simp [Head.text, crlf]
    omega
  have hrun := fieldLoop_fields h.fields hfuel (h.line.text.length + 2) rest { s with
    responseChunked := false
    keepAlive := 0x10 < h.line.version }
  rw [← htext] at hline
  rw [hlen, ← hrun]
  unfold processHeaderFields
  simp only [hver, if_neg hversion, hline]
  rfl

/-! ## Letters of either case -/

/-- The same text but for the case of its letters. -/
def SameText (xs ys : List UInt8) : Prop := xs.map Hex.lower = ys.map Hex.lower

instance (xs ys : List UInt8) : Decidable (SameText xs ys) :=
  inferInstanceAs (Decidable (xs.map Hex.lower = ys.map Hex.lower))

theorem otherCase_otherCase : ∀ b : UInt8, otherCase (otherCase b) = b :=
  Hex.forall_byte (by decide +kernel)

theorem lower_otherCase : ∀ b : UInt8, Hex.lower (otherCase b) = Hex.lower b :=
  Hex.forall_byte (by decide +kernel)

/-- A byte is its lower-case form or in the other case of it. -/
theorem eq_lower_or : ∀ b : UInt8, b = Hex.lower b ∨ b = otherCase (Hex.lower b) :=
  Hex.forall_byte (by decide +kernel)

theorem otherCase_iff (s d : UInt8) : s = d ∨ otherCase s = d ↔ Hex.lower s = Hex.lower d := by
  constructor
  · rintro (rfl | rfl)
    · rfl
    · exact (lower_otherCase s).symm
  · intro h
    rcases eq_lower_or s with hs | hs <;> rcases eq_lower_or d with hd | hd
    · left
      rw [hs, h, ← hd]
    · right
      rw [hs, h, ← hd]
    · right
      rw [hs, otherCase_otherCase, h, ← hd]
    · left
      rw [hs, h, ← hd]

theorem memicmp_iff (xs ys : List UInt8) : memicmp xs ys = nxSuccess ↔ SameText xs ys := by
  have hall : ∀ {xs ys : List UInt8}, xs.length = ys.length →
      (((xs.zip ys).all fun p => p.1 = p.2 || otherCase p.1 = p.2) = true ↔ SameText xs ys) := by
    intro xs ys hlen
    induction xs generalizing ys with
    | nil =>
      obtain rfl : ys = [] := List.length_eq_zero_iff.mp hlen.symm
      simp [SameText]
    | cons x xs ih =>
      cases ys with
      | nil => cases hlen
      | cons y ys =>
        have hrest := ih (show xs.length = ys.length by simpa using hlen)
        have hxy := otherCase_iff x y
        simp only [SameText] at hrest
        simp only [List.zip_cons_cons, List.all_cons, SameText, List.map_cons, List.cons.injEq,
          Bool.and_eq_true, hrest, ← hxy, Bool.or_eq_true, decide_eq_true_eq]
  unfold memicmp
  split
  · next hlen =>
    refine ⟨fun h => absurd h (by decide), fun h => absurd ?_ hlen⟩
    have := congrArg List.length h
    simpa using this
  · next hlen =>
    rw [not_not] at hlen
    rw [← hall hlen]
    show (if ((xs.zip ys).all fun p => p.1 = p.2 || otherCase p.1 = p.2) = true then _ else _) = _ ↔ _
    split <;> simp_all [nxSuccess, nxWebHttpFailed]

/-! ## What the fields say -/

/-- The field that announces the chunked coding. -/
def Field.chunked (f : Field) : Bool :=
  decide (SameText f.name (cstr "Transfer-Encoding") ∧ SameText f.value (cstr "chunked"))

/-- Whether the field asks to keep the connection or to close it. -/
def Field.connection (f : Field) : Option Bool :=
  if ¬ SameText (cstr "connection") f.name then none
  else if SameText (cstr "keep-alive") f.value then some true
  else if SameText (cstr "close") f.value then some false
  else none

theorem processField_eq (f : Field) (s : St) :
    processField f.name f.value s = { s with
      responseChunked := s.responseChunked || f.chunked
      keepAlive := f.connection.getD s.keepAlive
      reported := if s.responseCallback then s.reported ++ [(f.name, f.value)] else s.reported } := by
  have hchunked : (SameText f.name (cstr "Transfer-Encoding") ∧
      SameText f.value (cstr "chunked")) ↔ f.chunked = true := by
    rw [Field.chunked, decide_eq_true_eq]
  rcases s with ⟨⟨⟩, ⟨⟩⟩
  simp only [processField, memicmp_iff, Field.connection, hchunked]
  cases f.chunked <;> split_ifs <;> simp_all

/-- The chunked coding is announced in any of the fields, the last one about the connection counts,
and the callback is told of each of them. -/
theorem processFields_eq (fields : List Field) (s : St) :
    processFields fields s = { s with
      responseChunked := s.responseChunked || fields.any Field.chunked
      keepAlive := fields.foldl (fun k f => f.connection.getD k) s.keepAlive
      reported := if s.responseCallback then s.reported ++ fields.map fun f => (f.name, f.value)
        else s.reported } := by
  induction fields generalizing s with
  | nil => simp [processFields]
  | cons f fields ih =>
    have hstep : processFields (f :: fields) s =
        processFields fields (processField f.name f.value s) := rfl
    rw [hstep, ih, processField_eq]
    simp only [List.any_cons, List.foldl_cons, List.map_cons, Bool.or_assoc]
    split <;> simp

/-! ## The content length -/

/-- A token whose letters are given in both cases. -/
theorem all_zip_iff {token : List (UInt8 × UInt8)}
    (h : ∀ p ∈ token, ∀ b : UInt8, (b == p.1 || b == p.2) = decide (Hex.lower b = p.1))
    (buffer : List UInt8) :
    (token.length ≤ buffer.length && (token.zip buffer).all fun ((l, u), b) => b == l || b == u) =
      true ↔ (buffer.take token.length).map Hex.lower = token.map (·.1) := by
  induction token generalizing buffer with
  | nil => simp
  | cons p token ih =>
    cases buffer with
    | nil => simp
    | cons b buffer =>
      have hrest := ih (fun q hq => h q (List.mem_cons_of_mem _ hq)) buffer
      obtain ⟨l, u⟩ := p
      have hb : (b == l || b == u) = true ↔ Hex.lower b = l := by
        rw [show (b == l || b == u) = decide (Hex.lower b = l) from h (l, u) List.mem_cons_self b,
          decide_eq_true_eq]
      rw [Bool.and_eq_true, decide_eq_true_eq] at hrest
      rw [Bool.and_eq_true, decide_eq_true_eq, List.zip_cons_cons, List.all_cons, Bool.and_eq_true]
      show _ ∧ (b == l || b == u) = true ∧ _ ↔ _
      rw [hb, List.length_cons, List.length_cons, List.take_succ_cons, List.map_cons, List.map_cons,
        List.cons.injEq, ← hrest, Nat.add_le_add_iff_right]
      exact and_left_comm

/-- `Content-Length:` in letters of either case. -/
theorem lengthTokenAt_iff (buffer : List UInt8) :
    lengthTokenAt buffer = true ↔ SameText (buffer.take 15) (cstr "content-length:") := by
  have hcases : ∀ p ∈ (cstr "content-length:").zip (cstr "CONTENT-LENGTH:"),
      p.2 = otherCase p.1 ∧ Hex.lower p.1 = p.1 := by
    decide
  have hbyte : ∀ p ∈ (cstr "content-length:").zip (cstr "CONTENT-LENGTH:"), ∀ b : UInt8,
      (b == p.1 || b == p.2) = decide (Hex.lower b = p.1) := by
    intro p hp b
    obtain ⟨hupper, hlower⟩ := hcases p hp
    have hiff := otherCase_iff p.1 b
    rw [hlower] at hiff
    rw [Bool.eq_iff_iff]
    simp only [Bool.or_eq_true, beq_iff_eq, decide_eq_true_eq, hupper]
    constructor
    · intro h
      exact (hiff.mp (h.imp Eq.symm Eq.symm)).symm
    · intro h
      exact (hiff.mpr h.symm).imp Eq.symm Eq.symm
  exact all_zip_iff hbyte buffer

/-- The token does not go over a line end. -/
theorem lengthTokenAt_line (pre : List UInt8) (rest : List UInt8) (h : pre.length < 15) :
    lengthTokenAt (pre ++ 13 :: rest) = false := by
  by_contra htoken
  rw [Bool.not_eq_false, lengthTokenAt_iff] at htoken
  have hmem : (13 : UInt8) ∈ (pre ++ 13 :: rest).take 15 := by
    have hpos : 0 < 15 - pre.length := by omega
    obtain ⟨k, hk⟩ : ∃ k, 15 - pre.length = k + 1 := ⟨15 - pre.length - 1, by omega⟩
    rw [List.take_append, hk, List.take_succ_cons]
    simp
  have hlower : (13 : UInt8) ∈ ((pre ++ 13 :: rest).take 15).map Hex.lower :=
    List.mem_map.mpr ⟨13, hmem, by decide⟩
  rw [htoken] at hlower
  revert hlower
  decide

theorem lengthTokenAt_append {xs : List UInt8} (ys : List UInt8) (h : 15 ≤ xs.length) :
    lengthTokenAt (xs ++ ys) = lengthTokenAt xs := by
  rw [Bool.eq_iff_iff, lengthTokenAt_iff, lengthTokenAt_iff, List.take_append_of_le_length h]

/-- A line without the token is passed over. -/
theorem findLengthToken_lines {pre : List UInt8} (h : findLengthToken (pre ++ crlf) = none)
    (rest : List UInt8) : findLengthToken (pre ++ crlf ++ rest) = findLengthToken rest := by
  induction pre with
  | nil =>
    have hcr : lengthTokenAt (13 :: 10 :: rest) = false := lengthTokenAt_line [] _ (by decide)
    have hlf : lengthTokenAt (10 :: rest) = false := by
      by_contra htoken
      rw [Bool.not_eq_false, lengthTokenAt_iff, List.take_succ_cons] at htoken
      have hhead : some (Hex.lower 10) = (cstr "content-length:").head? := congrArg List.head? htoken
      revert hhead
      decide
    show findLengthToken (13 :: 10 :: rest) = _
    rw [findLengthToken, if_neg (by simp [hcr]), findLengthToken, if_neg (by simp [hlf])]
  | cons b pre ih =>
    have hstep : lengthTokenAt (b :: (pre ++ crlf)) = false := by
      by_contra htoken
      rw [Bool.not_eq_false] at htoken
      rw [List.cons_append, findLengthToken, if_pos htoken] at h
      cases h
    have hnext : findLengthToken (pre ++ crlf) = none := by
      rw [List.cons_append, findLengthToken, if_neg (by simp [hstep])] at h
      exact h
    have hwhole : lengthTokenAt (b :: (pre ++ crlf ++ rest)) = false := by
      rcases Nat.lt_or_ge (b :: pre).length 15 with hlt | hge
      · have := lengthTokenAt_line (b :: pre) (10 :: rest) hlt
        simpa [crlf] using this
      · rw [← List.cons_append, lengthTokenAt_append rest (by simp at hge ⊢; omega), hstep]
    rw [List.cons_append, List.cons_append, findLengthToken, if_neg (Bool.eq_false_iff.mp hwhole),
      ih hnext]

theorem readLength_digits {cs : List UInt8} (h : ∀ c ∈ cs, Decimal.IsDigit c) (n : Nat)
    (c : UInt8) (hc : ¬ Decimal.IsDigit c) (rest : List UInt8) :
    readLength (u32 n) (cs ++ c :: rest) = (u32 (Decimal.valueFrom n cs), c :: rest) := by
  induction cs generalizing n with
  | nil =>
    have hif : ¬ (0x30 ≤ c ∧ c ≤ 0x39) := hc
    rw [List.nil_append, readLength, if_neg hif, Decimal.valueFrom_nil]
  | cons d cs ih =>
    have hd : 0x30 ≤ d ∧ d ≤ 0x39 := h d List.mem_cons_self
    have hstep : u32 (u32 (u32 n * 10) + (d.toNat - 0x30)) = u32 (10 * n + Decimal.digit d) := by
      unfold u32 Decimal.digit
      omega
    rw [List.cons_append, readLength, if_pos hd, hstep, Decimal.valueFrom_cons]
    exact ih (fun c hc => h c (List.mem_cons_of_mem _ hc)) _

/-- The lines of a header end with a line end. -/
theorem lines_crlf (l : StatusLine) (fields : List Field) :
    ∃ pre, l.text ++ crlf ++ fields.flatMap Field.text = pre ++ crlf := by
  rcases List.eq_nil_or_concat fields with rfl | ⟨before, f, rfl⟩
  · exact ⟨l.text, by simp⟩
  · exact ⟨l.text ++ crlf ++ before.flatMap Field.text ++ (f.name ++ [0x3A, 0x20] ++ f.value),
      by simp [Field.text]⟩

/-- A field of that name starts with the token. -/
theorem findLengthToken_field {f : Field} (hname : SameText f.name (cstr "Content-Length"))
    (rest : List UInt8) :
    findLengthToken (f.text ++ rest) = some (0x20 :: (f.value ++ (crlf ++ rest))) := by
  have hlen : f.name.length = 14 := by simpa [cstr] using congrArg List.length hname
  have htext : f.text ++ rest =
      (f.name ++ [0x3A]) ++ 0x20 :: (f.value ++ (crlf ++ rest)) := by
    rw [f.text_append]
    simp
  have hlen' : (f.name ++ [0x3A]).length = 15 := by
    rw [List.length_append, hlen]
    rfl
  have htoken : lengthTokenAt (f.text ++ rest) = true := by
    rw [lengthTokenAt_iff, htext, List.take_left' hlen', SameText, List.map_append, hname]
    decide
  obtain ⟨b, behind, hcons⟩ := List.exists_cons_of_ne_nil
    (show f.text ++ rest ≠ [] by simp [Field.text])
  rw [hcons] at htoken
  rw [hcons, findLengthToken, if_pos htoken, ← hcons, htext, List.drop_left' hlen']

theorem clean_digit : ∀ c : UInt8, Decimal.IsDigit c → c ≠ 13 ∧ c ≠ 10 ∧ c ≠ 0x20 :=
  Hex.forall_byte (by decide +kernel)

/-- A field with a length. -/
def Field.length (n : Nat) : Field where
  name := cstr "Content-Length"
  value := Decimal.ofNat n
  name_ne := by decide
  name_ok := by decide
  value_ok := fun b hb => by
    have hclean := clean_digit b ((Decimal.numeral_ofNat n).digits b hb)
    exact ⟨hclean.1, hclean.2.1⟩
  value_head := fun hspace => by
    have hdigit := (Decimal.numeral_ofNat n).digits _ (List.mem_of_mem_head? hspace)
    exact (clean_digit _ hdigit).2.2 rfl

/-- The length is the number of the first field of its name, cut to 32 bits. -/
theorem contentLengthGet_text {h : Head} {before after : List Field} {f : Field}
    (hfields : h.fields = before ++ f :: after)
    (hbefore : findLengthToken (h.line.text ++ crlf ++ before.flatMap Field.text) = none)
    (hname : SameText f.name (cstr "Content-Length")) (hvalue : Decimal.Numeral f.value) {c : Chain}
    {rest : List UInt8} (hc : c.head.data = h.text ++ rest) :
    contentLengthGet c = u32 (Decimal.value f.value) := by
  obtain ⟨pre, hpre⟩ := lines_crlf h.line before
  have hdata : c.head.data =
      pre ++ crlf ++ (f.text ++ (after.flatMap Field.text ++ (crlf ++ rest))) := by
    rw [hc, Head.text, hfields, List.flatMap_append, List.flatMap_cons, ← hpre]
    simp
  rw [hpre] at hbefore
  have hfind := findLengthToken_lines hbefore (f.text ++ (after.flatMap Field.text ++ (crlf ++ rest)))
  rw [← hdata, findLengthToken_field hname] at hfind
  have hread : readLength 0 (f.value ++ (crlf ++ (after.flatMap Field.text ++ (crlf ++ rest)))) =
      (u32 (Decimal.value f.value), crlf ++ (after.flatMap Field.text ++ (crlf ++ rest))) :=
    readLength_digits hvalue.digits 0 13 (by decide) _
  unfold contentLengthGet
  simp only [hfind, dropBlanks_value f, hread]
  rfl

/-- Where the token is not in the whole, it is not in the part. -/
theorem findLengthToken_prefix {xs ys : List UInt8} (hnone : findLengthToken (xs ++ ys) = none) :
    findLengthToken xs = none := by
  induction xs with
  | nil => rfl
  | cons b xs ih =>
    rw [List.cons_append, findLengthToken] at hnone
    split at hnone
    · cases hnone
    · next htoken =>
      have hshort : lengthTokenAt (b :: xs) ≠ true := by
        intro hat
        have hlen := congrArg List.length ((lengthTokenAt_iff _).mp hat)
        have hle : 15 ≤ (b :: xs).length := by
          simp [cstr] at hlen ⊢
          omega
        rw [← List.cons_append, lengthTokenAt_append ys hle] at htoken
        exact htoken hat
      rw [findLengthToken, if_neg hshort, ih hnone]

/-- Without the token there is no length. -/
theorem contentLengthGet_none {c : Chain} (h : findLengthToken c.head.data = none) :
    contentLengthGet c = 0 := by
  unfold contentLengthGet
  rw [h]

end Iotc.Http
