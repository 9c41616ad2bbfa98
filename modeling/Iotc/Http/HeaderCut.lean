import Iotc.Http.HeaderText

/-!
# Headers that end too early

The client looks for a header in the first packet alone. Where the text of a `Head` is cut there, it
takes no field for whole and gives up, but for a cut in the name of a field: the search for the colon
has no other end (`processHeaderFields_cut`).
-/

namespace Iotc.Http

open Iotc.C Iotc.Web Iotc.Lib

theorem takeName_none {xs : List UInt8} (h : 0x3A ∉ xs) : takeName xs = none := by
  induction xs with
  | nil => rfl
  | cons b xs ih =>
    rw [List.mem_cons, not_or] at h
    rw [takeName, if_neg (Ne.symm h.1), ih h.2]
    rfl

/-- No line end but a carriage return at the very end. -/
def Endless (xs : List UInt8) : Prop := Clean xs.dropLast ∧ 10 ∉ xs

theorem Endless.of_prefix {line xs : List UInt8} (hline : Clean line) (h : xs <+: line ++ [13]) :
    Endless xs := by
  refine ⟨fun b hb => hline b ?_, fun hlf => ?_⟩
  · have hle := h.length_le
    have hpre : xs.dropLast <+: line := by
      refine List.prefix_of_prefix_length_le ((List.dropLast_prefix xs).trans h)
        (List.prefix_append line [13]) ?_
      rw [List.length_append, List.length_singleton] at hle
      rw [List.length_dropLast]
      omega
    exact hpre.subset hb
  · rcases List.mem_append.mp (h.subset hlf) with hmem | hmem
    · exact (hline 10 hmem).2 rfl
    · simp at hmem

theorem Endless.suffix {xs ys : List UInt8} (h : Endless xs) (hsuffix : ys <:+ xs) : Endless ys := by
  refine ⟨fun b hb => h.1 b ?_, fun hlf => h.2 (hsuffix.subset hlf)⟩
  obtain ⟨zs, rfl⟩ := hsuffix
  have hne : ys ≠ [] := by
    rintro rfl
    cases hb
  rw [List.dropLast_append_of_ne_nil hne]
  exact List.mem_append_right zs hb

/-- Without a line end a line goes up to the last byte. -/
theorem takeLine_endless {xs : List UInt8} (h : Endless xs) : (takeLine xs).2.length ≤ 1 := by
  induction xs with
  | nil => simp [takeLine]
  | cons b xs ih =>
    cases xs with
    | nil => simp [takeLine]
    | cons c xs =>
      have hb : b ≠ 13 := (h.1 b (by simp)).1
      have hc : c ≠ 10 := fun hlf => h.2 (by simp [hlf])
      rw [takeLine, if_pos ⟨hb, hc⟩]
      exact ih (h.suffix (List.suffix_cons b _))

theorem fieldLoop_end (fuel : Nat) {xs : List UInt8} (h : xs.length ≤ 1) (offset : Nat) (s : St) :
    fieldLoop (fuel + 1) xs offset s = .ok 0 s := by
  match xs with
  | [] => rfl
  | [_] => rfl
  | _ :: _ :: _ => simp at h

/-- The fields in front are processed whatever stands behind them. -/
theorem fieldLoop_before (fields : List Field) (fuel : Nat) (xs : List UInt8) (offset : Nat) (s : St) :
    fieldLoop (fuel + fields.length) (fields.flatMap Field.text ++ xs) offset s =
      fieldLoop fuel xs (offset + (fields.flatMap Field.text).length) (processFields fields s) := by
  induction fields generalizing offset s with
  | nil => rfl
  | cons f fields ih =>
    rw [List.flatMap_cons, List.append_assoc, List.length_cons, ← Nat.add_assoc, fieldLoop_field, ih,
      List.length_append, Nat.add_assoc]
    rfl

/-- Nothing but a colon ends the search for it. -/
theorem fieldLoop_noColon {b c : UInt8} {rest : List UInt8} (h0 : b ≠ 0)
    (hblank : ¬ (b = 13 ∧ c = 10)) (hcolon : 0x3A ∉ b :: c :: rest) (fuel offset : Nat) (s : St) :
    fieldLoop (fuel + 1) (b :: c :: rest) offset s = .error .fault s := by
  rw [fieldLoop, if_neg h0, if_neg hblank]
  simp only [takeName_none hcolon]
  rfl

theorem fieldLoop_name {f : Field} {part : List UInt8} (hpart : part <+: f.name)
    (hlen : 2 ≤ part.length) (fuel offset : Nat) (s : St) :
    fieldLoop (fuel + 1) part offset s = .error .fault s := by
  match part with
  | [] => simp at hlen
  | [_] => simp at hlen
  | b :: c :: rest =>
    have hname : ∀ d ∈ b :: c :: rest, d ≠ 0 ∧ d ≠ 13 ∧ d ≠ 10 ∧ d ≠ 0x3A :=
      fun d hd => f.name_ok d (hpart.subset hd)
    obtain ⟨h0, h13, -, -⟩ := hname b List.mem_cons_self
    exact fieldLoop_noColon h0 (fun h => h13 h.1) (fun h => (hname _ h).2.2.2 rfl) fuel offset s

/-- Behind the colon the end of the packet ends the value, and the loop. -/
theorem fieldLoop_value (f : Field) {more : List UInt8} (hmore : more <+: 0x20 :: (f.value ++ [13]))
    (fuel offset : Nat) (s : St) :
    ∃ s', fieldLoop (fuel + 2) (f.name ++ 0x3A :: more) offset s = .ok 0 s' := by
  obtain ⟨b, name, hname⟩ := List.exists_cons_of_ne_nil f.name_ne
  obtain ⟨h0, h13, -, -⟩ := f.name_ok b (hname ▸ List.mem_cons_self)
  obtain ⟨c, behind, hbehind⟩ : ∃ c behind, name ++ 0x3A :: more = c :: behind :=
    List.exists_cons_of_ne_nil (by simp)
  have hcons : f.name ++ 0x3A :: more = b :: c :: behind := by rw [hname, List.cons_append, hbehind]
  have htake : takeName (b :: c :: behind) = some (f.name, more) := by
    rw [← hcons]
    exact takeName_colon (fun b hb => (f.name_ok b hb).2.2.2) _
  have hvalue : Clean (0x20 :: f.value) := by
    intro d hd
    rcases List.mem_cons.mp hd with rfl | hd
    · decide
    · exact f.value_ok d hd
  have hendless := (Endless.of_prefix hvalue hmore).suffix (List.dropWhile_suffix (· = 0x20))
  have hdrop : ((takeLine (more.dropWhile (· = 0x20))).2.drop 2).length ≤ 1 := by
    have := takeLine_endless hendless
    rw [List.length_drop]
    omega
  have hblank : ¬ (b = 13 ∧ c = 10) := fun h => h13 h.1
  rw [hcons, fieldLoop, if_neg h0, if_neg hblank]
  simp only [htake]
  exact ⟨_, fieldLoop_end fuel hdrop _ _⟩

/-- What stands of the fields ends within a name, from its second byte on. -/
def EndsInName (fields : List Field) (xs : List UInt8) : Prop :=
  ∃ before f after part, fields = before ++ f :: after ∧ 2 ≤ part.length ∧ part <+: f.name ∧
    xs = before.flatMap Field.text ++ part

theorem fieldLoop_endsInName {fields : List Field} {xs : List UInt8} (h : EndsInName fields xs)
    {fuel : Nat} (hfuel : xs.length < fuel) (offset : Nat) (s : St) :
    ∃ s', fieldLoop fuel xs offset s = .error .fault s' := by
  obtain ⟨before, f, after, part, rfl, hlen, hpart, rfl⟩ := h
  have hbefore := Field.length_le before
  rw [List.length_append] at hfuel
  obtain ⟨k, rfl⟩ : ∃ k, fuel = k + 1 + before.length := ⟨fuel - 1 - before.length, by omega⟩
  rw [fieldLoop_before]
  exact ⟨_, fieldLoop_name hpart hlen _ _ _⟩

theorem Field.text_colon (f : Field) : f.name ++ [0x3A] <+: f.text := by
  simp [Field.text]

/-- Anywhere else the loop finds no blank line, and that is all. -/
theorem fieldLoop_cut (fields : List Field) {xs : List UInt8}
    (hxs : xs <+: fields.flatMap Field.text ++ [13]) (hcut : ¬ EndsInName fields xs) {fuel : Nat}
    (hfuel : xs.length < fuel) (offset : Nat) (s : St) :
    ∃ s', fieldLoop fuel xs offset s = .ok 0 s' := by
  induction fields generalizing xs fuel offset s with
  | nil =>
    obtain ⟨k, rfl⟩ : ∃ k, fuel = k + 1 := ⟨fuel - 1, by omega⟩
    exact ⟨s, fieldLoop_end k hxs.length_le offset s⟩
  | cons f fields ih =>
    rcases Nat.lt_or_ge 1 xs.length with htwo | hone
    case inr =>
      obtain ⟨k, rfl⟩ : ∃ k, fuel = k + 1 := ⟨fuel - 1, by omega⟩
      exact ⟨s, fieldLoop_end k hone offset s⟩
    obtain ⟨k, rfl⟩ : ∃ k, fuel = k + 2 := ⟨fuel - 2, by omega⟩
    rw [List.flatMap_cons, List.append_assoc] at hxs
    rcases Nat.lt_or_ge xs.length f.text.length with hlt | hge
    · -- the cut is in this field
      have hpre : xs <+: f.text := List.prefix_of_prefix_length_le hxs (List.prefix_append _ _) (by omega)
      rcases Nat.lt_or_ge f.name.length xs.length with hname | hname
      · obtain ⟨more, rfl⟩ : f.name ++ [0x3A] <+: xs := by
          refine List.prefix_of_prefix_length_le (Field.text_colon f) hpre (by simp; omega)
        have hmore : more <+: 0x20 :: (f.value ++ [13]) := by
          have hall : more <+: 0x20 :: (f.value ++ crlf) := by
            rw [Field.text, List.append_assoc, List.append_assoc] at hpre
            simpa using hpre
          have hend : 0x20 :: (f.value ++ [13]) <+: 0x20 :: (f.value ++ crlf) := ⟨[10], by simp [crlf]⟩
          refine List.prefix_of_prefix_length_le hall hend ?_
          rw [f.length_text] at hlt
          simp at hlt ⊢
          omega
        have := fieldLoop_value f hmore k offset s
        simpa using this
      · refine absurd ⟨[], f, fields, xs, rfl, htwo, ?_, rfl⟩ hcut
        refine List.prefix_of_prefix_length_le hpre ?_ hname
        simp [Field.text]
    · obtain ⟨rest, rfl⟩ := List.prefix_of_prefix_length_le (List.prefix_append _ _) hxs hge
      rw [fieldLoop_field]
      have hfield := f.length_text
      rw [List.length_append] at hfuel
      refine ih ((List.prefix_append_right_inj _).mp hxs) ?_ (by omega) _ _
      rintro ⟨before, g, after, part, rfl, hlen, hpart, rfl⟩
      exact hcut ⟨f :: before, g, after, part, rfl, hlen, hpart, by simp⟩

/-- The fields in front are processed before the line without a colon is come to. -/
theorem processHeaderFields_noColon {l : StatusLine} {fields : List Field} {c : Chain}
    {junk : List UInt8} (hc : c.head.data = l.text ++ crlf ++ fields.flatMap Field.text ++ junk)
    (hversion : l.version ≠ 0) (hlen : 2 ≤ junk.length) (hzero : junk.head? ≠ some 0)
    (hblank : ¬ crlf <+: junk) (hcolon : 0x3A ∉ junk) (s : St) :
    processHeaderFields c s = .error .fault (processFields fields { s with
      responseChunked := false
      keepAlive := 0x10 < l.version }) := by
  match junk with
  | [] => simp at hlen
  | [_] => simp at hlen
  | b :: d :: rest =>
    have htext : c.head.data = l.text ++ (crlf ++ (fields.flatMap Field.text ++ b :: d :: rest)) := by
      simp [hc]
    have hline := takeLine_clean l.clean_text (fields.flatMap Field.text ++ b :: d :: rest)
    have hver : version c.head.data = l.version := by
      rw [htext, StatusLine.text]
      rfl
    have hfuel : fields.length < c.head.data.length + 1 := by
      have := Field.length_le fields
      simp only [htext, List.length_append]
      omega
    obtain ⟨k, hk⟩ : ∃ k, c.head.data.length + 1 = k + 1 + fields.length :=
      ⟨c.head.data.length - fields.length, by omega⟩
    have hblank' : ¬ (b = 13 ∧ d = 10) := by
      rintro ⟨rfl, rfl⟩
      exact hblank ⟨rest, rfl⟩
    rw [← htext] at hline
    unfold processHeaderFields
    simp only [hver, if_neg hversion, hline]
    show fieldLoop (c.head.data.length + 1) (fields.flatMap Field.text ++ b :: d :: rest) _ _ = _
    rw [hk, fieldLoop_before, fieldLoop_noColon (fun h => hzero (by rw [h]; rfl)) hblank' hcolon]

/-- What stands of the header ends there. -/
def Head.CutInName (h : Head) (xs : List UInt8) : Prop :=
  ∃ part, EndsInName h.fields part ∧ xs = h.line.text ++ crlf ++ part

theorem version_of_cut {xs ys : List UInt8} (hxs : xs <+: ys) (hlen : 7 < xs.length) :
    version xs = version ys := by
  obtain ⟨zs, rfl⟩ := hxs
  have hget : ∀ i, i < xs.length → xs.getD i 0 = (xs ++ zs).getD i 0 := by
    intro i hi
    rw [List.getD_eq_getElem?_getD, List.getD_eq_getElem?_getD, List.getElem?_append_left hi]
  rw [version, version, if_pos hlen, if_pos (by rw [List.length_append]; omega),
    hget 5 (by omega), hget 7 hlen]

/-- Of a header that goes on in another packet nothing is taken. The search for a colon runs out of
the packet just when the header is cut in a name, from its second byte on. -/
theorem processHeaderFields_cut (h : Head) {c : Chain} (hxs : c.head.data <+: h.text)
    (hlt : c.head.data.length < h.text.length) (hversion : h.line.version ≠ 0) (s : St) :
    (h.CutInName c.head.data ∧ ∃ s', processHeaderFields c s = .error .fault s') ∨
      (¬ h.CutInName c.head.data ∧ ∃ s', processHeaderFields c s = .ok 0 s') := by
  generalize hdata : c.head.data = xs at *
  have htext : h.text = h.line.text ++ (crlf ++ (h.fields.flatMap Field.text ++ crlf)) := by
    simp [Head.text]
  have hline : 12 ≤ h.line.text.length := by
    have hcode := h.line.code_length
    simp [StatusLine.text, cstr, hcode]
  have hlater : h.CutInName xs → h.line.text.length + 2 ≤ xs.length := by
    rintro ⟨part, -, rfl⟩
    simp [crlf]
  by_cases hver : xs.length ≤ 7
  · -- too little for a version
    refine .inr ⟨fun hcut => by have := hlater hcut; omega, { s with
      responseChunked := false
      keepAlive := false }, ?_⟩
    unfold processHeaderFields version
    rw [hdata]
    simp only [if_neg (Nat.not_lt.mpr hver)]
    rfl
  · have hvereq : version xs = h.line.version := by
      rw [version_of_cut hxs (by omega), htext, StatusLine.text]
      rfl
    let t : St := { s with
      responseChunked := false
      keepAlive := 0x10 < h.line.version }
    have hrun : processHeaderFields c s = fieldLoop (xs.length + 1) ((takeLine xs).2.drop 2)
        ((takeLine xs).1.length + 2) t := by
      unfold processHeaderFields
      simp only [hdata, hvereq, if_neg hversion]
      rfl
    rw [hrun]
    rcases Nat.lt_or_ge xs.length (h.line.text.length + 2) with hshort | hlong
    · -- the cut is in the first line, or in its line end
      have hpre : xs <+: h.line.text ++ [13] := by
        refine List.prefix_of_prefix_length_le hxs ?_ (by simp; omega)
        rw [htext]
        simp [crlf]
      have hdrop : ((takeLine xs).2.drop 2).length ≤ 1 := by
        have := takeLine_endless (Endless.of_prefix h.line.clean_text hpre)
        rw [List.length_drop]
        omega
      exact .inr ⟨fun hcut => by have := hlater hcut; omega, t, fieldLoop_end _ hdrop _ _⟩
    · obtain ⟨ys, rfl⟩ : h.line.text ++ crlf <+: xs := by
        refine List.prefix_of_prefix_length_le ?_ hxs (by simpa [crlf] using hlong)
        rw [htext, ← List.append_assoc]
        exact List.prefix_append _ _
      have htake : takeLine (h.line.text ++ crlf ++ ys) = (h.line.text, crlf ++ ys) := by
        rw [List.append_assoc]
        exact takeLine_clean h.line.clean_text ys
      have hdrop : (crlf ++ ys).drop 2 = ys := rfl
      have hfuel : ys.length < (h.line.text ++ crlf ++ ys).length + 1 := by
        rw [List.length_append]
        omega
      rw [htake, hdrop]
      by_cases hcut : EndsInName h.fields ys
      · refine .inl ⟨⟨ys, hcut, rfl⟩, fieldLoop_endsInName hcut hfuel _ _⟩
      · refine .inr ⟨?_, fieldLoop_cut h.fields ?_ hcut hfuel _ _⟩
        · rintro ⟨part, hpart, heq⟩
          exact hcut (List.append_cancel_left heq ▸ hpart)
        · rw [htext, ← List.append_assoc, List.prefix_append_right_inj] at hxs
          refine List.prefix_of_prefix_length_le hxs ?_ ?_
          · simp [crlf]
          · rw [htext] at hlt
            simp [crlf] at hlt ⊢
            omega

/-- A second field, cut behind its third letter. -/
theorem processHeaderFields_cut_three :
    let l : StatusLine := ⟨0x31, 0x31, cstr "200", cstr "OK", rfl, by decide⟩
    ∃ s', processHeaderFields
      ⟨⟨7, (Head.mk l [.length 3, .length 4]).text.take 39, 0⟩, []⟩ {} = .error .fault s' := by
  intro l
  rcases processHeaderFields_cut (Head.mk l [.length 3, .length 4])
    (c := ⟨⟨7, (Head.mk l [.length 3, .length 4]).text.take 39, 0⟩, []⟩) (List.take_prefix _ _)
    (by decide +kernel) (by decide) {} with ⟨-, hfault⟩ | ⟨hnot, -⟩
  · exact hfault
  · exact absurd ⟨cstr "Content-Length: 3\r\nCon", ⟨[.length 3], .length 4, [], cstr "Con",
      rfl, by decide, by decide +kernel, by decide +kernel⟩, by decide +kernel⟩ hnot

end Iotc.Http
