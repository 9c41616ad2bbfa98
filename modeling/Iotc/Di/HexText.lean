import Iotc.Di.Client

/-!
# The strings that are converted

`hex_to_bin` converts the strings of an even number of digits, as many as the work buffer has room
for, and leaves a size of zero behind for every other one. It puts the string into lower case where
it stands, and looks no further than the terminator: memories that agree up to there go the same
way (`Agree`).
-/

namespace Iotc.Di

open Iotc.C Iotc.Resume
open Lib.Hex (IsDigit decode value)

/-- An even number of digits of either case, for no more bytes than pass the overflow check. -/
def HexText (text : CStr) : Prop :=
  text.length % 2 = 0 ∧ text.length ≤ 2998 ∧ ∀ c ∈ text, IsDigit c

theorem decodedFrom_eq_some {text : CStr} {bs : Bytes} :
    decodedFrom 0 text = some bs ↔ decode text = some bs ∧ text.length ≤ 2998 := by
  rw [decodedFrom, Option.filter_eq_some_iff, decide_eq_true_eq]
  refine and_congr_right fun h => ?_
  have hlen := Lib.Hex.length_of_decode h
  simp only [workBufferSize, iotcX509CertMaxSize]
  omega

theorem hexText_iff {text : CStr} : HexText text ↔ ∃ bs, decodedFrom 0 text = some bs := by
  simp only [decodedFrom_eq_some, exists_and_right, ← Option.isSome_iff_exists,
    Lib.Hex.decode_isSome, HexText]
  rw [and_assoc, and_comm (a := text.length ≤ 2998)]

/-! ## What is not read -/

/-- The string of either memory stands at the same place, up to index `i` they are the same, and
the work buffer is the same when the string is not in it. -/
structure Agree (i : Nat) (m₁ m₂ : HexMem) : Prop where
  str : m₁.str.take i = m₂.str.take i
  place : m₁.own.isSome = m₂.own.isSome
  work : m₁.own.isSome → m₁.work = m₂.work

section
variable {i j k n : Nat} {m m₁ m₂ : HexMem}

theorem Agree.read (h : Agree j m₁ m₂) (hi : i < j) : m₁.str[i]? = m₂.str[i]? := by
  rw [← List.getElem?_take_of_lt hi, h.str, List.getElem?_take_of_lt hi]

theorem Agree.write (h : Agree j m₁ m₂) (hk : k < j) {x : UInt8} {w₁ : Buf workBufferSize}
    (hw₁ : m₁.work.write? k [x] = some w₁) :
    ∃ w₂, m₂.work.write? k [x] = some w₂ ∧ Agree j ⟨w₁, m₁.own⟩ ⟨w₂, m₂.own⟩ := by
  obtain ⟨w₂, hw₂⟩ := m₂.work.write?_isSome (Buf.write?_eq_some hw₁).1
  refine ⟨w₂, hw₂, ?_, h.place, fun hown => ?_⟩
  · obtain ⟨work₁, own₁⟩ := m₁
    obtain ⟨work₂, own₂⟩ := m₂
    rcases own₁ with _ | mem₁ <;> rcases own₂ with _ | mem₂
    · have hbytes : work₁.bytes.take j = work₂.bytes.take j := h.str
      show w₁.bytes.take j = w₂.bytes.take j
      rw [Buf.take_write?_of_le hw₁ hk, Buf.take_write?_of_le hw₂ hk, hbytes]
    · cases h.place
    · cases h.place
    · exact h.str
  · rw [h.work hown, hw₂] at hw₁
    exact (Option.some.inj hw₁).symm

/-- The string's own memory is left as it is, and so is what stands from index `i` on. -/
structure Kept (i : Nat) (m m' : HexMem) : Prop where
  own : m'.own = m.own
  str : m'.str.drop i = m.str.drop i

theorem Kept.refl (i : Nat) (m : HexMem) : Kept i m m := ⟨rfl, rfl⟩

theorem Kept.write {x : UInt8} {w : Buf workBufferSize} {m' : HexMem}
    (hw : m.work.write? k [x] = some w) (hk : k < i) (h : Kept i ⟨w, m.own⟩ m') : Kept i m m' :=
  ⟨h.own, h.str.trans (HexMem.drop_str hw hk)⟩

/-- In front of the terminator at index `j` there is something to read. -/
theorem exists_read (hend : m.str[j]? = some 0) (hi : i ≤ j) : ∃ c, m.str[i]? = some c := by
  have hlen := (List.getElem?_eq_some_iff.mp hend).1
  exact ⟨_, List.getElem?_eq_getElem (Nat.lt_of_le_of_lt hi hlen)⟩

theorem lt_of_read {c : UInt8} (hend : m.str[j]? = some 0) (hi : i ≤ j) (hc : m.str[i]? = some c)
    (hne : c ≠ 0) : i < j := by
  refine Nat.lt_of_le_of_ne hi fun h => hne ?_
  rw [h, hend] at hc
  exact (Option.some.inj hc).symm

/-- The loop in front of the terminator at index `j`. It reads two characters only where the first
one is none, and it is back in front of the terminator when both are digits. -/
theorem hexToBinLoop_agree : ∀ {n i k : Nat} {m₁ m₂ m₁' : HexMem} {r : Option Nat},
    Agree (j + 1) m₁ m₂ → m₁.str[j]? = some 0 → i ≤ j → k ≤ i →
    hexToBinLoop n m₁ i k = some (m₁', r) →
    ∃ m₂', hexToBinLoop n m₂ i k = some (m₂', r) ∧ Agree (j + 1) m₁' m₂' ∧
      Kept j m₁ m₁' ∧ Kept j m₂ m₂'
  | 0, _, _, _, _, _, _, _, _, _, _, h => by cases h
  | n + 1, i, k, m₁, m₂, m₁', r, hA, hend, hi, hk, h => by
    obtain ⟨c, hc₁⟩ := exists_read hend hi
    have hc₂ := (hA.read (Nat.lt_succ_of_le hi)).symm.trans hc₁
    by_cases hzero : c = 0
    · subst hzero
      rw [hexToBinLoop_end hc₁] at h
      cases h
      exact ⟨m₂, hexToBinLoop_end hc₂, hA, .refl .., .refl ..⟩
    have hij : i < j := lt_of_read hend hi hc₁ hzero
    obtain ⟨d, hd₁⟩ := exists_read hend hij
    have hd₂ := (hA.read (Nat.lt_succ_of_le hij)).symm.trans hd₁
    by_cases hbad : value c = none ∨ value d = none
    · rw [hexToBinLoop_bad hc₁ hzero hd₁ hbad] at h
      cases h
      exact ⟨m₂, hexToBinLoop_bad hc₂ hzero hd₂ hbad, hA, .refl .., .refl ..⟩
    obtain ⟨hcv, hdv⟩ := not_or.mp hbad
    obtain ⟨a, ha⟩ := Option.ne_none_iff_exists'.mp hcv
    obtain ⟨b, hb⟩ := Option.ne_none_iff_exists'.mp hdv
    have hij' : i + 1 < j := lt_of_read hend hij hd₁ fun h0 => hdv (by rw [h0]; rfl)
    rw [hexToBinLoop_digits hc₁ hd₁ ha hb] at h
    obtain ⟨w₁, hw₁, h⟩ := Option.bind_eq_some_iff.mp h
    obtain ⟨w₂, hw₂, hA'⟩ := hA.write (by omega) hw₁
    rw [hexToBinLoop_digits hc₂ hd₂ ha hb, hw₂, Option.bind_some]
    split at h
    · next hlast =>
      cases h
      rw [if_pos hlast]
      exact ⟨_, rfl, hA', .write hw₁ (by omega) (.refl ..), .write hw₂ (by omega) (.refl ..)⟩
    · next hlast =>
      have hend' : (HexMem.str ⟨w₁, m₁.own⟩)[j]? = some 0 := by
        rw [← List.head?_drop, HexMem.drop_str hw₁ (by omega), List.head?_drop, hend]
      obtain ⟨m₂', hrun, hA'', hk₁, hk₂⟩ := hexToBinLoop_agree hA' hend' hij' (by omega) h
      rw [if_neg hlast]
      exact ⟨m₂', hrun, hA'', .write hw₁ (by omega) hk₁, .write hw₂ (by omega) hk₂⟩

/-- What `tolower` makes of memory with a string of `len` characters. -/
def lowered (len : Nat) (mem : Bytes) : Bytes :=
  (mem.take len).map Lib.Hex.lower ++ mem.drop len

theorem HexMem.lower_own (m : HexMem) (len : Nat) :
    (m.lower len).own = m.own.map (lowered len) := by
  obtain ⟨work, own⟩ := m
  cases own <;> rfl

theorem HexMem.lower_work {len : Nat} (h : m.own.isSome) : (m.lower len).work = m.work := by
  obtain ⟨work, own⟩ := m
  cases own with
  | none => cases h
  | some mem => rfl

theorem take_terminated (text rest : Bytes) :
    (text ++ 0 :: rest).take (text.length + 1) = text ++ [0] := by
  rw [List.take_append, List.take_of_length_le (by omega)]
  simp

theorem Agree.lower {text rest₁ rest₂ : Bytes} (h : Agree (text.length + 1) m₁ m₂)
    (h₁ : m₁.str = text ++ 0 :: rest₁) (h₂ : m₂.str = text ++ 0 :: rest₂) :
    Agree (text.length + 1) (m₁.lower text.length) (m₂.lower text.length) := by
  refine ⟨?_, ?_, ?_⟩
  · have hlow : (text.map Lib.Hex.lower).length = text.length := List.length_map ..
    rw [HexMem.str_lower h₁, HexMem.str_lower h₂, ← hlow, take_terminated, take_terminated]
  · rw [HexMem.lower_own, HexMem.lower_own, Option.isSome_map, Option.isSome_map, h.place]
  · intro hown
    rw [HexMem.lower_own, Option.isSome_map] at hown
    rw [HexMem.lower_work hown, HexMem.lower_work (h.place ▸ hown), h.work hown]

/-- Of memory outside the work buffer the string is changed to lower case and nothing else; and what
stands from the terminator on is left as it is, also in the work buffer. -/
structure Lowered (len : Nat) (m m' : HexMem) : Prop where
  own : m'.own = m.own.map (lowered len)
  str : m'.str.drop len = m.str.drop len

theorem Kept.lowered {text rest : Bytes} {m' : HexMem} (hstr : m.str = text ++ 0 :: rest)
    (h : Kept text.length (m.lower text.length) m') : Lowered text.length m m' := by
  refine ⟨h.own.trans (m.lower_own _), ?_⟩
  have hlow : (text.map Lib.Hex.lower).length = text.length := List.length_map ..
  rw [h.str, HexMem.str_lower hstr, hstr, List.drop_left, List.drop_left' hlow]

/-- The same string at the same place is converted to the same result. -/
theorem hexToBinMem_agree {text : CStr} (hstr : stringAt m₁.str = some text)
    (h : Agree (text.length + 1) m₁ m₂) {m₁' : HexMem} {r : Option Nat}
    (hrun : hexToBinMem m₁ = some (m₁', r)) :
    ∃ m₂', hexToBinMem m₂ = some (m₂', r) ∧ Agree (text.length + 1) m₁' m₂' ∧
      Lowered text.length m₁ m₁' ∧ Lowered text.length m₂ m₂' := by
  obtain ⟨hnul, rest₁, h₁⟩ := stringAt_eq_some hstr
  obtain ⟨rest₂, h₂⟩ : ∃ rest₂, m₂.str = text ++ 0 :: rest₂ := by
    refine ⟨m₂.str.drop (text.length + 1), ?_⟩
    have hfront : m₂.str.take (text.length + 1) = text ++ [0] := by
      rw [← h.str, h₁, take_terminated]
    rw [← List.take_append_drop (text.length + 1) m₂.str, hfront]
    simp
  have hstr₂ : stringAt m₂.str = some text := by
    rw [h₂]
    exact stringAt_append hnul rest₂
  have hend : (m₁.lower text.length).str[text.length]? = some 0 := by
    rw [HexMem.str_lower h₁]
    simp
  simp only [hexToBinMem, hstr, Option.bind_eq_bind, Option.bind_some] at hrun
  simp only [hexToBinMem, hstr₂, Option.bind_eq_bind, Option.bind_some]
  obtain ⟨m₂', hrun₂, hA, hk₁, hk₂⟩ :=
    hexToBinLoop_agree (h.lower h₁ h₂) hend (Nat.zero_le _) (Nat.le_refl _) hrun
  exact ⟨m₂', hrun₂, hA, hk₁.lowered h₁, hk₂.lowered h₂⟩

end

/-! ## What is converted -/

/-- A call on a string that stands in `own`, or in the work buffer: `m` is what it leaves of the
two, `p` the pointer that it returns and `size` the size that it sets. -/
structure Conversion (s : St) (own : Option Bytes) (text : CStr) (m : HexMem) (p : CharPtr)
    (size : Nat) : Prop where
  returns : hexToBinOf own s = .done p { s with workBuffer := m.work, workBufferSize := size }
  string : m.own = own.map (lowered text.length)
  /-- What stands behind the terminator makes no difference, and is left there. -/
  unread : ∃ r, hexToBinMem ⟨s.workBuffer, own⟩ = some (m, r) ∧
    ∀ m₂, Agree (text.length + 1) ⟨s.workBuffer, own⟩ m₂ →
      ∃ m₂', hexToBinMem m₂ = some (m₂', r) ∧ Agree (text.length + 1) m m₂' ∧
        m₂'.str.drop text.length = m₂.str.drop text.length
  accepted : p = .workBuffer ↔ HexText text
  converted : HexText text →
    size = text.length / 2 ∧ decode text = some (m.work.bytes.take size)
  refused : ¬ HexText text → p = .null ∧ size = 0
  /-- The caller looks at the size only. -/
  detected : ¬ HexText text → ∀ B azrtosConfig driver cid,
    (hexToBinOf own >>= fun _ => storeConverted B azrtosConfig driver cid) s =
      .done (.error (-16)) { s with workBuffer := m.work, workBufferSize := size }

theorem hexToBin_of_string {s : St} {own : Option Bytes} {text : CStr}
    (h : stringAt (HexMem.str ⟨s.workBuffer, own⟩) = some text) :
    ∃ m p size, Conversion s own text m p size := by
  obtain ⟨m, hrun, hbytes⟩ := hexToBinMem_eq h
  have hagree := fun (m₂ : HexMem) (hA : Agree (text.length + 1) ⟨s.workBuffer, own⟩ m₂) =>
    hexToBinMem_agree h hA hrun
  obtain ⟨_, _, _, hlowered, _⟩ := hagree _ ⟨rfl, rfl, fun _ => rfl⟩
  have hcall := hexToBinOf_eq hrun
  have hiff : HexText text ↔ ((decodedFrom 0 text).map List.length).isSome := by
    rw [Option.isSome_map, Option.isSome_iff_exists, hexText_iff]
  refine ⟨m, _, _, hcall, hlowered.own, ⟨_, hrun, fun m₂ hA => ?_⟩, ?_, ?_, ?_, ?_⟩
  · obtain ⟨m₂', hrun₂, hA', _, hlowered₂⟩ := hagree m₂ hA
    exact ⟨m₂', hrun₂, hA', hlowered₂.str⟩
  · rw [hiff]
    split <;> simp [*]
  · intro htext
    obtain ⟨bs, hbs⟩ := hexText_iff.mp htext
    have hdecode := (decodedFrom_eq_some.mp hbs).1
    have hlen := Lib.Hex.length_of_decode hdecode
    rw [hbs, Option.map_some, Option.getD_some, hbytes bs hbs]
    exact ⟨by omega, hdecode⟩
  · intro htext
    rw [hiff, Option.not_isSome_iff_eq_none] at htext
    simp [htext]
  · intro htext B azrtosConfig driver cid
    rw [hiff, Option.not_isSome_iff_eq_none] at htext
    show (hexToBinOf own s).bind _ = _
    rw [hcall, htext]
    rfl

/-- In either case, in memory that ends with the terminator. -/
theorem hexToBin_of_cert : ∃ m p size,
    Conversion .boot (some (cstr "0fA9" ++ [0])) (cstr "0fA9") m p size :=
  hexToBin_of_string (stringAt_append (by decide) [])

/-- Two letters outside the work buffer do not stay as they are. -/
theorem hexToBin_writes_string : ¬ ∀ m r,
    hexToBinMem ⟨St.boot.workBuffer, some (cstr "AB" ++ [0])⟩ = some (m, r) →
      m.own = some (cstr "AB" ++ [0]) := by
  intro hclaim
  have hrun : (hexToBinMem ⟨St.boot.workBuffer, some (cstr "AB" ++ [0])⟩).any fun p =>
      p.1.own = some (cstr "ab" ++ [0]) := by decide +kernel
  cases h : hexToBinMem ⟨St.boot.workBuffer, some (cstr "AB" ++ [0])⟩ with
  | none =>
    rw [h] at hrun
    cases hrun
  | some p =>
    rw [h, Option.any_some, decide_eq_true_eq, hclaim p.1 p.2 h] at hrun
    exact absurd hrun (by decide)

end Iotc.Di
