import Mathlib.Data.List.TakeWhile
import Mathlib.Tactic.Common

/-!
# C words, strings and static buffers

`UINT` is a status word, `ULONG` counts ticks and seconds, and `SizeT` is the 32-bit `size_t` of the
targets; all of them wrap.
A `Buf n` is a static array of `n` bytes. `Buf.write?` copies bytes to an offset
and is `none` when the copy would leave the array.
-/

namespace Iotc.C

abbrev UINT : Type := UInt32

abbrev ULONG : Type := UInt32

abbrev SizeT : Type := UInt32

/-- The bytes of a C string, without its terminator. -/
abbrev CStr : Type := List UInt8

def cstr (s : String) : CStr := s.toList.map fun c => c.toNat.toUInt8

/-- The C string at the start of a piece of memory, if it ends there. -/
def stringAt (mem : List UInt8) : Option CStr :=
  if 0 ∈ mem then some (mem.takeWhile (· ≠ 0)) else none

theorem stringAt_eq_some {mem : List UInt8} {text : CStr} (h : stringAt mem = some text) :
    0 ∉ text ∧ ∃ rest, mem = text ++ 0 :: rest := by
  unfold stringAt at h
  split at h
  · next hmem =>
    cases h
    refine ⟨fun h0 => by simpa using List.mem_takeWhile_imp h0, ?_⟩
    induction mem with
    | nil => cases hmem
    | cons c mem ih =>
      by_cases hc : c = 0
      · exact ⟨mem, by simp [hc]⟩
      · obtain ⟨rest, hrest⟩ := ih ((List.mem_cons.mp hmem).resolve_left fun h => hc h.symm)
        refine ⟨rest, ?_⟩
        rw [List.takeWhile_cons_of_pos (by simpa using hc), List.cons_append, ← hrest]
  · cases h

/-- The string ends at its first zero. -/
theorem stringAt_append_zero (cs : CStr) (rest : List UInt8) :
    stringAt (cs ++ 0 :: rest) = some (cs.takeWhile (· ≠ 0)) := by
  rw [stringAt, if_pos (by simp)]
  induction cs with
  | nil => rfl
  | cons c cs ih =>
    by_cases hc : c = 0
    · simp [hc]
    · simpa [hc] using ih

theorem stringAt_terminated (cs : CStr) : stringAt (cs ++ [0]) = some (cs.takeWhile (· ≠ 0)) :=
  stringAt_append_zero cs []

theorem stringAt_append {text : CStr} (h : 0 ∉ text) (rest : List UInt8) :
    stringAt (text ++ 0 :: rest) = some text := by
  have htext : ∀ c ∈ text, decide (c ≠ 0) = true := fun c hc => by
    simpa using fun h0 : c = 0 => h (h0 ▸ hc)
  rw [stringAt_append_zero, List.takeWhile_eq_self_iff.mpr htext]

/-- `strstr`: from the first place where `needle` stands. -/
def strstr (needle : CStr) : CStr → Option CStr
  | [] => if needle = [] then some [] else none
  | c :: cs => if needle.isPrefixOf (c :: cs) then some (c :: cs) else strstr needle cs

theorem strstr_isNone_iff {needle cs : CStr} : (strstr needle cs).isNone ↔ ¬ needle <:+: cs := by
  induction cs with
  | nil =>
    rw [strstr, List.infix_nil]
    split <;> simp [*]
  | cons c cs ih =>
    rw [strstr, List.infix_cons_iff, not_or, ← ih]
    by_cases h : needle.isPrefixOf (c :: cs) = true
    · simp [h, List.isPrefixOf_iff_prefix.mp h]
    · have hpre : ¬ needle <+: c :: cs := fun h' => h (List.isPrefixOf_iff_prefix.mpr h')
      simp [hpre]

/-- For one character. -/
theorem strstr_char (c : UInt8) (cs : CStr) :
    strstr [c] cs = if c ∈ cs then some (cs.dropWhile (· ≠ c)) else none := by
  induction cs with
  | nil => rfl
  | cons d cs ih =>
    by_cases h : c = d
    · simp [strstr, h]
    · have hd : d ≠ c := Ne.symm h
      simp [strstr, h, hd, ih]

/-- `sprintf` with a format of `%s` conversions. -/
def sprintf : CStr → List CStr → CStr
  | 0x25 :: 0x73 :: fmt, arg :: args => arg ++ sprintf fmt args
  | c :: fmt, args => c :: sprintf fmt args
  | [], _ => []

theorem sprintf_plain {fmt : CStr} (args : List CStr) (h : ¬ cstr "%s" <:+: fmt) :
    sprintf fmt args = fmt := by
  fun_induction sprintf fmt args with
  | case1 fmt arg args ih => exact absurd (List.prefix_append (cstr "%s") fmt).isInfix h
  | case2 c fmt args hne ih => rw [ih fun hfmt => h (hfmt.trans (List.suffix_cons c fmt).isInfix)]
  | case3 args => rfl

theorem length_sprintf_le (fmt : CStr) (args : List CStr) :
    (sprintf fmt args).length ≤ fmt.length + args.flatten.length := by
  fun_induction sprintf fmt args with
  | case1 fmt arg args ih =>
    simp only [List.length_append, List.length_cons, List.flatten_cons]
    omega
  | case2 c fmt args hne ih =>
    simp only [List.length_cons]
    omega
  | case3 args => exact Nat.zero_le _

/-- A conversion leaves room for a terminator. -/
theorem length_sprintf_lt {fmt : CStr} {args : List CStr} (h : cstr "%s" <:+: fmt)
    (hargs : args ≠ []) :
    (sprintf fmt args).length < fmt.length + args.flatten.length := by
  fun_induction sprintf fmt args with
  | case1 fmt arg args ih =>
    have hrest := length_sprintf_le fmt args
    simp only [List.length_append, List.length_cons, List.flatten_cons]
    omega
  | case2 c fmt args hne ih =>
    obtain ⟨arg, args, rfl⟩ := List.exists_cons_of_ne_nil hargs
    rcases List.infix_cons_iff.mp h with ⟨rest, hrest⟩ | htail
    · cases hrest
      exact (hne rest arg args rfl rfl rfl).elim
    · have := ih htail hargs
      simp only [List.length_cons] at this ⊢
      omega
  | case3 args => cases List.infix_nil.mp h

/-- An array of `n` bytes. -/
structure Buf (n : Nat) where
  bytes : List UInt8
  length_eq : bytes.length = n

namespace Buf

variable {n : Nat}

def zero (n : Nat) : Buf n := ⟨List.replicate n 0, List.length_replicate⟩

/-- Copy `xs` to offset `off`. -/
def write? (b : Buf n) (off : Nat) (xs : List UInt8) : Option (Buf n) :=
  if h : off + xs.length ≤ n then
    some ⟨b.bytes.take off ++ xs ++ b.bytes.drop (off + xs.length), by
      have := b.length_eq
      simp only [List.length_append, List.length_take, List.length_drop]; omega⟩
  else none

/-- Change each of the first `k` bytes. -/
def mapTake (b : Buf n) (k : Nat) (f : UInt8 → UInt8) : Buf n :=
  ⟨(b.bytes.take k).map f ++ b.bytes.drop k, by
    have := b.length_eq
    simp only [List.length_append, List.length_map, List.length_take, List.length_drop]; omega⟩

theorem write?_isSome (b : Buf n) {off : Nat} {xs : List UInt8} (h : off + xs.length ≤ n) :
    ∃ b', b.write? off xs = some b' := by
  simp [write?, h]

theorem write?_eq_some {b b' : Buf n} {off : Nat} {xs : List UInt8}
    (h : b.write? off xs = some b') :
    off + xs.length ≤ n ∧
      b'.bytes = b.bytes.take off ++ xs ++ b.bytes.drop (off + xs.length) := by
  unfold write? at h
  split at h
  · next hle => cases h; exact ⟨hle, rfl⟩
  · cases h

theorem write?_eq_none (b : Buf n) {off : Nat} {xs : List UInt8} (h : n < off + xs.length) :
    b.write? off xs = none := by
  simp [write?, h]

/-- Two writes one after the other are one. -/
theorem write?_append (b : Buf n) (off : Nat) (xs ys : List UInt8) :
    b.write? off (xs ++ ys) = (b.write? off xs).bind fun b => b.write? (off + xs.length) ys := by
  by_cases h : off + (xs ++ ys).length ≤ n
  · have hx : off + xs.length ≤ n := by rw [List.length_append] at h; omega
    have hy : off + xs.length + ys.length ≤ n := by rw [List.length_append] at h; omega
    have hlen := b.length_eq
    simp only [write?, dif_pos h, dif_pos hx, dif_pos hy, Option.bind_some]
    congr 2
    obtain ⟨front, hfront⟩ : ∃ front, b.bytes.take off ++ xs = front := ⟨_, rfl⟩
    have hlength : off + xs.length = front.length := by
      rw [← hfront, List.length_append, List.length_take]
      omega
    rw [← List.append_assoc, hfront, List.length_append, ← Nat.add_assoc, hlength, List.take_left,
      ← List.drop_drop, ← List.drop_drop, List.drop_left]
  · rw [write?_eq_none b (by omega)]
    by_cases hx : off + xs.length ≤ n
    · simp only [write?, dif_pos hx, Option.bind_some]
      rw [dif_neg (by rw [List.length_append] at h; omega)]
    · rw [write?_eq_none b (by omega)]
      rfl

/-- What was written reads back after what stood before it. -/
theorem take_write? {b b' : Buf n} {off : Nat} {xs : List UInt8} (h : b.write? off xs = some b') :
    b'.bytes.take (off + xs.length) = b.bytes.take off ++ xs := by
  obtain ⟨hle, hb⟩ := write?_eq_some h
  have hlen := b.length_eq
  have hfront : (b.bytes.take off ++ xs).length = off + xs.length := by
    rw [List.length_append, List.length_take]
    omega
  rw [hb, List.take_append_of_le_length (Nat.le_of_eq hfront.symm)]
  exact List.take_of_length_le (Nat.le_of_eq hfront)

theorem take_write?_zero {b b' : Buf n} {xs : List UInt8} (h : b.write? 0 xs = some b') :
    b'.bytes.take xs.length = xs := by
  have htake := take_write? h
  rwa [Nat.zero_add, List.take_zero, List.nil_append] at htake

/-- A text, and another one written over its terminator. -/
theorem strcat_bytes {b b1 b2 : Buf n} {xs ys : CStr} (h1 : b.write? 0 (xs ++ [0]) = some b1)
    (h2 : b1.write? xs.length (ys ++ [0]) = some b2) :
    ∃ rest, b2.bytes = xs ++ ys ++ 0 :: rest := by
  have hfront := congrArg (List.take xs.length) (take_write?_zero h1)
  have hle : xs.length ≤ (xs ++ [0]).length := by
    rw [List.length_append]
    omega
  rw [List.take_take, Nat.min_eq_left hle, List.take_left] at hfront
  refine ⟨b1.bytes.drop (xs.length + (ys ++ [0]).length), ?_⟩
  rw [(write?_eq_some h2).2, hfront]
  simp only [List.append_assoc, List.singleton_append]

/-- What stands behind a write stays. -/
theorem drop_write? {b b' : Buf n} {off i : Nat} {xs : List UInt8} (h : b.write? off xs = some b')
    (hi : off + xs.length ≤ i) : b'.bytes.drop i = b.bytes.drop i := by
  obtain ⟨hle, hb⟩ := write?_eq_some h
  have hlen := b.length_eq
  have hfront : (b.bytes.take off ++ xs).length = off + xs.length := by
    rw [List.length_append, List.length_take]
    omega
  obtain ⟨j, rfl⟩ := Nat.exists_eq_add_of_le hi
  rw [hb, ← hfront, List.drop_length_add_append, hfront, List.drop_drop]

/-- What stands in front of an index behind a write. -/
theorem take_write?_of_le {b b' : Buf n} {off i : Nat} {xs : List UInt8}
    (h : b.write? off xs = some b') (hi : off + xs.length ≤ i) :
    b'.bytes.take i =
      (b.bytes.take i).take off ++ xs ++ (b.bytes.take i).drop (off + xs.length) := by
  obtain ⟨hle, hb⟩ := write?_eq_some h
  have hlen := b.length_eq
  have hfront : (b.bytes.take off ++ xs).length = off + xs.length := by
    rw [List.length_append, List.length_take]
    omega
  rw [hb, List.take_append, hfront, List.take_of_length_le (by omega), List.take_take,
    Nat.min_eq_left (by omega), List.drop_take]

/-- A text and its terminator, printed to the start of an array of any content. -/
theorem print_iff (b : Buf n) {text : CStr} (h : 0 ∉ text) :
    (∃ b', b.write? 0 (text ++ [0]) = some b' ∧ stringAt b'.bytes = some text) ↔
      text.length + 1 ≤ n := by
  constructor
  · rintro ⟨b', hb', -⟩
    have hle := (write?_eq_some hb').1
    rw [List.length_append, List.length_singleton] at hle
    omega
  · intro hle
    have hroom : 0 + (text ++ [0]).length ≤ n := by
      rw [List.length_append, List.length_singleton]
      omega
    obtain ⟨b', hb'⟩ := b.write?_isSome hroom
    refine ⟨b', hb', ?_⟩
    rw [(write?_eq_some hb').2, List.take_zero, List.nil_append, List.append_assoc]
    exact stringAt_append h _

end Buf

end Iotc.C
