import Mathlib.Tactic.Common

/-!
# Hexadecimal strings

Strings are lists of ASCII codes. `encode` writes two lower-case digits a byte; `decode` reads two
digits of either case a byte and is defined on the strings of an even number of digits.
-/

namespace Iotc.Lib.Hex

/-- What a digit of either case stands for. -/
def value (c : UInt8) : Option UInt8 :=
  if 0x30 ≤ c ∧ c ≤ 0x39 then some (c - 0x30)
  else if 0x61 ≤ c ∧ c ≤ 0x66 then some (c - 0x61 + 10)
  else if 0x41 ≤ c ∧ c ≤ 0x46 then some (c - 0x41 + 10)
  else none

def decode : List UInt8 → Option (List UInt8)
  | [] => some []
  | [_] => none
  | a :: b :: cs =>
    match value a, value b, decode cs with
    | some m, some l, some bs => some ((16 * m + l) :: bs)
    | _, _, _ => none

/-- The lower-case form of an ASCII letter. -/
def lower (c : UInt8) : UInt8 := if 0x41 ≤ c ∧ c ≤ 0x5A then c + 0x20 else c

/-- What is checked for each of the 256 bytes. -/
theorem forall_byte {p : UInt8 → Prop} (h : ∀ n : Fin 256, p (.ofFin n)) (c : UInt8) : p c := by
  simpa using h c.toFin

theorem value_lower : ∀ c : UInt8, value (lower c) = value c :=
  forall_byte (by decide +kernel)

/-- Two digits more in front. -/
theorem decode_cons {a b m l : UInt8} (ha : value a = some m) (hb : value b = some l)
    (cs : List UInt8) : decode (a :: b :: cs) = (decode cs).map ((16 * m + l) :: ·) := by
  rw [decode, ha, hb]
  cases decode cs <;> rfl

theorem decode_map_lower (cs : List UInt8) : decode (cs.map lower) = decode cs := by
  induction cs using decode.induct with
  | case1 => rfl
  | case2 => rfl
  | _ => simp_all [decode, value_lower]

/-- The lower-case digit for a number below sixteen. -/
def digit (n : UInt8) : UInt8 := if n < 10 then 0x30 + n else 0x61 + (n - 10)

def encode (bs : List UInt8) : List UInt8 := bs.flatMap fun b => [digit (b / 16), digit (b % 16)]

@[simp] theorem encode_cons (b : UInt8) (bs : List UInt8) :
    encode (b :: bs) = digit (b / 16) :: digit (b % 16) :: encode bs := rfl

theorem length_encode (bs : List UInt8) : (encode bs).length = 2 * bs.length := by
  induction bs with
  | nil => rfl
  | cons b bs ih =>
    simp only [encode_cons, List.length_cons, ih]
    omega

/-- The text of bytes stands for these bytes. -/
theorem decode_encode (bs : List UInt8) : decode (encode bs) = some bs := by
  have hhigh : ∀ b : UInt8, value (digit (b / 16)) = some (b / 16) :=
    forall_byte (by decide +kernel)
  have hlow : ∀ b : UInt8, value (digit (b % 16)) = some (b % 16) := forall_byte (by decide +kernel)
  have hbyte : ∀ b : UInt8, 16 * (b / 16) + b % 16 = b := forall_byte (by decide +kernel)
  induction bs with
  | nil => rfl
  | cons b bs ih =>
    rw [encode_cons, decode_cons (hhigh b) (hlow b), ih, hbyte]
    rfl

theorem zero_notMem_encode (bs : List UInt8) : 0 ∉ encode bs := by
  have hhigh : ∀ b : UInt8, 0 ≠ digit (b / 16) := forall_byte (by decide +kernel)
  have hlow : ∀ b : UInt8, 0 ≠ digit (b % 16) := forall_byte (by decide +kernel)
  induction bs with
  | nil => exact List.not_mem_nil
  | cons b bs ih => simp [hhigh b, hlow b, ih]

/-! ## The strings that stand for bytes -/

/-- A digit of either case. -/
def IsDigit (c : UInt8) : Prop :=
  (0x30 ≤ c ∧ c ≤ 0x39) ∨ (0x61 ≤ c ∧ c ≤ 0x66) ∨ (0x41 ≤ c ∧ c ≤ 0x46)

theorem value_isSome {c : UInt8} : (value c).isSome ↔ IsDigit c := by
  unfold value IsDigit
  split_ifs <;> simp [*]

/-- The first two characters are digits, and the others stand for the other bytes. -/
theorem decode_cons_eq_some {a b : UInt8} {cs bs : List UInt8} :
    decode (a :: b :: cs) = some bs ↔ ∃ m l rest, value a = some m ∧ value b = some l ∧
      decode cs = some rest ∧ bs = (16 * m + l) :: rest := by
  cases ha : value a with
  | none => simp [decode, ha]
  | some m =>
    cases hb : value b with
    | none => simp [decode, ha, hb]
    | some l =>
      rw [decode_cons ha hb, Option.map_eq_some_iff]
      constructor
      · rintro ⟨rest, hrest, rfl⟩
        exact ⟨m, l, rest, rfl, rfl, hrest, rfl⟩
      · rintro ⟨_, _, rest, hm, hl, hrest, rfl⟩
        cases hm
        cases hl
        exact ⟨rest, hrest, rfl⟩

theorem length_of_decode : ∀ {cs bs : List UInt8}, decode cs = some bs → cs.length = 2 * bs.length
  | [], _, h => by
    cases h
    rfl
  | [_], _, h => by cases h
  | a :: b :: cs, bs, h => by
    obtain ⟨m, l, rest, -, -, hrest, rfl⟩ := decode_cons_eq_some.mp h
    have hlen := length_of_decode hrest
    simp only [List.length_cons]
    omega

theorem decode_isSome : ∀ {cs : List UInt8},
    (decode cs).isSome ↔ cs.length % 2 = 0 ∧ ∀ c ∈ cs, IsDigit c
  | [] => by simp [decode]
  | [_] => by simp [decode]
  | a :: b :: cs => by
    have hparity : (a :: b :: cs).length % 2 = cs.length % 2 := by
      simp only [List.length_cons]
      omega
    rw [hparity, List.forall_mem_cons, List.forall_mem_cons, ← value_isSome, ← value_isSome]
    have ih : (decode cs).isSome ↔ cs.length % 2 = 0 ∧ ∀ c ∈ cs, IsDigit c := decode_isSome
    cases ha : value a with
    | none => simp [decode, ha]
    | some m =>
      cases hb : value b with
      | none => simp [decode, ha, hb]
      | some l => simpa [decode_cons ha hb] using ih

end Iotc.Lib.Hex
