import Mathlib.Algebra.Group.Nat.Defs
import Mathlib.Tactic.Common

/-!
# Decimal numerals

Strings of ASCII digits: `ofNat` writes a number, `value` reads it back. A reader that takes a
leading zero for the base 8 finds the number they stand for just when it is at most 7
(`octalFrom_cases`).
-/

namespace Iotc.Lib.Decimal

def IsDigit (c : UInt8) : Prop := 0x30 ≤ c ∧ c ≤ 0x39

instance (c : UInt8) : Decidable (IsDigit c) := inferInstanceAs (Decidable (_ ∧ _))

def digit (c : UInt8) : Nat := c.toNat - 0x30

theorem digit_lt {c : UInt8} (h : IsDigit c) : digit c < 10 := by
  have := UInt8.le_iff_toNat_le.mp h.2
  unfold digit
  simp at this
  omega

/-- The number that `n` followed by the digits `cs` stands for. -/
def valueFrom (n : Nat) (cs : List UInt8) : Nat := cs.foldl (fun n c => 10 * n + digit c) n

def value (cs : List UInt8) : Nat := valueFrom 0 cs

@[simp] theorem valueFrom_nil (n : Nat) : valueFrom n [] = n := rfl

@[simp] theorem valueFrom_cons (n : Nat) (c : UInt8) (cs : List UInt8) :
    valueFrom n (c :: cs) = valueFrom (10 * n + digit c) cs := List.foldl_cons ..

theorem le_valueFrom (n : Nat) (cs : List UInt8) : n ≤ valueFrom n cs := by
  induction cs generalizing n with
  | nil => exact Nat.le_refl n
  | cons c cs ih =>
    have := ih (10 * n + digit c)
    rw [valueFrom_cons]
    omega

/-- At least one digit and nothing else. -/
structure Numeral (cs : List UInt8) : Prop where
  ne_nil : cs ≠ []
  digits : ∀ c ∈ cs, IsDigit c

instance (cs : List UInt8) : Decidable (Numeral cs) :=
  have : Decidable (∀ c ∈ cs, IsDigit c) := List.decidableBAll IsDigit cs
  decidable_of_iff (cs ≠ [] ∧ ∀ c ∈ cs, IsDigit c) ⟨fun h => ⟨h.1, h.2⟩, fun h => ⟨h.1, h.2⟩⟩

/-- Digits read in base 8, up to the first that is none. -/
def octalFrom (n : Nat) : List UInt8 → Nat
  | [] => n
  | c :: cs => if digit c < 8 then octalFrom (8 * n + digit c) cs else n

/-- The two readings agree on numbers up to 7 and on no others. -/
theorem octalFrom_cases {m n : Nat} (cs : List UInt8) (h : m = n ∧ n ≤ 7 ∨ m < n ∧ 8 ≤ n) :
    octalFrom m cs = valueFrom n cs ∧ valueFrom n cs ≤ 7 ∨
      octalFrom m cs < valueFrom n cs ∧ 8 ≤ valueFrom n cs := by
  induction cs generalizing m n with
  | nil => exact h
  | cons c cs ih =>
    rw [valueFrom_cons, octalFrom]
    split
    · exact ih (by omega)
    · have := le_valueFrom (10 * n + digit c) cs
      omega

/-! ## The numeral of a number -/

/-- Digits without a leading zero, one for zero. -/
def ofNat (n : Nat) : List UInt8 := (Nat.toDigits 10 n).map fun c => c.toNat.toUInt8

theorem toNat_char {c : Char} (h : c.isDigit = true) : c.toNat.toUInt8.toNat = c.toNat := by
  have hle : c.toNat ≤ 57 := (Char.isDigit_iff_toNat.mp h).2
  exact Nat.mod_eq_of_lt (by omega)

theorem numeral_ofNat (n : Nat) : Numeral (ofNat n) where
  ne_nil := by simp [ofNat]
  digits := by
    intro d hd
    obtain ⟨c, hc, rfl⟩ := List.mem_map.mp hd
    have hdigit := Nat.isDigit_of_mem_toDigits (by decide) (by decide) hc
    have hrange := Char.isDigit_iff_toNat.mp hdigit
    rw [IsDigit, UInt8.le_iff_toNat_le, UInt8.le_iff_toNat_le, toNat_char hdigit]
    exact hrange

theorem valueFrom_map {cs : List Char} (h : ∀ c ∈ cs, c.isDigit = true) (n : Nat) :
    valueFrom n (cs.map fun c => c.toNat.toUInt8) = Nat.ofDigitChars 10 cs n := by
  induction cs generalizing n with
  | nil => rfl
  | cons c cs ih =>
    rw [List.map_cons, valueFrom_cons, ih (fun d hd => h d (List.mem_cons_of_mem c hd)),
      Nat.ofDigitChars_cons, digit, toNat_char (h c List.mem_cons_self)]
    rfl

theorem value_ofNat (n : Nat) : value (ofNat n) = n := by
  have hdigits : ∀ c ∈ Nat.toDigits 10 n, c.isDigit = true := fun c hc =>
    Nat.isDigit_of_mem_toDigits (by decide) (by decide) hc
  rw [value, ofNat, valueFrom_map hdigits]
  exact Nat.ofDigitChars_ten_toDigits

theorem digitChar_toUInt8 {d : Nat} (h : d < 10) : d.digitChar.toNat.toUInt8 = .ofNat (d + 0x30) := by
  have hall : ∀ d : Fin 10, d.val.digitChar.toNat.toUInt8 = .ofNat (d.val + 0x30) := by decide
  exact hall ⟨d, h⟩

theorem ofNat_of_lt {n : Nat} (h : n < 10) : ofNat n = [.ofNat (n + 0x30)] := by
  rw [ofNat, Nat.toDigits_of_lt_base h, List.map_singleton, digitChar_toUInt8 h]

/-- The last digit and those before it. -/
theorem ofNat_of_le {n : Nat} (h : 10 ≤ n) :
    ofNat n = ofNat (n / 10) ++ [.ofNat (n % 10 + 0x30)] := by
  rw [ofNat, Nat.toDigits_of_base_le (by decide) h, List.map_append, List.map_singleton,
    digitChar_toUInt8 (Nat.mod_lt _ (by decide))]
  rfl

theorem length_ofNat_le_iff {n k : Nat} (hk : 0 < k) : (ofNat n).length ≤ k ↔ n < 10 ^ k := by
  rw [ofNat, List.length_map]
  exact Nat.length_toDigits_le_iff (by decide) hk

end Iotc.Lib.Decimal
