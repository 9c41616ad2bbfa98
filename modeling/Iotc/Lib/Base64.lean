import Mathlib.Tactic.Common

/-!
# Base64

`encode` writes four characters for each three bytes and fills the last group with `=`; `decode`
reads them back.
-/

namespace Iotc.Lib.Base64

/-- The character for a number below 64. -/
def char (n : Nat) : UInt8 :=
  if n < 26 then .ofNat (0x41 + n)
  else if n < 52 then .ofNat (0x61 + (n - 26))
  else if n < 62 then .ofNat (0x30 + (n - 52))
  else if n = 62 then 0x2B
  else 0x2F

def value (c : UInt8) : Option Nat :=
  if 0x41 ≤ c ∧ c ≤ 0x5A then some (c.toNat - 0x41)
  else if 0x61 ≤ c ∧ c ≤ 0x7A then some (c.toNat - 0x61 + 26)
  else if 0x30 ≤ c ∧ c ≤ 0x39 then some (c.toNat - 0x30 + 52)
  else if c = 0x2B then some 62
  else if c = 0x2F then some 63
  else none

def pad : UInt8 := 0x3D

def encode : List UInt8 → List UInt8
  | [] => []
  | [a] => [char (a.toNat / 4), char (a.toNat % 4 * 16), pad, pad]
  | [a, b] => [char (a.toNat / 4), char (a.toNat % 4 * 16 + b.toNat / 16), char (b.toNat % 16 * 4), pad]
  | a :: b :: c :: rest =>
    char (a.toNat / 4) :: char (a.toNat % 4 * 16 + b.toNat / 16) ::
      char (b.toNat % 16 * 4 + c.toNat / 64) :: char (c.toNat % 64) :: encode rest

def decode : List UInt8 → Option (List UInt8)
  | [] => some []
  | w :: x :: y :: z :: rest =>
    match value w, value x, value y, value z with
    | some m, some n, some k, some l =>
      (decode rest).map fun bs =>
        .ofNat (m * 4 + n / 16) :: .ofNat (n % 16 * 16 + k / 4) :: .ofNat (k % 4 * 64 + l) :: bs
    | some m, some n, some k, none =>
      if z = pad ∧ rest = [] then some [.ofNat (m * 4 + n / 16), .ofNat (n % 16 * 16 + k / 4)]
      else none
    | some m, some n, none, _ =>
      if y = pad ∧ z = pad ∧ rest = [] then some [.ofNat (m * 4 + n / 16)] else none
    | _, _, _, _ => none
  | _ => none

theorem value_char {n : Nat} (h : n < 64) : value (char n) = some n := by
  have hall : ∀ n : Fin 64, value (char n) = some n.val := by decide +kernel
  exact hall ⟨n, h⟩

theorem value_pad : value pad = none := by decide

/-- A letter, a digit, `+`, `/` or `=`. -/
def IsChar (c : UInt8) : Prop :=
  (0x41 ≤ c ∧ c ≤ 0x5A) ∨ (0x61 ≤ c ∧ c ≤ 0x7A) ∨ (0x2F ≤ c ∧ c ≤ 0x39) ∨ c = 0x2B ∨ c = 0x3D

instance (c : UInt8) : Decidable (IsChar c) := inferInstanceAs (Decidable (_ ∨ _))

theorem isChar_char {n : Nat} (h : n < 64) : IsChar (char n) := by
  have hall : ∀ n : Fin 64, IsChar (char n) := by decide +kernel
  exact hall ⟨n, h⟩

theorem isChar_encode : ∀ bs : List UInt8, ∀ c ∈ encode bs, IsChar c
  | [], c, hc => absurd hc List.not_mem_nil
  | [a], c, hc => by
    have ha := a.toNat_lt
    have hpad : IsChar pad := by decide
    simp only [encode, List.mem_cons, List.not_mem_nil, or_false] at hc
    rcases hc with rfl | rfl | rfl | rfl
    · exact isChar_char (by omega)
    · exact isChar_char (by omega)
    · exact hpad
    · exact hpad
  | [a, b], c, hc => by
    have ha := a.toNat_lt
    have hb := b.toNat_lt
    have hpad : IsChar pad := by decide
    simp only [encode, List.mem_cons, List.not_mem_nil, or_false] at hc
    rcases hc with rfl | rfl | rfl | rfl
    · exact isChar_char (by omega)
    · exact isChar_char (by omega)
    · exact isChar_char (by omega)
    · exact hpad
  | a :: b :: d :: rest, c, hc => by
    have ha := a.toNat_lt
    have hb := b.toNat_lt
    have hd := d.toNat_lt
    simp only [encode, List.mem_cons] at hc
    rcases hc with rfl | rfl | rfl | rfl | hc
    · exact isChar_char (by omega)
    · exact isChar_char (by omega)
    · exact isChar_char (by omega)
    · exact isChar_char (by omega)
    · exact isChar_encode rest c hc

/-- The bytes come back from the four numbers. -/
theorem ofNat_eq {n : Nat} {a : UInt8} (h : n = a.toNat) : UInt8.ofNat n = a := by
  rw [h, UInt8.ofNat_toNat]

theorem decode_encode : ∀ bs : List UInt8, decode (encode bs) = some bs
  | [] => rfl
  | [a] => by
    have ha := a.toNat_lt
    rw [encode, decode, value_char (by omega), value_char (by omega), value_pad]
    simp only [and_self, if_true]
    rw [ofNat_eq (a := a) (by omega)]
  | [a, b] => by
    have ha := a.toNat_lt
    have hb := b.toNat_lt
    rw [encode, decode, value_char (by omega), value_char (by omega), value_char (by omega), value_pad]
    simp only [and_self, if_true]
    rw [ofNat_eq (a := a) (by omega), ofNat_eq (a := b) (by omega)]
  | a :: b :: c :: rest => by
    have ha := a.toNat_lt
    have hb := b.toNat_lt
    have hc := c.toNat_lt
    rw [encode, decode, value_char (by omega), value_char (by omega), value_char (by omega),
      value_char (by omega)]
    simp only [decode_encode rest, Option.map_some]
    rw [ofNat_eq (a := a) (by omega), ofNat_eq (a := b) (by omega), ofNat_eq (a := c) (by omega)]

/-- Only groups of four characters can be read. -/
theorem length_of_decode : ∀ (cs : List UInt8) {bs : List UInt8}, decode cs = some bs → cs.length % 4 = 0
  | [], _, _ => rfl
  | [_], _, h => by cases h
  | [_, _], _, h => by cases h
  | [_, _, _], _, h => by cases h
  | w :: x :: y :: z :: rest, bs, h => by
    have hlen : (w :: x :: y :: z :: rest).length = rest.length + 4 := rfl
    rw [hlen, Nat.add_mod_right]
    rw [decode] at h
    split at h
    · obtain ⟨bs', hrest, -⟩ := Option.map_eq_some_iff.mp h
      exact length_of_decode rest hrest
    · split at h
      · next hnil => rw [hnil.2]; rfl
      · cases h
    · split at h
      · next hnil => rw [hnil.2.2]; rfl
      · cases h
    · cases h

theorem length_encode : ∀ bs : List UInt8, (encode bs).length = (bs.length + 2) / 3 * 4
  | [] => rfl
  | [_] => by simp [encode]
  | [_, _] => by simp [encode]
  | _ :: _ :: _ :: rest => by
    rw [encode]
    simp only [List.length_cons, length_encode rest]
    omega

end Iotc.Lib.Base64
