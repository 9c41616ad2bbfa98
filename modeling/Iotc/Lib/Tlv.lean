import Iotc.Lib.Der
import Mathlib.Algebra.Ring.Int.Defs

/-!
# Tagged values read back

A value is a tag, length octets, and as many octets of content. Length octets are read in the
short form and in the long form of one octet; DER allows the long form only where the short one
does not do.
-/

namespace Iotc.Lib.Tlv

open Der

inductive Rules where
  | ber
  | der
  deriving DecidableEq

def readLength (R : Rules) : List UInt8 → Option (Nat × List UInt8)
  | [] => none
  | l :: xs =>
    if l < 0x80 then some (l.toNat, xs)
    else if l = 0x81 then
      match xs with
      | [] => none
      | n :: xs => if R = .der ∧ n < 0x80 then none else some (n.toNat, xs)
    else none

/-- The content of a value with this tag, and the octets behind it. -/
def expect (R : Rules) (tag : UInt8) : List UInt8 → Option (List UInt8 × List UInt8)
  | [] => none
  | t :: xs =>
    if t = tag then do
      let (n, xs) ← readLength R xs
      if n ≤ xs.length then some (xs.take n, xs.drop n) else none
    else none

/-- The content of a value with this tag, and nothing behind it. -/
def only (R : Rules) (tag : UInt8) (xs : List UInt8) : Option (List UInt8) := do
  let (content, rest) ← expect R tag xs
  if rest = [] then some content else none

instance (xs : List UInt8) : Decidable (NonNegative xs) :=
  decidable_of_iff (xs.head?.all (· < 0x80)) (by simp [NonNegative, Option.all_eq_true])

/-- The number that content octets stand for, in two's complement. -/
def intValue (xs : List UInt8) : Int :=
  if NonNegative xs then value xs else value xs - 256 ^ xs.length

def readInteger (R : Rules) (xs : List UInt8) : Option (Int × List UInt8) := do
  let (content, rest) ← expect R 0x02 xs
  if content = [] then none else some (intValue content, rest)

/-- A SEQUENCE of two INTEGERs, and the octets behind it. -/
def readIntegerPair (R : Rules) (xs : List UInt8) : Option ((Int × Int) × List UInt8) := do
  let (content, rest) ← expect R 0x30 xs
  let (r, content) ← readInteger R content
  let (s, content) ← readInteger R content
  if content = [] then some ((r, s), rest) else none

/-- The arcs of an OBJECT IDENTIFIER whose arcs have an octet each. The first octet holds two. -/
def arcs : List UInt8 → Option (List Nat)
  | [] => none
  | x :: xs =>
    if (x :: xs).all (· < 0x80) then
      let top := min (x.toNat / 40) 2
      some (top :: (x.toNat - 40 * top) :: xs.map UInt8.toNat)
    else none

/-! ## What is written is read -/

section
variable {R : Rules} {tag : UInt8} {content rest xs ys : List UInt8}

theorem readLength_lengthOctets {n : Nat} (h : n < 0x100) (rest : List UInt8) :
    readLength R (lengthOctets n ++ rest) = some (n, rest) := by
  have hof : (UInt8.ofNat n).toNat = n := by
    rw [UInt8.toNat_ofNat']
    omega
  have hlt : UInt8.ofNat n < 0x80 ↔ n < 0x80 := by
    rw [UInt8.lt_iff_toNat_lt, hof]
    rfl
  unfold lengthOctets
  by_cases hshort : n < 0x80
  · simp [hshort, readLength, hlt, hof]
  · simp [hshort, h, readLength, hlt, hof]

theorem expect_tlv (h : content.length < 0x100) (rest : List UInt8) :
    expect R tag (tlv tag content ++ rest) = some (content, rest) := by
  have hle : content.length ≤ (content ++ rest).length := by
    rw [List.length_append]
    omega
  simp only [tlv, List.cons_append, List.append_assoc, expect, if_true,
    readLength_lengthOctets h, Option.bind_eq_bind, Option.bind_some, if_pos hle, List.take_left,
    List.drop_left]

theorem only_tlv (h : content.length < 0x100) : only R tag (tlv tag content) = some content := by
  have hread : expect R tag (tlv tag content ++ []) = some (content, []) := expect_tlv h []
  rw [List.append_nil] at hread
  simp [only, hread]

theorem readInteger_tlv (hne : content ≠ []) (h : content.length < 0x100) (rest : List UInt8) :
    readInteger R (tlv 0x02 content ++ rest) = some (intValue content, rest) := by
  simp [readInteger, expect_tlv h, hne]

theorem readIntegerPair_tlv (hx : xs ≠ []) (hy : ys ≠ [])
    (h : (tlv 0x02 xs ++ tlv 0x02 ys).length < 0x100) (rest : List UInt8) :
    readIntegerPair R (tlv 0x30 (tlv 0x02 xs ++ tlv 0x02 ys) ++ rest) =
      some ((intValue xs, intValue ys), rest) := by
  have hlen : xs.length < 0x100 ∧ ys.length < 0x100 := by
    simp only [tlv, List.length_append, List.length_cons] at h
    omega
  have hlast := readInteger_tlv (R := R) hy hlen.2 []
  rw [List.append_nil] at hlast
  simp [readIntegerPair, expect_tlv h, readInteger_tlv hx hlen.1, hlast]

theorem intValue_of_nonNegative (h : NonNegative xs) : intValue xs = value xs := if_pos h

end

end Iotc.Lib.Tlv
