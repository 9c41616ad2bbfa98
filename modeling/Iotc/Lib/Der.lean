import Mathlib.Data.List.Induction
import Mathlib.Data.List.TakeWhile
import Mathlib.Tactic.Common

/-!
# DER integers

A number is given by big-endian octets, of which `integer` drops the zeros that DER does not
allow and adds the one it asks for. Its content octets are `Minimal`, and no other minimal
octets of a non-negative number have the same value.
-/

namespace Iotc.Lib.Der

/-- The value of big-endian octets. -/
def value (xs : List UInt8) : Nat := xs.foldl (fun n x => 256 * n + x.toNat) 0

@[simp] theorem value_snoc (xs : List UInt8) (x : UInt8) :
    value (xs ++ [x]) = 256 * value xs + x.toNat := by
  simp [value]

@[simp] theorem value_zero_cons (xs : List UInt8) : value (0 :: xs) = value xs := by
  simp [value]

/-- Not the first nine bits all zero, nor all one, unless there is one octet only. -/
def Minimal : List UInt8 → Prop
  | [] => False
  | [_] => True
  | x :: y :: _ => ¬ (x = 0 ∧ y < 0x80) ∧ ¬ (x = 0xFF ∧ 0x80 ≤ y)

/-- The first bit is the sign. -/
def NonNegative (xs : List UInt8) : Prop := ∀ x ∈ xs.head?, x < 0x80

/-- The content octets of the number with the octets `xs`. -/
def content (xs : List UInt8) : List UInt8 :=
  match xs.dropWhile (· = 0) with
  | [] => [0]
  | x :: xs => if x < 0x80 then x :: xs else 0 :: x :: xs

/-- The length octets of a content of fewer than 2^16 octets. -/
def lengthOctets (n : Nat) : List UInt8 :=
  if n < 0x80 then [.ofNat n]
  else if n < 0x100 then [0x81, .ofNat n]
  else [0x82, .ofNat (n / 0x100), .ofNat n]

def tlv (tag : UInt8) (content : List UInt8) : List UInt8 :=
  tag :: lengthOctets content.length ++ content

def integer (xs : List UInt8) : List UInt8 := tlv 0x02 (content xs)

/-- A SEQUENCE of two INTEGERs. -/
def integerPair (xs ys : List UInt8) : List UInt8 := tlv 0x30 (integer xs ++ integer ys)

theorem tlv_short (tag : UInt8) {content : List UInt8} (h : content.length < 0x80) :
    tlv tag content = tag :: UInt8.ofNat content.length :: content := by
  simp [tlv, lengthOctets, h]

/-- The length tells where the content ends. -/
theorem tlv_append_inj {tag : UInt8} {cs ds rest rest' : List UInt8} (hc : cs.length < 0x80)
    (hd : ds.length < 0x80) : tlv tag cs ++ rest = tlv tag ds ++ rest' ↔ cs = ds ∧ rest = rest' := by
  rw [tlv_short tag hc, tlv_short tag hd]
  simp only [List.cons_append, List.cons.injEq, true_and]
  constructor
  · rintro ⟨hlen, h⟩
    have hlen := congrArg UInt8.toNat hlen
    rw [UInt8.toNat_ofNat', UInt8.toNat_ofNat'] at hlen
    exact List.append_inj h (by omega)
  · rintro ⟨rfl, rfl⟩
    exact ⟨rfl, rfl⟩

theorem tlv_inj {tag : UInt8} {cs ds : List UInt8} (hc : cs.length < 0x80)
    (hd : ds.length < 0x80) : tlv tag cs = tlv tag ds ↔ cs = ds := by
  have hinj : tlv tag cs ++ [] = tlv tag ds ++ [] ↔ cs = ds ∧ [] = [] := tlv_append_inj hc hd
  simpa using hinj

/-! ## Content octets -/

theorem value_dropWhile (xs : List UInt8) : value (xs.dropWhile (· = 0)) = value xs := by
  induction xs with
  | nil => rfl
  | cons x xs ih =>
    by_cases hx : x = 0
    · subst hx
      simpa using ih
    · simp [hx]

/-- The first octet left is not zero. -/
theorem head_dropWhile {xs rest : List UInt8} {x : UInt8}
    (h : xs.dropWhile (· = 0) = x :: rest) : x ≠ 0 := by
  intro hx
  have hhead := List.head_dropWhile_not (p := (· = 0)) (l := xs) (by simp [h])
  simp [h, hx] at hhead

theorem value_content (xs : List UInt8) : value (content xs) = value xs := by
  rw [← value_dropWhile xs]
  unfold content
  split
  · next h => simp [h, value]
  · next x rest h =>
    rw [h]
    split <;> simp

theorem minimal_content (xs : List UInt8) : Minimal (content xs) := by
  unfold content
  split
  · trivial
  · next x rest h =>
    have hx := head_dropWhile h
    split
    · next hlt =>
      cases rest with
      | nil => trivial
      | cons y rest =>
        refine ⟨fun h => hx h.1, fun h => ?_⟩
        rw [h.1] at hlt
        exact absurd hlt (by decide)
    · next hge => exact ⟨fun h => hge h.2, fun h => absurd h.1 (by decide)⟩

theorem nonNegative_content (xs : List UInt8) : NonNegative (content xs) := by
  unfold content
  split
  · simp [NonNegative]
  · split
    · next hlt => simpa [NonNegative] using hlt
    · simp [NonNegative]

/-- Octets do not start with a zero. -/
def Stripped (xs : List UInt8) : Prop := xs.head? ≠ some 0

theorem Stripped.init {xs : List UInt8} {x : UInt8} (h : Stripped (xs ++ [x])) :
    Stripped xs := by
  cases xs with
  | nil => simp [Stripped]
  | cons y ys => exact h

theorem stripped_dropWhile (xs : List UInt8) : Stripped (xs.dropWhile (· = 0)) := by
  intro h
  cases hxs : xs.dropWhile (· = 0) with
  | nil => simp [hxs] at h
  | cons x rest =>
    rw [hxs] at h
    exact head_dropWhile hxs (by simpa using h)

theorem Stripped.eq_nil {xs : List UInt8} (h : Stripped xs) (h0 : value xs = 0) : xs = [] := by
  induction xs using List.reverseRecOn with
  | nil => rfl
  | append_singleton xs x ih =>
    rw [value_snoc] at h0
    obtain rfl := ih h.init (by omega)
    have hx : x = 0 := UInt8.toNat_inj.mp (by simp; omega)
    exact absurd (congrArg some hx) h

/-- Octets that do not start with a zero are determined by their value. -/
theorem Stripped.value_inj {xs ys : List UInt8} (hx : Stripped xs) (hy : Stripped ys)
    (h : value xs = value ys) : xs = ys := by
  induction xs using List.reverseRecOn generalizing ys with
  | nil => exact (hy.eq_nil h.symm).symm
  | append_singleton xs x ih =>
    cases ys using List.reverseRecOn with
    | nil => exact hx.eq_nil h
    | append_singleton ys y =>
      rw [value_snoc, value_snoc] at h
      have hx' := x.toNat_lt
      have hy' := y.toNat_lt
      obtain rfl : x = y := UInt8.toNat_inj.mp (by omega)
      rw [ih hx.init hy.init (by omega)]

theorem content_unique {xs cs : List UInt8} (hmin : Minimal cs) (hsign : NonNegative cs)
    (h : value cs = value xs) : cs = content xs := by
  have hdrop : ∀ ys : List UInt8, Stripped ys → value ys = value xs →
      xs.dropWhile (· = 0) = ys := fun _ hys hv =>
    (stripped_dropWhile xs).value_inj hys ((value_dropWhile xs).trans hv.symm)
  unfold content
  rcases cs with _ | ⟨c, _ | ⟨d, cs⟩⟩
  · exact hmin.elim
  · by_cases hc : c = 0
    · subst hc
      rw [hdrop [] (by simp [Stripped]) (by simpa [value] using h)]
    · have hc' : c < 0x80 := hsign c rfl
      rw [hdrop _ (by simpa [Stripped] using hc) h]
      simp [hc']
  · by_cases hc : c = 0
    · subst hc
      have hd : ¬ d < 0x80 := fun hd => hmin.1 ⟨rfl, hd⟩
      have hd0 : d ≠ 0 := fun h0 => hd (by rw [h0]; decide)
      rw [hdrop (d :: cs) (by simpa [Stripped] using hd0) (by simpa using h)]
      simp [hd]
    · have hc' : c < 0x80 := hsign c rfl
      rw [hdrop _ (by simpa [Stripped] using hc) h]
      simp [hc']

/-- The content octets of a number are the only minimal ones that have its value. -/
theorem eq_content_iff {xs cs : List UInt8} :
    cs = content xs ↔ Minimal cs ∧ NonNegative cs ∧ value cs = value xs := by
  constructor
  · rintro rfl
    exact ⟨minimal_content xs, nonNegative_content xs, value_content xs⟩
  · rintro ⟨hmin, hsign, h⟩
    exact content_unique hmin hsign h

theorem content_length_le (xs : List UInt8) : (content xs).length ≤ xs.length + 1 := by
  have hle := (List.dropWhile_sublist (l := xs) (· = 0)).length_le
  unfold content
  split
  · simp
  · next h =>
    rw [h] at hle
    simp only [List.length_cons] at hle
    split <;> simp only [List.length_cons] <;> omega

end Iotc.Lib.Der
