import Iotc.Di.Algorithms
import Iotc.Lib.Der
import Iotc.Lib.Hex
import Iotc.Lib.Tlv

/-!
# The signatures that are written

`sigToAsn1Der` amounts to one write of `derSignature` at the start of its array. The two INTEGERs
it writes are as long as the key, so that they are canonical when the first nine bits of neither
number are all zero (`der_canonical_iff`), and the array bounds them when it is as long as the
validator would have it (`der_in_buffer_iff`). Canonical or not, they are read back as the numbers
(`der_read_back`).
-/

namespace Iotc.Di

open Iotc.C Iotc.Lib

/-- The zero byte before an integer whose first bit is set. -/
def signPad (x : List UInt8) : List UInt8 := List.replicate ((padZero x).getD 0) 0

/-- What is written of an integer of `size` bytes. -/
def derInteger (size : Nat) (x : List UInt8) : List UInt8 :=
  0x02 :: UInt8.ofNat (size + (signPad x).length) :: (signPad x ++ x.take size)

def derHeader (sequenceSize : Nat) : List UInt8 :=
  if sequenceSize < 0x80 then [0x30, .ofNat sequenceSize]
  else [0x30, 0x81, .ofNat sequenceSize]

def derSignature (size : Nat) (r s : List UInt8) : List UInt8 :=
  derHeader (derInteger size r ++ derInteger size s).length ++
    (derInteger size r ++ derInteger size s)

/-- The first byte is read for its first bit, and all of `size` bytes are copied. -/
structure Readable (size : Nat) (x : List UInt8) : Prop where
  first : 0 < x.length
  le : size ≤ x.length

section
variable {n size : Nat} {x r s : List UInt8}

theorem padZero_eq (h : 0 < x.length) : padZero x = some (signPad x).length := by
  rcases x with _ | ⟨first, x⟩
  · cases h
  · simp [padZero, signPad]

theorem signPad_cons (first : UInt8) (x : List UInt8) :
    signPad (first :: x) = if first < 0x80 then [] else [0] := by
  have hbit : ∀ c : UInt8, c &&& 0x80 ≠ 0 ↔ ¬ c < 0x80 := Hex.forall_byte (by decide +kernel)
  unfold signPad padZero
  by_cases h : first < 0x80
  · simp [h, Classical.not_not.mp (mt (hbit first).mp (not_not_intro h))]
  · simp [h, (hbit first).mpr h]

/-- The bytes of an integer start with a zero byte or not. -/
theorem signPad_cases (x : List UInt8) : signPad x = [] ∨ signPad x = [0] := by
  rcases x with _ | ⟨first, x⟩
  · exact .inl rfl
  · rw [signPad_cons]
    split
    · exact .inl rfl
    · exact .inr rfl

theorem signPad_length_le (x : List UInt8) : (signPad x).length ≤ 1 := by
  rcases signPad_cases x with h | h <;> simp [h]

theorem derInteger_length (h : size ≤ x.length) :
    (derInteger size x).length = size + (signPad x).length + 2 := by
  simp only [derInteger, List.length_cons, List.length_append, List.length_take]
  omega

/-- Only the bytes of the integer are looked at. -/
theorem derInteger_take (hsize : 0 < size) (x : List UInt8) :
    derInteger size (x.take size) = derInteger size x := by
  have hpad : signPad (x.take size) = signPad x := by
    simp [signPad, padZero, hsize]
  rw [derInteger, derInteger, hpad, List.take_take, Nat.min_self]

theorem derHeader_length (k : Nat) : (derHeader k).length = if k < 0x80 then 2 else 3 := by
  unfold derHeader
  split <;> rfl

theorem writeInteger_eq (b : Buf n) (off : Nat) (h : size ≤ x.length) :
    writeInteger b off (signPad x).length size x = b.write? off (derInteger size x) := by
  have hsplit : derInteger size x = [0x02] ++ ([UInt8.ofNat (size + (signPad x).length)] ++
      (signPad x ++ x.take size)) := rfl
  rw [hsplit, Buf.write?_append]
  unfold writeInteger
  simp only [if_pos h]
  show (b.write? off [0x02]).bind _ = _
  congr 1
  funext b
  rw [Buf.write?_append]
  show (b.write? (off + 1) _).bind _ = (b.write? (off + 1) _).bind _
  congr 1
  funext b
  rcases signPad_cases x with hpad | hpad
  · simp [hpad]
  · rw [hpad, Buf.write?_append]
    rfl

/-- With its pointers set and its integers readable, the function makes one write. -/
theorem sigToAsn1Der_eq (signature : Buf n) (bits : Nat) (hr : Readable (bits / 8) r)
    (hs : Readable (bits / 8) s) :
    sigToAsn1Der (some signature) (some r) (some s) bits =
      (signature.write? 0 (derSignature (bits / 8) r s)).map fun out =>
        .ok (out, (derSignature (bits / 8) r s).length) := by
  have hlen : (derInteger (bits / 8) r ++ derInteger (bits / 8) s).length =
      bits / 8 * 2 + (signPad r).length + (signPad s).length + 4 := by
    rw [List.length_append, derInteger_length hr.le, derInteger_length hs.le]
    omega
  have hvalid : validateSigToAsn1Der (some signature) (some r) (some r) bits = 0 := by
    simp [validateSigToAsn1Der]
  have hnext : ∀ header, header + 2 + (signPad r).length + bits / 8 =
      header + (derInteger (bits / 8) r).length := by
    intro header
    rw [derInteger_length hr.le]
    omega
  have hsize : (derSignature (bits / 8) r s).length =
      (derInteger (bits / 8) r ++ derInteger (bits / 8) s).length +
        (derHeader (derInteger (bits / 8) r ++ derInteger (bits / 8) s).length).length := by
    rw [derSignature, List.length_append, Nat.add_comm]
  rw [hsize]
  unfold sigToAsn1Der derSignature derHeader
  rw [if_neg (by rw [hvalid]; decide)]
  simp only [Option.bind_eq_bind, Option.bind_some, padZero_eq hr.first, padZero_eq hs.first,
    writeInteger_eq _ _ hr.le, writeInteger_eq _ _ hs.le, hnext, ← hlen]
  split
  · have hsplit : ∀ k : UInt8, [0x30, k] = [0x30] ++ [k] := fun _ => rfl
    simp only [hsplit, List.append_assoc, Buf.write?_append, Option.map_eq_bind, Option.bind_assoc]
    rfl
  · have hsplit : ∀ k : UInt8, [0x30, 0x81, k] = [0x30] ++ ([0x81] ++ [k]) := fun _ => rfl
    simp only [hsplit, List.append_assoc, Buf.write?_append, Option.map_eq_bind, Option.bind_assoc]
    rfl

theorem writeInteger_eq_none (b : Buf n) (off pad : Nat) (h : x.length < size) :
    writeInteger b off pad size x = none := by
  unfold writeInteger
  simp only [if_neg (Nat.not_le.mpr h)]
  split <;> simp

/-- An integer that is shorter than the key, or empty, is read outside its memory. -/
theorem sigToAsn1Der_unreadable (signature : Buf n) (bits : Nat)
    (h : ¬ (Readable (bits / 8) r ∧ Readable (bits / 8) s)) :
    sigToAsn1Der (some signature) (some r) (some s) bits = none := by
  have hvalid : validateSigToAsn1Der (some signature) (some r) (some r) bits = 0 := by
    simp [validateSigToAsn1Der]
  unfold sigToAsn1Der
  rw [if_neg (by rw [hvalid]; decide)]
  simp only [Option.bind_eq_bind, Option.bind_some]
  by_cases hr : 0 < r.length
  · by_cases hs : 0 < s.length
    · have hshort : r.length < bits / 8 ∨ s.length < bits / 8 := by
        by_contra hle
        exact h ⟨⟨hr, by omega⟩, hs, by omega⟩
      rcases hshort with hshort | hshort
      · simp [writeInteger_eq_none _ _ _ hshort]
      · simp [writeInteger_eq_none _ _ _ hshort]
    · obtain rfl : s = [] := by simpa using hs
      simp [padZero]
  · obtain rfl : r = [] := by simpa using hr
    simp [padZero]

/-! ## Inside the buffer -/

/-- The array has the room that the validator computes. -/
def Roomy (n bits : Nat) : Prop := 2 * (bits / 8) + 10 ≤ n

/-- A signature inside the array, or an error and nothing written. -/
def InBuffer : Option (Except Int (Buf n × Nat)) → Prop
  | some (.ok (_, signatureLength)) => signatureLength ≤ n
  | some (.error e) => e ≠ 0
  | none => False

def Refused (res : Option (Except Int (Buf n × Nat))) : Prop :=
  ∃ e, e ≠ 0 ∧ res = some (.error e)

theorem derSignature_length_le {bits : Nat} (hr : Readable (bits / 8) r)
    (hs : Readable (bits / 8) s) : (derSignature (bits / 8) r s).length < 2 * (bits / 8) + 10 := by
  have hr' := signPad_length_le r
  have hs' := signPad_length_le s
  simp only [derSignature, List.length_append, derHeader_length, derInteger_length hr.le,
    derInteger_length hs.le]
  split <;> omega

/-- In that room what is written fits. -/
theorem sigToAsn1Der_roomy (signature : Buf n) {bits : Nat} (hr : Readable (bits / 8) r)
    (hs : Readable (bits / 8) s) (h : Roomy n bits) :
    ∃ out, signature.write? 0 (derSignature (bits / 8) r s) = some out ∧
      sigToAsn1Der (some signature) (some r) (some s) bits =
        some (.ok (out, (derSignature (bits / 8) r s).length)) := by
  have hlen := derSignature_length_le hr hs
  have hfits : 0 + (derSignature (bits / 8) r s).length ≤ n := by
    unfold Roomy at h
    omega
  obtain ⟨out, hout⟩ := signature.write?_isSome hfits
  refine ⟨out, hout, ?_⟩
  rw [sigToAsn1Der_eq signature bits hr hs, hout]
  rfl

/-- Readable integers are not refused, whatever the array. -/
theorem not_refused (signature : Buf n) {bits : Nat} (hr : Readable (bits / 8) r)
    (hs : Readable (bits / 8) s) :
    ¬ Refused (sigToAsn1Der (some signature) (some r) (some s) bits) := by
  rintro ⟨e, -, he⟩
  rw [sigToAsn1Der_eq signature bits hr hs] at he
  obtain ⟨_, -, he⟩ := Option.map_eq_some_iff.mp he
  cases he

/-- The writer stays in its array and refuses what its validator should refuse, exactly when the
array or `r` is missing, or nothing is and the array has the room that the validator computes. -/
theorem der_in_buffer_iff (signature : Option (Buf n)) (signatureR signatureS : Option (List UInt8))
    (bits : Nat) :
    let res := sigToAsn1Der signature signatureR signatureS bits
    (InBuffer res ∧ (¬ Roomy n bits → Refused res) ∧
      (signature = none ∨ signatureR = none ∨ signatureS = none → Refused res)) ↔
      signature = none ∨ signatureR = none ∨ ∃ r s, signatureR = some r ∧ signatureS = some s ∧
        Readable (bits / 8) r ∧ Readable (bits / 8) s ∧ Roomy n bits := by
  intro res
  have hrefused : ∀ e : Int, e ≠ 0 → res = some (.error e) →
      InBuffer res ∧ (¬ Roomy n bits → Refused res) ∧
        (signature = none ∨ signatureR = none ∨ signatureS = none → Refused res) := by
    intro e he hres
    have hr : Refused res := ⟨e, he, hres⟩
    exact ⟨by rw [hres]; exact he, fun _ => hr, fun _ => hr⟩
  rcases signature with _ | signature
  · have hres : res = some (.error (-1)) := by
      simp [res, sigToAsn1Der, validateSigToAsn1Der]
    exact ⟨fun _ => .inl rfl, fun _ => hrefused (-1) (by decide) hres⟩
  rcases signatureR with _ | r
  · have hres : res = some (.error (-1)) := by
      simp [res, sigToAsn1Der, validateSigToAsn1Der]
    exact ⟨fun _ => .inr (.inl rfl), fun _ => hrefused (-1) (by decide) hres⟩
  rcases signatureS with _ | s
  · -- the validator has looked at `r` twice, and `s` is dereferenced
    have hres : res = none := by
      simp [res, sigToAsn1Der, validateSigToAsn1Der]
    rw [hres]
    simp [InBuffer]
  by_cases hread : Readable (bits / 8) r ∧ Readable (bits / 8) s
  · obtain ⟨hr, hs⟩ := hread
    constructor
    · rintro ⟨-, hsmall, -⟩
      have hroomy : Roomy n bits := by
        by_contra h
        exact not_refused signature hr hs (hsmall h)
      exact .inr (.inr ⟨r, s, rfl, rfl, hr, hs, hroomy⟩)
    · rintro (h | h | ⟨_, _, -, -, -, -, hroomy⟩)
      · cases h
      · cases h
      · obtain ⟨out, hout, hres⟩ := sigToAsn1Der_roomy signature hr hs hroomy
        have hle := (Buf.write?_eq_some hout).1
        refine ⟨?_, fun h => absurd hroomy h, by rintro (h | h | h) <;> cases h⟩
        show InBuffer (sigToAsn1Der (some signature) (some r) (some s) bits)
        rw [hres]
        show (derSignature (bits / 8) r s).length ≤ n
        omega
  · have hres : res = none := sigToAsn1Der_unreadable signature bits hread
    rw [hres]
    constructor
    · rintro ⟨h, -⟩
      exact h.elim
    · rintro (h | h | ⟨_, _, hr, hs, hreadr, hreads, -⟩)
      · cases h
      · cases h
      · cases hr
        cases hs
        exact absurd ⟨hreadr, hreads⟩ hread

end

/-- A number of 32 bytes. -/
def oneNumber : List UInt8 := List.replicate 32 1

/-- Seventy bytes are written where eight are given; a buffer that is too small by one is not
refused; and `s` is dereferenced when it is NULL. -/
theorem der_leaves_buffer :
    ¬ InBuffer (sigToAsn1Der (some (Buf.zero 8)) (some oneNumber) (some oneNumber) 256) ∧
      (¬ Roomy 73 256 ∧
        ¬ Refused (sigToAsn1Der (some (Buf.zero 73)) (some oneNumber) (some oneNumber) 256)) ∧
      ¬ Refused (sigToAsn1Der (some (Buf.zero 74)) (some oneNumber) none 256) := by
  have hsmall : (sigToAsn1Der (some (Buf.zero 8)) (some oneNumber)
    (some oneNumber) 256).isNone := by
    decide +kernel
  have hshort : (sigToAsn1Der (some (Buf.zero 73)) (some oneNumber) (some oneNumber) 256).any
      (·.isOk) := by decide +kernel
  have hnull : (sigToAsn1Der (some (Buf.zero 74)) (some oneNumber) none 256).isNone := by
    decide +kernel
  refine ⟨?_, ⟨by unfold Roomy; omega, ?_⟩, ?_⟩
  · rw [Option.isNone_iff_eq_none.mp hsmall]
    exact id
  · rintro ⟨e, -, he⟩
    rw [he] at hshort
    cases hshort
  · rintro ⟨e, -, he⟩
    rw [he] at hnull
    cases hnull

/-! ## Canonical signatures -/

/-- The first nine bits are not all zero. -/
def LeadingBits : List UInt8 → Prop
  | x :: y :: _ => ¬ (x = 0 ∧ y < 0x80)
  | _ => True

section
variable {x : List UInt8}

/-- With its zero byte an integer is not negative. -/
theorem nonNegative_signPad (x : List UInt8) : Der.NonNegative (signPad x ++ x) := by
  rcases x with _ | ⟨first, x⟩
  · simp [Der.NonNegative, signPad, padZero]
  · rw [signPad_cons]
    by_cases h : first < 0x80
    · simp [h, Der.NonNegative]
    · simp [h, Der.NonNegative]

theorem value_signPad (x : List UInt8) : Der.value (signPad x ++ x) = Der.value x := by
  rcases signPad_cases x with h | h
  · rw [h, List.nil_append]
  · rw [h, List.singleton_append, Der.value_zero_cons]

theorem minimal_signPad (h : 2 ≤ x.length) : Der.Minimal (signPad x ++ x) ↔ LeadingBits x := by
  rcases x with _ | ⟨a, _ | ⟨b, x⟩⟩
  · simp at h
  · simp at h
  · rw [signPad_cons]
    by_cases ha : a < 0x80
    · -- without a zero byte the octets cannot start with ones
      have hones : ¬ (a = 0xFF ∧ 0x80 ≤ b) := fun hab => absurd (hab.1 ▸ ha) (by decide)
      rw [if_pos ha]
      exact and_iff_left hones
    · have hne : a ≠ 0 := fun h0 => ha (by rw [h0]; decide)
      rw [if_neg ha]
      exact iff_of_true ⟨fun h => ha h.2, fun h => absurd h.1 (by decide)⟩ fun h => hne h.1

/-- An integer of two bytes at least is canonical if its leading bits are not all zero. -/
theorem signPad_eq_content (h : 2 ≤ x.length) : signPad x ++ x = Der.content x ↔ LeadingBits x := by
  rw [Der.eq_content_iff, minimal_signPad h]
  exact and_iff_left ⟨nonNegative_signPad x, value_signPad x⟩

end

section
variable {size : Nat} {x r s : List UInt8}

theorem derInteger_tlv (hx : size ≤ x.length) (hsize : size < 0x7F) :
    derInteger size x = Der.tlv 0x02 (signPad x ++ x.take size) := by
  have hpad := signPad_length_le x
  have hlen : (signPad x ++ x.take size).length = size + (signPad x).length := by
    simp only [List.length_append, List.length_take]
    omega
  rw [Der.tlv_short _ (by omega), hlen]
  rfl

/-- The header is the shortest one, also where it changes its form. -/
theorem derSignature_tlv (hlen : (derInteger size r ++ derInteger size s).length < 0x100) :
    derSignature size r s = Der.tlv 0x30 (derInteger size r ++ derInteger size s) := by
  unfold derSignature derHeader Der.tlv Der.lengthOctets
  by_cases hshort : (derInteger size r ++ derInteger size s).length < 0x80
  · simp only [if_pos hshort, List.cons_append, List.nil_append]
  · simp only [if_neg hshort, if_pos hlen, List.cons_append, List.nil_append]

theorem derSignature_eq_iff (hr : r.length = size) (hs : s.length = size) (h2 : 2 ≤ size)
    (hsize : 2 * size + 6 < 0x80) :
    derSignature size r s = Der.integerPair r s ↔ LeadingBits r ∧ LeadingBits s := by
  have hpadr := signPad_length_le r
  have hpads := signPad_length_le s
  have hler := Der.content_length_le r
  have hles := Der.content_length_le s
  have hlen : (derInteger size r ++ derInteger size s).length < 0x80 := by
    rw [List.length_append, derInteger_length (by omega), derInteger_length (by omega)]
    omega
  have hpair : (Der.integer r ++ Der.integer s).length < 0x80 := by
    rw [Der.integer, Der.integer, Der.tlv_short _ (by omega), Der.tlv_short _ (by omega)]
    simp only [List.length_append, List.length_cons]
    omega
  have hcontent : ∀ x : List UInt8, x.length = size →
      (signPad x ++ x.take size).length < 0x80 := by
    intro x hx
    have := signPad_length_le x
    rw [List.length_append, List.length_take]
    omega
  rw [derSignature_tlv (by omega), Der.integerPair, Der.tlv_inj hlen hpair,
    derInteger_tlv (by omega) (by omega), derInteger_tlv (by omega) (by omega), Der.integer,
    Der.integer, Der.tlv_append_inj (hcontent r hr) (by omega),
    Der.tlv_inj (hcontent s hs) (by omega), List.take_of_length_le (by omega),
    List.take_of_length_le (by omega), signPad_eq_content (by omega), signPad_eq_content (by omega)]

end

/-- For two numbers of 32 bytes the function gives the DER encoding of the SEQUENCE of two INTEGERs,
exactly when the first nine bits of neither are all zero, and the array holds what is written. -/
theorem der_canonical_iff {n : Nat} (signature : Buf n) (r s : Buf 32) :
    (∃ out len, sigToAsn1Der (some signature) (some r.bytes) (some s.bytes) 256 =
      some (.ok (out, len)) ∧ out.bytes.take len = Der.integerPair r.bytes s.bytes) ↔
    LeadingBits r.bytes ∧ LeadingBits s.bytes ∧
      70 + (signPad r.bytes).length + (signPad s.bytes).length ≤ n := by
  have hr := r.length_eq
  have hs := s.length_eq
  have hlen : (derSignature 32 r.bytes s.bytes).length =
      70 + (signPad r.bytes).length + (signPad s.bytes).length := by
    have hpadr := signPad_length_le r.bytes
    have hpads := signPad_length_le s.bytes
    rw [derSignature, List.length_append, derHeader_length, List.length_append,
      derInteger_length (by omega), derInteger_length (by omega), if_pos (by omega)]
    omega
  have heq := derSignature_eq_iff hr hs (by decide) (by decide)
  have hrun := sigToAsn1Der_eq signature 256 (r := r.bytes) (s := s.bytes) ⟨by omega, by omega⟩
    ⟨by omega, by omega⟩
  rw [hrun, ← hlen]
  show (∃ out len, (signature.write? 0 (derSignature 32 r.bytes s.bytes)).map _ = _ ∧ _) ↔ _
  constructor
  · rintro ⟨out, len, hout, hder⟩
    obtain ⟨out', hwrite, hout⟩ := Option.map_eq_some_iff.mp hout
    cases hout
    have htake := Buf.take_write?_zero hwrite
    have hbits := heq.mp (htake.symm.trans hder)
    exact ⟨hbits.1, hbits.2, by have := (Buf.write?_eq_some hwrite).1; omega⟩
  · rintro ⟨hbr, hbs, hle⟩
    have hfits : 0 + (derSignature 32 r.bytes s.bytes).length ≤ n := by omega
    obtain ⟨out, hwrite⟩ := signature.write?_isSome hfits
    have htake := Buf.take_write?_zero hwrite
    refine ⟨out, _, by rw [hwrite]; rfl, ?_⟩
    exact htake.trans (heq.mpr ⟨hbr, hbs⟩)

/-- A number of 32 bytes that starts with two zero bytes. -/
def smallNumber : Buf 32 := ⟨0 :: 0 :: List.replicate 30 1, rfl⟩

/-- Its leading zeros are written. -/
theorem der_not_canonical :
    ¬ ∃ out len, sigToAsn1Der (some (Buf.zero 74)) (some smallNumber.bytes) (some oneNumber) 256 =
      some (.ok (out, len)) ∧
        out.bytes.take len = Der.integerPair smallNumber.bytes oneNumber := by
  have h : ((sigToAsn1Der (some (Buf.zero 74)) (some smallNumber.bytes) (some oneNumber) 256).bind
      (·.toOption)).any fun p =>
        p.1.bytes.take p.2 ≠ Der.integerPair smallNumber.bytes oneNumber := by decide +kernel
  rintro ⟨out, len, hout, hder⟩
  rw [hout] at h
  simp [Except.toOption, hder] at h

/-! ## Read back -/

section
variable {n size : Nat} {x r s : List UInt8}

theorem intValue_signPad (x : List UInt8) : Tlv.intValue (signPad x ++ x) = Der.value x := by
  rw [Tlv.intValue_of_nonNegative (nonNegative_signPad x), value_signPad]

/-- The signature of two integers of the key's length is read back, whatever follows it. -/
theorem readIntegerPair_derSignature {R : Tlv.Rules} (hr : r.length = size) (hs : s.length = size)
    (hpos : 1 ≤ size) (hsize : size ≤ 124) (rest : List UInt8) :
    Tlv.readIntegerPair R (derSignature size r s ++ rest) =
      some ((↑(Der.value r), ↑(Der.value s)), rest) := by
  have hpadr := signPad_length_le r
  have hpads := signPad_length_le s
  have hlen : (derInteger size r ++ derInteger size s).length < 0x100 := by
    rw [List.length_append, derInteger_length (by omega), derInteger_length (by omega)]
    omega
  have hne : ∀ x : List UInt8, x.length = size → signPad x ++ x ≠ [] := by
    intro x hx h
    have hzero := congrArg List.length h
    rw [List.length_append, hx, List.length_nil] at hzero
    omega
  rw [derSignature_tlv hlen]
  rw [derInteger_tlv (by omega) (by omega), derInteger_tlv (by omega) (by omega),
    List.take_of_length_le (by omega), List.take_of_length_le (by omega)] at hlen ⊢
  rw [Tlv.readIntegerPair_tlv (hne r hr) (hne s hs) hlen, intValue_signPad, intValue_signPad]

end

/-- In a buffer of the size that the validator computes the same octets are written, whatever stood
there before. They are read back as the two numbers, and what is read ends where they end. -/
def ReadBack {n : Nat} (r s : Buf n) : Prop :=
  ∃ octets : List UInt8, octets.length ≤ 2 * n + 9 ∧
    ∀ {k : Nat} (signature : Buf k), 2 * n + 10 ≤ k →
      ∃ out, sigToAsn1Der (some signature) (some r.bytes) (some s.bytes) (8 * n) =
          some (.ok (out, octets.length)) ∧
        out.bytes = octets ++ signature.bytes.drop octets.length ∧
        Tlv.readIntegerPair .ber out.bytes =
          some ((↑(Der.value r.bytes), ↑(Der.value s.bytes)), out.bytes.drop octets.length)

theorem der_read_back {n : Nat} (hn : 1 ≤ n ∧ n ≤ 124) (r s : Buf n) : ReadBack r s := by
  have hbits : 8 * n / 8 = n := by omega
  have hr : Readable (8 * n / 8) r.bytes := by
    rw [hbits]
    exact ⟨by rw [r.length_eq]; exact hn.1, Nat.le_of_eq r.length_eq.symm⟩
  have hs : Readable (8 * n / 8) s.bytes := by
    rw [hbits]
    exact ⟨by rw [s.length_eq]; exact hn.1, Nat.le_of_eq s.length_eq.symm⟩
  have hlt := derSignature_length_le hr hs
  rw [hbits] at hlt
  refine ⟨derSignature n r.bytes s.bytes, by omega, fun signature hk => ?_⟩
  obtain ⟨out, hout, hrun⟩ := sigToAsn1Der_roomy signature hr hs (by rw [Roomy, hbits]; exact hk)
  rw [hbits] at hout hrun
  have hbytes := (Buf.write?_eq_some hout).2
  rw [List.take_zero, List.nil_append, Nat.zero_add] at hbytes
  refine ⟨out, hrun, hbytes, ?_⟩
  rw [hbytes, List.drop_left]
  exact readIntegerPair_derSignature r.length_eq s.length_eq hn.1 hn.2 _

/-- The two zero bytes take the header to its long form. -/
theorem der_read_back_sixtyOne :
    ReadBack (n := 61) ⟨List.replicate 61 0x80, rfl⟩ ⟨List.replicate 61 0xFF, rfl⟩ :=
  der_read_back (by decide) _ _

end Iotc.Di
