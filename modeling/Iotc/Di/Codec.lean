import Iotc.Di.Hex

/-!
# The hex conversions undo each other

`bin_to_hex` leaves a text in the work buffer that `hex_to_bin` reads back, also in place, where
each byte it writes stands before the digits it has yet to read. This fails at the two ends
only: the empty array leaves the buffer as it is, and the longest one is refused (`roundTrip_iff`).
-/

namespace Iotc.Di

open Iotc.C Iotc.Resume
open Lib.Hex (encode)

/-- The text of the bytes is in the work buffer, and its size with the terminator. -/
def EncodesTo (s : St) (binArray : Bytes) : Prop :=
  ∃ s', binToHex binArray s = .done .workBuffer s' ∧
    CharPtr.deref .workBuffer s' = some (some (encode binArray)) ∧
    s'.workBufferSize = 2 * binArray.length + 1

/-- From wherever the text of the bytes is read, the bytes are in the work buffer. -/
def DecodesBack (binArray : Bytes) : Prop :=
  ∀ (p : CharPtr) (s : St), p.deref s = some (some (encode binArray)) →
    ∃ s', hexToBin p s = .done .workBuffer s' ∧
      s'.workBuffer.bytes.take s'.workBufferSize = binArray ∧
      s'.workBufferSize = binArray.length

/-- NULL is returned, and nothing but the work buffer and its size has changed. -/
def GivesNull (s : St) (binArray : Bytes) : Prop :=
  ∃ w, binToHex binArray s = .done .null { s with workBuffer := w, workBufferSize := 0 }

/-- What the conversions are to do with an array, from any state. -/
def RoundTrip (s : St) (binArray : Bytes) : Prop :=
  if binArray.length ≤ iotcX509CertMaxSize then EncodesTo s binArray ∧ DecodesBack binArray
  else GivesNull s binArray

/-! ## `bin_to_hex` -/

/-- One byte, its digits and the terminator behind them. -/
theorem binToHexLoop_cons {k : Nat} (b : UInt8) (bs : Bytes) (w : Buf workBufferSize)
    (hk : k + 3 ≤ workBufferSize) :
    ∃ w1, binToHexLoop (b :: bs) k w =
      if k + 2 ≥ workBufferSize - 1 then (w1.write? 0 [0]).map (·, none)
      else binToHexLoop bs (k + 2) w1 := by
  have hzero : k + [(0 : UInt8)].length ≤ workBufferSize := by
    rw [List.length_singleton]; omega
  have hdigits : k + (sprintf02x b ++ [0]).length ≤ workBufferSize := by
    simpa [sprintf02x] using hk
  obtain ⟨w0, hw0⟩ := w.write?_isSome hzero
  obtain ⟨w1, hw1⟩ := w0.write?_isSome hdigits
  refine ⟨w1, ?_⟩
  simp only [binToHexLoop, hw0, hw1, Option.bind_eq_bind, Option.bind_some, Option.pure_def]
  split
  · cases w1.write? 0 [0] <;> rfl
  · rfl

/-- With room for all digits the loop gets to the end. -/
theorem binToHexLoop_room {bs : Bytes} {k : Nat} (w : Buf workBufferSize)
    (hk : k + 2 * bs.length < workBufferSize - 1) :
    ∃ w', binToHexLoop bs k w = some (w', some (k + 2 * bs.length)) := by
  induction bs generalizing k w with
  | nil => exact ⟨w, rfl⟩
  | cons b bs ih =>
    rw [List.length_cons] at hk ⊢
    obtain ⟨w1, hstep⟩ := binToHexLoop_cons b bs w (k := k) (by omega)
    have hidx : k + 2 * (bs.length + 1) = k + 2 + 2 * bs.length := by omega
    rw [hstep, if_neg (by omega), hidx]
    exact ih w1 (by omega)

/-- Without it the buffer overflow is noticed, one byte early. -/
theorem binToHexLoop_full {bs : Bytes} {j : Nat} (w : Buf workBufferSize)
    (hroom : j < iotcX509CertMaxSize) (hj : iotcX509CertMaxSize ≤ j + bs.length) :
    ∃ w', binToHexLoop bs (2 * j) w = some (w', none) := by
  induction bs generalizing j w with
  | nil => exact absurd hj (Nat.not_le.mpr hroom)
  | cons b bs ih =>
    rw [List.length_cons] at hj
    have hfits : 2 * j + 3 ≤ workBufferSize := by
      simp only [workBufferSize]
      omega
    obtain ⟨w1, hstep⟩ := binToHexLoop_cons b bs w hfits
    rw [hstep]
    split
    · have hzero : 0 + [(0 : UInt8)].length ≤ workBufferSize := by decide
      obtain ⟨w2, hw2⟩ := w1.write?_isSome hzero
      exact ⟨w2, by rw [hw2]; rfl⟩
    · next hmore =>
      simp only [workBufferSize] at hmore
      exact ih w1 (j := j + 1) (by omega) (by omega)

theorem binToHex_refused (s : St) {binArray : Bytes}
    (h : iotcX509CertMaxSize ≤ binArray.length) : GivesNull s binArray := by
  obtain ⟨w, hloop⟩ := binToHexLoop_full (j := 0) s.workBuffer (by decide)
    (Nat.le_trans h (Nat.le_add_left _ _))
  refine ⟨w, ?_⟩
  unfold binToHex
  rw [Prog.get_bind, hloop]
  rfl

/-- Below the largest size `bin_to_hex` returns the buffer as its loop leaves it. -/
theorem binToHex_returns (s : St) {binArray : Bytes}
    (h : binArray.length < iotcX509CertMaxSize) :
    ∃ w, binToHexLoop binArray 0 s.workBuffer = some (w, some (2 * binArray.length)) ∧
      binToHex binArray s = .done .workBuffer
        { s with workBuffer := w, workBufferSize := 2 * binArray.length + 1 } := by
  have hroom : 0 + 2 * binArray.length < workBufferSize - 1 := by
    simp only [workBufferSize]
    omega
  obtain ⟨w, hloop⟩ := binToHexLoop_room s.workBuffer hroom
  rw [Nat.zero_add] at hloop
  refine ⟨w, hloop, ?_⟩
  unfold binToHex
  rw [Prog.get_bind, hloop]
  rfl

/-- The text of at least one byte ends inside the buffer. -/
theorem encodesTo_of_ne_nil (s : St) {binArray : Bytes} (hne : binArray ≠ [])
    (h : binArray.length < iotcX509CertMaxSize) : EncodesTo s binArray := by
  obtain ⟨w, hloop, hret⟩ := binToHex_returns s h
  obtain ⟨-, htake⟩ := binToHexLoop_eq hne hloop
  refine ⟨_, hret, ?_, rfl⟩
  rw [List.take_zero, List.nil_append] at htake
  show (stringAt w.bytes).map some = _
  rw [← List.take_append_drop (2 * binArray.length + 1) w.bytes, htake, List.append_assoc]
  exact congrArg _ (stringAt_append (Lib.Hex.zero_notMem_encode binArray) _)

/-- The empty array has no turn that terminates the string. -/
theorem encodesTo_nil_iff (s : St) : EncodesTo s [] ↔ s.workBuffer.bytes[0]? = some 0 := by
  have hlen := s.workBuffer.length_eq
  have hrun : binToHex [] s = .done .workBuffer { s with workBufferSize := 1 } := rfl
  have hderef : CharPtr.deref .workBuffer { s with workBufferSize := 1 } = some (some []) ↔
      s.workBuffer.bytes[0]? = some 0 := by
    show (stringAt s.workBuffer.bytes).map some = _ ↔ _
    generalize s.workBuffer.bytes = mem at hlen
    rcases mem with _ | ⟨c, mem⟩
    · simp [workBufferSize] at hlen
    · by_cases hc : c = 0
      · simp [stringAt, hc]
      · simp [stringAt, hc, List.takeWhile_cons_of_pos]
  constructor
  · rintro ⟨s', hs', htext, -⟩
    rw [hrun] at hs'
    cases hs'
    exact hderef.mp htext
  · intro h
    exact ⟨_, hrun, hderef.mpr h, rfl⟩

/-! ## `hex_to_bin` -/

theorem decodedFrom_encode {binArray : Bytes} (h : binArray.length ≤ iotcX509CertMaxSize) :
    decodedFrom 0 (encode binArray) = some binArray := by
  have hroom : 0 + binArray.length ≤ workBufferSize - 2 := by
    simp only [workBufferSize, iotcX509CertMaxSize] at h ⊢
    omega
  rw [decodedFrom, Lib.Hex.decode_encode, Option.filter_some, if_pos (decide_eq_true hroom)]

/-- Whatever a string pointer reads as is what `hex_to_bin` finds in memory. -/
theorem hexToBin_of_deref {p : CharPtr} {s : St} {text : CStr} (hnul : 0 ∉ text)
    (h : p.deref s = some (some text)) :
    ∃ own, hexToBin p = hexToBinOf own ∧ stringAt (HexMem.str ⟨s.workBuffer, own⟩) = some text := by
  cases p with
  | null => cases h
  | workBuffer =>
    obtain ⟨_, hstr, heq⟩ := Option.map_eq_some_iff.mp h
    cases heq
    exact ⟨none, rfl, hstr⟩
  | text cs =>
    cases h
    exact ⟨some (text ++ [0]), rfl, stringAt_append hnul []⟩
  | heap b =>
    obtain ⟨_, hstr, heq⟩ := Option.map_eq_some_iff.mp h
    cases heq
    exact ⟨some b.val, rfl, hstr⟩

theorem decodesBack {binArray : Bytes} (h : binArray.length ≤ iotcX509CertMaxSize) :
    DecodesBack binArray := by
  intro p s hp
  obtain ⟨own, hcall, hstr⟩ := hexToBin_of_deref (Lib.Hex.zero_notMem_encode binArray) hp
  obtain ⟨m, hrun, hbytes⟩ := hexToBinMem_eq hstr
  rw [decodedFrom_encode h] at hrun hbytes
  refine ⟨{ s with workBuffer := m.work, workBufferSize := binArray.length }, ?_, ?_, rfl⟩
  · rw [hcall, hexToBinOf_eq hrun]
    rfl
  · exact hbytes binArray rfl

/-! ## The round trip -/

/-- Its size is what the work buffer is for, and it is refused. -/
theorem not_roundTrip_longest (s : St) {binArray : Bytes}
    (hlen : binArray.length = iotcX509CertMaxSize) : ¬ RoundTrip s binArray := by
  intro h
  rw [RoundTrip, if_pos (Nat.le_of_eq hlen)] at h
  obtain ⟨⟨s', hs', -⟩, -⟩ := h
  obtain ⟨w, hnull⟩ := binToHex_refused s (Nat.le_of_eq hlen.symm)
  rw [hnull] at hs'
  cases hs'

theorem roundTrip_nil_iff (s : St) : RoundTrip s [] ↔ s.workBuffer.bytes[0]? = some 0 := by
  have hlen : ([] : Bytes).length ≤ iotcX509CertMaxSize := Nat.zero_le _
  rw [RoundTrip, if_pos hlen, and_iff_left (decodesBack hlen), encodesTo_nil_iff]

theorem roundTrip_iff (s : St) (binArray : Bytes) :
    RoundTrip s binArray ↔ binArray.length ≠ iotcX509CertMaxSize ∧
      (binArray = [] → s.workBuffer.bytes[0]? = some 0) := by
  rcases Nat.lt_trichotomy binArray.length iotcX509CertMaxSize with hlt | heq | hgt
  · rw [and_iff_right (Nat.ne_of_lt hlt)]
    by_cases hnil : binArray = []
    · rw [hnil, roundTrip_nil_iff]
      exact ⟨fun h _ => h, fun h => h rfl⟩
    · rw [RoundTrip, if_pos (Nat.le_of_lt hlt)]
      exact iff_of_true ⟨encodesTo_of_ne_nil s hnil hlt, decodesBack (Nat.le_of_lt hlt)⟩
        fun h => absurd h hnil
  · exact iff_of_false (not_roundTrip_longest s heq) fun h => h.1 heq
  · rw [RoundTrip, if_neg (Nat.not_le.mpr hgt)]
    refine iff_of_true (binToHex_refused s (Nat.le_of_lt hgt)) ⟨Nat.ne_of_gt hgt, fun hnil => ?_⟩
    rw [hnil] at hgt
    cases hgt

/-- The buffer after the text of something else. -/
def stale : St := { St.boot with workBuffer := (Buf.zero _).mapTake 2 fun _ => 0x61 }

/-- A certificate of the largest size, and the empty array. -/
theorem ends_refused :
    ¬ RoundTrip .boot (List.replicate iotcX509CertMaxSize 0) ∧ ¬ RoundTrip stale [] := by
  constructor
  · exact not_roundTrip_longest _ (List.length_replicate ..)
  · rw [roundTrip_nil_iff]
    have hhead : stale.workBuffer.bytes[0]? = some 0x61 := rfl
    rw [hhead]
    decide

end Iotc.Di
