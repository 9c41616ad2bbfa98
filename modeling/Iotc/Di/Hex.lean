import Iotc.Di.Basic
import Iotc.Lib.Hex

/-!
# The hex conversions

`bin_to_hex` and `hex_to_bin` share the static work buffer and its size. The functions
on memory are `none` where the code would leave an array; they return the index reached, or
nothing where the code returns NULL.
-/

namespace Iotc.Di

open Iotc.C Iotc.Resume

/-! ## `bin_to_hex` -/

/-- `sprintf` with the format `%02x`. -/
def sprintf02x (b : UInt8) : Bytes := [Lib.Hex.digit (b / 16), Lib.Hex.digit (b % 16)]

def binToHexLoop : Bytes → Nat → Buf workBufferSize → Option (Buf workBufferSize × Option Nat)
  | [], hexIdx, w => some (w, some hexIdx)
  | b :: bs, hexIdx, w => do
    let w ← w.write? hexIdx [0]
    let w ← w.write? hexIdx (sprintf02x b ++ [0])
    if hexIdx + 2 ≥ workBufferSize - 1 then
      let w ← w.write? 0 [0]
      return (w, none)
    binToHexLoop bs (hexIdx + 2) w

def binToHex (binArray : Bytes) : M CharPtr := do
  let s ← .get
  match binToHexLoop binArray 0 s.workBuffer with
  | none => .stop .fault
  | some (w, none) =>
    .modify ({ · with workBuffer := w, workBufferSize := 0 })
    return .null
  | some (w, some hexIdx) =>
    .modify ({ · with workBuffer := w, workBufferSize := hexIdx + 1 })
    return .workBuffer

/-- The loop behind the first `k` bytes, unless it finds no room: the text of the bytes and its
terminator follow them. -/
theorem binToHexLoop_eq : ∀ {bs : Bytes} {k : Nat} {w w' : Buf workBufferSize} {hexIdx : Nat},
    bs ≠ [] → binToHexLoop bs k w = some (w', some hexIdx) →
    hexIdx = k + (Lib.Hex.encode bs).length ∧
      w'.bytes.take (hexIdx + 1) = w.bytes.take k ++ (Lib.Hex.encode bs ++ [0])
  | [], _, _, _, _, hne, _ => absurd rfl hne
  | b :: bs, k, w, w', hexIdx, _, h => by
    obtain ⟨w1, hw1, h⟩ := Option.bind_eq_some_iff.mp h
    obtain ⟨w2, hw2, h⟩ := Option.bind_eq_some_iff.mp h
    have hfront : w1.bytes.take k = w.bytes.take k := by
      obtain ⟨hle, hbytes⟩ := Buf.write?_eq_some hw1
      have := w.length_eq
      rw [hbytes, List.append_assoc, List.take_append_of_le_length (by simp; omega),
        List.take_take, Nat.min_self]
    have htake : w2.bytes.take (k + 2 + 1) = w.bytes.take k ++ (sprintf02x b ++ [0]) := by
      rw [← hfront]
      exact Buf.take_write? hw2
    split at h
    · obtain ⟨_, _, h⟩ := Option.bind_eq_some_iff.mp h
      cases h
    · rcases bs with _ | ⟨c, bs⟩
      · cases h
        exact ⟨rfl, htake⟩
      · obtain ⟨hidx, hrest⟩ := binToHexLoop_eq (List.cons_ne_nil c bs) h
        have hpair : w2.bytes.take (k + 2) = w.bytes.take k ++ sprintf02x b := by
          have hk : (w.bytes.take k).length = k := by
            have hle := (Buf.write?_eq_some hw1).1
            have hlen := w.length_eq
            simp only [List.length_singleton] at hle
            rw [List.length_take]
            omega
          have hcut := congrArg (List.take (k + 2)) htake
          rw [List.take_take, Nat.min_eq_left (by omega), ← List.append_assoc] at hcut
          rw [hcut, List.take_left' (by rw [List.length_append, hk]; rfl)]
        refine ⟨?_, ?_⟩
        · simp only [hidx, Lib.Hex.length_encode, List.length_cons]
          omega
        · rw [hrest, hpair, List.append_assoc]
          rfl

/-! ## `hex_to_bin` -/

def isValidHexDigit (ch : UInt8) : Bool :=
  (ch ≥ 0x30 && ch ≤ 0x39) || (ch ≥ 0x61 && ch ≤ 0x66) || (ch ≥ 0x41 && ch ≤ 0x46)

def hexDigitToInt (digit : UInt8) : Int :=
  if digit ≥ 0x41 ∧ digit ≤ 0x46 then digit.toNat - 0x41 + 10
  else if digit ≥ 0x61 ∧ digit ≤ 0x66 then digit.toNat - 0x61 + 10
  else if digit ≥ 0x30 ∧ digit ≤ 0x39 then digit.toNat - 0x30
  else -1

/-- What `hex_to_bin` works on: the work buffer and, unless the string stands there too, the
string's own memory. -/
structure HexMem where
  work : Buf workBufferSize
  own : Option Bytes

def HexMem.str (m : HexMem) : Bytes := m.own.getD m.work.bytes

/-- `tolower` on the first `hexLen` characters of the string. -/
def HexMem.lower (m : HexMem) (hexLen : Nat) : HexMem :=
  match m.own with
  | some mem => { m with own := some ((mem.take hexLen).map Lib.Hex.lower ++ mem.drop hexLen) }
  | none => { m with work := m.work.mapTake hexLen Lib.Hex.lower }

/-- The loop of `hex_to_bin`. Its overflow check ends it within `workBufferSize` turns. -/
def hexToBinLoop : Nat → HexMem → Nat → Nat → Option (HexMem × Option Nat)
  | 0, _, _, _ => none
  | n + 1, m, hexIdx, binIdx => do
    let c ← m.str[hexIdx]?
    if c = 0 then return (m, some binIdx)
    let c' ← m.str[hexIdx + 1]?
    if !isValidHexDigit c || !isValidHexDigit c' then return (m, none)
    let dmsb := hexDigitToInt c
    let dlsb := hexDigitToInt c'
    if dmsb = -1 ∨ dlsb = -1 then return (m, none)
    let w ← m.work.write? binIdx [.ofInt (dmsb * 16 + dlsb)]
    if binIdx ≥ workBufferSize - 2 then return ({ m with work := w }, none)
    hexToBinLoop n { m with work := w } (hexIdx + 2) (binIdx + 1)

def hexToBinMem (m : HexMem) : Option (HexMem × Option Nat) := do
  let hexStr ← stringAt m.str
  hexToBinLoop workBufferSize (m.lower hexStr.length) 0 0

/-- `hex_to_bin` on a string that is not NULL. -/
def hexToBinOf (own : Option Bytes) : M CharPtr := do
  let s ← .get
  match hexToBinMem ⟨s.workBuffer, own⟩ with
  | none => .stop .fault
  | some (m, none) =>
    .modify ({ · with workBuffer := m.work, workBufferSize := 0 })
    return .null
  | some (m, some binIdx) =>
    .modify ({ · with workBuffer := m.work, workBufferSize := binIdx })
    return .workBuffer

/-- The digits are put into lower case in place; nothing reads the string afterwards. -/
def hexToBin (hexStr : CharPtr) : M CharPtr :=
  match hexStr with
  | .null => return .null
  | .workBuffer => hexToBinOf none
  | .text cs => hexToBinOf (some (cs ++ [0]))
  | .heap b => hexToBinOf (some b.val)

/-! ## What `hex_to_bin` makes of a string -/

section
open Lib.Hex (value decode forall_byte)

theorem isValidHexDigit_eq : ∀ c, isValidHexDigit c = (value c).isSome :=
  forall_byte (by decide +kernel)

theorem hexDigitToInt_eq : ∀ c, hexDigitToInt c = (value c).elim (-1) fun v => (v.toNat : Int) :=
  forall_byte (by decide +kernel)

theorem ofInt_toNat (m : UInt8) : UInt8.ofInt (m.toNat : Int) = m := by
  rw [UInt8.ofInt, UInt8.ofNat_eq_iff_mod_eq_toNat]
  have := m.toNat_lt
  omega

section
variable {m : HexMem} {n i k : Nat} {c d : UInt8}

theorem hexToBinLoop_end (hc : m.str[i]? = some 0) :
    hexToBinLoop (n + 1) m i k = some (m, some k) := by
  simp [hexToBinLoop, hc]

theorem hexToBinLoop_bad (hc : m.str[i]? = some c) (hne : c ≠ 0) (hd : m.str[i + 1]? = some d)
    (hbad : value c = none ∨ value d = none) :
    hexToBinLoop (n + 1) m i k = some (m, none) := by
  have hinvalid : isValidHexDigit c = false ∨ isValidHexDigit d = false := by
    simpa only [isValidHexDigit_eq, Option.isSome_eq_false_iff, Option.isNone_iff_eq_none] using
      hbad
  simp [hexToBinLoop, hc, hd, hne, hinvalid]

theorem hexToBinLoop_digits {a b : UInt8} (hc : m.str[i]? = some c) (hd : m.str[i + 1]? = some d)
    (ha : value c = some a) (hb : value d = some b) :
    hexToBinLoop (n + 1) m i k = (m.work.write? k [16 * a + b]).bind fun w =>
      if k ≥ workBufferSize - 2 then some ({ m with work := w }, none)
      else hexToBinLoop n { m with work := w } (i + 2) (k + 1) := by
  have hne : c ≠ 0 := fun h0 => by rw [h0] at ha; cases ha
  have hbyte : UInt8.ofInt ((a.toNat : Int) * 16 + b.toNat) = 16 * a + b := by
    rw [UInt8.ofInt_add, UInt8.ofInt_mul, ofInt_toNat, ofInt_toNat, UInt8.mul_comm]
    rfl
  have hpos : ∀ v : UInt8, ¬ (v.toNat : Int) = -1 := fun v => by omega
  rw [hexToBinLoop]
  simp only [hc, hd, Option.bind_eq_bind, Option.bind_some, if_neg hne, isValidHexDigit_eq, ha, hb,
    hexDigitToInt_eq, Option.isSome_some, Option.elim_some, hbyte, hpos, or_self, if_false,
    Bool.not_true, Bool.or_self, Bool.false_eq_true]
  rfl

end

/-- The bytes that a string stands for, when they find room behind the first `k`. -/
def decodedFrom (k : Nat) (cs : CStr) : Option Bytes :=
  (decode cs).filter fun bs => k + bs.length ≤ workBufferSize - 2

theorem decodedFrom_nil {k : Nat} (hk : k ≤ workBufferSize - 2) : decodedFrom k [] = some [] := by
  simp [decodedFrom, decode, Option.filter_some, hk]

theorem decodedFrom_none {cs : CStr} (h : decode cs = none) (k : Nat) :
    decodedFrom k cs = none := by
  rw [decodedFrom, h, Option.filter_none]

/-- Nothing finds room behind a full buffer. -/
theorem decodedFrom_full {k : Nat} (hk : workBufferSize - 2 < k) (cs : CStr) :
    decodedFrom k cs = none := by
  refine Option.filter_eq_none_iff.mpr fun bs _ => ?_
  rw [decide_eq_true_eq]
  omega

theorem decodedFrom_cons {a b x y : UInt8} {k : Nat} (ha : value a = some x) (hb : value b = some y)
    (cs : CStr) :
    decodedFrom k (a :: b :: cs) = (decodedFrom (k + 1) cs).map ((16 * x + y) :: ·) := by
  unfold decodedFrom
  rw [Lib.Hex.decode_cons ha hb]
  cases decode cs with
  | none => rfl
  | some bs =>
    simp only [Option.map_some, Option.filter_some, List.length_cons, decide_eq_true_eq]
    rw [Nat.add_assoc, Nat.add_comm 1]
    split <;> rfl

/-- A write at index `k` leaves what stands behind it. -/
theorem HexMem.drop_str {m : HexMem} {k i : Nat} {x : UInt8} {w : Buf workBufferSize}
    (hw : m.work.write? k [x] = some w) (hi : k < i) :
    (HexMem.str ⟨w, m.own⟩).drop i = m.str.drop i := by
  obtain ⟨work, own⟩ := m
  cases own with
  | some mem => rfl
  | none => exact Buf.drop_write? hw hi

/-- The loop on what the string holds from index `2 * k` on, the first `k` bytes written: it reads
ahead of its writes, also where it overwrites the string. -/
theorem hexToBinLoop_eq : ∀ {cs : Bytes} (rest : Bytes) {k n : Nat} {m : HexMem},
    0 ∉ cs → m.str.drop (2 * k) = cs ++ 0 :: rest → k ≤ workBufferSize - 2 →
    workBufferSize ≤ n + k →
    ∃ m', hexToBinLoop n m (2 * k) k =
        some (m', (decodedFrom k cs).map (k + ·.length)) ∧
      ∀ bs ∈ decodedFrom k cs, m'.work.bytes.take (k + bs.length) = m.work.bytes.take k ++ bs
  | _, _, _, 0, _, _, _, hk, hn => by
    simp only [workBufferSize] at hn hk
    omega
  | [], rest, k, n + 1, m, _, hstr, hk, _ => by
    have hc : m.str[2 * k]? = some 0 := by
      rw [← List.head?_drop, hstr]
      rfl
    rw [decodedFrom_nil hk]
    refine ⟨_, hexToBinLoop_end hc, fun bs hbs => ?_⟩
    cases hbs
    exact (List.append_nil _).symm
  | [c], rest, k, n + 1, m, hcs, hstr, _, _ => by
    have hne : c ≠ 0 := fun h => hcs (h ▸ List.mem_singleton_self c)
    have hc : m.str[2 * k]? = some c := by
      rw [← List.head?_drop, hstr]
      rfl
    have hd : m.str[2 * k + 1]? = some 0 := by
      rw [← List.getElem?_drop, hstr]
      rfl
    rw [decodedFrom_none rfl]
    exact ⟨_, hexToBinLoop_bad hc hne hd (.inr rfl), fun _ h => absurd h (Option.not_mem_none _)⟩
  | a :: b :: cs, rest, k, n + 1, m, hcs, hstr, hk, hn => by
    have hne : a ≠ 0 := fun h => hcs (h ▸ List.mem_cons_self)
    have hcs' : 0 ∉ cs := fun h => hcs (List.mem_cons_of_mem _ (List.mem_cons_of_mem _ h))
    have hc : m.str[2 * k]? = some a := by
      rw [← List.head?_drop, hstr]
      rfl
    have hc' : m.str[2 * k + 1]? = some b := by
      rw [← List.getElem?_drop, hstr]
      rfl
    by_cases hbad : value a = none ∨ value b = none
    · have hnone : decode (a :: b :: cs) = none := by
        rcases hbad with h | h <;> simp [decode, h]
      rw [decodedFrom_none hnone]
      exact ⟨_, hexToBinLoop_bad hc hne hc' hbad, fun _ h => absurd h (Option.not_mem_none _)⟩
    · obtain ⟨ha, hb⟩ := not_or.mp hbad
      obtain ⟨x, hx⟩ := Option.ne_none_iff_exists'.mp ha
      obtain ⟨y, hy⟩ := Option.ne_none_iff_exists'.mp hb
      have hroom : k + [16 * x + y].length ≤ workBufferSize := by
        simp only [workBufferSize, List.length_singleton] at hk ⊢
        omega
      obtain ⟨w', hw'⟩ := m.work.write?_isSome hroom
      rw [hexToBinLoop_digits hc hc' hx hy, hw', Option.bind_some, decodedFrom_cons hx hy]
      by_cases hlast : k ≥ workBufferSize - 2
      · rw [if_pos hlast, decodedFrom_full (by omega)]
        exact ⟨_, rfl, fun _ h => absurd h (Option.not_mem_none _)⟩
      · rw [if_neg hlast]
        have hstr' : (HexMem.str ⟨w', m.own⟩).drop (2 * (k + 1)) = cs ++ 0 :: rest := by
          rw [HexMem.drop_str hw' (by omega), Nat.mul_add, ← List.drop_drop, hstr]
          rfl
        obtain ⟨m', hrun, hbytes⟩ := hexToBinLoop_eq rest (n := n) hcs' hstr' (by omega) (by omega)
        have hlen : ∀ bs : Bytes, k + 1 + bs.length = k + ((16 * x + y) :: bs).length :=
          fun bs => by
          rw [List.length_cons, Nat.add_assoc, Nat.add_comm 1]
        refine ⟨m', ?_, fun bs hbs => ?_⟩
        · rw [Option.map_map]
          exact hrun.trans (by simp only [hlen]; rfl)
        · obtain ⟨bs, hdecoded, rfl⟩ := Option.map_eq_some_iff.mp hbs
          have htake : w'.bytes.take (k + 1) = m.work.bytes.take k ++ [16 * x + y] :=
            Buf.take_write? hw'
          rw [← hlen, hbytes bs hdecoded, htake, List.append_assoc]
          rfl

theorem lower_ne_zero : ∀ c : UInt8, Lib.Hex.lower c = 0 → c = 0 :=
  forall_byte (by decide +kernel)

theorem decodedFrom_map_lower (k : Nat) (cs : CStr) :
    decodedFrom k (cs.map Lib.Hex.lower) = decodedFrom k cs := by
  rw [decodedFrom, Lib.Hex.decode_map_lower, decodedFrom]

/-- In lower case the string is what it was, digit by digit. -/
theorem HexMem.str_lower {m : HexMem} {text rest : Bytes} (h : m.str = text ++ 0 :: rest) :
    (m.lower text.length).str = text.map Lib.Hex.lower ++ 0 :: rest := by
  obtain ⟨work, own⟩ := m
  cases own with
  | some mem =>
    obtain rfl : mem = text ++ 0 :: rest := h
    simp only [HexMem.lower, HexMem.str, Option.getD_some, List.take_left, List.drop_left]
  | none =>
    have hbytes : work.bytes = text ++ 0 :: rest := h
    simp only [HexMem.lower, HexMem.str, Option.getD_none, Buf.mapTake, hbytes, List.take_left,
      List.drop_left]

/-- A string is converted to the bytes it stands for, wherever it stands. -/
theorem hexToBinMem_eq {m : HexMem} {text : CStr} (h : stringAt m.str = some text) :
    ∃ m', hexToBinMem m = some (m', (decodedFrom 0 text).map List.length) ∧
      ∀ bs ∈ decodedFrom 0 text, m'.work.bytes.take bs.length = bs := by
  obtain ⟨hnul, rest, hmem⟩ := stringAt_eq_some h
  have hlow : 0 ∉ text.map Lib.Hex.lower := fun h0 => by
    obtain ⟨c, hc, h⟩ := List.mem_map.mp h0
    exact hnul (lower_ne_zero c h ▸ hc)
  have hrun := hexToBinLoop_eq rest (k := 0) (n := workBufferSize) hlow (HexMem.str_lower hmem)
    (Nat.zero_le _) (Nat.le_add_right _ _)
  have heq : hexToBinMem m = hexToBinLoop workBufferSize (m.lower text.length) 0 0 := by
    simp only [hexToBinMem, h, Option.bind_eq_bind, Option.bind_some]
  simpa only [heq, decodedFrom_map_lower, Nat.zero_add, List.take_zero, List.nil_append,
    Nat.mul_zero] using hrun

/-- Nothing but the work buffer and its size has changed when the function returns. -/
theorem hexToBinOf_eq {s : St} {own : Option Bytes} {m : HexMem} {r : Option Nat}
    (h : hexToBinMem ⟨s.workBuffer, own⟩ = some (m, r)) :
    hexToBinOf own s = .done (if r.isSome then .workBuffer else .null)
      { s with workBuffer := m.work, workBufferSize := r.getD 0 } := by
  unfold hexToBinOf
  rw [Prog.get_bind, h]
  cases r <;> rfl

end

end Iotc.Di
