import Iotc.C.Buf
import Iotc.Lib.Tlv

/-!
# The distinguished name

`build_dn_from_cn` of `to_auth_driver.c` writes the name of a certificate signing request, a SET of
a SEQUENCE of the common name's object identifier and its text. Its status words and the longest
common name are those of libTO.
-/

namespace Iotc.Di

open Iotc.C Iotc.Lib

/-- What the driver takes from the headers of libTO. Lengths in the short form are enough for the
longest common name. -/
structure LibTo where
  toOk : UINT
  toInvalidParam : UINT
  toCertSubjectCnMaxSize : Nat
  invalid_ne_ok : toInvalidParam ≠ toOk
  maxSize_le : toCertSubjectCnMaxSize ≤ 118

def asn1TagSet : UInt8 := 0x31
def asn1TagLenSize : Nat := 2
def asn1TagSeq : UInt8 := 0x30
def asn1TagStr : UInt8 := 0x0C
def asn1OidCn : List UInt8 := [0x06, 0x03, 0x55, 0x04, 0x03]

/-- What `snprintf` with the format `%s` puts into an array of `size` bytes. -/
def snprintf (size : Nat) (arg : CStr) : List UInt8 :=
  if size = 0 then [] else arg.take (size - 1) ++ [0]

/-- The result, the array `dn` and `*size` when the function returns. -/
structure DnResult (n : Nat) where
  ret : UINT
  dn : Option (Buf n)
  size : Option UInt16

/-- The memory behind `cn` is given from there on. -/
def buildDnFromCn {n : Nat} (T : LibTo) (dn : Option (Buf n)) (cn : Option (List UInt8))
    (size : Option UInt16) : Option (DnResult n) :=
  match dn, cn, size with
  | some b, some mem, some _ => do
    let name ← stringAt mem
    let cnLen := name.length
    if cnLen > T.toCertSubjectCnMaxSize then return ⟨T.toInvalidParam, dn, size⟩
    let totalLen := UInt8.ofNat (asn1TagLenSize + asn1OidCn.length + asn1TagLenSize + cnLen)
    let b ← b.write? 0 [asn1TagSet]
    let b ← b.write? 1 [totalLen]
    let b ← b.write? 2 [asn1TagSeq]
    let b ← b.write? 3 [totalLen - 3 + 1]
    let b ← b.write? 4 asn1OidCn
    let b ← b.write? 9 [asn1TagStr]
    let b ← b.write? 10 [totalLen - 10 + 1]
    let b ← b.write? 11 (snprintf (cnLen + 1) name)
    return ⟨T.toOk, some b, some (.ofNat asn1TagLenSize + totalLen.toUInt16)⟩
  | _, _, _ => some ⟨T.toInvalidParam, dn, size⟩

/-! ## The value -/

/-- An attribute of the name: the arcs of its type and its text. -/
structure Attribute where
  type : List Nat
  text : List UInt8

/-- A name of one attribute, by the rules of DER and with nothing left over at any level. -/
def readName (xs : List UInt8) : Option Attribute := do
  let set ← Tlv.only .der 0x31 xs
  let seq ← Tlv.only .der 0x30 set
  let (oid, rest) ← Tlv.expect .der 0x06 seq
  let type ← Tlv.arcs oid
  let text ← Tlv.only .der 0x0C rest
  return ⟨type, text⟩

/-- The name as a value: each length is that of the content behind it. -/
def nameOf (cn : CStr) : List UInt8 :=
  Der.tlv 0x31 (Der.tlv 0x30 (Der.tlv 0x06 [0x55, 0x04, 0x03] ++ Der.tlv 0x0C cn))

section
variable {cn : CStr}

/-- With short lengths all of them are given by the length of the text. -/
theorem nameOf_eq (h : cn.length ≤ 118) :
    nameOf cn = 0x31 :: .ofNat (9 + cn.length) :: 0x30 :: .ofNat (7 + cn.length) ::
      (asn1OidCn ++ 0x0C :: .ofNat cn.length :: cn) := by
  have htext : Der.tlv 0x0C cn = 0x0C :: .ofNat cn.length :: cn := Der.tlv_short 0x0C (by omega)
  have hseq : (asn1OidCn ++ 0x0C :: UInt8.ofNat cn.length :: cn).length = 7 + cn.length := by
    simp [asn1OidCn]
    omega
  have hset : (0x30 :: UInt8.ofNat (7 + cn.length) ::
      (asn1OidCn ++ 0x0C :: UInt8.ofNat cn.length :: cn)).length = 9 + cn.length := by
    rw [List.length_cons, List.length_cons, hseq]
    omega
  have hoid : Der.tlv 0x06 [0x55, 0x04, 0x03] = asn1OidCn := rfl
  rw [nameOf, htext, hoid, Der.tlv_short 0x30 (by omega), hseq, Der.tlv_short 0x31 (by omega), hset]

theorem nameOf_length (h : cn.length ≤ 118) : (nameOf cn).length = 11 + cn.length := by
  rw [nameOf_eq h]
  simp [asn1OidCn]
  omega

/-- All lengths are the shortest ones, and each is that of its content. -/
theorem readName_nameOf (h : cn.length ≤ 118) : readName (nameOf cn) = some ⟨[2, 5, 4, 3], cn⟩ := by
  have hlen := nameOf_length h
  have hset : (Der.tlv 0x30 (Der.tlv 0x06 [0x55, 0x04, 0x03] ++ Der.tlv 0x0C cn)).length <
      0x100 := by
    simp only [nameOf, Der.tlv, List.length_append, List.length_cons] at hlen ⊢
    omega
  have hseq : (Der.tlv 0x06 [0x55, 0x04, 0x03] ++ Der.tlv 0x0C cn).length < 0x100 := by
    simp only [Der.tlv, List.length_append, List.length_cons] at hset ⊢
    omega
  have hoid : Tlv.arcs [0x55, 0x04, 0x03] = some [2, 5, 4, 3] := rfl
  unfold readName nameOf
  rw [Tlv.only_tlv hset]
  simp only [Option.bind_eq_bind, Option.bind_some, Tlv.only_tlv hseq]
  rw [Tlv.expect_tlv (by decide)]
  simp only [Option.bind_some, hoid]
  rw [Tlv.only_tlv (by omega)]
  rfl

/-! ## The writer -/

variable {n : Nat} {T : LibTo} {mem : List UInt8}

theorem snprintf_whole (cn : CStr) : snprintf (cn.length + 1) cn = cn ++ [0] := by
  simp [snprintf]

/-- The indices go up to the length of what is written, and each length byte is `totalLen` less what
stands between the two. -/
theorem buildDnFromCn_eq (b : Buf n) (size : UInt16) (h : stringAt mem = some cn)
    (hle : cn.length ≤ T.toCertSubjectCnMaxSize) :
    buildDnFromCn T (some b) (some mem) (some size) =
      (b.write? 0 (nameOf cn ++ [0])).map fun out =>
        ⟨T.toOk, some out, some (.ofNat (11 + cn.length))⟩ := by
  have hshort : cn.length ≤ 118 := Nat.le_trans hle T.maxSize_le
  have hoid : asn1OidCn.length = 5 := rfl
  have htotal : UInt8.ofNat (asn1TagLenSize + 5 + asn1TagLenSize + cn.length) =
      .ofNat (9 + cn.length) := rfl
  have hseq : UInt8.ofNat (9 + cn.length) - 3 + 1 = .ofNat (7 + cn.length) := by
    rw [UInt8.ofNat_add, UInt8.ofNat_add]
    grind
  have htext : UInt8.ofNat (9 + cn.length) - 10 + 1 = .ofNat cn.length := by
    rw [UInt8.ofNat_add]
    grind
  have hsize : UInt16.ofNat asn1TagLenSize + (UInt8.ofNat (9 + cn.length)).toUInt16 =
      .ofNat (11 + cn.length) := by
    rw [← UInt16.toNat_inj]
    simp [asn1TagLenSize]
    omega
  have hsplit : nameOf cn ++ [0] = [asn1TagSet] ++ ([UInt8.ofNat (9 + cn.length)] ++
      ([asn1TagSeq] ++ ([UInt8.ofNat (7 + cn.length)] ++ (asn1OidCn ++
        ([asn1TagStr] ++ ([UInt8.ofNat cn.length] ++ (cn ++ [0]))))))) := by
    rw [nameOf_eq hshort]
    rfl
  rw [hsplit]
  unfold buildDnFromCn
  simp only [h, Option.bind_eq_bind, Option.bind_some, htotal, hseq, htext, hsize, snprintf_whole,
    if_neg (Nat.not_lt.mpr hle), Buf.write?_append, Option.map_eq_bind, Option.bind_assoc,
    List.length_singleton, hoid, Nat.reduceAdd, Option.pure_def]
  rfl

/-- An error is returned, and the array and `*size` are left alone. -/
def RefusesDn (T : LibTo) (dn : Option (Buf n)) (cn : Option (List UInt8))
    (size : Option UInt16) : Prop :=
  T.toInvalidParam ≠ T.toOk ∧ buildDnFromCn T dn cn size = some ⟨T.toInvalidParam, dn, size⟩

theorem refusesDn_null {dn : Option (Buf n)} {cn : Option (List UInt8)} {size : Option UInt16}
    (h : dn = none ∨ cn = none ∨ size = none) : RefusesDn T dn cn size := by
  refine ⟨T.invalid_ne_ok, ?_⟩
  rcases dn with _ | b
  · rfl
  rcases cn with _ | mem
  · rfl
  rcases size with _ | size
  · rfl
  rcases h with h | h | h <;> cases h

theorem refusesDn_long (dn : Option (Buf n)) (size : Option UInt16) (h : stringAt mem = some cn)
    (hlong : T.toCertSubjectCnMaxSize < cn.length) : RefusesDn T dn (some mem) size := by
  rcases dn with _ | b
  · exact refusesDn_null (.inl rfl)
  rcases size with _ | size
  · exact refusesDn_null (.inr (.inr rfl))
  refine ⟨T.invalid_ne_ok, ?_⟩
  simp [buildDnFromCn, h, hlong]

/-- Into an array with room for the value and one more byte, which is all that changes, the value is
written that holds the name. -/
def EncodesDn (T : LibTo) (b : Buf n) (mem : List UInt8) (cn : CStr) (size : UInt16) : Prop :=
  ∃ (out : Buf n) (size' : UInt16),
    buildDnFromCn T (some b) (some mem) (some size) = some ⟨T.toOk, some out, some size'⟩ ∧
      size'.toNat = 11 + cn.length ∧
      out.bytes = nameOf cn ++ 0 :: b.bytes.drop (12 + cn.length) ∧
      out.bytes.take size'.toNat = nameOf cn ∧
      readName (out.bytes.take size'.toNat) = some ⟨[2, 5, 4, 3], cn⟩

theorem encodesDn (b : Buf n) (size : UInt16) (h : stringAt mem = some cn)
    (hle : cn.length ≤ T.toCertSubjectCnMaxSize) (hroom : 12 + cn.length ≤ n) :
    EncodesDn T b mem cn size := by
  have hshort : cn.length ≤ 118 := Nat.le_trans hle T.maxSize_le
  have hlen := nameOf_length hshort
  have hwritten : (nameOf cn ++ [0]).length = 12 + cn.length := by
    rw [List.length_append, hlen, List.length_singleton]
    omega
  have hsize : (UInt16.ofNat (11 + cn.length)).toNat = 11 + cn.length := by
    rw [UInt16.toNat_ofNat']
    omega
  have hfits : 0 + (nameOf cn ++ [0]).length ≤ n := by omega
  obtain ⟨out, hout⟩ := b.write?_isSome hfits
  have hbytes : out.bytes = nameOf cn ++ 0 :: b.bytes.drop (12 + cn.length) := by
    rw [(Buf.write?_eq_some hout).2, hwritten]
    simp
  have htake : out.bytes.take (11 + cn.length) = nameOf cn := by
    rw [hbytes, ← hlen, List.take_left]
  refine ⟨out, .ofNat (11 + cn.length), ?_, hsize, hbytes, ?_, ?_⟩
  · rw [buildDnFromCn_eq b size h hle, hout]
    rfl
  · rw [hsize, htake]
  · rw [hsize, htake, readName_nameOf hshort]

end

/-- What a common name is made into, and what is refused. -/
theorem dn_of_cn (T : LibTo) {mem : List UInt8} {cn : CStr} (h : stringAt mem = some cn) :
    (cn.length ≤ T.toCertSubjectCnMaxSize → ∀ {n : Nat} (b : Buf n) (size : UInt16),
      12 + cn.length ≤ n → EncodesDn T b mem cn size) ∧
    (T.toCertSubjectCnMaxSize < cn.length → ∀ {n : Nat} (dn : Option (Buf n))
      (size : Option UInt16), RefusesDn T dn (some mem) size) ∧
    ∀ {n : Nat} (dn : Option (Buf n)) (cn : Option (List UInt8)) (size : Option UInt16),
      dn = none ∨ cn = none ∨ size = none → RefusesDn T dn cn size :=
  ⟨fun hle _ b size hroom => encodesDn b size h hle hroom,
    fun hlong _ dn size => refusesDn_long dn size h hlong, fun _ _ _ h => refusesDn_null h⟩

/-- Names of up to 64 bytes. -/
def LibTo.sample : LibTo where
  toOk := 0
  toInvalidParam := 0x0400
  toCertSubjectCnMaxSize := 64
  invalid_ne_ok := by decide
  maxSize_le := by decide

/-- A name of two bytes in an array of 14. -/
theorem dn_of_cn_two : EncodesDn .sample (Buf.zero 14) (cstr "ab" ++ [0]) (cstr "ab") 0 :=
  (dn_of_cn .sample (stringAt_append (by decide) [])).1 (by decide) _ _ (by decide)

end Iotc.Di
