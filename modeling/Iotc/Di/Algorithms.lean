import Iotc.C.Buf

/-!
# Signatures and common names

`iotc_algorithms.c`. Where memory is touched outside an array, or behind a NULL pointer, the
result is `none`; an inner error is a status that is not zero.
-/

namespace Iotc.Di

open Iotc.C

/-- A buffer that is too small is reported, not refused. -/
def validateSigToAsn1Der {n : Nat} (sigBuf : Option (Buf n)) (s r : Option (List UInt8))
    (keySizeInBits : Nat) : Int :=
  if sigBuf.isNone ∨ s.isNone ∨ r.isNone then -1
  else
    let lnSize := keySizeInBits / 8
    if n < 2 * lnSize + 10 then 0 else 0

/-- An INTEGER of `size` bytes at `off`, after a zero byte if `pad` is one. -/
def writeInteger {n : Nat} (signature : Buf n) (off pad size : Nat) (x : List UInt8) :
    Option (Buf n) := do
  let signature ← signature.write? off [0x02]
  let signature ← signature.write? (off + 1) [UInt8.ofNat (size + pad)]
  let signature ← if pad = 0 then some signature else signature.write? (off + 2) [0]
  if size ≤ x.length then signature.write? (off + 2 + pad) (x.take size) else none

def padZero (x : List UInt8) : Option Nat :=
  x[0]?.map fun first => if first &&& 0x80 ≠ 0 then 1 else 0

/-- The array of `sig_buff_len` bytes is `signature`; the result is the array and
`*signature_length`. -/
def sigToAsn1Der {n : Nat} (signature : Option (Buf n))
    (signatureR signatureS : Option (List UInt8))
    (keySizeInBits : Nat) : Option (Except Int (Buf n × Nat)) :=
  if validateSigToAsn1Der signature signatureR signatureR keySizeInBits ≠ 0 then some (.error (-1))
  else do
    let signature ← signature
    let r ← signatureR
    let s ← signatureS
    let largeIntSize := keySizeInBits / 8
    let padZeroR ← padZero r
    let padZeroS ← padZero s
    let sequenceSize := largeIntSize * 2 + padZeroR + padZeroS + 4
    let signature ← signature.write? 0 [0x30]
    let (signature, header) ←
      if sequenceSize < 0x80 then do
        let signature ← signature.write? 1 [UInt8.ofNat sequenceSize]
        some (signature, 2)
      else do
        let signature ← signature.write? 1 [0x81]
        let signature ← signature.write? 2 [UInt8.ofNat sequenceSize]
        some (signature, 3)
    let signature ← writeInteger signature header padZeroR largeIntSize r
    let signature ← writeInteger signature (header + 2 + padZeroR + largeIntSize) padZeroS
      largeIntSize s
    some (.ok (signature, sequenceSize + header))

/-- The two parts of `cn` around its first dash. -/
def splitCnToCpidAndDuid (cn : CStr) : Except Int (CStr × CStr) :=
  match cn.dropWhile (· ≠ 0x2D) with
  | [] => .error (-3)
  | _ :: duid => .ok (cn.takeWhile (· ≠ 0x2D), duid)

end Iotc.Di
