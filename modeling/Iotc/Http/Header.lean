import Iotc.Http.Basic

/-!
# The head of a response

`contentLengthGet` and `processHeaderFields` look at the bytes of the first packet alone. A list of
bytes stands for `buffer_ptr`, from there to the append pointer; a byte read behind it is a fault.
-/

namespace Iotc.Http

open Iotc.C Iotc.Web

/-- The statuses of the responses that are known, in the order of the table. -/
def statusMaps : List (CStr × UINT) :=
  [(cstr "200", nxSuccess), (cstr "100", 0x3001A), (cstr "101", 0x3001B), (cstr "201", 0x3001C),
   (cstr "202", 0x3001D), (cstr "203", 0x3001E), (cstr "204", 0x3001F), (cstr "205", 0x30020),
   (cstr "206", 0x30021), (cstr "300", 0x30022), (cstr "301", 0x30023), (cstr "302", 0x30024),
   (cstr "303", 0x30025), (cstr "304", 0x30026), (cstr "305", 0x30027), (cstr "307", 0x30028),
   (cstr "400", 0x30029), (cstr "401", 0x3002A), (cstr "402", 0x3002B), (cstr "403", 0x3002C),
   (cstr "404", 0x3002D), (cstr "405", 0x3002E), (cstr "406", 0x3002F), (cstr "407", 0x30030),
   (cstr "408", 0x30031), (cstr "409", 0x30032), (cstr "410", 0x30033), (cstr "411", 0x30034),
   (cstr "412", 0x30035), (cstr "413", 0x30036), (cstr "414", 0x30037), (cstr "415", 0x30038),
   (cstr "416", 0x30039), (cstr "417", 0x3003A), (cstr "500", 0x3003B), (cstr "501", 0x3003C),
   (cstr "502", 0x3003D), (cstr "503", 0x3003E), (cstr "504", 0x3003F), (cstr "505", 0x30040)]

/-- The status code stands at a fixed place of the first line. -/
def statusOf (buffer : List UInt8) : Option UINT :=
  (statusMaps.find? fun m => m.1 = (buffer.drop 9).take 3).map (·.2)

/-! ## The content length -/

/-- `Content-length:` in letters of either case, with a byte for each of its fifteen. -/
def lengthTokenAt (buffer : List UInt8) : Bool :=
  15 ≤ buffer.length && (((cstr "content-length:").zip (cstr "CONTENT-LENGTH:")).zip buffer).all
    fun ((l, u), b) => b == l || b == u

/-- Behind the first token, wherever it stands. -/
def findLengthToken : List UInt8 → Option (List UInt8)
  | [] => none
  | b :: rest =>
    if lengthTokenAt (b :: rest) then some ((b :: rest).drop 15) else findLengthToken rest

/-- The digits, as far as they go, and what stands behind them. -/
def readLength (length : Nat) : List UInt8 → Nat × List UInt8
  | [] => (length, [])
  | b :: rest =>
    if 0x30 ≤ b ∧ b ≤ 0x39 then readLength (u32 (u32 (length * 10) + (b.toNat - 0x30))) rest
    else (length, b :: rest)

def contentLengthGet (c : Chain) : Nat :=
  match findLengthToken c.head.data with
  | none => 0
  | some buffer =>
    match readLength 0 (buffer.dropWhile (· = 0x20)) with
    | (length, b :: _) => if b ≠ 0x20 ∧ b ≠ 13 then 0 else length
    | (_, []) => 0

/-! ## The header fields -/

/-- The letter in the other case. -/
def otherCase (b : UInt8) : UInt8 :=
  if 0x61 ≤ b ∧ b ≤ 0x7A then b - 0x61 + 0x41
  else if 0x41 ≤ b ∧ b ≤ 0x5A then b - 0x41 + 0x61
  else b

def memicmp (src dest : List UInt8) : UINT :=
  if src.length ≠ dest.length then nxWebHttpFailed
  else if (src.zip dest).all fun (s, d) => s = d || otherCase s = d then nxSuccess
  else nxWebHttpFailed

/-- Up to the end of the line, and what stands there: a carriage return, or any byte with a line
feed behind it, or the last byte of the packet. -/
def takeLine : List UInt8 → List UInt8 × List UInt8
  | b0 :: b1 :: rest =>
    if b0 ≠ 13 ∧ b1 ≠ 10 then (b0 :: (takeLine (b1 :: rest)).1, (takeLine (b1 :: rest)).2)
    else ([], b0 :: b1 :: rest)
  | rest => ([], rest)

/-- Up to the colon. Nothing but the colon ends this loop. -/
def takeName : List UInt8 → Option (List UInt8 × List UInt8)
  | [] => none
  | b :: rest =>
    if b = 0x3A then some ([], rest)
    else (takeName rest).map fun r => (b :: r.1, r.2)

/-- What the client makes of one field. -/
def processField (name value : List UInt8) (s : St) : St :=
  let s :=
    if memicmp name (cstr "Transfer-Encoding") = nxSuccess ∧
        memicmp value (cstr "chunked") = nxSuccess then { s with responseChunked := true }
    else s
  let s :=
    if memicmp (cstr "connection") name = nxSuccess then
      if memicmp (cstr "keep-alive") value = nxSuccess then { s with keepAlive := true }
      else if memicmp (cstr "close") value = nxSuccess then { s with keepAlive := false }
      else s
    else s
  if s.responseCallback then { s with reported := s.reported ++ [(name, value)] } else s

/-- The loop over the fields; what it returns is the offset of the content, or zero. -/
def fieldLoop : Nat → List UInt8 → Nat → M Nat
  | 0, _, _ => throw .fuel
  | fuel + 1, buffer, offset =>
    match buffer with
    | b0 :: b1 :: _ =>
      if b0 = 0 then return 0
      else if b0 = 13 ∧ b1 = 10 then return offset + 2
      else do
        let some (name, rest) := takeName buffer | fault
        let value := rest.dropWhile (· = 0x20)
        let spaces := rest.length - value.length
        let (fieldValue, rest) := takeLine value
        modify (processField name fieldValue)
        fieldLoop fuel (rest.drop 2)
          (offset + name.length + 1 + spaces + fieldValue.length + 2)
    | _ => return 0

/-- `version` packs the two digits of `HTTP/1.1`. -/
def version (buffer : List UInt8) : UInt8 :=
  if 7 < buffer.length then ((buffer.getD 5 0 - 0x30) <<< 4) ||| (buffer.getD 7 0 - 0x30) else 0

def processHeaderFields (c : Chain) : M Nat := do
  modify fun s => { s with responseChunked := false }
  let buffer := c.head.data
  if version buffer = 0 then
    modify fun s => { s with keepAlive := false }
    return 0
  modify fun s => { s with keepAlive := 0x10 < version buffer }
  let (line, rest) := takeLine buffer
  fieldLoop (buffer.length + 1) (rest.drop 2) (line.length + 2)

end Iotc.Http
