import Iotc.Web.Basic

/-!
# Receive loops and header callbacks

`receive` is the receive loop that `get_response` and `iotconnect_https_request` both
have, over the answers still to come, with the room they leave in their buffer and
their overflow test as parameters. It lists the packets it releases in order and keeps
the one `receive_packet` still designates when the loop ends.

`headerFileSize` is `header_file_size_callback` over the header fields of one response.
-/

namespace Iotc.Web

open Iotc.C Iotc.Resume

/-! ## The receive loop -/

/-- A receive loop's variables when it ends. -/
structure Received (n : Nat) where
  status : UINT
  buffer : Buf n
  dataLength : SizeT
  released : List Nat
  receivePacket : Option Nat

section
variable {n : Nat} (room : SizeT → SizeT) (full : UInt32 → SizeT → Bool)

/-- The loop body from the extraction on: copy what fits, test for overflow. -/
def extract (p : Packet) (buffer : Buf n) (dataLength : SizeT) :
    Except Stop (UINT × Buf n × SizeT) :=
  let bytesReceived := min p.payload.length (room dataLength).toNat
  match buffer.write? dataLength.toNat (p.payload.take bytesReceived) with
  | none => .error .fault
  | some buffer' =>
    let got : UInt32 := .ofNat bytesReceived
    .ok (if full got dataLength then nxOverflow else nxSuccess, buffer', dataLength + got)

def receive (last : BodyEnd) (buffer : Buf n) (dataLength : SizeT) (released : List Nat) :
    List Packet → Except Stop (Received n)
  | p :: ps =>
    if p.payload = [] then
      -- an empty packet before the end: break with the status of the call, success
      .ok ⟨nxSuccess, buffer, dataLength, released, some p.ptr⟩
    else if p.extractStatus ≠ nxSuccess then
      .ok ⟨p.extractStatus, buffer, dataLength, released, some p.ptr⟩
    else
      match extract room full p buffer dataLength with
      | .error e => .error e
      -- the overflow status does not leave the loop: the next packet overwrites it
      | .ok (_, buffer', dataLength') => receive last buffer' dataLength' (released ++ [p.ptr]) ps
  | [] =>
    match last with
    | .failed status _ ptr => .ok ⟨status, buffer, dataLength, released, ptr⟩
    | .done p =>
      if p.payload = [] then .ok ⟨nxSuccess, buffer, dataLength, released, some p.ptr⟩
      else if p.extractStatus ≠ nxSuccess then
        .ok ⟨p.extractStatus, buffer, dataLength, released, some p.ptr⟩
      else
        match extract room full p buffer dataLength with
        | .error e => .error e
        | .ok (status, buffer', dataLength') =>
          .ok ⟨status, buffer', dataLength', released ++ [p.ptr], none⟩

end

/-! ## What a receive loop sees -/

/-- The payloads of all packets of a delivery, one after the other. -/
def Delivery.body (d : Delivery) : List UInt8 :=
  d.packets.flatMap (·.payload) ++
    match d.last with
    | .failed .. => []
    | .done p => p.payload

/-- The error a receive loop is told of before it stops, if any. -/
def toldError (last : BodyEnd) : List Packet → Option UINT
  | p :: ps =>
    if p.payload = [] then none
    else if p.extractStatus ≠ nxSuccess then some p.extractStatus
    else toldError last ps
  | [] =>
    match last with
    | .failed status _ _ => some status
    | .done p =>
      if p.payload = [] then none
      else if p.extractStatus ≠ nxSuccess then some p.extractStatus
      else none

/-- The payloads a receive loop extracts before it stops. -/
def seen (last : BodyEnd) : List Packet → List UInt8
  | p :: ps =>
    if p.payload = [] then []
    else if p.extractStatus ≠ nxSuccess then []
    else p.payload ++ seen last ps
  | [] =>
    match last with
    | .failed _ _ _ => []
    | .done p =>
      if p.payload = [] then []
      else if p.extractStatus ≠ nxSuccess then []
      else p.payload

theorem toldError_ne_success {last : BodyEnd} {ps : List Packet} {e : UINT}
    (h : toldError last ps = some e) : e ≠ nxSuccess := by
  induction ps with
  | nil =>
    cases last with
    | failed status err ptr => simp only [toldError, Option.some.injEq] at h; exact h ▸ err.1
    | done p =>
      simp only [toldError] at h
      split at h
      · cases h
      · split at h
        · next hne => cases h; exact hne
        · cases h
  | cons p ps ih =>
    simp only [toldError] at h
    split at h
    · cases h
    · split at h
      · next hne => cases h; exact hne
      · exact ih h

section
variable {n : Nat} (room : SizeT → SizeT) (full : UInt32 → SizeT → Bool)

/-- A loop that keeps its buffer below `cap`: the room it leaves is what is missing to
`cap`, and its overflow test is false for what fits the room. -/
structure Capped (cap : Nat) (n : Nat) : Prop where
  le : cap ≤ n
  lt : cap < 4294967296
  room_eq : ∀ dl : SizeT, dl.toNat ≤ cap → (room dl).toNat = cap - dl.toNat
  not_full : ∀ (dl : SizeT) (got : UInt32), dl.toNat ≤ cap → got.toNat ≤ cap - dl.toNat →
    full got dl = false

variable {room full} {cap : Nat}

/-- One packet: what fits of it is appended, and no overflow shows. -/
theorem extract_spec (hc : Capped room full cap n) {p : Packet} {buffer : Buf n} {dl : SizeT}
    {acc : List UInt8} (hdl : dl.toNat = min cap acc.length)
    (hacc : buffer.bytes.take dl.toNat = acc.take cap) :
    ∃ buffer' dl', extract room full p buffer dl = .ok (nxSuccess, buffer', dl') ∧
      dl'.toNat = min cap (acc ++ p.payload).length ∧
      buffer'.bytes.take dl'.toNat = (acc ++ p.payload).take cap := by
  have hle : dl.toNat ≤ cap := by omega
  have hroom := hc.room_eq dl hle
  have hcap := hc.le
  have hcap32 := hc.lt
  have hlt := (room dl).toNat_lt
  let got := min p.payload.length (room dl).toNat
  have hgot : got ≤ cap - dl.toNat := by omega
  have hlen : (p.payload.take got).length = got := by simp [got]
  obtain ⟨buffer', hw⟩ : ∃ b', buffer.write? dl.toNat (p.payload.take got) = some b' :=
    Buf.write?_isSome buffer (by omega)
  have htake := Buf.take_write? hw
  have hnat : (UInt32.ofNat got).toNat = got := UInt32.toNat_ofNat_of_lt' (by
    have : got ≤ (room dl).toNat := Nat.min_le_right ..
    show got < 2 ^ 32; omega)
  have hdl32 := dl.toNat_lt
  have hsum : (dl + UInt32.ofNat got).toNat = dl.toNat + got := by
    rw [UInt32.toNat_add, hnat]
    exact Nat.mod_eq_of_lt (by omega)
  refine ⟨buffer', dl + UInt32.ofNat got, ?_, ?_, ?_⟩
  · simp only [extract, got] at hw hnat ⊢
    rw [hw, hc.not_full dl _ hle (by rw [hnat]; exact hgot)]
    rfl
  · rw [hsum, List.length_append]; omega
  · rw [hsum, ← hlen, htake, hacc, List.take_append]
    congr 1
    rw [List.take_eq_take_iff]
    omega

/-- The whole loop: its status is the error it was told of, and its buffer starts with
what it saw, cut at the cap. -/
theorem receive_spec (hc : Capped room full cap n) (last : BodyEnd) (ps : List Packet)
    {buffer : Buf n} {dl : SizeT} {acc : List UInt8} (released : List Nat)
    (hdl : dl.toNat = min cap acc.length) (hacc : buffer.bytes.take dl.toNat = acc.take cap) :
    ∃ rcv, receive room full last buffer dl released ps = .ok rcv ∧
      rcv.status = (toldError last ps).getD nxSuccess ∧
      rcv.dataLength.toNat = min cap (acc ++ seen last ps).length ∧
      rcv.buffer.bytes.take rcv.dataLength.toNat = (acc ++ seen last ps).take cap := by
  induction ps generalizing buffer dl acc released with
  | nil =>
    cases last with
    | failed status err ptr =>
      exact ⟨_, rfl, rfl, by simpa [seen] using hdl, by simpa [seen] using hacc⟩
    | done p =>
      simp only [receive, toldError, seen]
      by_cases hp : p.payload = []
      · simp only [if_pos hp]
        exact ⟨_, rfl, rfl, by simpa using hdl, by simpa using hacc⟩
      · by_cases he : p.extractStatus ≠ nxSuccess
        · simp only [if_neg hp, if_pos he]
          exact ⟨_, rfl, rfl, by simpa using hdl, by simpa using hacc⟩
        · obtain ⟨buffer', dl', hx, hdl', hacc'⟩ := extract_spec hc (p := p) hdl hacc
          simp only [if_neg hp, if_neg he, hx]
          exact ⟨_, rfl, rfl, hdl', hacc'⟩
  | cons p ps ih =>
    simp only [receive, toldError, seen]
    by_cases hp : p.payload = []
    · simp only [if_pos hp]
      exact ⟨_, rfl, rfl, by simpa using hdl, by simpa using hacc⟩
    · by_cases he : p.extractStatus ≠ nxSuccess
      · simp only [if_neg hp, if_pos he]
        exact ⟨_, rfl, rfl, by simpa using hdl, by simpa using hacc⟩
      · obtain ⟨buffer', dl', hx, hdl', hacc'⟩ := extract_spec hc (p := p) hdl hacc
        simp only [if_neg hp, if_neg he, hx]
        obtain ⟨rcv, h1, h2, h3, h4⟩ := ih (released ++ [p.ptr]) hdl' hacc'
        exact ⟨rcv, h1, h2, by rw [h3, List.append_assoc], by rw [h4, List.append_assoc]⟩

/-- The whole loop from an empty buffer. -/
theorem receive_start_spec (hc : Capped room full cap n) (last : BodyEnd) (ps : List Packet)
    (buffer : Buf n) :
    ∃ rcv, receive room full last buffer 0 [] ps = .ok rcv ∧
      rcv.status = (toldError last ps).getD nxSuccess ∧
      rcv.dataLength.toNat = min cap (seen last ps).length ∧
      rcv.buffer.bytes.take rcv.dataLength.toNat = (seen last ps).take cap := by
  have hdl : (0 : SizeT).toNat = min cap ([] : List UInt8).length := (Nat.min_zero cap).symm
  simpa using receive_spec hc last ps [] hdl (by simp)

/-- The variables of a loop that started with `start`, before each turn: behind it are packets it
extracted. -/
inductive LoopHead (room : SizeT → SizeT) (full : UInt32 → SizeT → Bool) (start : Buf n) :
    List Packet → Buf n → SizeT → Prop where
  | first : LoopHead room full start [] start 0
  | next {ps : List Packet} {p : Packet} {buffer buffer' : Buf n} {dl dl' : SizeT} {status : UINT} :
    LoopHead room full start ps buffer dl → p.payload ≠ [] → p.extractStatus = nxSuccess →
    extract room full p buffer dl = .ok (status, buffer', dl') →
    LoopHead room full start (ps ++ [p]) buffer' dl'

/-- The loop goes on from there. -/
theorem LoopHead.receive_eq {start buffer : Buf n} {ps : List Packet} {dl : SizeT}
    (h : LoopHead room full start ps buffer dl) (last : BodyEnd) (rest : List Packet) :
    receive room full last start 0 [] (ps ++ rest) =
      receive room full last buffer dl (ps.map (·.ptr)) rest := by
  induction h generalizing rest with
  | first => rfl
  | @next ps p buffer buffer' dl dl' status _ hp he hx ih =>
    rw [List.append_assoc, ih, List.singleton_append, receive, if_neg hp,
      if_neg (not_not_intro he), hx, List.map_append]
    rfl

/-- What it extracted so far is in the buffer, cut at the cap. -/
theorem LoopHead.spec (hc : Capped room full cap n) {start buffer : Buf n} {ps : List Packet}
    {dl : SizeT} (h : LoopHead room full start ps buffer dl) :
    dl.toNat = min cap (ps.flatMap (·.payload)).length ∧
      buffer.bytes.take dl.toNat = (ps.flatMap (·.payload)).take cap := by
  induction h with
  | first => exact ⟨(Nat.min_zero cap).symm, by simp⟩
  | @next ps p buffer buffer' dl dl' status _ hp he hx ih =>
    obtain ⟨buffer2, dl2, hx2, hdl2, htake2⟩ := extract_spec hc (p := p) ih.1 ih.2
    obtain ⟨-, rfl, rfl⟩ : nxSuccess = status ∧ buffer2 = buffer' ∧ dl2 = dl' := by
      simpa using hx2.symm.trans hx
    rw [List.flatMap_append, List.flatMap_singleton]
    exact ⟨hdl2, htake2⟩

end

/-! ## Header callbacks -/

/-- The two header callbacks of the download client. -/
inductive HeaderCallback where
  | headerFileSizeCallback
  | headerRangeCallback
  deriving DecidableEq, Repr

def hdrContentLengthStr : List UInt8 := cstr "Content-Length"

def maxDataLengthDigits : Nat := 10

/-- Value of a digit in any base up to 16. -/
def digitValue (c : UInt8) : Option Nat :=
  if 48 ≤ c ∧ c ≤ 57 then some (c.toNat - 48)
  else if 97 ≤ c ∧ c ≤ 102 then some (c.toNat - 87)
  else if 65 ≤ c ∧ c ≤ 70 then some (c.toNat - 55)
  else none

/-- The longest prefix of digits below `base`, as a number; `none` without a digit. -/
def scanDigits (base : Nat) : List UInt8 → Option Nat → Option Nat
  | [], acc => acc
  | c :: cs, acc =>
    match digitValue c with
    | some d => if d < base then scanDigits base cs (some (acc.getD 0 * base + d)) else acc
    | none => acc

/-- White space as `isspace` has it. -/
def isSpace (c : UInt8) : Bool := c == 32 || (9 ≤ c && c ≤ 13)

/-- The number after the sign, the base taken from a `0x` or `0` prefix. -/
def scanMagnitude : List UInt8 → Option Nat
  | 48 :: x :: cs =>
    if x = 120 ∨ x = 88 then scanDigits 16 cs (some 0) else scanDigits 8 (x :: cs) (some 0)
  | cs => scanDigits 10 cs none

/-- `sscanf(s, "%i", ..)` into a 32-bit `int`: the converted value, clamped to the range
of `int`, or `none` when there is nothing to convert. -/
def sscanfInt (s : List UInt8) : Option Int :=
  let s := s.dropWhile isSpace
  let (neg, s) := match s with
    | 45 :: cs => (true, cs)
    | 43 :: cs => (false, cs)
    | cs => (false, cs)
  (scanMagnitude s).map fun m =>
    if neg then max (-(m : Int)) (-2147483648) else min (m : Int) 2147483647

/-- `header_file_size_callback` for one field: the value it leaves in `file_size`. -/
def headerFileSizeCallback (dummy : UInt32) (name value : List UInt8) (fileSize : SizeT) :
    Except Stop SizeT :=
  if name.length ≠ hdrContentLengthStr.length then .ok fileSize
  else if name ≠ hdrContentLengthStr then .ok fileSize
  -- `content_length_buff` has room for the digits and the terminator
  else if maxDataLengthDigits + 1 < value.length + 1 then .error .fault
  else
    match sscanfInt (value.takeWhile (· ≠ 0)) with
    | some v => .ok (UInt32.ofInt v)
    | none => .ok dummy

/-- `header_file_size_callback` over all fields of a response. -/
def headerFileSize (dummy : UInt32) : List (List UInt8 × List UInt8) → SizeT → Except Stop SizeT
  | [], fileSize => .ok fileSize
  | (name, value) :: fs, fileSize =>
    match headerFileSizeCallback dummy name value fileSize with
    | .error e => .error e
    | .ok fileSize' => headerFileSize dummy fs fileSize'

/-- An answer without body that announces `length`. -/
def headOf (length : String) : Delivery where
  fields := [(hdrContentLengthStr, cstr length)]
  dummy := 0
  packets := []
  last := .done ⟨0, [], nxSuccess⟩

/-- An answer of one packet. -/
def chunkOf (body : List UInt8) : Delivery where
  fields := []
  dummy := 0
  packets := []
  last := .done ⟨1, body, nxSuccess⟩

example : headerFileSize 7 [(cstr "Date", cstr "now"), (cstr "Content-Length", cstr "010")] 0 =
    .ok 8 := by rfl

end Iotc.Web
