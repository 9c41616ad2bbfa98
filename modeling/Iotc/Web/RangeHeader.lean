import Iotc.Lib.Decimal
import Iotc.Resume.Hoare
import Iotc.Web.Attempts

/-!
# The Range header

`add_range_header` prints the two ends of a range to `range_str_buff`. `scanRange` reads them back.
Each range that the request handler asks for is a chunk of the file; its text has a byte more than
the buffer as soon as both ends have ten digits (`range_header_iff`).
-/

namespace Iotc.Web

open Iotc.C Iotc.Lib Iotc.Resume
open Iotc.Lib.Decimal (IsDigit Numeral)

variable {B : Build}

/-! ## The text of a range -/

/-- The two numbers of a text `bytes=%u-%u`. -/
def scanRange (text : CStr) : Option (Nat × Nat) :=
  let start := (text.drop 6).takeWhile fun c => decide (IsDigit c)
  let fin := text.drop (6 + start.length + 1)
  if text = cstr "bytes=" ++ start ++ cstr "-" ++ fin ∧ Numeral start ∧ Numeral fin then
    some (Decimal.value start, Decimal.value fin)
  else none

/-- What a range of a file of `n` bytes is to be. -/
structure RangeRight (B : Build) (n start fin : SizeT) : Prop where
  fits : ∀ b, ∃ b', printRange start fin b = some b' ∧
    stringAt b'.bytes = some (cstr (rangeFormat start fin))
  ordered : start ≤ fin
  inside : fin < n
  covers : fin.toNat - start.toNat + 1 ≤ B.iotcDlDataBufferSize.toNat
  denotes : scanRange (cstr (rangeFormat start fin)) = some (start.toNat, fin.toNat)

theorem cstr_rangeFormat (start fin : SizeT) : cstr (rangeFormat start fin) =
    cstr "bytes=" ++ Decimal.ofNat start.toNat ++ cstr "-" ++ Decimal.ofNat fin.toNat := by
  simp [cstr, rangeFormat, Decimal.ofNat, toString]

theorem takeWhile_isDigit {cs : List UInt8} (h : Numeral cs) (rest : List UInt8) :
    (cs ++ cstr "-" ++ rest).takeWhile (fun c => decide (IsDigit c)) = cs := by
  rw [List.append_assoc, List.takeWhile_append_of_pos fun c hc => decide_eq_true (h.digits c hc)]
  exact List.append_nil cs

theorem scanRange_rangeFormat (start fin : SizeT) :
    scanRange (cstr (rangeFormat start fin)) = some (start.toNat, fin.toNat) := by
  have hstart := Decimal.numeral_ofNat start.toNat
  have hfin := Decimal.numeral_ofNat fin.toNat
  have hprefix : ∀ rest, (cstr "bytes=" ++ rest).drop 6 = rest := fun rest =>
    List.drop_left' rfl
  have hfront : (cstr "bytes=" ++ Decimal.ofNat start.toNat ++ cstr "-").length =
      6 + (Decimal.ofNat start.toNat).length + 1 := by
    rw [List.length_append, List.length_append]
    rfl
  unfold scanRange
  rw [cstr_rangeFormat]
  have hscan : ((cstr "bytes=" ++ Decimal.ofNat start.toNat ++ cstr "-" ++
      Decimal.ofNat fin.toNat).drop 6).takeWhile (fun c => decide (IsDigit c)) =
        Decimal.ofNat start.toNat := by
    rw [List.append_assoc, List.append_assoc, hprefix, ← List.append_assoc]
    exact takeWhile_isDigit hstart _
  simp only [hscan]
  rw [List.drop_left' hfront, if_pos ⟨rfl, hstart, hfin⟩, Decimal.value_ofNat, Decimal.value_ofNat]

theorem zero_notMem_rangeFormat (start fin : SizeT) : 0 ∉ cstr (rangeFormat start fin) := by
  have hdigits : ∀ n, (0 : UInt8) ∉ Decimal.ofNat n := fun n h =>
    absurd ((Decimal.numeral_ofNat n).digits 0 h) (by decide)
  rw [cstr_rangeFormat]
  simp only [List.mem_append, not_or]
  exact ⟨⟨⟨by decide, hdigits _⟩, by decide⟩, hdigits _⟩

theorem length_rangeFormat (start fin : SizeT) : (cstr (rangeFormat start fin)).length =
    7 + (Decimal.ofNat start.toNat).length + (Decimal.ofNat fin.toNat).length := by
  have hbytes : (cstr "bytes=").length = 6 := rfl
  have hdash : (cstr "-").length = 1 := rfl
  rw [cstr_rangeFormat]
  simp only [List.length_append, hbytes, hdash]
  omega

/-- Nineteen digits fit. -/
theorem printRange_iff (start fin : SizeT) (b : Buf rangeStrBuffSize) :
    (∃ b', printRange start fin b = some b' ∧
      stringAt b'.bytes = some (cstr (rangeFormat start fin))) ↔
      (Decimal.ofNat start.toNat).length + (Decimal.ofNat fin.toNat).length ≤ 19 := by
  unfold printRange
  rw [b.print_iff (zero_notMem_rangeFormat start fin), length_rangeFormat]
  unfold rangeStrBuffSize maxDataLengthDigits
  omega

theorem printRange_isSome_iff (start fin : SizeT) (b : Buf rangeStrBuffSize) :
    (printRange start fin b).isSome ↔
      (Decimal.ofNat start.toNat).length + (Decimal.ofNat fin.toNat).length ≤ 19 := by
  constructor
  · intro h
    obtain ⟨b', hb'⟩ := Option.isSome_iff_exists.mp h
    rw [printRange] at hb'
    have hroom := (Buf.write?_eq_some hb').1
    rw [List.length_append, length_rangeFormat, List.length_singleton] at hroom
    unfold rangeStrBuffSize maxDataLengthDigits at hroom
    omega
  · intro h
    obtain ⟨b', hb', -⟩ := (printRange_iff start fin b).mpr h
    rw [hb']
    rfl

/-- Nine digits leave room for the end of any range. -/
theorem printRange_isSome {start : SizeT} (hstart : start < 1000000000) (fin : SizeT)
    (b : Buf rangeStrBuffSize) : (printRange start fin b).isSome := by
  have hlt := UInt32.lt_iff_toNat_lt.mp hstart
  have hfin := fin.toNat_lt
  have hstart9 := Decimal.length_ofNat_le_iff (n := start.toNat) (k := 9) (by decide)
  have hfin10 := Decimal.length_ofNat_le_iff (n := fin.toNat) (k := 10) (by decide)
  simp only [UInt32.reduceToNat] at hlt
  rw [printRange_isSome_iff]
  omega

theorem chunkEnd_toNat (B : Build) {n start : SizeT} (hstart : start < n) (hn : n ≤ 0x7FFFFFFF) :
    (chunkEnd B start n).toNat = start.toNat + (chunkSize B start n).toNat - 1 := by
  have hsize := chunkSize_toNat B hstart hn
  have hlt := UInt32.lt_iff_toNat_lt.mp hstart
  have hle := UInt32.le_iff_toNat_le.mp hn
  have hpos := UInt32.lt_iff_toNat_lt.mp B.dl_pos
  simp only [UInt32.reduceToNat] at hpos hle
  unfold chunkEnd
  rw [UInt32.toNat_sub, UInt32.toNat_add]
  simp only [UInt32.reduceToNat]
  omega

/-- The two ends of a chunk have at most nineteen digits when it begins below 10^9. -/
theorem digits_chunk_iff {n start : SizeT} (hstart : start < n) (hn : n ≤ 0x7FFFFFFF) :
    (Decimal.ofNat start.toNat).length + (Decimal.ofNat (chunkEnd B start n).toNat).length ≤ 19 ↔
      start < 1000000000 := by
  have hfin := chunkEnd_toNat B hstart hn
  have hsize := chunkSize_toNat B hstart hn
  have hlt := UInt32.lt_iff_toNat_lt.mp hstart
  have hle := UInt32.le_iff_toNat_le.mp hn
  have hpos := UInt32.lt_iff_toNat_lt.mp B.dl_pos
  simp only [UInt32.reduceToNat] at hpos hle
  have hstart9 := Decimal.length_ofNat_le_iff (n := start.toNat) (k := 9) (by decide)
  have hend9 := Decimal.length_ofNat_le_iff (n := (chunkEnd B start n).toNat) (k := 9) (by decide)
  have hend10 :=
    Decimal.length_ofNat_le_iff (n := (chunkEnd B start n).toNat) (k := 10) (by decide)
  rw [UInt32.lt_iff_toNat_lt]
  simp only [UInt32.reduceToNat]
  omega

/-- The range of a chunk is right but for the room it takes. -/
theorem rangeRight_iff {n start : SizeT} (hstart : start < n) (hn : n ≤ 0x7FFFFFFF) :
    RangeRight B n start (chunkEnd B start n) ↔ start < 1000000000 := by
  have hfin := chunkEnd_toNat B hstart hn
  have hsize := chunkSize_toNat B hstart hn
  have hpos := UInt32.lt_iff_toNat_lt.mp B.dl_pos
  have hlt := UInt32.lt_iff_toNat_lt.mp hstart
  simp only [UInt32.reduceToNat] at hpos
  constructor
  · intro h
    exact (digits_chunk_iff hstart hn).mp ((printRange_iff start _ (.zero _)).mp (h.fits _))
  · intro h
    refine ⟨fun b => (printRange_iff start _ b).mpr ((digits_chunk_iff hstart hn).mpr h),
      ?_, ?_, ?_, scanRange_rangeFormat _ _⟩
    · rw [UInt32.le_iff_toNat_le]
      omega
    · rw [UInt32.lt_iff_toNat_lt]
      omega
    · omega

/-! ## The ranges of a run -/

/-- The range that a call prints. -/
def printedRange : Ev Op Ans → Option (SizeT × SizeT)
  | ⟨.sprintf rangeStart rangeEnd, _⟩ => some (rangeStart, rangeEnd)
  | _ => none

/-- The range of a chunk, in a file that is neither empty nor too large. -/
def OfChunk (B : Build) (n : SizeT) (range : SizeT × SizeT) : Prop :=
  0 < n → n ≤ 0x7FFFFFFF → range.1 < n ∧ range.2 = chunkEnd B range.1 n

/-- The file size is what an answer to a HEAD request announced. -/
def Heard (s : St B) (u : Tr Op Ans) : Prop :=
  ∃ d ∈ answered .head u, toldError d.last d.packets = none ∧
    headerFileSize d.dummy d.fields 0 = .ok s.dl.fileSize

/-- Ranges are printed for the chunks of a file whose size is known. -/
structure Printing (s : St B) (u : Tr Op Ans) : Prop where
  heard : u.filterMap printedRange ≠ [] → Heard s u
  chunks : ∀ range ∈ u.filterMap printedRange, OfChunk B s.dl.fileSize range

/-- Every range printed so far had room. -/
def Roomy (u : Tr Op Ans) : Prop :=
  ∀ range ∈ u.filterMap printedRange, (printRange range.1 range.2 (.zero _)).isSome

/-- What holds behind a range header that was added. -/
structure Printed (s : St B) (u : Tr Op Ans) : Prop where
  printing : Printing s u
  roomy : Roomy u

/-- A program may stop at a range without room. -/
abbrev rangeLogic (B : Build) : Logic Op Ans (St B) (Tr Op Ans) := .added Printing

/-- The client is at `off` of a file of `n` bytes. -/
structure At (n off : SizeT) (s : St B) (u : Tr Op Ans) : Prop where
  size : s.dl.fileSize = n
  offset : s.dl.fileBytesReceived = off
  heard : Heard s u
  printed : Printed s u

theorem Heard.snoc {s : St B} {u : Tr Op Ans} (h : Heard s u) (ev : Ev Op Ans) :
    Heard s (u ++ [ev]) := by
  obtain ⟨d, hd, htold, hsize⟩ := h
  refine ⟨d, ?_, htold, hsize⟩
  rw [answered_append]
  exact List.mem_append_left _ hd

theorem mem_printed_snoc {u : Tr Op Ans} {ev : Ev Op Ans} {P : SizeT × SizeT → Prop}
    (hu : ∀ range ∈ u.filterMap printedRange, P range) (hev : ∀ range ∈ printedRange ev, P range) :
    ∀ range ∈ (u ++ [ev]).filterMap printedRange, P range := by
  intro range hrange
  rw [List.filterMap_append, List.mem_append] at hrange
  rcases hrange with hrange | hrange
  · exact hu range hrange
  · obtain ⟨ev', hev', hrange⟩ := List.mem_filterMap.mp hrange
    rw [List.mem_singleton.mp hev'] at hrange
    exact hev range hrange

/-- An event that prints nothing. -/
theorem Printed.snoc {s : St B} {u : Tr Op Ans} (h : Printed s u) {ev : Ev Op Ans}
    (hev : printedRange ev = none) : Printed s (u ++ [ev]) := by
  have hsame : (u ++ [ev]).filterMap printedRange = u.filterMap printedRange := by
    rw [List.filterMap_append]
    simp [hev]
  refine ⟨⟨fun hne => ?_, ?_⟩, ?_⟩
  · rw [hsame] at hne
    exact (h.printing.heard hne).snoc ev
  · rw [hsame]
    exact h.printing.chunks
  · unfold Roomy
    rw [hsame]
    exact h.roomy

section
variable {n off : SizeT}

/-- Calls that print nothing. -/
theorem spec_at_plain {op : Op} (hop : ∀ a, printedRange ⟨op, a⟩ = none) :
    (rangeLogic B).Spec (At n off) (.call op) fun _ => At n off :=
  .of_call fun _ _ h a => ⟨h.size, h.offset, h.heard.snoc _, h.printed.snoc (hop a)⟩

theorem spec_at_addRangeHeader {fin : SizeT} (hfin : OfChunk B n (off, fin)) :
    (rangeLogic B).Spec (At n off) (addRangeHeader off fin) fun _ => At n off := by
  refine spec_addRangeHeader (J := fun s u => s.dl.fileSize = n ∧ s.dl.fileBytesReceived = off ∧
    Heard s u ∧ Printing s u ∧ ((printRange off fin (.zero _)).isSome → Roomy u))
    (.of_call fun _ _ h _ => ?_)
    (fun hroom _ _ h => ⟨h.1, h.2.1, h.2.2.1, h.2.2.2.1, h.2.2.2.2 hroom⟩)
    (fun _ _ _ h => h.2.2.2.1) (spec_at_plain fun _ => rfl)
  refine ⟨h.size, h.offset, h.heard.snoc _, ⟨fun _ => h.heard.snoc _,
    mem_printed_snoc h.printed.printing.chunks fun range hrange => ?_⟩,
    fun hroom => mem_printed_snoc h.printed.roomy fun range hrange => ?_⟩
  · obtain rfl : (off, fin) = range := Option.some.inj hrange
    rw [h.size]
    exact hfin
  · obtain rfl : (off, fin) = range := Option.some.inj hrange
    exact hroom

theorem spec_at_getBytesInRange {fin : SizeT} (hfin : OfChunk B n (off, fin))
    (r : IotConnectHttpRequest) (client : NxWebHttpClient) :
    (rangeLogic B).Spec (At n off) (getBytesInRange r (rangeClient client) off fin)
      fun _ => At n off := by
  have hquit : ∀ (status : UINT) (s : St B) u, status ≠ nxSuccess → At n off s u →
      At n off s u := fun _ _ _ _ h => h
  refine spec_guard (spec_at_plain fun _ => rfl) hquit <|
    spec_guard (spec_at_plain fun _ => rfl) hquit <|
    spec_guard (spec_at_addRangeHeader hfin) hquit <|
    spec_guard (spec_at_plain fun _ => rfl) hquit ?_
  refine spec_response .get _ (K := fun _ => At n off) (J := fun _ => At n off)
    (spec_at_plain fun _ => rfl) (fun _ _ _ _ _ hcb => nomatch hcb)
    (fun s u d fileSize buffer dataLength h hcb => ?_) fun _ _ => spec_at_plain fun _ => rfl
  cases hcb
  exact ⟨h.size, h.offset, h.heard, ⟨h.printed.printing.heard, h.printed.printing.chunks⟩,
    h.printed.roomy⟩

theorem spec_at_fireEvent (evt : IotConnectDownloadEvent) :
    (rangeLogic B).Spec (At n off) (fireEvent evt) fun _ => At n off := by
  refine spec_fireEvent (fun op hop => spec_at_plain fun a => ?_)
    (fun s u _ h => ⟨h.size, h.offset, h.heard,
      ⟨h.printed.printing.heard, h.printed.printing.chunks⟩, h.printed.roomy⟩)
    (fun s u h => h.printed.printing) evt
  cases op <;> first | rfl | cases hop

theorem spec_at_retryLoop {fin : SizeT} (hfin : OfChunk B n (off, fin))
    (r : IotConnectHttpRequest) (client : NxWebHttpClient) (size : SizeT) (i : Nat)
    (status : UINT) :
    (rangeLogic B).Spec (At n off) (retryLoop r (rangeClient client) size fin i status)
      fun _ => At n off := by
  induction i generalizing status with
  | zero => exact .pure fun s u h => h
  | succ i ih =>
    refine .bind_get (φ := fun s => s.dl.fileBytesReceived = off) (fun s u h => h.offset)
      fun s hs => ?_
    rw [hs]
    refine .bind (spec_at_getBytesInRange hfin r client) fun status => ?_
    refine .ite (fun _ => .bind_get_any fun s => ?_) fun _ => ih status
    refine .bind (spec_at_fireEvent _) fun accepted => ?_
    exact .ite (fun _ => .pure fun s u h => h) fun _ => .pure fun s u h => h

/-- A turn asks for the chunk at its offset. -/
theorem spec_at_chunkLoop (hoff : 0 < n → n ≤ 0x7FFFFFFF → off < n) (r : IotConnectHttpRequest)
    (client : NxWebHttpClient) (fuel : Nat) :
    (rangeLogic B).Spec (At n off) (chunkLoop r (rangeClient client) fuel)
      fun _ => Printed := by
  induction fuel generalizing off with
  | zero => exact .stop fun s u h => h.printed.printing
  | succ fuel ih =>
    refine .bind_get (φ := fun s => s.dl.fileBytesReceived = off ∧ s.dl.fileSize = n)
      (fun s u h => ⟨h.offset, h.size⟩) fun s hs => ?_
    rw [hs.1, hs.2]
    have hchunk : OfChunk B n (off, chunkEnd B off n) := fun hpos hmax => ⟨hoff hpos hmax, rfl⟩
    refine .bind (spec_at_retryLoop hchunk r client _ _ _) fun status =>
      .ite (fun _ => .pure fun s u h => h.printed) fun _ => ?_
    refine .bind (Q := fun _ => At n (off + chunkSize B off n)) (.modify fun s u h => ?_)
      fun _ => ?_
    · exact ⟨h.size, congrArg (· + chunkSize B off n) h.offset, h.heard,
        ⟨h.printed.printing.heard, h.printed.printing.chunks⟩, h.printed.roomy⟩
    refine .bind_get (φ := fun s => s.dl.fileBytesReceived = off + chunkSize B off n ∧
      s.dl.fileSize = n) (fun s u h => ⟨h.offset, h.size⟩) fun s hs => ?_
    rw [hs.1, hs.2]
    exact .ite (fun hmore => ih fun _ _ => hmore) fun _ => .pure fun s u h => h.printed

end

/-- Nothing was printed yet. -/
def Unprinted (_ : St B) (u : Tr Op Ans) : Prop := u.filterMap printedRange = []

theorem Unprinted.printed {s : St B} {u : Tr Op Ans} (h : Unprinted s u) : Printed s u :=
  ⟨⟨fun hne => absurd h hne, fun range hrange => by rw [h] at hrange; cases hrange⟩,
    fun range hrange => by rw [h] at hrange; cases hrange⟩

theorem Unprinted.snoc {s : St B} {u : Tr Op Ans} (h : Unprinted s u) {ev : Ev Op Ans}
    (hev : printedRange ev = none) : Unprinted s (u ++ [ev]) := by
  unfold Unprinted
  rw [List.filterMap_append, h]
  simp [hev]

theorem spec_unprinted_plain {op : Op} (hop : ∀ a, printedRange ⟨op, a⟩ = none) :
    (rangeLogic B).Spec Unprinted (.call op) fun _ => Unprinted :=
  .of_call fun _ _ h a => h.snoc (hop a)

/-- The HEAD request: on success its answer has announced the size. -/
theorem spec_heard_getFileSize (r : IotConnectHttpRequest) (client : NxWebHttpClient) :
    (rangeLogic B).Spec Unprinted
      (getFileSize r (nxWebHttpClientResponseHeaderCallbackSet client .headerFileSizeCallback))
      fun status s u => Unprinted s u ∧ (status = nxSuccess → Heard s u) := by
  let J : St B → Tr Op Ans → Prop := fun s u => Unprinted s u ∧ s.dl.fileSize = 0
  have hplain : ∀ {op : Op}, (∀ a, printedRange ⟨op, a⟩ = none) →
      (rangeLogic B).Spec J (.call op) fun _ => J := fun hop =>
    .of_call fun s u h a => ⟨h.1.snoc (hop a), h.2⟩
  have hquit : ∀ (status : UINT) (s : St B) u, status ≠ nxSuccess → J s u →
      Unprinted s u ∧ (status = nxSuccess → Heard s u) := fun _ _ _ hne h =>
    ⟨h.1, fun he => absurd he hne⟩
  refine .bind (Q := fun _ => J) (.modify fun _ _ h => ⟨h, rfl⟩) fun _ =>
    spec_guard (hplain fun _ => rfl) hquit <| spec_guard (hplain fun _ => rfl) hquit <|
    spec_guard (hplain fun _ => rfl) hquit ?_
  refine spec_response .head _ (K := fun d s u => J s u ∧ d ∈ answered .head u)
    (.of_call fun s u h d => ⟨⟨h.1.snoc rfl, h.2⟩, ?_⟩)
    (fun _ _ _ _ h _ => h.1.1.printed.printing)
    (fun s u d fileSize _ _ h hcb => ⟨h.1.1, fun hsuccess => ⟨d, h.2, ?_, ?_⟩⟩)
    fun status _ => .of_call fun s u h a => ⟨h.1.snoc rfl, fun he => (h.2 he).snoc _⟩
  · rw [answered_append, answered_bodyGet]
    exact List.mem_append_right _ (List.mem_singleton_self d)
  · cases htold : toldError d.last d.packets with
    | none => rfl
    | some e =>
      rw [htold] at hsuccess
      exact absurd hsuccess (toldError_ne_success htold)
  · rw [h.1.2] at hcb
    exact hcb

theorem spec_heard_fireEvent (evt : IotConnectDownloadEvent) :
    (rangeLogic B).Spec (fun s u => Unprinted s u ∧ Heard s u) (fireEvent evt)
      fun _ s u => Unprinted s u ∧ Heard s u := by
  refine spec_fireEvent (fun op hop => .of_call fun s u h a => ⟨h.1.snoc ?_, h.2.snoc _⟩)
    (fun _ _ _ h => h) (fun _ _ h => h.1.printed.printing) evt
  cases op <;> first | rfl | cases hop

theorem spec_printed_requestHandler (fuel : Nat) (r : IotConnectHttpRequest)
    (client : NxWebHttpClient) :
    (rangeLogic B).Spec Unprinted (requestHandler fuel r client) fun _ => Printed := by
  refine .bind (spec_heard_getFileSize r _) fun status =>
    .ite (fun _ => .pure fun _ _ h => h.1.printed) fun hok => .bind_get_any fun s => ?_
  have hok : status = nxSuccess := Classical.not_not.mp hok
  refine .bind ((spec_heard_fireEvent _).pre fun _ _ h => ⟨h.1, h.2 hok⟩) fun accepted =>
    .ite (fun _ => .pure fun _ _ h => h.1.printed) fun _ => ?_
  refine .bind_get_eq fun s => .ite (fun _ => ?_) fun _ => .ite (fun _ => ?_) fun hlt => ?_
  · refine .bind (Q := fun _ => At s.dl.fileSize 0) (.modify ?_) fun _ =>
      spec_at_chunkLoop (fun hpos _ => hpos) r client fuel
    rintro s u ⟨rfl, h⟩
    have hprinted := h.1.printed
    exact ⟨rfl, rfl, h.2, ⟨hprinted.printing.heard, hprinted.printing.chunks⟩, hprinted.roomy⟩
  · exact .pure fun s u h => h.2.1.printed
  · refine (spec_at_chunkLoop (fun _ _ => UInt32.not_le.mp hlt) r client fuel).pre ?_
    rintro s u ⟨rfl, h⟩
    exact ⟨rfl, rfl, h.2, h.1.printed⟩

/-- Each range that the request handler prints in a file of 1 to `INT_MAX` bytes, from whatever
offset it resumes. -/
theorem range_header_iff {fuel : Nat} {r : IotConnectHttpRequest} {client : NxWebHttpClient}
    {ans : Tr Op Ans → (op : Op) → Ans op} {s : St B} {t : Tr Op Ans} {o : Out Op Ans (St B) UINT}
    (ho : (requestHandler fuel r client).run (.sequential ans) s t = o)
    (hpos : 0 < o.st.dl.fileSize) (hmax : o.st.dl.fileSize ≤ 0x7FFFFFFF) :
    ∀ range ∈ (o.tr.drop t.length).filterMap printedRange,
      (RangeRight B o.st.dl.fileSize range.1 range.2 ↔ range.1 < 1000000000) := by
  intro range hrange
  have hspec := spec_printed_requestHandler (B := B) fuel r client
  have hsat := hspec.added_sat ans (s := s) rfl t
  rw [ho] at hsat
  have hprinting : Printing o.st (o.tr.drop t.length) :=
    (hsat.mono (fun _ _ _ h => h.printing) fun _ _ h => h).both
  obtain ⟨hstart, hfin⟩ := hprinting.chunks range hrange hpos hmax
  rw [hfin]
  exact rangeRight_iff hstart hmax

/-- A network with a file of `length` bytes. -/
def serving (length : String) (_ : Tr Op Ans) : (op : Op) → Ans op :=
  allGood (headOf length) (chunkOf [7])

/-- A download resumes at `off`. -/
def resumingAt (off : SizeT) : St .default :=
  (St.init .default).setDl ({ · with
    fileBytesReceived := off, doResume := true, eventCb := some (.app 7) })

theorem range_header_last_byte :
    let o := (requestHandler 1 fileRequest {}).run (.sequential (serving "1000000000"))
      (resumingAt 999999999) []
    (999999999, 999999999) ∈ o.tr.filterMap printedRange ∧
      (RangeRight .default o.st.dl.fileSize 999999999 999999999 ↔
        (999999999 : SizeT) < 1000000000) :=
  ⟨by decide +kernel, range_header_iff (s := resumingAt 999999999) (t := []) rfl
    (by decide +kernel) (by decide +kernel) (999999999, 999999999) (by decide +kernel)⟩

theorem ten_digits_overrun :
    let o := (requestHandler 1 fileRequest {}).run (.sequential (serving "1000000001"))
      (resumingAt 1000000000) []
    ¬ ∀ range ∈ o.tr.filterMap printedRange,
      RangeRight .default o.st.dl.fileSize range.1 range.2 := by
  intro o h
  have hright := h (1000000000, 1000000000) (by decide +kernel)
  exact absurd ((printRange_iff _ _ (.zero _)).mp (hright.fits _)) (by decide +kernel)

end Iotc.Web
