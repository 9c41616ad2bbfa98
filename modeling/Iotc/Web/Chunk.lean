import Iotc.Web.Rules

/-!
# The data of a range request

Behind each range request that is told of no error, the request handler fires a DATA event of the
requested size: the application gets it, or the driver of the OTA client as a WRITE command.
`data_carried_iff` says when everything a run hands on in this way is the body that answered the
request before it.
-/

namespace Iotc.Web

open Iotc.C Iotc.Resume

/-- The number of bytes the range `start`-`fin` asks for. -/
def rangeLength (start fin : SizeT) : Nat := fin.toNat + 1 - start.toNat

/-- A piece of the file: `size` bytes at `dataPtr`, which belong at `offset`. -/
structure Piece where
  dataPtr : List UInt8
  size : SizeT
  offset : SizeT

/-- The piece is the body of `d`, which answers the range `start`-`fin`: the body has the length of
the range, all of it was taken from the packets, and the piece's bytes are the body. -/
structure Carries (start fin : SizeT) (d : Delivery) (piece : Piece) : Prop where
  length_eq : d.body.length = rangeLength start fin
  whole : seen d.last d.packets = d.body
  offset_eq : piece.offset = start
  size_eq : piece.size.toNat = rangeLength start fin
  bytes_eq : piece.dataPtr.take piece.size.toNat = d.body

/-- The range has a size that does not wrap and fits the buffer, and the body is as long as the
range and not cut by an empty packet. -/
structure Fits (B : Build) (start fin : SizeT) (d : Delivery) : Prop where
  size_eq : (fin - start + 1).toNat = rangeLength start fin
  size_le : rangeLength start fin ≤ B.iotcDlDataBufferSize.toNat
  whole : seen d.last d.packets = d.body
  length_eq : d.body.length = rangeLength start fin

variable {B : Build}

instance (start fin : SizeT) (d : Delivery) (piece : Piece) :
    Decidable (Carries start fin d piece) :=
  decidable_of_iff (d.body.length = rangeLength start fin ∧ seen d.last d.packets = d.body ∧
    piece.offset = start ∧ piece.size.toNat = rangeLength start fin ∧
    piece.dataPtr.take piece.size.toNat = d.body)
    ⟨fun ⟨h1, h2, h3, h4, h5⟩ => ⟨h1, h2, h3, h4, h5⟩,
      fun ⟨h1, h2, h3, h4, h5⟩ => ⟨h1, h2, h3, h4, h5⟩⟩

/-- The piece that is left of a delivery carries it exactly when the delivery fits. -/
theorem carries_iff {start fin : SizeT} {d : Delivery} {dl : DlStatics B} (h : Taken d dl) :
    Carries start fin d ⟨dl.buffer.bytes, fin - start + 1, start⟩ ↔ Fits B start fin d := by
  have hbytes := dl.buffer.length_eq
  constructor
  · rintro ⟨hbody, hseen, -, hsize, hdata⟩
    refine ⟨hsize, ?_, hseen, hbody⟩
    have hle := congrArg List.length hdata
    rw [List.length_take, hbytes, hbody, ← hsize] at hle
    omega
  · rintro ⟨hsize, hle, hseen, hbody⟩
    have hlength := h.length_eq
    have htake := h.bytes_eq
    have hdl : dl.dataLength.toNat = (fin - start + 1).toNat := by
      rw [hlength, hseen, hbody, hsize]
      omega
    refine ⟨hbody, hseen, rfl, hsize, ?_⟩
    rw [hdl] at htake
    rw [htake, hseen, List.take_of_length_le (by rw [hbody]; exact hle)]

/-! ## Range requests and pieces of a run -/

/-- The range request under way, and its answer. -/
structure Exchange where
  start : SizeT
  fin : SizeT
  answer : Option Delivery

def Exchange.add : Option Exchange → Ev Op Ans → Option Exchange
  | _, ⟨.sprintf rangeStart rangeEnd, _⟩ => some ⟨rangeStart, rangeEnd, none⟩
  | some e, ⟨.nxWebHttpClientResponseBodyGet .get, d⟩ => some { e with answer := some d }
  | e, _ => e

def exchange (u : Tr Op Ans) : Option Exchange := u.foldl Exchange.add none

/-- The piece that an event hands on. -/
def handedOn : Ev Op Ans → Option Piece
  | ⟨.userDownloadCb _ (.data dataPtr dataSize offset _), _⟩ => some ⟨dataPtr, dataSize, offset⟩
  | ⟨.aduDriver _ req, _⟩ =>
    if req.command = .driverWrite then
      some ⟨req.firmwareDataPtr, req.firmwareDataSize, req.firmwareDataOffset⟩
    else none
  | _ => none

/-- What is handed on is the answer to the range request under way. -/
def Carried (u : Tr Op Ans) (ev : Ev Op Ans) : Prop :=
  ∀ piece ∈ handedOn ev, ∃ e ∈ exchange u, ∃ d ∈ e.answer, Carries e.start e.fin d piece

/-- An answer that tells of no error fits the range request under way. -/
def Fitting (B : Build) (u : Tr Op Ans) : Ev Op Ans → Prop
  | ⟨.nxWebHttpClientResponseBodyGet .get, d⟩ => toldError d.last d.packets = none →
    ∃ e ∈ exchange u, Fits B e.start e.fin d
  | _ => True

instance (u : Tr Op Ans) (ev : Ev Op Ans) : Decidable (Carried u ev) := by
  unfold Carried
  infer_instance

/-- Everything handed on so far is carried just when all answers so far fit. -/
def Matched (B : Build) (u : Tr Op Ans) : Prop := Along Carried [] u ↔ Along (Fitting B) [] u

/-- Events that are neither part of a range request nor hand anything on. -/
structure Plain (B : Build) (ev : Ev Op Ans) : Prop where
  handed : handedOn ev = none
  fitting : ∀ u, Fitting B u ev
  exchange_eq : ∀ e, Exchange.add e ev = e

theorem exchange_snoc (u : Tr Op Ans) (ev : Ev Op Ans) :
    exchange (u ++ [ev]) = Exchange.add (exchange u) ev := by
  simp [exchange]

theorem carried_snoc_of_none {u : Tr Op Ans} {ev : Ev Op Ans} (hev : handedOn ev = none) :
    Along Carried [] (u ++ [ev]) ↔ Along Carried [] u :=
  along_snoc.trans (and_iff_left fun piece hpiece => by rw [hev] at hpiece; cases hpiece)

theorem fitting_snoc_of_true {u : Tr Op Ans} {ev : Ev Op Ans} (hev : Fitting B u ev) :
    Along (Fitting B) [] (u ++ [ev]) ↔ Along (Fitting B) [] u :=
  along_snoc.trans (and_iff_left hev)

theorem Matched.snoc {u : Tr Op Ans} {ev : Ev Op Ans} (h : Matched B u) (hev : handedOn ev = none)
    (hfitting : Fitting B u ev) : Matched B (u ++ [ev]) :=
  (carried_snoc_of_none hev).trans (h.trans (fitting_snoc_of_true hfitting).symm)

/-! ## Programs and what they hand on -/

/-- An event finds its handler. -/
def HandlerReady (s : St B) : Prop :=
  match s.dl.eventCb with
  | some (.app _) => True
  | some .otaFwDownloadHandler => s.ota.aduDriver.isSome
  | none => False

abbrev chunkLogic (B : Build) : Logic Op Ans (St B) (Tr Op Ans) := .added fun _ => Matched B

/-- No answer waits to be handed on; the client is at `off`. -/
structure Resting (off : SizeT) (s : St B) (u : Tr Op Ans) : Prop where
  ready : HandlerReady s
  offset : s.dl.fileBytesReceived = off
  matched : Matched B u

/-- The answer `d` to the range `start`-`fin` waits to be handed on. -/
structure Waits (start fin : SizeT) (d : Delivery) (s : St B) (u : Tr Op Ans) : Prop where
  ready : HandlerReady s
  offset : s.dl.fileBytesReceived = start
  exchange_eq : exchange u = some ⟨start, fin, some d⟩
  due : (Along Carried [] u ∧ (toldError d.last d.packets = none → Fits B start fin d)) ↔
    Along (Fitting B) [] u

section
variable {off start fin : SizeT} {d : Delivery}

theorem Resting.snoc {s : St B} {u : Tr Op Ans} (h : Resting off s u) {ev : Ev Op Ans}
    (hev : Plain B ev) : Resting off s (u ++ [ev]) :=
  { h with matched := h.matched.snoc hev.handed (hev.fitting u) }

theorem Waits.snoc {s : St B} {u : Tr Op Ans} (h : Waits start fin d s u) {ev : Ev Op Ans}
    (hev : Plain B ev) : Waits start fin d s (u ++ [ev]) where
  ready := h.ready
  offset := h.offset
  exchange_eq := by rw [exchange_snoc, hev.exchange_eq, h.exchange_eq]
  due := by rw [carried_snoc_of_none hev.handed, fitting_snoc_of_true (hev.fitting u), h.due]

theorem spec_rest_plain {op : Op} (hop : ∀ a, Plain B ⟨op, a⟩) :
    (chunkLogic B).Spec (Resting off) (.call op) fun _ => Resting off :=
  .of_call fun _ _ h a => h.snoc (hop a)

theorem Plain.of_request {op : Op} (hop : op.request = true) (a : Ans op) : Plain B ⟨op, a⟩ := by
  cases op with
  | nxWebHttpClientRequestInitialize _ _ _ _ | nxWebHttpClientRequestHeaderAdd _ _
  | nxWebHttpClientRequestSend => exact ⟨rfl, fun _ => trivial, fun e => by cases e <;> rfl⟩
  | _ => cases hop

theorem Plain.release (ptr : Nat) (a : Unit) : Plain B ⟨.nxPacketRelease ptr, a⟩ :=
  ⟨rfl, fun _ => trivial, fun e => by cases e <;> rfl⟩

/-- The answer to a range request waits, unless it tells of an error. -/
theorem spec_waits_getResponse (client : NxWebHttpClient) :
    (chunkLogic B).Spec (fun s u => Resting start s u ∧ ∃ answer,
        exchange u = some ⟨start, fin, answer⟩)
      (getResponse .get (rangeClient client)) fun status s u =>
        if status = nxSuccess then ∃ d, toldError d.last d.packets = none ∧ Taken d s.dl ∧
          Waits start fin d s u
        else Resting start s u := by
  refine (spec_response_taken .get (rangeClient client) (K := fun d => Waits start fin d)
    (J := fun status s u => ∃ d, status = (toldError d.last d.packets).getD nxSuccess ∧
      Taken d s.dl ∧ Waits start fin d s u) (.of_call ?_) (fun _ _ _ _ _ hcb => nomatch hcb) ?_
    fun status ptr => .of_call fun s u h a => ?_).post fun status s u h => ?_
  · rintro s u ⟨h, answer, hanswer⟩ d
    refine ⟨h.ready, h.offset, by rw [exchange_snoc, hanswer]; rfl, ?_⟩
    rw [carried_snoc_of_none rfl, along_snoc, List.nil_append]
    refine and_congr h.matched ⟨fun hfits htold => ⟨_, hanswer, hfits htold⟩, fun h htold => ?_⟩
    obtain ⟨e, he, hfits⟩ := h htold
    obtain rfl := Option.some.inj (hanswer.symm.trans he)
    exact hfits
  · rintro s u d fileSize buffer dataLength h hcb htaken
    cases hcb
    exact ⟨d, rfl, htaken, { h with }⟩
  · obtain ⟨d, hstatus, htaken, hwaits⟩ := h
    exact ⟨d, hstatus, htaken, hwaits.snoc (.release ptr a)⟩
  · obtain ⟨d, rfl, htaken, hwaits⟩ := h
    cases htold : toldError d.last d.packets with
    | none => exact ⟨d, htold, htaken, hwaits⟩
    | some e =>
      rw [Option.getD_some, if_neg (toldError_ne_success htold)]
      refine ⟨hwaits.ready, hwaits.offset, ?_⟩
      have hdue := hwaits.due
      rw [htold] at hdue
      simpa [Matched] using hdue

theorem spec_waits_getBytesInRange (r : IotConnectHttpRequest) (client : NxWebHttpClient) :
    (chunkLogic B).Spec (Resting start) (getBytesInRange r (rangeClient client) start fin)
      fun status s u =>
        if status = nxSuccess then ∃ d, toldError d.last d.packets = none ∧ Taken d s.dl ∧
          Waits start fin d s u
        else Resting start s u := by
  let J : St B → Tr Op Ans → Prop := fun s u =>
    Resting start s u ∧ ∃ answer, exchange u = some ⟨start, fin, answer⟩
  have hquit : ∀ (status : UINT) (s : St B) u, status ≠ nxSuccess → Resting start s u →
      if status = nxSuccess then ∃ d, toldError d.last d.packets = none ∧ Taken d s.dl ∧
        Waits start fin d s u
      else Resting start s u := fun _ _ _ hne h => by rwa [if_neg hne]
  have hplain : ∀ {op : Op}, op.request = true → (chunkLogic B).Spec J (.call op) fun _ => J :=
    fun hop => .of_call fun s u h a => by
      have hev : Plain B ⟨_, a⟩ := .of_request hop a
      refine ⟨h.1.snoc hev, ?_⟩
      rw [exchange_snoc, hev.exchange_eq]
      exact h.2
  have hrange : (chunkLogic B).Spec (Resting start) (addRangeHeader start fin) fun _ => J := by
    refine spec_addRangeHeader (J := J) (.of_call fun s u h _ => ?_) (fun _ _ _ h => h)
      (fun _ _ _ h => h.1.matched) (hplain rfl)
    refine ⟨{ h with matched := h.matched.snoc rfl trivial }, none, ?_⟩
    rw [exchange_snoc]
    cases exchange u <;> rfl
  refine spec_guard (spec_rest_plain (Plain.of_request rfl)) hquit <|
    spec_guard (spec_rest_plain (Plain.of_request rfl)) hquit <|
    .bind hrange fun status => .ite (fun hne => .pure fun s u h => hquit _ s u hne h.1) fun _ => ?_
  exact spec_guard (hplain rfl) (fun _ s u hne h => hquit _ s u hne h.1)
    (spec_waits_getResponse client)

/-- A piece that is the body just when the answer fits waits to be handed on. -/
structure Handing (start fin : SizeT) (d : Delivery) (piece : Piece) (s : St B) (u : Tr Op Ans) :
    Prop where
  waits : Waits start fin d s u
  told : toldError d.last d.packets = none
  carries : Carries start fin d piece ↔ Fits B start fin d

theorem Handing.due {piece : Piece} {s : St B} {u : Tr Op Ans}
    (h : Handing start fin d piece s u) :
    Along Carried [] u ∧ Fits B start fin d ↔ Along (Fitting B) [] u := by
  simpa [h.told] using h.waits.due

/-- Handing it on settles the matter, and doing so again changes nothing. -/
theorem Handing.snoc {piece : Piece} {s : St B} {u : Tr Op Ans}
    (h : Handing start fin d piece s u) {ev : Ev Op Ans} (hev : handedOn ev = some piece)
    (hfitting : ∀ u, Fitting B u ev) (hexchange : ∀ e, Exchange.add e ev = e) :
    Handing start fin d piece s (u ++ [ev]) ∧ Matched B (u ++ [ev]) := by
  have hcarried : Carried u ev ↔ Fits B start fin d := by
    rw [← h.carries]
    constructor
    · intro hu
      obtain ⟨e, he, d', hd', hcarries⟩ := hu piece hev
      rw [h.waits.exchange_eq] at he
      cases he
      cases hd'
      exact hcarries
    · intro hcarries piece' hpiece
      obtain rfl := Option.some.inj (hev.symm.trans hpiece)
      exact ⟨_, h.waits.exchange_eq, d, rfl, hcarries⟩
  have hall : Along Carried [] (u ++ [ev]) ↔ Along Carried [] u ∧ Fits B start fin d :=
    along_snoc.trans (and_congr_right fun _ => hcarried)
  have hfit := fitting_snoc_of_true (hfitting u)
  refine ⟨⟨⟨h.waits.ready, h.waits.offset, ?_, ?_⟩, h.told, h.carries⟩, ?_⟩
  · rw [exchange_snoc, hexchange, h.waits.exchange_eq]
  · rw [hall, hfit, and_assoc]
    simpa [h.told] using h.due
  · exact hall.trans (h.due.trans hfit.symm)

theorem Handing.resting {piece : Piece} {s : St B} {u : Tr Op Ans}
    (h : Handing start fin d piece s u) (hmatched : Matched B u) : Resting start s u :=
  ⟨h.waits.ready, h.waits.offset, hmatched⟩

/-- The DATA event of a piece. -/
theorem spec_handing_fireEvent (piece : Piece) (n : SizeT) :
    (chunkLogic B).Spec (Handing start fin d piece)
      (fireEvent (.data piece.dataPtr piece.size piece.offset n)) fun _ => Resting start := by
  refine .bind_get_eq fun s0 => ?_
  have hcb : ∀ cb, (chunkLogic B).Spec (Handing start fin d piece)
      (Ota.userDownloadCb cb (.data piece.dataPtr piece.size piece.offset n))
      fun _ => Resting start := fun cb => .of_call fun s u h a => by
    have hev : handedOn (⟨.userDownloadCb cb _, a⟩ : Ev Op Ans) = some piece := rfl
    obtain ⟨h, hmatched⟩ := h.snoc hev (fun _ => trivial) fun e => by cases e <;> rfl
    exact h.resting hmatched
  cases heventCb : s0.dl.eventCb with
  | none =>
    rintro s u ⟨rfl, h⟩
    have hready := h.waits.ready
    rw [HandlerReady, heventCb] at hready
    exact hready.elim
  | some handler =>
    cases handler with
    | app cb => exact (hcb cb).pre fun s u h => h.2
    | otaFwDownloadHandler =>
      let Q : St B → Tr Op Ans → Prop := fun s u => Handing start fin d piece s u ∧ Matched B u
      refine .bind (Q := fun _ => Q) (.bind_get_eq fun s1 => ?_) fun status => ?_
      · cases hdriver : s1.ota.aduDriver with
        | none =>
          rintro s u ⟨rfl, rfl, h⟩
          have hready := h.waits.ready
          simp [HandlerReady, heventCb, hdriver] at hready
        | some ad =>
          refine .bind (Q := fun _ => Q) (.of_call fun s u h a => ?_) fun status =>
            .bind (Q := fun _ => Q) (.modify fun s u h => ?_) fun _ => .pure fun _ _ h => h
          · have hev : handedOn (⟨.aduDriver ad _, a⟩ : Ev Op Ans) = some piece := rfl
            exact h.2.2.snoc hev (fun _ => trivial) fun e => by cases e <;> rfl
          · exact ⟨⟨⟨h.1.waits.ready, h.1.waits.offset, h.1.waits.exchange_eq, h.1.waits.due⟩,
              h.1.told, h.1.carries⟩, h.2⟩
      · refine .ite (fun _ => .pure fun s u h => h.1.resting h.2) fun _ => .bind_get_any fun s => ?_
        cases s.ota.userDownloadCb with
        | none => exact .pure fun s u h => h.1.resting h.2
        | some cb => exact (hcb cb).pre fun s u h => h.1

/-- The tries at a range whose size is `size`. -/
theorem spec_rest_retryLoop (r : IotConnectHttpRequest) (client : NxWebHttpClient) {size : SizeT}
    (hsize : size = fin - start + 1) (i : Nat) (status : UINT) :
    (chunkLogic B).Spec (Resting start) (retryLoop r (rangeClient client) size fin i status)
      fun _ => Resting start := by
  induction i generalizing status with
  | zero => exact .pure fun _ _ h => h
  | succ i ih =>
    refine .bind_get (φ := fun s => s.dl.fileBytesReceived = start) (fun _ _ h => h.offset)
      fun s hs => ?_
    rw [hs]
    refine .bind (spec_waits_getBytesInRange r client) fun status => .ite (fun hok => ?_)
      fun hne => (ih status).pre fun s u h => by rwa [if_neg hne] at h
    refine .bind_get_eq fun s0 => .bind (Q := fun _ => Resting start) ?_ fun accepted =>
      .ite (fun _ => .pure fun _ _ h => h) fun _ => .pure fun _ _ h => h
    rintro s u ⟨rfl, h⟩
    rw [if_pos hok] at h
    obtain ⟨d, htold, htaken, h⟩ := h
    refine spec_handing_fireEvent ⟨s.dl.buffer.bytes, size, s.dl.fileBytesReceived⟩ _ s u
      ⟨h, htold, ?_⟩
    rw [h.offset, hsize]
    exact carries_iff htaken

/-- Each turn asks for a range of its size. -/
theorem spec_rest_chunkLoop (r : IotConnectHttpRequest) (client : NxWebHttpClient) (fuel : Nat) :
    (chunkLogic B).Spec (fun s u => ∃ off, Resting off s u)
      (chunkLoop r (rangeClient client) fuel) fun _ s u => ∃ off, Resting off s u := by
  induction fuel with
  | zero => exact .stop fun _ _ ⟨_, h⟩ => h.matched
  | succ fuel ih =>
    refine .of_exists fun off => .bind_get (φ := fun s => s.dl.fileBytesReceived = off)
      (fun _ _ h => h.offset) fun s hs => ?_
    rw [hs]
    have hsize : chunkSize B off s.dl.fileSize = chunkEnd B off s.dl.fileSize - off + 1 := by
      unfold chunkEnd
      grind
    refine .bind (spec_rest_retryLoop r client hsize _ _) fun status =>
      .ite (fun _ => .pure fun _ _ h => ⟨off, h⟩) fun _ => ?_
    refine .bind (Q := fun _ s u => ∃ off, Resting off s u) (.modify fun s u h => ?_) fun _ => ?_
    · exact ⟨_, h.ready, rfl, h.matched⟩
    · exact .bind_get_any fun s => .ite (fun _ => ih) fun _ => .pure fun _ _ h => h

/-- At some offset, no answer waits. -/
abbrev Rests (s : St B) (u : Tr Op Ans) : Prop := ∃ off, Resting off s u

theorem spec_rests_plain {op : Op} (hop : ∀ a, Plain B ⟨op, a⟩) :
    (chunkLogic B).Spec Rests (.call op) fun _ => Rests :=
  .of_call fun _ _ ⟨off, h⟩ a => ⟨off, h.snoc (hop a)⟩

theorem spec_rests_getFileSize (r : IotConnectHttpRequest) (client : NxWebHttpClient) :
    (chunkLogic B).Spec Rests (getFileSize r client) fun _ => Rests := by
  have hquit : ∀ (status : UINT) (s : St B) u, status ≠ nxSuccess → Rests s u → Rests s u :=
    fun _ _ _ _ h => h
  have hhead : ∀ d, Plain B ⟨.nxWebHttpClientResponseBodyGet .head, d⟩ := fun d =>
    ⟨rfl, fun _ => trivial, fun e => by cases e <;> rfl⟩
  refine .bind (Q := fun _ => Rests) (.modify fun _ _ ⟨off, h⟩ => ⟨off, { h with }⟩) fun _ =>
    spec_guard (spec_rests_plain (.of_request rfl)) hquit <|
    spec_guard (spec_rests_plain (.of_request rfl)) hquit <|
    spec_guard (spec_rests_plain (.of_request rfl)) hquit ?_
  exact spec_response .head _ (K := fun _ => Rests) (J := fun _ => Rests)
    (spec_rests_plain hhead) (fun _ _ _ _ ⟨_, h⟩ _ => h.matched)
    (fun _ _ _ _ _ _ ⟨off, h⟩ _ => ⟨off, { h with }⟩) fun _ ptr => spec_rests_plain (.release ptr)

/-- The size is no piece of the file. -/
theorem spec_rests_fireEvent (n : SizeT) :
    (chunkLogic B).Spec Rests (fireEvent (.fileSize n)) fun _ => Rests := by
  have hcb : ∀ cb, (chunkLogic B).Spec Rests (Ota.userDownloadCb cb (.fileSize n))
      fun _ => Rests := fun cb =>
    spec_rests_plain fun a => ⟨rfl, fun _ => trivial, fun e => by cases e <;> rfl⟩
  refine .bind_get_any fun s0 => ?_
  cases s0.dl.eventCb with
  | none => exact .stop fun _ _ ⟨_, h⟩ => h.matched
  | some handler =>
    cases handler with
    | app cb => exact hcb cb
    | otaFwDownloadHandler =>
      refine .bind (Q := fun _ => Rests) (.bind_get_any fun s => ?_) fun status =>
        .ite (fun _ => .pure fun _ _ h => h) fun _ => .bind_get_any fun s => ?_
      · cases s.ota.aduDriver with
        | none => exact .stop fun _ _ ⟨_, h⟩ => h.matched
        | some ad =>
          refine .bind (Q := fun _ => Rests) (spec_rests_plain fun a => ?_) fun _ =>
            .bind (Q := fun _ => Rests) (.modify fun _ _ ⟨off, h⟩ => ⟨off, { h with }⟩) fun _ =>
              .pure fun _ _ h => h
          exact ⟨rfl, fun _ => trivial, fun e => by cases e <;> rfl⟩
      · cases s.ota.userDownloadCb with
        | none => exact .pure fun _ _ h => h
        | some cb => exact hcb cb

theorem spec_rests_requestHandler (fuel : Nat) (r : IotConnectHttpRequest)
    (client : NxWebHttpClient) :
    (chunkLogic B).Spec Rests (requestHandler fuel r client) fun _ => Rests := by
  refine .bind (spec_rests_getFileSize r _) fun status => .ite (fun _ => .pure fun _ _ h => h)
    fun _ => .bind_get_any fun s => ?_
  refine .bind (spec_rests_fireEvent _) fun accepted => .ite (fun _ => .pure fun _ _ h => h)
    fun _ => .bind_get_any fun s => ?_
  refine .ite (fun _ => ?_) fun _ => .ite (fun _ => .pure fun _ _ h => h) fun _ =>
    spec_rest_chunkLoop r client fuel
  exact .bind (Q := fun _ => Rests) (.modify fun _ _ ⟨_, h⟩ => ⟨0, h.ready, rfl, h.matched⟩)
    fun _ => spec_rest_chunkLoop r client fuel

end

/-- Every DATA event of the request handler, and every WRITE command that the OTA client makes of
one, carries the body that answered the range request before it, exactly when all answers to range
requests fit that tell of no error. -/
theorem data_carried_iff (ans : Tr Op Ans → (op : Op) → Ans op) (fuel : Nat)
    (r : IotConnectHttpRequest) (client : NxWebHttpClient) (s : St B) (hs : HandlerReady s)
    (t : Tr Op Ans) :
    let u := ((requestHandler fuel r client).run (.sequential ans) s t).tr.drop t.length
    Along Carried [] u ↔ Along (Fitting B) [] u := by
  have hrests : Rests s [] := ⟨_, hs, rfl, iff_of_true .nil .nil⟩
  have hsat := (spec_rests_requestHandler fuel r client).added_sat ans hrests t
  exact (hsat.mono (fun _ _ _ ⟨_, h⟩ => h.matched) fun _ _ h => h).both

/-- The application's callback 7 waits for the events of a file. -/
def listening : St .default := (St.init .default).setDl ({ · with eventCb := some (.app 7) })

/-- A file of three bytes, whose range is answered by `body`. -/
def threeBytes (body : List UInt8) : Out Op Ans (St .default) UINT :=
  (requestHandler 1 fileRequest {}).run (.sequential fun _ => allGood (headOf "3") (chunkOf body))
    listening []

theorem data_carried_three :
    (Along Carried [] (threeBytes [1, 2, 3]).tr ↔
      Along (Fitting .default) [] (threeBytes [1, 2, 3]).tr) ∧
    Along Carried [] (threeBytes [1, 2, 3]).tr ∧
      ((threeBytes [1, 2, 3]).tr.filterMap handedOn).map (fun piece => piece.dataPtr.take 3) =
        [[1, 2, 3]] :=
  ⟨data_carried_iff _ 1 fileRequest {} listening trivial [], by decide +kernel, by decide +kernel⟩

/-- One byte in answer to a request for three is handed on as three bytes. -/
theorem short_body_carried :
    let u := (threeBytes [65]).tr
    (u.filterMap handedOn).map (fun piece => (piece.size, piece.offset)) = [(3, 0)] ∧
      (answered .get u).map (fun d => d.body) = [[65]] ∧ ¬ Along Carried [] u :=
  ⟨by decide +kernel, by decide +kernel, by decide +kernel⟩

end Iotc.Web
