import Iotc.Resume.Hoare
import Iotc.Web.Steps

/-!
# Triples of the download client

An assertion is `Stable` when it minds neither the calls to NetX nor what the receive loops
write. Requests keep stable assertions; the chunk loop keeps an invariant indexed by the
offset and the file size that every accepted DATA event carries from one offset to the next.
-/

namespace Iotc.Web

open Iotc.C Iotc.Resume

variable {B : Build}

/-- Calls that reach neither driver nor application. -/
def Op.silent : Op → Bool
  | .aduDriver .. | .userDownloadCb .. => false
  | _ => true

structure Stable (I : St B → Tr Op Ans → Prop) : Prop where
  silent : ∀ s t (op : Op) (a : Ans op), op.silent = true → I s t → I s (t ++ [⟨op, a⟩])
  buffer : ∀ s t buffer dataLength, I s t → I (s.setDl ({ · with buffer, dataLength })) t
  response : ∀ s t responseBuffer, I s t → I { s with responseBuffer } t

/-- Every call but the application's callback is atomic. -/
def Undisturbed (L : Logic Op Ans (St B) (Tr Op Ans)) (A : Tr Op Ans → Ev Op Ans → Prop) : Prop :=
  ∀ op, reent op = false → L.Atomic A op

theorem Calm.logic {W : World Op Ans (St B)} {A : Tr Op Ans → Ev Op Ans → Prop}
    {E : St B → Tr Op Ans → Prop} (hW : Calm W) : Undisturbed (W.logic A E) A :=
  fun op h => (hW op h).atomic

theorem Stable.delete {I : St B → Tr Op Ans → Prop} (hI : Stable I) (s : St B) (t : Tr Op Ans)
    (a : UINT) (h : I s t) : I s (t ++ [⟨.nxWebHttpClientDelete, a⟩]) :=
  hI.silent s t .nxWebHttpClientDelete a rfl h

/-- A call that is checked for success. -/
theorem spec_guard {Γ : Type} {L : Logic Op Ans (St B) Γ} {I : St B → Γ → Prop} {p q : M B UINT}
    {Q : UINT → St B → Γ → Prop} (hp : L.Spec I p fun _ => I)
    (hquit : ∀ status s γ, status ≠ nxSuccess → I s γ → Q status s γ) (hq : L.Spec I q Q) :
    L.Spec I (do let status ← p; if status ≠ nxSuccess then return status else q) Q :=
  .bind hp fun _ => .ite (fun hne => .pure fun s γ h => hquit _ s γ hne h) fun _ => hq

/-- Inside the response buffer. -/
theorem spec_writeResponse {Γ : Type} {L : Logic Op Ans (St B) Γ} {I : St B → Γ → Prop}
    (hI : ∀ s γ responseBuffer, I s γ → I { s with responseBuffer } γ) {off : Nat} {xs : List UInt8}
    (h : off + xs.length ≤ B.iotconnectHttpReceiveBufferSize.toNat) :
    L.Spec I (writeResponse off xs) fun _ => I := by
  refine .bind_get_any fun s => ?_
  obtain ⟨buffer, hbuffer⟩ := Buf.write?_isSome s.responseBuffer h
  rw [hbuffer]
  exact .modify fun s γ => hI s γ buffer

theorem spec_releases {Γ : Type} {L : Logic Op Ans (St B) Γ} {I : St B → Γ → Prop}
    (h : ∀ ptr, L.Spec I (nxPacketRelease ptr) fun _ => I) (ptrs : List Nat) :
    L.Spec I (releaseAll ptrs) fun _ => I := by
  induction ptrs with
  | nil => exact .pure fun _ _ h => h
  | cons p ps ih => exact .bind (h p) fun _ => ih

/-- What the receive loop leaves of the delivery `d`: as much of what it saw as the chunk buffer
takes. -/
structure Taken (d : Delivery) (dl : DlStatics B) : Prop where
  length_eq : dl.dataLength.toNat =
    min B.iotcDlDataBufferSize.toNat (seen d.last d.packets).length
  bytes_eq : dl.buffer.bytes.take dl.dataLength.toNat =
    (seen d.last d.packets).take B.iotcDlDataBufferSize.toNat

/-- A response: a delivery in `K` leads to `J` with its status, where the header fields are
understood. -/
theorem spec_response_taken {Γ : Type} {L : Logic Op Ans (St B) Γ} {I : St B → Γ → Prop}
    (m : Method) (client : NxWebHttpClient) {K : Delivery → St B → Γ → Prop}
    {J : UINT → St B → Γ → Prop} (hget : L.Spec I (nxWebHttpClientResponseBodyGet m) K)
    (hfault : ∀ s γ d e, K d s γ → runHeaderCallback client d s.dl.fileSize = .error e →
      L.stop s γ)
    (hok : ∀ s γ d fileSize buffer dataLength, K d s γ →
      runHeaderCallback client d s.dl.fileSize = .ok fileSize →
      Taken d (s.setDl ({ · with fileSize, buffer, dataLength })).dl →
      J ((toldError d.last d.packets).getD nxSuccess)
        (s.setDl ({ · with fileSize, buffer, dataLength })) γ)
    (hrelease : ∀ status ptr, L.Spec (J status) (nxPacketRelease ptr) fun _ => J status) :
    L.Spec I (getResponse m client) J := by
  refine .bind hget fun d => .bind_get_eq fun s0 => ?_
  obtain ⟨rcv, hrcv, hstatus, hlength, hbytes⟩ :=
    receive_start_spec (chunkCapped B) d.last d.packets s0.dl.buffer
  rw [hrcv]
  cases hcb : runHeaderCallback client d s0.dl.fileSize with
  | error e =>
    refine .stop ?_
    rintro s γ ⟨rfl, h⟩
    exact hfault s γ d e h hcb
  | ok fileSize =>
    refine .bind (Q := fun _ => J rcv.status) (.modify ?_) fun _ => ?_
    · rintro s γ ⟨rfl, h⟩
      rw [hstatus]
      exact hok s γ d fileSize rcv.buffer rcv.dataLength h hcb ⟨hlength, hbytes⟩
    · refine .bind (spec_releases (hrelease _) _) fun _ => .bind (Q := fun _ => J rcv.status) ?_
        fun _ => .pure fun _ _ h => h
      cases rcv.receivePacket with
      | none => exact .pure fun _ _ h => h
      | some p => exact hrelease _ p

/-- The same where it does not matter what the buffer holds. -/
theorem spec_response {Γ : Type} {L : Logic Op Ans (St B) Γ} {I : St B → Γ → Prop} (m : Method)
    (client : NxWebHttpClient) {K : Delivery → St B → Γ → Prop} {J : UINT → St B → Γ → Prop}
    (hget : L.Spec I (nxWebHttpClientResponseBodyGet m) K)
    (hfault : ∀ s γ d e, K d s γ → runHeaderCallback client d s.dl.fileSize = .error e →
      L.stop s γ)
    (hok : ∀ s γ d fileSize buffer dataLength, K d s γ →
      runHeaderCallback client d s.dl.fileSize = .ok fileSize →
      J ((toldError d.last d.packets).getD nxSuccess)
        (s.setDl ({ · with fileSize, buffer, dataLength })) γ)
    (hrelease : ∀ status ptr, L.Spec (J status) (nxPacketRelease ptr) fun _ => J status) :
    L.Spec I (getResponse m client) J :=
  spec_response_taken m client hget hfault
    (fun s γ d fileSize buffer dataLength h hcb _ => hok s γ d fileSize buffer dataLength h hcb)
    hrelease

/-- A range is printed in `J`; `K` follows where its text fits the array, and goes on to `Q` with the
header. -/
theorem spec_addRangeHeader {Γ : Type} {L : Logic Op Ans (St B) Γ} {I J K : St B → Γ → Prop}
    {Q : UINT → St B → Γ → Prop} {start fin : SizeT}
    (hsprintf : L.Spec I (sprintf start fin) fun _ => J)
    (hfits : (printRange start fin (.zero _)).isSome → ∀ s γ, J s γ → K s γ)
    (hoverrun : printRange start fin (.zero _) = none → ∀ s γ, J s γ → L.stop s γ)
    (hadd : L.Spec K (nxWebHttpClientRequestHeaderAdd "Range" (rangeFormat start fin)) Q) :
    L.Spec I (addRangeHeader start fin) Q :=
  .bind hsprintf fun _ => .ite (fun h => hadd.pre (hfits h)) fun h =>
    .stop (hoverrun (Option.not_isSome_iff_eq_none.mp h))

/-- What the driver, the application and a change of the driver's request keep, an event keeps. -/
theorem spec_callHandler {Γ : Type} {L : Logic Op Ans (St B) Γ} {I : St B → Γ → Prop}
    (hcall : ∀ op : Op, op.silent = false → L.Spec I (.call op) fun _ => I)
    (hadudr : ∀ s γ adudr, I s γ → I (s.setOta ({ · with adudr })) γ)
    (hstop : ∀ s γ, I s γ → L.stop s γ) (h : Handler) (evt : IotConnectDownloadEvent) :
    L.Spec I (callHandler h evt) fun _ => I := by
  have hsend : ∀ req, L.Spec I (Ota.sendAduDriver req) fun _ => I := by
    refine fun req => .bind_get_any fun s => ?_
    cases s.ota.aduDriver with
    | none => exact .stop hstop
    | some ad =>
      exact .bind (hcall _ rfl) fun _ => .bind (Q := fun _ => I)
        (.modify fun s γ => hadudr s γ _) fun _ => .pure fun _ _ h => h
  cases h with
  | app cb => exact hcall _ rfl
  | otaFwDownloadHandler =>
    refine .bind (Q := fun _ => I) ?_ fun status => .ite (fun _ => .pure fun _ _ h => h) fun _ => ?_
    · cases evt with
      | fileSize _ | data _ _ _ _ => exact hsend _
      | unknown | status _ => exact .pure fun _ _ h => h
    · refine .bind_get_any fun s => ?_
      cases s.ota.userDownloadCb with
      | none => exact .pure fun _ _ h => h
      | some cb => exact hcall _ rfl

theorem spec_fireEvent {Γ : Type} {L : Logic Op Ans (St B) Γ} {I : St B → Γ → Prop}
    (hcall : ∀ op : Op, op.silent = false → L.Spec I (.call op) fun _ => I)
    (hadudr : ∀ s γ adudr, I s γ → I (s.setOta ({ · with adudr })) γ)
    (hstop : ∀ s γ, I s γ → L.stop s γ) (evt : IotConnectDownloadEvent) :
    L.Spec I (fireEvent evt) fun _ => I := by
  refine .bind_get_any fun s => ?_
  cases s.dl.eventCb with
  | none => exact .stop hstop
  | some h => exact spec_callHandler hcall hadudr hstop h evt

/-! ## Assertions that every step keeps -/

/-- Calls that prepare and send a request. -/
def Op.request : Op → Bool
  | .nxWebHttpClientRequestInitialize .. | .nxWebHttpClientRequestHeaderAdd ..
  | .nxWebHttpClientRequestSend => true
  | _ => false

/-- Calls that open and close a connection. -/
def Op.connection : Op → Bool
  | .nxWebHttpClientCreate .. | .nxDnsHostByNameGet .. | .nxWebHttpClientSecureConnect
  | .nxWebHttpClientDelete => true
  | _ => false

theorem Op.silent_of_connection {op : Op} (h : op.connection = true) : op.silent = true := by
  cases op <;> first | rfl | cases h

/-- The events that a request handler fires. -/
def IotConnectDownloadEvent.ofFile : IotConnectDownloadEvent → Bool
  | .fileSize _ | .data .. => true
  | _ => false

/-- Requests, responses and events keep `I`, and a download may stop where it holds. -/
structure Steady {Γ : Type} (L : Logic Op Ans (St B) Γ) (I : St B → Γ → Prop) : Prop where
  request : ∀ op : Op, op.request = true → L.Spec I (.call op) fun _ => I
  range : ∀ start fin, L.Spec I (addRangeHeader start fin) fun _ => I
  response : ∀ m client, L.Spec I (getResponse m client) fun _ => I
  event : ∀ evt, evt.ofFile = true → L.Spec I (fireEvent evt) fun _ => I
  progress : ∀ s γ fileSize fileBytesReceived, I s γ →
    I (s.setDl ({ · with fileSize, fileBytesReceived })) γ
  stop : ∀ s γ, I s γ → L.stop s γ

namespace Steady

variable {Γ : Type} {L : Logic Op Ans (St B) Γ} {I : St B → Γ → Prop}

theorem getBytesInRange (h : Steady L I) (r : IotConnectHttpRequest) (client : NxWebHttpClient)
    (start fin : SizeT) : L.Spec I (getBytesInRange r client start fin) fun _ => I := by
  have hkeep : ∀ (status : UINT) s γ, status ≠ nxSuccess → I s γ → I s γ := fun _ _ _ _ h => h
  refine spec_guard (h.request _ rfl) hkeep <| spec_guard (h.request _ rfl) hkeep <|
    spec_guard (h.range start fin) hkeep <| spec_guard (h.request _ rfl) hkeep ?_
  exact h.response .get client

theorem getFileSize (h : Steady L I) (r : IotConnectHttpRequest) (client : NxWebHttpClient) :
    L.Spec I (getFileSize r client) fun _ => I := by
  have hkeep : ∀ (status : UINT) s γ, status ≠ nxSuccess → I s γ → I s γ := fun _ _ _ _ h => h
  refine .bind (Q := fun _ => I) (.modify fun s γ => h.progress s γ 0 _) fun _ => ?_
  refine spec_guard (h.request _ rfl) hkeep <| spec_guard (h.request _ rfl) hkeep <|
    spec_guard (h.request _ rfl) hkeep ?_
  exact h.response .head client

theorem retryLoop (h : Steady L I) (r : IotConnectHttpRequest) (client : NxWebHttpClient)
    (size fin : SizeT) (i : Nat) (status : UINT) :
    L.Spec I (retryLoop r client size fin i status) fun _ => I := by
  induction i generalizing status with
  | zero => exact .pure fun _ _ h => h
  | succ i ih =>
    refine .bind_get_any fun s => .bind (h.getBytesInRange r client _ fin) fun status => ?_
    refine .ite (fun _ => .bind_get_any fun s => ?_) fun _ => ih status
    exact .bind (h.event _ rfl) fun _ => .ite (fun _ => .pure fun _ _ h => h) fun _ =>
      .pure fun _ _ h => h

theorem chunkLoop (h : Steady L I) (r : IotConnectHttpRequest) (client : NxWebHttpClient)
    (fuel : Nat) : L.Spec I (chunkLoop r client fuel) fun _ => I := by
  induction fuel with
  | zero => exact .stop h.stop
  | succ fuel ih =>
    refine .bind_get_any fun s => .bind (h.retryLoop r client _ _ _ _) fun status => ?_
    refine .ite (fun _ => .pure fun _ _ h => h) fun _ => ?_
    refine .bind (Q := fun _ => I) (.modify fun s γ => h.progress s γ _ _) fun _ => ?_
    exact .bind_get_any fun s => .ite (fun _ => ih) fun _ => .pure fun _ _ h => h

theorem requestHandler (h : Steady L I) (fuel : Nat) (r : IotConnectHttpRequest)
    (client : NxWebHttpClient) : L.Spec I (requestHandler fuel r client) fun _ => I := by
  refine .bind (h.getFileSize r _) fun status => .ite (fun _ => .pure fun _ _ h => h) fun _ => ?_
  refine .bind_get_any fun s => .bind (h.event _ rfl) fun accepted => ?_
  refine .ite (fun _ => .pure fun _ _ h => h) fun _ => .bind_get_any fun s => ?_
  refine .ite (fun _ => ?_) fun _ => .ite (fun _ => .pure fun _ _ h => h) fun _ => ?_
  · exact .bind (Q := fun _ => I) (.modify fun s γ => h.progress s γ _ _) fun _ =>
      h.chunkLoop r _ fuel
  · exact h.chunkLoop r _ fuel

theorem of_silent (hsilent : ∀ op : Op, op.silent = true → L.Spec I (.call op) fun _ => I)
    (hprogress : ∀ s γ buffer dataLength fileSize fileBytesReceived doResume, I s γ → I (s.setDl
      fun dl => ⟨buffer, dataLength, fileSize, fileBytesReceived, dl.eventCb, doResume⟩) γ)
    (hstop : ∀ s γ, I s γ → L.stop s γ)
    (hevent : ∀ evt, evt.ofFile = true → L.Spec I (fireEvent evt) fun _ => I) :
    Steady L I where
  request op hop := hsilent op (by cases op <;> first | rfl | cases hop)
  range _ _ := spec_addRangeHeader (hsilent _ rfl) (fun _ _ _ h => h) (fun _ => hstop)
    (hsilent _ rfl)
  response m client := spec_response m client (K := fun _ => I) (J := fun _ => I) (hsilent _ rfl)
    (fun s γ _ _ h _ => hstop s γ h)
    (fun s γ _ fileSize buffer dataLength h _ => hprogress s γ buffer dataLength fileSize _ _ h)
    fun _ _ => hsilent _ rfl
  event := hevent
  progress s γ fileSize fileBytesReceived h := hprogress s γ _ _ fileSize fileBytesReceived _ h
  stop := hstop

end Steady

section
variable {L : Logic Op Ans (St B) (Tr Op Ans)} {A : Tr Op Ans → Ev Op Ans → Prop}
  {I : St B → Tr Op Ans → Prop}

/-! ## Requests -/

theorem triple_silent (hL : Undisturbed L A) (hI : Stable I) {op : Op} (hop : op.silent = true) :
    L.Spec I (.call op) fun _ => I := by
  have hquiet : reent op = false := by cases op <;> first | rfl | cases hop
  exact .call_atomic (hL op hquiet) fun s t a h _ => hI.silent s t op a hop h

/-- A response: what the header fields do to `file_size`, and a status. -/
theorem triple_getResponse (hL : Undisturbed L A) (m : Method) (client : NxWebHttpClient)
    {J : UINT → St B → Tr Op Ans → Prop}
    (hbuffer : ∀ status s t buffer dataLength, J status s t →
      J status (s.setDl ({ · with buffer, dataLength })) t)
    (hrelease : ∀ status ptr, L.Spec (J status) (nxPacketRelease ptr) fun _ => J status)
    (hfault : ∀ s t d e, I s t → A t ⟨.nxWebHttpClientResponseBodyGet m, d⟩ →
      runHeaderCallback client d s.dl.fileSize = .error e →
      L.stop s (t ++ [⟨.nxWebHttpClientResponseBodyGet m, d⟩]))
    (hok : ∀ s t d fileSize, I s t → A t ⟨.nxWebHttpClientResponseBodyGet m, d⟩ →
      runHeaderCallback client d s.dl.fileSize = .ok fileSize →
      J ((toldError d.last d.packets).getD nxSuccess) (s.setDl ({ · with fileSize }))
        (t ++ [⟨.nxWebHttpClientResponseBodyGet m, d⟩])) :
    L.Spec I (getResponse m client) J := by
  refine spec_response m client (K := fun d s t' => ∃ t,
    t' = t ++ [⟨.nxWebHttpClientResponseBodyGet m, d⟩] ∧ I s t ∧
    A t ⟨.nxWebHttpClientResponseBodyGet m, d⟩)
    (.call_atomic (hL _ rfl) fun s t d h hA => ⟨t, rfl, h, hA⟩) ?_ ?_ hrelease
  · rintro s _ d e ⟨t, rfl, h, hA⟩ hcb
    exact hfault s t d e h hA hcb
  · rintro s _ d fileSize buffer dataLength ⟨t, rfl, h, hA⟩ hcb
    exact hbuffer _ _ _ buffer dataLength (hok s t d fileSize h hA hcb)

/-- A range request keeps every stable assertion. -/
theorem triple_getBytesInRange (hL : Undisturbed L A) (hI : Stable I)
    (hE : ∀ s t, I s t → L.stop s t) (r : IotConnectHttpRequest) (client : NxWebHttpClient)
    (start fin : SizeT) :
    L.Spec I
      (getBytesInRange r (nxWebHttpClientResponseHeaderCallbackSet client .headerRangeCallback)
        start fin) fun _ => I := by
  have hkeep : ∀ status s t, status ≠ nxSuccess → I s t → I s t := fun _ _ _ _ h => h
  have hsilent : ∀ {op : Op}, op.silent = true → L.Spec I (.call op) fun _ => I :=
    triple_silent hL hI
  have hrange : L.Spec I (addRangeHeader start fin) fun _ => I :=
    spec_addRangeHeader (hsilent rfl) (fun _ _ _ h => h) (fun _ => hE) (hsilent rfl)
  refine spec_guard (hsilent rfl) hkeep <| spec_guard (hsilent rfl) hkeep <|
    spec_guard hrange hkeep <| spec_guard (hsilent rfl) hkeep ?_
  refine triple_getResponse hL .get _ (fun _ s t => hI.buffer s t) (fun _ _ => hsilent rfl)
    (fun _ _ _ _ _ _ hcb => nomatch hcb) ?_
  intro s t d fileSize h _ hcb
  cases hcb
  exact hI.silent s t _ d rfl h

/-- The HEAD request: on success `file_size` is what the answer's header fields give. -/
theorem triple_getFileSize (hL : Undisturbed L A) (hI : Stable I)
    (hfault : ∀ s t d e, I s (t ++ [⟨.nxWebHttpClientResponseBodyGet .head, d⟩]) →
      A t ⟨.nxWebHttpClientResponseBodyGet .head, d⟩ →
      headerFileSize d.dummy d.fields 0 = .error e →
      L.stop s (t ++ [⟨.nxWebHttpClientResponseBodyGet .head, d⟩]))
    (hsize : ∀ s t fileSize, I s t → I (s.setDl ({ · with fileSize })) t)
    (r : IotConnectHttpRequest) (client : NxWebHttpClient) :
    L.Spec I
      (getFileSize r (nxWebHttpClientResponseHeaderCallbackSet client .headerFileSizeCallback))
      fun status s t => I s t ∧ (status = nxSuccess → ∃ t' d,
        A t' ⟨.nxWebHttpClientResponseBodyGet .head, d⟩ ∧ toldError d.last d.packets = none ∧
        headerFileSize d.dummy d.fields 0 = .ok s.dl.fileSize) := by
  let J : St B → Tr Op Ans → Prop := fun s t => I s t ∧ s.dl.fileSize = 0
  have hJ : Stable J :=
    ⟨fun s t op a ho h => ⟨hI.silent s t op a ho h.1, h.2⟩,
      fun s t b dl h => ⟨hI.buffer s t b dl h.1, h.2⟩,
      fun s t b h => ⟨hI.response s t b h.1, h.2⟩⟩
  refine .bind (Q := fun _ => J) (.modify fun s t h => ⟨hsize s t 0 h, rfl⟩) fun _ => ?_
  have hsilent : ∀ {op : Op}, op.silent = true → L.Spec J (.call op) fun _ => J :=
    triple_silent hL hJ
  have hquit : ∀ status s t, status ≠ nxSuccess → J s t → I s t ∧ (status = nxSuccess → ∃ t' d,
      A t' ⟨.nxWebHttpClientResponseBodyGet .head, d⟩ ∧ toldError d.last d.packets = none ∧
      headerFileSize d.dummy d.fields 0 = .ok s.dl.fileSize) :=
    fun _ _ _ hne h => ⟨h.1, fun he => absurd he hne⟩
  refine spec_guard (hsilent rfl) hquit <| spec_guard (hsilent rfl) hquit <|
    spec_guard (hsilent rfl) hquit ?_
  refine triple_getResponse hL .head _ (fun status s t b dl h => ⟨hI.buffer s t b dl h.1, h.2⟩)
    (fun status ptr => .call_atomic (hL _ rfl) fun s t a h _ => ⟨hI.silent s t _ a rfl h.1, h.2⟩)
    (fun s t d e h hA hcb => ?_) fun s t d fileSize h hA hcb => ?_
  · rw [h.2] at hcb
    exact hfault s t d e (hI.silent s t _ d rfl h.1) hA hcb
  · rw [h.2] at hcb
    refine ⟨hsize _ _ _ (hI.silent s t _ d rfl h.1), fun hsuccess => ⟨t, d, hA, ?_, hcb⟩⟩
    cases htold : toldError d.last d.packets with
    | none => rfl
    | some e =>
      rw [htold] at hsuccess
      exact absurd hsuccess (toldError_ne_success htold)

/-! ## The chunk loop -/

/-- The client with the callback that range requests use. -/
abbrev rangeClient (client : NxWebHttpClient) : NxWebHttpClient :=
  nxWebHttpClientResponseHeaderCallbackSet client .headerRangeCallback

/-- The tries at one range: `I` is kept by the requests, an accepted event leads to `J` and a
refused one to `R`. -/
theorem triple_retryLoop (hL : Undisturbed L A) (hI : Stable I) {J R : St B → Tr Op Ans → Prop}
    {off n size : SizeT} (hE : ∀ s t, I s t → L.stop s t)
    (hfix : ∀ s t, I s t → s.dl.fileBytesReceived = off ∧ s.dl.fileSize = n)
    (hfire : ∀ buffer : Buf B.iotcDlDataBufferSize.toNat,
      L.Spec I (fireEvent (.data buffer.bytes size off n))
        fun accepted s t => if accepted then J s t else R s t)
    (r : IotConnectHttpRequest) (client : NxWebHttpClient) (fin : SizeT) (i : Nat) (status : UINT)
    (hi : status = nxSuccess → 0 < i) :
    L.Spec I (retryLoop r (rangeClient client) size fin i status) fun status s t =>
      if status = nxSuccess then J s t else I s t ∨ R s t := by
  induction i generalizing status with
  | zero =>
    refine .pure fun s t h => ?_
    rw [if_neg fun he => absurd (hi he) (Nat.lt_irrefl 0)]
    exact .inl h
  | succ i ih =>
    refine .bind_get hfix fun s0 h0 => ?_
    refine .bind (triple_getBytesInRange hL hI hE r client _ fin) fun status => ?_
    refine .ite (fun hok => ?_) fun hne => ih status fun he => absurd he hne
    refine .bind_get hfix fun s1 h1 => ?_
    have hevt : dataEvent size s1.dl = .data s1.dl.buffer.bytes size off n := by
      unfold dataEvent; rw [h1.1, h1.2]
    rw [hevt]
    refine .bind (hfire _) fun accepted => ?_
    cases accepted with
    | true => exact .ite (fun h => nomatch h) fun _ => .pure fun s t h => by rwa [if_pos hok]
    | false =>
      refine .ite (fun _ => .pure fun s t h => ?_) fun h => absurd rfl h
      rw [if_neg (by decide)]
      exact .inr h

/-- The next offset. -/
def St.advance (s : St B) (size : SizeT) : St B :=
  s.setDl fun dl => { dl with fileBytesReceived := dl.fileBytesReceived + size }

/-- The chunk loop: an invariant that every accepted DATA event carries from one offset to
the next holds at the end, and a successful end is at the file size or beyond. `H` is
what is known of an offset at the head of the loop. -/
theorem triple_chunkLoop_buffer (hL : Undisturbed L A) {I : SizeT → SizeT → St B → Tr Op Ans → Prop}
    {R : St B → Tr Op Ans → Prop} {H : SizeT → Prop} {n : SizeT} (hI : ∀ off, Stable (I off n))
    (hE : ∀ off s t, I off n s t → L.stop s t)
    (hfix : ∀ off s t, I off n s t → s.dl.fileBytesReceived = off ∧ s.dl.fileSize = n)
    (hhead : ∀ off, off < n → H off)
    (hfire : ∀ off (buffer : Buf B.iotcDlDataBufferSize.toNat), H off → L.Spec (I off n)
      (fireEvent (.data buffer.bytes (chunkSize B off n) off n)) fun accepted s t =>
        if accepted then I (off + chunkSize B off n) n (s.advance (chunkSize B off n)) t
        else R s t)
    (r : IotConnectHttpRequest) (client : NxWebHttpClient) (fuel : Nat) (off : SizeT)
    (hoff : H off) :
    L.Spec (I off n) (chunkLoop r (rangeClient client) fuel) fun status s t =>
      if status = nxSuccess then ∃ off, n ≤ off ∧ I off n s t
      else (∃ off, I off n s t) ∨ R s t := by
  induction fuel generalizing off with
  | zero => exact .stop (hE off)
  | succ fuel ih =>
    refine .bind_get (hfix off) fun s0 h0 => ?_
    rw [h0.1, h0.2]
    refine .bind (triple_retryLoop hL (hI off) (hE off) (hfix off) (hfire off · hoff) r client _ _ _
      fun _ => B.retries_pos) fun status => ?_
    refine .ite (fun hne => .pure fun s t h => ?_) fun hok => ?_
    · rw [if_neg hne] at h ⊢
      exact h.imp_left fun h => ⟨off, h⟩
    · have hok : status = nxSuccess := Classical.not_not.mp hok
      rw [hok]
      refine .bind (Q := fun _ => I (off + chunkSize B off n) n)
        (.modify fun s t h => by rwa [if_pos rfl] at h) fun _ => ?_
      refine .bind_get (hfix _) fun s1 h1 => ?_
      rw [h1.1, h1.2]
      refine .ite (fun hlt => ih _ (hhead _ hlt)) fun hge => .pure fun s t h => ?_
      rw [UInt32.not_lt] at hge
      rw [if_pos rfl]
      exact ⟨_, hge, h⟩

/-- The same where it does not matter that the data is the chunk buffer. -/
theorem triple_chunkLoop (hL : Undisturbed L A) {I : SizeT → SizeT → St B → Tr Op Ans → Prop}
    {R : St B → Tr Op Ans → Prop} {H : SizeT → Prop} {n : SizeT} (hI : ∀ off, Stable (I off n))
    (hE : ∀ off s t, I off n s t → L.stop s t)
    (hfix : ∀ off s t, I off n s t → s.dl.fileBytesReceived = off ∧ s.dl.fileSize = n)
    (hhead : ∀ off, off < n → H off)
    (hfire : ∀ off dataPtr, H off → L.Spec (I off n)
      (fireEvent (.data dataPtr (chunkSize B off n) off n)) fun accepted s t =>
        if accepted then I (off + chunkSize B off n) n (s.advance (chunkSize B off n)) t
        else R s t)
    (r : IotConnectHttpRequest) (client : NxWebHttpClient) (fuel : Nat) (off : SizeT)
    (hoff : H off) :
    L.Spec (I off n) (chunkLoop r (rangeClient client) fuel) fun status s t =>
      if status = nxSuccess then ∃ off, n ≤ off ∧ I off n s t
      else (∃ off, I off n s t) ∨ R s t :=
  triple_chunkLoop_buffer hL hI hE hfix hhead (fun off buffer => hfire off buffer.bytes) r client
    fuel off hoff

/-! ## Downloads -/

/-- The request handler. `I` holds up to the FILE_SIZE event, `K` after its answer and `J` where
the chunk loop starts; `Z` is what is known of an announced size. -/
theorem triple_requestHandler (hL : Undisturbed L A) (hI : Stable I) {resume : Bool} {k : SizeT}
    {Z : SizeT → Prop} {K : SizeT → Bool → St B → Tr Op Ans → Prop}
    {J : SizeT → SizeT → St B → Tr Op Ans → Prop} {Q : UINT → St B → Tr Op Ans → Prop}
    (hfault : ∀ s t d e, I s (t ++ [⟨.nxWebHttpClientResponseBodyGet .head, d⟩]) →
      A t ⟨.nxWebHttpClientResponseBodyGet .head, d⟩ →
      headerFileSize d.dummy d.fields 0 = .error e →
      L.stop s (t ++ [⟨.nxWebHttpClientResponseBodyGet .head, d⟩]))
    (hsize : ∀ s t fileSize, I s t → I (s.setDl ({ · with fileSize })) t)
    (hZ : ∀ t d n, A t ⟨.nxWebHttpClientResponseBodyGet .head, d⟩ →
      toldError d.last d.packets = none → headerFileSize d.dummy d.fields 0 = .ok n → Z n)
    (hquit : ∀ status s t, status ≠ nxSuccess → I s t → Q status s t)
    (hfire : ∀ n, Z n →
      L.Spec (fun s t => s.dl.fileSize = n ∧ I s t) (fireEvent (.fileSize n)) (K n))
    (hfix : ∀ n s t, K n true s t →
      s.dl.fileSize = n ∧ s.dl.fileBytesReceived = k ∧ s.dl.doResume = resume)
    (hrefused : ∀ n s t, Z n → K n false s t → Q nxDownloadAbortedByUser s t)
    (hbeyond : ∀ n s t, Z n → resume = true → n ≤ k → K n true s t → Q nxInvalidParameters s t)
    (hbegin : ∀ n s t, Z n → resume = false → K n true s t →
      J n 0 (s.setDl ({ · with fileBytesReceived := 0 })) t)
    (hresume : ∀ n s t, Z n → resume = true → k < n → K n true s t → J n k s t)
    (r : IotConnectHttpRequest) (client : NxWebHttpClient) (fuel : Nat)
    (hloop : ∀ n start, Z n → start = (if resume then k else 0) → (resume = true → start < n) →
      L.Spec (J n start) (chunkLoop r (rangeClient client) fuel) Q) :
    L.Spec I (requestHandler fuel r client) Q := by
  refine .bind (triple_getFileSize hL hI hfault hsize r client) fun status => ?_
  refine .ite (fun hne => .pure fun s t h => hquit _ s t hne h.1) fun hok => ?_
  have hok : status = nxSuccess := Classical.not_not.mp hok
  refine .fix (fun s _ => s.dl.fileSize) fun n => ?_
  refine .pre (P := fun s t => Z n ∧ s.dl.fileSize = n ∧ I s t) (.of_imp fun hn => ?_) ?_
  · refine .bind_get (φ := fun s => s.dl.fileSize = n) (fun s t h => h.1) fun s0 h0 => ?_
    rw [h0]
    refine .bind (hfire n hn) fun accepted => ?_
    cases accepted with
    | false => exact .ite (fun _ => .pure fun s t h => hrefused n s t hn h) fun h => absurd rfl h
    | true =>
    refine .ite (fun h => nomatch h) fun _ => ?_
    refine .bind_get (hfix n) fun s1 h1 => ?_
    rw [h1.1, h1.2.1, h1.2.2]
    refine .ite (fun hres => ?_) fun hres => ?_
    · refine .bind (Q := fun _ => J n 0) (.modify fun s t h => hbegin n s t hn hres h) fun _ => ?_
      exact hloop n 0 hn (by rw [hres]; rfl) fun h => absurd (hres.symm.trans h) (by decide)
    · rw [Bool.not_eq_false] at hres
      refine .ite (fun hle => .pure fun s t h => hbeyond n s t hn hres hle h) fun hgt => ?_
      have hgt : k < n := UInt32.not_le.mp hgt
      refine .pre (hloop n k hn (by rw [if_pos hres]) fun _ => hgt) fun s t h => ?_
      exact hresume n s t hn hres hgt h
  · rintro s t ⟨rfl, h, hhead⟩
    obtain ⟨t', d, hA, htold, hd⟩ := hhead hok
    exact ⟨hZ t' d _ hA htold hd, rfl, h⟩

/-- A request with a custom handler satisfies what the handler does. -/
theorem spec_iotconnectHttpsRequest {Γ : Type} {L : Logic Op Ans (St B) Γ} {I : St B → Γ → Prop}
    {handler : IotConnectHttpRequest → NxWebHttpClient → M B UINT} {Q : UINT → St B → Γ → Prop}
    (hconnection : ∀ op : Op, op.connection = true → L.Spec I (.call op) fun _ => I)
    (hresponse : ∀ s γ responseBuffer, I s γ → I { s with responseBuffer } γ)
    (hdelete : ∀ status, L.Spec (Q status) nxWebHttpClientDelete fun _ => Q status)
    (hquit : ∀ status s γ, status ≠ nxSuccess → I s γ → Q status s γ) (r : IotConnectHttpRequest)
    (hhandler : L.Spec I (handler r {}) Q) :
    L.Spec I (iotconnectHttpsRequest (some r) (some handler)) Q := by
  have hinvalid : L.Spec I (pure nxInvalidParameters : M B UINT) Q :=
    .pure fun s γ h => hquit _ s γ (by decide) h
  have hclosed : ∀ {p q : M B UINT}, L.Spec I p (fun _ => I) → L.Spec I q Q →
      L.Spec I (do
        let status ← p
        if status ≠ nxSuccess then
          let _ ← nxWebHttpClientDelete
          return status
        else q) Q := fun hp hq =>
    .bind hp fun status => .ite (fun hne => .bind (hconnection _ rfl) fun _ =>
      .pure fun s γ h => hquit status s γ hne h) fun _ => hq
  unfold iotconnectHttpsRequest
  obtain ⟨_ | config, _ | host, resource, payload, tlsCert, tlsCertLen⟩ := r
  · exact hinvalid
  · exact hinvalid
  · exact hinvalid
  refine .ite (fun _ => hinvalid) fun _ => ?_
  refine .bind (Q := fun _ => I) ?_ fun _ => ?_
  · exact spec_writeResponse hresponse (Nat.succ_le_of_lt B.http_pos)
  · refine spec_guard (hconnection _ rfl) hquit <| hclosed (hconnection _ rfl) <|
      hclosed (hconnection _ rfl) ?_
    exact .bind hhandler fun status => .bind (hdelete status) fun _ => .pure fun _ _ h => h

theorem triple_iotconnectHttpsRequest (hL : Undisturbed L A) (hI : Stable I)
    {handler : IotConnectHttpRequest → NxWebHttpClient → M B UINT}
    {Q : UINT → St B → Tr Op Ans → Prop}
    (hQ : ∀ status s t a, Q status s t → Q status s (t ++ [⟨.nxWebHttpClientDelete, a⟩]))
    (hquit : ∀ status s t, status ≠ nxSuccess → I s t → Q status s t) (r : IotConnectHttpRequest)
    (hhandler : L.Spec I (handler r {}) Q) :
    L.Spec I (iotconnectHttpsRequest (some r) (some handler)) Q :=
  spec_iotconnectHttpsRequest (fun _ hop => triple_silent hL hI (Op.silent_of_connection hop))
    hI.response
    (fun status => .call_atomic (hL _ rfl) fun s t a h _ => hQ status s t a h) hquit r hhandler

/-- A download: it is refused, or `J` holds before its request, `K` after it and `T` when the status
was reported. -/
theorem spec_iotcDownload {Γ : Type} {L : Logic Op Ans (St B) Γ} {I J : St B → Γ → Prop}
    {K T Q : UINT → St B → Γ → Prop} {h : Handler} {resume : Bool} {fuel : Nat}
    (hreject : ∀ status, status ≠ nxSuccess → L.Spec I (rejectDownload (some h) status) Q)
    (hmark : ∀ s γ, s.dl.eventCb = none → I s γ →
      J (s.setDl ({ · with eventCb := some h, doResume := resume })) γ)
    (hrequest : ∀ r, L.Spec J (iotconnectHttpsRequest (some r) (some (requestHandler fuel))) K)
    (hstatus : ∀ status, L.Spec (K status) (fireEvent (.status status)) fun _ => T status)
    (hreset : ∀ status s γ, T status s γ → Q status (s.setDl ({ · with eventCb := none })) γ)
    (r : Option IotConnectHttpRequest) :
    L.Spec I (iotcDownload fuel r (some h) resume) Q := by
  have hinvalid : nxInvalidParameters ≠ nxSuccess := by decide
  cases r with
  | none => exact hreject _ hinvalid
  | some r =>
    refine .ite (fun _ => hreject _ hinvalid) fun _ => .bind_get_eq fun s0 => ?_
    refine .ite (fun _ => (hreject _ (by decide)).pre fun s γ hs => hs.2) fun hfree => ?_
    refine .bind (Q := fun _ => J) (.modify ?_) fun _ => ?_
    · rintro s γ ⟨rfl, hs⟩
      exact hmark s γ (by simpa using hfree) hs
    · refine .bind (hrequest r) fun status => .bind (hstatus status) fun _ => ?_
      exact .bind (.modify (hreset status)) fun _ => .pure fun _ _ hs => hs

end

end Iotc.Web
