import Iotc.Web.Download

/-!
# Requests up to the point of no return

`Leads W p q`: in the world `W` the program `p` either ends short of success without
touching a static variable, or goes on as `q`; either way it has only made `plumbing`
calls by then. Every chain of guarded NetX calls in the clients is of this kind.
-/

namespace Iotc.Web

open Iotc.C Iotc.Resume

/-- The application's callback is the one call that may call back. -/
def reent : Op → Bool
  | .userDownloadCb .. => true
  | _ => false

variable {B : Build}

/-- A world in which only the application's callback lets anything else run. -/
def Calm (W : World Op Ans (St B)) : Prop := ∀ op, reent op = false → W.Quiet op

/-- Calls that carry no file data and reach neither driver nor application. -/
def Op.plumbing : Op → Bool
  | .nxWebHttpClientResponseBodyGet _ | .aduDriver .. | .userDownloadCb .. => false
  | _ => true

def Plumbing (u : Tr Op Ans) : Prop := ∀ ev ∈ u, ev.1.plumbing = true

theorem Plumbing.nil : Plumbing [] := fun _ h => nomatch h

theorem Plumbing.append {u v : Tr Op Ans} (hu : Plumbing u) (hv : Plumbing v) :
    Plumbing (u ++ v) := fun ev h => (List.mem_append.mp h).elim (hu ev) (hv ev)

theorem Plumbing.single {op : Op} {a : Ans op} (h : op.plumbing = true) :
    Plumbing [⟨op, a⟩] := fun ev hev => by
  rw [List.mem_singleton] at hev
  exact hev ▸ h

/-- The deliveries of responses to `m` requests, in order. -/
def answered (m : Method) (t : Tr Op Ans) : List Delivery :=
  t.filterMap fun
    | ⟨.nxWebHttpClientResponseBodyGet m', d⟩ => if m' = m then some d else none
    | _ => none

@[simp] theorem answered_append (m : Method) (u v : Tr Op Ans) :
    answered m (u ++ v) = answered m u ++ answered m v := List.filterMap_append

@[simp] theorem answered_bodyGet (m : Method) (d : Delivery) :
    answered m [⟨.nxWebHttpClientResponseBodyGet m, d⟩] = [d] := by
  simp [answered]

theorem mem_of_answered {m : Method} {d : Delivery} {u : Tr Op Ans} (h : d ∈ answered m u) :
    ⟨.nxWebHttpClientResponseBodyGet m, d⟩ ∈ u := by
  obtain ⟨⟨op, a⟩, hev, hd⟩ := List.mem_filterMap.mp h
  cases op with
  | nxWebHttpClientResponseBodyGet m' =>
    obtain ⟨rfl, rfl⟩ : m' = m ∧ a = d := by simpa using hd
    exact hev
  | _ => cases hd

theorem Plumbing.answered {u : Tr Op Ans} (hu : Plumbing u) (m : Method) : answered m u = [] := by
  refine List.filterMap_eq_nil_iff.mpr fun ev hev => ?_
  obtain ⟨op, a⟩ := ev
  have hop := hu _ hev
  cases op <;> first | rfl | cases hop

theorem reent_of_plumbing {op : Op} (h : op.plumbing = true) : reent op = false := by
  cases op <;> first | rfl | cases h

section
variable {W : World Op Ans (St B)}

theorem run_plumbing (hW : Calm W) {o : Op} (h : o.plumbing = true) (s : St B) (t : Tr Op Ans) :
    (Prog.call o : M B (Ans o)).run W s t = ⟨.ok (W.ans t o), s, t ++ [⟨o, W.ans t o⟩]⟩ :=
  run_call_quiet (hW o (reent_of_plumbing h)) s t

variable (W) in
/-- `p` ends short of success or goes on as `q`. -/
def Leads (p q : M B UINT) : Prop := ∀ s t, ∃ u, Plumbing u ∧
  ((∃ r, r ≠ .ok nxSuccess ∧ p.run W s t = ⟨r, s, t ++ u⟩) ∨ p.run W s t = q.run W s (t ++ u))

theorem Leads.refl (p : M B UINT) : Leads W p p := fun s t =>
  ⟨[], .nil, .inr (by rw [List.append_nil])⟩

theorem Leads.trans {p q r : M B UINT} (h1 : Leads W p q) (h2 : Leads W q r) : Leads W p r := by
  intro s t
  obtain ⟨u, hu, h | h⟩ := h1 s t
  · exact ⟨u, hu, .inl h⟩
  · obtain ⟨v, hv, h' | h'⟩ := h2 s (t ++ u)
    · obtain ⟨e, hne, he⟩ := h'
      exact ⟨u ++ v, hu.append hv, .inl ⟨e, hne, by rw [h, he, List.append_assoc]⟩⟩
    · exact ⟨u ++ v, hu.append hv, .inr (by rw [h, h', List.append_assoc])⟩

/-- One status call. -/
theorem Leads.status {p : M B UINT}
    (h : ∀ s t, ∃ (a : UINT) (ev : Ev Op Ans), p.run W s t = ⟨.ok a, s, t ++ [ev]⟩ ∧
      ev.1.plumbing = true) : Leads W p (pure nxSuccess) := by
  intro s t
  obtain ⟨a, ev, hrun, hev⟩ := h s t
  refine ⟨[ev], fun e he => List.mem_singleton.mp he ▸ hev, ?_⟩
  by_cases ha : a = nxSuccess
  · exact .inr (by rw [hrun, ha, run_pure])
  · exact .inl ⟨.ok a, fun he => ha (Except.ok.inj he), hrun⟩

variable (W) in
/-- `p` returns `e` after plumbing calls. -/
def Quits (p : M B UINT) (e : UINT) : Prop :=
  ∀ s t, ∃ u, Plumbing u ∧ p.run W s t = ⟨.ok e, s, t ++ u⟩

theorem Quits.pure (e : UINT) : Quits W (pure e : M B UINT) e := fun s t =>
  ⟨[], .nil, by rw [run_pure, List.append_nil]⟩

theorem Quits.delete (hW : Calm W) (e : UINT) :
    Quits W (do let _ ← nxWebHttpClientDelete; return e : M B UINT) e := fun s t =>
  ⟨_, .single rfl, by
    rw [run_bind, nxWebHttpClientDelete, run_plumbing hW rfl, Out.bind_ok, run_pure]⟩

/-- A status that is checked: on failure `quit` returns it, on success `q` follows. -/
theorem Leads.guard {p q : M B UINT} {quit : UINT → M B UINT} (hp : Leads W p (Pure.pure nxSuccess))
    (hq : ∀ e, Quits W (quit e) e) :
    Leads W (do let status ← p; if status ≠ nxSuccess then quit status else q) q := by
  intro s t
  obtain ⟨u, hu, h⟩ := hp s t
  rw [run_bind]
  rcases h with ⟨r, hne, h⟩ | h
  · rw [h]
    rcases r with e | a
    · exact ⟨u, hu, .inl ⟨.error e, by simp, rfl⟩⟩
    · have ha : a ≠ nxSuccess := fun he => hne (by rw [he])
      obtain ⟨v, hv, hrun⟩ := hq a s (t ++ u)
      refine ⟨u ++ v, hu.append hv, .inl ⟨.ok a, hne, ?_⟩⟩
      rw [Out.bind_ok, run_ite, if_pos ha, hrun, List.append_assoc]
  · refine ⟨u, hu, .inr ?_⟩
    rw [h, run_pure, Out.bind_ok, run_ite, if_neg (by simp)]

/-! ## The requests of the two clients -/

theorem leads_request (hW : Calm W) (m : Method) (r : IotConnectHttpRequest) (k : Nat) :
    Leads W (nxWebHttpClientRequestInitialize m r k) (Pure.pure nxSuccess) :=
  .status fun s t => ⟨_, _, run_plumbing hW rfl s t, rfl⟩

theorem leads_headerAdd (hW : Calm W) (name value : String) :
    Leads W (nxWebHttpClientRequestHeaderAdd name value) (Pure.pure nxSuccess) :=
  .status fun s t => ⟨_, _, run_plumbing hW rfl s t, rfl⟩

theorem leads_send (hW : Calm W) : Leads W nxWebHttpClientRequestSend (Pure.pure nxSuccess) :=
  .status fun s t => ⟨_, _, run_plumbing hW rfl s t, rfl⟩

/-- Ending short of success leads anywhere. -/
theorem Leads.of_return {e : UINT} (he : e ≠ nxSuccess) (q : M B UINT) : Leads W (Pure.pure e) q :=
  fun s t => ⟨[], .nil, .inl ⟨.ok e, fun h => he (Except.ok.inj h), by rw [List.append_nil]; rfl⟩⟩

theorem leads_sendRequest (hW : Calm W) (r : IotConnectHttpRequest) :
    Leads W (sendRequest r) (Pure.pure nxSuccess) := by
  unfold sendRequest
  cases r.payload with
  | some payload =>
    exact ((leads_request hW _ _ _).guard .pure).trans <|
      ((leads_headerAdd hW _ _).guard .pure).trans (leads_send hW)
  | none => exact ((leads_request hW _ _ _).guard .pure).trans (leads_send hW)

theorem leads_sendPacket (hW : Calm W) (ptr : Nat) (payload : CStr) :
    Leads W (sendPacket ptr payload) (Pure.pure nxSuccess) :=
  ((Leads.status fun s t => ⟨_, _, run_plumbing hW rfl s t, rfl⟩).guard .pure).trans <|
    .status fun s t => ⟨_, _, run_plumbing hW rfl s t, rfl⟩

theorem leads_sendPayload (hW : Calm W) (payload : Option CStr) :
    Leads W (sendPayload payload) (Pure.pure nxSuccess) := by
  cases payload with
  | none => exact .refl _
  | some payload =>
    intro s t
    have halloc := run_plumbing hW (o := Op.nxWebHttpClientRequestPacketAllocate) rfl s t
    generalize W.ans t Op.nxWebHttpClientRequestPacketAllocate = ptr at halloc
    have hrun : (sendPayload (some payload) : M B UINT).run W s t =
        (match ptr with
          | some ptr => sendPacket ptr payload
          | none => .stop .fault : M B UINT).run W s
            (t ++ [⟨Op.nxWebHttpClientRequestPacketAllocate, ptr⟩]) := by
      simp only [sendPayload, run_bind, nxWebHttpClientRequestPacketAllocate, halloc, Out.bind_ok]
      cases ptr <;> rfl
    have halloc : Plumbing [⟨Op.nxWebHttpClientRequestPacketAllocate, ptr⟩] := .single rfl
    rw [hrun]
    cases ptr with
    | none => exact ⟨_, halloc, .inl ⟨.error .fault, nofun, rfl⟩⟩
    | some ptr =>
      obtain ⟨u, hu, h⟩ := leads_sendPacket hW ptr payload s
        (t ++ [⟨Op.nxWebHttpClientRequestPacketAllocate, some ptr⟩])
      refine ⟨_ ++ u, halloc.append hu, ?_⟩
      rw [← List.append_assoc]
      exact h

/-- What a request does once it is connected. -/
def httpsTail (r : IotConnectHttpRequest) :
    Option (IotConnectHttpRequest → NxWebHttpClient → M B UINT) → M B UINT
  | some handler => do
    let status ← handler r {}
    let _ ← nxWebHttpClientDelete
    return status
  | none => do
    receiveResponse (if r.payload.isSome then .post else .get)
    let _ ← nxWebHttpClientDelete
    return nxSuccess

theorem leads_plainExchange (hW : Calm W) (r : IotConnectHttpRequest) :
    Leads W (plainExchange r) (httpsTail r none) := by
  unfold plainExchange
  by_cases hr : r.resource.isNone
  · rw [if_pos hr]
    exact .of_return (by decide) _
  · rw [if_neg hr]
    exact ((leads_sendRequest hW r).guard (.delete hW)).trans <|
      (leads_sendPayload hW r.payload).guard (.delete hW)

theorem leads_connectExchange (hW : Calm W) (r : IotConnectHttpRequest)
    (config : IotConnectAzrtosConfig) (host : CStr)
    (handler : Option (IotConnectHttpRequest → NxWebHttpClient → M B UINT)) :
    Leads W (connectExchange r config host handler) (httpsTail r handler) := by
  have hcreate : Leads W (nxWebHttpClientCreate config) (Pure.pure nxSuccess) :=
    .status fun s t => ⟨_, _, run_plumbing hW rfl s t, rfl⟩
  have hdns : Leads W (nxDnsHostByNameGet config host) (Pure.pure nxSuccess) :=
    .status fun s t => ⟨_, _, run_plumbing hW rfl s t, rfl⟩
  have hconnect : Leads W nxWebHttpClientSecureConnect (Pure.pure nxSuccess) :=
    .status fun s t => ⟨_, _, run_plumbing hW rfl s t, rfl⟩
  refine (hcreate.guard .pure).trans <| (hdns.guard (.delete hW)).trans <|
    (hconnect.guard (.delete hW)).trans ?_
  cases handler with
  | some handler => exact .refl _
  | none => exact leads_plainExchange hW r

/-- A request clears the response buffer and leads to its tail. -/
theorem leads_iotconnectHttpsRequest (hW : Calm W) (r : IotConnectHttpRequest)
    (handler : Option (IotConnectHttpRequest → NxWebHttpClient → M B UINT)) (s : St B) :
    ∃ buffer p, Leads W p (httpsTail r handler) ∧
      ∀ t, (iotconnectHttpsRequest (some r) handler).run W s t =
        p.run W { s with responseBuffer := buffer } t := by
  have hinvalid : nxInvalidParameters ≠ nxSuccess := by decide
  obtain ⟨buffer, hbuffer⟩ : ∃ b, s.responseBuffer.write? 0 [0] = some b :=
    Buf.write?_isSome _ (by
      have := UInt32.lt_iff_toNat_lt.mp B.http_pos
      simp only [UInt32.reduceToNat, List.length_singleton] at *; omega)
  unfold iotconnectHttpsRequest
  cases hconfig : r.azrtosConfig with
  | none => exact ⟨s.responseBuffer, _, .of_return hinvalid _, fun t => by simp only [hconfig]⟩
  | some config =>
  cases hhost : r.hostName with
  | none =>
    exact ⟨s.responseBuffer, _, .of_return hinvalid _, fun t => by simp only [hconfig, hhost]⟩
  | some host =>
  by_cases htls : r.tlsCert.isNone ∨ r.tlsCertLen = 0
  · exact ⟨s.responseBuffer, _, .of_return hinvalid _,
      fun t => by simp only [hconfig, hhost, if_pos htls]⟩
  · exact ⟨buffer, _, leads_connectExchange hW r config host handler, fun t => by
      simp only [hconfig, hhost, if_neg htls, writeResponse, run_bind, run_get, Out.bind_ok,
        hbuffer, run_modify]⟩

/-! ## Responses -/

theorem run_releaseAll (hW : Calm W) (ptrs : List Nat) (s : St B) (t : Tr Op Ans) :
    ∃ u, Plumbing u ∧ (releaseAll ptrs).run W s t = ⟨.ok (), s, t ++ u⟩ := by
  induction ptrs generalizing t with
  | nil => exact ⟨[], .nil, by rw [List.append_nil]; rfl⟩
  | cons p ps ih =>
    have hp := run_plumbing hW (o := Op.nxPacketRelease p) rfl s t
    obtain ⟨u, hu, hrun⟩ := ih (t ++ [⟨Op.nxPacketRelease p, W.ans t (.nxPacketRelease p)⟩])
    have hsingle : Plumbing [⟨Op.nxPacketRelease p, W.ans t (.nxPacketRelease p)⟩] := .single rfl
    refine ⟨_, hsingle.append hu, ?_⟩
    rw [releaseAll, run_bind, nxPacketRelease, hp, Out.bind_ok, hrun, List.append_assoc]

theorem run_releaseHeld (hW : Calm W) (ptr : Option Nat) (s : St B) (t : Tr Op Ans) :
    ∃ u, Plumbing u ∧ (releaseHeld ptr).run W s t = ⟨.ok (), s, t ++ u⟩ := by
  cases ptr with
  | none => exact ⟨[], .nil, by rw [List.append_nil]; rfl⟩
  | some p => exact ⟨_, .single rfl, run_plumbing hW rfl s t⟩

/-- The download client's receive loop on the delivery `d`: it faults in the header
callback, or ends with the error it was told of and with what it saw in the buffer. -/
theorem run_getResponse (hW : Calm W) (m : Method) (client : NxWebHttpClient) (s : St B)
    (t : Tr Op Ans) {d : Delivery} (hd : W.ans t (.nxWebHttpClientResponseBodyGet m) = d) :
    (∃ e, runHeaderCallback client d s.dl.fileSize = .error e ∧
      (getResponse m client).run W s t =
        ⟨.error e, s, t ++ [⟨.nxWebHttpClientResponseBodyGet m, d⟩]⟩) ∨
    ∃ fileSize buffer dataLength u, runHeaderCallback client d s.dl.fileSize = .ok fileSize ∧
      Plumbing u ∧
      (getResponse m client).run W s t = ⟨.ok ((toldError d.last d.packets).getD nxSuccess),
        s.setDl ({ · with fileSize, buffer, dataLength }),
        t ++ [⟨.nxWebHttpClientResponseBodyGet m, d⟩] ++ u⟩ ∧
      dataLength.toNat = min B.iotcDlDataBufferSize.toNat (seen d.last d.packets).length ∧
      buffer.bytes.take dataLength.toNat =
        (seen d.last d.packets).take B.iotcDlDataBufferSize.toNat := by
  subst hd
  have hget := run_call_quiet (hW (.nxWebHttpClientResponseBodyGet m) rfl) s t
  obtain ⟨rcv, hrcv, hstatus, hlen, htake⟩ := receive_start_spec (chunkCapped B)
    (W.ans t (.nxWebHttpClientResponseBodyGet m)).last
    (W.ans t (.nxWebHttpClientResponseBodyGet m)).packets s.dl.buffer
  generalize W.ans t (.nxWebHttpClientResponseBodyGet m) = d at hget hrcv hstatus hlen htake ⊢
  cases hcb : runHeaderCallback client d s.dl.fileSize with
  | error e =>
    left
    refine ⟨e, rfl, ?_⟩
    simp only [getResponse, run_bind, nxWebHttpClientResponseBodyGet, hget, Out.bind_ok, run_get,
      hcb, hrcv, run_stop]
  | ok fileSize =>
    right
    obtain ⟨u, hu, hall⟩ := run_releaseAll hW rcv.released
      (s.setDl ({ · with fileSize, buffer := rcv.buffer, dataLength := rcv.dataLength }))
      (t ++ [⟨.nxWebHttpClientResponseBodyGet m, d⟩])
    obtain ⟨v, hv, hheld⟩ := run_releaseHeld hW rcv.receivePacket
      (s.setDl ({ · with fileSize, buffer := rcv.buffer, dataLength := rcv.dataLength }))
      (t ++ [⟨.nxWebHttpClientResponseBodyGet m, d⟩] ++ u)
    refine ⟨fileSize, rcv.buffer, rcv.dataLength, u ++ v, rfl, hu.append hv, ?_, hlen, htake⟩
    · simp only [getResponse, run_bind, nxWebHttpClientResponseBodyGet, hget, Out.bind_ok, run_get,
        hcb, hrcv, run_modify, hall, hheld, run_pure, hstatus]
      simp only [List.append_assoc]

end

end Iotc.Web
