import Iotc.Web.Steps

/-!
# The body of an HTTPS response

A request without a custom handler that gets as far as its receive loop returns
`NX_SUCCESS`, and its response buffer holds what the loop saw, cut to the buffer
(`response_terminated`). `https_success_iff` says when that is the whole body.
-/

namespace Iotc.Web

open Iotc.C Iotc.Resume

variable {B : Build}

/-- The receive loop of a request without a custom handler, on the delivery `d`. -/
theorem run_receiveResponse {W : World Op Ans (St B)} (hW : Calm W) (m : Method) (s : St B)
    (t : Tr Op Ans) {d : Delivery} (hd : W.ans t (.nxWebHttpClientResponseBodyGet m) = d) :
    ∃ rcv buffer u, Plumbing u ∧
      receive (responseRoom B) (responseFull B) d.last s.responseBuffer 0 [] d.packets = .ok rcv ∧
      rcv.buffer.write? rcv.dataLength.toNat [0] = some buffer ∧
      (receiveResponse m).run W s t = ⟨.ok (), { s with responseBuffer := buffer },
        t ++ [⟨.nxWebHttpClientResponseBodyGet m, d⟩] ++ u⟩ := by
  subst hd
  have hget := run_call_quiet (hW (.nxWebHttpClientResponseBodyGet m) rfl) s t
  obtain ⟨rcv, hrcv, -, hlen, -⟩ := receive_start_spec (responseCapped B)
    (W.ans t (.nxWebHttpClientResponseBodyGet m)).last
    (W.ans t (.nxWebHttpClientResponseBodyGet m)).packets s.responseBuffer
  generalize W.ans t (.nxWebHttpClientResponseBodyGet m) = d at hget hrcv hlen ⊢
  have hpos := UInt32.lt_iff_toNat_lt.mp B.http_pos
  obtain ⟨buffer, hbuffer⟩ : ∃ b, rcv.buffer.write? rcv.dataLength.toNat [0] = some b :=
    Buf.write?_isSome _ (by simp only [UInt32.reduceToNat, List.length_singleton] at *; omega)
  obtain ⟨u, hu, hall⟩ := run_releaseAll hW rcv.released s
    (t ++ [⟨.nxWebHttpClientResponseBodyGet m, d⟩])
  obtain ⟨v, hv, hheld⟩ := run_releaseHeld hW rcv.receivePacket { s with responseBuffer := buffer }
    (t ++ [⟨.nxWebHttpClientResponseBodyGet m, d⟩] ++ u)
  refine ⟨rcv, buffer, u ++ v, hu.append hv, hrcv, hbuffer, ?_⟩
  simp only [receiveResponse, run_bind, nxWebHttpClientResponseBodyGet, hget, Out.bind_ok,
    run_get, hrcv, hall, run_modify, writeResponse, hbuffer, hheld]
  simp only [List.append_assoc]

/-- The loop is run on the delivery `d`, from the content `before` of the response buffer, and
leaves `after`. -/
structure Filled (B : Build) (d : Delivery)
    (before after : Buf B.iotconnectHttpReceiveBufferSize.toNat) : Prop where
  /-- Before every packet the room up to the terminator is left, inside the buffer. -/
  room : ∀ ps rest buffer dl, d.packets = ps ++ rest →
    LoopHead (responseRoom B) (responseFull B) before ps buffer dl →
    receive (responseRoom B) (responseFull B) d.last before 0 [] d.packets =
        receive (responseRoom B) (responseFull B) d.last buffer dl (ps.map (·.ptr)) rest ∧
      dl.toNat ≤ B.iotconnectHttpReceiveBufferSize.toNat - 1 ∧
      dl.toNat + (responseRoom B dl).toNat = B.iotconnectHttpReceiveBufferSize.toNat - 1
  /-- The terminator is written at `data_length`. -/
  ended : ∃ rcv, receive (responseRoom B) (responseFull B) d.last before 0 [] d.packets = .ok rcv ∧
    rcv.dataLength.toNat =
      min (B.iotconnectHttpReceiveBufferSize.toNat - 1) (seen d.last d.packets).length ∧
    rcv.buffer.write? rcv.dataLength.toNat [0] = some after
  text : after.bytes.take
      (min (B.iotconnectHttpReceiveBufferSize.toNat - 1) (seen d.last d.packets).length + 1) =
    (seen d.last d.packets).take (B.iotconnectHttpReceiveBufferSize.toNat - 1) ++ [0]

theorem filled {d : Delivery} {before after : Buf B.iotconnectHttpReceiveBufferSize.toNat}
    {rcv : Received B.iotconnectHttpReceiveBufferSize.toNat}
    (hrcv : receive (responseRoom B) (responseFull B) d.last before 0 [] d.packets = .ok rcv)
    (hwrite : rcv.buffer.write? rcv.dataLength.toNat [0] = some after) :
    Filled B d before after := by
  obtain ⟨rcv', hrcv', -, hlen, htake⟩ :=
    receive_start_spec (responseCapped B) d.last d.packets before
  obtain rfl : rcv = rcv' := Except.ok.inj (hrcv.symm.trans hrcv')
  refine ⟨fun ps rest buffer dl hps hhead => ?_, ⟨rcv, hrcv, hlen, hwrite⟩, ?_⟩
  · have hdl := (hhead.spec (responseCapped B)).1
    have hroom := (responseCapped B).room_eq dl (by omega)
    exact ⟨hps ▸ hhead.receive_eq d.last rest, by omega, by omega⟩
  · have htext := Buf.take_write? hwrite
    rw [htake, hlen] at htext
    exact htext

/-- The response loop was told of no error, no empty packet stopped it before it got to the end, and
the body fits below the terminator. -/
structure Whole (B : Build) (d : Delivery) : Prop where
  no_error : toldError d.last d.packets = none
  not_aborted : ∀ p ∈ d.packets, p.payload ≠ []
  done : ∃ p, d.last = .done p
  length_lt : d.body.length < B.iotconnectHttpReceiveBufferSize.toNat

/-- The response buffer holds the body of `d`, received to its end, as a C string. -/
structure Holds (B : Build) (d : Delivery)
    (buffer : Buf B.iotconnectHttpReceiveBufferSize.toNat) : Prop where
  no_error : toldError d.last d.packets = none
  not_aborted : ∀ p ∈ d.packets, p.payload ≠ []
  done : ∃ p, d.last = .done p
  text : buffer.bytes.take (d.body.length + 1) = d.body ++ [0]

/-- A loop that nothing stops extracts the whole body. -/
theorem seen_eq_body {d : Delivery} (htold : toldError d.last d.packets = none)
    (hfull : ∀ p ∈ d.packets, p.payload ≠ []) : seen d.last d.packets = d.body := by
  obtain ⟨fields, dummy, packets, last⟩ := d
  unfold Delivery.body
  induction packets with
  | nil =>
    cases last with
    | failed status err ptr => cases htold
    | done p =>
      by_cases hp : p.payload = []
      · simp [seen, hp]
      · simp [toldError, hp] at htold
        simp [seen, hp, htold]
  | cons p packets ih =>
    have hp := hfull p List.mem_cons_self
    simp only [toldError, if_neg hp] at htold
    split at htold
    · cases htold
    · next hok =>
      have hseen := ih htold fun p' hp' => hfull p' (List.mem_cons_of_mem _ hp')
      simp only [seen, if_neg hp, if_neg hok, hseen, List.flatMap_cons, List.append_assoc]

/-- What the receive loop leaves in the buffer holds the body exactly when the delivery is
whole. -/
theorem holds_iff_whole {d : Delivery} {before after : Buf B.iotconnectHttpReceiveBufferSize.toNat}
    (hfilled : Filled B d before after) : Holds B d after ↔ Whole B d := by
  have hpos := UInt32.lt_iff_toNat_lt.mp B.http_pos
  constructor
  · rintro ⟨htold, hfull, hdone, hbuffer⟩
    refine ⟨htold, hfull, hdone, ?_⟩
    have hlen := congrArg List.length hbuffer
    rw [List.length_take, after.length_eq, List.length_append, List.length_singleton] at hlen
    omega
  · rintro ⟨htold, hfull, hdone, hlt⟩
    refine ⟨htold, hfull, hdone, ?_⟩
    have hseen := seen_eq_body htold hfull
    have hle : d.body.length ≤ B.iotconnectHttpReceiveBufferSize.toNat - 1 := by omega
    have htext := hfilled.text
    rw [hseen] at htext
    simpa only [Nat.min_eq_right hle, List.take_of_length_le hle] using htext

/-- A request fails before its receive loop, or runs it once and succeeds. -/
theorem httpsRequest_outcome (ans : Tr Op Ans → (op : Op) → Ans op) (r : IotConnectHttpRequest)
    (s : St B) (t : Tr Op Ans) {m : Method} (hm : (if r.payload.isSome then .post else .get) = m)
    {o : Out Op Ans (St B) UINT}
    (ho : (iotconnectHttpsRequest (some r) none).run (.sequential ans) s t = o) :
    (o.res ≠ .ok nxSuccess ∧ answered m (o.tr.drop t.length) = []) ∨
      ∃ d before, answered m (o.tr.drop t.length) = [d] ∧ o.res = .ok nxSuccess ∧
        Filled B d before o.st.responseBuffer := by
  have hW : Calm (World.sequential ans : World Op Ans (St B)) := fun op _ =>
    World.sequential_quiet ans op
  obtain ⟨cleared, p, hleads, hrun⟩ := leads_iotconnectHttpsRequest hW r none s
  obtain ⟨u, hu, ⟨e, hne, hend⟩ | hend⟩ := hleads { s with responseBuffer := cleared } t
  · -- the request ends before its receive loop
    have ho := ho.symm.trans ((hrun t).trans hend)
    rw [ho, List.drop_left, hu.answered]
    exact .inl ⟨hne, rfl⟩
  · obtain ⟨rcv, buffer, v, hv, hrcv, hwrite, hreceive⟩ := run_receiveResponse hW m
      { s with responseBuffer := cleared } (t ++ u) rfl
    generalize (World.sequential ans : World Op Ans (St B)).ans (t ++ u)
      (.nxWebHttpClientResponseBodyGet m) = d at hreceive hrcv
    have hdelete := run_plumbing hW (o := Op.nxWebHttpClientDelete) rfl
    have ho := ho.symm.trans ((hrun t).trans hend)
    simp only [httpsTail, hm, run_bind, hreceive, Out.bind_ok, nxWebHttpClientDelete, hdelete,
      run_pure] at ho
    have hdel : ∀ a, answered m [⟨.nxWebHttpClientDelete, a⟩] = [] := fun a => rfl
    refine .inr ⟨d, cleared, ?_, by rw [ho], ?_⟩
    · rw [ho]
      simp only [List.append_assoc, List.drop_left, answered_append, answered_bodyGet,
        hu.answered, hv.answered, hdel, List.nil_append, List.append_nil]
    · rw [ho]
      exact filled hrcv hwrite

/-- `iotconnect_https_request` succeeds only with the whole body exactly when the delivery
it receives, if it gets that far, is whole. -/
theorem https_success_iff (ans : Tr Op Ans → (op : Op) → Ans op) (r : IotConnectHttpRequest)
    (s : St B) (t : Tr Op Ans) :
    let m := if r.payload.isSome then .post else .get
    let o := (iotconnectHttpsRequest (some r) none).run (.sequential ans) s t
    (o.res = .ok nxSuccess →
        ∃ d, answered m (o.tr.drop t.length) = [d] ∧ Holds B d o.st.responseBuffer) ↔
      ∀ d ∈ answered m (o.tr.drop t.length), Whole B d := by
  intro m o
  rcases httpsRequest_outcome ans r s t (m := m) rfl (o := o) rfl with
    ⟨hne, hanswered⟩ | ⟨d, before, hanswered, hres, hfilled⟩
  · rw [hanswered]
    exact ⟨fun _ d hd => absurd hd List.not_mem_nil, fun _ he => absurd he hne⟩
  · rw [hanswered]
    simp [hres, holds_iff_whole hfilled]

/-- A response that stops at a receive error after one byte. -/
def brokenBody : Delivery where
  fields := []
  dummy := 0
  packets := [⟨1, [65], nxSuccess⟩]
  last := .failed 0x3000D ⟨by decide, by decide⟩ none

/-- The broken response counts as success. -/
theorem broken_body_is_success :
    let o := (iotconnectHttpsRequest (B := .default) (some fileRequest) none).run
      (.sequential fun _ => allGood brokenBody brokenBody) (.init _) []
    o.res = .ok nxSuccess ∧ answered .get o.tr = [brokenBody] ∧
      toldError brokenBody.last brokenBody.packets = some 0x3000D ∧
      ¬ Holds .default brokenBody o.st.responseBuffer :=
  ⟨rfl, rfl, rfl, fun h => by cases h.no_error⟩

end Iotc.Web
