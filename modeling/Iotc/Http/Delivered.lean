import Iotc.Http.Counted
import Iotc.Web.Response

/-!
# From the network to the response buffer

The loop of `iotconnect_https_request` sees what `bodyPackets` hands out. On a chunked response its
buffer gets the whole body, however it arrives (`https_chunked_response`); on a response with a
length it gets nothing when the first packet ends with the header (`https_counted_response`).
-/

namespace Iotc.Http

open Iotc.C Iotc.Web Iotc.Lib Iotc.Resume

variable {P : Pool} {s s' : St} {h : Head} {body : List UInt8}

/-- The data of the last packet can be taken too. -/
theorem meets_extract (fuel : Nat) (s : St) :
    Meets (bodyPackets P fuel) s (fun r _ => ∀ p, r.2 = .done p → p.extractStatus = nxSuccess)
      (fun _ _ => True) := by
  induction fuel generalizing s with
  | zero => exact .throw trivial
  | succ fuel ih =>
    refine .bind (Meets.any.mono (fun status s1 _ => ?_) fun _ _ _ => trivial)
    refine .bind_get ?_
    split
    · cases s1.returned with
      | none => exact .throw trivial
      | some out =>
        refine .ite (fun _ => .pure ?_) fun _ => ?_
        · rintro p ⟨⟩
          rfl
        · refine .bind ((ih s1).mono ?_ fun _ _ => id)
          rintro ⟨packets, last⟩ s2 hlast
          exact .pure hlast
    · refine .pure fun p hp => ?_
      cases hp

theorem noneEmpty_cutInto {pieces : List (List UInt8)} (h : ∀ xs ∈ pieces, xs ≠ []) :
    NoneEmpty (cutInto pieces) := by
  intro r hr
  obtain ⟨xs, hxs, hr⟩ := List.mem_map.mp hr
  cases hr
  simpa using h xs hxs

/-- What a receive loop sees of sound packets is all of them. -/
theorem seen_sound {packets : List Packet} {last : BodyEnd} (hsound : Sound packets)
    (hlast : ∀ p, last = .done p → p.extractStatus = nxSuccess) :
    seen last packets = bodyBytes (packets, last) := by
  induction packets with
  | nil =>
    cases last with
    | failed => rfl
    | done p =>
      have hp := hlast p rfl
      simp only [seen, bodyBytes, Delivery.body, List.flatMap_nil, List.nil_append, hp]
      split
      · next hnil => exact hnil.symm
      · rfl
  | cons p packets ih =>
    obtain ⟨hne, hp⟩ := hsound p List.mem_cons_self
    rw [seen, if_neg hne, if_neg (not_not.mpr hp), bodyBytes_cons,
      ih fun q hq => hsound q (List.mem_cons_of_mem _ hq)]

/-- The packets and the end of a run, field by field. -/
def shown (fuel : Nat) (s : St) : List (Nat × List UInt8 × UINT) × Option (Nat × List UInt8 × UINT) :=
  match bodyPackets .sample fuel s with
  | .ok (packets, .done p) _ =>
    (packets.map fun p => (p.ptr, p.payload, p.extractStatus), some (p.ptr, p.payload, p.extractStatus))
  | _ => ([], none)

theorem eq_of_shown {fuel : Nat} {s s' : St} {r : List Packet × BodyEnd} {packets : List Packet}
    {p : Packet} (hrun : bodyPackets .sample fuel s = .ok r s')
    (h : shown fuel s = (packets.map fun p => (p.ptr, p.payload, p.extractStatus),
      some (p.ptr, p.payload, p.extractStatus))) : r = (packets, .done p) := by
  rw [shown, hrun] at h
  obtain ⟨qs, last⟩ := r
  cases last with
  | failed => simp at h
  | done q =>
    simp only [Prod.mk.injEq, Option.some.injEq] at h
    obtain ⟨hmap, h1, h2, h3⟩ := h
    have hqs : qs = packets := by
      refine (List.map_inj_right ?_).mp hmap
      rintro ⟨a, b, c⟩ ⟨d, e, f⟩ heq
      cases heq
      rfl
    rw [hqs]
    obtain ⟨a, b, c⟩ := p
    obtain ⟨d, e, f⟩ := q
    simp only at h1 h2 h3
    rw [h1, h2, h3]

variable {B : Build}

/-- What the request leaves in its buffer when it was answered with `d`. -/
theorem https_text (ans : Tr Op Ans → (op : Op) → Ans op) (req : IotConnectHttpRequest)
    (u : Web.St B) (t : Tr Op Ans) {d : Delivery} :
    let m := if req.payload.isSome then .post else .get
    let o := (iotconnectHttpsRequest (some req) none).run (.sequential ans) u t
    answered m (o.tr.drop t.length) = [d] → o.res = .ok nxSuccess ∧
      o.st.responseBuffer.bytes.take
          (min (B.iotconnectHttpReceiveBufferSize.toNat - 1) (seen d.last d.packets).length + 1) =
        (seen d.last d.packets).take (B.iotconnectHttpReceiveBufferSize.toNat - 1) ++ [0] := by
  intro m o hd
  rcases httpsRequest_outcome ans req u t (m := m) rfl (o := o) rfl with
    ⟨-, hnil⟩ | ⟨d', before, hd', hres, hfilled⟩
  · rw [hd] at hnil
    cases hnil
  · cases hd.symm.trans hd'
    exact ⟨hres, hfilled.text⟩

/-- What the loop is handed first decides what it sees of a body with a length. -/
theorem Receipt.seen_eq {r : List Packet × BodyEnd} {first : Received}
    {rest : List (Except Failure Received)} (hreceipt : Receipt P s h body body.length r s')
    (hextract : ∀ p, r.2 = .done p → p.extractStatus = nxSuccess)
    (hinc : s.incoming = .ok first :: rest) (hle : h.text.length ≤ first.chain.head.data.length)
    (hnone : NoneEmpty s.incoming) (hbody : body ≠ []) :
    seen r.2 r.1 = if first.chain.bytes = h.text then [] else body := by
  obtain ⟨packets, last⟩ := r
  have hpos := List.length_pos_iff.mpr hbody
  have hbytes : bodyBytes (packets, last) = body := by
    rcases hreceipt.counts with ⟨-, hbytes, -⟩ | ⟨-, -, hlt⟩ | ⟨-, -, hlt⟩
    · rwa [List.take_length] at hbytes
    · omega
    · omega
  obtain ⟨c, left, inc, hhands, hwhole, hempty, hfirst⟩ := hreceipt.hands
  have halone : first.chain.bytes = h.text ↔ left.bytes = [] := by
    rw [← hfirst first rest hinc hle, hwhole, List.append_right_eq_self]
  simp only [halone]
  cases hhands with
  | last hge =>
    have hne : left.bytes ≠ [] := List.length_pos_iff.mp (Nat.lt_of_lt_of_le hpos hge)
    rw [if_neg hne, ← hbytes]
    exact seen_sound (fun p hp => absurd hp List.not_mem_nil) hextract
  | more packets hless hsound =>
    have hpayload : (packetOf left left.length).payload = left.bytes := List.take_length
    by_cases hnil : left.bytes = []
    · rw [if_pos hnil, seen, if_pos (hpayload.trans hnil)]
    · rw [if_neg hnil, ← hbytes]
      exact seen_sound (sound_cons (by rw [hpayload]; exact hnil) rfl (hsound (hempty hnone))) hextract

/-- Where the packet with the header holds nothing of the body, a request that gets the whole body
succeeds with an empty response; otherwise the response buffer gets the body, cut to the buffer. -/
theorem https_counted_response (hP : P.Serves) (harr : Arrives P s h body)
    (hverdict : h.verdict = nxSuccess) (hplain : h.fields.any Field.chunked = false)
    (hfound : foundLength P s = body.length) (hn : h.text.length + body.length < 4294967296)
    (hstate : s.state ≠ .head) (hbody : body ≠ []) {first : Received}
    {rest : List (Except Failure Received)} (hinc : s.incoming = .ok first :: rest)
    (hle : h.text.length ≤ first.chain.head.data.length) (hnone : NoneEmpty s.incoming) {fuel : Nat}
    (hfuel : s.incoming.length < fuel) (ans : Tr Op Ans → (op : Op) → Ans op)
    (req : IotConnectHttpRequest) (u : Web.St B) (t : Tr Op Ans) :
    let m := if req.payload.isSome then .post else .get
    let o := (iotconnectHttpsRequest (some req) none).run (.sequential ans) u t
    ∃ r s', bodyPackets P fuel s = .ok r s' ∧ lastStatus r.2 = nxWebHttpGetDone ∧ bodyBytes r = body ∧
      ∀ fields dummy, answered m (o.tr.drop t.length) = [⟨fields, dummy, r.1, r.2⟩] →
        o.res = .ok nxSuccess ∧
          if first.chain.bytes = h.text then o.st.responseBuffer.bytes.take 1 = [0]
          else o.st.responseBuffer.bytes.take
              (min (B.iotconnectHttpReceiveBufferSize.toNat - 1) body.length + 1) =
            body.take (B.iotconnectHttpReceiveBufferSize.toNat - 1) ++ [0] := by
  intro m o
  have hmeets := meets_countedResponse hP harr hverdict hplain hfound hn
    (fun hhead => absurd hhead hstate) hfuel
  rw [if_neg hstate] at hmeets
  cases hrun : bodyPackets P fuel s with
  | error e s' => exact (hmeets.error hrun).elim
  | ok r s' =>
    have hreceipt := hmeets.ok hrun
    have hcounts : lastStatus r.2 = nxWebHttpGetDone ∧ bodyBytes r = body := by
      rcases hreceipt.counts with ⟨hlast, hbytes, -⟩ | ⟨-, -, hlt⟩ | ⟨-, -, hlt⟩
      · rw [List.take_length] at hbytes
        exact ⟨hlast, hbytes⟩
      · omega
      · omega
    refine ⟨r, s', rfl, hcounts.1, hcounts.2, fun fields dummy hanswered => ?_⟩
    have hseen := hreceipt.seen_eq ((meets_extract fuel s).ok hrun) hinc hle hnone hbody
    obtain ⟨hres, htext⟩ := https_text ans req u t hanswered
    refine ⟨hres, ?_⟩
    rw [hseen] at htext
    split at htext
    · next heq =>
      rw [if_pos heq]
      simpa using htext
    · next hne =>
      rw [if_neg hne]
      exact htext

theorem https_counted_response_empty :
    let d : Delivery := ⟨[], 0, [⟨7, [], 0⟩], .done ⟨7, cstr "hi", 0⟩⟩
    let o := (iotconnectHttpsRequest (B := .default) (some fileRequest) none).run
      (.sequential fun _ => allGood d d) (.init _) []
    (∃ s', bodyPackets .sample 3 (waiting [(Head.mk .ok [.length 2]).text, cstr "hi"]) =
        .ok (d.packets, d.last) s') ∧
      o.res = .ok nxSuccess ∧ o.st.responseBuffer.bytes.take 1 = [0] := by
  intro d o
  have harr : Arrives .sample (waiting [(Head.mk .ok [.length 2]).text, cstr "hi"])
      ⟨.ok, [.length 2]⟩ (cstr "hi") :=
    arrives_waiting (by decide) (by decide +kernel) (by decide +kernel) (by decide +kernel)
  have hnone : NoneEmpty (waiting [(Head.mk .ok [.length 2]).text, cstr "hi"]).incoming :=
    noneEmpty_cutInto (by decide +kernel)
  obtain ⟨r, s', hrun, -, -, hall⟩ := https_counted_response (B := .default) Pool.sample_serves harr
    (by decide +kernel) (by decide +kernel)
    (foundLength_field Pool.sample_serves harr (show _ = [] ++ Field.length 2 :: [] from rfl)
      (by decide +kernel) (by decide +kernel) (Decimal.numeral_ofNat _))
    (by decide +kernel) nofun (by decide) rfl (by decide +kernel) hnone (show _ < 3 by decide)
    (fun _ => allGood d d) fileRequest (.init _) []
  obtain rfl : r = (d.packets, d.last) := eq_of_shown hrun (by decide +kernel)
  obtain ⟨hres, htext⟩ := hall [] 0 rfl
  rw [if_pos (by decide +kernel)] at htext
  exact ⟨⟨s', hrun⟩, hres, htext⟩

end Iotc.Http
