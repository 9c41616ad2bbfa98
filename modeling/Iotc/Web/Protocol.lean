import Iotc.Web.RangeHeader

/-!
# The events of a download

What the callback of `iotc_download` receives: the size of the file, the chunks from
`start` on, each after at most `IOTC_DL_NUM_RETRIES` requests for its range, and the status,
once and last. `Protocol` is the grammar of these events; every call keeps to it.
-/

namespace Iotc.Web

open Iotc.C Iotc.Resume

variable {B : Build}

/-! ## What the callback receives -/

/-- An event, the answer to it, and the ranges asked for since the event before. -/
structure Report where
  asked : List String
  evt : IotConnectDownloadEvent
  answer : Bool

/-- What the callback has received, and the ranges asked for since. -/
structure Record where
  asked : List String := []
  reports : List Report := []

def Record.add (cb : Nat) (l : Record) : Ev Op Ans → Record
  | ⟨.nxWebHttpClientRequestHeaderAdd name value, _⟩ =>
    if name = "Range" then { l with asked := l.asked ++ [value] } else l
  | ⟨.userDownloadCb cb' evt, answer⟩ =>
    if cb' = cb then ⟨[], l.reports ++ [⟨l.asked, evt, answer⟩]⟩ else l
  | _ => l

def record (cb : Nat) (u : Tr Op Ans) : Record := u.foldl (Record.add cb) {}

/-- The DATA event of the `size` bytes at `off`, in a file of `n` bytes. -/
structure IsChunk (B : Build) (n off size : SizeT) (answer : Bool) (r : Report) : Prop where
  evt : ∃ dataPtr, r.evt = .data dataPtr size off n
  answer_eq : r.answer = answer
  asked_pos : 0 < r.asked.length
  asked_le : r.asked.length ≤ B.iotcDlNumRetries
  asked_eq : ∀ v ∈ r.asked, v = rangeFormat off (off + size - 1)
  size_pos : 0 < size.toNat
  size_le : size.toNat ≤ B.iotcDlDataBufferSize.toNat
  inside : off.toNat + size.toNat ≤ n.toNat

/-- Accepted chunks, one after the other, from `off` to `fin`. -/
inductive Chunks (B : Build) (n : SizeT) : SizeT → List Report → SizeT → Prop where
  | nil (off : SizeT) : Chunks B n off [] off
  | cons {off size fin : SizeT} {r : Report} {rs : List Report} : IsChunk B n off size true r →
    Chunks B n (off + size) rs fin → Chunks B n off (r :: rs) fin

/-- What is received after the size was accepted, up to the status that is returned: the chunks, the
last of which may be refused. The call succeeds when the last accepted one ends the file. -/
inductive Fetched (B : Build) (n start : SizeT) (status : UINT) : List Report → Prop where
  | ended {rs : List Report} {fin : SizeT} (hrs : Chunks B n start rs fin)
    (h : status = nxSuccess ↔ rs ≠ [] ∧ fin = n) : Fetched B n start status rs
  | refused {rs : List Report} {r : Report} {off size : SizeT} (hrs : Chunks B n start rs off)
    (hr : IsChunk B n off size false r) (h : status = nxDownloadAbortedByUser) :
    Fetched B n start status (rs ++ [r])

/-- What is received before the status: nothing, the size, which may be refused, or the size and
chunks. -/
inductive BeforeStatus (B : Build) (n start : SizeT) (status : UINT) : List Report → Prop where
  | nothing (h : status ≠ nxSuccess) : BeforeStatus B n start status []
  | declined {asked : List String} (h : status = nxDownloadAbortedByUser) :
    BeforeStatus B n start status [⟨asked, .fileSize n, false⟩]
  | fetched {asked : List String} {rs : List Report} (h : Fetched B n start status rs) :
    BeforeStatus B n start status (⟨asked, .fileSize n, true⟩ :: rs)

/-- What is received from a call that returns `status`. -/
def Protocol (B : Build) (n start : SizeT) (status : UINT) (reports : List Report) : Prop :=
  ∃ rs asked answer, reports = rs ++ [⟨asked, .status status, answer⟩] ∧
    BeforeStatus B n start status rs

theorem Chunks.snoc {n off size fin : SizeT} {rs : List Report} {r : Report}
    (h : Chunks B n off rs fin) (hr : IsChunk B n fin size true r) :
    Chunks B n off (rs ++ [r]) (fin + size) := by
  induction h with
  | nil off => exact .cons hr (.nil _)
  | cons hr' _ ih => exact .cons hr' (ih hr)

/-- Answers to HEAD requests: no field is too long to be read, and unless there was an error they
announce `n`. -/
def Announced (n : SizeT) (_ : Tr Op Ans) (ev : Ev Op Ans) : Prop :=
  ∀ d, ev = ⟨.nxWebHttpClientResponseBodyGet .head, d⟩ → ∃ v,
    headerFileSize d.dummy d.fields 0 = .ok v ∧ (toldError d.last d.packets = none → v = n)

/-- Answers as announced, to ranges that begin below 10^9. -/
structure Within (n : SizeT) (t : Tr Op Ans) (ev : Ev Op Ans) : Prop where
  announced : Announced n t ev
  short : ∀ range ∈ printedRange ev, range.1 < 1000000000

/-! ## Programs and what is received from them -/

/-- Since the trace `t0`, the record of `cb` and the client's variables are in `φ`. -/
def Recorded (cb : Nat) (t0 : Tr Op Ans) (φ : DlStatics B → Record → Prop) (s : St B)
    (t : Tr Op Ans) : Prop := ∃ u, t = t0 ++ u ∧ φ s.dl (record cb u)

section
variable {cb : Nat} {t0 : Tr Op Ans} {φ ψ : DlStatics B → Record → Prop}

theorem record_snoc (cb : Nat) (u : Tr Op Ans) (ev : Ev Op Ans) :
    record cb (u ++ [ev]) = (record cb u).add cb ev := by
  simp [record]

theorem Recorded.imp {s : St B} {t : Tr Op Ans} (h : Recorded cb t0 φ s t)
    (himp : ∀ dl l, φ dl l → ψ dl l) : Recorded cb t0 ψ s t := by
  obtain ⟨u, ht, hφ⟩ := h
  exact ⟨u, ht, himp _ _ hφ⟩

theorem Recorded.snoc {s : St B} {t : Tr Op Ans} (h : Recorded cb t0 φ s t) {ev : Ev Op Ans}
    (hadd : ∀ l, φ s.dl l → ψ s.dl (l.add cb ev)) : Recorded cb t0 ψ s (t ++ [ev]) := by
  obtain ⟨u, rfl, hφ⟩ := h
  refine ⟨u ++ [ev], List.append_assoc .., ?_⟩
  rw [record_snoc]
  exact hadd _ hφ

/-- A silent call adds at most a range that was asked for. -/
theorem add_silent (cb : Nat) {op : Op} (a : Ans op) (hop : op.silent = true) (l : Record) :
    ∃ asked, l.add cb ⟨op, a⟩ = ⟨asked, l.reports⟩ := by
  cases op with
  | nxWebHttpClientRequestHeaderAdd name value =>
    by_cases h : name = "Range"
    · exact ⟨_, if_pos h⟩
    · exact ⟨_, if_neg h⟩
  | aduDriver _ _ | userDownloadCb _ _ => cases hop
  | _ => exact ⟨l.asked, rfl⟩

/-- An assertion that minds neither the buffer nor what was asked for. -/
theorem Recorded.stable (hasked : ∀ dl l asked, φ dl l → φ dl ⟨asked, l.reports⟩)
    (hbuffer : ∀ dl l buffer dataLength, φ dl l → φ { dl with buffer, dataLength } l) :
    Stable (Recorded (B := B) cb t0 φ) := by
  refine ⟨fun s t op a hop h => h.snoc fun l hl => ?_,
    fun s t buffer dataLength ⟨u, ht, h⟩ => ⟨u, ht, hbuffer _ _ _ _ h⟩, fun _ _ _ h => h⟩
  obtain ⟨asked, hadd⟩ := add_silent cb a hop l
  rw [hadd]
  exact hasked _ _ _ hl

end

/-! ## A chunk -/

section
variable {cb : Nat} {t0 : Tr Op Ans} {W : World Op Ans (St B)} {n off size : SizeT}
  {rs : List Report}

abbrev Never {σ : Type} : σ → Tr Op Ans → Prop := fun _ _ => False

/-- The client waits for the chunk at `off`. -/
def Waiting (cb : Nat) (n off : SizeT) (dl : DlStatics B) : Prop :=
  dl.fileBytesReceived = off ∧ dl.fileSize = n ∧ dl.eventCb = some (.app cb)

/-- After the reports `rs`, at most `k` requests were made, all for the range from `off` to
`fin`. -/
def Asked (off fin : SizeT) (rs : List Report) (k : Nat) (l : Record) : Prop :=
  l.reports = rs ∧ l.asked.length ≤ k ∧ ∀ v ∈ l.asked, v = rangeFormat off fin

theorem Asked.mono {fin : SizeT} {k : Nat} {l : Record} (h : Asked off fin rs k l) :
    Asked off fin rs (k + 1) l := ⟨h.1, Nat.le_succ_of_le h.2.1, h.2.2⟩

/-- A range that begins below 10^9 fits the array. -/
theorem triple_addRangeHeader_asked (hW : ∀ op, W.Quiet op) (fin : SizeT) (k : Nat) :
    Triple W (Within n) Never
      (Recorded (B := B) cb t0 fun dl l => Waiting cb n off dl ∧ Asked off fin rs k l)
      (addRangeHeader off fin) fun _ => Recorded cb t0 fun dl l => Waiting cb n off dl ∧
        Asked off fin rs (k + 1) l ∧ l.asked ≠ [] := by
  refine spec_addRangeHeader (J := fun s t => off < 1000000000 ∧
    Recorded cb t0 (fun dl l => Waiting cb n off dl ∧ Asked off fin rs k l) s t)
    (.call_quiet (hW _) fun s t a h hA => ⟨hA.short _ rfl, h.snoc fun _ h => h⟩)
    (fun _ s t h => h.2) (fun hnone s t h => ?_) (.call_quiet (hW _) fun s t a h _ => ?_)
  · have hroom := printRange_isSome h.1 fin (.zero _)
    rw [hnone] at hroom
    cases hroom
  · refine h.snoc fun l h =>
      ⟨h.1, ⟨h.2.1, ?_, fun v hv => ?_⟩, List.append_ne_nil_of_right_ne_nil _ (by simp)⟩
    · show (l.asked ++ [rangeFormat off fin]).length ≤ k + 1
      rw [List.length_append]
      exact Nat.succ_le_succ h.2.2.1
    · rcases List.mem_append.mp hv with hv | hv
      · exact h.2.2.2 v hv
      · exact List.mem_singleton.mp hv

/-- One more request; if it is answered, the range was asked for. -/
theorem triple_getBytesInRange_asked (hW : ∀ op, W.Quiet op) (r : IotConnectHttpRequest)
    (client : NxWebHttpClient) (fin : SizeT) (k : Nat) :
    Triple W (Within n) Never
      (Recorded (B := B) cb t0 fun dl l => Waiting cb n off dl ∧ Asked off fin rs k l)
      (getBytesInRange r (rangeClient client) off fin) fun status =>
        Recorded cb t0 fun dl l => Waiting cb n off dl ∧ Asked off fin rs (k + 1) l ∧
          (status = nxSuccess → l.asked ≠ []) := by
  have hquit : ∀ status s t, status ≠ nxSuccess →
      Recorded (B := B) cb t0 (fun dl l => Waiting cb n off dl ∧ Asked off fin rs k l) s t →
      Recorded cb t0 (fun dl l => Waiting cb n off dl ∧ Asked off fin rs (k + 1) l ∧
        (status = nxSuccess → l.asked ≠ [])) s t := fun _ _ _ hne h =>
    h.imp fun _ _ h => ⟨h.1, h.2.mono, fun he => absurd he hne⟩
  refine spec_guard (.call_quiet (hW _) fun s t a h _ => h.snoc fun _ h => h) hquit ?_
  refine spec_guard (.call_quiet (hW _) fun s t a h _ => h.snoc fun _ h => h) hquit ?_
  refine .bind (triple_addRangeHeader_asked hW fin k) fun status => ?_
  have hdone : ∀ status s t, Recorded (B := B) cb t0 (fun dl l => Waiting cb n off dl ∧
      Asked off fin rs (k + 1) l ∧ l.asked ≠ []) s t →
      Recorded cb t0 (fun dl l => Waiting cb n off dl ∧ Asked off fin rs (k + 1) l ∧
        (status = nxSuccess → l.asked ≠ [])) s t :=
    fun _ _ _ h => h.imp fun _ _ h => ⟨h.1, h.2.1, fun _ => h.2.2⟩
  refine .ite (fun _ => .pure (hdone _)) fun _ => ?_
  refine spec_guard (.call_quiet (hW _) fun s t a h _ => h.snoc fun _ h => h)
    (fun status s t _ => hdone status s t) ?_
  refine triple_getResponse (Calm.logic fun op _ => hW op) .get _
    (fun status s t buffer dataLength ⟨u, ht, h⟩ => ⟨u, ht, h⟩)
    (fun status ptr => .call_quiet (hW _) fun s t a h _ => h.snoc fun _ h => h)
    (fun _ _ _ _ _ _ hcb => nomatch hcb) fun s t d fileSize h _ hcb => ?_
  cases hcb
  exact hdone _ _ _ (h.snoc fun _ h => h)

/-- An event for the callback. -/
theorem triple_fireEvent_recorded (hW : ∀ op, W.Quiet op) {φ : DlStatics B → Record → Prop}
    (hcb : ∀ dl l, φ dl l → dl.eventCb = some (.app cb)) (evt : IotConnectDownloadEvent) :
    Triple W (Within n) Never (Recorded cb t0 φ) (fireEvent evt) fun answer =>
      Recorded cb t0 fun dl l' => ∃ l, φ dl l ∧
        l' = ⟨[], l.reports ++ [⟨l.asked, evt, answer⟩]⟩ := by
  refine .bind_get (φ := fun s => s.dl.eventCb = some (.app cb))
    (fun s t ⟨u, _, h⟩ => hcb _ _ h) fun s0 h0 => ?_
  rw [h0]
  exact .call_quiet (hW _) fun s t answer h _ => h.snoc fun l hl => ⟨l, hl, if_pos rfl⟩

/-- What the tries at a range come to: a chunk that was accepted or refused, or none. -/
def Tried (cb : Nat) (n off size : SizeT) (rs : List Report) (status : UINT) (dl : DlStatics B)
    (l : Record) : Prop :=
  Waiting cb n off dl ∧
    ((status = nxSuccess ∧ ∃ r, IsChunk B n off size true r ∧ l = ⟨[], rs ++ [r]⟩) ∨
     (status = nxDownloadAbortedByUser ∧ ∃ r, IsChunk B n off size false r ∧ l = ⟨[], rs ++ [r]⟩) ∨
     status ≠ nxSuccess ∧ l.reports = rs)

theorem triple_retryLoop_recorded (hW : ∀ op, W.Quiet op) (r : IotConnectHttpRequest)
    (client : NxWebHttpClient) (hpos : 0 < size.toNat)
    (hle : size.toNat ≤ B.iotcDlDataBufferSize.toNat) (hinside : off.toNat + size.toNat ≤ n.toNat)
    (k i : Nat) (hk : k + i = B.iotcDlNumRetries) (status : UINT)
    (hi : status = nxSuccess → 0 < i) :
    Triple W (Within n) Never
      (Recorded (B := B) cb t0 fun dl l => Waiting cb n off dl ∧ Asked off (off + size - 1) rs k l)
      (retryLoop r (rangeClient client) size (off + size - 1) i status) fun status =>
        Recorded cb t0 (Tried cb n off size rs status) := by
  induction i generalizing k status with
  | zero =>
    refine .pure fun s t h => h.imp fun dl l h => ⟨h.1, .inr (.inr ⟨fun he => ?_, h.2.1⟩)⟩
    exact absurd (hi he) (Nat.lt_irrefl 0)
  | succ i ih =>
    refine .bind_get (φ := fun s => s.dl.fileBytesReceived = off) (fun s t ⟨u, _, h⟩ => h.1.1)
      fun s0 h0 => ?_
    rw [h0]
    refine .bind (triple_getBytesInRange_asked hW r client (off + size - 1) k) fun status => ?_
    refine .ite (fun hok => ?_) fun hne => ?_
    · refine .bind_get (φ := fun s => s.dl.fileBytesReceived = off ∧ s.dl.fileSize = n)
        (fun s t ⟨u, _, h⟩ => ⟨h.1.1, h.1.2.1⟩) fun s1 h1 => ?_
      have hevt : dataEvent size s1.dl = .data s1.dl.buffer.bytes size off n := by
        unfold dataEvent
        rw [h1.1, h1.2]
      rw [hevt]
      refine .bind (triple_fireEvent_recorded hW (fun _ _ h => h.1.2.2) _) fun answer => ?_
      have hchunk : ∀ (dl : DlStatics B) (l l' : Record), (Waiting cb n off dl ∧
          Asked off (off + size - 1) rs (k + 1) l ∧ (status = nxSuccess → l.asked ≠ [])) →
          l' = ⟨[], l.reports ++ [⟨l.asked, .data s1.dl.buffer.bytes size off n, answer⟩]⟩ →
          Waiting cb n off dl ∧ ∃ r, IsChunk B n off size answer r ∧ l' = ⟨[], rs ++ [r]⟩ := by
        rintro dl l l' ⟨hwait, ⟨hreports, hlen, heq⟩, hasked⟩ rfl
        have hpos' : 0 < l.asked.length := List.length_pos_iff.mpr (hasked hok)
        have hle' : l.asked.length ≤ B.iotcDlNumRetries := by omega
        refine ⟨hwait, ⟨l.asked, .data s1.dl.buffer.bytes size off n, answer⟩, ?_, by rw [hreports]⟩
        exact ⟨⟨_, rfl⟩, rfl, hpos', hle', heq, hpos, hle, hinside⟩
      refine .ite (fun hno => .pure fun s t h => h.imp ?_) fun hyes => .pure fun s t h => h.imp ?_
      · obtain rfl : answer = false := hno
        rintro dl l' ⟨l, h, hl'⟩
        obtain ⟨hwait, hr⟩ := hchunk dl l l' h hl'
        exact ⟨hwait, .inr (.inl ⟨rfl, hr⟩)⟩
      · obtain rfl : answer = true := by simpa using hyes
        rintro dl l' ⟨l, h, hl'⟩
        obtain ⟨hwait, hr⟩ := hchunk dl l l' h hl'
        exact ⟨hwait, .inl ⟨hok, hr⟩⟩
    · refine (ih (k + 1) (by omega) status fun he => absurd he hne).pre fun s t h => ?_
      exact h.imp fun _ _ h => ⟨h.1, h.2.1⟩

/-! ## The chunk loop -/

/-- The requests have come to `status`, after the report `r0` and the chunks. -/
def Ending (cb : Nat) (n start : SizeT) (r0 : Report) (status : UINT) (dl : DlStatics B)
    (l : Record) : Prop :=
  dl.eventCb = some (.app cb) ∧ ∃ rs, l.reports = r0 :: rs ∧ Fetched B n start status rs

/-- Each turn takes at least one byte off what is left, so the loop ends within as many turns. -/
theorem triple_chunkLoop_recorded (hW : ∀ op, W.Quiet op) (r : IotConnectHttpRequest)
    (client : NxWebHttpClient) (hn : n ≤ 0x7FFFFFFF) {start : SizeT} {r0 : Report} (fuel : Nat)
    (hrs : Chunks B n start rs off) (hoff : off < n) (hfuel : n.toNat - off.toNat ≤ fuel) :
    Triple W (Within n) Never
      (Recorded (B := B) cb t0 fun dl l => Waiting cb n off dl ∧ l = ⟨[], r0 :: rs⟩)
      (chunkLoop r (rangeClient client) fuel) fun status =>
        Recorded cb t0 (Ending cb n start r0 status) := by
  have hchunk := chunkSize_toNat B hoff hn
  have hbuf := UInt32.lt_iff_toNat_lt.mp B.dl_pos
  have hlt := UInt32.lt_iff_toNat_lt.mp hoff
  simp only [UInt32.reduceToNat] at hbuf
  induction fuel generalizing off rs with
  | zero => omega
  | succ fuel ih =>
    refine .bind_get (φ := fun s => s.dl.fileBytesReceived = off ∧ s.dl.fileSize = n)
      (fun s t ⟨u, _, h⟩ => ⟨h.1.1, h.1.2.1⟩) fun s0 h0 => ?_
    rw [h0.1, h0.2]
    have hsize : chunkEnd B off n = off + chunkSize B off n - 1 := rfl
    rw [hsize]
    generalize chunkSize B off n = size at hchunk
    have hsum : (off + size).toNat = off.toNat + size.toNat := by
      have := n.toNat_lt
      rw [UInt32.toNat_add]
      exact Nat.mod_eq_of_lt (by omega)
    have htries : Triple W (Within n) Never
        (Recorded (B := B) cb t0 fun dl l => Waiting cb n off dl ∧ l = ⟨[], r0 :: rs⟩)
        (retryLoop r (rangeClient client) size (off + size - 1) B.iotcDlNumRetries nxSuccess)
        fun status => Recorded cb t0 (Tried cb n off size (r0 :: rs) status) := by
      refine (triple_retryLoop_recorded hW r client (by omega) (by omega) (by omega) 0 _
        (Nat.zero_add _) _ fun _ => B.retries_pos).pre fun s t h => h.imp fun dl l hl => ⟨hl.1, ?_⟩
      rw [hl.2]
      exact ⟨rfl, Nat.zero_le _, nofun⟩
    refine .bind htries fun status => .ite (fun hne => .pure fun s t h => h.imp ?_) fun hok => ?_
    · rintro dl l ⟨hwait, ⟨hok, -⟩ | ⟨habort, c, hc, rfl⟩ | ⟨-, hreports⟩⟩
      · exact absurd hok hne
      · exact ⟨hwait.2.2, rs ++ [c], rfl, .refused hrs hc habort⟩
      · refine ⟨hwait.2.2, rs, hreports, .ended hrs (iff_of_false hne ?_)⟩
        rintro ⟨-, rfl⟩
        exact absurd hoff (UInt32.lt_irrefl off)
    · have hok : status = nxSuccess := Classical.not_not.mp hok
      refine .bind (Q := fun _ => Recorded cb t0 fun dl l => Waiting cb n (off + size) dl ∧
        ∃ c, IsChunk B n off size true c ∧ l = ⟨[], r0 :: (rs ++ [c])⟩) (.modify ?_) fun _ => ?_
      · rintro s t ⟨u, ht, ⟨hoffset, hfile, hcb⟩, h⟩
        refine ⟨u, ht, ⟨by rw [← hoffset]; rfl, hfile, hcb⟩, ?_⟩
        rcases h with ⟨-, c, hc, hl⟩ | ⟨habort, -⟩ | ⟨hne, -⟩
        · exact ⟨c, hc, hl⟩
        · rw [hok] at habort
          exact absurd habort (by decide)
        · exact absurd hok hne
      refine .bind_get (φ := fun s => s.dl.fileBytesReceived = off + size ∧ s.dl.fileSize = n)
        (fun s t ⟨u, _, h⟩ => ⟨h.1.1, h.1.2.1⟩) fun s1 h1 => ?_
      rw [h1.1, h1.2]
      refine .ite (fun hmore => ?_) fun hend => .pure fun s t h => h.imp ?_
      · have hmore' := UInt32.lt_iff_toNat_lt.mp hmore
        rintro s t ⟨u, ht, hwait, c, hc, hl⟩
        exact ih (hrs.snoc hc) hmore (by omega) (chunkSize_toNat B hmore hn) hmore' s t
          ⟨u, ht, hwait, hl⟩
      · rintro dl l ⟨hwait, c, hc, rfl⟩
        have hfin : off + size = n := by
          rw [UInt32.not_lt, UInt32.le_iff_toNat_le] at hend
          exact UInt32.toNat_inj.mp (by omega)
        refine ⟨hwait.2.2, rs ++ [c], rfl, .ended (hrs.snoc hc) (iff_of_true hok ⟨?_, hfin⟩)⟩
        exact List.append_ne_nil_of_right_ne_nil _ (List.cons_ne_nil c [])

/-! ## The download -/

/-- Nothing was received yet. -/
def Fresh (cb : Nat) (k : SizeT) (resume : Bool) (dl : DlStatics B) (l : Record) : Prop :=
  l.reports = [] ∧ dl.fileBytesReceived = k ∧ dl.doResume = resume ∧ dl.eventCb = some (.app cb)

/-- Everything was received but the status. -/
def Handled (cb : Nat) (n start : SizeT) (status : UINT) (dl : DlStatics B) (l : Record) : Prop :=
  dl.eventCb = some (.app cb) ∧ BeforeStatus B n start status l.reports

theorem triple_requestHandler_recorded (hW : ∀ op, W.Quiet op) (hn : 0 < n)
    (hmax : n ≤ 0x7FFFFFFF) (k : SizeT) (resume : Bool) (fuel : Nat) (hfuel : n.toNat ≤ fuel)
    (r : IotConnectHttpRequest) (client : NxWebHttpClient) :
    Triple W (Within n) Never (Recorded (B := B) cb t0 (Fresh cb k resume))
      (requestHandler fuel r client) fun status =>
        Recorded cb t0 (Handled cb n (if resume then k else 0) status) := by
  refine triple_requestHandler (I := Recorded cb t0 (Fresh cb k resume)) (Z := (· = n))
    (Calm.logic fun op _ => hW op) (Recorded.stable (fun _ _ _ h => h) fun _ _ _ _ h => h)
    (K := fun m answer => Recorded cb t0 fun dl l => (dl.fileSize = m ∧
      dl.fileBytesReceived = k ∧ dl.doResume = resume ∧ dl.eventCb = some (.app cb)) ∧
        ∃ asked, l = ⟨[], [⟨asked, .fileSize m, answer⟩]⟩)
    (J := fun m start s t => ∃ asked, Recorded cb t0 (fun dl l => Waiting cb m start dl ∧
      l = ⟨[], [⟨asked, .fileSize m, true⟩]⟩) s t)
    (fun s t d e _ hA he => ?_) (fun s t fileSize ⟨u, ht, h⟩ => ⟨u, ht, h⟩)
    (fun t d m hA htold hd => ?_) (fun status s t hne h => h.imp ?_) (fun m _ => ?_)
    (fun m s t ⟨_, _, h, _⟩ => ⟨h.1, h.2.1, h.2.2.1⟩) ?_ ?_ ?_ ?_ r client fuel ?_
  · obtain ⟨v, hv, -⟩ := hA.announced d rfl
    cases he.symm.trans hv
  · obtain ⟨v, hv, hn⟩ := hA.announced d rfl
    exact (Except.ok.inj (hd.symm.trans hv)).trans (hn htold)
  · rintro dl ⟨asked, _⟩ ⟨rfl, -, -, hcb⟩
    exact ⟨hcb, .nothing hne⟩
  · refine ((triple_fireEvent_recorded (φ := fun dl l => dl.fileSize = m ∧ Fresh cb k resume dl l)
      hW (fun _ _ h => h.2.2.2.2) _).pre fun s t ⟨hfile, u, ht, h⟩ => ⟨u, ht, hfile, h⟩).post
      fun answer s t h => h.imp ?_
    rintro dl _ ⟨⟨asked, _⟩, ⟨hfile, rfl, hrest⟩, rfl⟩
    exact ⟨⟨hfile, hrest⟩, asked, rfl⟩
  · rintro m s t rfl h
    refine h.imp ?_
    rintro dl _ ⟨hdl, asked, rfl⟩
    exact ⟨hdl.2.2.2, .declined rfl⟩
  · rintro m s t rfl - - h
    refine h.imp ?_
    rintro dl _ ⟨hdl, asked, rfl⟩
    refine ⟨hdl.2.2.2, .fetched (.ended (.nil _) (iff_of_false (by decide) ?_))⟩
    exact fun h => h.1 rfl
  · rintro m s t rfl - ⟨u, ht, hdl, asked, hl⟩
    exact ⟨asked, u, ht, ⟨rfl, hdl.1, hdl.2.2.2⟩, hl⟩
  · rintro m s t rfl - - ⟨u, ht, hdl, asked, hl⟩
    exact ⟨asked, u, ht, ⟨hdl.2.1, hdl.1, hdl.2.2.2⟩, hl⟩
  · rintro m start rfl rfl hlt
    have hstart : (if resume then k else 0) < m := by
      cases resume with
      | false => exact hn
      | true => exact hlt rfl
    refine .of_exists fun asked => ?_
    refine (triple_chunkLoop_recorded hW r client hmax fuel (.nil _) hstart (by omega)).post
      fun status s t h => h.imp fun dl l ⟨hcb, rs, hl, hrs⟩ => ⟨hcb, ?_⟩
    rw [hl]
    exact .fetched hrs

/-- A callback receives its events from each call in the order of the protocol. -/
theorem triple_iotcDownload_recorded (hW : ∀ op, W.Quiet op) (hn : 0 < n) (hmax : n ≤ 0x7FFFFFFF)
    (k : SizeT) (resume : Bool) (fuel : Nat) (hfuel : n.toNat ≤ fuel)
    (r : Option IotConnectHttpRequest) :
    Triple W (Within n) Never
      (Recorded (B := B) cb t0 fun dl l => dl.fileBytesReceived = k ∧ l = {})
      (iotcDownload fuel r (some (.app cb)) resume) fun status => Recorded cb t0 fun _ l =>
        Protocol B n (if resume then k else 0) status l.reports := by
  have hstatus : ∀ status answer (l : Record),
    BeforeStatus B n (if resume then k else 0) status l.reports →
      Protocol B n (if resume then k else 0) status
        (l.add cb ⟨.userDownloadCb cb (.status status), answer⟩).reports := by
    intro status answer l h
    refine ⟨l.reports, l.asked, answer, ?_, h⟩
    rw [Record.add, if_pos rfl]
  refine spec_iotcDownload (J := Recorded cb t0 (Fresh cb k resume))
    (K := fun status => Recorded cb t0 (Handled cb n (if resume then k else 0) status))
    (T := fun status => Recorded cb t0 fun _ l =>
      Protocol B n (if resume then k else 0) status l.reports)
    (fun status hne => ?_)
    (fun s t _ ⟨u, ht, h⟩ => ⟨u, ht, congrArg Record.reports h.2, h.1, rfl, rfl⟩) (fun r => ?_)
    (fun status => ?_) (fun status s t ⟨u, ht, h⟩ => ⟨u, ht, h⟩) r
  · refine .bind (Q := fun _ => Recorded cb t0 fun _ l => Protocol B n (if resume then k else 0)
      status l.reports) (.call_quiet (hW _) fun s t a h _ => h.snoc ?_) fun _ =>
        .pure fun _ _ h => h
    rintro l ⟨-, rfl⟩
    exact hstatus status a {} (.nothing hne)
  · exact triple_iotconnectHttpsRequest (Calm.logic fun op _ => hW op)
      (Recorded.stable (fun _ _ _ h => h) fun _ _ _ _ h => h)
      (fun status => (Recorded.stable (fun _ _ _ h => h) fun _ _ _ _ h => h).delete)
      (fun status s t hne h => h.imp fun dl l hl => ⟨hl.2.2.2, hl.1 ▸ .nothing hne⟩) r
      (triple_requestHandler_recorded hW hn hmax k resume fuel hfuel r {})
  · refine (triple_fireEvent_recorded hW (fun _ _ h => h.1) _).post fun a s t h => h.imp ?_
    rintro dl l' ⟨l, ⟨-, hl⟩, rfl⟩
    exact ⟨l.reports, l.asked, a, rfl, hl⟩

end

theorem Heard.announced {n : SizeT} {s : St B} {t u : Tr Op Ans} (h : Heard s u)
    (hhead : Along (Announced n) t u) : s.dl.fileSize = n := by
  obtain ⟨d, hd, htold, hsize⟩ := h
  obtain ⟨v, w, rfl⟩ := List.append_of_mem (mem_of_answered hd)
  obtain ⟨m, hm, hn⟩ := hhead.split d rfl
  exact (Except.ok.inj (hsize.symm.trans hm)).trans (hn htold)

/-- What a call has printed when it returns. -/
theorem spec_printed_iotcDownload (fuel : Nat) (r : Option IotConnectHttpRequest) (cb : Nat)
    (resume : Bool) :
    (rangeLogic B).Spec Unprinted (iotcDownload fuel r (some (.app cb)) resume)
      fun _ => Printed := by
  have hplain : ∀ {op : Op}, (∀ a, printedRange ⟨op, a⟩ = none) →
      (rangeLogic B).Spec Printed (.call op) fun _ => Printed := fun hop =>
    .of_call fun s u h a => h.snoc (hop a)
  have hstate : ∀ {s : St B} {u} (f : DlStatics B → DlStatics B),
      (f s.dl).fileSize = s.dl.fileSize → Printed s u → Printed (s.setDl f) u := by
    intro s u f hf h
    refine ⟨⟨fun hne => ?_, fun range hrange => ?_⟩, h.roomy⟩
    · obtain ⟨d, hd, htold, hsize⟩ := h.printing.heard hne
      exact ⟨d, hd, htold, hf ▸ hsize⟩
    · rw [St.setDl_dl, hf]
      exact h.printing.chunks range hrange
  refine spec_iotcDownload (J := Unprinted) (K := fun _ => Printed) (T := fun _ => Printed)
    (fun status _ => ?_) (fun _ _ _ h => h) (fun r => ?_) (fun status => ?_)
    (fun _ _ _ h => hstate _ rfl h) r
  · exact .bind (spec_unprinted_plain fun _ => rfl) fun _ => .pure fun _ _ h => h.printed
  · refine spec_iotconnectHttpsRequest (fun op hop => spec_unprinted_plain fun a => ?_)
      (fun _ _ _ h => h) (fun _ => hplain fun _ => rfl) (fun _ _ _ _ h => h.printed) r
      (spec_printed_requestHandler fuel r {})
    cases op <;> first | rfl | cases hop
  · refine spec_fireEvent (fun op hop => hplain fun a => ?_)
      (fun _ _ _ h => ⟨⟨h.printing.heard, h.printing.chunks⟩, h.roomy⟩) (fun _ _ h => h.printing) _
    cases op <;> first | rfl | cases hop

/-- A call whose ranges begin below 10^9 returns, and its callback receives its events in the order
of the protocol, for every size up to INT_MAX that is announced. A loop of as many turns as the
file has bytes is long enough. -/
theorem protocol_of_short {ans : Tr Op Ans → (op : Op) → Ans op} {fuel : Nat}
    {r : Option IotConnectHttpRequest} {cb : Nat} {resume : Bool} {n : SizeT} (hn : 0 < n)
    (hmax : n ≤ 0x7FFFFFFF) (hfuel : n.toNat ≤ fuel) {s : St B} {t u : Tr Op Ans}
    (hu : ((iotcDownload fuel r (some (.app cb)) resume).run (.sequential ans) s t).tr = t ++ u)
    (hwithin : Along (Within n) t u) :
    ∃ status,
      ((iotcDownload fuel r (some (.app cb)) resume).run (.sequential ans) s t).res = .ok status ∧
      Protocol B n (if resume then s.dl.fileBytesReceived else 0) status
        (record cb u).reports := by
  have hsat := (triple_iotcDownload_recorded (World.sequential_quiet ans) hn hmax
    s.dl.fileBytesReceived resume fuel hfuel r).sat
      ⟨[], (List.append_nil t).symm, rfl, rfl⟩ hu hwithin
  generalize (iotcDownload fuel r (some (.app cb)) resume).run (.sequential ans) s t = o at hu hsat
  obtain ⟨res, s', t'⟩ := o
  cases res with
  | error e => exact hsat.elim
  | ok status =>
    obtain ⟨v, hv, hprotocol⟩ := hsat
    obtain rfl := List.append_cancel_left (hu.symm.trans hv)
    exact ⟨status, rfl, hprotocol⟩

/-- A call returns with its events in the order of the protocol, for every size up to INT_MAX that
is announced, exactly when every range it prints begins below 10^9. -/
theorem download_protocol_iff (ans : Tr Op Ans → (op : Op) → Ans op) (fuel : Nat)
    (r : Option IotConnectHttpRequest) (cb : Nat) (resume : Bool) (n : SizeT) (hn : 0 < n)
    (hmax : n ≤ 0x7FFFFFFF) (hfuel : n.toNat ≤ fuel) (s : St B) (t : Tr Op Ans) :
    let o := (iotcDownload fuel r (some (.app cb)) resume).run (.sequential ans) s t
    Along (Announced n) t (o.tr.drop t.length) →
    ((∃ status, o.res = .ok status ∧
      Protocol B n (if resume then s.dl.fileBytesReceived else 0) status
        (record cb (o.tr.drop t.length)).reports) ↔
      ∀ range ∈ (o.tr.drop t.length).filterMap printedRange, range.1 < 1000000000) := by
  intro o hhead
  obtain ⟨u, hu⟩ : ∃ u, o.tr = t ++ u := Prog.run_grows ..
  rw [hu, List.drop_left] at hhead ⊢
  constructor
  · rintro ⟨status, hok, -⟩ range hrange
    have hsat := (spec_printed_iotcDownload (B := B) fuel r cb resume).added_sat ans (s := s) rfl t
    change o.Sat _ _ at hsat
    rw [Out.Sat, hok, hu, List.drop_left] at hsat
    have hprinted : Printed o.st u := hsat
    have hsize := Heard.announced (hprinted.printing.heard (List.ne_nil_of_mem hrange)) hhead
    obtain ⟨hstart, hfin⟩ := hprinted.printing.chunks range hrange (hsize ▸ hn) (hsize ▸ hmax)
    have hroom := (printRange_isSome_iff _ _ _).mp (hprinted.roomy range hrange)
    rw [hfin] at hroom
    exact (digits_chunk_iff hstart (hsize ▸ hmax)).mp hroom
  · intro hshort
    refine protocol_of_short hn hmax hfuel hu (hhead.imp_mem fun t' ev hev h => ⟨h, ?_⟩)
    exact fun range hrange => hshort range (List.mem_filterMap.mpr ⟨ev, hev, hrange⟩)

/-- What an event is about. -/
def IotConnectDownloadEvent.numbers : IotConnectDownloadEvent → List Nat
  | .unknown => []
  | .status code => [code.toNat]
  | .fileSize size => [size.toNat]
  | .data _ size offset _ => [offset.toNat, size.toNat]

/-- A network as in `allGood` with a file of 6 bytes, on which the request sent at the thirteenth
event fails, and an application that refuses the chunks behind the first. -/
def twoChunks (t : Tr Op Ans) : (op : Op) → Ans op
  | .userDownloadCb _ (.data _ _ offset _) => offset = 0
  | .nxWebHttpClientRequestSend => if t.length = 13 then 1 else nxSuccess
  | op => allGood (headOf "6") (chunkOf [1]) op

theorem announced_twoChunks (t : Tr Op Ans) (op : Op) (t' : Tr Op Ans) :
    Announced 6 t ⟨op, twoChunks t' op⟩ := by
  have hsize : headerFileSize 0 (headOf "6").fields 0 = .ok 6 := by decide +kernel
  intro d hev
  obtain ⟨rfl, hd⟩ := Sigma.mk.inj hev
  obtain rfl := eq_of_heq hd
  exact ⟨6, hsize, fun _ => rfl⟩

theorem download_protocol_twoChunks :
    let o := (iotcDownload 6 (some fileRequest) (some (.app 7)) false).run (.sequential twoChunks)
      (St.init { iotcDlDataBufferSize := 4 }) []
    (record 7 o.tr).reports.map (fun x => (x.asked, x.evt.numbers, x.answer)) =
      [([], [6], true), (["bytes=0-3", "bytes=0-3"], [0, 4], true), (["bytes=4-5"], [4, 2], false),
        ([], [nxDownloadAbortedByUser.toNat], true)] ∧
    ((∃ status, o.res = .ok status ∧
      Protocol { iotcDlDataBufferSize := 4 } 6 0 status (record 7 o.tr).reports) ↔
        ∀ range ∈ o.tr.filterMap printedRange, range.1 < 1000000000) :=
  ⟨by decide +kernel, download_protocol_iff twoChunks 6 (some fileRequest) 7 false 6 (by decide)
    (by decide) (by decide) (St.init { iotcDlDataBufferSize := 4 }) []
    (.of_answers announced_twoChunks)⟩

/-- A file of 1000000001 bytes of which 1000000000 are there. -/
def resumedBehind : Out Op Ans (St .default) UINT :=
  (iotcDownload 1 (some fileRequest) (some (.app 7)) true).run
    (.sequential (serving "1000000001"))
    ((St.init .default).setDl ({ · with fileBytesReceived := 1000000000 })) []

theorem announced_serving (t : Tr Op Ans) (op : Op) (t' : Tr Op Ans) :
    Announced 1000000001 t ⟨op, serving "1000000001" t' op⟩ := by
  have hsize : headerFileSize 0 (headOf "1000000001").fields 0 = .ok 1000000001 := by
    decide +kernel
  intro d hev
  obtain ⟨rfl, hd⟩ := Sigma.mk.inj hev
  obtain rfl := eq_of_heq hd
  exact ⟨1000000001, hsize, fun _ => rfl⟩

/-- The range of the last byte takes 28 bytes: the call gets no further, and its callback is told
the size and no status. -/
theorem last_byte_unreported :
    Along (Announced 1000000001) [] resumedBehind.tr ∧
      (record 7 resumedBehind.tr).reports.map (fun x => (x.evt.numbers, x.answer)) =
        [([1000000001], true)] ∧
      ¬ ∃ status, resumedBehind.res = .ok status ∧
        Protocol .default 1000000001 1000000000 status (record 7 resumedBehind.tr).reports := by
  refine ⟨.of_answers announced_serving, by decide +kernel, ?_⟩
  rintro ⟨status, hok, -⟩
  have hstopped : resumedBehind.res.isOk = false := by decide +kernel
  rw [hok] at hstopped
  cases hstopped

end Iotc.Web
