import Iotc.Lib.Ranges
import Iotc.Web.Rules

/-!
# Downloading a file in several attempts

The position a download resumes from is a static variable that an attempt resets only after
its FILE_SIZE event was accepted. `triple_iotcDownload_app` says what one attempt can do to the
accepted ranges and to that variable; `resume_tiles` follows it over a first attempt and any
number of resumed ones.
-/

namespace Iotc.Web

open Iotc.C Iotc.Lib Iotc.Resume

variable {B : Build}

/-! ## What the application accepted -/

/-- The ranges of the DATA events the application answered with true. -/
def accepted (t : Tr Op Ans) : List (Nat × Nat) :=
  t.filterMap fun
    | ⟨.userDownloadCb _ (.data _ size offset _), true⟩ => some (offset.toNat, size.toNat)
    | _ => none

/-- The FILE_SIZE events the application answered with true. -/
def acceptedSizes (t : Tr Op Ans) : List SizeT :=
  t.filterMap fun
    | ⟨.userDownloadCb _ (.fileSize fileSize), true⟩ => some fileSize
    | _ => none

@[simp] theorem accepted_append (t u : Tr Op Ans) : accepted (t ++ u) = accepted t ++ accepted u :=
  List.filterMap_append

@[simp] theorem acceptedSizes_append (t u : Tr Op Ans) :
    acceptedSizes (t ++ u) = acceptedSizes t ++ acceptedSizes u := List.filterMap_append

/-- An event that is not an accepted DATA or FILE_SIZE event. -/
def Unaccepted (ev : Ev Op Ans) : Prop := accepted [ev] = [] ∧ acceptedSizes [ev] = []

theorem unaccepted_of_silent {op : Op} {a : Ans op} (h : op.silent = true) :
    Unaccepted ⟨op, a⟩ := by
  cases op <;> first | exact ⟨rfl, rfl⟩ | cases h

theorem unaccepted_false (cb : Nat) (evt : IotConnectDownloadEvent) :
    Unaccepted ⟨.userDownloadCb cb evt, false⟩ := by
  cases evt <;> exact ⟨rfl, rfl⟩

theorem unaccepted_status {cb : Nat} {status : UINT} {a : Bool} :
    Unaccepted ⟨.userDownloadCb cb (.status status), a⟩ := ⟨rfl, rfl⟩

/-- The download client's variables are in `I`, what was accepted in `F`. -/
def Accepting (I : DlStatics B → Prop) (F : List (Nat × Nat) → List SizeT → Prop) (s : St B)
    (t : Tr Op Ans) : Prop := I s.dl ∧ F (accepted t) (acceptedSizes t)

section
variable {I : DlStatics B → Prop} {F : List (Nat × Nat) → List SizeT → Prop}

theorem Accepting.unaccepted {s : St B} {t : Tr Op Ans} {ev : Ev Op Ans} (h : Accepting I F s t)
    (hev : Unaccepted ev) : Accepting I F s (t ++ [ev]) := by
  refine ⟨h.1, ?_⟩
  rw [accepted_append, acceptedSizes_append, hev.1, hev.2, List.append_nil, List.append_nil]
  exact h.2

theorem Accepting.stable (hI : ∀ dl buffer dataLength, I dl → I { dl with buffer, dataLength }) :
    Stable (Accepting (B := B) I F) :=
  ⟨fun _ _ _ _ hop h => h.unaccepted (unaccepted_of_silent hop),
    fun _ _ b dl h => ⟨hI _ b dl h.1, h.2⟩, fun _ _ _ h => h⟩

/-! ## One attempt -/

/-- The HEAD answer of the event reports `n` unless it is an error. -/
def ReportsSize (n : SizeT) (_ : Tr Op Ans) (ev : Ev Op Ans) : Prop :=
  ∀ d, ev = ⟨.nxWebHttpClientResponseBodyGet .head, d⟩ → toldError d.last d.packets = none →
    headerFileSize d.dummy d.fields 0 = .ok n

/-- What an attempt at a file of `n` bytes does when `k` is the offset left before it, `accs`
the ranges and `sizes` the sizes accepted before it. -/
inductive Outcome (n k : SizeT) (resume : Bool) (accs : List (Nat × Nat)) (sizes : List SizeT)
    (status : UINT) (offset : SizeT) (accs' : List (Nat × Nat)) (sizes' : List SizeT) : Prop where
  /-- It ends before its FILE_SIZE event is accepted. -/
  | early (hstatus : status ≠ nxSuccess) (hoffset : offset = k) (haccs : accs' = accs)
      (hsizes : sizes' = sizes)
  /-- There is nothing left to resume. -/
  | refused (hresume : resume = true) (hstatus : status ≠ nxSuccess) (hk : n ≤ k)
      (hoffset : offset = k) (haccs : accs' = accs)
  /-- It runs the chunk loop. -/
  | ran (start : SizeT) (hstart : start = if resume then k else 0) (ws : List (Nat × Nat))
      (haccs : accs' = accs ++ ws) (htiles : Tiles start.toNat ws offset.toNat) (hle : offset ≤ n)
      (hlt : start < n) (hstatus : status = nxSuccess → offset = n)

/-- The ranges accepted so far by an attempt. -/
def Partway (n k : SizeT) (resume : Bool) (accs accs' : List (Nat × Nat)) : Prop :=
  accs' = accs ∨ ∃ start ws b, start = (if resume then k else 0) ∧ start < n ∧
    accs' = accs ++ ws ∧ Tiles start.toNat ws b ∧ b ≤ n.toNat

theorem chunkSize_toNat (B : Build) {off n : SizeT} (hoff : off < n) (hn : n ≤ 0x7FFFFFFF) :
    (chunkSize B off n).toNat = min B.iotcDlDataBufferSize.toNat (n.toNat - off.toNat) := by
  have hle := UInt32.le_iff_toNat_le.mp B.dl_le
  rw [UInt32.lt_iff_toNat_lt] at hoff
  rw [UInt32.le_iff_toNat_le] at hn
  unfold chunkSize
  split
  · next h =>
    rw [UInt32.lt_iff_toNat_lt, UInt32.toNat_add] at h
    simp only [UInt32.reduceToNat] at *; omega
  · next h =>
    rw [UInt32.lt_iff_toNat_lt, UInt32.toNat_add] at h
    rw [UInt32.toNat_sub]
    simp only [UInt32.reduceToNat] at *; omega

variable {W : World Op Ans (St B)} {A : Tr Op Ans → Ev Op Ans → Prop}
  {E : St B → Tr Op Ans → Prop}

/-- An event goes to the application, and its answer back. -/
theorem triple_fireEvent_app (hW : ∀ op, W.Quiet op) {cb : Nat}
    (hcb : ∀ dl, I dl → dl.eventCb = some (.app cb)) (evt : IotConnectDownloadEvent) :
    Triple W A E (Accepting I F) (fireEvent evt) fun ok s t =>
      ∃ t', t = t' ++ [⟨.userDownloadCb cb evt, ok⟩] ∧ Accepting I F s t' := by
  refine .bind_get (φ := fun s => s.dl.eventCb = some (.app cb)) (fun s t h => hcb _ h.1)
    fun s0 h0 => ?_
  rw [h0]
  exact .call_quiet (hW _) fun s t a h _ => ⟨t, rfl, h⟩

/-- The chunk loop has accepted ranges that lead from `start` to `off`. -/
def Tiling (cb : Nat) (n : SizeT) (accs : List (Nat × Nat)) (start off : SizeT) :
    St B → Tr Op Ans → Prop :=
  Accepting (fun dl => dl.fileBytesReceived = off ∧ dl.fileSize = n ∧ dl.eventCb = some (.app cb))
    fun accs' _ => off ≤ n ∧ ∃ ws, accs' = accs ++ ws ∧ Tiles start.toNat ws off.toNat

/-- An accepted chunk starts where the one before ended, and a refused one changes nothing. -/
theorem triple_chunk_app (hW : ∀ op, W.Quiet op) {cb : Nat} {n : SizeT} (hn : n ≤ 0x7FFFFFFF)
    {accs : List (Nat × Nat)} {start off : SizeT} (hoff : off < n) (dataPtr : List UInt8) :
    Triple W A E (Tiling (B := B) cb n accs start off)
      (fireEvent (.data dataPtr (chunkSize B off n) off n)) fun ok s t =>
        if ok then
          Tiling cb n accs start (off + chunkSize B off n) (s.advance (chunkSize B off n)) t
        else Tiling cb n accs start off s t := by
  refine (triple_fireEvent_app hW (fun _ h => h.2.2) _).post fun ok s t ⟨t', ht, h⟩ => ?_
  subst ht
  cases ok with
  | false => exact h.unaccepted (unaccepted_false ..)
  | true =>
    obtain ⟨⟨hoffset, hsize, hcb⟩, hle, ws, haccs, htiles⟩ := h
    have hchunk := chunkSize_toNat B hoff hn
    have hpos := UInt32.lt_iff_toNat_lt.mp B.dl_pos
    rw [UInt32.lt_iff_toNat_lt] at hoff
    have hsum : (off + chunkSize B off n).toNat = off.toNat + (chunkSize B off n).toNat := by
      have := n.toNat_lt
      rw [UInt32.toNat_add]
      exact Nat.mod_eq_of_lt (by omega)
    refine ⟨⟨by rw [← hoffset]; rfl, hsize, hcb⟩, ?_,
      ws ++ [(off.toNat, (chunkSize B off n).toNat)], ?_, ?_⟩
    · rw [UInt32.le_iff_toNat_le, hsum]; omega
    · rw [accepted_append, haccs, List.append_assoc]; rfl
    · rw [hsum]
      exact htiles.snoc (by simp only [UInt32.reduceToNat] at hpos; omega)

theorem triple_chunkLoop_app (hW : ∀ op, W.Quiet op) {cb : Nat} {n : SizeT} (hn : n ≤ 0x7FFFFFFF)
    {accs : List (Nat × Nat)} {start : SizeT} (hstart : start < n)
    (hE : ∀ off s t, Tiling cb n accs start off s t → E s t) (r : IotConnectHttpRequest)
    (client : NxWebHttpClient) (fuel : Nat) :
    Triple W A E (Tiling (B := B) cb n accs start start) (chunkLoop r (rangeClient client) fuel)
      fun status s t => ∃ off, Tiling cb n accs start off s t ∧ (status = nxSuccess → off = n) := by
  refine (triple_chunkLoop (Calm.logic fun op _ => hW op)
    (I := fun off n => Tiling cb n accs start off)
    (R := fun s t => ∃ off, Tiling cb n accs start off s t) (H := (· < n))
    (fun off => Accepting.stable fun _ _ _ h => h) hE
    (fun off s t h => ⟨h.1.1, h.1.2.1⟩) (fun _ h => h)
    (fun off dataPtr hoff => (triple_chunk_app hW hn hoff dataPtr).post fun ok s t h => ?_)
    r client fuel start hstart).post fun status s t h => ?_
  · cases ok with
    | true => exact h
    | false => exact ⟨off, h⟩
  · by_cases hok : status = nxSuccess
    · rw [if_pos hok] at h
      obtain ⟨off, hge, h⟩ := h
      exact ⟨off, h, fun _ => UInt32.le_antisymm h.2.1 hge⟩
    · rw [if_neg hok] at h
      obtain ⟨off, h⟩ := h.elim id id
      exact ⟨off, h, fun he => absurd he hok⟩

theorem accepted_fileSize (t : Tr Op Ans) (cb : Nat) (n : SizeT) (ok : Bool) :
    accepted (t ++ [⟨.userDownloadCb cb (.fileSize n), ok⟩]) = accepted t := by
  rw [accepted_append]
  exact List.append_nil _

/-- The variables an attempt starts its requests with. -/
def Started (cb : Nat) (resume : Bool) (k : SizeT) (dl : DlStatics B) : Prop :=
  dl.fileBytesReceived = k ∧ dl.doResume = resume ∧ dl.eventCb = some (.app cb)

/-- An attempt has come to its outcome. -/
def Ended (cb : Option Nat) (n k : SizeT) (resume : Bool) (accs : List (Nat × Nat))
    (sizes : List SizeT) (status : UINT) (s : St B) (t : Tr Op Ans) : Prop :=
  s.dl.eventCb = cb.map .app ∧
    Outcome n k resume accs sizes status s.dl.fileBytesReceived (accepted t) (acceptedSizes t)

/-- What a run that stops inside an attempt has accepted. -/
def Interrupted (n k : SizeT) (resume : Bool) (accs : List (Nat × Nat)) (_ : St B)
    (t : Tr Op Ans) : Prop := Partway n k resume accs (accepted t)

theorem triple_requestHandler_app (hW : ∀ op, W.Quiet op) {cb : Nat} {n : SizeT}
    (hn : 0 < n) (hmax : n ≤ 0x7FFFFFFF) (resume : Bool) (k : SizeT) (accs : List (Nat × Nat))
    (sizes : List SizeT) (fuel : Nat) (r : IotConnectHttpRequest) (client : NxWebHttpClient) :
    Triple W (ReportsSize n) (Interrupted n k resume accs)
      (Accepting (B := B) (Started cb resume k) fun accs' sizes' => accs' = accs ∧ sizes' = sizes)
      (requestHandler fuel r client) (Ended (some cb) n k resume accs sizes) := by
  refine triple_requestHandler (I := Accepting (Started cb resume k) fun accs' sizes' =>
      accs' = accs ∧ sizes' = sizes) (Z := (· = n)) (Calm.logic fun op _ => hW op)
    (Accepting.stable fun _ _ _ h => h) (J := fun n start => Tiling cb n accs start start)
    (K := fun n ok s t => ∃ t', t = t' ++ [⟨.userDownloadCb cb (.fileSize n), ok⟩] ∧
      Accepting (fun dl => dl.fileSize = n ∧ Started cb resume k dl)
        (fun accs' sizes' => accs' = accs ∧ sizes' = sizes) s t')
    (fun s t _ _ h _ _ => .inl h.2.1) (fun s t n h => h)
    (fun t d m hA htold hd => Except.ok.inj (hd.symm.trans (hA d rfl htold)))
    (fun status s t hne h => ⟨h.1.2.2, .early hne h.1.1 h.2.1 h.2.2⟩)
    (fun m _ => ?_) (fun m s t ⟨_, _, h⟩ => ⟨h.1.1, h.1.2.1, h.1.2.2.1⟩) ?_ ?_ ?_ ?_ r client fuel
    ?_
  · exact (triple_fireEvent_app hW (fun _ h => h.2.2.2) _).pre fun s t h => ⟨⟨h.1, h.2.1⟩, h.2.2⟩
  · rintro m s _ - ⟨t, rfl, h⟩
    have h := h.unaccepted (unaccepted_false cb (.fileSize m))
    exact ⟨h.1.2.2.2, .early (by decide) h.1.2.1 h.2.1 h.2.2⟩
  · rintro m s _ rfl hres hle ⟨t, rfl, h⟩
    refine ⟨h.1.2.2.2, .refused hres (by decide) hle h.1.2.1 ?_⟩
    rw [accepted_fileSize, h.2.1]
  · rintro m s _ rfl - ⟨t, rfl, h⟩
    refine ⟨⟨rfl, h.1.1, h.1.2.2.2⟩, UInt32.le_of_lt hn, [], ?_, .nil _⟩
    rw [accepted_fileSize, h.2.1, List.append_nil]
  · rintro m s _ rfl - hlt ⟨t, rfl, h⟩
    refine ⟨⟨h.1.2.1, h.1.1, h.1.2.2.2⟩, UInt32.le_of_lt hlt, [], ?_, .nil _⟩
    rw [accepted_fileSize, h.2.1, List.append_nil]
  · rintro m start rfl hstart hlt
    have hlt : start < m := by
      cases resume with
      | false =>
        obtain rfl : start = 0 := hstart
        exact hn
      | true => exact hlt rfl
    refine (triple_chunkLoop_app hW hmax hlt (fun off s t ⟨_, hle, ws, haccs, htiles⟩ =>
      .inr ⟨start, ws, _, hstart, hlt, haccs, htiles, UInt32.le_iff_toNat_le.mp hle⟩)
      r client fuel).post fun status s t ⟨off, ⟨hdl, hle, ws, haccs, htiles⟩, hend⟩ => ?_
    obtain ⟨rfl, -, hcb⟩ := hdl
    exact ⟨hcb, .ran start hstart ws haccs htiles hle hlt hend⟩

theorem Ended.unaccepted {cb : Option Nat} {n k : SizeT} {resume : Bool} {accs : List (Nat × Nat)}
    {sizes : List SizeT} {status : UINT} {s : St B} {t : Tr Op Ans} {ev : Ev Op Ans}
    (h : Ended cb n k resume accs sizes status s t) (hev : Unaccepted ev) :
    Ended cb n k resume accs sizes status s (t ++ [ev]) := by
  refine ⟨h.1, ?_⟩
  rw [accepted_append, acceptedSizes_append, hev.1, hev.2, List.append_nil, List.append_nil]
  exact h.2

/-- One attempt with an application callback, or with none. -/
theorem triple_iotcDownload_app (hW : ∀ op, W.Quiet op) (cb : Option Nat) {n : SizeT}
    (hn : 0 < n) (hmax : n ≤ 0x7FFFFFFF) (resume : Bool) (k : SizeT) (accs : List (Nat × Nat))
    (sizes : List SizeT) (fuel : Nat) (r : Option IotConnectHttpRequest) :
    Triple W (ReportsSize n) (Interrupted n k resume accs)
      (Accepting (B := B) (fun dl => dl.fileBytesReceived = k ∧ dl.eventCb = none)
        fun accs' sizes' => accs' = accs ∧ sizes' = sizes)
      (iotcDownload fuel r (cb.map .app) resume) (Ended none n k resume accs sizes) := by
  have hinvalid : nxInvalidParameters ≠ nxSuccess := by decide
  cases cb with
  | none => cases r <;> exact .pure fun s t h => ⟨h.1.2, .early hinvalid h.1.1 h.2.1 h.2.2⟩
  | some cb =>
  refine spec_iotcDownload (J := Accepting (Started cb resume k) fun accs' sizes' =>
    accs' = accs ∧ sizes' = sizes) (K := Ended (some cb) n k resume accs sizes)
    (T := Ended (some cb) n k resume accs sizes)
    (fun status hne => ?_) (fun s t _ h => ⟨⟨h.1.1, rfl, rfl⟩, h.2⟩) (fun r => ?_)
    (fun status => ?_) (fun status s t h => ⟨rfl, h.2⟩) r
  · refine .bind (Q := fun _ => Ended none n k resume accs sizes status)
      (.call_quiet (hW _) fun s t a h _ => ?_) fun _ => .pure fun s t h => h
    exact Ended.unaccepted ⟨h.1.2, .early hne h.1.1 h.2.1 h.2.2⟩ unaccepted_status
  · exact triple_iotconnectHttpsRequest (Calm.logic fun op _ => hW op)
      (Accepting.stable fun _ _ _ h => h)
      (fun status s t a h => Ended.unaccepted h (unaccepted_of_silent rfl))
      (fun status s t hne h => ⟨h.1.2.2, .early hne h.1.1 h.2.1 h.2.2⟩) r
      (triple_requestHandler_app hW hn hmax resume k accs sizes fuel r {})
  · refine .bind_get (φ := fun s => s.dl.eventCb = some (.app cb)) (fun s t h => h.1) fun s h0 => ?_
    rw [h0]
    exact .call_quiet (hW _) fun s t a h _ => h.unaccepted unaccepted_status

end

/-! ## Sequences of attempts -/

/-- A call of `iotc_download` with its arguments. -/
structure DlCall where
  r : Option IotConnectHttpRequest
  eventCallback : Option Handler
  resume : Bool

def download (fuel : Nat) (c : DlCall) : M B UINT := iotcDownload fuel c.r c.eventCallback c.resume

/-- An attempt by the application at the file in question. -/
structure Attempt where
  r : Option IotConnectHttpRequest
  eventCallback : Option Nat

def Attempt.call (a : Attempt) (resume : Bool) : DlCall := ⟨a.r, a.eventCallback.map .app, resume⟩

section
variable {W : World Op Ans (St B)} {n : SizeT} {accs : List (Nat × Nat)}

/-- Between attempts, after the ranges `accs`: what was accepted since then leads from 0 to the
position the next attempt resumes from, or there is nothing to resume. -/
structure Resumable (n : SizeT) (accs : List (Nat × Nat)) (s : St B) (t : Tr Op Ans) : Prop where
  event_cb : s.dl.eventCb = none
  tiles : ∃ ws, accepted t = accs ++ ws ∧
    (s.dl.fileBytesReceived ≤ n ∧ Tiles 0 ws s.dl.fileBytesReceived.toNat ∨
      ws = [] ∧ n ≤ s.dl.fileBytesReceived)

/-- Between attempts, the whole file accepted. -/
structure Downloaded (n : SizeT) (accs : List (Nat × Nat)) (s : St B) (t : Tr Op Ans) : Prop where
  event_cb : s.dl.eventCb = none
  offset : s.dl.fileBytesReceived = n
  tiles : ∃ ws, accepted t = accs ++ ws ∧ Tiles 0 ws n.toNat

/-- What was accepted since `accs` tiles a part of the file from its beginning. -/
def TiledSoFar (n : SizeT) (accs : List (Nat × Nat)) (_ : St B) (t : Tr Op Ans) : Prop :=
  ∃ ws b, accepted t = accs ++ ws ∧ Tiles 0 ws b ∧ b ≤ n.toNat

theorem Resumable.tiledSoFar {s : St B} {t : Tr Op Ans} (h : Resumable n accs s t) :
    TiledSoFar n accs s t := by
  obtain ⟨ws, haccs, ⟨hle, htiles⟩ | ⟨rfl, -⟩⟩ := h.tiles
  · exact ⟨ws, _, haccs, htiles, UInt32.le_iff_toNat_le.mp hle⟩
  · exact ⟨[], 0, haccs, .nil 0, Nat.zero_le _⟩

theorem Downloaded.resumable {s : St B} {t : Tr Op Ans} (h : Downloaded n accs s t) :
    Resumable n accs s t := by
  obtain ⟨ws, haccs, htiles⟩ := h.tiles
  exact ⟨h.event_cb, ws, haccs, .inl ⟨h.offset ▸ UInt32.le_refl _, h.offset ▸ htiles⟩⟩

/-- A resumed attempt goes on where the attempts before it ended. -/
theorem triple_resumed (hW : ∀ op, W.Quiet op) (hn : 0 < n) (hmax : n ≤ 0x7FFFFFFF) (fuel : Nat)
    (a : Attempt) :
    Triple W (ReportsSize n) (TiledSoFar n accs) (Resumable (B := B) n accs)
      (download fuel (a.call true)) fun status s t =>
        Resumable n accs s t ∧ (status = nxSuccess → Downloaded n accs s t) := by
  refine triple_iff_run.mpr fun s t u h htr hA => ?_
  obtain ⟨ws, haccs, hws⟩ := h.tiles
  refine ((triple_iotcDownload_app hW a.eventCallback hn hmax true s.dl.fileBytesReceived
    (accepted t) (acceptedSizes t) fuel a.r).sat ⟨⟨rfl, h.event_cb⟩, rfl, rfl⟩ htr hA).mono
    (fun status s' t' ⟨hcb, hout⟩ => ?_) fun s' t' hpart => ?_
  · cases hout with
    | early hne hoff hsame _ | refused _ hne _ hoff hsame =>
      exact ⟨⟨hcb, ws, by rw [hsame, haccs], by rw [hoff]; exact hws⟩, fun he => absurd he hne⟩
    | ran start hstart ws' haccs' htiles hle hlt hend =>
      rw [if_pos rfl] at hstart
      subst hstart
      obtain ⟨-, hws⟩ := hws.resolve_right fun hstale => UInt32.not_lt.mpr hstale.2 hlt
      have haccs' : accepted t' = accs ++ (ws ++ ws') := by rw [haccs', haccs, List.append_assoc]
      have hall := hws.append htiles
      refine ⟨⟨hcb, ws ++ ws', haccs', .inl ⟨hle, hall⟩⟩, fun hok => ?_⟩
      exact ⟨hcb, hend hok, ws ++ ws', haccs', hend hok ▸ hall⟩
  · rcases hpart with hsame | ⟨start, ws', b, hstart, hlt, haccs', htiles, hle⟩
    · obtain ⟨ws, b, hb⟩ := h.tiledSoFar
      exact ⟨ws, b, hsame ▸ hb⟩
    · rw [if_pos rfl] at hstart
      subst hstart
      obtain ⟨-, hws⟩ := hws.resolve_right fun hstale => UInt32.not_lt.mpr hstale.2 hlt
      exact ⟨ws ++ ws', b, by rw [haccs', haccs, List.append_assoc], hws.append htiles, hle⟩

/-- Once the whole file is accepted, a resumed attempt is refused. -/
theorem triple_resumed_downloaded (hW : ∀ op, W.Quiet op) (hn : 0 < n) (hmax : n ≤ 0x7FFFFFFF)
    (fuel : Nat) (a : Attempt) :
    Triple W (ReportsSize n) (TiledSoFar n accs) (Downloaded (B := B) n accs)
      (download fuel (a.call true)) fun _ => Downloaded n accs := by
  refine triple_iff_run.mpr fun s t u h htr hA => ?_
  refine ((triple_iotcDownload_app hW a.eventCallback hn hmax true s.dl.fileBytesReceived
    (accepted t) (acceptedSizes t) fuel a.r).sat ⟨⟨rfl, h.event_cb⟩, rfl, rfl⟩ htr hA).mono
    (fun status s' t' ⟨hcb, hout⟩ => ?_) fun s' t' hpart => ?_
  · cases hout with
    | early _ hoff hsame _ | refused _ _ _ hoff hsame =>
      exact ⟨hcb, hoff.trans h.offset, hsame ▸ h.tiles⟩
    | ran start hstart _ _ _ _ hlt _ =>
      rw [hstart, if_pos rfl, h.offset] at hlt
      exact absurd hlt (UInt32.lt_irrefl n)
  · rcases hpart with hsame | ⟨start, _, _, hstart, hlt, _⟩
    · obtain ⟨ws, b, hb⟩ := h.resumable.tiledSoFar
      exact ⟨ws, b, hsame ▸ hb⟩
    · rw [hstart, if_pos rfl, h.offset] at hlt
      exact absurd hlt (UInt32.lt_irrefl n)

/-- The first attempt leaves a position to resume from if it got as far as its reset, or if the
one left before it is at an end of the file. -/
theorem triple_first (hW : ∀ op, W.Quiet op) (hn : 0 < n) (hmax : n ≤ 0x7FFFFFFF) (fuel : Nat)
    (a : Attempt) (k : SizeT) (sizes : List SizeT) :
    Triple W (ReportsSize n) (TiledSoFar n accs)
      (Accepting (B := B) (fun dl => dl.fileBytesReceived = k ∧ dl.eventCb = none)
        fun accs' sizes' => accs' = accs ∧ sizes' = sizes)
      (download fuel (a.call false)) fun status s t =>
        (acceptedSizes t ≠ sizes ∨ k = 0 ∨ n ≤ k → Resumable n accs s t) ∧
          (status = nxSuccess → Downloaded n accs s t) := by
  refine triple_iff_run.mpr fun s t u h htr hA => ?_
  refine ((triple_iotcDownload_app hW a.eventCallback hn hmax false k accs sizes fuel a.r).sat h
    htr hA).mono (fun status s' t' ⟨hcb, hout⟩ => ?_) fun s' t' hpart => ?_
  · cases hout with
    | early hne hoff hsame hsizes =>
      refine ⟨fun hcond => ⟨hcb, [], by rw [hsame, List.append_nil], ?_⟩, fun he => absurd he hne⟩
      rw [hoff]
      rcases hcond with hreset | rfl | hge
      · exact absurd hsizes hreset
      · exact .inl ⟨UInt32.le_of_lt hn, .nil _⟩
      · exact .inr ⟨rfl, hge⟩
    | refused hresume => cases hresume
    | ran start hstart ws haccs' htiles hle hlt hend =>
      rw [if_neg (by decide)] at hstart
      subst hstart
      refine ⟨fun _ => ⟨hcb, ws, haccs', .inl ⟨hle, htiles⟩⟩, fun hok => ?_⟩
      exact ⟨hcb, hend hok, ws, haccs', hend hok ▸ htiles⟩
  · rcases hpart with hsame | ⟨start, ws, b, hstart, hlt, haccs', htiles, hle⟩
    · exact ⟨[], 0, by rw [hsame, List.append_nil], .nil 0, Nat.zero_le _⟩
    · rw [if_neg (by decide)] at hstart
      subst hstart
      exact ⟨ws, b, haccs', htiles, hle⟩

/-- The statuses of attempts tell whether the whole file was accepted. -/
def Reported (n : SizeT) (accs : List (Nat × Nat)) (statuses : List UINT) (s : St B)
    (t : Tr Op Ans) : Prop :=
  Resumable n accs s t ∧ (nxSuccess ∈ statuses → Downloaded n accs s t)

/-- The attempts after one that ended with `status`. -/
theorem triple_more (hW : ∀ op, W.Quiet op) (hn : 0 < n) (hmax : n ≤ 0x7FFFFFFF) (fuel : Nat)
    (rest : List Attempt)
    (hrest : Triple W (ReportsSize n) (TiledSoFar n accs) (Resumable (B := B) n accs)
      (session (download fuel) (rest.map fun a => a.call true)) (Reported n accs)) (status : UINT) :
    Triple W (ReportsSize n) (TiledSoFar n accs) (Reported (B := B) n accs [status]) (do
      let statuses ← session (download fuel) (rest.map fun a => a.call true)
      return status :: statuses) (Reported n accs) := by
  have hdone : Triple W (ReportsSize n) (TiledSoFar n accs) (Downloaded (B := B) n accs)
      (session (download fuel) (rest.map fun a => a.call true)) fun _ => Downloaded n accs := by
    clear hrest
    induction rest with
    | nil => exact .pure fun _ _ h => h
    | cons a rest ih =>
      exact .bind (triple_resumed_downloaded hW hn hmax fuel a) fun _ =>
        .bind ih fun _ => .pure fun _ _ h => h
  by_cases hok : status = nxSuccess
  · exact .bind (hdone.pre fun s t h => h.2 (List.mem_singleton.mpr hok.symm)) fun statuses =>
      .pure fun s t h => ⟨h.resumable, fun _ => h⟩
  · refine .bind (hrest.pre fun s t h => h.1) fun statuses => .pure fun s t h =>
      ⟨h.1, fun hmem => h.2 ?_⟩
    exact (List.mem_cons.mp hmem).resolve_left fun he => hok he.symm

/-- Any number of resumed attempts. -/
theorem triple_attempts (hW : ∀ op, W.Quiet op) (hn : 0 < n) (hmax : n ≤ 0x7FFFFFFF) (fuel : Nat)
    (rest : List Attempt) :
    Triple W (ReportsSize n) (TiledSoFar n accs) (Resumable (B := B) n accs)
      (session (download fuel) (rest.map fun a => a.call true)) (Reported n accs) := by
  induction rest with
  | nil => exact .pure fun s t h => ⟨h, nofun⟩
  | cons a rest ih =>
    exact .bind ((triple_resumed hW hn hmax fuel a).post fun status s t h =>
      ⟨h.1, fun hmem => h.2 (List.mem_singleton.mp hmem).symm⟩)
        (triple_more hW hn hmax fuel rest ih)

theorem triple_callHandler_eventCb (hW : ∀ op, W.Quiet op) (h : Handler) (status : UINT) :
    Triple W (fun _ _ => True) (fun _ _ => True) (fun s _ => s.dl.eventCb = none)
      (callHandler (B := B) h (.status status)) fun _ s _ => s.dl.eventCb = none := by
  cases h with
  | app cb => exact .call_quiet (hW _) fun s t a h _ => h
  | otaFwDownloadHandler =>
    refine .bind (Q := fun _ s _ => s.dl.eventCb = none) (.pure fun s t h => h) fun _ => ?_
    refine .ite (fun _ => .pure fun s t h => h) fun _ => ?_
    refine .bind_get_any fun s0 => ?_
    cases s0.ota.userDownloadCb with
    | none => exact .pure fun s t h => h
    | some cb => exact .call_quiet (hW _) fun s t a h _ => h

/-- `event_cb` is NULL between calls. -/
theorem triple_download_eventCb (hW : ∀ op, W.Quiet op) (fuel : Nat) (c : DlCall) :
    Triple W (fun _ _ => True) (fun _ _ => True) (fun s _ => s.dl.eventCb = none)
      (download (B := B) fuel c) fun _ s _ => s.dl.eventCb = none := by
  obtain ⟨r, _ | h, resume⟩ := c
  · cases r <;> exact .pure fun s t h => h
  · exact spec_iotcDownload (J := fun _ _ => True) (K := fun _ _ _ => True) (T := fun _ _ _ => True)
      (fun status _ => .bind (triple_callHandler_eventCb hW h status) fun _ => .pure fun s t h => h)
      (fun _ _ _ _ => trivial) (fun _ => .trivial fun _ _ => trivial)
      (fun _ => .trivial fun _ _ => trivial) (fun _ _ _ _ => rfl) r

end

theorem TiledSoFar.new {n : SizeT} {s : St B} {t u : Tr Op Ans}
    (h : TiledSoFar n (accepted t) s (t ++ u)) : ∃ b ≤ n.toNat, Tiles 0 (accepted u) b := by
  obtain ⟨ws, b, haccs, htiles, hle⟩ := h
  rw [accepted_append] at haccs
  exact ⟨b, hle, List.append_cancel_left haccs ▸ htiles⟩

theorem Downloaded.new {n : SizeT} {s : St B} {t u : Tr Op Ans}
    (h : Downloaded n (accepted t) s (t ++ u)) : Tiles 0 (accepted u) n.toNat := by
  obtain ⟨ws, haccs, htiles⟩ := h.tiles
  rw [accepted_append] at haccs
  exact List.append_cancel_left haccs ▸ htiles

/-- A first attempt and any number of resumed ones. -/
def attempts (fuel : Nat) (first : Attempt) (rest : List Attempt) : M B (List UINT) :=
  session (download fuel) (first.call false :: rest.map fun a => a.call true)

theorem attempts_tile {ans : Tr Op Ans → (op : Op) → Ans op} (fuel : Nat) (first : Attempt)
    (rest : List Attempt) {n : SizeT} (hn : 0 < n) (hmax : n ≤ 0x7FFFFFFF)
    {s : St B} {t u : Tr Op Ans} (hcb : s.dl.eventCb = none)
    (hu : ((attempts fuel first rest).run (.sequential ans) s t).tr = t ++ u)
    (hhead : Along (ReportsSize n) t u)
    (hcond : acceptedSizes (((download fuel (first.call false)).run (.sequential ans) s t).tr.drop
        t.length) ≠ [] ∨ s.dl.fileBytesReceived = 0 ∨ n ≤ s.dl.fileBytesReceived) :
    ((attempts fuel first rest).run (.sequential ans) s t).Sat (Reported n (accepted t))
      (TiledSoFar n (accepted t)) := by
  have hW := World.sequential_quiet (σ := St B) ans
  obtain ⟨u1, hu1⟩ := Prog.run_grows (.sequential ans) s t (download fuel (first.call false))
  have hfirst := (triple_first hW hn hmax fuel first s.dl.fileBytesReceived
    (acceptedSizes t)).sat ⟨⟨rfl, hcb⟩, rfl, rfl⟩ hu1
  unfold attempts at hu ⊢
  rw [session, run_bind] at hu ⊢
  rw [hu1, List.drop_left] at hcond
  generalize (download fuel (first.call false)).run (.sequential ans) s t = o1 at hu hu1 hfirst
  obtain ⟨r, s1, t1⟩ := o1
  subst hu1
  cases r with
  | error e =>
    obtain rfl := List.append_cancel_left hu
    exact hfirst hhead
  | ok status =>
    rw [Out.bind_ok] at hu ⊢
    obtain ⟨u2, hu2⟩ := Prog.run_grows (.sequential ans) s1 (t ++ u1) (do
      let statuses ← session (download fuel) (rest.map fun a => a.call true)
      return status :: statuses)
    rw [hu2, List.append_assoc] at hu
    obtain rfl := List.append_cancel_left hu
    obtain ⟨hhead1, hhead2⟩ := along_append.mp hhead
    obtain ⟨hresumable, hdone⟩ := hfirst hhead1
    have hreset : acceptedSizes u1 ≠ [] → acceptedSizes (t ++ u1) ≠ acceptedSizes t := by
      intro hne heq
      rw [acceptedSizes_append] at heq
      exact hne (List.append_right_eq_self.mp heq)
    exact (triple_more hW hn hmax fuel rest (triple_attempts hW hn hmax fuel rest) status).sat
      ⟨hresumable (hcond.imp_left hreset), fun hmem => hdone (List.mem_singleton.mp hmem).symm⟩ hu2
      hhead2

/-- Over a first attempt and any number of resumed ones, from any state that earlier downloads
left, the accepted ranges tile a part of the file from its beginning, and all of it once an
attempt has succeeded, provided that the first attempt gets its FILE_SIZE event accepted or the
offset left before it is at an end of the file. -/
theorem resume_tiles (ans : Tr Op Ans → (op : Op) → Ans op) (fuel : Nat) (prior : List DlCall)
    (first : Attempt) (rest : List Attempt) (n : SizeT) (hn : 0 < n) (hmax : n ≤ 0x7FFFFFFF) :
    let before := (session (download fuel) prior).run (.sequential ans) (St.init B) []
    let o1 := (download fuel (first.call false)).run (.sequential ans) before.st before.tr
    let o := (attempts fuel first rest).run (.sequential ans) before.st before.tr
    before.res.isOk → Along (ReportsSize n) before.tr (o.tr.drop before.tr.length) →
    (acceptedSizes (o1.tr.drop before.tr.length) ≠ [] ∨ before.st.dl.fileBytesReceived = 0 ∨
      n ≤ before.st.dl.fileBytesReceived) →
    ∃ b ≤ n.toNat, Tiles 0 (accepted (o.tr.drop before.tr.length)) b ∧
      ∀ statuses, o.res = .ok statuses → nxSuccess ∈ statuses → b = n.toNat := by
  intro before o1 o hok hhead hcond
  have hW := World.sequential_quiet (σ := St B) ans
  obtain ⟨v, hv⟩ := Prog.run_grows (.sequential ans) (St.init B) [] (session (download fuel) prior)
  have hprior := Logic.Spec.session fun c (_ : c ∈ prior) => triple_download_eventCb hW fuel c
  obtain ⟨_, -, hcb⟩ := (hprior.sat rfl hv (.of_forall fun _ _ _ => True.intro)).ok hok
  obtain ⟨u, hu⟩ : ∃ u, o.tr = before.tr ++ u := Prog.run_grows ..
  rw [hu, List.drop_left] at hhead ⊢
  have hsat : o.Sat (Reported n (accepted before.tr)) (TiledSoFar n (accepted before.tr)) :=
    attempts_tile fuel first rest hn hmax hcb hu hhead hcond
  obtain ⟨r, s, t⟩ := o
  obtain rfl : t = before.tr ++ u := hu
  cases r with
  | error e =>
    obtain ⟨b, hle, htiles⟩ := (show TiledSoFar n (accepted before.tr) s _ from hsat).new
    exact ⟨b, hle, htiles, nofun⟩
  | ok statuses =>
    by_cases hmem : nxSuccess ∈ statuses
    · exact ⟨_, le_rfl, (hsat.2 hmem).new, fun _ _ _ => rfl⟩
    · obtain ⟨b, hle, htiles⟩ := hsat.1.tiledSoFar.new
      refine ⟨b, hle, htiles, fun _ h hmem' => absurd ?_ hmem⟩
      exact (Except.ok.inj h) ▸ hmem'

/-- A network as in `allGood`, with a file of 5000 bytes, on which the application refuses the
chunk at offset 4096 for as long as the trace is not longer than `k`, and no web client is
created when the trace is `dead` long. -/
def flaky (k dead : Nat) (t : Tr Op Ans) : (op : Op) → Ans op
  | .userDownloadCb _ (.data _ _ offset _) => offset = 0 || k < t.length
  | .nxWebHttpClientCreate .. => if t.length = dead then 1 else nxSuccess
  | op => allGood (headOf "5000") (chunkOf [1]) op

theorem headOf_5000 : headerFileSize 0 (headOf "5000").fields 0 = .ok 5000 := by decide +kernel

theorem reportsSize_flaky (k dead : Nat) (t : Tr Op Ans) (op : Op) (t' : Tr Op Ans) :
    ReportsSize 5000 t ⟨op, flaky k dead t' op⟩ := by
  intro d hev _
  obtain ⟨rfl, hd⟩ := Sigma.mk.inj hev
  obtain rfl := eq_of_heq hd
  exact headOf_5000

/-- A download that stops at offset 4096. -/
def flakyBefore (k dead : Nat) : Out Op Ans (St .default) (List UINT) :=
  (session (download 10) [⟨some fileRequest, some (.app 0), false⟩]).run
    (.sequential (flaky k dead)) (St.init .default) []

/-- An attempt from the beginning after it, and a resumed one. -/
def flakyAttempts (k dead : Nat) : Out Op Ans (St .default) (List UINT) :=
  (attempts 10 ⟨some fileRequest, some 1⟩ [⟨some fileRequest, some 1⟩]).run
    (.sequential (flaky k dead)) (flakyBefore k dead).st (flakyBefore k dead).tr

/-- The attempt from the beginning stops at offset 4096 too, and the next one goes on there. -/
theorem resume_tiles_flaky :
    let u := (flakyAttempts 60 1000).tr.drop (flakyBefore 60 1000).tr.length
    (∃ b ≤ 5000, Tiles 0 (accepted u) b ∧ ∀ statuses, (flakyAttempts 60 1000).res = .ok statuses →
      nxSuccess ∈ statuses → b = 5000) ∧ accepted u = [(0, 4096), (4096, 904)] := by
  have hok : (flakyBefore 60 1000).res.isOk := by decide +kernel
  have hsizes : acceptedSizes (((download 10 (Attempt.call ⟨some fileRequest, some 1⟩ false)).run
      (.sequential (flaky 60 1000)) (flakyBefore 60 1000).st (flakyBefore 60 1000).tr).tr.drop
        (flakyBefore 60 1000).tr.length) ≠ [] := by decide +kernel
  have htiles := resume_tiles (flaky 60 1000) 10 [⟨some fileRequest, some (.app 0), false⟩]
    ⟨some fileRequest, some 1⟩ [⟨some fileRequest, some 1⟩] 5000 (by decide) (by decide) hok
    (.of_answers (reportsSize_flaky 60 1000)) (.inl hsizes)
  exact ⟨htiles, by decide +kernel⟩

/-- The attempt from the beginning gets no connection: the one resumed after it goes on where the
download before them stopped, and succeeds. -/
theorem resume_skips :
    let u := (flakyAttempts 28 27).tr.drop (flakyBefore 28 27).tr.length
    (flakyBefore 28 27).res.isOk ∧ Along (ReportsSize 5000) (flakyBefore 28 27).tr u ∧
      accepted u = [(4096, 904)] ∧ (∀ b, ¬ Tiles 0 (accepted u) b) ∧
      (flakyAttempts 28 27).res.toOption = some [1, nxSuccess] := by
  have hacc : accepted ((flakyAttempts 28 27).tr.drop (flakyBefore 28 27).tr.length) =
    [(4096, 904)] := by decide +kernel
  refine ⟨by decide +kernel, .of_answers (reportsSize_flaky 28 27), hacc, fun b h => ?_,
    by decide +kernel⟩
  rw [hacc] at h
  cases h

end Iotc.Web
