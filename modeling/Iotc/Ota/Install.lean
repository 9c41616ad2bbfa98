import Iotc.Ota.Flash

/-!
# When an INSTALL is safe

A download writes the flash from the offset it starts at, while the FILE_SIZE event before
it has erased the flash. `install_safe`: in every session in which no download resumes inside
the file, and none starts on a file announced as empty, every INSTALL finds a complete flash.
-/

namespace Iotc.Ota

open Iotc.C Iotc.Lib Iotc.Resume Iotc.Web

variable {B : Build}

/-- What the file size `n` announced to a download must be: with `resume`, the offset `k` left
by earlier downloads is zero or not inside the file; without, the file is not empty. -/
def SizeAllowed (resume : Bool) (k n : SizeT) : Prop :=
  if resume then k = 0 ∨ n ≤ k else n ≠ 0

/-- Then the chunk loop starts at the beginning of a file that is not empty. -/
theorem SizeAllowed.start {resume : Bool} {k n start : SizeT} (h : SizeAllowed resume k n)
    (hstart : start = if resume then k else 0) (hlt : resume = true → start < n) :
    start = 0 ∧ n ≠ 0 := by
  rw [SizeAllowed] at h
  cases resume with
  | false => exact ⟨hstart, h⟩
  | true =>
    obtain rfl : start = k := hstart
    have hpos := hlt rfl
    refine ⟨h.resolve_right (UInt32.not_le.mpr hpos), ?_⟩
    rintro rfl
    exact UInt32.not_lt_zero hpos

/-- The size that the HEAD answer of the event announces, if it announces one, is allowed for a
download that starts in the state `s`. -/
def HeadAllowed (resume : Bool) (k : SizeT) (_ : Tr Op Ans) (ev : Ev Op Ans) : Prop :=
  ∀ d n, ev = ⟨.nxWebHttpClientResponseBodyGet .head, d⟩ → toldError d.last d.packets = none →
    headerFileSize d.dummy d.fields 0 = .ok n → SizeAllowed resume k n

/-- The flash is complete if the download succeeded. -/
def Loaded (status : UINT) (f : Option Flash) : Prop :=
  status = nxSuccess → ∃ fl, f = some fl ∧ fl.Complete

section
variable {W : World Op Ans (St B)} {A : Tr Op Ans → Ev Op Ans → Prop} {ad : Nat}

/-- The bytes before `off` have been written. -/
def Written (ad : Nat) (off n : SizeT) : St B → Tr Op Ans → Prop :=
  Holding ad
    (fun dl => dl.fileBytesReceived = off ∧ dl.fileSize = n ∧
      dl.eventCb = some .otaFwDownloadHandler)
    fun f => ∃ ws, f = some ⟨n.toNat, ws⟩ ∧ Covers 0 ws off.toNat

/-- A download is on its way, nothing known of the flash. -/
def Downloading (ad : Nat) : St B → Tr Op Ans → Prop :=
  Holding ad (fun dl => dl.eventCb = some .otaFwDownloadHandler) fun _ => True

theorem Written.downloading {off n : SizeT} {s : St B} {t : Tr Op Ans} (h : Written ad off n s t) :
    Downloading ad s t := h.weaken (fun _ h => h.2.2) fun _ _ => trivial

/-- An accepted chunk extends the part of the file that has been written. -/
theorem triple_chunk (hW : ∀ op, W.Quiet op) (off n size : SizeT) (dataPtr : List UInt8) :
    Triple W A (fun _ => InstallSafe) (Written (B := B) ad off n)
      (fireEvent (.data dataPtr size off n)) fun accepted s t =>
        if accepted then Written ad (off + size) n (s.advance size) t else Downloading ad s t := by
  refine (triple_fireEvent hW (fun _ h => h.2.2) _).post fun accepted s t ⟨h, hacc⟩ => ?_
  cases accepted with
  | false => exact h.weaken (fun _ h => h.2.2) fun _ _ => trivial
  | true =>
    obtain ⟨hdriver, hready, ⟨hoff, hn, hcb⟩, hsafe, f, ⟨ws, rfl, hws⟩, hf⟩ := hacc rfl
    refine ⟨hdriver, hready, ⟨by rw [← hoff]; rfl, hn, hcb⟩, hsafe, _, hf, ?_⟩
    refine hws.extend.le ?_
    rw [UInt32.toNat_add]
    exact Nat.mod_le ..

/-- A chunk loop that starts at the beginning of a file that is not empty loads it. -/
theorem triple_load (hW : ∀ op, W.Quiet op) {n : SizeT} (hn : n ≠ 0) (r : IotConnectHttpRequest)
    (client : NxWebHttpClient) (fuel : Nat) :
    Triple W A (fun _ => InstallSafe) (Written (B := B) ad 0 n)
      (chunkLoop r (rangeClient client) fuel) fun status =>
        Holding ad (fun dl => dl.eventCb = some .otaFwDownloadHandler) (Loaded status) := by
  refine (triple_chunkLoop (Calm.logic fun op _ => hW op) (I := Written ad) (R := Downloading ad)
    (H := fun _ => True) (fun off => Holding.stable fun _ _ _ h => h) (fun off s t h => h.safe)
    (fun off s t h => ⟨h.dl.1, h.dl.2.1⟩) (fun _ _ => trivial)
    (fun off dataPtr _ => triple_chunk hW off n _ dataPtr) r client fuel 0 trivial).post
      fun status s t h => ?_
  by_cases hok : status = nxSuccess
  · rw [if_pos hok] at h
    obtain ⟨off, hle, h⟩ := h
    refine h.weaken (fun _ h => h.2.2) ?_
    rintro _ ⟨ws, rfl, hws⟩ _
    refine ⟨_, rfl, ?_, hws.le (UInt32.le_iff_toNat_le.mp hle)⟩
    exact Nat.pos_of_ne_zero fun h0 => hn (UInt32.toNat_inj.mp h0)
  · rw [if_neg hok] at h
    have hdl : Downloading ad s t := h.elim (fun ⟨_, h⟩ => h.downloading) id
    exact hdl.weaken (fun _ h => h) fun _ _ h => absurd h hok

/-- The request handler loads the flash when the announced size is allowed. -/
theorem triple_requestHandler (hW : ∀ op, W.Quiet op) (resume : Bool) (k : SizeT) (fuel : Nat)
    (r : IotConnectHttpRequest) (client : NxWebHttpClient) :
    Triple W (HeadAllowed resume k) (fun _ => InstallSafe)
      (Holding (B := B) ad (fun dl => dl.fileBytesReceived = k ∧ dl.doResume = resume ∧
        dl.eventCb = some .otaFwDownloadHandler) fun _ => True)
      (requestHandler fuel r client) fun status =>
        Holding ad (fun dl => dl.eventCb = some .otaFwDownloadHandler) (Loaded status) := by
  refine Web.triple_requestHandler (Calm.logic fun op _ => hW op) (Holding.stable fun _ _ _ h => h)
    (Z := SizeAllowed resume k) (J := fun n off => Written ad off n)
    (K := fun n accepted => Holding ad (fun dl => dl.fileSize = n ∧ dl.fileBytesReceived = k ∧
      dl.doResume = resume ∧ dl.eventCb = some .otaFwDownloadHandler)
      fun f => accepted = true → f = some ⟨n.toNat, []⟩)
    (fun s t _ _ h _ _ => h.safe) (fun s t n h => { h with })
    (fun t d n hA htold hd => hA d n rfl htold hd)
    (fun status s t hne h => h.weaken (fun _ h => h.2.2) fun _ _ he => absurd he hne)
    (fun n _ => ?_) (fun n s t h => ⟨h.dl.1, h.dl.2.1, h.dl.2.2.1⟩)
    (fun n s t _ h => h.weaken (fun _ h => h.2.2.2) fun _ _ he => absurd he (by decide))
    (fun n s t _ _ _ h => h.weaken (fun _ h => h.2.2.2) fun _ _ he => absurd he (by decide))
    (fun n s t _ _ h => ?_) (fun n s t hallowed hres hlt h => ?_) r client fuel
    fun n start hallowed hstart hlt => ?_
  · refine ((triple_fireEvent (I := fun dl => dl.fileSize = n ∧ dl.fileBytesReceived = k ∧
      dl.doResume = resume ∧ dl.eventCb = some .otaFwDownloadHandler) (F := fun _ => True) hW
      (fun _ h => h.2.2.2) _).pre fun s t ⟨hn, h⟩ => { h with dl := ⟨hn, h.dl⟩ }).post
      fun accepted s t ⟨h, hacc⟩ => ?_
    cases accepted with
    | false => exact h.weaken (fun _ h => h) fun _ _ he => by cases he
    | true =>
      refine (hacc rfl).weaken (fun _ h => h) ?_
      rintro _ ⟨f, -, rfl⟩ -
      rfl
  · exact { h with dl := ⟨rfl, h.dl.1, h.dl.2.2.2⟩, flash := ⟨[], h.flash rfl, .empty le_rfl⟩ }
  · obtain ⟨rfl, -⟩ := hallowed.start (by rw [if_pos hres]) fun _ => hlt
    exact { h with
      dl := ⟨h.dl.2.1, h.dl.1, h.dl.2.2.2⟩, flash := ⟨[], h.flash rfl, .empty le_rfl⟩ }
  · obtain ⟨rfl, hn⟩ := hallowed.start hstart hlt
    exact triple_load hW hn r client fuel

/-- A download for the driver `ad` loads its flash when the announced size is allowed. -/
theorem triple_iotcDownload (hW : ∀ op, W.Quiet op) (resume : Bool) (k : SizeT) (fuel : Nat)
    (r : Option IotConnectHttpRequest) :
    Triple W (HeadAllowed resume k) (fun _ => InstallSafe)
      (Holding (B := B) ad (fun dl => dl.fileBytesReceived = k ∧ dl.eventCb = none) fun _ => True)
      (iotcDownload fuel r (some .otaFwDownloadHandler) resume) fun status =>
        Holding ad (fun dl => dl.eventCb = none) (Loaded status) := by
  refine Web.spec_iotcDownload (J := Holding ad (fun dl => dl.fileBytesReceived = k ∧
    dl.doResume = resume ∧ dl.eventCb = some .otaFwDownloadHandler) fun _ => True)
    (K := fun status => Holding ad (fun dl => dl.eventCb = some .otaFwDownloadHandler)
      (Loaded status))
    (fun status hne => ?_) (fun s t _ h => { h with dl := ⟨h.dl.1, rfl, rfl⟩ }) (fun r => ?_)
    (fun status => triple_fireEvent_status hW (fun _ h => h) status)
    (fun status s t h => { h with dl := rfl }) r
  · refine .bind (triple_callHandler_status hW _) fun _ => .pure fun s t h => ?_
    exact h.weaken (fun _ h => h.2) fun _ _ he => absurd he hne
  · exact triple_iotconnectHttpsRequest (Calm.logic fun op _ => hW op)
      (Holding.stable fun _ _ _ h => h) (fun status => (Holding.stable fun _ _ _ h => h).delete)
      (fun status s t hne h => h.weaken (fun _ h => h.2.2) fun _ _ he => absurd he hne) r
      (triple_requestHandler hW resume k fuel r {})

end

/-! ## The interface -/

/-- Between two calls: nothing is downloading, and a ready firmware is complete. -/
structure Idle (s : St B) (t : Tr Op Ans) : Prop where
  event_cb : s.dl.eventCb = none
  safe : InstallSafe t
  ready : s.ota.firmwareReady → ∃ ad f, s.ota.aduDriver = some ad ∧ flash ad t = some f ∧ f.Complete

/-- What a call assumes of its HEAD answers, given the state it starts from. -/
def CallAllowed (c : OtaCall) (s : St B) : Tr Op Ans → Ev Op Ans → Prop :=
  match c with
  | .download _ _ resume _ => HeadAllowed resume s.dl.fileBytesReceived
  | _ => fun _ _ => True

section
variable {ans : Tr Op Ans → (op : Op) → Ans op}

/-- No firmware is ready, and the next download starts at `k`. -/
structure Unready (k : SizeT) (s : St B) (t : Tr Op Ans) : Prop where
  event_cb : s.dl.eventCb = none
  offset : s.dl.fileBytesReceived = k
  safe : InstallSafe t
  not_ready : s.ota.firmwareReady = false

theorem Unready.idle {k : SizeT} {s : St B} {t : Tr Op Ans} (h : Unready k s t) : Idle s t :=
  ⟨h.event_cb, h.safe, fun hr => by rw [h.not_ready] at hr; cases hr⟩

variable {A : Tr Op Ans → Ev Op Ans → Prop}

theorem triple_rejectFwDownload (k : SizeT) (cb : Option Nat) (status : UINT) :
    Triple (.sequential ans) A (fun _ => InstallSafe) (Unready (B := B) k)
      (rejectFwDownload cb status) fun _ => Idle := by
  cases cb with
  | none => exact .pure fun s t h => h.idle
  | some cb =>
    refine .bind (Q := fun _ => Unready k) (.call_quiet (World.sequential_quiet ans _) ?_) fun _ =>
      .pure fun s t h => h.idle
    exact fun s t a h _ => { h with safe := h.safe.snoc_of_not_install rfl }

theorem triple_iotcOtaFwDownload (fuel : Nat) (r : Option IotConnectHttpRequest) (ad : Option Nat)
    (resume : Bool) (cb : Option Nat) (k : SizeT) :
    Triple (.sequential ans) (HeadAllowed resume k) (fun _ => InstallSafe)
      (fun s t => s.dl.fileBytesReceived = k ∧ Idle (B := B) s t)
      (iotcOtaFwDownload fuel r ad resume cb) fun _ => Idle := by
  have hW := World.sequential_quiet (σ := St B) ans
  refine .bind (Q := fun _ => Unready k)
    (.modify fun s t h => ⟨h.2.event_cb, h.1, h.2.safe, rfl⟩) fun _ => ?_
  refine .bind_get (φ := fun s => s.ota.firmwareReady = false) (fun s t h => h.not_ready)
    fun s0 h0 => ?_
  refine .ite (fun _ => triple_rejectFwDownload k cb _) fun _ => ?_
  cases ad with
  | none => exact triple_rejectFwDownload k cb _
  | some ad =>
    refine .ite (fun _ => triple_rejectFwDownload k cb _) fun _ => ?_
    refine rule_acceptFwDownload (K := fun _ => Unready k) (J := Holding ad (fun dl =>
      dl.fileBytesReceived = k ∧ dl.eventCb = none) fun _ => True)
      (rule_sendDriver (K := fun _ => Unready k) (.call_quiet (hW _) fun s t a h _ => ?_)
        fun _ s t h => { h with })
      (fun _ s t _ h => h.idle)
      (fun s t h => ⟨rfl, h.not_ready, ⟨h.offset, h.event_cb⟩, h.safe, trivial⟩)
      (triple_iotcDownload hW resume k fuel r) (fun s t h => ?_) fun status s t h => ?_
    · exact { h with safe := h.safe.snoc_of_not_install rfl }
    · obtain ⟨f, hf, hcomplete⟩ := h.flash rfl
      exact ⟨h.dl, h.safe, fun _ => ⟨ad, f, h.driver, hf, hcomplete⟩⟩
    · exact ⟨h.dl, h.safe, fun hr => by rw [St.setOta_ota, h.not_ready] at hr; cases hr⟩

/-- A command that leaves the flash as it is, an INSTALL only on a complete one. -/
theorem triple_sendDriver_idle (ad : Nat) (req : AduDriverRequest)
    (hreq : ∀ f status, Flash.after f req status = f) :
    Triple (.sequential ans) A (fun _ => InstallSafe)
      (fun s t => (req.command = .driverInstall → ∃ f, flash ad t = some f ∧ f.Complete) ∧
        Idle (B := B) s t) (sendDriver ad req) fun _ => Idle := by
  refine rule_sendDriver (K := fun _ => Idle) (.call_quiet (World.sequential_quiet ans _) ?_)
    fun _ s t h => { h with }
  rintro s t status ⟨hcomplete, hidle⟩ -
  refine ⟨hidle.event_cb, hidle.safe.snoc ?_, fun hready => ?_⟩
  · intro ad' had
    rw [installed_driver] at had
    split at had
    · next hinstall => exact Option.some.inj had ▸ hcomplete hinstall
    · cases had
  · obtain ⟨ad', f, had, hf, hc⟩ := hidle.ready hready
    refine ⟨ad', f, had, ?_, hc⟩
    rw [flash_snoc, flashStep]
    split
    · rw [hreq, hf]
    · exact hf

theorem triple_iotcOtaFwApply :
    Triple (.sequential ans) A (fun _ => InstallSafe) (Idle (B := B)) iotcOtaFwApply
      fun _ => Idle := by
  refine rule_iotcOtaFwApply (K := fun _ => Idle) (T := fun _ => Idle) (fun s t _ h => h)
    (fun ad => (triple_sendDriver_idle ad _ fun _ _ => rfl).pre ?_)
    (fun _ s t _ h => { h with ready := nofun })
    (fun ad => (triple_sendDriver_idle ad _ fun _ _ => rfl).pre fun s t h => ⟨nofun, h⟩)
    fun _ s t h => { h with ready := nofun }
  rintro s t ⟨had, hready, h⟩
  obtain ⟨ad', f, had', hf, hc⟩ := h.ready hready
  obtain rfl := Option.some.inj (had.symm.trans had')
  exact ⟨fun _ => ⟨f, hf, hc⟩, h⟩

theorem triple_iotcOtaFwCancel :
    Triple (.sequential ans) A (fun _ => InstallSafe) (Idle (B := B)) iotcOtaFwCancel
      fun _ => Idle := by
  refine .bind_get_eq fun s0 => .ite (fun _ => .pure fun s t h => h.2) fun _ => ?_
  exact .bind (Q := fun _ => Idle) (.modify fun s t h => { h.2 with ready := nofun }) fun _ =>
    .pure fun s t h => h

end

/-- Every INSTALL of a session finds a complete flash, if no download of the session resumes
inside the announced file or starts on a file announced as empty. -/
theorem install_safe (ans : Tr Op Ans → (op : Op) → Ans op) (fuel : Nat) (cs : List OtaCall)
    (h : SessionAlong (.sequential ans) (api fuel) CallAllowed cs (St.init B) []) :
    InstallSafe ((session (api fuel) cs).run (.sequential ans) (St.init B) []).tr := by
  have hinit : Idle (St.init B) [] := ⟨rfl, ⟨.nil⟩, nofun⟩
  have hsat := h.sat (E := fun _ => InstallSafe) (fun c s0 => ?_) hinit
  · generalize (session (api fuel) cs).run (.sequential ans) (St.init B) [] = o at hsat
    obtain ⟨r, s, t⟩ := o
    cases r with
    | ok _ => exact hsat.safe
    | error e => exact hsat
  · cases c with
    | download r ad resume cb =>
      exact (triple_iotcOtaFwDownload fuel r ad resume cb s0.dl.fileBytesReceived).pre
        fun s t h => ⟨congrArg (·.dl.fileBytesReceived) h.1, h.2⟩
    | apply => exact triple_iotcOtaFwApply.pre fun s t h => h.2
    | cancel => exact triple_iotcOtaFwCancel.pre fun s t h => h.2

/-! ## Instances -/

/-- An answer without a Content-Length field. -/
def headWithoutLength : Delivery := { headOf "" with fields := [] }

/-- A plain download and the installation of what it wrote. -/
def plainTrace : Tr Op Ans :=
  ((session (api 10) [.download (some fileRequest) (some 0) false (some 0), .apply]).run
    (.sequential fun _ => allGood (headOf "3") (chunkOf [1, 2, 3])) (St.init .default) []).tr

theorem headOf_three : headerFileSize 0 (headOf "3").fields 0 = .ok 3 := by decide +kernel

theorem install_safe_plain :
    InstallSafe plainTrace ∧ plainTrace[22]?.bind installed = some 0 := by
  refine ⟨?_, by decide +kernel⟩
  unfold plainTrace
  refine install_safe _ 10 _ (.of_answers ?_ _ _)
  intro c hc s t op t'
  rcases List.mem_cons.mp hc with rfl | hc
  · intro d n hev _ hn
    obtain ⟨rfl, hd⟩ := Sigma.mk.inj hev
    obtain rfl := eq_of_heq hd
    obtain rfl := Except.ok.inj (headOf_three.symm.trans hn)
    exact nofun
  · obtain rfl := List.mem_singleton.mp hc
    trivial

/-- A network as in `allGood`, on which the application refuses the chunk at offset 4096 for
as long as the trace is shorter than 30. -/
def refuseOnce (t : Tr Op Ans) : (op : Op) → Ans op
  | .userDownloadCb _ (.data _ _ offset _) => offset = 0 || 30 < t.length
  | op => allGood (headOf "5000") (chunkOf [1]) op

/-- A refused chunk, the rest after a resume, and the installation. -/
def resumedTrace : Tr Op Ans :=
  ((session (api 10) [.download (some fileRequest) (some 0) false (some 0),
      .download (some fileRequest) (some 0) true (some 0), .apply]).run
    (.sequential refuseOnce) (St.init .default) []).tr

/-- A HEAD answer without a length, and the installation. -/
def emptyTrace : Tr Op Ans :=
  ((session (api 10) [.download (some fileRequest) (some 0) false (some 0), .apply]).run
    (.sequential fun _ => allGood headWithoutLength (chunkOf [1])) (St.init .default) []).tr

/-- A resumed download erases what was written before it and writes only the rest; a HEAD
answer without a length leads to an INSTALL of nothing. -/
theorem install_not_safe : ¬ InstallSafe resumedTrace ∧ ¬ InstallSafe emptyTrace := by
  constructor
  · intro h
    obtain ⟨f, hf, hcomplete⟩ := h.complete_at 53 0 (by decide +kernel)
    have hflash : flash 0 (resumedTrace.take 53) = some ⟨5000, [(4096, 904)]⟩ := by
      decide +kernel
    obtain rfl := Option.some.inj (hflash.symm.trans hf)
    obtain ⟨w, hw, hin⟩ := hcomplete.covers 0 le_rfl (by decide)
    obtain rfl := List.mem_singleton.mp hw
    exact absurd hin.1 (by decide)
  · intro h
    obtain ⟨f, hf, hcomplete⟩ := h.complete_at 22 0 (by decide +kernel)
    have hflash : flash 0 (emptyTrace.take 22) = some ⟨0, [(0, 0)]⟩ := by decide +kernel
    obtain rfl := Option.some.inj (hflash.symm.trans hf)
    exact absurd hcomplete.pos (Nat.lt_irrefl 0)

end Iotc.Ota
