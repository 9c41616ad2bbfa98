import Iotc.Ota.Install
import Iotc.Ota.Stream
import Iotc.Stm32.Boot
import Iotc.Web.Attempts

/-!
# The OTA client with this driver

Sessions of the OTA client whose driver is the one of the STM32L4. `session_intact`: wherever a
session is cut short, the device starts the program that ran or a firmware that was announced and
sent whole, in order.
-/

namespace Iotc.Stm32

open Iotc.C Iotc.Lib Iotc.Resume Iotc.Web Iotc.Ota

variable {B : Build} {b : Board} {s0 : St}

/-! ## The device along a trace -/

def driverStep (b : Board) (d : St) : Ev Op Ans → St
  | ⟨.aduDriver _ req, _⟩ => (nxAzureIotAduAgentDriver b req d).2
  | _ => d

/-- The device after the commands of a trace. -/
def driverAfter (b : Board) (s0 : St) (t : Tr Op Ans) : St := t.foldl (driverStep b) s0

/-- Commands are answered by the driver, everything else by `rest`. -/
def withDriver (b : Board) (s0 : St) (rest : Tr Op Ans → (op : Op) → Ans op) (t : Tr Op Ans) :
    (op : Op) → Ans op
  | .aduDriver _ req => (nxAzureIotAduAgentDriver b req (driverAfter b s0 t)).1
  | op => rest t op

/-- The size that was announced last, and the bytes that were accepted since. -/
structure Sent where
  size : Nat
  bytes : List UInt8
  deriving DecidableEq

def Sent.after (f : Option Sent) (req : AduDriverRequest) (status : UINT) : Option Sent :=
  match req.command with
  | .driverPreprocess => some ⟨req.firmwareSize.toNat, []⟩
  | .driverWrite =>
    if status = nxSuccess then
      f.map fun f => { f with
        bytes := f.bytes ++ req.firmwareDataPtr.take req.firmwareDataSize.toNat }
    else f
  | _ => f

def sentStep (f : Option Sent) : Ev Op Ans → Option Sent
  | ⟨.aduDriver _ req, status⟩ => Sent.after f req status
  | _ => f

def sentAfter (t : Tr Op Ans) : Option Sent := t.foldl sentStep none

/-- The command that starts the device anew. -/
def applies : Ev Op Ans → Bool
  | ⟨.aduDriver _ req, _⟩ => req.command == .driverApply
  | _ => false

def applied (t : Tr Op Ans) : Bool := t.any applies

section
variable {t : Tr Op Ans} {ev : Ev Op Ans} {op : Op} {a : Ans op}

@[simp] theorem driverAfter_snoc :
    driverAfter b s0 (t ++ [ev]) = driverStep b (driverAfter b s0 t) ev := by
  simp [driverAfter, List.foldl_append]

@[simp] theorem sentAfter_snoc : sentAfter (t ++ [ev]) = sentStep (sentAfter t) ev := by
  simp [sentAfter, List.foldl_append]

@[simp] theorem applied_snoc : applied (t ++ [ev]) = (applied t || applies ev) := by
  simp [applied]

/-- Calls other than commands change nothing here. -/
theorem steps_of_not_driver (h : ∀ ad req, op ≠ .aduDriver ad req) (d : St) (f : Option Sent) :
    driverStep b d ⟨op, a⟩ = d ∧ sentStep f ⟨op, a⟩ = f ∧ applies ⟨op, a⟩ = false := by
  cases op <;> first | exact ⟨rfl, rfl, rfl⟩ | exact absurd rfl (h _ _)

/-- A reset finds the program that ran, and if it is to start another one, a firmware that was
announced and sent whole. -/
def Standing (b : Board) (s0 : St) (t : Tr Op Ans) : Prop :=
  ∃ text, Outcome s0 text (driverAfter b s0 t).dev ∧
    ((driverAfter b s0 t).dev.bfb2 = s0.dev.fbMode ∨ sentAfter t = some ⟨text.length, text⟩)

/-- At every moment up to the first start. -/
structure Guarded (b : Board) (s0 : St) (t : Tr Op Ans) : Prop where
  along : Along (fun t ev => applied t = false → Standing b s0 (t ++ [ev])) [] t

theorem Guarded.snoc (h : Guarded b s0 t) (hev : applied t = false → Standing b s0 (t ++ [ev])) :
    Guarded b s0 (t ++ [ev]) :=
  ⟨along_append.mpr ⟨h.along, along_single.mpr hev⟩⟩

theorem Guarded.standing (h : Guarded b s0 (t ++ [ev])) (ht : applied t = false) :
    Standing b s0 (t ++ [ev]) := by
  have hlast := along_single.mp (along_append.mp h.along).2
  exact hlast ht

theorem Guarded.take (h : Guarded b s0 t) (k : Nat) : Guarded b s0 (t.take k) := by
  have halong := h.along
  rw [← List.take_append_drop k t] at halong
  exact ⟨(along_append.mp halong).1⟩

theorem standing_of_untouched (hs : Settled s0) (h : Untouched s0 (driverAfter b s0 t)) :
    Standing b s0 t :=
  ⟨[], h.outcome hs [], .inl (h.bfb2.trans hs)⟩

end

theorem Sends.driver {d : St} {req : AduDriverRequest} {Q E : St → Prop}
    (h : Sends b [req] d Q E) :
    ((nxAzureIotAduAgentDriver b req d).1 = nxSuccess → Q (nxAzureIotAduAgentDriver b req d).2) ∧
      ((nxAzureIotAduAgentDriver b req d).1 ≠ nxSuccess →
        E (nxAzureIotAduAgentDriver b req d).2) := by
  have hok := h.ok
  have hfailed := h.failed
  rw [sendAll_single] at hok hfailed
  exact ⟨hok, hfailed⟩

/-! ## The handler -/

/-- The client works for the driver `ad` and no firmware is ready; the download client's
variables are in `I`. As long as the device runs, what was sent and the device are in `F`. -/
structure Keeping (b : Board) (s0 : St) (ad : Nat) (I : DlStatics B → Prop)
    (F : Option Sent → St → Prop) (s : Web.St B) (t : Tr Op Ans) : Prop where
  driver : s.ota.aduDriver = some ad
  not_ready : s.ota.firmwareReady = false
  dl : I s.dl
  guarded : Guarded b s0 t
  untouched : applied t = false → Untouched s0 (driverAfter b s0 t)
  flash : applied t = false → F (sentAfter t) (driverAfter b s0 t)

section
variable {ad : Nat} {I : DlStatics B → Prop} {F F' : Option Sent → St → Prop}

theorem Keeping.not_driver (hs : Settled s0) {s : Web.St B} {t : Tr Op Ans} {op : Op} {a : Ans op}
    (h : Keeping b s0 ad I F s t) (hop : ∀ ad req, op ≠ .aduDriver ad req) :
    Keeping b s0 ad I F s (t ++ [⟨op, a⟩]) := by
  obtain ⟨hstep, hsent, hev⟩ :=
    steps_of_not_driver (b := b) (a := a) hop (driverAfter b s0 t) (sentAfter t)
  have hafter : driverAfter b s0 (t ++ [⟨op, a⟩]) = driverAfter b s0 t := by
    rw [driverAfter_snoc, hstep]
  have happlied : applied (t ++ [⟨op, a⟩]) = applied t := by
    rw [applied_snoc, hev, Bool.or_false]
  refine ⟨h.driver, h.not_ready, h.dl, h.guarded.snoc fun ht => ?_, ?_, ?_⟩
  · refine standing_of_untouched hs ?_
    rw [hafter]
    exact h.untouched ht
  · rw [happlied, hafter]
    exact h.untouched
  · rw [happlied, hafter, sentAfter_snoc, hsent]
    exact h.flash

theorem Keeping.stable (hs : Settled s0)
    (hI : ∀ dl buffer dataLength, I dl → I { dl with buffer, dataLength }) :
    Stable (Keeping (B := B) b s0 ad I F) := by
  refine ⟨fun s t op a hop h => ?_, fun s t b dl h => { h with dl := hI _ b dl h.dl },
    fun s t b h => { h with }⟩
  refine h.not_driver hs ?_
  rintro ad req rfl
  cases hop

theorem Keeping.weaken {I' : DlStatics B → Prop} {s : Web.St B} {t : Tr Op Ans}
    (h : Keeping b s0 ad I F s t) (hI : ∀ dl, I dl → I' dl) (hF : ∀ f d, F f d → F' f d) :
    Keeping b s0 ad I' F' s t := { h with dl := hI _ h.dl, flash := fun ht => hF _ _ (h.flash ht) }

/-- What a command does to what was sent and to the device, whether it succeeds or not. -/
structure Brings (b : Board) (s0 : St) (req : AduDriverRequest) (F F' : Option Sent → St → Prop) :
    Prop where
  stays : req.command ≠ .driverApply
  sends : ∀ f d, Untouched s0 d → F f d → Sends b [req] d
    (fun d' => Untouched d d' ∧ F' (Sent.after f req nxSuccess) d') (Untouched d)

/-- The driver answers the commands, on a device that was not about to start another bank. -/
structure Driven (b : Board) (s0 : St) (ans : Tr Op Ans → (op : Op) → Ans op) : Prop where
  lawful : b.Lawful
  settled : Settled s0
  driver : ∀ t ad req, ans t (.aduDriver ad req) =
    (nxAzureIotAduAgentDriver b req (driverAfter b s0 t)).1

variable {ans : Tr Op Ans → (op : Op) → Ans op} {A : Tr Op Ans → Ev Op Ans → Prop}
  {E : Web.St B → Tr Op Ans → Prop}

/-- A call at which nothing else runs. -/
theorem triple_call {op : Op} {P : Web.St B → Tr Op Ans → Prop}
    {Q : Ans op → Web.St B → Tr Op Ans → Prop}
    (h : ∀ s t, P s t → Q (ans t op) s (t ++ [⟨op, ans t op⟩])) :
    Triple (.sequential ans) A E P (Prog.call op) Q :=
  .of_call fun s t hP _ _ _ _ => h s t hP

/-- A command, and the status that the driver writes for it. -/
theorem triple_sendDriver (hW : Driven b s0 ans) {ad : Nat} {req : AduDriverRequest}
    {P : Web.St B → Tr Op Ans → Prop} {Q : UINT → Web.St B → Tr Op Ans → Prop}
    (h : ∀ s t status, P s t → status = (nxAzureIotAduAgentDriver b req (driverAfter b s0 t)).1 →
      Q status s (t ++ [⟨.aduDriver ad req, status⟩]))
    (hQ : ∀ status s t, Q status s t →
      Q status (s.setOta ({ · with adudr := { req with status } })) t) :
    Triple (.sequential ans) A E P (sendDriver ad req) Q :=
  rule_sendDriver (triple_call fun s t hP => h s t _ hP (hW.driver t ad req)) hQ

theorem Keeping.command (hs : Settled s0) {req : AduDriverRequest} (hreq : Brings b s0 req F F')
    {s : Web.St B} {t : Tr Op Ans} (ad' : Nat) (h : Keeping b s0 ad I F s t) {status : UINT}
    (hstatus : status = (nxAzureIotAduAgentDriver b req (driverAfter b s0 t)).1) :
    Keeping b s0 ad I (fun _ _ => True) s (t ++ [⟨.aduDriver ad' req, status⟩]) ∧
      (status = nxSuccess → Keeping b s0 ad I F' s (t ++ [⟨.aduDriver ad' req, status⟩])) := by
  have hev : applies ⟨.aduDriver ad' req, status⟩ = false := beq_false_of_ne hreq.stays
  have happlied : applied (t ++ [⟨.aduDriver ad' req, status⟩]) = applied t := by
    rw [applied_snoc, hev, Bool.or_false]
  have hsends := fun ht => (hreq.sends _ _ (h.untouched ht) (h.flash ht)).driver
  rw [← hstatus] at hsends
  have huntouched : applied t = false →
      Untouched s0 (driverAfter b s0 (t ++ [⟨.aduDriver ad' req, status⟩])) := by
    intro ht
    rw [driverAfter_snoc]
    refine (h.untouched ht).trans ?_
    by_cases hok : status = nxSuccess
    · exact ((hsends ht).1 hok).1
    · exact (hsends ht).2 hok
  have hkeeping : Keeping b s0 ad I (fun _ _ => True) s (t ++ [⟨.aduDriver ad' req, status⟩]) :=
    ⟨h.driver, h.not_ready, h.dl,
      h.guarded.snoc fun ht => standing_of_untouched hs (huntouched ht),
      fun ht => huntouched (happlied ▸ ht), fun _ => trivial⟩
  refine ⟨hkeeping, fun hok => { hkeeping with flash := fun ht => ?_ }⟩
  rw [happlied] at ht
  have hbrings := ((hsends ht).1 hok).2
  rw [sentAfter_snoc, driverAfter_snoc]
  show F' (Sent.after (sentAfter t) req status) _
  rw [hok]
  exact hbrings

theorem triple_sendAduDriver (hW : Driven b s0 ans) {req : AduDriverRequest}
    (hreq : Brings b s0 req F F') :
    Triple (.sequential ans) A E (Keeping (B := B) b s0 ad I F)
      (sendAduDriver req) fun status s t => Keeping b s0 ad I (fun _ _ => True) s t ∧
        (status = nxSuccess → Keeping b s0 ad I F' s t) := by
  refine .bind_get (φ := fun s => s.ota.aduDriver = some ad) (fun s t h => h.driver) fun s h0 => ?_
  rw [h0]
  refine triple_sendDriver hW (fun s t status h hstatus => ?_)
    fun status s t h => ⟨{ h.1 with }, fun hok => { h.2 hok with }⟩
  exact h.command hW.settled hreq ad hstatus

/-- An event of the file that the handler accepts has reached the device. -/
theorem triple_fireEvent (hW : Driven b s0 ans)
    (hcb : ∀ dl, I dl → dl.eventCb = some .otaFwDownloadHandler) {req : AduDriverRequest}
    {evt : IotConnectDownloadEvent} (hevt : PassesOn req evt) (hreq : Brings b s0 req F F') :
    Triple (.sequential ans) A E (Keeping (B := B) b s0 ad I F)
      (fireEvent evt) fun accepted s t => Keeping b s0 ad I (fun _ _ => True) s t ∧
        (accepted = true → Keeping b s0 ad I F' s t) := by
  have hcommand : driverCommand (B := B) evt = sendAduDriver req := by cases hevt <;> rfl
  refine .bind_get (φ := fun s => s.dl.eventCb = some .otaFwDownloadHandler)
    (fun s t h => hcb _ h.dl) fun s h0 => ?_
  rw [h0]
  show Triple _ _ _ _ (otaFwDownloadHandler evt) _
  unfold otaFwDownloadHandler
  rw [hcommand]
  refine .bind (triple_sendAduDriver hW hreq) fun status => ?_
  refine .ite (fun _ => .pure fun s t h => ⟨h.1, fun he => by cases he⟩) fun hok => ?_
  have hok : status = nxSuccess := Classical.not_not.mp hok
  refine .bind_get_any fun s1 => ?_
  cases s1.ota.userDownloadCb with
  | none => exact .pure fun s t h => ⟨h.1, fun _ => h.2 hok⟩
  | some cb =>
    refine triple_call fun s t h => ?_
    have hop : ∀ ad req, Op.userDownloadCb cb evt ≠ .aduDriver ad req := fun _ _ he => by cases he
    exact ⟨h.1.not_driver hW.settled hop, fun _ => (h.2 hok).not_driver hW.settled hop⟩

theorem triple_callHandler_status (hW : Driven b s0 ans) (status : UINT) :
    Triple (.sequential ans) A E (Keeping (B := B) b s0 ad I F)
      (callHandler .otaFwDownloadHandler (.status status)) fun _ => Keeping b s0 ad I F := by
  refine .bind (Q := fun _ => Keeping b s0 ad I F) (.pure fun s t h => h) fun _ => ?_
  refine .ite (fun _ => .pure fun s t h => h) fun _ => .bind_get_any fun s1 => ?_
  cases s1.ota.userDownloadCb with
  | none => exact .pure fun s t h => h
  | some cb => exact triple_call fun s t h => h.not_driver hW.settled fun _ _ he => by cases he

theorem triple_fireEvent_status (hW : Driven b s0 ans)
    (hcb : ∀ dl, I dl → dl.eventCb = some .otaFwDownloadHandler) (status : UINT) :
    Triple (.sequential ans) A E (Keeping (B := B) b s0 ad I F)
      (fireEvent (.status status)) fun _ => Keeping b s0 ad I F := by
  refine .bind_get (φ := fun s => s.dl.eventCb = some .otaFwDownloadHandler)
    (fun s t h => hcb _ h.dl) fun s h0 => ?_
  rw [h0]
  exact triple_callHandler_status hW status

/-! ## The download -/

/-- The first `off` bytes of `n` have been sent. -/
def Midway (b : Board) (n off : SizeT) (f : Option Sent) (d : St) : Prop :=
  ∃ text, f = some ⟨n.toNat, text⟩ ∧ text.length = off.toNat ∧ off ≤ n ∧
    Reached b n.toNat text d

/-- All of what was announced has been sent. -/
def Complete (f : Option Sent) (d : St) : Prop :=
  ∃ text, f = some ⟨text.length, text⟩ ∧ Written text d

/-- The device holds the firmware if the download succeeded. -/
def Loads (status : UINT) (f : Option Sent) (d : St) : Prop := status = nxSuccess → Complete f d

theorem brings_preprocess (hb : b.Lawful) (hs : Settled s0) (n : SizeT) :
    Brings b s0 (preprocessRequest n) F fun f d =>
      f = some ⟨n.toNat, []⟩ ∧ (0 < n.toNat → Writing b n.toNat [] d) := by
  refine ⟨by simp [preprocessRequest], fun f d hd _ => ?_⟩
  refine (sends_preprocess hb (hd.settled hs) n).mono ?_ fun d' h => h.1
  rintro d' ⟨hkept, hwriting⟩
  exact ⟨hkept.untouched, rfl, hwriting⟩

/-- A piece of the chunk buffer. -/
theorem brings_write (hb : b.Lawful) {n off : SizeT} (hlt : off < n)
    (buffer : Buf B.iotcDlDataBufferSize.toNat) :
    Brings b s0 (writeRequest buffer.bytes (chunkSize B off n) off) (Midway b n off)
      (Midway b n (off + chunkSize B off n)) := by
  refine ⟨by simp [writeRequest], ?_⟩
  rintro f d - ⟨text, rfl, hoff, -, hreached⟩
  have hlt' := UInt32.lt_iff_toNat_lt.mp hlt
  rw [Reached, if_pos (by omega)] at hreached
  have hroom := hreached.room
  have hfits := b.fits
  have hn : n ≤ 0x7FFFFFFF := by
    rw [UInt32.le_iff_toNat_le]
    simp only [UInt32.reduceToNat]
    omega
  have hsize := chunkSize_toNat B hlt hn
  have hbuffer := buffer.length_eq
  have hlen : (buffer.bytes.take (chunkSize B off n).toNat).length = (chunkSize B off n).toNat :=
    List.length_take_of_le (by omega)
  have hsum : (off + chunkSize B off n).toNat = off.toNat + (chunkSize B off n).toNat := by
    rw [UInt32.toNat_add]
    exact Nat.mod_eq_of_lt (by omega)
  refine (sends_write hb hreached hoff.symm (by omega) (by omega)).mono ?_ fun d' h => h.untouched
  rintro d' ⟨hkept, hreached'⟩
  have hlen' : (text ++ buffer.bytes.take (chunkSize B off n).toNat).length =
      (off + chunkSize B off n).toNat := by
    rw [List.length_append, hlen, hsum, hoff]
  refine ⟨hkept.untouched, _, rfl, hlen', ?_, hreached'⟩
  rw [UInt32.le_iff_toNat_le, hsum]
  omega

/-- The download client's variables in the chunk loop. -/
def Receiving (n off : SizeT) (dl : DlStatics B) : Prop :=
  dl.fileBytesReceived = off ∧ dl.fileSize = n ∧ dl.eventCb = some .otaFwDownloadHandler

theorem triple_load (hW : Driven b s0 ans) {n : SizeT} (hn : 0 < n) (r : IotConnectHttpRequest)
    (client : NxWebHttpClient) (fuel : Nat) :
    Triple (.sequential ans) A (fun _ => Guarded b s0)
      (Keeping (B := B) b s0 ad (Receiving n 0) (Midway b n 0))
      (chunkLoop r (rangeClient client) fuel) fun status =>
        Keeping b s0 ad (fun dl => dl.eventCb = some .otaFwDownloadHandler) (Loads status) := by
  refine (triple_chunkLoop_buffer (Calm.logic fun op _ => World.sequential_quiet _ op)
    (I := fun off n => Keeping b s0 ad (Receiving n off) (Midway b n off))
    (R := Keeping b s0 ad (fun dl => dl.eventCb = some .otaFwDownloadHandler) fun _ _ => True)
    (H := (· < n)) (fun off => Keeping.stable hW.settled fun _ _ _ h => h)
    (fun off s t h => h.guarded) (fun off s t h => ⟨h.dl.1, h.dl.2.1⟩) (fun _ h => h)
    (fun off buffer hlt => ?_)
    r client fuel 0 hn).post fun status s t h => ?_
  · refine (triple_fireEvent hW (fun _ h => h.2.2) (.data ..) (brings_write hW.lawful hlt
        buffer)).post ?_
    rintro (_ | _) s t ⟨hkeeping, hmidway⟩
    · exact hkeeping.weaken (fun _ h => h.2.2) fun _ _ _ => trivial
    · have hmidway := hmidway rfl
      refine { hmidway with dl := ⟨?_, hmidway.dl.2⟩ }
      rw [← hmidway.dl.1]
      rfl
  · by_cases hok : status = nxSuccess
    · rw [if_pos hok] at h
      obtain ⟨off, hge, h⟩ := h
      refine h.weaken (fun _ h => h.2.2) ?_
      rintro _ d ⟨text, rfl, hlen, hle, hreached⟩ -
      obtain rfl := UInt32.le_antisymm hle hge
      rw [← hlen] at hreached ⊢
      rw [Reached, if_neg (Nat.lt_irrefl _)] at hreached
      exact ⟨text, rfl, hreached⟩
    · rw [if_neg hok] at h
      have hany : Keeping b s0 ad (fun dl => dl.eventCb = some .otaFwDownloadHandler)
          (fun _ _ => True) s t := by
        rcases h with ⟨off, h⟩ | h
        · exact h.weaken (fun _ h => h.2.2) fun _ _ _ => trivial
        · exact h
      exact hany.weaken (fun _ h => h) fun _ _ _ he => absurd he hok

/-- The request handler loads the device when the announced size is allowed. -/
theorem triple_requestHandler (hW : Driven b s0 ans) (resume : Bool) (k : SizeT) (fuel : Nat)
    (r : IotConnectHttpRequest) (client : NxWebHttpClient) :
    Triple (.sequential ans) (HeadAllowed resume k) (fun _ => Guarded b s0)
      (Keeping (B := B) b s0 ad (fun dl => dl.fileBytesReceived = k ∧ dl.doResume = resume ∧
        dl.eventCb = some .otaFwDownloadHandler) fun _ _ => True)
      (requestHandler fuel r client) fun status =>
        Keeping b s0 ad (fun dl => dl.eventCb = some .otaFwDownloadHandler) (Loads status) := by
  refine Web.triple_requestHandler (Calm.logic fun op _ => World.sequential_quiet _ op)
    (Keeping.stable hW.settled fun _ _ _ h => h) (Z := SizeAllowed resume k)
    (J := fun n off => Keeping b s0 ad (Receiving n off) (Midway b n off))
    (K := fun n accepted => Keeping b s0 ad (fun dl => dl.fileSize = n ∧
      dl.fileBytesReceived = k ∧ dl.doResume = resume ∧ dl.eventCb = some .otaFwDownloadHandler)
      fun f d => accepted = true → 0 < n → Midway b n 0 f d)
    (fun s t _ _ h _ _ => h.guarded) (fun s t n h => { h with })
    (fun t d n hA htold hd => hA d n rfl htold hd)
    (fun status s t hne h => h.weaken (fun _ h => h.2.2) fun _ _ _ he => absurd he hne)
    (fun n _ => ?_) (fun n s t h => ⟨h.dl.1, h.dl.2.1, h.dl.2.2.1⟩)
    (fun n s t _ h => h.weaken (fun _ h => h.2.2.2) fun _ _ _ he => absurd he (by decide))
    (fun n s t _ _ _ h => h.weaken (fun _ h => h.2.2.2) fun _ _ _ he => absurd he (by decide))
    (fun n s t hallowed hres h => ?_) (fun n s t hallowed hres hlt h => ?_) r client fuel
    fun n start hallowed hstart hlt => ?_
  · refine ((triple_fireEvent (I := fun dl => dl.fileSize = n ∧ dl.fileBytesReceived = k ∧
      dl.doResume = resume ∧ dl.eventCb = some .otaFwDownloadHandler) (F := fun _ _ => True) hW
      (fun _ h => h.2.2.2) (.fileSize n) (brings_preprocess hW.lawful hW.settled n)).pre
        fun s t ⟨hn, h⟩ =>
        { h with dl := ⟨hn, h.dl⟩ }).post fun accepted s t ⟨h, hacc⟩ => ?_
    cases accepted with
    | false => exact h.weaken (fun _ h => h) fun _ _ _ he => by cases he
    | true =>
      refine (hacc rfl).weaken (fun _ h => h) ?_
      rintro _ d ⟨rfl, hwriting⟩ - hn
      have hpos : ([] : List UInt8).length < n.toNat := UInt32.lt_iff_toNat_lt.mp hn
      refine ⟨[], rfl, rfl, UInt32.le_of_lt hn, ?_⟩
      rw [Reached, if_pos hpos]
      exact hwriting hpos
  · rw [hres, SizeAllowed, if_neg (by decide)] at hallowed
    refine { h with dl := ⟨rfl, h.dl.1, h.dl.2.2.2⟩, flash := fun ht => ?_ }
    exact h.flash ht rfl (UInt32.pos_iff_ne_zero.mpr hallowed)
  · obtain ⟨rfl, -⟩ := hallowed.start (by rw [if_pos hres]) fun _ => hlt
    refine { h with dl := ⟨h.dl.2.1, h.dl.1, h.dl.2.2.2⟩, flash := fun ht => ?_ }
    exact h.flash ht rfl hlt
  · obtain ⟨rfl, hn⟩ := hallowed.start hstart hlt
    exact triple_load hW (UInt32.pos_iff_ne_zero.mpr hn) r client fuel

/-- A download for the driver loads the device when the announced size is allowed. -/
theorem triple_iotcDownload (hW : Driven b s0 ans) (resume : Bool) (k : SizeT) (fuel : Nat)
    (r : Option IotConnectHttpRequest) :
    Triple (.sequential ans) (HeadAllowed resume k) (fun _ => Guarded b s0)
      (Keeping (B := B) b s0 ad (fun dl => dl.fileBytesReceived = k ∧ dl.eventCb = none)
        fun _ _ => True)
      (iotcDownload fuel r (some .otaFwDownloadHandler) resume) fun status =>
        Keeping b s0 ad (fun dl => dl.eventCb = none) (Loads status) := by
  refine Web.spec_iotcDownload (J := Keeping b s0 ad (fun dl => dl.fileBytesReceived = k ∧
    dl.doResume = resume ∧ dl.eventCb = some .otaFwDownloadHandler) fun _ _ => True)
    (K := fun status => Keeping b s0 ad (fun dl => dl.eventCb = some .otaFwDownloadHandler)
      (Loads status))
    (fun status hne => ?_) (fun s t _ h => { h with dl := ⟨h.dl.1, rfl, rfl⟩ }) (fun r => ?_)
    (fun status => triple_fireEvent_status hW (fun _ h => h) status)
    (fun status s t h => { h with dl := rfl }) r
  · refine .bind (triple_callHandler_status hW _) fun _ => .pure fun s t h => ?_
    exact h.weaken (fun _ h => h.2) fun _ _ _ he => absurd he hne
  · exact triple_iotconnectHttpsRequest (Calm.logic fun op _ => World.sequential_quiet _ op)
      (Keeping.stable hW.settled fun _ _ _ h => h)
      (fun status => (Keeping.stable hW.settled fun _ _ _ h => h).delete)
      (fun status s t hne h => h.weaken (fun _ h => h.2.2) fun _ _ _ he => absurd he hne) r
      (triple_requestHandler hW resume k fuel r {})

end

/-! ## The interface -/

/-- Between two calls: nothing is downloading, and a ready firmware is complete. -/
structure Idle (b : Board) (s0 : St) (s : Web.St B) (t : Tr Op Ans) : Prop where
  event_cb : s.dl.eventCb = none
  guarded : Guarded b s0 t
  untouched : applied t = false → Untouched s0 (driverAfter b s0 t)
  ready : s.ota.firmwareReady → applied t = false → Complete (sentAfter t) (driverAfter b s0 t)

/-- No firmware is ready, and the next download starts at `k`. -/
structure Unready (b : Board) (s0 : St) (k : SizeT) (s : Web.St B) (t : Tr Op Ans) : Prop where
  event_cb : s.dl.eventCb = none
  offset : s.dl.fileBytesReceived = k
  guarded : Guarded b s0 t
  untouched : applied t = false → Untouched s0 (driverAfter b s0 t)
  not_ready : s.ota.firmwareReady = false

section
variable {ans : Tr Op Ans → (op : Op) → Ans op} {A : Tr Op Ans → Ev Op Ans → Prop}

theorem Unready.idle {k : SizeT} {s : Web.St B} {t : Tr Op Ans} (h : Unready b s0 k s t) :
    Idle b s0 s t := by
  refine ⟨h.event_cb, h.guarded, h.untouched, fun hready => ?_⟩
  rw [h.not_ready] at hready
  cases hready

/-- A call that leaves the device as it is. -/
theorem Unready.snoc (hs : Settled s0) {k : SizeT} {s : Web.St B} {t : Tr Op Ans} {ev : Ev Op Ans}
    (h : Unready b s0 k s t) (hev : applies ev = false) (hstep : ∀ d, driverStep b d ev = d) :
    Unready b s0 k s (t ++ [ev]) := by
  have hafter : driverAfter b s0 (t ++ [ev]) = driverAfter b s0 t := by
    rw [driverAfter_snoc, hstep]
  refine ⟨h.event_cb, h.offset, h.guarded.snoc fun ht => ?_, ?_, h.not_ready⟩
  · refine standing_of_untouched hs ?_
    rw [hafter]
    exact h.untouched ht
  · rw [applied_snoc, hev, Bool.or_false, hafter]
    exact h.untouched

theorem triple_rejectFwDownload (hW : Driven b s0 ans) (k : SizeT) (cb : Option Nat)
    (status : UINT) :
    Triple (.sequential ans) A (fun _ => Guarded b s0)
      (Unready (B := B) b s0 k) (rejectFwDownload cb status) fun _ => Idle b s0 := by
  cases cb with
  | none => exact .pure fun s t h => h.idle
  | some cb =>
    refine .bind (Q := fun _ => Unready b s0 k) (triple_call fun s t h => ?_) fun _ =>
      .pure fun s t h => h.idle
    exact h.snoc hW.settled rfl fun _ => rfl

theorem triple_iotcOtaFwDownload (hW : Driven b s0 ans) (fuel : Nat)
    (r : Option IotConnectHttpRequest) (ad : Option Nat) (resume : Bool) (cb : Option Nat)
    (k : SizeT) :
    Triple (.sequential ans) (HeadAllowed resume k) (fun _ => Guarded b s0)
      (fun s t => s.dl.fileBytesReceived = k ∧ Idle (B := B) b s0 s t)
      (iotcOtaFwDownload fuel r ad resume cb) fun _ => Idle b s0 := by
  refine .bind (Q := fun _ => Unready b s0 k)
    (.modify fun s t h => ⟨h.2.event_cb, h.1, h.2.guarded, h.2.untouched, rfl⟩) fun _ => ?_
  refine .bind_get (φ := fun s => s.ota.firmwareReady = false) (fun s t h => h.not_ready)
    fun s1 h1 => ?_
  refine .ite (fun _ => triple_rejectFwDownload hW k cb _) fun _ => ?_
  cases ad with
  | none => exact triple_rejectFwDownload hW k cb _
  | some ad =>
    refine .ite (fun _ => triple_rejectFwDownload hW k cb _) fun _ => ?_
    refine rule_acceptFwDownload (K := fun _ => Unready b s0 k) (J := Keeping b s0 ad (fun dl =>
      dl.fileBytesReceived = k ∧ dl.eventCb = none) fun _ _ => True)
      (triple_sendDriver hW (fun s t status h _ => h.snoc hW.settled rfl fun _ => rfl)
        fun _ s t h => { h with })
      (fun _ s t _ h => h.idle) (fun s t h => ?_) (triple_iotcDownload hW resume k fuel r)
      (fun s t h => ?_) fun status s t h => ?_
    · exact ⟨rfl, h.not_ready, ⟨h.offset, h.event_cb⟩, h.guarded, h.untouched, fun _ => trivial⟩
    · exact ⟨h.dl, h.guarded, h.untouched, fun _ ht => h.flash ht rfl⟩
    · refine ⟨h.dl, h.guarded, h.untouched, fun hready => ?_⟩
      rw [St.setOta_ota, h.not_ready] at hready
      cases hready

/-- After an INSTALL: a firmware that was sent whole is to be started. -/
structure Installing (b : Board) (s0 : St) (s : Web.St B) (t : Tr Op Ans) : Prop where
  event_cb : s.dl.eventCb = none
  guarded : Guarded b s0 t
  chosen : applied t = false → ∃ text, sentAfter t = some ⟨text.length, text⟩ ∧
    Outcome s0 text (driverAfter b s0 t).dev

/-- What an INSTALL that ends with `status` leaves. -/
structure InstallEnds (b : Board) (s0 : St) (status : UINT) (s : Web.St B)
    (t : Tr Op Ans) : Prop where
  installing : status = nxSuccess → Installing b s0 s t
  event_cb : s.dl.eventCb = none
  guarded : Guarded b s0 t
  untouched : status ≠ nxSuccess → applied t = false → Untouched s0 (driverAfter b s0 t)

/-- The INSTALL of a complete firmware. -/
theorem Idle.install (hb : b.Lawful) (hs : Settled s0) {ad : Nat} {s : Web.St B} {t : Tr Op Ans}
    (h : Idle b s0 s t) (hready : s.ota.firmwareReady = true) {status : UINT}
    (hstatus : status = (nxAzureIotAduAgentDriver b installRequest (driverAfter b s0 t)).1) :
    InstallEnds b s0 status s
      (t ++ [⟨.aduDriver ad installRequest, status⟩]) := by
  have happlied : applied (t ++ [⟨.aduDriver ad installRequest, status⟩]) = applied t := by
    rw [applied_snoc]
    exact Bool.or_false _
  have hsends := fun ht => (sends_install hb ((h.untouched ht).settled hs)).driver
  rw [← hstatus] at hsends
  have huntouched : status ≠ nxSuccess → applied t = false →
      Untouched s0 (driverAfter b s0 (t ++ [⟨.aduDriver ad installRequest, status⟩])) := by
    intro hne ht
    rw [driverAfter_snoc]
    exact (h.untouched ht).trans ((hsends ht).2 hne).1
  have hchosen : status = nxSuccess → applied t = false →
      ∃ text, sentAfter t = some ⟨text.length, text⟩ ∧
        Outcome s0 text (nxAzureIotAduAgentDriver b installRequest (driverAfter b s0 t)).2.dev := by
    intro hok ht
    obtain ⟨text, hsent, hwritten⟩ := h.ready hready ht
    exact ⟨text, hsent, ((hsends ht).1 hok).outcome (h.untouched ht) hwritten⟩
  have hguarded : Guarded b s0 (t ++ [⟨.aduDriver ad installRequest, status⟩]) := by
    refine h.guarded.snoc fun ht => ?_
    by_cases hok : status = nxSuccess
    · obtain ⟨text, hsent, hout⟩ := hchosen hok ht
      rw [Standing, driverAfter_snoc, sentAfter_snoc]
      exact ⟨text, hout, .inr hsent⟩
    · exact standing_of_untouched hs (huntouched hok ht)
  refine ⟨fun hok => ⟨h.event_cb, hguarded, fun ht => ?_⟩, h.event_cb, hguarded,
    fun hne ht => huntouched hne (happlied ▸ ht)⟩
  rw [driverAfter_snoc, sentAfter_snoc]
  exact hchosen hok (happlied ▸ ht)

/-- The APPLY that follows it: the device starts anew. -/
theorem Installing.apply (hb : b.Lawful) {ad : Nat} {s : Web.St B} {t : Tr Op Ans}
    {status : UINT} (h : Installing b s0 s t) :
    Idle b s0 s (t ++ [⟨.aduDriver ad applyRequest, status⟩]) := by
  have happlied : applied (t ++ [⟨.aduDriver ad applyRequest, status⟩]) = true := by
    rw [applied_snoc]
    exact Bool.or_true _
  refine ⟨h.event_cb, h.guarded.snoc fun ht => ?_, ?_, ?_⟩
  · obtain ⟨text, hsent, hout⟩ := h.chosen ht
    have hreset := (sends_apply (b := b) (s := driverAfter b s0 t)).driver
    have hstep : (nxAzureIotAduAgentDriver b applyRequest (driverAfter b s0 t)).2 =
        { vars := {}, dev := (driverAfter b s0 t).dev.unlock.obUnlock.reset b } := by
      by_cases hok : (nxAzureIotAduAgentDriver b applyRequest (driverAfter b s0 t)).1 = nxSuccess
      · exact hreset.1 hok
      · exact (hreset.2 hok).elim
    rw [Standing, driverAfter_snoc, sentAfter_snoc]
    refine ⟨text, ?_, .inr hsent⟩
    show Outcome s0 text (nxAzureIotAduAgentDriver b applyRequest (driverAfter b s0 t)).2.dev
    rw [hstep]
    exact hout.reset hb
  · intro ht
    rw [happlied] at ht
    cases ht
  · intro _ ht
    rw [happlied] at ht
    cases ht

theorem triple_iotcOtaFwApply (hW : Driven b s0 ans) :
    Triple (.sequential ans) A (fun _ => Guarded b s0) (Idle (B := B) b s0)
      iotcOtaFwApply fun _ => Idle b s0 := by
  refine rule_iotcOtaFwApply (K := InstallEnds b s0) (T := fun _ => Idle b s0) (fun s t _ h => h)
    (fun ad => triple_sendDriver hW (fun s t status h hstatus => ?_) fun status s t h => ?_)
    (fun status s t hne h => ?_)
    (fun ad => triple_sendDriver hW (fun s t status h _ => ?_) fun _ s t h => { h with })
    fun _ s t h => ⟨h.event_cb, h.guarded, h.untouched, fun hready => by cases hready⟩
  · obtain ⟨-, hready, h⟩ := h
    exact h.install hW.lawful hW.settled hready hstatus
  · exact { h with installing := fun hok => { h.installing hok with } }
  · exact ⟨h.event_cb, h.guarded, h.untouched hne, fun hready => by cases hready⟩
  · exact (h.installing rfl).apply hW.lawful

theorem triple_iotcOtaFwCancel :
    Triple (.sequential ans) A (fun _ => Guarded b s0) (Idle (B := B) b s0)
      iotcOtaFwCancel fun _ => Idle b s0 := by
  refine .bind_get_any fun s1 => .ite (fun _ => .pure fun s t h => h) fun _ => ?_
  refine .bind (Q := fun _ => Idle b s0) (.modify fun s t h => ?_) fun _ => .pure fun s t h => h
  exact ⟨h.event_cb, h.guarded, h.untouched, fun hready => by cases hready⟩

end

/-- A trace of the OTA client on a device in `s0`. -/
def otaTrace (b : Board) (s0 : St) (rest : Tr Op Ans → (op : Op) → Ans op) (fuel : Nat)
    (cs : List OtaCall) : Tr Op Ans :=
  ((session (api fuel) cs).run (.sequential (withDriver b s0 rest)) (Web.St.init B) []).tr

theorem guarded_otaTrace (hb : b.Lawful) (hs : Settled s0)
    (rest : Tr Op Ans → (op : Op) → Ans op) (fuel : Nat) (cs : List OtaCall)
    (h : SessionAlong (.sequential (withDriver b s0 rest)) (api fuel) CallAllowed cs
      (Web.St.init B) []) :
    Guarded b s0 (otaTrace (B := B) b s0 rest fuel cs) := by
  have hW : Driven b s0 (withDriver b s0 rest) := ⟨hb, hs, fun _ _ _ => rfl⟩
  have hinit : Idle b s0 (Web.St.init B) [] :=
    ⟨rfl, ⟨.nil⟩, fun _ => Untouched.refl s0, fun hready => by cases hready⟩
  have hsat := h.sat (E := fun _ => Guarded b s0) (fun c s1 => ?_) hinit
  · unfold otaTrace
    generalize (session (api fuel) cs).run _ (Web.St.init B) [] = o at hsat
    obtain ⟨r, s, t⟩ := o
    cases r with
    | ok _ => exact hsat.guarded
    | error e => exact hsat
  · cases c with
    | download r ad resume cb =>
      exact (triple_iotcOtaFwDownload hW fuel r ad resume cb s1.dl.fileBytesReceived).pre
        fun s t h => ⟨congrArg (·.dl.fileBytesReceived) h.1, h.2⟩
    | apply => exact (triple_iotcOtaFwApply hW).pre fun s t h => h.2
    | cancel => exact triple_iotcOtaFwCancel.pre fun s t h => h.2

/-- Wherever a session is cut short, at the latest by the first APPLY, the next start runs the
program that ran or the firmware that was announced last, sent whole. -/
theorem session_intact (b : Board) (hb : b.Lawful) (prog : List UInt8) (s0 : St)
    (rest : Tr Op Ans → (op : Op) → Ans op) (fuel : Nat) (cs : List OtaCall) (k : Nat)
    (hrun : Running b prog s0)
    (h : SessionAlong (.sequential (withDriver b s0 rest)) (api fuel) CallAllowed cs
      (Web.St.init B) []) :
    let t := (otaTrace (B := B) b s0 rest fuel cs).take k
    let s := boot b (driverAfter b s0 t)
    applied t.dropLast = false → Settled s →
      (Running b prog s ∨ ∃ text, sentAfter t = some ⟨text.length, text⟩ ∧ Running b text s) ∧
        s.dev.misuses = s0.dev.misuses := by
  intro t s ht hsettled
  have hguarded : Guarded b s0 t := (guarded_otaTrace hb hrun.settled rest fuel cs h).take k
  have hstanding : Standing b s0 t := by
    rcases t.eq_nil_or_concat with hnil | ⟨init, ev, hsnoc⟩
    · rw [hnil]
      exact standing_of_untouched hrun.settled (.refl s0)
    · rw [hsnoc, List.concat_eq_append] at hguarded ht ⊢
      rw [List.dropLast_concat] at ht
      exact hguarded.standing ht
  obtain ⟨text, hout, hsent⟩ := hstanding
  obtain ⟨hboots, hmisuses⟩ := hrun.boots hb hout hsettled
  refine ⟨hboots.imp_right ?_, hmisuses⟩
  rintro ⟨hother, hnew⟩
  -- a start of the other bank needs an INSTALL before it
  refine ⟨text, hsent.resolve_left fun hold => ?_, hnew⟩
  exact Bank.other_ne _ (hother.symm.trans hold)

/-- The download of a firmware of three bytes and its installation. -/
def threeCalls : List OtaCall := [.download (some fileRequest) (some 0) false (some 0), .apply]

def threeBytes : Tr Op Ans → (op : Op) → Ans op := fun _ => allGood (headOf "3") (chunkOf [1, 2, 3])

theorem allowed_threeCalls : SessionAlong
    (.sequential (withDriver (smallBoard []) ⟨{}, smallDevice⟩ threeBytes)) (api 10) CallAllowed
    threeCalls (Web.St.init .default) [] := by
  refine .of_answers ?_ _ _
  intro c hc s t op t'
  rcases List.mem_cons.mp hc with rfl | hc
  · intro d n hev _ hn
    obtain ⟨rfl, hd⟩ := Sigma.mk.inj hev
    obtain rfl := eq_of_heq hd
    obtain rfl := Except.ok.inj (headOf_three.symm.trans hn)
    rw [SizeAllowed, if_neg (by decide)]
    decide
  · obtain rfl := List.mem_singleton.mp hc
    trivial

theorem session_intact_three :
    let t := (otaTrace (B := .default) (smallBoard []) ⟨{}, smallDevice⟩ threeBytes 10
      threeCalls).take 23
    let s := boot (smallBoard []) (driverAfter (smallBoard []) ⟨{}, smallDevice⟩ t)
    s.dev.fbMode = .bank2 ∧
    (List.range 4).map (s.dev.cells .bank2) = [.holds 1, .holds 2, .holds 3, .holds 0xFF] ∧
    (Running (smallBoard []) [7, 8, 9] s ∨
      ∃ text, sentAfter t = some ⟨text.length, text⟩ ∧ Running (smallBoard []) text s) ∧
      s.dev.misuses = 0 :=
  ⟨by decide +kernel, by decide +kernel,
    session_intact (smallBoard []) (smallBoard_lawful []) [7, 8, 9] ⟨{}, smallDevice⟩ threeBytes
      10 threeCalls 23 (running_small []) allowed_threeCalls (by decide +kernel) (by decide +kernel)⟩

end Iotc.Stm32
