import Iotc.Lib.Ranges
import Iotc.Ota.Rules

/-!
# What the driver's flash holds

The abstract driver: PREPROCESS erases the flash and announces a firmware size, a WRITE
answered with success adds its range, and an INSTALL is safe when the flash is complete.
The state of the driver `ad` is a fold over the trace of the commands sent to it.
-/

namespace Iotc.Ota

open Iotc.C Iotc.Lib Iotc.Resume Iotc.Web

variable {B : Build}

/-- The size announced by the last PREPROCESS and the ranges written since. -/
structure Flash where
  firmwareSize : Nat
  written : List (Nat × Nat)
  deriving DecidableEq

namespace Flash

/-- The flash after a command and the driver's answer to it. -/
def after (f : Option Flash) (req : AduDriverRequest) (status : UINT) : Option Flash :=
  match req.command with
  | .driverPreprocess => some ⟨req.firmwareSize.toNat, []⟩
  | .driverWrite =>
    if status = nxSuccess then
      f.map fun f => { f with written :=
        f.written ++ [(req.firmwareDataOffset.toNat, req.firmwareDataSize.toNat)] }
    else f
  | _ => f

/-- Every byte of a firmware of at least one byte has been written. -/
structure Complete (f : Flash) : Prop where
  pos : 0 < f.firmwareSize
  covers : Covers 0 f.written f.firmwareSize

end Flash

/-- The flash of the driver `ad` after one event of the trace. -/
def flashStep (ad : Nat) (f : Option Flash) : Ev Op Ans → Option Flash
  | ⟨.aduDriver ad' req, status⟩ => if ad' = ad then Flash.after f req status else f
  | _ => f

def flash (ad : Nat) (t : Tr Op Ans) : Option Flash := t.foldl (flashStep ad) none

@[simp] theorem flash_snoc (ad : Nat) (t : Tr Op Ans) (ev : Ev Op Ans) :
    flash ad (t ++ [ev]) = flashStep ad (flash ad t) ev := by
  simp [flash, List.foldl_append]

/-- Only driver commands change the flash. -/
theorem flashStep_of_not_driver {ad : Nat} {f : Option Flash} {op : Op} {a : Ans op}
    (h : ∀ ad req, op ≠ .aduDriver ad req) : flashStep ad f ⟨op, a⟩ = f := by
  cases op <;> first | rfl | exact absurd rfl (h _ _)

/-- The driver an INSTALL is sent to. -/
def installed : Ev Op Ans → Option Nat
  | ⟨.aduDriver ad req, _⟩ => if req.command = .driverInstall then some ad else none
  | _ => none

theorem installed_driver {ad : Nat} {req : AduDriverRequest} {status : UINT} :
    installed ⟨.aduDriver ad req, status⟩ =
      if req.command = .driverInstall then some ad else none := rfl

/-- When the event is an INSTALL, the flash is complete. -/
def InstallsComplete (t : Tr Op Ans) (ev : Ev Op Ans) : Prop :=
  ∀ ad, installed ev = some ad → ∃ f, flash ad t = some f ∧ f.Complete

/-- Every INSTALL of a trace is sent to a driver with a complete flash. -/
structure InstallSafe (t : Tr Op Ans) : Prop where
  along : Along InstallsComplete [] t

theorem InstallSafe.snoc {t : Tr Op Ans} {ev : Ev Op Ans} (h : InstallSafe t)
    (hev : InstallsComplete t ev) : InstallSafe (t ++ [ev]) :=
  ⟨along_append.mpr ⟨h.along, along_single.mpr hev⟩⟩

theorem InstallSafe.snoc_of_not_install {t : Tr Op Ans} {ev : Ev Op Ans} (h : InstallSafe t)
    (hev : installed ev = none) : InstallSafe (t ++ [ev]) :=
  h.snoc fun ad had => by rw [hev] at had; cases had

/-- The flash at the INSTALL in position `k`. -/
theorem InstallSafe.complete_at {t : Tr Op Ans} (h : InstallSafe t) (k ad : Nat)
    (hk : t[k]?.bind installed = some ad) : ∃ f, flash ad (t.take k) = some f ∧ f.Complete := by
  obtain ⟨ev, hev, had⟩ := Option.bind_eq_some_iff.mp hk
  obtain ⟨hlt, rfl⟩ := List.getElem?_eq_some_iff.mp hev
  have hsplit : t.take k ++ t[k] :: t.drop (k + 1) = t := by
    rw [← List.drop_eq_getElem_cons hlt, List.take_append_drop]
  rw [← hsplit] at h
  have hev := h.along.split
  rw [List.nil_append] at hev
  exact hev ad had

/-! ## The download event handler -/

/-- The client works for the driver `ad` and no firmware is ready; the download client's
variables are in `I`, the flash is in `F`. -/
structure Holding (ad : Nat) (I : DlStatics B → Prop) (F : Option Flash → Prop) (s : St B)
    (t : Tr Op Ans) : Prop where
  driver : s.ota.aduDriver = some ad
  not_ready : s.ota.firmwareReady = false
  dl : I s.dl
  safe : InstallSafe t
  flash : F (flash ad t)

section
variable {ad : Nat} {I : DlStatics B → Prop} {F : Option Flash → Prop}

theorem Holding.not_driver {s : St B} {t : Tr Op Ans} {op : Op} {a : Ans op}
    (h : Holding ad I F s t) (hop : ∀ ad req, op ≠ .aduDriver ad req) :
    Holding ad I F s (t ++ [⟨op, a⟩]) := by
  obtain ⟨had, hready, hI, hsafe, hF⟩ := h
  refine ⟨had, hready, hI, hsafe.snoc_of_not_install ?_, ?_⟩
  · cases op <;> first | rfl | exact absurd rfl (hop _ _)
  rwa [flash_snoc, flashStep_of_not_driver hop]

theorem Holding.stable (hI : ∀ dl buffer dataLength, I dl → I { dl with buffer, dataLength }) :
    Stable (Holding (B := B) ad I F) := by
  refine ⟨fun s t op a hop h => ?_, fun s t b dl h => { h with dl := hI _ b dl h.dl },
    fun s t b h => { h with }⟩
  exact h.not_driver fun ad req he => by subst he; cases hop

theorem Holding.weaken {F' : Option Flash → Prop} {I' : DlStatics B → Prop} {s : St B}
    {t : Tr Op Ans} (h : Holding ad I F s t) (hI : ∀ dl, I dl → I' dl) (hF : ∀ f, F f → F' f) :
    Holding ad I' F' s t := { h with dl := hI _ h.dl, flash := hF _ h.flash }

variable {W : World Op Ans (St B)} {A : Tr Op Ans → Ev Op Ans → Prop}
  {E : St B → Tr Op Ans → Prop}

/-- A command other than INSTALL acts on the flash as `Flash.after` says. -/
theorem triple_sendAduDriver (hW : ∀ op, W.Quiet op) {req : AduDriverRequest}
    (hreq : req.command ≠ .driverInstall) :
    Triple W A E (Holding ad I F) (sendAduDriver req) fun status =>
      Holding ad I fun f' => ∃ f, F f ∧ f' = Flash.after f req status := by
  refine .bind_get (φ := fun s => s.ota.aduDriver = some ad) (fun s t h => h.driver) fun s0 h0 => ?_
  rw [h0]
  refine .bind (Q := fun status => Holding ad I fun f' => ∃ f, F f ∧ f' = Flash.after f req status)
    (.call_quiet (hW _) ?_) fun status => .bind (.modify fun s t h => { h with }) fun _ =>
      .pure fun s t h => h
  rintro s t status ⟨had, hready, hI, hsafe, hF⟩ -
  refine ⟨had, hready, hI, hsafe.snoc_of_not_install (if_neg hreq), ?_⟩
  · rw [flash_snoc]
    exact ⟨_, hF, if_pos rfl⟩

/-- The flash after an event that the driver took: PREPROCESS for FILE_SIZE, WRITE for DATA. -/
def Flash.afterEvent (f : Option Flash) : IotConnectDownloadEvent → Option Flash
  | .fileSize fileSize => Flash.after f (preprocessRequest fileSize) nxSuccess
  | .data dataPtr dataSize offset _ =>
    Flash.after f (writeRequest dataPtr dataSize offset) nxSuccess
  | _ => f

theorem triple_driverCommand (hW : ∀ op, W.Quiet op) (evt : IotConnectDownloadEvent) :
    Triple W A E (Holding ad I F) (driverCommand evt) fun status s t =>
      Holding ad I (fun _ => True) s t ∧
      (status = nxSuccess →
        Holding ad I (fun f' => ∃ f, F f ∧ f' = Flash.afterEvent f evt) s t) := by
  cases evt with
  | fileSize n =>
    refine (triple_sendAduDriver hW (by simp [preprocessRequest])).post fun status s t h =>
      ⟨h.weaken (fun _ h => h) fun _ _ => trivial, ?_⟩
    rintro rfl
    exact h
  | data dataPtr size off n =>
    refine (triple_sendAduDriver hW (by simp [writeRequest])).post fun status s t h =>
      ⟨h.weaken (fun _ h => h) fun _ _ => trivial, ?_⟩
    rintro rfl
    exact h
  | unknown | status =>
    exact .pure fun s t h => ⟨h.weaken (fun _ h => h) fun _ _ => trivial,
      fun _ => h.weaken (fun _ h => h) fun f hf => ⟨f, hf, rfl⟩⟩

/-- An event that the handler accepts has reached the flash. -/
theorem triple_fireEvent (hW : ∀ op, W.Quiet op)
    (hcb : ∀ dl, I dl → dl.eventCb = some .otaFwDownloadHandler) (evt : IotConnectDownloadEvent) :
    Triple W A E (Holding ad I F) (fireEvent evt) fun accepted s t =>
      Holding ad I (fun _ => True) s t ∧
      (accepted = true → Holding ad I (fun f' => ∃ f, F f ∧ f' = Flash.afterEvent f evt) s t) := by
  refine .bind_get (φ := fun s => s.dl.eventCb = some .otaFwDownloadHandler)
    (fun s t h => hcb _ h.dl) fun s0 h0 => ?_
  rw [h0]
  refine .bind (triple_driverCommand hW evt) fun status => ?_
  refine .ite (fun _ => .pure fun s t h => ⟨h.1, nofun⟩) fun hok => ?_
  have hok : status = nxSuccess := Classical.not_not.mp hok
  refine .bind_get_any fun s1 => ?_
  cases s1.ota.userDownloadCb with
  | none => exact .pure fun s t h => ⟨h.1, fun _ => h.2 hok⟩
  | some cb =>
    exact .call_quiet (hW _) fun s t a h _ =>
      ⟨h.1.not_driver (fun _ _ => nofun), fun _ => (h.2 hok).not_driver (fun _ _ => nofun)⟩

/-- A STATUS event passes the driver by. -/
theorem triple_callHandler_status (hW : ∀ op, W.Quiet op) (status : UINT) :
    Triple W A E (Holding ad I F) (callHandler .otaFwDownloadHandler (.status status))
      fun _ => Holding ad I F := by
  refine .bind (Q := fun _ => Holding ad I F) (.pure fun s t h => h) fun _ => ?_
  refine .ite (fun _ => .pure fun s t h => h) fun _ => ?_
  refine .bind_get_any fun s0 => ?_
  cases s0.ota.userDownloadCb with
  | none => exact .pure fun s t h => h
  | some cb => exact .call_quiet (hW _) fun s t a h _ => h.not_driver fun _ _ => nofun

theorem triple_fireEvent_status (hW : ∀ op, W.Quiet op)
    (hcb : ∀ dl, I dl → dl.eventCb = some .otaFwDownloadHandler) (status : UINT) :
    Triple W A E (Holding ad I F) (fireEvent (.status status)) fun _ => Holding ad I F := by
  refine .bind_get (φ := fun s => s.dl.eventCb = some .otaFwDownloadHandler)
    (fun s t h => hcb _ h.dl) fun s0 h0 => ?_
  rw [h0]
  exact triple_callHandler_status hW status

end

end Iotc.Ota
