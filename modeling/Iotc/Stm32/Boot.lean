import Iotc.Stm32.Update

/-!
# What the device starts

INSTALL and APPLY, the start of a program and the life of a device: update after update, each cut
short anywhere. `life_intact`: the device runs the program it began with or one of the firmwares
sent to it, whole.
-/

namespace Iotc.Stm32

open Iotc.C Iotc.Lib Iotc.Web Iotc.Ota

variable {b : Board} {s s' : St}

abbrev installRequest : AduDriverRequest := { command := .driverInstall }

abbrev applyRequest : AduDriverRequest := { command := .driverApply }

/-- The other bank is to be booted from. -/
structure Installed (s s' : St) : Prop where
  fbMode : s'.dev.fbMode = s.dev.fbMode
  bfb2 : s'.dev.bfb2 = s.dev.fbMode.other
  cells : s'.dev.cells = s.dev.cells
  misuses : s'.dev.misuses = s.dev.misuses
  failures : s'.dev.failures = s.dev.failures

theorem obProgram_cases (hb : b.Lawful) {d : Device} (bank : Bank) (hun : d.unlocked = true)
    (hob : d.obUnlocked = true) :
    ∃ status d', d.obProgram b bank.userConfig = (status, d') ∧
      ((status = .ok ∧ d' = d.called { d.toFlash with bfb2 := bank } true true) ∨
        (status ≠ .ok ∧ d' = d.called d.toFlash false true)) := by
  have hlegal : d.canObProgram = true := by
    rw [Flash.canObProgram, hun, hob]
    rfl
  have hflash := hb.obPrograms d.calls bank.userConfig d.toFlash hlegal
  have hbank : Bank.ofUserConfig bank.userConfig = bank := by cases bank <;> rfl
  refine ⟨_, _, rfl, ?_⟩
  rw [hflash, hbank, hlegal]
  by_cases hok : (b.hal.obProgram d.calls bank.userConfig d.toFlash).1 = .ok
  · rw [if_pos hok, decide_eq_true hok]
    exact .inl ⟨hok, rfl⟩
  · rw [if_neg hok, decide_eq_false hok]
    exact .inr ⟨hok, rfl⟩

theorem sends_install (hb : b.Lawful) (hs : Settled s) :
    Sends b [installRequest] s (Installed s)
      (fun s' => Untouched s s' ∧ s.dev.failures < s'.dev.failures) := by
  have hne0 : (0xFFFFFFFF : UINT) ≠ 0 := by decide
  have hfail := b.failure_ne
  refine .single ?_
  refine .bind (.of_ok (bootBankGet_eq s) ?_)
  rw [show s.dev.bfb2 = s.dev.fbMode from hs]
  obtain ⟨status, d, hrun, hend⟩ :=
    obProgram_cases hb (d := s.dev.unlock.obUnlock) s.dev.fbMode.other rfl rfl
  refine .bind (.bind_modify (.bind_modify (meets_onDevice hrun (.bind_modify (.pure ?_)))))
  rcases hend with ⟨rfl, rfl⟩ | ⟨hne, rfl⟩
  · rw [if_neg (by decide)]
    exact .pure ⟨rfl, rfl, rfl, rfl, rfl⟩
  · rw [if_pos hne]
    refine .pure ?_
    rw [if_pos hne0, if_neg hfail]
    exact ⟨⟨rfl, rfl, rfl, rfl⟩, Nat.lt_succ_self _⟩

theorem sends_apply : Sends b [applyRequest] s
    (fun s' => s' = { vars := {}, dev := (s.dev.unlock.obUnlock).reset b }) (fun _ => False) :=
  .single (.bind (.bind_modify (.bind_modify (.modify (.pure (by rw [if_pos rfl]))))))

/-! ## A start -/

theorem reset_eq (hb : b.Lawful) (d : Device) : d.reset b = { d with
    unlocked := false
    obUnlocked := false
    fbMode := if d.bfb2 = .bank2 ∧ b.startable (d.cells .bank2) then .bank2 else .bank1 } := by
  rw [Device.reset, hb.resets]

theorem reset_fbMode (hb : b.Lawful) (d : Device) : (d.reset b).fbMode =
    if d.bfb2 = .bank2 ∧ b.startable (d.cells .bank2) then .bank2 else .bank1 := by
  rw [reset_eq hb]

theorem reset_cells (hb : b.Lawful) (d : Device) : (d.reset b).cells = d.cells := by
  rw [reset_eq hb]

theorem reset_bfb2 (hb : b.Lawful) (d : Device) : (d.reset b).bfb2 = d.bfb2 := by
  rw [reset_eq hb]

/-- A reset and what the program does first. -/
def boot (b : Board) (s : St) : St :=
  match verifyAndCorrectBootBank b { vars := {}, dev := s.dev.reset b } with
  | .ok _ s' | .error _ s' => s'

/-- The bank that is started, and its program. -/
structure Boots (b : Board) (d : Device) (s' : St) : Prop where
  fbMode : s'.dev.fbMode = (d.reset b).fbMode
  cells : s'.dev.cells = d.cells
  misuses : s'.dev.misuses = d.misuses
  settled : d.bfb2 = (d.reset b).fbMode → Settled s'

/-- The bit is changed at most, where it names a bank that cannot be started. -/
theorem boots_boot (hb : b.Lawful) (s : St) : Boots b s.dev (boot b s) := by
  have hcells := reset_cells hb s.dev
  have hbfb2 := reset_bfb2 hb s.dev
  have hmeets : Meets (verifyAndCorrectBootBank b) { vars := {}, dev := s.dev.reset b }
      (fun _ => Boots b s.dev) fun _ => Boots b s.dev := by
    refine .bind_get (.ite (fun hne => ?_) fun _ => .pure ⟨rfl, hcells, rfl, hbfb2.trans⟩)
    -- the first bank runs, the second was chosen
    have hbit : s.dev.bfb2 = .bank2 ∧ (s.dev.reset b).fbMode = .bank1 := by
      rw [hbfb2, reset_fbMode hb] at hne
      rw [reset_fbMode hb]
      split at hne
      · next h => exact absurd h.1 hne
      · next h =>
        rw [if_neg h]
        cases hb : s.dev.bfb2
        · exact absurd hb hne
        · exact ⟨rfl, rfl⟩
    have hunsettled : ∀ {s' : St}, s.dev.bfb2 = (s.dev.reset b).fbMode → Settled s' := fun heq =>
      absurd (hbfb2.trans heq) hne
    refine .bind_modify (.bind_modify ?_)
    have hget : halFlashExObGetConfig { vars := {}, dev := (s.dev.reset b).unlock.obUnlock } =
        .ok (s.dev.reset b).bfb2.userConfig _ := rfl
    refine .bind (.of_ok hget ?_)
    rw [hbfb2, hbit.1]
    obtain ⟨status, d, hrun, hend⟩ :=
      obProgram_cases hb (d := (s.dev.reset b).unlock.obUnlock) .bank1 rfl rfl
    refine meets_onDevice hrun ?_
    rcases hend with ⟨rfl, rfl⟩ | ⟨hne', rfl⟩
    · refine .ite (fun hbad => absurd rfl hbad) fun _ =>
        .modify ⟨?_, (reset_cells hb _).trans hcells, rfl, hunsettled⟩
      rw [hbit.2, reset_fbMode hb]
      exact if_neg fun h => by cases h.1
    · exact .ite (fun _ => .modify ⟨rfl, hcells, rfl, hunsettled⟩) fun hok => absurd hne' hok
  unfold boot
  unfold Meets at hmeets
  split at hmeets
  · next hrun =>
    rw [hrun]
    exact hmeets
  · next hrun =>
    rw [hrun]
    exact hmeets

/-! ## The life of a device -/

/-- What an update of the program that runs in `s` may come to: the bank that runs is as it was, and
if the other one is to be booted from, it holds the firmware. -/
structure Outcome (s : St) (fw : List UInt8) (d : Device) : Prop where
  running : d.cells s.dev.fbMode = s.dev.cells s.dev.fbMode
  misuses : d.misuses = s.dev.misuses
  boots : d.bfb2 = s.dev.fbMode ∨
    d.bfb2 = s.dev.fbMode.other ∧ (d.cells s.dev.fbMode.other).Holds 0 fw

theorem Untouched.outcome (h : Untouched s s') (hs : Settled s) (fw : List UInt8) :
    Outcome s fw s'.dev := ⟨h.running, h.misuses, .inl (h.bfb2.trans hs)⟩

theorem writes_take (k : Nat) (off : SizeT) (pieces : List (List UInt8)) :
    (writes off pieces).take k = writes off (pieces.take k) := by
  induction pieces generalizing k off with
  | nil => simp [writes]
  | cons p ps ih =>
    cases k with
    | zero => rfl
    | succ k => rw [writes, List.take_succ_cons, ih, List.take_succ_cons, writes]

/-- The commands of an update. -/
def update (fw : Firmware) : List AduDriverRequest := load fw ++ [installRequest, applyRequest]

theorem Installed.outcome {s'' : St} {fw : List UInt8} (h : Installed s' s'') (hs : Untouched s s')
    (hw : Written fw s') : Outcome s fw s''.dev := by
  obtain ⟨pad, -, hburnt⟩ := hw
  refine ⟨?_, h.misuses.trans hs.misuses, .inr ⟨by rw [h.bfb2, hs.fbMode], ?_⟩⟩
  · rw [h.cells, hs.running]
  · rw [h.cells, ← hs.fbMode]
    exact hburnt.holds.left

theorem Outcome.reset (hb : b.Lawful) {fw : List UInt8} {d : Device} (h : Outcome s fw d) :
    Outcome s fw (d.unlock.obUnlock.reset b) := by
  rw [reset_eq hb]
  exact ⟨h.running, h.misuses, h.boots⟩

/-- The commands of an update, cut short anywhere. -/
theorem outcome_update (hb : b.Lawful) (fw : Firmware) (k : Nat) (hs : Settled s) :
    Outcome s fw.bytes (sendAll b ((update fw).take k) s).2.dev := by
  refine Sends.all (P := fun s' => Outcome s fw.bytes s'.dev) ?_
  rw [update, List.take_append]
  by_cases hk : k ≤ (load fw).length
  · rw [Nat.sub_eq_zero_of_le hk, List.take_zero, List.append_nil, load]
    cases k with
    | zero =>
      rw [List.take_zero]
      exact .nil ((Untouched.refl s).outcome hs _)
    | succ k =>
      rw [List.take_succ_cons, writes_take]
      exact (sends_load hb fw k hs).mono (fun s' h => h.1.untouched.outcome hs _)
        fun s' h => h.1.outcome hs _
  · rw [List.take_of_length_le (by omega)]
    refine .append ((sends_load_all hb fw hs).mono ?_ fun s' h => h.1.outcome hs _)
    rintro s' ⟨hkept, hwritten⟩
    have hs' := hkept.untouched.settled hs
    have hinstall : Sends b [installRequest] s' (fun s'' => Outcome s fw.bytes s''.dev)
        fun s'' => Outcome s fw.bytes s''.dev :=
      (sends_install hb hs').mono (fun s'' h => h.outcome hkept.untouched hwritten)
        fun s'' h => (hkept.untouched.trans h.1).outcome hs _
    obtain ⟨i, hi⟩ : ∃ i, k - (load fw).length = i + 1 := ⟨k - (load fw).length - 1, by omega⟩
    rw [hi, List.take_succ_cons]
    cases i with
    | zero => exact hinstall
    | succ i =>
      refine .cons (hinstall.mono (fun s'' h => ?_) fun _ h => h)
      have happly : List.take (i + 1) [applyRequest] = [applyRequest] := by simp
      rw [happly]
      refine sends_apply.mono (fun s3 h3 => ?_) fun _ h => h.elim
      rw [h3]
      exact h.reset hb

/-- An update that nothing cuts short fails with the device only, and then its firmware runs, if the
boot loader takes it. -/
theorem update_boots (b : Board) (hb : b.Lawful) (fw : Firmware) (s : St) (hs : Settled s)
    (hfits : fw.size ≤ b.flashBankSize) :
    let r := sendAll b (update fw) s
    (r.1 = nxSuccess ↔ r.2.dev.failures = s.dev.failures) ∧
      (r.1 = nxSuccess → s.dev.fbMode = .bank2 ∨ b.startable (r.2.dev.cells .bank2) = true →
        Settled (boot b r.2) ∧ (boot b r.2).dev.fbMode = s.dev.fbMode.other ∧
          ((boot b r.2).dev.cells s.dev.fbMode.other).Holds 0 fw.bytes) := by
  intro r
  have hall : Sends b (update fw) s
      (fun s' => s'.dev.failures = s.dev.failures ∧ s'.dev.bfb2 = s.dev.fbMode.other ∧
        (s'.dev.cells s.dev.fbMode.other).Holds 0 fw.bytes)
      (fun s' => s.dev.failures < s'.dev.failures) := by
    refine .append ((sends_load_all hb fw hs).mono ?_ fun s' h =>
      h.2.resolve_right (UInt32.not_lt.mpr hfits))
    rintro s' ⟨hkept, pad, -, hburnt⟩
    refine .cons ((sends_install hb (hkept.untouched.settled hs)).mono ?_ fun s'' h =>
      hkept.failures ▸ h.2)
    intro s'' hinstalled
    refine sends_apply.mono ?_ fun _ h => h.elim
    rintro s3 rfl
    refine ⟨hinstalled.failures.trans hkept.failures, ?_, ?_⟩
    · rw [reset_bfb2 hb]
      exact hinstalled.bfb2.trans (congrArg Bank.other hkept.untouched.fbMode)
    · rw [reset_cells hb]
      show Cells.Holds (s''.dev.cells _) 0 _
      rw [hinstalled.cells, ← hkept.untouched.fbMode]
      exact hburnt.holds.left
  by_cases hok : r.1 = nxSuccess
  · obtain ⟨hfailures, hbfb2, hholds⟩ := hall.ok hok
    refine ⟨iff_of_true hok hfailures, fun _ hstart => ?_⟩
    have hmode : (r.2.dev.reset b).fbMode = s.dev.fbMode.other := by
      rw [reset_fbMode hb, hbfb2]
      cases hm : s.dev.fbMode
      · rw [hm] at hstart
        exact if_pos ⟨rfl, hstart.resolve_left (by decide)⟩
      · exact if_neg (by simp [Bank.other])
    have hboots := boots_boot hb r.2
    refine ⟨hboots.settled (hbfb2.trans hmode.symm), hboots.fbMode.trans hmode, ?_⟩
    rw [hboots.cells]
    exact hholds
  · exact ⟨iff_of_false hok (Nat.ne_of_gt (hall.failed hok)), fun h => absurd h hok⟩

theorem update_boots_small :
    let b := smallBoard []
    let r := sendAll b (update smallFirmware) ⟨{}, smallDevice⟩
    r.1 = nxSuccess ∧ b.startable (r.2.dev.cells .bank2) = true ∧
    (r.1 = nxSuccess ↔ r.2.dev.failures = smallDevice.failures) ∧
      (r.1 = nxSuccess → Bank.bank1 = .bank2 ∨ b.startable (r.2.dev.cells .bank2) = true →
        Settled (boot b r.2) ∧ (boot b r.2).dev.fbMode = .bank2 ∧
          ((boot b r.2).dev.cells .bank2).Holds 0 smallFirmware.bytes) :=
  ⟨by decide +kernel, by decide +kernel,
    update_boots (smallBoard []) (smallBoard_lawful []) smallFirmware ⟨{}, smallDevice⟩ rfl
      (by decide +kernel)⟩

/-- An update that is tried: how many of its commands are given before the device starts anew. -/
structure Attempt where
  firmware : Firmware
  cut : Nat

def attempt (b : Board) (s : St) (a : Attempt) : St :=
  boot b (sendAll b ((update a.firmware).take a.cut) s).2

/-- One attempt after another. -/
def life (b : Board) (s : St) (as : List Attempt) : St := as.foldl (attempt b) s

/-- The device runs `prog`, from a bank that can be started. -/
structure Running (b : Board) (prog : List UInt8) (s : St) : Prop where
  settled : Settled s
  holds : (s.dev.cells s.dev.fbMode).Holds 0 prog
  startable : s.dev.fbMode = .bank2 → b.startable (s.dev.cells .bank2) = true

/-- A start after an update that was cut short: the program that ran, or the firmware. -/
theorem Running.boots (hb : b.Lawful) {prog fw : List UInt8} {s1 : St} (h : Running b prog s)
    (hout : Outcome s fw s1.dev) (hsettled : Settled (boot b s1)) :
    (Running b prog (boot b s1) ∨
      s1.dev.bfb2 = s.dev.fbMode.other ∧ Running b fw (boot b s1)) ∧
      (boot b s1).dev.misuses = s.dev.misuses := by
  have hboots := boots_boot hb s1
  refine ⟨?_, hboots.misuses.trans hout.misuses⟩
  have hreset : (boot b s1).dev.fbMode =
      if s1.dev.bfb2 = .bank2 ∧ b.startable (s1.dev.cells .bank2) then .bank2 else .bank1 :=
    hboots.fbMode.trans (reset_fbMode hb s1.dev)
  have hstart : (boot b s1).dev.fbMode = .bank2 →
      b.startable ((boot b s1).dev.cells .bank2) = true := by
    intro h2
    rw [hreset] at h2
    split at h2
    · next hb =>
      rw [hboots.cells]
      exact hb.2
    · cases h2
  -- either the bank that ran is started again, or the other one
  by_cases hbank : (boot b s1).dev.fbMode = s.dev.fbMode
  · refine .inl ⟨hsettled, ?_, hstart⟩
    rw [hbank, hboots.cells, hout.running]
    exact h.holds
  · rcases hout.boots with hold | ⟨hnew, hholds⟩
    · -- the program that ran can still be started
      refine absurd ?_ hbank
      rw [hreset, hold]
      cases hmode : s.dev.fbMode
      · rw [if_neg (by simp)]
      · have hrun := hout.running
        rw [hmode] at hrun
        rw [if_pos ⟨rfl, by rw [hrun]; exact h.startable hmode⟩]
    · refine .inr ⟨hnew, hsettled, ?_, hstart⟩
      have hother : (boot b s1).dev.fbMode = s.dev.fbMode.other := by
        cases hm : s.dev.fbMode <;> cases hm' : (boot b s1).dev.fbMode <;> simp_all [Bank.other]
      rw [hother, hboots.cells]
      exact hholds

theorem Running.attempt (hb : b.Lawful) {prog : List UInt8} (h : Running b prog s) (a : Attempt)
    (hs : Settled (attempt b s a)) :
    (Running b prog (attempt b s a) ∨ Running b a.firmware.bytes (attempt b s a)) ∧
      (Stm32.attempt b s a).dev.misuses = s.dev.misuses := by
  obtain ⟨hrun, hmisuses⟩ := h.boots hb (outcome_update hb a.firmware a.cut h.settled) hs
  exact ⟨hrun.imp_right And.right, hmisuses⟩

/-- The device runs the program it began with or one of the firmwares sent to it, whole, wherever
each update was cut short and whatever failed, as long as the option bit could be set at every
start. -/
theorem life_intact (b : Board) (hb : b.Lawful) (prog : List UInt8) (s : St) (as : List Attempt)
    (h : Running b prog s) (hsettled : ∀ k, Settled (life b s (as.take k))) :
    (∃ fw ∈ prog :: as.map fun a => a.firmware.bytes, Running b fw (life b s as)) ∧
      (life b s as).dev.misuses = s.dev.misuses := by
  induction as generalizing s prog with
  | nil => exact ⟨⟨prog, List.mem_cons_self, h⟩, rfl⟩
  | cons a as ih =>
    obtain ⟨hrun, hmisuses⟩ := h.attempt hb a (hsettled 1)
    rcases hrun with hrun | hrun
    · obtain ⟨⟨fw, hfw, hlife⟩, hm⟩ := ih prog (attempt b s a) hrun fun k => hsettled (k + 1)
      refine ⟨⟨fw, ?_, hlife⟩, hm.trans hmisuses⟩
      simp only [List.mem_cons, List.map_cons] at hfw ⊢
      exact hfw.imp_right .inr
    · obtain ⟨⟨fw, hfw, hlife⟩, hm⟩ := ih _ (attempt b s a) hrun fun k => hsettled (k + 1)
      exact ⟨⟨fw, List.mem_cons_of_mem _ hfw, hlife⟩, hm.trans hmisuses⟩

/-- Two updates: one is cut short by a failure, the other runs to its end. -/
def twoAttempts : List Attempt := [⟨smallFirmware, 9⟩, ⟨{ pieces := [[21, 22], [23]] }, 9⟩]

theorem running_small (bad : List Nat) : Running (smallBoard bad) [7, 8, 9] ⟨{}, smallDevice⟩ := by
  have hnil : Cells.Holds (fun _ => Cell.erased) 0 ([] : List UInt8) := Cells.holds_nil
  refine ⟨rfl, hnil.store, fun h => ?_⟩
  cases h

theorem settled_twoAttempts (k : Nat) :
    Settled (life (smallBoard [1]) ⟨{}, smallDevice⟩ (twoAttempts.take k)) := by
  rcases k with _ | _ | k
  · rfl
  · decide +kernel
  · have htake : twoAttempts.take (k + 2) = twoAttempts :=
      List.take_of_length_le (by simp [twoAttempts])
    rw [htake]
    decide +kernel

theorem life_intact_two :
    let s := life (smallBoard [1]) ⟨{}, smallDevice⟩ twoAttempts
    (attempt (smallBoard [1]) ⟨{}, smallDevice⟩ ⟨smallFirmware, 9⟩).dev.fbMode = .bank1 ∧
    s.dev.fbMode = .bank2 ∧ (List.range 4).map (s.dev.cells .bank2) =
      [.holds 21, .holds 22, .holds 23, .holds 0xFF] ∧
    (∃ fw ∈ [7, 8, 9] :: twoAttempts.map fun a => a.firmware.bytes, Running (smallBoard [1]) fw s) ∧
      s.dev.misuses = smallDevice.misuses :=
  ⟨by decide +kernel, by decide +kernel, by decide +kernel,
    life_intact (smallBoard [1]) (smallBoard_lawful [1]) [7, 8, 9] ⟨{}, smallDevice⟩ twoAttempts
      (running_small [1]) settled_twoAttempts⟩

end Iotc.Stm32
