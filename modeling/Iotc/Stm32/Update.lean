import Iotc.Ota.Handler
import Iotc.Stm32.Writes

/-!
# Updates

PREPROCESS and the pieces of the firmware one after the other, up to the first command that fails.
`update_burns`: however the firmware is cut, and whichever calls of the HAL fail, the program that
runs is left alone, the commands fail only with the device, and if they do not then the other bank
holds the firmware.
-/

namespace Iotc.Stm32

open Iotc.C Iotc.Lib Iotc.Web Iotc.Ota

variable {b : Board} {n : Nat} {s s' s'' : St} {text : List UInt8} {req : AduDriverRequest}
  {reqs reqs' : List AduDriverRequest} {Q Q' E E' : St → Prop}

/-! ## Commands one after the other -/

/-- Up to the first that fails. -/
def sendAll (b : Board) : List AduDriverRequest → St → UINT × St
  | [], s => (nxSuccess, s)
  | req :: reqs, s =>
    let r := nxAzureIotAduAgentDriver b req s
    if r.1 = nxSuccess then sendAll b reqs r.2 else r

/-- The commands lead to `Q`, or to `E` with the first that fails. -/
structure Sends (b : Board) (reqs : List AduDriverRequest) (s : St) (Q E : St → Prop) : Prop where
  ok : (sendAll b reqs s).1 = nxSuccess → Q (sendAll b reqs s).2
  failed : (sendAll b reqs s).1 ≠ nxSuccess → E (sendAll b reqs s).2

theorem Sends.nil (h : Q s) : Sends b [] s Q E := ⟨fun _ => h, fun hne => absurd rfl hne⟩

theorem Sends.mono (h : Sends b reqs s Q E) (hQ : ∀ s', Q s' → Q' s') (hE : ∀ s', E s' → E' s') :
    Sends b reqs s Q' E' := ⟨fun hok => hQ _ (h.ok hok), fun hne => hE _ (h.failed hne)⟩

theorem Sends.all {P : St → Prop} (h : Sends b reqs s P P) : P (sendAll b reqs s).2 := by
  by_cases hok : (sendAll b reqs s).1 = nxSuccess
  · exact h.ok hok
  · exact h.failed hok

theorem sendAll_append (s : St) : sendAll b (reqs ++ reqs') s =
    if (sendAll b reqs s).1 = nxSuccess then sendAll b reqs' (sendAll b reqs s).2
    else sendAll b reqs s := by
  induction reqs generalizing s with
  | nil => exact (if_pos rfl).symm
  | cons req reqs ih =>
    rw [List.cons_append, sendAll, sendAll]
    by_cases hok : (nxAzureIotAduAgentDriver b req s).1 = nxSuccess
    · simpa only [if_pos hok] using ih _
    · simp only [if_neg hok]

theorem sendAll_single (s : St) : sendAll b [req] s = nxAzureIotAduAgentDriver b req s := by
  rw [sendAll]
  by_cases hok : (nxAzureIotAduAgentDriver b req s).1 = nxSuccess
  · simp only [if_pos hok, sendAll]
    exact Prod.ext hok.symm rfl
  · simp only [if_neg hok]

theorem Sends.append (h : Sends b reqs s (fun s' => Sends b reqs' s' Q E) E) :
    Sends b (reqs ++ reqs') s Q E := by
  have happend : sendAll b (reqs ++ reqs') s = _ := sendAll_append s
  by_cases hok : (sendAll b reqs s).1 = nxSuccess
  · obtain ⟨hQ, hE⟩ := h.ok hok
    rw [if_pos hok] at happend
    rw [← happend] at hQ hE
    exact ⟨hQ, hE⟩
  · rw [if_neg hok] at happend
    refine ⟨?_, ?_⟩ <;> rw [happend]
    · exact fun hok' => absurd hok' hok
    · exact h.failed

theorem Sends.single (h : Meets (runCommand b req) s
    (fun status s' => if status = 0 then Q s' else E s') fun e s' => e ≠ 0 ∧ E s') :
    Sends b [req] s Q E := by
  have hend : ∃ (status : UINT) (s' : St), nxAzureIotAduAgentDriver b req s =
      (if status ≠ 0 then b.nxAzureIotFailure else nxAzureIotSuccess, s') ∧
      if status = 0 then Q s' else E s' := by
    unfold nxAzureIotAduAgentDriver
    unfold Meets at h
    split at h
    · next status s' hrun =>
      rw [hrun]
      exact ⟨status, s', rfl, h⟩
    · next status s' hrun =>
      rw [hrun]
      exact ⟨status, s', rfl, by rw [if_neg h.1]; exact h.2⟩
  obtain ⟨status, s', hrun, hend⟩ := hend
  have hfail := b.failure_ne
  refine ⟨fun hok => ?_, fun hne => ?_⟩
  all_goals rw [sendAll_single, hrun] at *
  · have h0 : status = 0 := by
      by_contra h0
      rw [if_pos h0] at hok
      exact hfail hok
    rwa [if_pos h0] at hend
  · have h0 : status ≠ 0 := fun h0 => hne (if_neg (not_not.mpr h0))
    rwa [if_neg h0] at hend

theorem Sends.cons (h : Sends b [req] s (fun s' => Sends b reqs s' Q E) E) :
    Sends b (req :: reqs) s Q E := by
  rw [← List.singleton_append]
  exact .append h

/-! ## The single commands -/

/-- The option bit agrees with the bank that runs, as after `verify_and_correct_boot_bank`. -/
def Settled (s : St) : Prop := s.dev.bfb2 = s.dev.fbMode

instance (s : St) : Decidable (Settled s) := inferInstanceAs (Decidable (_ = _))

theorem bootBankGet_eq (s : St) : bootBankGet s = .ok s.dev.bfb2 s := by
  have hbit : ∀ bank : Bank, (if bank.userConfig &&& obBfb2Enable = obBfb2Enable then Bank.bank2
      else .bank1) = bank := by
    intro bank
    cases bank <;> rfl
  exact congrArg (EStateM.Result.ok · s) (hbit s.dev.bfb2)

theorem Untouched.settled (h : Untouched s s') (hs : Settled s) : Settled s' := by
  unfold Settled at *
  rw [h.bfb2, h.fbMode, hs]

theorem pages_toNat {size : UInt32} (h : size.toNat ≤ b.flashBankSize.toNat) :
    ((size + 2047) / 2048).toNat = (size.toNat + 2047) / 2048 := by
  obtain ⟨j, hj⟩ := b.size_dvd
  have hfits := b.fits
  rw [UInt32.toNat_div, UInt32.toNat_add]
  simp only [UInt32.reduceToNat]
  omega

/-- Whole pages of a bank are erased, or the device fails. -/
theorem erase_cases (hb : b.Lawful) {d : Device} {size : UInt32} (bank : Bank)
    (hun : d.unlocked = true) (hle : size.toNat ≤ b.flashBankSize.toNat) :
    ∃ answer ok m, d.erase b bank 0 ((size + 2047) / 2048) =
        (answer, d.called (d.setCells bank m) ok true) ∧
      (ok = true ↔ answer = (.ok, 0xFFFFFFFF)) ∧
      (ok = true → m = (d.cells bank).fill 0 (2048 * ((size.toNat + 2047) / 2048)) .erased) := by
  obtain ⟨j, hj⟩ := b.size_dvd
  have hlegal : d.canErase b.toFlashMap 0 ((size + 2047) / 2048) = true := by
    rw [Flash.canErase, hun, pages_toNat hle, Bool.true_and, decide_eq_true_eq]
    simp only [UInt32.reduceToNat]
    omega
  obtain ⟨m, hflash, herased⟩ := hb.erases d.calls bank 0 ((size + 2047) / 2048) d.toFlash hlegal
  rw [pages_toNat hle] at herased
  refine ⟨_, _, m, Prod.ext rfl ?_, decide_eq_true_iff, fun hok => herased (of_decide_eq_true hok)⟩
  show d.called _ _ _ = _
  rw [hflash, hlegal]
  rfl

/-- PREPROCESS fails with the device or on a firmware that is too large. -/
theorem sends_preprocess (hb : b.Lawful) (hs : Settled s) (size : UInt32) :
    Sends b [preprocessRequest size] s
      (fun s' => Kept s s' ∧ (0 < size.toNat → Writing b size.toNat [] s'))
      (fun s' => Untouched s s' ∧ (s.dev.failures < s'.dev.failures ∨ b.flashBankSize < size)) := by
  refine .single ?_
  refine .bind (.of_ok (bootBankGet_eq s) ?_)
  rw [show s.dev.bfb2 = s.dev.fbMode from hs]
  refine .ite (fun hlarge => .pure ?_) fun hfits => ?_
  · rw [if_neg (by decide)]
    exact ⟨.refl s, .inr hlarge⟩
  have hle : size.toNat ≤ b.flashBankSize.toNat :=
    UInt32.le_iff_toNat_le.mp (UInt32.not_lt.mp hfits)
  obtain ⟨⟨status, pageError⟩, ok, m, hrun, hok, herased⟩ :=
    erase_cases hb (d := s.dev.unlock) s.dev.fbMode.other rfl hle
  rw [Prod.mk.injEq] at hok
  have hunlocked : Untouched s { s with dev := s.dev.unlock } := ⟨rfl, rfl, rfl, rfl⟩
  have huntouched := hunlocked.called (m := m) ok
  refine .bind_modify (meets_onDevice hrun (.bind_modify ?_))
  refine .ite (fun hbad => .pure ?_) fun hgood => .bind_modify (.pure ?_)
  · have hbad : ok = false := by
      by_contra htrue
      obtain ⟨rfl, rfl⟩ := hok.mp (by simpa using htrue)
      simp at hbad
    subst hbad
    rw [if_neg (by decide)]
    exact ⟨huntouched.trans ⟨rfl, rfl, rfl, rfl⟩, .inl (Nat.lt_succ_self _)⟩
  · rw [not_or, not_not, not_not] at hgood
    obtain rfl := hok.mpr hgood
    obtain rfl := herased rfl
    rw [if_pos rfl]
    refine ⟨⟨huntouched.trans ⟨rfl, rfl, rfl, rfl⟩, rfl, rfl⟩, fun hpos => ?_⟩
    refine ⟨rfl, rfl, hpos, hle, [], [], rfl, ?_, ?_⟩
    · rw [Vars.Keeps, if_pos rfl]
    · have himage := s.dev.setCells_self s.dev.fbMode.other
        ((s.dev.cells s.dev.fbMode.other).fill 0 (2048 * ((size.toNat + 2047) / 2048)) .erased)
      refine ⟨by simp, Cells.holds_nil, ?_⟩
      have hblank := Cells.blank_fill (m := s.dev.cells s.dev.fbMode.other) (a := 0)
        (n := 2048 * ((size.toNat + 2047) / 2048))
      rw [Nat.zero_add, ← himage] at hblank
      exact hblank

/-! ## The pieces -/

/-- WRITE commands for pieces from `off` on. -/
def writes (off : SizeT) : List (List UInt8) → List AduDriverRequest
  | [] => []
  | p :: ps => writeRequest p p.length.toUInt32 off :: writes (off + p.length.toUInt32) ps

theorem sends_write (hb : b.Lawful) {dataPtr : List UInt8} {size off : SizeT}
    (h : Writing b n text s) (hoff : off.toNat = text.length) (hsize : size.toNat ≤ dataPtr.length)
    (hle : text.length + size.toNat ≤ n) :
    Sends b [writeRequest dataPtr size off] s
      (fun s' => Kept s s' ∧ Reached b n (text ++ dataPtr.take size.toNat) s') (Failed s) := by
  have hroom := h.room
  have hat : At b (b.flashBank2Addr + off) text.length := by
    have hbank := b.toNat_bank2
    have hfits := b.fits
    rw [At, UInt32.toNat_add, hoff]
    omega
  have hlen : (dataPtr.take size.toNat).length = size.toNat := List.length_take_of_le hsize
  have hwrite := h.internalFlashWrite hb hat (hlen.symm ▸ hle)
  refine .single (hwrite.mono ?_ fun _ _ h => h)
  rintro status s' ⟨rfl, h'⟩
  rwa [if_pos rfl]

theorem Kept.refl (h : s.dev.unlocked = false) : Kept s s := ⟨.refl s, rfl, h⟩

theorem Kept.trans (h : Kept s s') (h' : Kept s' s'') : Kept s s'' :=
  ⟨h.untouched.trans h'.untouched, h'.failures.trans h.failures, h'.locked⟩

/-- An empty piece says nothing; behind the end of the firmware the driver would write again. -/
def EndsFull (pieces : List (List UInt8)) : Prop := ∀ p ∈ pieces.getLast?, p ≠ []

instance (pieces : List (List UInt8)) : Decidable (EndsFull pieces) := by
  unfold EndsFull
  infer_instance

theorem EndsFull.flatten_pos {p : List UInt8} {ps : List (List UInt8)} (h : EndsFull (p :: ps)) :
    0 < (p :: ps).flatten.length := by
  induction ps generalizing p with
  | nil => simpa using List.length_pos_iff.mpr (h p rfl)
  | cons q ps ih =>
    have hrest := ih (p := q) h
    rw [List.flatten_cons, List.length_append]
    omega

theorem EndsFull.drop {pieces : List (List UInt8)} (h : EndsFull pieces) (k : Nat) :
    EndsFull (pieces.drop k) := by
  intro p hp
  rw [List.getLast?_drop] at hp
  split at hp
  · cases hp
  · exact h p hp

theorem sends_writes (hb : b.Lawful) {pieces : List (List UInt8)} {off : SizeT}
    (hlocked : s.dev.unlocked = false) (h : Writing b n text s) (hoff : off.toNat = text.length)
    (hle : text.length + pieces.flatten.length ≤ n)
    (hlast : text.length + pieces.flatten.length = n → EndsFull pieces) :
    Sends b (writes off pieces) s (fun s' => Kept s s' ∧ Reached b n (text ++ pieces.flatten) s')
      (Failed s) := by
  induction pieces generalizing s text off with
  | nil =>
    refine .nil ⟨.refl hlocked, ?_⟩
    rw [List.flatten_nil, List.append_nil, Reached, if_pos h.lt]
    exact h
  | cons p ps ih =>
    rw [List.flatten_cons, List.length_append] at hle hlast
    have hroom := h.room
    have hbank := b.flashBankSize.toNat_lt
    have hp : p.length.toUInt32.toNat = p.length := by
      rw [Nat.toUInt32, UInt32.toNat_ofNat']
      omega
    refine .cons ((sends_write hb h hoff hp.le (by omega)).mono ?_ fun s' h' => h')
    rintro s' ⟨hkept, hreached⟩
    rw [List.take_of_length_le hp.ge] at hreached
    rw [List.flatten_cons, ← List.append_assoc]
    cases ps with
    | nil => exact .nil ⟨hkept, by simpa using hreached⟩
    | cons q ps =>
      -- the pieces behind this one are not all empty, or do not end the firmware
      have hlt : (text ++ p).length < n := by
        rw [List.length_append]
        by_contra hge
        have hpos := EndsFull.flatten_pos (hlast (by omega))
        have hrest : 0 < (q :: ps).flatten.length := EndsFull.flatten_pos (hlast (by omega))
        omega
      rw [Reached, if_pos hlt] at hreached
      refine (ih hkept.locked hreached ?_ ?_ ?_).mono ?_ ?_
      · rw [UInt32.toNat_add, hoff, hp, List.length_append]
        rw [List.length_append] at hlt
        omega
      · rw [List.length_append]
        omega
      · intro heq
        rw [List.length_append] at heq
        exact hlast (by omega)
      · rintro s'' ⟨hkept', hreached'⟩
        exact ⟨hkept.trans hkept', hreached'⟩
      · intro s'' hfailed
        exact hfailed.after hkept.untouched hkept.failures.ge

/-! ## An update -/

/-- A firmware in pieces; its size is a 32-bit number. -/
structure Firmware where
  pieces : List (List UInt8)
  ends_full : EndsFull pieces := by decide
  pos : 0 < pieces.flatten.length := by decide
  lt : pieces.flatten.length < 2 ^ 32 := by decide

def Firmware.bytes (fw : Firmware) : List UInt8 := fw.pieces.flatten

def Firmware.size (fw : Firmware) : SizeT := fw.bytes.length.toUInt32

/-- PREPROCESS and the pieces. -/
def load (fw : Firmware) : List AduDriverRequest :=
  preprocessRequest fw.size :: writes 0 fw.pieces

theorem Firmware.size_toNat (fw : Firmware) : fw.size.toNat = fw.bytes.length := by
  have hlt : fw.bytes.length < 2 ^ 32 := fw.lt
  rw [size, Nat.toUInt32, UInt32.toNat_ofNat']
  omega

/-- The first `k` pieces. -/
theorem sends_load (hb : b.Lawful) (fw : Firmware) (k : Nat) (hs : Settled s) :
    Sends b (preprocessRequest fw.size :: writes 0 (fw.pieces.take k)) s
      (fun s' => Kept s s' ∧ Reached b fw.bytes.length (fw.pieces.take k).flatten s')
      (fun s' => Untouched s s' ∧
        (s.dev.failures < s'.dev.failures ∨ b.flashBankSize < fw.size)) := by
  have hsize := fw.size_toNat
  have hpos : 0 < fw.bytes.length := fw.pos
  have hsplit : (fw.pieces.take k).flatten ++ (fw.pieces.drop k).flatten = fw.bytes := by
    rw [← List.flatten_append, List.take_append_drop]
    rfl
  have hlen := congrArg List.length hsplit
  rw [List.length_append] at hlen
  refine .cons ((sends_preprocess hb hs fw.size).mono ?_ fun _ h => h)
  rintro s' ⟨hkept, hwriting⟩
  rw [hsize] at hwriting
  have hwriting := hwriting hpos
  refine (sends_writes hb hkept.locked hwriting rfl ?_ fun hend => ?_).mono ?_ ?_
  · rw [List.length_nil]
    omega
  · -- nothing is left out: the first `k` pieces are all of them
    rw [List.length_nil] at hend
    have hdrop := fw.ends_full.drop k
    cases hrest : fw.pieces.drop k with
    | nil =>
      rw [List.take_of_length_le (List.drop_eq_nil_iff.mp hrest)]
      exact fw.ends_full
    | cons q ps =>
      rw [hrest] at hdrop hlen
      have := hdrop.flatten_pos
      omega
  · rintro s'' ⟨hkept', hreached⟩
    exact ⟨hkept.trans hkept', hreached⟩
  · intro s'' hfailed
    have hfailed := hfailed.after hkept.untouched hkept.failures.ge
    exact ⟨hfailed.untouched, .inl hfailed.failures⟩

theorem sends_load_all (hb : b.Lawful) (fw : Firmware) (hs : Settled s) :
    Sends b (load fw) s (fun s' => Kept s s' ∧ Written fw.bytes s')
      (fun s' => Untouched s s' ∧
        (s.dev.failures < s'.dev.failures ∨ b.flashBankSize < fw.size)) := by
  have hall := sends_load hb fw fw.pieces.length hs
  rw [List.take_length] at hall
  refine hall.mono ?_ fun _ h => h
  rintro s' ⟨hkept, hreached⟩
  rw [Reached, if_neg (show ¬ fw.pieces.flatten.length < fw.bytes.length from Nat.lt_irrefl _)]
    at hreached
  exact ⟨hkept, hreached⟩

theorem update_burns (b : Board) (hb : b.Lawful) (fw : Firmware) (s : St) (hs : Settled s)
    (hfits : fw.size ≤ b.flashBankSize) :
    let r := sendAll b (load fw) s
    Untouched s r.2 ∧ (r.1 = nxSuccess ↔ r.2.dev.failures = s.dev.failures) ∧
      (r.1 = nxSuccess → Written fw.bytes r.2) := by
  intro r
  have hall := sends_load_all hb fw hs
  by_cases hok : r.1 = nxSuccess
  · obtain ⟨hkept, hwritten⟩ := hall.ok hok
    exact ⟨hkept.untouched, iff_of_true hok hkept.failures, fun _ => hwritten⟩
  · obtain ⟨huntouched, hfail⟩ := hall.failed hok
    have hfail := hfail.resolve_right (UInt32.not_lt.mpr hfits)
    exact ⟨huntouched, iff_of_false hok (Nat.ne_of_gt hfail), fun h => absurd h hok⟩

/-- Two pages a bank. -/
def smallMap : FlashMap where
  flashBankSize := 4096

/-- Something is there to be started. -/
def smallStartable (m : Cells UInt8) : Bool := m 0 ≠ .erased

/-- It fails in the calls `bad`, and spoils what they were to change. -/
def smallHal (bad : List Nat) : Hal where
  program k address data f :=
    let bank := (f.locate smallMap address).1
    let off := (f.locate smallMap address).2
    if k ∈ bad then (.error, f.setCells bank ((f.cells bank).fill off 8 .unknown))
    else (.ok, f.setCells bank ((f.cells bank).store off (bytesOf data)))
  erase k bank page nbPages f :=
    let erased := (f.cells bank).fill (2048 * page.toNat) (2048 * nbPages.toNat)
    if k ∈ bad then ((.error, page), f.setCells bank (erased .unknown))
    else ((.ok, 0xFFFFFFFF), f.setCells bank (erased .erased))
  obProgram k userConfig f :=
    if k ∈ bad then (.error, f) else (.ok, { f with bfb2 := .ofUserConfig userConfig })
  reset f := { f with
    unlocked := false
    obUnlocked := false
    fbMode := if f.bfb2 = .bank2 ∧ smallStartable (f.cells .bank2) then .bank2 else .bank1 }

def smallBoard (bad : List Nat) : Board where
  toFlashMap := smallMap
  hal := smallHal bad
  startable := smallStartable
  nxAzureIotFailure := 1

theorem smallBoard_lawful (bad : List Nat) : (smallBoard bad).Lawful where
  programs k address data f _ := by
    by_cases hk : k ∈ bad
    · simp only [smallBoard, smallHal, if_pos hk]
      exact ⟨_, rfl, nofun⟩
    · simp only [smallBoard, smallHal, if_neg hk]
      exact ⟨_, rfl, fun _ => rfl⟩
  erases k bank page nbPages f _ := by
    by_cases hk : k ∈ bad
    · simp only [smallBoard, smallHal, if_pos hk]
      exact ⟨_, rfl, nofun⟩
    · simp only [smallBoard, smallHal, if_neg hk]
      exact ⟨_, rfl, fun _ => rfl⟩
  obPrograms k userConfig f _ := by
    by_cases hk : k ∈ bad
    · simp only [smallBoard, smallHal, if_pos hk]
      rfl
    · simp only [smallBoard, smallHal, if_neg hk]
      rfl
  resets _ := rfl

/-- A device that runs a program of three bytes from its first bank. -/
def smallDevice : Device where
  cells
    | .bank1 => Cells.store (fun _ => .erased) 0 [7, 8, 9]
    | .bank2 => fun _ => .unknown
  fbMode := .bank1
  bfb2 := .bank1
  unlocked := false
  obUnlocked := false
  calls := 0
  failures := 0
  misuses := 0

/-- Eleven bytes in four pieces. -/
def smallFirmware : Firmware where
  pieces := [[1, 2, 3], [4], [], [5, 6, 7, 8, 9, 10, 11]]

theorem update_burns_small :
    let r := sendAll (smallBoard []) (load smallFirmware) ⟨{}, smallDevice⟩
    r.1 = nxSuccess ∧ (List.range 17).map (r.2.dev.cells .bank2) =
      (smallFirmware.bytes ++ List.replicate 5 0xFF).map .holds ++ [.erased] ∧
    (Untouched ⟨{}, smallDevice⟩ r.2 ∧
      (r.1 = nxSuccess ↔ r.2.dev.failures = smallDevice.failures) ∧
      (r.1 = nxSuccess → Written smallFirmware.bytes r.2)) :=
  ⟨by decide +kernel, by decide +kernel,
    update_burns (smallBoard []) (smallBoard_lawful []) smallFirmware ⟨{}, smallDevice⟩ rfl
      (by decide +kernel)⟩

end Iotc.Stm32
