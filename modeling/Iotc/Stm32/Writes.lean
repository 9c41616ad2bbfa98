import Iotc.Lib.Exits
import Iotc.Stm32.Driver
import Mathlib.Tactic.IntervalCases

/-!
# What a WRITE puts into the flash

The driver programs whole double words and keeps the rest of a piece for the next one. `Writing`
is what holds between two commands, however the firmware is cut into pieces: the part in the flash
and the part that is held make up what was sent. A WRITE that does not end the firmware leads from
`Writing` to `Writing`, one that ends it to `Written`, or the device has failed.
-/

namespace Iotc.Stm32

open Iotc.C Iotc.Lib Device

variable {b : Board} {n pos : Nat} {s s' s'' : St} {v v' : Vars} {done held xs ys : List UInt8}
  {m : Cells UInt8}

/-! ## Words -/

theorem bytesOf_word (x0 x1 x2 x3 x4 x5 x6 x7 : UInt8) :
    bytesOf (word32 x0 x1 x2 x3 ||| word32 x4 x5 x6 x7 <<< 32) =
      [x0, x1, x2, x3, x4, x5, x6, x7] := by
  simp only [bytesOf, word32, List.cons.injEq, and_true]
  refine ⟨?_, ?_, ?_, ?_, ?_, ?_, ?_, ?_⟩
  -- bit by bit
  all_goals
    apply UInt8.toBitVec_inj.mp
    ext i hi
    simp
  all_goals grind

/-! ## The buffer -/

/-- The buffer is filled with `held`. -/
structure Vars.Buffered (v : Vars) (held : List UInt8) : Prop where
  count : v.remainderCount = held.length
  le : held.length ≤ 8
  bytes : v.writeBuffer.toList.take held.length = held

/-- The driver holds `held`; with nothing to hold the counter is -1. -/
def Vars.Keeps (v : Vars) (held : List UInt8) : Prop :=
  if held = [] then v.remainderCount = -1 else v.Buffered held

/-- The sizes that the driver compares at the end of a WRITE. -/
structure Vars.SameSizes (v v' : Vars) : Prop where
  total : v'.totalWriteSize = v.totalWriteSize
  size : v'.writeSize = v.writeSize

theorem Vars.SameSizes.trans {v'' : Vars} (h : v.SameSizes v') (h' : v'.SameSizes v'') :
    v.SameSizes v'' := ⟨h'.total.trans h.total, h'.size.trans h.size⟩

theorem Vars.sameSizes_push (v : Vars) (x : UInt8) : v.SameSizes (v.push x) := ⟨rfl, rfl⟩

theorem Vars.Buffered.push (h : v.Buffered held) (hlt : held.length < 8) (x : UInt8) :
    (v.push x).Buffered (held ++ [x]) := by
  have hcount := h.count
  refine ⟨?_, by simp; omega, ?_⟩
  · show v.remainderCount + 1 = _
    simp
    omega
  · have hnat : v.remainderCount.toNat = held.length := by omega
    have hlen : held.length < v.writeBuffer.toList.length := by simpa using hlt
    show (v.writeBuffer.setIfInBounds v.remainderCount.toNat x).toList.take _ = _
    rw [hnat, List.length_append, List.length_singleton, Vector.toList_setIfInBounds,
      List.take_add_one, List.take_set_of_le le_rfl, h.bytes]
    simp [List.getElem?_set_self hlen]

theorem Vars.Buffered.pushes (h : v.Buffered held) (hle : held.length + xs.length ≤ 8) :
    (xs.foldl .push v).Buffered (held ++ xs) := by
  induction xs generalizing v held with
  | nil => simpa using h
  | cons x xs ih =>
    simp only [List.length_cons] at hle
    have hnext := ih (h.push (by omega) x) (by simp; omega)
    simpa using hnext

theorem sameSizes_pushes (xs : List UInt8) (v : Vars) : v.SameSizes (xs.foldl .push v) := by
  induction xs generalizing v with
  | nil => exact ⟨rfl, rfl⟩
  | cons x xs ih => exact (v.sameSizes_push x).trans (ih (v.push x))

theorem Vars.Buffered.word (h : v.Buffered held) (hfull : held.length = 8) :
    bytesOf v.word = held := by
  have hbytes := h.bytes
  rw [hfull, List.take_of_length_le (by simp)] at hbytes
  rw [← hbytes, Vars.word, bytesOf_word]
  apply List.ext_getElem
  · simp
  · intro i hi _
    simp only [List.length_cons, List.length_nil] at hi
    interval_cases i <;> simp

theorem Vars.Keeps.buffered (h : v.Keeps held) (hne : held ≠ []) : v.Buffered held := by
  rwa [Vars.Keeps, if_neg hne] at h

theorem Vars.Keeps.resize (h : v.Keeps held) (size : UInt32) :
    Vars.Keeps { v with writeSize := size } held := by
  unfold Vars.Keeps at *
  split
  · next hnil => rwa [if_pos hnil] at h
  · next hne =>
    rw [if_neg hne] at h
    exact ⟨h.count, h.le, h.bytes⟩

/-! ## Addresses -/

/-- An address in the bank that is written to. -/
def At (b : Board) (dest : UInt32) (pos : Nat) : Prop := dest.toNat = b.flashBank2Addr.toNat + pos

theorem FlashMap.toNat_bank2 (b : FlashMap) :
    b.flashBank2Addr.toNat = b.flashBase.toNat + b.flashBankSize.toNat := by
  have := b.fits
  rw [FlashMap.flashBank2Addr, UInt32.toNat_add]
  omega

theorem At.add {dest : UInt32} {k : Nat} (h : At b dest pos)
    (hle : pos + k ≤ b.flashBankSize.toNat) : At b (dest + k.toUInt32) (pos + k) := by
  have hfits := b.fits
  have hbank := b.toNat_bank2
  unfold At at *
  rw [UInt32.toNat_add, Nat.toUInt32, UInt32.toNat_ofNat']
  omega

theorem At.back {dest : UInt32} (h : At b dest (pos + 8)) : At b (dest - 8) pos := by
  have hlt := dest.toNat_lt
  unfold At at *
  rw [UInt32.toNat_sub]
  simp only [UInt32.reduceToNat]
  omega

/-- The first loop takes bytes until there are none or the double word is full. -/
theorem fillBuffer_spec {dest : UInt32} {source : List UInt8} (h : v.Keeps held)
    (hat : At b dest pos) (hroom : pos + source.length ≤ b.flashBankSize.toNat) :
    ∃ v' dest' taken rest, fillBuffer v dest source = (v', dest', rest) ∧ source = taken ++ rest ∧
      v'.Keeps (held ++ taken) ∧ At b dest' (pos + taken.length) ∧ v.SameSizes v' ∧
      (held = [] → taken = []) ∧ (rest = [] ∨ held = [] ∨ (held ++ taken).length = 8) := by
  induction source generalizing v dest pos held with
  | nil =>
    refine ⟨v, dest, [], [], rfl, rfl, ?_, hat, ⟨rfl, rfl⟩, fun _ => rfl, .inl rfl⟩
    simpa using h
  | cons x source ih =>
    unfold fillBuffer
    by_cases hne : held = []
    · subst hne
      have hcount : v.remainderCount = -1 := by simpa [Vars.Keeps] using h
      rw [if_neg (by omega)]
      exact ⟨v, dest, [], x :: source, rfl, rfl, h, hat, ⟨rfl, rfl⟩, fun _ => rfl, .inr (.inl rfl)⟩
    · have hbuf := h.buffered hne
      have hcount := hbuf.count
      have hle := hbuf.le
      by_cases hfull : held.length = 8
      · rw [if_neg (by omega)]
        exact ⟨v, dest, [], x :: source, rfl, rfl, by simpa using h, hat, ⟨rfl, rfl⟩, fun _ => rfl,
          .inr (.inr (by simpa using hfull))⟩
      · rw [if_pos ⟨by omega, by omega⟩]
        simp only [List.length_cons] at hroom
        have hkeeps : (v.push x).Keeps (held ++ [x]) := by
          rw [Vars.Keeps, if_neg (by simp)]
          exact hbuf.push (by omega) x
        obtain ⟨v', dest', taken, rest, hfill, rfl, hkeeps', hat', hsame, -, hend⟩ :=
          ih hkeeps (hat.add (k := 1) (by omega)) (by omega)
        refine ⟨v', dest', x :: taken, rest, hfill, rfl, ?_, ?_, (v.sameSizes_push x).trans hsame,
          fun h0 => absurd h0 hne, ?_⟩
        · simpa using hkeeps'
        · rw [List.length_cons, Nat.add_comm taken.length, ← Nat.add_assoc]
          exact hat'
        · rcases hend with hend | hend | hend
          · exact .inl hend
          · exact absurd hend (by simp)
          · exact .inr (.inr (by simpa using hend))

/-- The last loop fills the double word up. -/
theorem padBuffer_spec {dest : UInt32} {k : Nat} (h : v.Buffered held) (hat : At b dest pos)
    (hk : held.length + k = 8) (hroom : pos + k ≤ b.flashBankSize.toNat) :
    ∃ v' dest', padBuffer v dest k = (v', dest') ∧ v'.Buffered (held ++ List.replicate k 0xFF) ∧
      At b dest' (pos + k) ∧ v.SameSizes v' := by
  induction k generalizing v dest pos held with
  | zero => exact ⟨v, dest, rfl, by simpa using h, hat, ⟨rfl, rfl⟩⟩
  | succ k ih =>
    obtain ⟨v', dest', hpad, hbuf, hat', hsame⟩ := ih (h.push (by omega) 0xFF)
      (hat.add (k := 1) (by omega)) (by simp; omega) (by omega)
    refine ⟨v', dest', hpad, ?_, ?_, (v.sameSizes_push _).trans hsame⟩
    · simpa [List.replicate_succ] using hbuf
    · rwa [Nat.add_comm k, ← Nat.add_assoc]

/-! ## The flash -/

/-- The bank that is written to. -/
def St.image (s : St) : Cells UInt8 := s.dev.cells s.dev.fbMode.other

/-- The program that runs is left alone, and the next boot; the flash is used by its rules. -/
structure Untouched (s s' : St) : Prop where
  fbMode : s'.dev.fbMode = s.dev.fbMode
  bfb2 : s'.dev.bfb2 = s.dev.bfb2
  running : s'.dev.cells s.dev.fbMode = s.dev.cells s.dev.fbMode
  misuses : s'.dev.misuses = s.dev.misuses

theorem Untouched.refl (s : St) : Untouched s s := ⟨rfl, rfl, rfl, rfl⟩

theorem Untouched.trans (h : Untouched s s') (h' : Untouched s' s'') : Untouched s s'' where
  fbMode := h'.fbMode.trans h.fbMode
  bfb2 := h'.bfb2.trans h.bfb2
  running := by rw [← h.running, ← h.fbMode, h'.running]
  misuses := h'.misuses.trans h.misuses

/-- A call has failed; the flash is locked. -/
structure Failed (s s' : St) : Prop where
  untouched : Untouched s s'
  locked : s'.dev.unlocked = false
  failures : s.dev.failures < s'.dev.failures

theorem Failed.after (h : Failed s' s'') (hs : Untouched s s')
    (hle : s.dev.failures ≤ s'.dev.failures) : Failed s s'' :=
  ⟨hs.trans h.untouched, h.locked, Nat.lt_of_le_of_lt hle h.failures⟩

/-- The first pages hold `done` and are erased behind it. -/
structure Burnt (n : Nat) (done : List UInt8) (m : Cells UInt8) : Prop where
  dvd : 8 ∣ done.length
  holds : m.Holds 0 done
  blank : m.Blank done.length (2048 * ((n + 2047) / 2048))

/-- In the middle of a WRITE: the flash holds `done`, the driver's variables are `v`. -/
structure Burning (n : Nat) (done : List UInt8) (v : Vars) (s s' : St) : Prop where
  untouched : Untouched s s'
  failures : s'.dev.failures = s.dev.failures
  unlocked : s'.dev.unlocked = true
  burnt : Burnt n done s'.image
  vars : s'.vars = v

theorem Burning.setVars (h : Burning n done v s s') (v' : Vars) :
    Burning n done v' s { s' with vars := v' } :=
  ⟨⟨h.untouched.fbMode, h.untouched.bfb2, h.untouched.running, h.untouched.misuses⟩, h.failures,
    h.unlocked, h.burnt, rfl⟩

theorem Bank.other_ne (bank : Bank) : bank.other ≠ bank := by cases bank <;> decide

theorem Flash.locate_at (f : Flash) {dest : UInt32} (hat : At b dest pos) :
    f.locate b.toFlashMap dest = (f.fbMode.other, pos) := by
  unfold At at hat
  rw [Flash.locate, if_pos (UInt32.le_iff_toNat_le.mpr (by omega)), hat, Nat.add_sub_cancel_left]

theorem Flash.setCells_self (f : Flash) (bank : Bank) (m : Cells UInt8) :
    (f.setCells bank m).cells bank = m := if_pos rfl

/-- A call that spoils at most the other bank. -/
theorem Untouched.called {m : Cells UInt8} (h : Untouched s s') (ok : Bool) : Untouched s
    { s' with dev := s'.dev.called (s'.dev.setCells s'.dev.fbMode.other m) ok true } :=
  h.trans ⟨rfl, rfl, if_neg s'.dev.fbMode.other_ne.symm, rfl⟩

theorem Burnt.next (h : Burnt n done m) (hlen : xs.length = 8) :
    Burnt n (done ++ xs) (m.store done.length xs) := by
  refine ⟨?_, ?_, ?_⟩
  · rw [List.length_append, hlen]
    exact Nat.dvd_add h.dvd (Nat.dvd_refl 8)
  · have hholds : (m.store (0 + done.length) xs).Holds 0 (done ++ xs) := h.holds.store
    rwa [Nat.zero_add] at hholds
  · rw [List.length_append]
    exact h.blank.store

/-- A double word behind what is done. -/
theorem Burning.program (hb : b.Lawful) {dest : UInt32} (data : UInt64)
    (h : Burning n done v s s') (hat : At b dest done.length) (hlt : done.length < n)
    (hn : n ≤ b.flashBankSize.toNat) :
    ∃ status d, s'.dev.program b dest data = (status, d) ∧
      ((status = .ok ∧ Burning n (done ++ bytesOf data) v s { s' with dev := d }) ∨
        (status ≠ .ok ∧ Untouched s { s' with dev := d } ∧ s.dev.failures < d.failures)) := by
  obtain ⟨k, hk⟩ := h.burnt.dvd
  obtain ⟨i, hi⟩ := b.base_dvd
  obtain ⟨j, hj⟩ := b.size_dvd
  have hbank := b.toNat_bank2
  have hlegal : s'.dev.canProgram b.toFlashMap dest = true := by
    have hready : s'.image.ready done.length 8 = true :=
      Cells.ready_iff.mpr (h.burnt.blank.mono le_rfl (by omega))
    unfold At at hat
    simp only [Flash.canProgram, s'.dev.locate_at hat, h.unlocked, Bool.and_eq_true, beq_iff_eq,
      decide_eq_true_eq, UInt32.le_iff_toNat_le]
    exact ⟨⟨⟨⟨trivial, by omega⟩, by omega⟩, by omega⟩, hready⟩
  obtain ⟨m, hflash, hstored⟩ := hb.programs s'.dev.calls dest data s'.dev.toFlash hlegal
  rw [s'.dev.locate_at hat] at hflash hstored
  refine ⟨_, _, rfl, ?_⟩
  rw [hlegal, hflash]
  generalize (b.hal.program s'.dev.calls dest data s'.dev.toFlash).1 = status at hstored ⊢
  by_cases hok : status = .ok
  · obtain rfl := hstored hok
    refine .inl ⟨hok, h.untouched.called _, ?_, h.unlocked, ?_, h.vars⟩
    · rw [← h.failures, hok]
      rfl
    · have hnext : Burnt n _ (s'.image.store done.length (bytesOf data)) := h.burnt.next rfl
      rwa [← s'.dev.setCells_self s'.dev.fbMode.other (s'.image.store _ _)] at hnext
  · refine .inr ⟨hok, h.untouched.called _, ?_⟩
    show _ < s'.dev.failures + if decide (status = .ok) = true then 0 else 1
    rw [if_neg (by simpa using hok), h.failures]
    omega

theorem meets_onDevice {α β : Type} {f : Device → α × Device} {k : α → M β} {a : α} {d : Device}
    {Q : β → St → Prop} {E : UINT → St → Prop} (hf : f s.dev = (a, d))
    (h : Meets (k a) { s with dev := d } Q E) : Meets (onDevice f >>= k) s Q E := by
  have hcall : onDevice f s = .ok a { s with dev := d } := by
    unfold onDevice
    rw [hf]
  exact .bind (.of_ok hcall h)

theorem Burning.programWord (hb : b.Lawful) {dest : UInt32} {data : UInt64}
    (h : Burning n done v s s') (hat : At b dest done.length) (hlt : done.length < n)
    (hn : n ≤ b.flashBankSize.toNat) :
    Meets (programWord b dest data) s' (fun _ => Burning n (done ++ bytesOf data) v s)
      (fun e s'' => e ≠ 0 ∧ Failed s s'') := by
  obtain ⟨status, d, hrun, hend⟩ := h.program hb data hat hlt hn
  refine meets_onDevice hrun ?_
  rcases hend with ⟨rfl, hburning⟩ | ⟨hne, huntouched, hfail⟩
  · exact .ite (fun hbad => absurd rfl hbad) fun _ => .pure hburning
  · refine .ite (fun _ => .bind_modify (.throw ⟨?_, ?_, rfl, hfail⟩)) fun hok =>
      absurd hok (not_not.mpr hne)
    · cases status <;> first | exact absurd rfl hne | decide
    · exact huntouched.trans ⟨rfl, rfl, rfl, rfl⟩

/-- The second loop leaves the last one to eight bytes. -/
theorem Burning.writeWords (hb : b.Lawful) {dest : UInt32} {source : List UInt8}
    (h : Burning n done v s s') (hat : At b dest done.length)
    (hle : done.length + source.length ≤ n)
    (hn : n ≤ b.flashBankSize.toNat) :
    Meets (writeWords b dest source) s' (fun r s'' => ∃ words, source = words ++ r.2 ∧
        r.2.length ≤ 8 ∧ (r.2 = [] → source = []) ∧ At b r.1 (done ++ words).length ∧
        Burning n (done ++ words) v s s'')
      (fun e s'' => e ≠ 0 ∧ Failed s s'') := by
  fun_induction Stm32.writeWords b dest source generalizing done s' with
  | case1 dest x0 x1 x2 x3 x4 x5 x6 x7 x8 source ih =>
    simp only [List.length_cons] at hle
    refine .seq (h.programWord hb hat (by omega) hn) fun _ s1 h1 => ?_
    rw [bytesOf_word] at h1
    have hlen : (done ++ [x0, x1, x2, x3, x4, x5, x6, x7]).length = done.length + 8 := by simp
    refine (ih h1 (hlen ▸ hat.add (k := 8) (by omega)) (by simp; omega)).mono ?_ fun _ _ h => h
    rintro r s2 ⟨words, hsource, h8, hnil, hat2, h2⟩
    refine ⟨[x0, x1, x2, x3, x4, x5, x6, x7] ++ words, by simp [hsource], h8, ?_, ?_, ?_⟩
    · intro hr
      cases hnil hr
    · rwa [← List.append_assoc]
    · rwa [← List.append_assoc]
  | case2 dest source hshort =>
    refine .pure ⟨[], rfl, ?_, id, ?_, ?_⟩
    · by_contra hlong
      rcases source with _ | ⟨x0, _ | ⟨x1, _ | ⟨x2, _ | ⟨x3, _ | ⟨x4, _ | ⟨x5, _ | ⟨x6, _ | ⟨x7, _ |
        ⟨x8, source⟩⟩⟩⟩⟩⟩⟩⟩⟩
      case cons.cons.cons.cons.cons.cons.cons.cons.cons => exact hshort _ _ _ _ _ _ _ _ _ _ rfl
      all_goals simp at hlong
    · rwa [List.append_nil]
    · rwa [List.append_nil]

/-- In the middle of a WRITE: of `text`, the flash lacks what the buffer holds. -/
structure Sending (n : Nat) (text held : List UInt8) (v : Vars) (s s' : St) : Prop where
  keeps : v.Keeps held
  burning : ∃ done, text = done ++ held ∧ Burning n done v s s'

theorem Sending.flushBuffer (hb : b.Lawful) {dest : UInt32} {text : List UInt8}
    (h : Sending n text held v s s') (hat : At b dest text.length) (hle : text.length ≤ n)
    (hn : n ≤ b.flashBankSize.toNat) :
    Meets (flushBuffer b dest) s' (fun _ s'' => ∃ v' held', v.SameSizes v' ∧
        Sending n text held' v' s s'' ∧ (held' = [] ∨ held' = held ∧ held.length ≠ 8))
      (fun e s'' => e ≠ 0 ∧ Failed s s'') := by
  obtain ⟨hkeeps, done, rfl, hburning⟩ := h
  rw [List.length_append] at hat hle
  refine .bind_get ?_
  rw [hburning.vars]
  refine .ite (fun hcount => ?_) fun hcount =>
    .pure ⟨v, held, ⟨rfl, rfl⟩, ⟨hkeeps, done, rfl, hburning⟩, ?_⟩
  · have hne : held ≠ [] := by
      rintro rfl
      have : v.remainderCount = -1 := by simpa [Vars.Keeps] using hkeeps
      omega
    have hbuf := hkeeps.buffered hne
    have hfull : held.length = 8 := by
      have := hbuf.count
      omega
    rw [hfull] at hat hle
    refine .seq (hburning.programWord hb hat.back (by omega) hn) fun _ s1 h1 => ?_
    rw [hbuf.word hfull] at h1
    refine .modify ⟨{ v with remainderCount := -1 }, [], ⟨rfl, rfl⟩, ⟨?_, done ++ held, ?_, ?_⟩,
      .inl rfl⟩
    · rw [Vars.Keeps, if_pos rfl]
    · rw [List.append_nil]
    · rw [← h1.vars]
      exact h1.setVars _
  · by_cases hne : held = []
    · exact .inl hne
    · refine .inr ⟨rfl, fun hfull => hcount ?_⟩
      rw [(hkeeps.buffered hne).count, hfull]
      rfl

theorem Sending.keepRest {text source : List UInt8} (h : Sending n text held v s s')
    (hsource : source = [] ∨ held = []) (h8 : source.length ≤ 8) :
    Meets (keepRest source) s' (fun _ s'' => ∃ v', v.SameSizes v' ∧
      Sending n (text ++ source) (held ++ source) v' s s'') (fun _ _ => False) := by
  obtain ⟨hkeeps, done, rfl, hburning⟩ := h
  have hcounter : v.SameSizes (if source = [] then v else { v with remainderCount := 0 }) := by
    split <;> exact ⟨rfl, rfl⟩
  refine .modify ⟨_, ?_, ?_, done, List.append_assoc .., hburning.setVars _⟩
  all_goals rw [hburning.vars]
  · exact hcounter.trans (sameSizes_pushes _ _)
  · by_cases hnil : source = []
    · subst hnil
      simpa using hkeeps
    · obtain rfl := hsource.resolve_left hnil
      have hempty : Vars.Buffered { v with remainderCount := 0 } [] := ⟨rfl, by simp, rfl⟩
      have hle : ([] : List UInt8).length + source.length ≤ 8 := by simpa using h8
      have hbuf := hempty.pushes hle
      rw [Vars.Keeps, if_neg (by simpa using hnil)]
      simpa only [if_neg hnil] using hbuf

/-- Double words go past the buffer only when it is empty. -/
theorem Sending.writeWords (hb : b.Lawful) {dest : UInt32} {text source : List UInt8}
    (h : Sending n text held v s s') (hsource : source = [] ∨ held = [])
    (hat : At b dest text.length)
    (hle : text.length + source.length ≤ n) (hn : n ≤ b.flashBankSize.toNat) :
    Meets (writeWords b dest source) s' (fun r s'' => ∃ words, source = words ++ r.2 ∧
        r.2.length ≤ 8 ∧ (r.2 = [] ∨ held = []) ∧ At b r.1 (text ++ words).length ∧
        Sending n (text ++ words) held v s s'')
      (fun e s'' => e ≠ 0 ∧ Failed s s'') := by
  by_cases hnil : source = []
  · subst hnil
    refine .pure ⟨[], rfl, by simp, .inl rfl, ?_, ?_⟩
    · rwa [List.append_nil]
    · rwa [List.append_nil]
  · obtain rfl := hsource.resolve_left hnil
    obtain ⟨hkeeps, done, htext, hburning⟩ := h
    obtain rfl : text = done := by rw [htext, List.append_nil]
    refine (hburning.writeWords hb hat hle hn).mono ?_ fun _ _ h => h
    rintro r s2 ⟨words, hwords, h8, -, hat2, h2⟩
    exact ⟨words, hwords, h8, .inr rfl, hat2, hkeeps, _, (List.append_nil _).symm, h2⟩

/-- The end of a WRITE: at the end of the firmware nothing is held back. -/
theorem Sending.programLast (hb : b.Lawful) {dest : UInt32} {text : List UInt8}
    (h : Sending n text held v s s') (htotal : v.totalWriteSize.toNat = n)
    (hsize : v.writeSize.toNat = text.length)
    (hat : At b dest text.length) (hle : text.length ≤ n) (hn : n ≤ b.flashBankSize.toNat) :
    Meets (programLast b dest) s' (fun _ s'' => if text.length < n then
        Sending n text held v s s'' else
        ∃ pad < 8, ∃ v', Burning n (text ++ List.replicate pad 0xFF) v' s s'')
      (fun e s'' => e ≠ 0 ∧ Failed s s'') := by
  obtain ⟨hkeeps, done, htext, hburning⟩ := h
  refine .bind_get ?_
  rw [hburning.vars]
  have hend : v.totalWriteSize ≤ v.writeSize ↔ ¬ text.length < n := by
    rw [UInt32.le_iff_toNat_le, htotal, hsize]
    omega
  by_cases hne : held = []
  · have hcount : v.remainderCount = -1 := by simpa [Vars.Keeps, hne] using hkeeps
    rw [if_neg (by omega)]
    refine .pure ?_
    split
    · exact ⟨hkeeps, done, htext, hburning⟩
    · obtain rfl : done = text := by rw [htext, hne, List.append_nil]
      refine ⟨0, by omega, v, ?_⟩
      simpa using hburning
  · have hbuf := hkeeps.buffered hne
    have hcount := hbuf.count
    have hpos := List.length_pos_iff.mpr hne
    have hlen : text.length = done.length + held.length := by rw [htext, List.length_append]
    refine .ite (fun hc => ?_) fun hc => .pure ?_
    · obtain ⟨k, hk⟩ := hburning.burnt.dvd
      obtain ⟨j, hj⟩ := b.size_dvd
      have hle8 := hbuf.le
      have hpad : (8 - v.remainderCount).toNat = 8 - held.length := by omega
      obtain ⟨v', dest', hrun, hbuf', hat', -⟩ := padBuffer_spec (k := 8 - held.length) hbuf hat
        (by omega) (by omega)
      rw [hpad, hrun]
      simp only [if_neg (hend.mp hc.2)]
      have hfull : (held ++ List.replicate (8 - held.length) (0xFF : UInt8)).length = 8 := by
        simp
        omega
      have hback : At b (dest' - 8) done.length := by
        refine At.back ?_
        rwa [show done.length + 8 = text.length + (8 - held.length) by omega]
      refine .bind_modify ((hburning.setVars v').programWord hb hback (by omega) hn |>.mono ?_
        fun _ _ h => h)
      intro _ s1 h1
      rw [hbuf'.word hfull, ← List.append_assoc, ← htext] at h1
      exact ⟨8 - held.length, by omega, v', h1⟩
    · rw [if_pos (Classical.not_not.mp fun hlt => hc ⟨by omega, hend.mpr hlt⟩)]
      exact ⟨hkeeps, done, htext, hburning⟩

/-- A command has succeeded. -/
structure Kept (s s' : St) : Prop where
  untouched : Untouched s s'
  failures : s'.dev.failures = s.dev.failures
  locked : s'.dev.unlocked = false

theorem Burning.locks (h : Burning n done v s s') :
    Kept s { s' with dev := s'.dev.lock } :=
  ⟨⟨h.untouched.fbMode, h.untouched.bfb2, h.untouched.running, h.untouched.misuses⟩,
    h.failures, rfl⟩

/-- Between two commands: `text` of the `n` bytes has been sent. -/
structure Writing (b : Board) (n : Nat) (text : List UInt8) (s : St) : Prop where
  total : s.vars.totalWriteSize.toNat = n
  size : s.vars.writeSize.toNat = text.length
  lt : text.length < n
  room : n ≤ b.flashBankSize.toNat
  kept : ∃ done held, text = done ++ held ∧ s.vars.Keeps held ∧ Burnt n done s.image

/-- The whole firmware is in the flash, its last double word filled up. -/
def Written (text : List UInt8) (s : St) : Prop :=
  ∃ pad < 8, Burnt text.length (text ++ List.replicate pad 0xFF) s.image

/-- What a WRITE leads to, with `text` sent. -/
def Reached (b : Board) (n : Nat) (text : List UInt8) (s : St) : Prop :=
  if text.length < n then Writing b n text s else Written text s

/-- A piece of the firmware, from where the one before ended. -/
theorem Writing.internalFlashWrite (hb : b.Lawful) {dest : UInt32} {text source : List UInt8}
    (h : Writing b n text s) (hat : At b dest text.length) (hle : text.length + source.length ≤ n) :
    Meets (internalFlashWrite b dest source) s (fun status s' => status = 0 ∧ Kept s s' ∧
        Reached b n (text ++ source) s')
      (fun e s' => e ≠ 0 ∧ Failed s s') := by
  obtain ⟨done, held, rfl, hkeeps, hburnt⟩ := h.kept
  have hroom := h.room
  have hbank := b.flashBankSize.toNat_lt
  have hsize : (s.vars.writeSize + source.length.toUInt32).toNat =
      (done ++ held ++ source).length := by
    have hlen : (done ++ held ++ source).length = (done ++ held).length + source.length :=
      List.length_append
    rw [UInt32.toNat_add, h.size, Nat.toUInt32, UInt32.toNat_ofNat', hlen]
    omega
  obtain ⟨v1, dest1, taken, rest, hfill, rfl, hkeeps1, hat1, hsame1, hnone, hend⟩ :=
    fillBuffer_spec (hkeeps.resize (s.vars.writeSize + source.length.toUInt32)) hat
      (hle.trans hroom)
  refine .bind_modify (.bind_get ?_)
  rw [hfill]
  dsimp only
  refine .bind_modify (.bind_modify ?_)
  have h1 : Sending n (done ++ held ++ taken) (held ++ taken) v1 s
      { s with vars := v1, dev := s.dev.unlock } :=
    ⟨hkeeps1, done, List.append_assoc .., ⟨rfl, rfl, rfl, rfl⟩, rfl, rfl, hburnt, rfl⟩
  rw [← List.length_append] at hat1
  have hlen0 : (taken ++ rest).length = taken.length + rest.length := List.length_append
  have hlen1 : (done ++ held ++ taken).length = (done ++ held).length + taken.length :=
    List.length_append
  rw [hlen0] at hle
  refine .seq (h1.flushBuffer hb hat1 (by omega) hroom) ?_
  rintro - s2 ⟨v2, held2, hsame2, h2, hheld2⟩
  have hor : rest = [] ∨ held2 = [] := by
    rcases hheld2 with hheld2 | ⟨rfl, hshort⟩
    · exact .inr hheld2
    · rcases hend with hend | hend | hend
      · exact .inl hend
      · exact .inr (by rw [hend, hnone hend]; rfl)
      · exact absurd hend hshort
  refine .seq (h2.writeWords hb hor hat1 (by omega) hroom) ?_
  rintro ⟨dest3, left⟩ s3 ⟨words, rfl, h8, hor3, hat3, h3⟩
  refine .seq ((h3.keepRest hor3 h8).mono (fun _ _ h => h) fun _ _ h => h.elim) ?_
  rintro - s4 ⟨v4, hsame4, h4⟩
  have htext : done ++ held ++ taken ++ words ++ left =
      done ++ held ++ (taken ++ (words ++ left)) := by simp
  have hlen4 : (done ++ held ++ taken ++ words ++ left).length =
      (done ++ held ++ taken ++ words).length + left.length := List.length_append
  rw [htext] at h4 hlen4
  have hat4 : At b (dest3 + left.length.toUInt32)
      (done ++ held ++ (taken ++ (words ++ left))).length := by
    rw [hlen4]
    refine hat3.add ?_
    rw [← hlen4]
    simp only [List.length_append] at *
    omega
  have hsame := (hsame1.trans hsame2).trans hsame4
  refine .seq (h4.programLast hb (hsame.total ▸ h.total) (hsame.size ▸ hsize) hat4 ?_ hroom) ?_
  · simp only [List.length_append] at *
    omega
  intro _ s5 h5
  refine .bind_modify (.pure ⟨rfl, ?_⟩)
  unfold Reached
  split at h5
  · next hlt =>
    obtain ⟨hkeeps5, done5, htext5, h5⟩ := h5
    refine ⟨h5.locks, ?_⟩
    rw [if_pos hlt]
    refine ⟨?_, ?_, hlt, hroom, done5, _, htext5, ?_, h5.burnt⟩
    all_goals rw [show _ = v4 from h5.vars]
    · exact hsame.total ▸ h.total
    · exact hsame.size ▸ hsize
    · exact hkeeps5
  · next hnlt =>
    obtain ⟨pad, hpad, v5, h5⟩ := h5
    refine ⟨h5.locks, ?_⟩
    rw [if_neg hnlt]
    refine ⟨pad, hpad, ?_⟩
    have hn : (done ++ held ++ (taken ++ (words ++ left))).length = n := by
      simp only [List.length_append] at *
      omega
    rw [hn]
    exact h5.burnt

end Iotc.Stm32
