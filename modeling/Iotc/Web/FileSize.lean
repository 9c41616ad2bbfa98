import Iotc.Lib.Decimal
import Iotc.Lib.Hex
import Iotc.Web.Rules

/-!
# The announced file size

`header_file_size_callback` goes by the last field that is spelled `Content-Length`, of which it
copies the value without a test of its length and lets `%i` choose the base. `size_parsed_iff`
says for which header fields of a HEAD answer a download takes the size that they announce.
-/

namespace Iotc.Web

open Iotc.C Iotc.Lib Iotc.Lib.Decimal Iotc.Resume

/-! ## Numerals read by `%i` -/

theorem digitValue_digit {c : UInt8} (h : IsDigit c) : digitValue c = some (digit c) := by
  unfold digitValue
  exact if_pos h

theorem scanDigits_ten {cs : List UInt8} (h : ∀ c ∈ cs, IsDigit c) (n : Nat) :
    scanDigits 10 cs (some n) = some (valueFrom n cs) := by
  induction cs generalizing n with
  | nil => rfl
  | cons c cs ih =>
    have hc := h c List.mem_cons_self
    rw [scanDigits, digitValue_digit hc, valueFrom_cons, Nat.mul_comm]
    simp only [if_pos (digit_lt hc), Option.getD_some]
    exact ih (fun c hc => h c (List.mem_cons_of_mem _ hc)) _

theorem scanDigits_eight {cs : List UInt8} (h : ∀ c ∈ cs, IsDigit c) (n : Nat) :
    scanDigits 8 cs (some n) = some (octalFrom n cs) := by
  induction cs generalizing n with
  | nil => rfl
  | cons c cs ih =>
    have hc := h c List.mem_cons_self
    rw [scanDigits, digitValue_digit hc, octalFrom, Nat.mul_comm]
    simp only [Option.getD_some]
    split
    · exact ih (fun c hc => h c (List.mem_cons_of_mem _ hc)) _
    · rfl

/-- A leading zero chooses the base. -/
theorem scanMagnitude_numeral {cs : List UInt8} (h : Numeral cs) :
    scanMagnitude cs =
      some (if cs.head? = some 0x30 then octalFrom 0 cs.tail else Decimal.value cs) := by
  obtain ⟨hne, hdigits⟩ := h
  rcases cs with _ | ⟨c, cs⟩
  · exact absurd rfl hne
  have hc := hdigits c List.mem_cons_self
  have hcs : ∀ d ∈ cs, IsDigit d := fun d hd => hdigits d (List.mem_cons_of_mem _ hd)
  have hten : scanDigits 10 (c :: cs) none = some (Decimal.value (c :: cs)) := by
    rw [scanDigits, digitValue_digit hc]
    simp only [if_pos (digit_lt hc)]
    exact scanDigits_ten hcs _
  by_cases hzero : c = 0x30
  · subst hzero
    rw [List.head?_cons, if_pos rfl]
    rcases cs with _ | ⟨x, cs⟩
    · exact hten
    · have hx := (hcs x List.mem_cons_self).2
      have hbase : ¬ (x = 120 ∨ x = 88) := by
        rintro (rfl | rfl) <;> exact absurd hx (by decide)
      rw [scanMagnitude, if_neg hbase]
      exact scanDigits_eight hcs 0
  · rw [if_neg (by simpa using hzero)]
    rw [← hten]
    unfold scanMagnitude
    split
    · next h => exact absurd (List.cons.inj h).1 hzero
    · rfl

theorem isSpace_digit : ∀ c : UInt8, IsDigit c → isSpace c = false :=
  Hex.forall_byte (by decide +kernel)

theorem sscanfInt_numeral {cs : List UInt8} (h : Numeral cs) {m : Nat}
    (hm : scanMagnitude cs = some m) : sscanfInt cs = some (min (m : Int) 2147483647) := by
  rcases cs with _ | ⟨c, cs⟩
  · exact absurd rfl h.ne_nil
  have hc := h.digits c List.mem_cons_self
  have hspace := isSpace_digit c hc
  have hminus : c ≠ 45 := by
    rintro rfl
    exact absurd hc (by decide)
  have hplus : c ≠ 43 := by
    rintro rfl
    exact absurd hc (by decide)
  unfold sscanfInt
  simp only [List.dropWhile_cons, hspace]
  simp [hminus, hplus, hm]

/-- Whether a numeral is read as the number it stands for. -/
theorem read_numeral_iff {cs : List UInt8} (h : Numeral cs) {v : SizeT}
    (hv : Decimal.value cs = v.toNat) :
    (∃ i, sscanfInt cs = some i ∧ UInt32.ofInt i = v) ↔
      (v ≤ 7 ∨ cs.head? ≠ some 0x30) ∧ v ≤ 0x7FFFFFFF := by
  have hread : ∀ m : Nat, scanMagnitude cs = some m →
      ((∃ i, sscanfInt cs = some i ∧ UInt32.ofInt i = v) ↔ min m 2147483647 = v.toNat) := by
    intro m hm
    have hlt : min m 2147483647 < 4294967296 := by omega
    have hofInt : UInt32.ofInt (min (m : Int) 2147483647) = .ofNat (min m 2147483647) := by
      unfold UInt32.ofInt
      congr 1
      omega
    rw [sscanfInt_numeral h hm, ← UInt32.toNat_ofNat_of_lt' hlt, UInt32.toNat_inj, ← hofInt]
    simp
  rw [UInt32.le_iff_toNat_le, UInt32.le_iff_toNat_le, hread _ (scanMagnitude_numeral h)]
  simp only [UInt32.reduceToNat]
  have hv32 := v.toNat_lt
  split
  · next hzero =>
    obtain ⟨cs, rfl⟩ := List.head?_eq_some_iff.mp hzero
    have hval : Decimal.value (0x30 :: cs) = Decimal.value cs := rfl
    have := octalFrom_cases (m := 0) (n := 0) cs (.inl ⟨rfl, Nat.zero_le 7⟩)
    unfold Decimal.value at *
    simp only [List.tail_cons, hzero, ne_eq, not_true, or_false]
    omega
  · next hzero =>
    simp only [hzero, ne_eq, not_false_iff, or_true, true_and]
    omega

/-! ## The last field -/

/-- The values of the fields that the callback takes. -/
def contentLengths (fields : List (List UInt8 × List UInt8)) : List (List UInt8) :=
  (fields.filter (·.1 = hdrContentLengthStr)).map (·.2)

/-- What the callback leaves in `file_size` for a value. -/
def readLength (dummy : UInt32) (value : List UInt8) : SizeT :=
  match sscanfInt (value.takeWhile (· ≠ 0)) with
  | some i => UInt32.ofInt i
  | none => dummy

theorem headerFileSizeCallback_eq (dummy : UInt32) (name value : List UInt8) (fileSize : SizeT) :
    headerFileSizeCallback dummy name value fileSize =
      if name = hdrContentLengthStr then
        if value.length ≤ maxDataLengthDigits then .ok (readLength dummy value) else .error .fault
      else .ok fileSize := by
  unfold headerFileSizeCallback
  by_cases hname : name = hdrContentLengthStr
  · subst hname
    simp only [ne_eq, not_true, if_false, if_true]
    by_cases hlen : value.length ≤ maxDataLengthDigits
    · rw [if_neg (by omega), if_pos hlen, readLength]
      cases sscanfInt (value.takeWhile (· ≠ 0)) <;> rfl
    · rw [if_pos (by omega), if_neg hlen]
  · simp only [ne_eq, hname, not_false_iff, if_true, if_false, ite_self]

theorem headerFileSize_eq (dummy : UInt32) (fields : List (List UInt8 × List UInt8))
    (fileSize : SizeT) :
    headerFileSize dummy fields fileSize =
      if ∀ value ∈ contentLengths fields, value.length ≤ maxDataLengthDigits then
        .ok (((contentLengths fields).getLast?.map (readLength dummy)).getD fileSize)
      else .error .fault := by
  induction fields generalizing fileSize with
  | nil => simp [headerFileSize, contentLengths]
  | cons field fields ih =>
    obtain ⟨name, value⟩ := field
    rw [headerFileSize, headerFileSizeCallback_eq]
    by_cases hname : name = hdrContentLengthStr
    · have hfields : contentLengths ((name, value) :: fields) = value :: contentLengths fields := by
        simp [contentLengths, hname]
      rw [if_pos hname, hfields]
      simp only [List.forall_mem_cons, List.getLast?_cons]
      by_cases hlen : value.length ≤ maxDataLengthDigits
      · rw [if_pos hlen]
        show headerFileSize dummy fields (readLength dummy value) = _
        simp only [ih, hlen, true_and]
        cases (contentLengths fields).getLast? <;> rfl
      · simp only [hlen, false_and, if_false]
    · have hfields : contentLengths ((name, value) :: fields) = contentLengths fields := by
        simp [contentLengths, hname]
      rw [if_neg hname, hfields]
      exact ih fileSize

/-! ## Announced sizes -/

variable {B : Build}

/-- The name of the field, in whatever case it is spelled. -/
def NamesLength (name : List UInt8) : Prop :=
  name.map Hex.lower = hdrContentLengthStr.map Hex.lower

/-- A field announces `v`: it has the right name and the digits of `v`. -/
def Announces (fields : List (List UInt8 × List UInt8)) (v : SizeT) : Prop :=
  ∃ field ∈ fields, NamesLength field.1 ∧ Numeral field.2 ∧ Decimal.value field.2 = v.toNat

/-- The request handler ends with an error where it stands after `o`, without an event. -/
def Refuses (o : Out Op Ans (St B) UINT) (run : Out Op Ans (St B) UINT) : Prop :=
  ∃ status, status ≠ nxSuccess ∧ run = ⟨.ok status, o.st, o.tr⟩

/-- The `get_file_size` of a request handler. -/
def fileSizeRun (ans : Tr Op Ans → (op : Op) → Ans op) (r : IotConnectHttpRequest)
    (client : NxWebHttpClient) (s : St B) (t : Tr Op Ans) : Out Op Ans (St B) UINT :=
  (getFileSize r (nxWebHttpClientResponseHeaderCallbackSet client .headerFileSizeCallback)).run
    (.sequential ans) s t

/-- Whatever a HEAD answer with these fields is about: the callback stays in its buffer, a size that
is announced is taken, and where none is the download is refused. -/
structure SizeParsed (B : Build) (fields : List (List UInt8 × List UInt8)) : Prop where
  in_buffer : ∀ dummy fileSize, headerFileSize dummy fields fileSize ≠ .error .fault
  taken : ∀ (ans : Tr Op Ans → (op : Op) → Ans op),
    (∀ t, (ans t (.nxWebHttpClientResponseBodyGet .head)).fields = fields) →
    ∀ fuel r client (s : St B) t cb, s.dl.eventCb = some (.app cb) →
    let o := fileSizeRun ans r client s t
    o.res = .ok nxSuccess →
      (∀ v, Announces fields v → o.st.dl.fileSize = v) ∧
      ((∀ v, ¬ Announces fields v) →
        Refuses o ((requestHandler fuel r client).run (.sequential ans) s t))

/-- The last field that the callback takes gives the number `v`: as the digits of `v`, which must
not look octal nor exceed an `int`, or as whatever else `%i` reads as `v`. -/
def LastGives (fields : List (List UInt8 × List UInt8)) (v : SizeT) : Prop :=
  match (contentLengths fields).getLast? with
  | none => v = 0
  | some value =>
    if Numeral value ∧ Decimal.value value = v.toNat then
      (v ≤ 7 ∨ value.head? ≠ some 0x30) ∧ v ≤ 0x7FFFFFFF
    else ∃ i, sscanfInt (value.takeWhile (· ≠ 0)) = some i ∧ UInt32.ofInt i = v

/-- The fields announce one size, no value is too long, and the last one gives that size. -/
structure WellAnnounced (fields : List (List UInt8 × List UInt8)) : Prop where
  short : ∀ value ∈ contentLengths fields, value.length ≤ maxDataLengthDigits
  gives : ∃ v, Announces fields v ∧ (∀ w, Announces fields w → w = v) ∧ LastGives fields v

theorem readLength_iff {value : List UInt8} {v : SizeT} :
    (∀ dummy, readLength dummy value = v) ↔
      ∃ i, sscanfInt (value.takeWhile (· ≠ 0)) = some i ∧ UInt32.ofInt i = v := by
  unfold readLength
  cases sscanfInt (value.takeWhile (· ≠ 0)) with
  | none =>
    simp only [reduceCtorEq, false_and, exists_false, iff_false]
    intro h
    have hsucc : v + 1 = v := h (v + 1)
    simp at hsucc
  | some i => simp

theorem takeWhile_numeral {value : List UInt8} (h : Numeral value) :
    value.takeWhile (· ≠ 0) = value := by
  rw [List.takeWhile_eq_self_iff]
  intro c hc
  have hdigit := h.digits c hc
  simp only [ne_eq, decide_eq_true_eq]
  rintro rfl
  exact absurd hdigit (by decide)

/-- The last field gives what the callback leaves, whatever the uninitialised variable holds. -/
theorem lastGives_iff {fields : List (List UInt8 × List UInt8)} {v : SizeT} :
    LastGives fields v ↔
      ∀ dummy, ((contentLengths fields).getLast?.map (readLength dummy)).getD 0 = v := by
  unfold LastGives
  cases (contentLengths fields).getLast? with
  | none => simp [eq_comm]
  | some value =>
    simp only [Option.map_some, Option.getD_some]
    rw [readLength_iff]
    split
    · next h => rw [takeWhile_numeral h.1, read_numeral_iff h.1 h.2]
    · rfl

/-! ## Runs -/

/-- A download whose `get_file_size` succeeded goes on to the FILE_SIZE event. -/
theorem not_refuses {ans : Tr Op Ans → (op : Op) → Ans op} {fuel : Nat} {r : IotConnectHttpRequest}
    {client : NxWebHttpClient} {s : St B} {t : Tr Op Ans} {cb : Nat}
    (hok : (fileSizeRun ans r client s t).res = .ok nxSuccess)
    (hcb : (fileSizeRun ans r client s t).st.dl.eventCb = some (.app cb)) :
    ¬ Refuses (fileSizeRun ans r client s t)
      ((requestHandler fuel r client).run (.sequential ans) s t) := by
  rintro ⟨status, -, hrun⟩
  unfold requestHandler at hrun
  rw [run_bind] at hrun
  change (fileSizeRun ans r client s t).bind _ = _ at hrun
  generalize fileSizeRun ans r client s t = o at hok hcb hrun
  obtain ⟨res, s', t'⟩ := o
  obtain rfl : res = .ok nxSuccess := hok
  have hfire : ∀ evt, (fireEvent evt).run (.sequential ans) s' t' =
      ⟨.ok (ans t' (.userDownloadCb cb evt)), s',
        t' ++ [⟨.userDownloadCb cb evt, ans t' (.userDownloadCb cb evt)⟩]⟩ := by
    intro evt
    unfold fireEvent
    rw [run_bind, run_get, Out.bind_ok, show s'.dl.eventCb = some (.app cb) from hcb]
    exact run_call_quiet (World.sequential_quiet ans _) s' t'
  have hlonger : ∀ (p : M B UINT) (ev : Ev Op Ans),
      p.run (.sequential ans) s' (t' ++ [ev]) ≠ ⟨.ok status, s', t'⟩ := by
    intro p ev h
    obtain ⟨u, hu⟩ := Prog.run_grows (.sequential ans) s' (t' ++ [ev]) p
    rw [h] at hu
    have hlen := congrArg List.length hu
    simp at hlen
  rw [Out.bind_ok, run_ite, if_neg (by decide), run_bind, run_get, Out.bind_ok, run_bind, hfire,
    Out.bind_ok] at hrun
  exact hlonger _ _ hrun

/-- A HEAD answer with given fields. -/
def headWith (fields : List (List UInt8 × List UInt8)) (dummy : UInt32) : Delivery :=
  { headOf "" with fields, dummy }

/-- On a network where everything succeeds, `file_size` is what the callback leaves. -/
theorem fileSizeRun_allGood {fields : List (List UInt8 × List UInt8)} {dummy : UInt32} {n : SizeT}
    (h : headerFileSize dummy fields 0 = .ok n) (client : NxWebHttpClient) (s : St B) :
    let o := fileSizeRun (fun _ => allGood (headWith fields dummy) (chunkOf [])) fileRequest client
      s []
    o.res = .ok nxSuccess ∧ o.st.dl.fileSize = n ∧ o.st.dl.eventCb = s.dl.eventCb := by
  intro o
  obtain ⟨t, ht⟩ : ∃ t, o = (getResponse .head (nxWebHttpClientResponseHeaderCallbackSet client
      .headerFileSizeCallback)).run
        (.sequential fun _ => allGood (headWith fields dummy) (chunkOf []))
        (s.setDl ({ · with fileSize := 0 })) t := ⟨_, rfl⟩
  obtain ⟨e, hcb, -⟩ | ⟨fileSize, buffer, dataLength, u, hcb, -, hrun, -⟩ := run_getResponse
    (fun op _ => World.sequential_quiet (fun _ => allGood (headWith fields dummy) (chunkOf [])) op)
    .head (nxWebHttpClientResponseHeaderCallbackSet client .headerFileSizeCallback)
    (s.setDl ({ · with fileSize := 0 })) t rfl
  · cases h.symm.trans hcb
  · obtain rfl := Except.ok.inj (h.symm.trans hcb)
    rw [ht, hrun]
    exact ⟨rfl, rfl, rfl⟩

/-- The size that a HEAD answer announces is taken, and an answer that announces none is refused,
exactly when the fields announce one size and the last of them is read as that size. -/
theorem size_parsed_iff (fields : List (List UInt8 × List UInt8)) :
    SizeParsed B fields ↔ WellAnnounced fields := by
  constructor
  · intro h
    have hshort : ∀ value ∈ contentLengths fields, value.length ≤ maxDataLengthDigits := by
      by_contra hlong
      have hfault := headerFileSize_eq 0 fields 0
      rw [if_neg hlong] at hfault
      exact h.in_buffer 0 0 hfault
    have hrun : ∀ dummy, headerFileSize dummy fields 0 =
        .ok (((contentLengths fields).getLast?.map (readLength dummy)).getD 0) := by
      intro dummy
      rw [headerFileSize_eq, if_pos hshort]
    obtain ⟨htaken, hrefuses⟩ := forall_and.mp fun dummy => h.taken
      (fun _ => allGood (headWith fields dummy) (chunkOf [])) (fun _ => rfl) 0 fileRequest {}
      ((St.init B).setDl ({ · with eventCb := some (.app 0) })) [] 0 rfl
      (fileSizeRun_allGood (hrun dummy) _ _).1
    have hv : ∃ v, Announces fields v := by
      by_contra hnone
      have hgood := fileSizeRun_allGood (hrun 0) {}
        ((St.init B).setDl ({ · with eventCb := some (.app 0) }))
      exact not_refuses hgood.1 hgood.2.2 (hrefuses 0 (not_exists.mp hnone))
    obtain ⟨v, hv⟩ := hv
    have hgives : ∀ w, Announces fields w → ∀ dummy,
        ((contentLengths fields).getLast?.map (readLength dummy)).getD 0 = w := fun w hw dummy =>
      (fileSizeRun_allGood (hrun dummy) _ _).2.1.symm.trans (htaken dummy w hw)
    refine ⟨hshort, v, hv, fun w hw => ?_, lastGives_iff.mpr (hgives v hv)⟩
    exact (hgives w hw 0).symm.trans (hgives v hv 0)
  · rintro ⟨hshort, v, hv, honly, hlast⟩
    have hread : ∀ dummy fileSize, headerFileSize dummy fields fileSize =
        .ok (((contentLengths fields).getLast?.map (readLength dummy)).getD fileSize) := by
      intro dummy fileSize
      rw [headerFileSize_eq, if_pos hshort]
    refine ⟨fun dummy fileSize => by rw [hread]; nofun, ?_⟩
    intro ans hans fuel r client s t cb hcb o hok
    refine ⟨fun w hw => ?_, fun hnone => absurd hv (hnone v)⟩
    rw [honly w hw]
    let A : Tr Op Ans → Ev Op Ans → Prop := fun _ ev =>
      ∀ d, ev = ⟨.nxWebHttpClientResponseBodyGet .head, d⟩ → d.fields = fields
    have hA : ∀ t op t', A t ⟨op, ans t' op⟩ := by
      intro t op t' d hd
      obtain ⟨rfl, hd⟩ := Sigma.mk.inj hd
      exact eq_of_heq hd ▸ hans t'
    obtain ⟨u, hu⟩ : ∃ u, o.tr = t ++ u := Prog.run_grows ..
    have halong : Along A t (o.tr.drop t.length) := Along.of_answers hA
    rw [hu, List.drop_left] at halong
    have hsat : o.Sat _ _ := (triple_getFileSize
      (L := (World.sequential ans).logic A fun _ _ => True) (I := fun _ _ => True)
      (Calm.logic fun op _ => World.sequential_quiet ans op)
      ⟨fun _ _ _ _ _ _ => trivial, fun _ _ _ _ _ => trivial, fun _ _ _ _ => trivial⟩
      (fun _ _ _ _ _ _ _ => trivial) (fun _ _ _ _ => trivial) r client).sat
        (s := s) trivial hu halong
    obtain ⟨_, hstatus, -, hsize⟩ := hsat.ok (by rw [hok]; rfl)
    obtain ⟨t', d, hd, -, hfile⟩ := hsize (Except.ok.inj (hstatus.symm.trans hok))
    rw [hd d rfl, hread] at hfile
    exact (Except.ok.inj hfile).symm.trans (lastGives_iff.mp hlast d.dummy)

/-- A size that is announced is what the callback leaves. -/
theorem SizeParsed.eq {fields : List (List UInt8 × List UInt8)} (h : SizeParsed B fields)
    {n v : SizeT} (hn : headerFileSize 0 fields 0 = .ok n) (hv : Announces fields v) : n = v := by
  obtain ⟨hok, hsize, -⟩ := fileSizeRun_allGood hn {}
    ((St.init B).setDl ({ · with eventCb := some (.app 0) }))
  exact hsize.symm.trans ((h.taken _ (fun _ => rfl) 0 fileRequest {} _ [] 0 rfl hok).1 v hv)

/-- A header field of its own. -/
def lengthField (name value : String) : List (List UInt8 × List UInt8) := [(cstr name, cstr value)]

theorem announces_lengthField {name value : String} {v : SizeT}
    (h : (cstr name).map Hex.lower = hdrContentLengthStr.map Hex.lower ∧ Numeral (cstr value) ∧
      Decimal.value (cstr value) = v.toNat) : Announces (lengthField name value) v :=
  ⟨_, List.mem_singleton_self _, h⟩

/-- No field, a name in lower case, a leading zero, a number that is no `int`, and a value of eleven
bytes. -/
theorem size_not_parsed :
    ¬ SizeParsed .default [] ∧ ¬ SizeParsed .default (lengthField "content-length" "5") ∧
      ¬ SizeParsed .default (lengthField "Content-Length" "010") ∧
      ¬ SizeParsed .default (lengthField "Content-Length" "3000000000") ∧
      ¬ SizeParsed .default (lengthField "Content-Length" "00000000005") := by
  refine ⟨fun h => ?_, fun h => ?_, fun h => ?_, fun h => ?_, fun h => ?_⟩
  · obtain ⟨hok, -, hcb⟩ := fileSizeRun_allGood (show headerFileSize 0 [] 0 = .ok 0 from rfl) {}
      ((St.init .default).setDl ({ · with eventCb := some (.app 0) }))
    refine not_refuses hok hcb ((h.taken _ (fun _ => rfl) 0 fileRequest {} _ [] 0 rfl hok).2 ?_)
    rintro v ⟨_, hmem, -⟩
    cases hmem
  · exact absurd (h.eq (n := 0) (v := 5) (by decide +kernel)
      (announces_lengthField (by decide +kernel))) (by decide)
  · exact absurd (h.eq (n := 8) (v := 10) (by decide +kernel)
      (announces_lengthField (by decide +kernel))) (by decide)
  · exact absurd (h.eq (n := 0x7FFFFFFF) (v := 3000000000) (by decide +kernel)
      (announces_lengthField (by decide +kernel))) (by decide)
  · exact h.in_buffer 0 0 (by decide +kernel)

end Iotc.Web
