import Iotc.Http.ChunkedBody

/-!
# The text of a chunked body

`ChunkedBody.text` writes a body chunk by chunk. `chunked` reads it back whatever follows
(`run_text`), and takes nothing else for a whole body (`run_done_iff`).
-/

namespace Iotc.Http

open Iotc.C Iotc.Web Iotc.Lib

/-- The digits of a size with `n` in front of them, counted in 32 bits. -/
def sizeFrom (n : Nat) (digits : List UInt8) : Nat :=
  digits.foldl (fun n c => u32 (16 * n + ((Hex.value c).getD 0).toNat)) n

theorem sizeFrom_cons {c d : UInt8} (h : Hex.value c = some d) (n : Nat) (digits : List UInt8) :
    sizeFrom n (c :: digits) = sizeFrom (u32 (16 * n + d.toNat)) digits := by
  rw [sizeFrom, List.foldl_cons, h]
  rfl

/-- Digits, none of them perhaps, and an extension behind a semicolon. -/
structure SizeLine where
  digits : List UInt8
  extension : Option (List UInt8)
  digits_ok : ∀ c ∈ digits, (Hex.value c).isSome
  extension_ok : ∀ e ∈ extension, cr ∉ e

def SizeLine.extensionText (l : SizeLine) : List UInt8 :=
  match l.extension with
  | none => []
  | some e => 0x3B :: e

def SizeLine.text (l : SizeLine) : List UInt8 := l.digits ++ l.extensionText ++ crlf

def SizeLine.size (l : SizeLine) : Nat := sizeFrom 0 l.digits

structure BodyChunk where
  line : SizeLine
  data : List UInt8
  data_ne : data ≠ []
  size_eq : line.size = data.length

def BodyChunk.text (c : BodyChunk) : List UInt8 := c.line.text ++ c.data ++ crlf

structure ChunkedBody where
  chunks : List BodyChunk
  last : SizeLine
  last_zero : last.size = 0

def ChunkedBody.text (b : ChunkedBody) : List UInt8 :=
  b.chunks.flatMap BodyChunk.text ++ b.last.text ++ crlf

def ChunkedBody.data (b : ChunkedBody) : List UInt8 := b.chunks.flatMap (·.data)

/-! ## Reading it back -/

theorem passes_digits {digits : List UInt8} (h : ∀ c ∈ digits, (Hex.value c).isSome) (n : Nat) :
    Machine.Passes chunked (.size n false) digits [] (.size (sizeFrom n digits) false) := by
  induction digits generalizing n with
  | nil => exact Machine.Passes.nil _
  | cons c digits ih =>
    obtain ⟨d, hd⟩ := Option.isSome_iff_exists.mp (h c List.mem_cons_self)
    have hstep : chunked.step (.size n false) c = .next (.size (u32 (16 * n + d.toNat)) false) [] := by
      rw [chunked_step, chunkedStep, if_neg (by simp), hd]
    rw [sizeFrom_cons hd]
    exact (ih (fun c hc => h c (List.mem_cons_of_mem _ hc)) _).cons hstep

theorem passes_extension {e : List UInt8} (h : cr ∉ e) (n : Nat) :
    Machine.Passes chunked (.size n true) e [] (.size n true) := by
  induction e with
  | nil => exact Machine.Passes.nil _
  | cons c e ih =>
    have hc : c ≠ cr := fun heq => h (heq ▸ List.mem_cons_self)
    have hstep : chunked.step (.size n true) c = .next (.size n true) [] := by
      rw [chunked_step, chunkedStep, if_pos ⟨rfl, hc⟩]
    exact (ih fun hmem => h (List.mem_cons_of_mem _ hmem)).cons hstep

theorem passes_crlf {φ ψ χ : Phase} (hcr : chunkedStep φ cr = .next ψ [])
    (hlf : chunkedStep ψ lf = .next χ []) : Machine.Passes chunked φ crlf [] χ := by
  have hend : Machine.Passes chunked ψ [lf] [] χ := .single hlf
  exact hend.cons hcr

theorem sizeStep_cr (n : Nat) (ext : Bool) : chunkedStep (.size n ext) cr = .next (.sizeLf n) [] := by
  rw [chunkedStep, if_neg (by simp)]
  rfl

/-- A size line is read. -/
theorem SizeLine.passes (l : SizeLine) :
    Machine.Passes chunked (.size 0 false) l.text [] (afterSize l.size) := by
  have hdigits := passes_digits l.digits_ok 0
  have hext : ∃ ext, Machine.Passes chunked (.size l.size false) l.extensionText [] (.size l.size ext) := by
    unfold SizeLine.extensionText
    split
    · exact ⟨false, Machine.Passes.nil _⟩
    · next e he =>
      have hsemi : chunked.step (.size l.size false) 0x3B = .next (.size l.size true) [] := by
        rw [chunked_step, chunkedStep, if_neg (by simp)]
        rfl
      exact ⟨true, (passes_extension (l.extension_ok e he) _).cons hsemi⟩
  obtain ⟨ext, hext⟩ := hext
  have hend : Machine.Passes chunked (.size l.size ext) crlf [] (afterSize l.size) :=
    passes_crlf (sizeStep_cr _ _) rfl
  exact (hdigits.trans hext).trans hend

/-- A chunk is read, and its data put out. -/
theorem BodyChunk.passes (c : BodyChunk) :
    Machine.Passes chunked (.size 0 false) c.text c.data (.size 0 false) := by
  have hpos := List.length_pos_iff.mpr c.data_ne
  have hafter : afterSize c.line.size = afterData c.data.length := by
    rw [c.size_eq, afterSize, afterData, if_neg (by omega), if_neg (by omega)]
  have hline := c.line.passes
  rw [hafter] at hline
  have hdata := passes_data c.data (n := c.data.length) le_rfl
  rw [Nat.sub_self] at hdata
  have hend : Machine.Passes chunked (afterData 0) crlf [] (.size 0 false) := passes_crlf rfl rfl
  have hall := (hline.trans hdata).trans hend
  rwa [List.nil_append, List.append_nil] at hall

theorem passes_chunks (chunks : List BodyChunk) :
    Machine.Passes chunked (.size 0 false) (chunks.flatMap BodyChunk.text) (chunks.flatMap (·.data))
      (.size 0 false) := by
  induction chunks with
  | nil => exact Machine.Passes.nil _
  | cons c chunks ih => exact c.passes.trans ih

/-- A whole body is read back, and what follows is left. -/
theorem run_text (b : ChunkedBody) (rest : List UInt8) :
    chunked.run (.size 0 false) (b.text ++ rest) = (b.data, .stopped .done rest) := by
  have hlast := b.last.passes
  rw [afterSize, if_pos b.last_zero] at hlast
  have hcr : Machine.Passes chunked .lastCr [cr] [] .lastLf := .single rfl
  have hpass := ((passes_chunks b.chunks).trans hlast).trans hcr
  have htext : b.text ++ rest =
      b.chunks.flatMap BodyChunk.text ++ b.last.text ++ [cr] ++ lf :: rest := by
    simp [ChunkedBody.text, crlf, cr, lf]
  have hstop : chunked.step .lastLf lf = .stop .done := rfl
  rw [htext, hpass.run_eq, Machine.run_stop hstop]
  simp [ChunkedBody.data]

/-! ## What is taken for a whole body -/

/-- A whole body with `rest` behind it. -/
def Whole (xs out rest : List UInt8) : Prop := ∃ b : ChunkedBody, xs = b.text ++ rest ∧ out = b.data

/-- The last `left` bytes of a chunk, and the chunks that follow. -/
def DataThen (left : Nat) (xs out rest : List UInt8) : Prop :=
  ∃ data ys out', data.length = left ∧ xs = data ++ crlf ++ ys ∧ out = data ++ out' ∧
    Whole ys out' rest

/-- What follows a size line. -/
def SizeThen (n : Nat) (xs out rest : List UInt8) : Prop :=
  if n = 0 then xs = crlf ++ rest ∧ out = [] else DataThen n xs out rest

/-- What is left of a body in each of the phases. -/
def Completes : Phase → List UInt8 → List UInt8 → List UInt8 → Prop
  | .size n false, xs, out, rest => ∃ (l : SizeLine) (ys : List UInt8), xs = l.text ++ ys ∧
      SizeThen (sizeFrom n l.digits) ys out rest
  | .size n true, xs, out, rest => ∃ e ys, cr ∉ e ∧ xs = e ++ crlf ++ ys ∧ SizeThen n ys out rest
  | .sizeLf n, xs, out, rest => ∃ ys, xs = lf :: ys ∧ SizeThen n ys out rest
  | .data left, xs, out, rest => DataThen left xs out rest
  | .dataCr, xs, out, rest => DataThen 0 xs out rest
  | .dataLf, xs, out, rest => ∃ ys, xs = lf :: ys ∧ Whole ys out rest
  | .lastCr, xs, out, rest => xs = crlf ++ rest ∧ out = []
  | .lastLf, xs, out, rest => xs = lf :: rest ∧ out = []

variable {xs out rest : List UInt8}

theorem completes_afterSize {n : Nat} : Completes (afterSize n) xs out rest ↔ SizeThen n xs out rest := by
  unfold afterSize SizeThen
  split <;> rfl

theorem completes_afterData {left : Nat} :
    Completes (afterData left) xs out rest ↔ DataThen left xs out rest := by
  unfold afterData
  split
  · next h =>
    subst h
    rfl
  · rfl

/-- A size line and what follows it are a whole body. -/
theorem Whole.of_size (h : Completes (.size 0 false) xs out rest) : Whole xs out rest := by
  obtain ⟨l, ys, rfl, hthen⟩ := h
  unfold SizeThen at hthen
  split at hthen
  · next hzero =>
    obtain ⟨rfl, rfl⟩ := hthen
    exact ⟨⟨[], l, hzero⟩, by simp [ChunkedBody.text], rfl⟩
  · next hpos =>
    obtain ⟨data, zs, out', hlen, rfl, rfl, b, rfl, rfl⟩ := hthen
    have hne : data ≠ [] := by
      rintro rfl
      exact hpos hlen.symm
    refine ⟨⟨⟨l, data, hne, hlen.symm⟩ :: b.chunks, b.last, b.last_zero⟩, ?_, ?_⟩
    · simp [ChunkedBody.text, BodyChunk.text]
    · simp [ChunkedBody.data]

/-- The line end of a size line, and what the coding looks for behind it. -/
theorem Completes.of_sizeLf {n : Nat} (h : Completes (.sizeLf n) xs out rest) :
    ∃ ys, cr :: xs = crlf ++ ys ∧ SizeThen n ys out rest := by
  obtain ⟨ys, rfl, hthen⟩ := h
  exact ⟨ys, rfl, hthen⟩

/-- One more byte in front of what is left of a size line. -/
theorem completes_size {n : Nat} {ext : Bool} {c : UInt8} {φ : Phase}
    (hstep : chunkedStep (.size n ext) c = .next φ []) (h : Completes φ xs out rest) :
    Completes (.size n ext) (c :: xs) out rest := by
  by_cases hcr : c = cr
  · rw [hcr, sizeStep_cr] at hstep
    cases hstep
    obtain ⟨ys, hys, hthen⟩ := h.of_sizeLf
    rw [hcr, hys]
    cases ext with
    | false => exact ⟨⟨[], none, by simp, by simp⟩, ys, rfl, hthen⟩
    | true => exact ⟨[], ys, List.not_mem_nil, rfl, hthen⟩
  cases ext with
  | true =>
    rw [chunkedStep, if_pos ⟨rfl, hcr⟩] at hstep
    cases hstep
    obtain ⟨e, ys, he, rfl, hthen⟩ := h
    exact ⟨c :: e, ys, fun hmem => (List.mem_cons.mp hmem).elim (fun heq => hcr heq.symm) he, rfl,
      hthen⟩
  | false =>
    rw [chunkedStep, if_neg (by simp)] at hstep
    cases hd : Hex.value c with
    | some d =>
      simp only [hd] at hstep
      cases hstep
      obtain ⟨l, ys, rfl, hthen⟩ := h
      have hok : ∀ b ∈ c :: l.digits, (Hex.value b).isSome := by
        intro b hb
        rcases List.mem_cons.mp hb with rfl | hb
        · rw [hd]
          rfl
        · exact l.digits_ok b hb
      refine ⟨⟨c :: l.digits, l.extension, hok, l.extension_ok⟩, ys, rfl, ?_⟩
      rw [sizeFrom_cons hd]
      exact hthen
    | none =>
      simp only [hd, if_neg hcr] at hstep
      split at hstep
      · next hsemi =>
        cases hstep
        obtain ⟨e, ys, he, rfl, hthen⟩ := h
        subst hsemi
        exact ⟨⟨[], some e, by simp, by simpa using he⟩, ys,
          by simp [SizeLine.text, SizeLine.extensionText], hthen⟩
      · cases hstep

/-- A byte of data, with the rest of its chunk behind it. -/
theorem completes_data {left : Nat} (hpos : left ≠ 0) (c : UInt8)
    (h : Completes (afterData (left - 1)) xs out rest) :
    Completes (.data left) (c :: xs) (c :: out) rest := by
  obtain ⟨data, ys, out', hlen, rfl, rfl, hwhole⟩ := completes_afterData.mp h
  exact ⟨c :: data, ys, out', by rw [List.length_cons]; omega, rfl, rfl, hwhole⟩

/-- A byte of a size line puts nothing out, and does not lead into the data at once. -/
theorem sizeStep_cases (n : Nat) (ext : Bool) (c : UInt8) :
    chunkedStep (.size n ext) c = .stop .malformed ∨
      ∃ ψ, chunkedStep (.size n ext) c = .next ψ [] ∧ ∀ left, ψ ≠ .data left := by
  rw [chunkedStep]
  cases Hex.value c <;> split_ifs <;> simp

/-- A byte that is asked for. -/
theorem expectByte_next {b c : UInt8} {φ ψ : Phase} {o : List UInt8}
    (h : expectByte b φ c = .next ψ o) : c = b ∧ ψ = φ ∧ o = [] := by
  unfold expectByte at h
  split at h
  · next hc =>
    cases h
    exact ⟨hc, rfl, rfl⟩
  · cases h

/-- One more byte in front. -/
theorem completes_cons {φ ψ : Phase} {c : UInt8} {o : List UInt8} (hφ : φ ≠ .data 0)
    (hstep : chunkedStep φ c = .next ψ o) (h : Completes ψ xs out rest) :
    Completes φ (c :: xs) (o ++ out) rest := by
  cases φ with
  | size n ext =>
    rcases sizeStep_cases n ext c with hstop | ⟨χ, hnext, -⟩
    · rw [hstop] at hstep
      cases hstep
    · obtain ⟨rfl, rfl⟩ : χ = ψ ∧ [] = o := by simpa using hnext.symm.trans hstep
      exact completes_size hstep h
  | sizeLf n =>
    obtain ⟨rfl, rfl, rfl⟩ := expectByte_next hstep
    exact ⟨xs, rfl, completes_afterSize.mp h⟩
  | data left =>
    cases hstep
    exact completes_data (fun hzero => hφ (by rw [hzero])) c h
  | dataCr =>
    obtain ⟨rfl, rfl, rfl⟩ := expectByte_next hstep
    obtain ⟨ys, rfl, hwhole⟩ := h
    exact ⟨[], ys, out, rfl, rfl, rfl, hwhole⟩
  | dataLf =>
    obtain ⟨rfl, rfl, rfl⟩ := expectByte_next hstep
    exact ⟨xs, rfl, Whole.of_size h⟩
  | lastCr =>
    obtain ⟨rfl, rfl, rfl⟩ := expectByte_next hstep
    obtain ⟨rfl, rfl⟩ := h
    exact ⟨rfl, rfl⟩
  | lastLf =>
    rw [chunkedStep] at hstep
    split at hstep <;> cases hstep

theorem afterSize_ne_data (n : Nat) : afterSize n ≠ .data 0 := by
  unfold afterSize
  split
  · simp
  · next h => simpa using h

theorem afterData_ne_data (left : Nat) : afterData left ≠ .data 0 := by
  unfold afterData
  split
  · simp
  · next h => simpa using h

/-- The coding does not look for data of a chunk that has been read. -/
theorem chunkedStep_ne_data {φ ψ : Phase} {c : UInt8} {o : List UInt8}
    (hstep : chunkedStep φ c = .next ψ o) : ψ ≠ .data 0 := by
  cases φ with
  | size n ext =>
    rcases sizeStep_cases n ext c with hstop | ⟨χ, hnext, hne⟩
    · rw [hstop] at hstep
      cases hstep
    · obtain ⟨rfl, -⟩ : χ = ψ ∧ [] = o := by simpa using hnext.symm.trans hstep
      exact hne 0
  | sizeLf n =>
    obtain ⟨-, rfl, -⟩ := expectByte_next hstep
    exact afterSize_ne_data n
  | data left =>
    cases hstep
    exact afterData_ne_data _
  | lastLf =>
    rw [chunkedStep] at hstep
    split at hstep <;> cases hstep
  | _ =>
    obtain ⟨-, rfl, -⟩ := expectByte_next hstep
    simp

/-- Only the last line feed ends a body. -/
theorem chunkedStep_done {φ : Phase} {c : UInt8} (h : chunkedStep φ c = .stop .done) :
    φ = .lastLf ∧ c = lf := by
  cases φ with
  | size n ext =>
    rcases sizeStep_cases n ext c with hstop | ⟨χ, hnext, -⟩
    · rw [hstop] at h
      cases h
    · rw [hnext] at h
      cases h
  | data left => cases h
  | lastLf =>
    rw [chunkedStep] at h
    split at h
    · next hc => exact ⟨rfl, hc⟩
    · cases h
  | _ =>
    rw [chunkedStep, expectByte] at h
    split at h <;> cases h

/-- A run that ends with a whole body has read just that from where it began. -/
theorem completes_of_run {φ : Phase} (hφ : φ ≠ .data 0)
    (h : chunked.run φ xs = (out, .stopped .done rest)) : Completes φ xs out rest := by
  induction xs generalizing φ out with
  | nil => cases h
  | cons c xs ih =>
    cases hstep : chunked.step φ c with
    | next ψ o =>
      rw [Machine.run_next hstep, Prod.mk.injEq] at h
      obtain ⟨rfl, hstop⟩ := h
      exact completes_cons hφ hstep (ih (chunkedStep_ne_data hstep) (Prod.ext rfl hstop))
    | stop v =>
      rw [Machine.run_stop hstep] at h
      cases h
      obtain ⟨rfl, rfl⟩ := chunkedStep_done hstep
      exact ⟨rfl, rfl⟩

/-- The coding takes just the texts of bodies for whole. -/
theorem run_done_iff (xs out rest : List UInt8) :
    chunked.run (.size 0 false) xs = (out, .stopped .done rest) ↔
      ∃ b : ChunkedBody, xs = b.text ++ rest ∧ out = b.data := by
  constructor
  · intro h
    exact Whole.of_size (completes_of_run (by simp) h)
  · rintro ⟨b, rfl, rfl⟩
    exact run_text b rest

/-- In the middle of a chunk it takes the rest of it, and a whole body behind that. -/
theorem run_data_done_iff {n : Nat} (hn : n ≠ 0) (xs out rest : List UInt8) :
    chunked.run (.data n) xs = (out, .stopped .done rest) ↔
      ∃ (data : List UInt8) (b : ChunkedBody), data.length = n ∧
        xs = data ++ crlf ++ (b.text ++ rest) ∧ out = data ++ b.data := by
  constructor
  · intro h
    obtain ⟨data, ys, out', hlen, rfl, rfl, b, rfl, rfl⟩ := completes_of_run (by simpa using hn) h
    exact ⟨data, b, hlen, rfl, rfl⟩
  · rintro ⟨data, b, rfl, rfl, rfl⟩
    have hdata := passes_data data (n := data.length) le_rfl
    rw [Nat.sub_self, afterData, if_neg hn] at hdata
    have hend : Machine.Passes chunked (afterData 0) crlf [] (.size 0 false) := passes_crlf rfl rfl
    have hpass := hdata.trans hend
    rw [List.append_nil] at hpass
    rw [hpass.run_eq, run_text]

end Iotc.Http
