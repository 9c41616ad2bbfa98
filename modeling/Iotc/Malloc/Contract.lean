import Iotc.Malloc.BytePool

/-!
# The allocator's contract

Whatever sequence of calls led to a heap, its blocks keep apart. From there `calloc` and
`realloc` keep the contract of the standard as long as the product of the arguments is a word, the
block does not grow, and its pointer is not NULL; otherwise only when the memory is
refused (`contract_iff`).
-/

namespace Iotc.Malloc

open Iotc.C
open Lib (Block overwrite overwrite_add overwrite_off)

variable {ρ : Type} {P : BytePool ρ} {good : Heap ρ → Prop}

/-! ## The contract -/

/-- `calloc` gives NULL or a block of the whole product, all zero. -/
def CallocContract (P : BytePool ρ) (h : Heap ρ) (nmemb size : SizeT) : Prop :=
  ∀ p h', calloc P nmemb size h = (some p, h') →
    ∃ b ∈ h'.live, b.addr = p ∧ nmemb.toNat * size.toNat ≤ b.size ∧
      ∀ i < nmemb.toNat * size.toNat, h'.mem (p + i) = 0

/-- What `realloc` is to do with the block `b` when it gives the block `p`. -/
structure Moved (b : Block) (n : Nat) (h : Heap ρ) (p : Nat) (h' : Heap ρ) : Prop where
  size : ∃ c ∈ h'.live, c.addr = p ∧ n ≤ c.size
  content : ∀ i < min b.size n, h'.mem (p + i) = h.mem (b.addr + i)
  reads : ∀ addr k, .read addr k ∈ h'.log.drop h.log.length → b.addr = addr → k ≤ b.size
  freed_once : (h'.log.drop h.log.length).count (.release b.addr) = 1

/-- What it is to do when it gives NULL. -/
structure Untouched (b : Block) (h h' : Heap ρ) : Prop where
  live : b ∈ h'.live
  content : ∀ i < b.size, h'.mem (b.addr + i) = h.mem (b.addr + i)
  not_freed : .release b.addr ∉ h'.log.drop h.log.length

def ReallocContract (P : BytePool ρ) (h : Heap ρ) (b : Block) (n : SizeT) : Prop :=
  match realloc P (some b.addr) n h with
  | (some p, h') => Moved b n.toNat h p h'
  | (none, h') => Untouched b h h'

/-- `realloc(NULL, n)` is `malloc(n)`: the pointer, and what is allocated. -/
def ReallocNullContract (P : BytePool ρ) (h : Heap ρ) (n : SizeT) : Prop :=
  (realloc P none n h).1 = (malloc P n h).1 ∧
    (realloc P none n h).2.live = (malloc P n h).2.live

/-! ## Heaps that calls lead to -/

/-- The pointer of a live block, or NULL. -/
def Heap.Owns (h : Heap ρ) (ptr : Option Nat) : Prop := ∀ p ∈ ptr, ∃ b ∈ h.live, b.addr = p

/-- Between the calls the application writes to its blocks. -/
inductive Reachable (P : BytePool ρ) (good : Heap ρ → Prop) : Heap ρ → Prop where
  | start {h : Heap ρ} : good h → h.live = [] → Reachable P good h
  | malloc {h : Heap ρ} (size : SizeT) : Reachable P good h → Reachable P good (malloc P size h).2
  | free {h : Heap ρ} {ptr : Option Nat} : Reachable P good h → h.Owns ptr →
    Reachable P good (free P ptr h).2
  | calloc {h : Heap ρ} (nmemb size : SizeT) : Reachable P good h →
    Reachable P good (calloc P nmemb size h).2
  | realloc {h : Heap ρ} {ptr : Option Nat} (size : SizeT) : Reachable P good h → h.Owns ptr →
    Reachable P good (realloc P ptr size h).2
  | store {h : Heap ρ} {b : Block} (f : Nat → UInt8) : Reachable P good h → b ∈ h.live →
    Reachable P good { h with mem := overwrite h.mem b.addr b.size f }

/-- The blocks keep apart. -/
structure Wf (good : Heap ρ → Prop) (h : Heap ρ) : Prop where
  good : good h
  apart : h.live.Pairwise Block.Apart
  bounded : ∀ b ∈ h.live, 0 < b.addr ∧ 0 < b.size ∧ b.addr + b.size ≤ 2 ^ 32

/-! ## What the functions come to -/

section
variable {h h' : Heap ρ} {b : Block} {size nmemb : SizeT} {p q : Nat}

/-- A call and what follows it. -/
theorem bind_run {α β : Type} {m : HeapM ρ α} {f : α → HeapM ρ β} {a : α} (hm : m h = (a, h')) :
    (m >>= f) h = f a h' := by
  show (match m h with | (a, h') => f a h') = _
  rw [hm]

theorem malloc_run {status : UINT} {ptr : Nat} (hsize : 0 < size)
    (hm : P.txByteAllocate size h = ((status, ptr), h')) :
    malloc P size h = (if status ≠ txSuccess then none else some ptr, h') := by
  unfold malloc
  rw [if_pos hsize, bind_run hm]
  by_cases hstatus : status ≠ txSuccess
  · simp only [if_pos hstatus]
    rfl
  · simp only [if_neg hstatus]
    rfl

theorem calloc_null (hm : malloc P (nmemb * size) h = (none, h')) :
    calloc P nmemb size h = (none, h') := bind_run hm

theorem calloc_block (hm : malloc P (nmemb * size) h = (some p, h')) :
    calloc P nmemb size h = (some p,
      { h' with mem := overwrite h'.mem p (nmemb * size).toNat fun _ => 0 }) := bind_run hm

theorem realloc_null (hm : malloc P size h = (none, h')) :
    realloc P (some p) size h = (none, h') := bind_run hm

theorem realloc_block (hm : malloc P size h = (some q, h')) :
    realloc P (some p) size h = (some q, (free P (some p) { h' with
      mem := overwrite h'.mem q size.toNat fun i => h'.mem (p + i)
      log := h'.log ++ [.read p size.toNat] }).2) := bind_run hm

/-! ## Heaps whose blocks keep apart -/

theorem Wf.write (hP : P.Lawful good) (hwf : Wf good h) (hb : b ∈ h.live) {n : Nat}
    (hn : n ≤ b.size) (f : Nat → UInt8) (log : List Access) :
    Wf good { h with mem := overwrite h.mem b.addr n f, log } := by
  refine ⟨hP.outside h _ _ hwf.good fun a ha => overwrite_off ?_, hwf.apart, hwf.bounded⟩
  have hout := ha b hb
  unfold Block.Has at hout
  omega

/-- What an allocation leaves of the heap before it. -/
structure Grown (good : Heap ρ → Prop) (h h' : Heap ρ) : Prop where
  wf : Wf good h'
  keeps : ∀ b ∈ h.live, b ∈ h'.live ∧ ∀ a, b.Has a → h'.mem a = h.mem a
  log : h'.log = h.log

theorem malloc_cases (hP : P.Lawful good) (hwf : Wf good h) (size : SizeT) :
    (∃ h', malloc P size h = (none, h') ∧ Grown good h h' ∧ h'.live = h.live) ∨
      ∃ b h', malloc P size h = (some b.addr, h') ∧ Grown good h h' ∧ size.toNat ≤ b.size ∧
        h'.live = b :: h.live := by
  by_cases hsize : 0 < size
  · obtain ⟨⟨⟨status, ptr⟩, h'⟩, hm⟩ : ∃ r, P.txByteAllocate size h = r := ⟨_, rfl⟩
    have hgood := (hP.stays_good h hwf.good).1 size
    have hkeeps := (hP.keeps h hwf.good).1 size
    have hlog := (hP.log h).1 size
    rw [hm] at hgood hkeeps hlog
    by_cases hstatus : status = txSuccess
    · subst hstatus
      obtain ⟨b, rfl, hptr, hend, hle, hapart, hlive⟩ :=
        hP.allocated h size ptr h' hwf.good hsize hm
      have hmem : ∀ c ∈ h.live, c ∈ h'.live := fun c hc => hlive ▸ List.mem_cons_of_mem b hc
      refine .inr ⟨b, h', malloc_run hsize hm, ⟨⟨hgood, ?_, ?_⟩, fun c hc => ?_, hlog⟩, hle, hlive⟩
      · rw [hlive]
        exact List.pairwise_cons.mpr ⟨hapart, hwf.apart⟩
      · have hpos : 0 < size.toNat := UInt32.lt_iff_toNat_lt.mp hsize
        rw [hlive]
        exact List.forall_mem_cons.mpr ⟨⟨hptr, by omega, hend⟩, hwf.bounded⟩
      · exact ⟨hmem c hc, hkeeps c hc (hmem c hc)⟩
    · have hlive := hP.refused h size status ptr h' hwf.good hstatus hm
      have hmem : ∀ c ∈ h.live, c ∈ h'.live := fun c hc => hlive ▸ hc
      refine .inl ⟨h', ?_, ⟨⟨hgood, hlive ▸ hwf.apart, hlive ▸ hwf.bounded⟩, fun c hc => ?_, hlog⟩,
        hlive⟩
      · rw [malloc_run hsize hm, if_pos hstatus]
      · exact ⟨hmem c hc, hkeeps c hc (hmem c hc)⟩
  · refine .inl ⟨h, ?_, ⟨hwf, fun b hb => ⟨hb, fun _ _ => rfl⟩, rfl⟩, rfl⟩
    unfold malloc
    rw [if_neg hsize]
    rfl

/-- What a release leaves: every block but at most the one that is freed. -/
theorem free_spec (hP : P.Lawful good) (hwf : Wf good h) (p : Nat) :
    Wf good (free P (some p) h).2 ∧
      (∀ b ∈ h.live, b.addr ≠ p → b ∈ (free P (some p) h).2.live ∧
        ∀ a, b.Has a → (free P (some p) h).2.mem a = h.mem a) ∧
      (free P (some p) h).2.log = h.log ++ [.release p] := by
  have hgood1 : good { h with log := h.log ++ [.release p] } :=
    hP.outside h h.mem _ hwf.good fun _ _ => rfl
  show Wf good (P.txByteRelease p { h with log := h.log ++ [.release p] }).2 ∧ _
  have hgood := (hP.stays_good _ hgood1).2 p
  have hkeeps := (hP.keeps _ hgood1).2 p
  have hlog := (hP.log { h with log := h.log ++ [.release p] }).2 p
  have hsub : (P.txByteRelease p { h with log := h.log ++ [.release p] }).2.live.Sublist h.live ∧
      ∀ b ∈ h.live, b.addr ≠ p →
        b ∈ (P.txByteRelease p { h with log := h.log ++ [.release p] }).2.live := by
    rcases hP.released _ p hgood1 with hlive | hlive
    · rw [hlive]
      exact ⟨.refl _, fun b hb _ => hb⟩
    · rw [hlive]
      exact ⟨List.filter_sublist, fun b hb hne => List.mem_filter.mpr ⟨hb, by simpa using hne⟩⟩
  refine ⟨⟨hgood, hwf.apart.sublist hsub.1, fun b hb => hwf.bounded b (hsub.1.subset hb)⟩,
    fun b hb hne => ?_, hlog⟩
  exact ⟨hsub.2 b hb hne, hkeeps b hb (hsub.2 b hb hne)⟩

theorem Wf.calloc (hP : P.Lawful good) (hwf : Wf good h) (nmemb size : SizeT) :
    Wf good (calloc P nmemb size h).2 := by
  rcases malloc_cases hP hwf (nmemb * size) with
    ⟨h', hm, hgrown, -⟩ | ⟨b, h', hm, hgrown, hle, hlive⟩
  · rw [calloc_null hm]
    exact hgrown.wf
  · rw [calloc_block hm]
    exact hgrown.wf.write hP (hlive ▸ List.mem_cons_self) hle _ _

/-- The heap of `realloc` in front of its `free`. -/
theorem Wf.copied (hP : P.Lawful good) (hwf : Wf good h') (hb : b ∈ h'.live)
    (hle : size.toNat ≤ b.size) (p : Nat) : Wf good { h' with
      mem := overwrite h'.mem b.addr size.toNat fun i => h'.mem (p + i)
      log := h'.log ++ [.read p size.toNat] } :=
  hwf.write hP hb hle _ _

theorem Wf.realloc (hP : P.Lawful good) (hwf : Wf good h) (ptr : Option Nat) (size : SizeT) :
    Wf good (realloc P ptr size h).2 := by
  cases ptr with
  | none => exact hwf
  | some p =>
    rcases malloc_cases hP hwf size with ⟨h', hm, hgrown, -⟩ | ⟨b, h', hm, hgrown, hle, hlive⟩
    · rw [realloc_null hm]
      exact hgrown.wf
    · rw [realloc_block hm]
      exact (free_spec hP (hgrown.wf.copied hP (hlive ▸ List.mem_cons_self) hle p) p).1

theorem Reachable.wf (hP : P.Lawful good) (hr : Reachable P good h) : Wf good h := by
  induction hr with
  | start hgood hlive => exact ⟨hgood, by rw [hlive]; exact .nil, by rw [hlive]; simp⟩
  | @malloc h size _ ih =>
    rcases malloc_cases hP ih size with ⟨h', hm, hgrown, -⟩ | ⟨b, h', hm, hgrown, -⟩
    · rw [hm]
      exact hgrown.wf
    · rw [hm]
      exact hgrown.wf
  | @free h ptr _ _ ih =>
    cases ptr with
    | none => exact ih
    | some p => exact (free_spec hP ih p).1
  | calloc nmemb size _ ih => exact ih.calloc hP nmemb size
  | realloc size _ _ ih => exact ih.realloc hP _ size
  | store f _ hb ih => exact ih.write hP hb (Nat.le_refl _) f _

/-! ## When the contract is kept -/

theorem calloc_contract_iff (hP : P.Lawful good) (hwf : Wf good h) (nmemb size : SizeT) :
    CallocContract P h nmemb size ↔
      nmemb.toNat * size.toNat < 2 ^ 32 ∨ (malloc P (nmemb * size) h).1 = none := by
  have hword : (nmemb * size).toNat = nmemb.toNat * size.toNat % 2 ^ 32 := UInt32.toNat_mul ..
  unfold CallocContract
  rcases malloc_cases hP hwf (nmemb * size) with
    ⟨h', hm, hgrown, -⟩ | ⟨b, h', hm, hgrown, hle, hlive⟩
  · rw [calloc_null hm, hm]
    exact iff_of_true nofun (.inr rfl)
  · have hb : b ∈ h'.live := hlive ▸ List.mem_cons_self
    rw [calloc_block hm, hm]
    constructor
    · intro hcontract
      obtain ⟨c, hc, haddr, hsize, -⟩ := hcontract _ _ rfl
      have hbounded := hgrown.wf.bounded c hc
      exact .inl (by omega)
    · rintro (hlt | hnone) p h'' hret
      · obtain ⟨rfl, rfl⟩ := hret
        rw [Nat.mod_eq_of_lt hlt] at hword
        refine ⟨b, hb, rfl, hword ▸ hle, fun i hi => ?_⟩
        show overwrite h'.mem b.addr (nmemb * size).toNat (fun _ => 0) (b.addr + i) = 0
        rw [overwrite_add (hword.symm ▸ hi)]
      · cases hnone

/-- A block that is copied from `b` has its bytes, and `b` is freed once; only the range that
`memcpy` reads may be too long. -/
theorem moved_iff (hP : P.Lawful good) (hwf : Wf good h) (hb : b ∈ h.live) {c : Block}
    (hm : malloc P size h = (some c.addr, h')) (hgrown : Grown good h h')
    (hle : size.toNat ≤ c.size) (hlive : h'.live = c :: h.live) :
    Moved b size.toNat h c.addr (realloc P (some b.addr) size h).2 ↔ size.toNat ≤ b.size := by
  have hc : c ∈ h'.live := hlive ▸ List.mem_cons_self
  have hcopied := hgrown.wf.copied hP hc hle b.addr
  obtain ⟨-, hkeeps, hlog⟩ := free_spec hP hcopied b.addr
  rw [realloc_block hm]
  generalize hfreed : (free P (some b.addr) _).2 = h'' at hkeeps hlog ⊢
  have hapart : c.Apart b := (List.pairwise_cons.mp (hlive ▸ hgrown.wf.apart)).1 b hb
  have hne : c.addr ≠ b.addr := hapart.addr_ne (hgrown.wf.bounded c hc).2.1 (hwf.bounded b hb).2.1
  obtain ⟨hclive, hcmem⟩ := hkeeps c hc hne
  have hadded : h''.log.drop h.log.length = [.read b.addr size.toNat, .release b.addr] := by
    rw [hlog, hgrown.log, List.append_assoc, List.drop_left]
    rfl
  constructor
  · intro hmoved
    exact hmoved.reads b.addr size.toNat (by rw [hadded]; simp) rfl
  · intro hsize
    refine ⟨⟨c, hclive, rfl, hle⟩, fun i hi => ?_, fun addr k hread _ => ?_, ?_⟩
    · have hi := Nat.lt_min.mp hi
      refine (hcmem _ (Block.has_add (by omega))).trans ?_
      show overwrite h'.mem c.addr size.toNat (fun i => h'.mem (b.addr + i)) (c.addr + i) = _
      rw [overwrite_add hi.2]
      exact (hgrown.keeps b hb).2 _ (Block.has_add hi.1)
    · rw [hadded] at hread
      obtain ⟨-, rfl⟩ : addr = b.addr ∧ k = size.toNat := by simpa using hread
      exact hsize
    · rw [hadded]
      simp

theorem realloc_contract_iff (hP : P.Lawful good) (hwf : Wf good h) (hb : b ∈ h.live)
    (n : SizeT) :
    ReallocContract P h b n ↔ n.toNat ≤ b.size ∨ (malloc P n h).1 = none := by
  unfold ReallocContract
  rcases malloc_cases hP hwf n with ⟨h', hm, hgrown, -⟩ | ⟨c, h', hm, hgrown, hle, hlive⟩
  · rw [realloc_null hm, hm]
    obtain ⟨hlive, hmem⟩ := hgrown.keeps b hb
    refine iff_of_true ⟨hlive, fun i hi => hmem _ (Block.has_add hi), ?_⟩ (.inr rfl)
    rw [hgrown.log, List.drop_length]
    exact List.not_mem_nil
  · have hmoved := moved_iff hP hwf hb hm hgrown hle hlive
    rw [realloc_block hm] at hmoved ⊢
    rw [hm, or_iff_left (Option.some_ne_none _)]
    exact hmoved

theorem realloc_null_contract_iff (hP : P.Lawful good) (hwf : Wf good h) (n : SizeT) :
    ReallocNullContract P h n ↔ (malloc P n h).1 = none := by
  rcases malloc_cases hP hwf n with ⟨h', hm, hgrown, hlive⟩ | ⟨c, h', hm, -⟩
  · unfold ReallocNullContract
    rw [hm]
    exact iff_of_true ⟨rfl, hlive.symm⟩ rfl
  · refine iff_of_false (fun h => ?_) ?_
    · have hptr := h.1
      rw [hm] at hptr
      cases hptr
    · rw [hm]
      exact Option.some_ne_none _

/-- Wherever the calls have led, the contract is kept by `calloc` if the product is a word, by
`realloc` if the block does not grow, and by no `realloc` of NULL, memory that is refused apart. -/
theorem contract_iff (hP : P.Lawful good) (hr : Reachable P good h) :
    (∀ nmemb size, CallocContract P h nmemb size ↔
      nmemb.toNat * size.toNat < 2 ^ 32 ∨ (malloc P (nmemb * size) h).1 = none) ∧
    (∀ b ∈ h.live, ∀ n, ReallocContract P h b n ↔
      n.toNat ≤ b.size ∨ (malloc P n h).1 = none) ∧
    ∀ n, ReallocNullContract P h n ↔ (malloc P n h).1 = none :=
  ⟨calloc_contract_iff hP (hr.wf hP), fun _ hb => realloc_contract_iff hP (hr.wf hP) hb,
    realloc_null_contract_iff hP (hr.wf hP)⟩

end

/-! ## A pool -/

/-- Behind all blocks that are live. -/
def Heap.top (h : Heap ρ) (base : Nat) : Nat :=
  h.live.foldr (fun b top => max (b.addr + b.size) top) base

/-- A pool of 8 KiB that allocates behind the last block. -/
def endPool : BytePool Unit where
  txByteAllocate size h :=
    let ptr := h.top 0x20000000
    if ptr + size.toNat ≤ 0x20002000 then
      ((txSuccess, ptr), { h with live := ⟨ptr, size.toNat⟩ :: h.live })
    else ((txNoMemory, 0), h)
  txByteRelease ptr h :=
    if ptr ∈ h.live.map Block.addr then
      (txSuccess, { h with live := h.live.filter (·.addr ≠ ptr) })
    else (txPtrError, h)

theorem Heap.le_top (h : Heap ρ) (base : Nat) :
    base ≤ h.top base ∧ ∀ b ∈ h.live, b.addr + b.size ≤ h.top base := by
  unfold Heap.top
  induction h.live with
  | nil => simp
  | cons c bs ih =>
    simp only [List.foldr_cons, List.forall_mem_cons]
    refine ⟨by omega, by omega, fun b hb => ?_⟩
    have := ih.2 b hb
    omega

theorem endPool_lawful : endPool.Lawful fun _ => True where
  allocated h size ptr h' _ hsize halloc := by
    have htop := h.le_top 0x20000000
    have hpos : 0 < size.toNat := UInt32.lt_iff_toNat_lt.mp hsize
    simp only [endPool] at halloc
    split at halloc
    · next hroom =>
      cases halloc
      refine ⟨⟨h.top 0x20000000, size.toNat⟩, rfl, by omega, ?_, Nat.le_refl _, fun c hc => ?_, rfl⟩
      · show _ + size.toNat ≤ _
        omega
      · exact .inr (htop.2 c hc)
    · cases halloc
  refused h size status ptr h' _ hstatus halloc := by
    simp only [endPool] at halloc
    split at halloc
    · cases halloc
      exact absurd rfl hstatus
    · cases halloc
      rfl
  released h ptr _ := by
    simp only [endPool]
    split
    · exact .inr rfl
    · exact .inl rfl
  keeps h _ := by
    constructor <;> intro x b _ _ a _ <;> simp only [endPool] <;> split <;> rfl
  log h := by
    constructor <;> intro x <;> simp only [endPool] <;> split <;> rfl
  stays_good _ _ := ⟨fun _ => trivial, fun _ => trivial⟩
  outside _ _ _ _ _ := trivial

/-- Four bytes are allocated, with `0xAA` everywhere. -/
def oneBlock : Heap Unit :=
  (malloc endPool 4 { mem := fun _ => 0xAA, live := [], pool := () }).2

theorem oneBlock_reachable : Reachable endPool (fun _ => True) oneBlock :=
  .malloc 4 (.start trivial rfl)

/-- The contract where the product is a word, where the block grows, and where there is none. -/
theorem oneBlock_contract :
    oneBlock.live = [⟨0x20000000, 4⟩] ∧ CallocContract endPool oneBlock 2 3 ∧
      ¬ ReallocContract endPool oneBlock ⟨0x20000000, 4⟩ 8 ∧
      ReallocNullContract endPool oneBlock 0 := by
  obtain ⟨hcalloc, hrealloc, hnull⟩ := contract_iff endPool_lawful oneBlock_reachable
  have hlive : (⟨0x20000000, 4⟩ : Block) ∈ oneBlock.live := List.mem_cons_self
  refine ⟨rfl, (hcalloc 2 3).mpr (.inl (by decide)), fun h => ?_, (hnull 0).mpr rfl⟩
  rcases (hrealloc _ hlive 8).mp h with hle | hnone
  · exact absurd hle (by decide)
  · exact absurd hnone (by decide)

/-- A product that wraps gives 16 bytes, a block that grows is read past its end, and NULL gives
NULL. -/
theorem contract_broken :
    Reachable endPool (fun _ => True) oneBlock ∧ ⟨0x20000000, 4⟩ ∈ oneBlock.live ∧
      ¬ CallocContract endPool oneBlock 0x10000001 16 ∧
      ¬ ReallocContract endPool oneBlock ⟨0x20000000, 4⟩ 8 ∧
      ¬ ReallocNullContract endPool oneBlock 8 := by
  refine ⟨oneBlock_reachable, List.mem_cons_self, fun h => ?_, fun h => ?_, fun h => ?_⟩
  · obtain ⟨b, hb, haddr, hsize, -⟩ := h 0x20000004 _ rfl
    have hlive : b ∈ [⟨0x20000004, 16⟩, ⟨0x20000000, 4⟩] := hb
    rcases List.mem_cons.mp hlive with rfl | hb
    · exact absurd hsize (by decide)
    · obtain rfl := List.mem_singleton.mp hb
      exact absurd haddr (by decide)
  · have hmoved : Moved ⟨0x20000000, 4⟩ 8 oneBlock 0x20000004
        (realloc endPool (some 0x20000000) 8 oneBlock).2 := h
    exact absurd (hmoved.reads 0x20000000 8 (by decide) rfl) (by decide)
  · exact absurd h.1 (by decide)

end Iotc.Malloc
