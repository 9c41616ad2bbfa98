import Iotc.Di.Issued
import Iotc.Resume.Hoare

/-!
# The URL of the agent

The discovery service answers with a URL, which `parse_discovery_host_and_path` takes apart behind
the eight characters of `https://`. It looks for these anywhere in the URL, and for a slash behind
them without looking at the result, so a URL that contains the scheme has to start with it and go
on with a host and a path (`agent_url_iff`).
-/

namespace Iotc.Di

open Iotc.C Iotc.Resume
open Iotc.Web (IotConnectAzrtosConfig)

abbrev scheme : CStr := cstr "https://"

abbrev slash : UInt8 := 0x2F

/-- The scheme, a host without a slash, and a path that starts with one. -/
structure Splits (url host path : CStr) : Prop where
  whole : url = scheme ++ host ++ path
  host : slash ∉ host
  path : path.head? = some slash

/-- The agent is known by the parts of the URL, if it has the form and all allocations succeeded;
otherwise the status is another. -/
structure Parsed (url : CStr) (allocated : Bool) (o : Out Op Ans St Int) : Prop where
  returns : ∃ ret, o.res = .ok ret ∧
    (ret = 0 ↔ allocated = true ∧ ∃ host path, Splits url host path)
  parts : o.res = .ok 0 → ∃ host path, o.st.discoveryAgentHost = some host ∧
    o.st.discoveryAgentPath = some path ∧ Splits url host.val path.val

/-- So it is after `discovery_call`, which forgets the agent when it fails. -/
structure Discovered (url : CStr) (allocated : Bool) (o : Out Op Ans St Int) : Prop extends
    Parsed url allocated o where
  forgotten : o.res ≠ .ok 0 → o.st.discoveryAgentHost = none ∧ o.st.discoveryAgentPath = none

/-- The URL that came with the answer, and whether every allocation has succeeded. -/
structure Heard where
  url : Option CStr := none
  allocated : Bool := true

def Heard.add (h : Heard) : Ev Op Ans → Heard
  | ⟨.iotclParseDiscoveryV3Response _, some r⟩ => { h with url := r.val.bu }
  | ⟨.malloc _, none⟩ => { h with allocated := false }
  | _ => h

def heard (u : Tr Op Ans) : Heard := u.foldl Heard.add {}

/-- The URL does not contain the scheme, or it is one that the code takes apart rightly, or an
allocation has failed. -/
def Handled (url : CStr) (allocated : Bool) : Prop :=
  ¬ scheme <:+: url ∨ (∃ host path, Splits url host path) ∨ allocated = false

/-! ## Taking the URL apart -/

/-- What follows the scheme's length. -/
abbrev behind (url : CStr) : CStr := url.drop scheme.length

section
variable {url host path : CStr}

theorem Splits.behind_eq (h : Splits url host path) : behind url = host ++ path := by
  rw [h.whole, List.append_assoc]
  exact List.drop_left

theorem Splits.slash_mem (h : Splits url host path) : slash ∈ behind url := by
  rw [h.behind_eq]
  exact List.mem_append_right _ (List.mem_of_mem_head? h.path)

theorem Splits.infix (h : Splits url host path) : scheme <:+: url := by
  rw [h.whole, List.append_assoc]
  exact (List.prefix_append _ _).isInfix

/-- The parts, as the code finds them. -/
theorem splits_iff : Splits url host path ↔ scheme <+: url ∧ slash ∈ behind url ∧
    host = (behind url).takeWhile (· ≠ slash) ∧ path = (behind url).dropWhile (· ≠ slash) := by
  constructor
  · intro h
    have hhost : ∀ c ∈ host, decide (c ≠ slash) = true := fun c hc => by
      simpa using fun h0 : c = slash => h.host (h0 ▸ hc)
    obtain ⟨rest, rfl⟩ : ∃ rest, path = slash :: rest := by
      obtain ⟨c, rest, hpath⟩ := List.exists_cons_of_ne_nil
        (l := path) (fun hnil => by simpa [hnil] using h.path)
      have hc := h.path
      rw [hpath] at hc
      exact ⟨rest, by rw [hpath, Option.some.inj hc]⟩
    refine ⟨⟨_, by rw [h.whole, List.append_assoc]⟩, h.slash_mem, ?_, ?_⟩
    · rw [h.behind_eq, List.takeWhile_append_of_pos hhost,
        List.takeWhile_cons_of_neg (by simp), List.append_nil]
    · rw [h.behind_eq, List.dropWhile_append_of_pos hhost,
        List.dropWhile_cons_of_neg (by simp)]
  · rintro ⟨⟨rest, hwhole⟩, hslash, hhost, hpath⟩
    have hbehind : behind url = rest := by rw [← hwhole]; exact List.drop_left
    refine ⟨?_, fun hmem => ?_, ?_⟩
    · rw [hhost, hpath, List.append_assoc, List.takeWhile_append_dropWhile, hbehind, hwhole]
    · rw [hhost] at hmem
      simpa using List.mem_takeWhile_imp hmem
    · rw [hpath]
      have hne : (behind url).dropWhile (· ≠ slash) ≠ [] := fun hnil => by
        have hall := List.dropWhile_eq_nil_iff.mp hnil slash hslash
        simp at hall
      rw [List.head?_eq_some_head hne]
      have hhead := List.head_dropWhile_not (· ≠ slash) hne
      simpa using hhead

/-- What the status and the two strings are when the URL has been looked at. -/
def Taken (url : CStr) (allocated : Bool) (ret : Int) (s : St) : Prop :=
  if ret = 0 then
    allocated = true ∧ scheme <:+: url ∧ slash ∈ behind url ∧
      ∃ host path, s.discoveryAgentHost = some host ∧ s.discoveryAgentPath = some path ∧
        host.val = (behind url).takeWhile (· ≠ slash) ∧
        path.val = (behind url).dropWhile (· ≠ slash)
  else allocated = true → ¬ scheme <:+: url

theorem parsed_iff {allocated : Bool} {ret : Int} {s : St} {t : Tr Op Ans}
    (h : Taken url allocated ret s) :
    Parsed url allocated ⟨.ok ret, s, t⟩ ↔ Handled url allocated := by
  unfold Taken at h
  split at h
  · next hret =>
    obtain ⟨hallocated, hoccurs, hslash, host, path, hhost, hpath, hhostVal, hpathVal⟩ := h
    have hsplits : scheme <+: url → Splits url host.val path.val := fun hstarts =>
      splits_iff.mpr ⟨hstarts, hslash, hhostVal, hpathVal⟩
    constructor
    · rintro ⟨⟨_, hok, hiff⟩, -⟩
      cases hok
      exact .inr (.inl (hiff.mp hret).2)
    · intro hhandled
      obtain ⟨host', path', hform⟩ := (hhandled.resolve_left (not_not_intro hoccurs)).resolve_right
        (by simp [hallocated])
      refine ⟨⟨ret, rfl, iff_of_true hret ⟨hallocated, host', path', hform⟩⟩, fun _ => ?_⟩
      exact ⟨host, path, hhost, hpath, hsplits (splits_iff.mp hform).1⟩
  · next hret =>
    constructor
    · intro _
      cases hallocated : allocated with
      | false => exact .inr (.inr rfl)
      | true => exact .inl (h hallocated)
    · intro _
      refine ⟨⟨ret, rfl, iff_of_false hret fun ⟨hallocated, _, _, hform⟩ => ?_⟩, fun hok => ?_⟩
      · exact h hallocated hform.infix
      · cases hok
        exact absurd rfl hret

end

/-! ## The calls -/

abbrev urlLogic (E : Heard → Prop) : Logic Op Ans St Heard := .ghost Heard.add fun _ h => E h

section
variable {E : Heard → Prop} {url : CStr} {x : Option CStr} {P : St → Prop} {Q : St → Heard → Prop}

theorem spec_url_malloc (size : Nat) :
    (urlLogic E).Spec (fun s h => h = ⟨x, true⟩ ∧ P s) (mallocCall size)
      fun addr s h => h = ⟨x, addr.isSome⟩ ∧ P s :=
  .of_call fun _ _ ⟨hheard, hP⟩ a => by
    subst hheard
    cases a <;> exact ⟨rfl, hP⟩

/-- The other calls are not heard. -/
theorem spec_unheard {op : Op} (hop : ∀ h a, Heard.add h ⟨op, a⟩ = h) :
    (urlLogic E).Spec Q (.call op) fun _ => Q :=
  .of_call fun _ h hQ a => (hop h a).symm ▸ hQ

theorem spec_url_free (addr : Option Nat) : (urlLogic E).Spec Q (freeCall addr) fun _ => Q :=
  spec_unheard fun _ _ => rfl

theorem spec_url_freeDiscovery (r : Box IotclDiscoveryV3Response) :
    (urlLogic E).Spec Q (freeDiscovery r) fun _ => Q := spec_unheard fun _ _ => rfl

/-- A status that is not zero, an allocation having failed. -/
theorem taken_failed {allocated : Bool} (h : allocated = false) {ret : Int} (hret : ret ≠ 0)
    (s : St) : Taken url allocated ret s := by
  unfold Taken
  rw [if_neg hret, h]
  exact nofun

/-- The host string is what the path leaves. -/
theorem take_host (p : UInt8 → Bool) (cs : CStr) :
    cs.take (cs.length - (cs.dropWhile p).length) = cs.takeWhile p := by
  have hfront : ∀ front back : CStr, (front ++ back).take ((front ++ back).length - back.length) =
      front := by
    intro front back
    rw [List.length_append, Nat.add_sub_cancel, List.take_left]
  have h := hfront (cs.takeWhile p) (cs.dropWhile p)
  rwa [List.takeWhile_append_dropWhile] at h

theorem spec_url_parse (hE : ¬ Handled url true → E ⟨x, true⟩) :
    (urlLogic E).Spec (fun _ h => h = ⟨x, true⟩) (parseDiscoveryHostAndPath url)
      fun ret s h => h = ⟨x, h.allocated⟩ ∧ Taken url h.allocated ret s := by
  refine .ite (fun hnone => .pure fun s h hheard => ?_) fun hsome => ?_
  · rw [hheard, Taken, if_neg (by decide)]
    exact ⟨rfl, fun _ => strstr_isNone_iff.mp hnone⟩
  have hoccurs : scheme <:+: url := by
    by_contra h
    exact hsome (strstr_isNone_iff.mpr h)
  have hstr : strstr (cstr "/") (behind url) = if slash ∈ behind url then
      some ((behind url).dropWhile (· ≠ slash)) else none := strstr_char slash _
  show (urlLogic E).Spec _ (defined (strstr (cstr "/") (behind url)) >>= _) _
  rw [hstr]
  -- the parts are there, or an allocation has failed
  have hfailed : ∀ s (h : Heard) {ret}, h = ⟨x, false⟩ → ret ≠ 0 →
      h = ⟨x, h.allocated⟩ ∧ Taken url h.allocated ret s := by
    rintro s h ret rfl hret
    exact ⟨rfl, taken_failed rfl hret s⟩
  by_cases hslash : slash ∈ behind url
  · rw [if_pos hslash]
    refine .bind (.pure (Q := fun path _ h =>
      path = (behind url).dropWhile (· ≠ slash) ∧ h = ⟨x, true⟩)
      fun _ _ hheard => ⟨rfl, hheard⟩) fun path => .of_imp fun hpath => ?_
    refine .bind ((spec_url_malloc (P := fun _ => True) _).pre fun _ _ h => ⟨h, trivial⟩)
      fun pathAddr => ?_
    cases pathAddr with
    | none =>
      refine .bind (.modify (Q := fun _ _ h => h = ⟨x, false⟩) fun _ _ h => h.1)
        fun _ => .bind (spec_url_free _) fun _ => .pure fun s h hheard => ?_
      exact hfailed s h hheard (by decide)
    | some pathAddr =>
      refine .bind (.modify (Q := fun _ s h => h = ⟨x, true⟩ ∧
        s.discoveryAgentPath = some ⟨pathAddr, path⟩) fun _ _ h => ⟨h.1, rfl⟩) fun _ => ?_
      refine .bind (spec_url_malloc _) fun hostAddr => ?_
      cases hostAddr with
      | none =>
        refine .bind (.modify (Q := fun _ _ h => h = ⟨x, false⟩) fun _ _ h => h.1)
          fun _ => .bind (spec_url_free _) fun _ => ?_
        refine .bind (.modify (Q := fun _ _ h => h = ⟨x, false⟩) fun _ _ h => h)
          fun _ => .pure fun s h hheard => ?_
        exact hfailed s h hheard (by decide)
      | some hostAddr =>
        refine .bind (.modify (Q := fun _ s h => h = ⟨x, true⟩ ∧
          s.discoveryAgentPath = some ⟨pathAddr, path⟩ ∧ s.discoveryAgentHost = some
            ⟨hostAddr, (behind url).take ((behind url).length - path.length)⟩)
          fun _ _ h => ⟨h.1, h.2, rfl⟩) fun _ => .pure fun s h ⟨hheard, hpathSet, hhostSet⟩ => ?_
        rw [hheard, Taken, if_pos rfl]
        refine ⟨rfl, rfl, hoccurs, hslash, _, _, hhostSet, hpathSet, ?_, hpath⟩
        rw [hpath, take_host]
  · rw [if_neg hslash]
    refine .stop fun _ h hheard => hheard ▸ hE ?_
    rintro (hnone | ⟨_, _, hform⟩ | hfailed)
    · exact hnone hoccurs
    · exact hslash hform.slash_mem
    · cases hfailed

/-- No string is left behind. -/
abbrev Forgotten (s : St) : Prop := s.discoveryAgentHost = none ∧ s.discoveryAgentPath = none

theorem spec_url_forget (h0 : Heard) :
    (urlLogic E).Spec (fun _ h => h = h0) forgetAgent fun _ s h => h = h0 ∧ Forgotten s := by
  refine .bind_get_eq fun s0 => ?_
  have hhost : (urlLogic E).Spec (fun s h => s = s0 ∧ h = h0)
      (ifSome s0.discoveryAgentHost fun host => do
        freeCall (some host.addr)
        .modify ({ · with discoveryAgentHost := none }))
      fun _ s h => h = h0 ∧ s.discoveryAgentHost = none ∧
        s.discoveryAgentPath = s0.discoveryAgentPath := by
    cases hhost : s0.discoveryAgentHost with
    | none => exact .pure fun s h ⟨hs, hheard⟩ => ⟨hheard, hs ▸ hhost, hs ▸ rfl⟩
    | some host =>
      exact .bind (spec_url_free _) fun _ => .modify fun s h ⟨hs, hheard⟩ =>
        ⟨hheard, rfl, show s.discoveryAgentPath = _ by rw [hs]⟩
  refine .bind hhost fun _ => ?_
  cases hpath : s0.discoveryAgentPath with
  | none => exact .pure fun _ _ h => h
  | some path => exact .bind (spec_url_free _) fun _ => .modify fun _ _ h => ⟨h.1, h.2.1, rfl⟩

/-- The end of a call that was answered with the URL. -/
structure Ended (url : CStr) (ret : Int) (s : St) (h : Heard) : Prop where
  heard : h.url = some url
  taken : Taken url h.allocated ret s
  forgotten : ret ≠ 0 → Forgotten s

theorem spec_url_acceptAgent (hE : ¬ Handled url true → E ⟨some url, true⟩)
    (r : Box IotclDiscoveryV3Response) :
    (urlLogic E).Spec (fun _ h => h = ⟨some url, true⟩) (acceptAgent r url) (Ended url) := by
  refine .bind (spec_url_forget _) fun _ => .bind (spec_url_malloc _) fun agentUrl => ?_
  cases agentUrl with
  | none =>
    refine .bind (spec_url_freeDiscovery r) fun _ => .pure fun s h ⟨hheard, hnone⟩ => ?_
    subst hheard
    exact ⟨rfl, taken_failed rfl (by decide) s, fun _ => hnone⟩
  | some agentUrl =>
    refine .bind ((spec_url_parse hE).pre fun _ _ h => h.1) fun ret => .ite (fun hret => ?_)
      fun hret => ?_
    · refine .bind (Q := fun _ s h => (h.url = some url ∧
        (h.allocated = true → ¬ scheme <:+: url)) ∧ Forgotten s) (fun s h hparse => ?_) fun _ => ?_
      · refine Res.wp_mono (fun _ _ _ hend => ⟨?_, hend.2⟩) (spec_url_forget h s h rfl)
        rw [hend.1]
        rw [Taken, if_neg hret] at hparse
        exact ⟨congrArg Heard.url hparse.1, hparse.2⟩
      · refine .bind (spec_url_free _) fun _ => .bind (spec_url_freeDiscovery r) fun _ =>
          .pure fun s h ⟨⟨hurl, hform⟩, hnone⟩ => ⟨hurl, ?_, fun _ => hnone⟩
        rwa [Taken, if_neg (by decide)]
    · refine .bind (spec_url_free _) fun _ => .bind (spec_url_freeDiscovery r) fun _ =>
        .pure fun s h ⟨hheard, htaken⟩ => ?_
      rw [Classical.not_not.mp hret] at htaken
      exact ⟨congrArg Heard.url hheard, htaken, fun h => absurd rfl h⟩

/-! ## `discovery_call` -/

/-- With an answer its URL has been heard. -/
def Answered : Except Int (Box IotclDiscoveryV3Response) → St → Heard → Prop
  | .error _, _, h => h = ⟨none, true⟩
  | .ok r, _, h => h = ⟨r.val.bu, true⟩

variable {B : Build} {azrtosConfig : IotConnectAzrtosConfig}

theorem spec_url_discoveryAnswer (discoveryPath : Nat) (resource : CStr) :
    (urlLogic E).Spec (fun _ h => h = ⟨none, true⟩)
      (discoveryAnswer B azrtosConfig discoveryPath resource) Answered := by
  have hpure : ∀ ret, (urlLogic E).Spec (fun _ h => h = ⟨none, true⟩)
      (do freeCall (some discoveryPath); return .error ret) Answered := fun _ =>
    .bind (spec_url_free _) fun _ => .pure fun _ _ h => h
  refine .bind (spec_unheard fun _ _ => rfl) fun answer => .ite (fun _ => hpure _) fun _ => ?_
  split
  · exact hpure _
  · exact hpure _
  · refine .bind (Q := fun r _ h => h = ⟨r.bind fun r => r.val.bu, true⟩)
      (.of_call fun s h hheard a => ?_) fun r => ?_
    · subst hheard
      cases a <;> rfl
    · cases r with
      | none => exact hpure _
      | some r => exact .bind (spec_url_free _) fun _ => .pure fun _ _ h => h

theorem spec_url_discoveryCall (env : Option CStr) (cn : CStr)
    (hE : ∀ h, (∀ url, h.url = some url → ¬ Handled url h.allocated) → E h) :
    (urlLogic E).Spec (fun _ h => h = ⟨none, true⟩) (discoveryCall B azrtosConfig env cn)
      fun ret s h => ∀ url, h.url = some url → Ended url ret s h := by
  have hend : ∀ (ret : Int) {x : Bool}, (urlLogic E).Spec (fun _ h => h = ⟨none, x⟩) (pure ret)
      fun ret s h => ∀ url, h.url = some url → Ended url ret s h := fun ret x =>
    .pure fun s h hheard url hurl => by
      rw [hheard] at hurl
      cases hurl
  have hstop : ∀ (s : St) h, h = ⟨none, true⟩ → E h := fun s h hheard => hE h fun url hurl => by
    rw [hheard] at hurl
    cases hurl
  unfold discoveryCall
  split
  · exact hend _
  · refine bind_defined hstop fun env _ => ?_
    refine .bind ((spec_url_malloc (P := fun _ => True) _).conseq (fun _ _ h => ⟨h, trivial⟩)
      fun _ _ _ h => h.1) fun discoveryPath => ?_
    cases discoveryPath with
    | none => exact hend _
    | some discoveryPath =>
      refine .ite (fun _ => .stop hstop) fun _ => .bind (spec_url_discoveryAnswer _ _) fun res => ?_
      cases res with
      | error ret => exact hend _
      | ok r =>
        dsimp only
        split
        · next hbu =>
          exact .bind (spec_url_freeDiscovery r) fun _ =>
            (hend _).pre fun s h hheard => by simpa only [Answered, hbu] using hheard
        · next url hbu =>
          have hnot : ¬ Handled url true → E ⟨some url, true⟩ := by
            intro hnot
            refine hE _ fun url' hurl => ?_
            cases hurl
            exact hnot
          refine (spec_url_acceptAgent hnot r).conseq (fun s h hheard => hbu ▸ hheard)
            fun ret s h hended url' hurl => ?_
          obtain rfl := Option.some.inj (hended.heard.symm.trans hurl)
          exact hended

end

/-! ## Every URL -/

/-- The call is right about the URL that it is answered with, if there is one. -/
def DiscoversRight (o : Out Op Ans St Int) (h : Heard) : Prop :=
  ∀ url, h.url = some url → Discovered url h.allocated o

/-- Of every URL that is parsed, and of every URL that `discovery_call` is answered with. -/
theorem agent_url_iff (B : Build) (azrtosConfig : IotConnectAzrtosConfig) (env : Option CStr)
    (cn url : CStr) (ans : Tr Op Ans → (op : Op) → Ans op) (s : St) (t : Tr Op Ans) :
    (let o := (parseDiscoveryHostAndPath url).run (.sequential ans) s t
     let h := heard (o.tr.drop t.length)
     Parsed url h.allocated o ↔ Handled url h.allocated) ∧
    (let o := (discoveryCall B azrtosConfig env cn).run (.sequential ans) s t
     let h := heard (o.tr.drop t.length)
     DiscoversRight o h ↔ ∀ url, h.url = some url → Handled url h.allocated) := by
  constructor
  · have hspec : (urlLogic fun h => ¬ Handled url h.allocated).Spec _
      (parseDiscoveryHostAndPath url) _ := spec_url_parse (x := none) id
    have hsat := hspec.ghost_sat ans (s := s) rfl t
    generalize (parseDiscoveryHostAndPath url).run (.sequential ans) s t = o at hsat
    obtain ⟨ret | ret, s', t'⟩ := o
    · refine iff_of_false (fun h => ?_) hsat
      obtain ⟨_, hok, -⟩ := h.returns
      cases hok
    · exact parsed_iff hsat.2
  · have hspec : (urlLogic fun h => ∀ url, h.url = some url → ¬ Handled url h.allocated).Spec _
      (discoveryCall B azrtosConfig env cn) _ := spec_url_discoveryCall env cn fun _ h => h
    have hsat := hspec.ghost_sat ans (s := s) rfl t
    generalize (discoveryCall B azrtosConfig env cn).run (.sequential ans) s t = o at hsat
    obtain ⟨ret | ret, s', t'⟩ := o
    · refine forall_congr' fun url => imp_congr_right fun hurl => iff_of_false (fun h => ?_) ?_
      · obtain ⟨_, hok, -⟩ := h.returns
        cases hok
      · exact hsat url hurl
    · refine forall_congr' fun url => imp_congr_right fun hurl => ?_
      have hended := hsat url hurl
      refine Iff.trans ?_ (parsed_iff (t := t') hended.taken)
      exact ⟨fun h => h.toParsed, fun h => ⟨h, fun hne => hended.forgotten fun hret =>
        hne (by rw [hret])⟩⟩

/-- The discovery service knows of an agent with the URL, and nothing fails. -/
def urlAns (url : CStr) : Tr Op Ans → (op : Op) → Ans op := fun t op =>
  match op with
  | .iotclParseDiscoveryV3Response _ => some ⟨7, ⟨some url⟩⟩
  | op => sampleAns none t op

def sampleDiscovery (url : CStr) : Out Op Ans St Int :=
  (discoveryCall ⟨cstr "discovery", cstr "/api/%s/%s", [48]⟩ ⟨1, 2, 3⟩ (some (cstr "env"))
    (cstr "c-d")).run (.sequential (urlAns url)) .boot []

/-- A URL without a path, and one with something in front of the scheme. -/
theorem agent_misread :
    ¬ DiscoversRight (sampleDiscovery (cstr "https://host"))
        (heard (sampleDiscovery (cstr "https://host")).tr) ∧
      ¬ DiscoversRight (sampleDiscovery (cstr "x+https://host/path"))
        (heard (sampleDiscovery (cstr "x+https://host/path")).tr) := by
  constructor
  · intro h
    obtain ⟨ret, hok, -⟩ := (h (cstr "https://host") rfl).returns
    have hfault : (sampleDiscovery (cstr "https://host")).res = .error .fault := rfl
    rw [hfault] at hok
    cases hok
  · intro h
    obtain ⟨host, path, -, -, hsplits⟩ := (h (cstr "x+https://host/path") rfl).parts rfl
    exact absurd (splits_iff.mp hsplits).1 (by decide)

end Iotc.Di
