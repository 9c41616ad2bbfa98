import Iotc.C.Buf
import Iotc.Resume.Hoare
import Iotc.Web.Basic

/-!
# The device update agent

`azrtos_adu_agent.c`. `is_adu_agent_started` is set by the first successful start and by nothing
cleared, while `running` follows the agent itself. A start after a successful stop reports
success without an agent (`restart_without_agent`); up to there the flag tells the truth
(`start_is_truthful`).
-/

namespace Iotc.Adu

open Iotc.C Iotc.Resume
open Iotc.Web (nxSuccess)

/-- `provider` and `name` are not passed from NetX Duo 6.2.0 on. -/
inductive Op where
  | nxAzureIotAduAgentStart (manufacturer model : CStr) (provider name : Option CStr)
      (version : CStr)
  | nxAzureIotHubClientPropertiesRequest
  | nxAzureIotAduAgentStop

@[reducible] def Ans : Op → Type := fun _ => UINT

structure St where
  isAduAgentStarted : Bool

def St.init : St := ⟨false⟩

abbrev M (α : Type) : Type := Prog Op Ans St α

/-- All properties are requested, so that the agent can do its work. -/
def requestProperties : M UINT := do
  let status ← .call Op.nxAzureIotHubClientPropertiesRequest
  if status ≠ nxSuccess then
    return 3
  return 0

/-- `api620` is `IOTC_USE_ADU_API_620`. -/
def iothubStartDeviceAgent (api620 : Bool)
    (manufacturer model provider name version : Option CStr) : M UINT := do
  let (provider, name) := if api620 then (some [], some []) else (provider, name)
  match manufacturer, model, provider, name, version with
  | some manufacturer, some model, some provider, some name, some version =>
    let s ← .get
    if s.isAduAgentStarted then
      requestProperties
    else
      let status ← .call <| if api620 then
          Op.nxAzureIotAduAgentStart manufacturer model none none version
        else Op.nxAzureIotAduAgentStart manufacturer model (some provider) (some name) version
      if status ≠ nxSuccess then
        return 2
      .modify fun s => { s with isAduAgentStarted := true }
      requestProperties
  | _, _, _, _, _ => return 1

/-- The flag stays as it is. -/
def iothubStopDeviceAgent : M UINT := .call Op.nxAzureIotAduAgentStop

/-- A call with its arguments, none of them NULL. -/
inductive AgentCall where
  | start (manufacturer model provider name version : CStr)
  | stop

def api (api620 : Bool) : AgentCall → M UINT
  | .start manufacturer model provider name version =>
    iothubStartDeviceAgent api620 (some manufacturer) (some model) (some provider) (some name)
      (some version)
  | .stop => iothubStopDeviceAgent

/-! ## The agent itself -/

/-- Whether the agent runs after an event: a successful start starts it, a successful stop ends
it. -/
def runningAfter (running : Bool) : Ev Op Ans → Bool
  | ⟨.nxAzureIotAduAgentStart .., status⟩ => running || status == nxSuccess
  | ⟨.nxAzureIotAduAgentStop, status⟩ => running && status != nxSuccess
  | _ => running

def running (t : Tr Op Ans) : Bool := t.foldl runningAfter false

@[simp] theorem running_snoc (t : Tr Op Ans) (ev : Ev Op Ans) :
    running (t ++ [ev]) = runningAfter (running t) ev := by
  simp [running]

def Op.isStart : Op → Bool
  | .nxAzureIotAduAgentStart .. => true
  | _ => false

/-- The agent is started only when it does not run. -/
def StartsStopped (t : Tr Op Ans) (ev : Ev Op Ans) : Prop :=
  ev.1.isStart = true → running t = false

def AgentCall.isStart : AgentCall → Bool
  | .start .. => true
  | .stop => false

/-- After a start that reports success the agent runs, and it was not started twice. -/
structure Truthful (c : AgentCall) (_ : St) (t : Tr Op Ans) (o : Out Op Ans St UINT) : Prop where
  running : c.isStart = true → o.res = .ok 0 → running o.tr = true
  starts : Along StartsStopped t (o.tr.drop t.length)

/-- No start is asked for when the agent has been started and stopped. -/
def NotStopped (c : AgentCall) (s : St) (t : Tr Op Ans) (_ : Out Op Ans St UINT) : Prop :=
  c.isStart = true → s.isAduAgentStarted = true → running t = true

/-- The flag is set while the agent runs. -/
def Flagged (s : St) (t : Tr Op Ans) : Prop := running t = true → s.isAduAgentStarted = true

section
variable {ans : Tr Op Ans → (op : Op) → Ans op}

theorem run_call_sequential (op : Op) (s : St) (t : Tr Op Ans) :
    (Prog.call op : M UINT).run (.sequential ans) s t =
      ⟨.ok (ans t op), s, t ++ [⟨op, ans t op⟩]⟩ :=
  run_call_quiet (World.sequential_quiet ans op) s t

theorem run_requestProperties (ans : Tr Op Ans → (op : Op) → Ans op) (s : St) (t : Tr Op Ans) :
    ∃ status,
    requestProperties.run (.sequential ans) s t =
      ⟨.ok status, s, t ++ [⟨.nxAzureIotHubClientPropertiesRequest,
        ans t .nxAzureIotHubClientPropertiesRequest⟩]⟩ := by
  unfold requestProperties
  rw [run_bind, run_call_sequential, Out.bind_ok, run_ite]
  split
  · exact ⟨_, rfl⟩
  · exact ⟨_, rfl⟩

/-- A start call with valid arguments. -/
theorem api_start (api620 : Bool) (manufacturer model provider name version : CStr) :
    ∃ provider' name', api api620 (.start manufacturer model provider name version) = (do
      let s ← .get
      if s.isAduAgentStarted then
        requestProperties
      else
        let status ← .call (Op.nxAzureIotAduAgentStart manufacturer model provider' name' version)
        if status ≠ nxSuccess then
          return 2
        .modify fun s => { s with isAduAgentStarted := true }
        requestProperties) := by
  cases api620
  · exact ⟨some provider, some name, rfl⟩
  · exact ⟨none, none, rfl⟩

theorem truthful_step (api620 : Bool) (c : AgentCall) (s : St) (t : Tr Op Ans) (hflag : Flagged s t)
    (hc : NotStopped c s t ((api api620 c).run (.sequential ans) s t)) :
    Truthful c s t ((api api620 c).run (.sequential ans) s t) ∧
      (((api api620 c).run (.sequential ans) s t).res.isOk →
        Flagged ((api api620 c).run (.sequential ans) s t).st
          ((api api620 c).run (.sequential ans) s t).tr) := by
  have hadded : ∀ u : Tr Op Ans, (t ++ u).drop t.length = u := fun u => List.drop_left
  have hquiet : ∀ (t : Tr Op Ans) (a : Ans .nxAzureIotHubClientPropertiesRequest),
      running (t ++ [⟨.nxAzureIotHubClientPropertiesRequest, a⟩]) = running t := by
    intro t a
    rw [running_snoc]
    rfl
  cases c with
  | stop =>
    have hrun : (api api620 .stop).run (.sequential ans) s t = ⟨.ok (ans t .nxAzureIotAduAgentStop),
        s, t ++ [⟨.nxAzureIotAduAgentStop, ans t .nxAzureIotAduAgentStop⟩]⟩ :=
      run_call_sequential _ s t
    rw [hrun]
    refine ⟨⟨nofun, ?_⟩, fun _ hr => hflag ?_⟩
    · rw [hadded]
      exact along_single.mpr nofun
    · rw [running_snoc] at hr
      exact (Bool.and_eq_true_iff.mp hr).1
  | start manufacturer model provider name version =>
    obtain ⟨p, n, hapi⟩ := api_start api620 manufacturer model provider name version
    rw [hapi, run_bind, run_get, Out.bind_ok, run_ite]
    split
    · next hstarted =>
      obtain ⟨status, hrun⟩ := run_requestProperties ans s t
      have hr := hc rfl hstarted
      rw [hrun]
      refine ⟨⟨fun _ _ => by rw [hquiet]; exact hr, ?_⟩, fun _ _ => hstarted⟩
      rw [hadded]
      exact along_single.mpr nofun
    · next hstarted =>
      have hstopped : running t = false := by
        by_contra h
        exact hstarted (hflag (by simpa using h))
      rw [run_bind, run_call_sequential, Out.bind_ok, run_ite]
      generalize ans t (.nxAzureIotAduAgentStart manufacturer model p n version) = status
      split
      · next hfailed =>
        have hr : running
            (t ++ [⟨.nxAzureIotAduAgentStart manufacturer model p n version, status⟩]) = false := by
          rw [running_snoc, hstopped]
          simpa [runningAfter] using hfailed
        refine ⟨⟨fun _ hok => ?_, ?_⟩, fun _ h => ?_⟩
        · exact absurd (Except.ok.inj hok) (by decide)
        · rw [run_pure, hadded]
          exact along_single.mpr fun _ => hstopped
        · rw [run_pure, hr] at h
          cases h
      · next hok =>
        have hok : status = nxSuccess := Classical.not_not.mp hok
        obtain ⟨result, hrun⟩ := run_requestProperties ans { s with isAduAgentStarted := true }
          (t ++ [⟨.nxAzureIotAduAgentStart manufacturer model p n version, status⟩])
        have hr : running
            (t ++ [⟨.nxAzureIotAduAgentStart manufacturer model p n version, status⟩]) = true := by
          rw [running_snoc, hstopped, hok]
          rfl
        rw [run_bind, run_modify, Out.bind_ok, hrun]
        refine ⟨⟨fun _ _ => by rw [hquiet, hr], ?_⟩, fun _ _ => rfl⟩
        rw [List.append_assoc, hadded]
        exact along_cons.mpr ⟨fun _ => hstopped, along_single.mpr nofun⟩

/-- In every session without a start after the agent was started and stopped, whenever a start
reports success the agent runs, and it is never started while it does. -/
theorem start_is_truthful (api620 : Bool) (ans : Tr Op Ans → (op : Op) → Ans op)
    (cs : List AgentCall) (h : EachCall (.sequential ans) (api api620) NotStopped cs .init []) :
    EachCall (.sequential ans) (api api620) Truthful cs .init [] :=
  h.of_inv (truthful_step api620) nofun

/-- Start calls with the same arguments. -/
def startCall : AgentCall :=
  .start (cstr "MICROCHIP") (cstr "SAME54") (cstr "AVNET") (cstr "SAMPLEAPP") (cstr "1.0")

/-- A start, a second one while the agent runs, and a stop. -/
theorem start_is_truthful_once :
    EachCall (.sequential fun _ _ => nxSuccess) (api false) Truthful
      [startCall, startCall, .stop] .init [] := by
  refine start_is_truthful false (fun _ _ => nxSuccess) _ ⟨nofun, fun _ => ⟨fun _ _ => ?_, fun _ =>
    ⟨nofun, fun _ => trivial⟩⟩⟩
  decide +kernel

/-- On the second cycle of start and stop the start reports success, and no agent runs. -/
theorem restart_without_agent :
    ¬ EachCall (.sequential fun _ _ => nxSuccess) (api false) Truthful
      [startCall, .stop, startCall] .init [] := by
  rintro ⟨-, h⟩
  obtain ⟨-, h⟩ := h (by decide +kernel)
  obtain ⟨htruthful, -⟩ := h (by decide +kernel)
  exact absurd (htruthful.running rfl (by decide +kernel)) (by decide +kernel)

end

end Iotc.Adu
