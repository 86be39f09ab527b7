import Mathlib.Data.Finset.Insert
import Mathlib.Data.List.Sort
import Souxmar.Ai.Provider
import Souxmar.Lib.Dict
import Souxmar.Pipeline.ContentHash

/-!
# Tools and their dispatch

`tool.h` and `tool_dispatcher.cpp`: the catalogue, the confirmation policy and `dispatch_tool`. Tool
handlers, the prompter and the provider share one world `ω`, which each of them may read and change.

The state of a session carries a log of what happened to it. The code keeps no such log; it is what
the safety statements are about.
-/

namespace Souxmar.Ai

open Souxmar.Lib Souxmar.Pipeline

inductive Confirmation
  | auto
  | confirmOnce
  | confirmAlways
deriving DecidableEq, Repr

structure ToolError where
  code : String
  message : String
  suggestion : String := ""
deriving DecidableEq, Repr

structure ToolResult where
  data : Value := .null
  summary : String
  error : Option ToolError := none
deriving Repr

/-- What a handler throws. -/
inductive Thrown
  | exception (what : String)
  | unknown
deriving DecidableEq, Repr

/-- What happened in a session: the history a provider was handed, the calls it answered with, the
approvals of the user, the handlers that ran, and the calls that were answered to the model, with the
text of the answer. -/
inductive Event
  | asked (history : List ChatMessage)
  | emitted (calls : List ToolCall)
  | approved (name : String) (inputs : Value)
  | executed (name : String) (inputs : Value)
  | settled (call : ToolCall) (answer : String)
deriving Repr

structure AuditEntry where
  toolName : String
  outcome : String
  summary : String
  inputHash : String
deriving DecidableEq, Repr

variable (ω : Type)

structure Tool where
  name : String
  description : String := ""
  confirmation : Confirmation := .auto
  inputSchemaDoc : String := ""
  handler : Value → ω → Except Thrown ToolResult × ω

/-- Each tool is stored under its own name. -/
structure ToolRegistry where
  tools : Dict String (Tool ω) := ∅
  named : ∀ name tool, tools.lookup name = some tool → tool.name = name := by intros; contradiction

variable {ω} in
def ToolRegistry.empty : ToolRegistry ω := {}

/-- The audit log and the budget of `ToolContext`, either of which may be null. What they do is part
of the world. -/
structure ToolContext where
  auditLog : Option (AuditEntry → ω → ω) := none
  budget : Option (UInt64 → UInt64 → ω → ω) := none

structure ConfirmationPolicy where
  overrides : Dict String Confirmation := ∅
  confirmedOnce : Finset String := ∅
  prompter : Option (Tool ω → Value → ω → Bool × ω) := none

/-- What the calls of a session change: the world and the caller's policy. -/
structure AgentState where
  world : ω
  policy : ConfirmationPolicy ω
  log : List Event := []

variable {ω}

namespace ToolRegistry

def add (tool : Tool ω) (registry : ToolRegistry ω) : ToolRegistry ω where
  tools := registry.tools.insert tool.name tool
  named name t h := by
    by_cases heq : name = tool.name
    · subst heq
      rw [AList.lookup_insert] at h
      rw [Option.some.inj h]
    · rw [AList.lookup_insert_ne heq] at h
      exact registry.named name t h

def find (registry : ToolRegistry ω) (name : String) : Option (Tool ω) := registry.tools.lookup name

def list (registry : ToolRegistry ω) : List String := registry.tools.keys.insertionSort (· ≤ ·)

theorem find_name {registry : ToolRegistry ω} {name : String} {tool : Tool ω}
    (h : registry.find name = some tool) : tool.name = name :=
  registry.named name tool h

end ToolRegistry

def AgentState.record (s : AgentState ω) (e : Event) : AgentState ω :=
  { s with log := s.log ++ [e] }

def effectiveConfirmation (tool : Tool ω) (policy : ConfirmationPolicy ω) : Confirmation :=
  (policy.overrides.lookup tool.name).getD tool.confirmation

def makeError (code message : String) (suggestion : String := "") : ToolResult where
  summary := "error: " ++ message
  error := some ⟨code, message, suggestion⟩

def outcomeToken (r : ToolResult) : String :=
  match r.error with
  | none => "ok"
  | some error =>
    if error.code = "DENIED" then "denied"
    else if error.code = "NOT_CONFIRMED" then "not_confirmed"
    else if error.code = "NOT_FOUND" then "not_found"
    else "fail"

def recordAudit (context : ToolContext ω) (toolName : String) (inputs : Value) (result : ToolResult)
    (s : AgentState ω) : AgentState ω :=
  match context.auditLog with
  | none => s
  | some append =>
    let entry : AuditEntry :=
      { toolName
        outcome := outcomeToken result
        summary := result.summary
        inputHash := (hashInputs [] ("audit:" ++ toolName) inputs).hex }
    { s with world := append entry s.world }

/-- The prompter has said yes; a tool that is confirmed once is not asked about again. -/
def grant (tool : Tool ω) (inputs : Value) (required : Confirmation) (s : AgentState ω) :
    AgentState ω :=
  let s := s.record (.approved tool.name inputs)
  if required = .confirmOnce then
    { s with policy := { s.policy with
        confirmedOnce := insert tool.name s.policy.confirmedOnce } }
  else s

/-- The confirmation gate of `dispatch_tool`: the refusal, if there is one. -/
def confirmationGate (tool : Tool ω) (inputs : Value) (s : AgentState ω) :
    Option ToolResult × AgentState ω :=
  let required := effectiveConfirmation tool s.policy
  if required = .auto then (none, s)
  else if required = .confirmOnce ∧ tool.name ∈ s.policy.confirmedOnce then (none, s)
  else
    match s.policy.prompter with
    | none =>
      (some (makeError "NOT_CONFIRMED"
        ("tool '" ++ tool.name ++ "' requires user confirmation but no prompter was supplied")
        ("either set ConfirmationPolicy.prompter or add an override mapping this tool to " ++
          "Confirmation::Auto")), s)
    | some prompter =>
      let (approved, world) := prompter tool inputs s.world
      let s := { s with world }
      if !approved then
        (some (makeError "DENIED" ("user declined to run '" ++ tool.name ++ "'")), s)
      else (none, grant tool inputs required s)

/-- Every exception of a handler becomes a result. -/
def handlerResult (tool : Tool ω) : Except Thrown ToolResult → ToolResult
  | .ok result => result
  | .error (.exception what) =>
    makeError "INTERNAL" ("tool '" ++ tool.name ++ "' threw an exception: " ++ what)
  | .error .unknown =>
    makeError "INTERNAL" ("tool '" ++ tool.name ++ "' threw an unknown exception")

def runHandler (tool : Tool ω) (inputs : Value) (s : AgentState ω) : ToolResult × AgentState ω :=
  let s := s.record (.executed tool.name inputs)
  let (result, world) := tool.handler inputs s.world
  (handlerResult tool result, { s with world })

def dispatchTool (registry : ToolRegistry ω) (toolName : String) (inputs : Value)
    (context : ToolContext ω) (s : AgentState ω) : ToolResult × AgentState ω :=
  match registry.find toolName with
  | none =>
    let r := makeError "NOT_FOUND" ("no tool named '" ++ toolName ++ "' is registered")
      "call `souxmar agent list` (or ToolRegistry.list()) to see available tools"
    (r, recordAudit context toolName inputs r s)
  | some tool =>
    match confirmationGate tool inputs s with
    | (some r, s) => (r, recordAudit context toolName inputs r s)
    | (none, s) =>
      let (result, s) := runHandler tool inputs s
      (result, recordAudit context toolName inputs result s)

/-! ## What a dispatch does to the policy and the log -/

@[simp] theorem recordAudit_policy (context : ToolContext ω) (toolName : String) (inputs : Value)
    (result : ToolResult) (s : AgentState ω) :
    (recordAudit context toolName inputs result s).policy = s.policy := by
  unfold recordAudit
  split <;> rfl

@[simp] theorem recordAudit_log (context : ToolContext ω) (toolName : String) (inputs : Value)
    (result : ToolResult) (s : AgentState ω) :
    (recordAudit context toolName inputs result s).log = s.log := by
  unfold recordAudit
  split <;> rfl

@[simp] theorem runHandler_policy (tool : Tool ω) (inputs : Value) (s : AgentState ω) :
    (runHandler tool inputs s).2.policy = s.policy := rfl

@[simp] theorem runHandler_log (tool : Tool ω) (inputs : Value) (s : AgentState ω) :
    (runHandler tool inputs s).2.log = s.log ++ [.executed tool.name inputs] := rfl

section

variable (tool : Tool ω) (inputs : Value) (required : Confirmation) (s : AgentState ω)

@[simp] theorem grant_log :
    (grant tool inputs required s).log = s.log ++ [.approved tool.name inputs] := by
  unfold grant
  split <;> rfl

@[simp] theorem grant_overrides :
    (grant tool inputs required s).policy.overrides = s.policy.overrides := by
  unfold grant
  split <;> rfl

@[simp] theorem grant_prompter :
    (grant tool inputs required s).policy.prompter = s.policy.prompter := by
  unfold grant
  split <;> rfl

theorem grant_confirmedOnce :
    (grant tool inputs required s).policy.confirmedOnce ⊆ insert tool.name s.policy.confirmedOnce := by
  unfold grant
  split
  · exact Finset.Subset.refl _
  · exact Finset.subset_insert _ _

end

/-- The ways out of a dispatch, by the policy and the log it leaves. -/
inductive Dispatched (registry : ToolRegistry ω) (toolName : String) (inputs : Value)
    (s s' : AgentState ω) : Prop
  /-- No handler ran. -/
  | refused (hpolicy : s'.policy = s.policy) (hlog : s'.log = s.log)
  /-- The tool needs no confirmation. -/
  | free (tool : Tool ω) (hfind : registry.find toolName = some tool)
    (hlevel : effectiveConfirmation tool s.policy = .auto) (hpolicy : s'.policy = s.policy)
    (hlog : s'.log = s.log ++ [.executed toolName inputs])
  /-- The tool needs one confirmation, and has had it. -/
  | confirmed (tool : Tool ω) (hfind : registry.find toolName = some tool)
    (hlevel : effectiveConfirmation tool s.policy = .confirmOnce)
    (honce : toolName ∈ s.policy.confirmedOnce) (hpolicy : s'.policy = s.policy)
    (hlog : s'.log = s.log ++ [.executed toolName inputs])
  /-- The user has just approved the call. -/
  | approved (tool : Tool ω) (hfind : registry.find toolName = some tool)
    (hlevel : effectiveConfirmation tool s.policy ≠ .auto)
    (hoverrides : s'.policy.overrides = s.policy.overrides)
    (hprompter : s.policy.prompter.isSome ∧ s'.policy.prompter = s.policy.prompter)
    (honce : s'.policy.confirmedOnce ⊆ insert toolName s.policy.confirmedOnce)
    (hlog : s'.log = s.log ++ [.approved toolName inputs, .executed toolName inputs])

theorem dispatchTool_cases (registry : ToolRegistry ω) (toolName : String) (inputs : Value)
    (context : ToolContext ω) (s : AgentState ω) :
    Dispatched registry toolName inputs s (dispatchTool registry toolName inputs context s).2 := by
  unfold dispatchTool
  cases hfind : registry.find toolName with
  | none => exact .refused (by simp) (by simp)
  | some tool =>
    have hname := ToolRegistry.find_name hfind
    subst hname
    simp only []
    unfold confirmationGate
    by_cases hauto : effectiveConfirmation tool s.policy = .auto
    · rw [if_pos hauto]
      exact .free tool hfind hauto (by simp) (by simp)
    rw [if_neg hauto]
    by_cases honce : effectiveConfirmation tool s.policy = .confirmOnce ∧
        tool.name ∈ s.policy.confirmedOnce
    · rw [if_pos honce]
      exact .confirmed tool hfind honce.1 honce.2 (by simp) (by simp)
    rw [if_neg honce]
    cases hprompter : s.policy.prompter with
    | none => exact .refused (by simp) (by simp)
    | some prompter =>
      simp only []
      cases (prompter tool inputs s.world).1 with
      | false => exact .refused (by simp) (by simp)
      | true =>
        refine .approved tool hfind hauto (by simp) ⟨by simp [hprompter], by simp [hprompter]⟩ ?_ (by simp)
        simpa using grant_confirmedOnce tool inputs _ { s with world := _ }

end Souxmar.Ai
