import Souxmar.Ai.Tool

/-!
# The agent loop

`agent.cpp`: `run_loop` asks the provider, runs the tool calls it answers with and asks again, until
it answers in prose, the steps run out or a call waits for the user. `resume_agent_turn` settles the
call that waits, works off the calls queued behind it and goes back to the loop.
-/

namespace Souxmar.Ai

open Souxmar.Lib Souxmar.Pipeline

inductive AgentStopReason
  | finalAnswer
  | maxStepsReached
  | providerFailed
  | aborted
  | awaitingConfirmation
deriving DecidableEq, Repr

/-- One executed tool call. -/
structure AgentToolCall where
  name : String
  argumentsJson : String
  resultSummary : String
  ok : Bool := true
  refused : Bool := false
deriving DecidableEq, Repr

/-- One provider round-trip and what it caused. -/
structure AgentStep where
  assistantText : String := ""
  toolCalls : List AgentToolCall := []
  latency : ℤ := 0
deriving DecidableEq, Repr

/-- A call that waits for the user, and the calls behind it. -/
structure PendingConfirmation where
  toolName : String := ""
  argumentsJson : String := ""
  callId : String := ""
  queued : List ToolCall := []
deriving DecidableEq, Repr

structure AgentOutcome where
  stopReason : AgentStopReason := .finalAnswer
  finalText : String := ""
  steps : List AgentStep := []
  error : String := ""
  errorKind : ProviderErrorKind := .providerHttpError
  inputTokens : UInt64 := 0
  outputTokens : UInt64 := 0
  latency : ℤ := 0
  pending : PendingConfirmation := {}
  history : List ChatMessage := []
  stepsUsed : UInt32 := 0
deriving DecidableEq, Repr

structure AgentOptions where
  model : String
  systemPrompt : String := ""
  maxSteps : UInt32 := 8
  allowedTools : List String := []
  temperature : Option UInt64 := some 0
  suspendOnConfirmation : Bool := false
  stepsAlreadyUsed : UInt32 := 0
deriving DecidableEq, Repr

def defaultAgentSystemPrompt : String :=
  "You are the souxmar agent, working inside a CAD/FEM/CFD workbench. " ++
  "Use the provided tools to inspect and act on the user's project; " ++
  "prefer calling a tool over guessing. Tool results are facts about " ++
  "the real project — never invent a number that a tool could have " ++
  "told you. If a tool fails, read the error and either correct the " ++
  "arguments or explain the problem; do not retry the same call " ++
  "unchanged. When you have what you need, answer in plain prose " ++
  "without calling further tools."

/-- What the calls of one session are given: `parse_value_yaml` is a parser that may throw. -/
structure Env (ω : Type) where
  provider : Provider ω
  registry : ToolRegistry ω
  context : ToolContext ω := {}
  parseValueYaml : String → Option Value

variable {ω : Type}

def buildToolDefinitions (registry : ToolRegistry ω) (allowed : List String) : List ToolDefinition :=
  registry.list.filterMap fun name =>
    if !allowed.isEmpty && !allowed.contains name then none
    else
      (registry.find name).map fun t =>
        let description :=
          if t.inputSchemaDoc.isEmpty then t.description
          else t.description ++ "\n\nInput (JSON object with these fields):\n" ++ t.inputSchemaDoc
        ⟨t.name, description⟩

/-- Malformed arguments become the empty map. -/
def parseArguments (parseValueYaml : String → Option Value) (json : String) : Value :=
  if json.isEmpty then .map [] else (parseValueYaml json).getD (.map [])

def renderToolResult (result : ToolResult) : String :=
  match result.error with
  | none => if result.summary.isEmpty then "ok" else result.summary
  | some error =>
    let text := "error [" ++ error.code ++ "]: " ++ error.message
    if error.suggestion.isEmpty then text else text ++ " — " ++ error.suggestion

/-- Dispatching the tool would need a decision that the policy cannot supply. -/
def needsUserDecision (registry : ToolRegistry ω) (policy : ConfirmationPolicy ω) (name : String) :
    Bool :=
  match registry.find name with
  | none => false
  | some tool =>
    let level := (policy.overrides.lookup name).getD tool.confirmation
    if level = .auto then false
    else if level = .confirmOnce ∧ name ∈ policy.confirmedOnce then false
    else policy.prompter.isNone

def wasRefused (dispatched : ToolResult) : Bool :=
  match dispatched.error with
  | none => false
  | some error => error.code = "NOT_CONFIRMED" || error.code = "DENIED"

/-- Run one call and answer it to the model. -/
def executeCall (env : Env ω) (call : ToolCall) (history : List ChatMessage) (s : AgentState ω) :
    AgentToolCall × List ChatMessage × AgentState ω :=
  let inputs := parseArguments env.parseValueYaml call.argumentsJson
  let (dispatched, s) := dispatchTool env.registry call.name inputs env.context s
  let executed : AgentToolCall :=
    { name := call.name
      argumentsJson := call.argumentsJson
      resultSummary := renderToolResult dispatched
      ok := dispatched.error.isNone
      refused := wasRefused dispatched }
  let answer : ChatMessage :=
    { role := .tool, content := executed.resultSummary, toolCallId := call.id }
  (executed, history ++ [answer], s.record (.settled call answer.content))

/-- How a batch of calls ends: all of them answered, or one of them waiting for the user. -/
inductive Batch (ω : Type)
  | done (step : AgentStep) (history : List ChatMessage) (s : AgentState ω)
  | suspended (pending : PendingConfirmation) (step : AgentStep) (history : List ChatMessage)
    (s : AgentState ω)

def Batch.state : Batch ω → AgentState ω
  | done _ _ s => s
  | suspended _ _ _ s => s

/-- The loop over a batch of calls, in `run_loop` and in `resume_agent_turn`. The two differ in the
calls that they leave queued behind the one that waits. -/
def runCalls (env : Env ω) (options : AgentOptions)
    (queuedBehind : ToolCall → List ToolCall → List ToolCall) :
    List ToolCall → AgentStep → List ChatMessage → AgentState ω → Batch ω
  | [], step, history, s => .done step history s
  | call :: rest, step, history, s =>
    if options.suspendOnConfirmation && needsUserDecision env.registry s.policy call.name then
      let pending : PendingConfirmation :=
        { toolName := call.name
          argumentsJson := call.argumentsJson
          callId := call.id
          queued := queuedBehind call rest }
      .suspended pending step history s
    else
      let (executed, history, s) := executeCall env call history s
      runCalls env options queuedBehind rest
        { step with toolCalls := step.toolCalls ++ [executed] } history s

/-- `run_loop` leaves queued what comes after the call. -/
def queuedInRun (_ : ToolCall) (rest : List ToolCall) : List ToolCall := rest

/-- `resume_agent_turn` leaves queued what comes after the first call with this id, in the whole
queue of the pending confirmation. -/
def afterId (id : String) : List ToolCall → List ToolCall
  | [] => []
  | rest :: queue => if rest.id = id then queue else afterId id queue

def queuedInResume (queue : List ToolCall) (call : ToolCall) (_ : List ToolCall) : List ToolCall :=
  afterId call.id queue

def recordBudget (context : ToolContext ω) (response : ChatResponse) (s : AgentState ω) :
    AgentState ω :=
  match context.budget with
  | none => s
  | some record =>
    if response.inputTokens ≠ 0 ∨ response.outputTokens ≠ 0 then
      { s with world := record response.inputTokens response.outputTokens s.world }
    else s

/-- The request of one round of the loop. -/
def chatRequest (env : Env ω) (options : AgentOptions) (history : List ChatMessage) : ChatRequest where
  model := options.model
  messages := history
  tools := buildToolDefinitions env.registry options.allowedTools
  temperature := options.temperature

/-- The provider is handed the history. -/
def ask (env : Env ω) (options : AgentOptions) (history : List ChatMessage) (s : AgentState ω) :
    Except ProviderError ChatResponse × AgentState ω :=
  let (result, world) := env.provider (chatRequest env options history) s.world
  (result, { s.record (.asked history) with world })

/-- The rounds of `run_loop` from number `step` on, with `n` of them left. -/
def runLoopFrom (env : Env ω) (options : AgentOptions) :
    ℕ → UInt32 → AgentOutcome → List ChatMessage → AgentState ω → AgentOutcome × AgentState ω
  | 0, step, outcome, history, s =>
    ({ outcome with
        stopReason := .maxStepsReached
        finalText := (outcome.steps.getLast?.map (·.assistantText)).getD outcome.finalText
        history
        stepsUsed := options.stepsAlreadyUsed + step }, s)
  | n + 1, step, outcome, history, s =>
    match ask env options history s with
    | (.error err, s) =>
      ({ outcome with
          stopReason := .providerFailed
          error := err.kind.toString ++ ": " ++ err.message
          errorKind := err.kind }, s)
    | (.ok response, s) =>
      let record : AgentStep := { assistantText := response.text, latency := response.latency }
      let outcome := { outcome with
        latency := outcome.latency + response.latency
        inputTokens := outcome.inputTokens + response.inputTokens
        outputTokens := outcome.outputTokens + response.outputTokens }
      let s := recordBudget env.context response s
      if response.toolCalls.isEmpty then
        ({ outcome with
            finalText := response.text
            steps := outcome.steps ++ [record]
            stopReason := .finalAnswer
            history := history ++ [{ role := .assistant, content := response.text }]
            stepsUsed := options.stepsAlreadyUsed + step + 1 }, s)
      else
        let message : ChatMessage :=
          { role := .assistant, content := response.text, toolCalls := response.toolCalls }
        let s := s.record (.emitted response.toolCalls)
        match runCalls env options queuedInRun response.toolCalls record (history ++ [message]) s with
        | .done record history s =>
          runLoopFrom env options n (step + 1)
            { outcome with steps := outcome.steps ++ [record] } history s
        | .suspended pending record history s =>
          ({ outcome with
              stopReason := .awaitingConfirmation
              pending
              history
              steps := outcome.steps ++ [record]
              stepsUsed := options.stepsAlreadyUsed + step + 1 }, s)

def runLoop (env : Env ω) (history : List ChatMessage) (options : AgentOptions) (s : AgentState ω) :
    AgentOutcome × AgentState ω :=
  let maxSteps := if options.maxSteps = 0 then 1 else options.maxSteps
  runLoopFrom env options maxSteps.toNat 0 {} history s

def runAgentTurn (env : Env ω) (messages : List ChatMessage) (options : AgentOptions)
    (s : AgentState ω) : AgentOutcome × AgentState ω :=
  let systemPrompt :=
    if options.systemPrompt.isEmpty then defaultAgentSystemPrompt else options.systemPrompt
  runLoop env ({ role := .system, content := systemPrompt } :: messages) options s

/-! ## Resuming -/

def PendingConfirmation.call (pending : PendingConfirmation) : ToolCall :=
  ⟨pending.callId, pending.toolName, pending.argumentsJson⟩

/-- The policy under which an approved call runs. -/
def approve (name : String) (policy : ConfirmationPolicy ω) : ConfirmationPolicy ω :=
  { policy with
    overrides := policy.overrides.insert name .auto
    confirmedOnce := insert name policy.confirmedOnce }

/-- The policy after an approved call: the override is taken back by erasing the entry. -/
def unoverride (name : String) (policy : ConfirmationPolicy ω) : ConfirmationPolicy ω :=
  { policy with overrides := policy.overrides.erase name }

/-- The call the user was asked about. -/
def settlePending (env : Env ω) (pending : PendingConfirmation) (approved : Bool)
    (history : List ChatMessage) (s : AgentState ω) :
    AgentToolCall × List ChatMessage × AgentState ω :=
  if approved then
    let inputs := parseArguments env.parseValueYaml pending.argumentsJson
    let s := s.record (.approved pending.toolName inputs)
    let s := { s with policy := approve pending.toolName s.policy }
    let (executed, history, s) := executeCall env pending.call history s
    (executed, history, { s with policy := unoverride pending.toolName s.policy })
  else
    let denied : AgentToolCall :=
      { name := pending.toolName
        argumentsJson := pending.argumentsJson
        resultSummary := "error [DENIED]: the user declined to run '" ++ pending.toolName ++ "'"
        ok := false
        refused := true }
    let answer : ChatMessage :=
      { role := .tool, content := denied.resultSummary, toolCallId := pending.callId }
    (denied, history ++ [answer], s.record (.settled pending.call answer.content))

/-- The options with which a resumed turn goes on. -/
def continued (options : AgentOptions) : AgentOptions :=
  { options with
    maxSteps :=
      if options.stepsAlreadyUsed < options.maxSteps then
        options.maxSteps - options.stepsAlreadyUsed
      else 1 }

def resumeAgentTurn (env : Env ω) (history : List ChatMessage) (pending : PendingConfirmation)
    (approved : Bool) (options : AgentOptions) (s : AgentState ω) : AgentOutcome × AgentState ω :=
  let (settled, history, s) := settlePending env pending approved history s
  let step : AgentStep := { toolCalls := [settled] }
  match runCalls env options (queuedInResume pending.queued) pending.queued step history s with
  | .suspended pending step history s =>
    ({ stopReason := .awaitingConfirmation
       pending
       history
       steps := [step]
       stepsUsed := options.stepsAlreadyUsed }, s)
  | .done step history s =>
    let (rest, s) := runLoop env history (continued options) s
    ({ rest with steps := step :: rest.steps }, s)

/-! ## What the loop keeps -/

/-- `P` survives everything the loop does to the state of a session. -/
structure Kept (env : Env ω) (P : AgentState ω → Prop) : Prop where
  world : ∀ s world, P s → P { s with world }
  asked : ∀ s history, P s → P (s.record (.asked history))
  emitted : ∀ s calls, P s → P (s.record (.emitted calls))
  call : ∀ call history s, P s → P (executeCall env call history s).2.2

namespace Kept

variable {env : Env ω} {P : AgentState ω → Prop} (kept : Kept env P) (options : AgentOptions)

include kept

theorem runCalls (queuedBehind : ToolCall → List ToolCall → List ToolCall) (calls : List ToolCall)
    (step : AgentStep) (history : List ChatMessage) {s : AgentState ω} (hs : P s) :
    P (Ai.runCalls env options queuedBehind calls step history s).state := by
  induction calls generalizing step history s with
  | nil => exact hs
  | cons call rest ih =>
    rw [Ai.runCalls]
    split
    · exact hs
    · exact ih _ _ (kept.call call history s hs)

theorem ask (history : List ChatMessage) {s : AgentState ω} (hs : P s) :
    P (Ai.ask env options history s).2 :=
  kept.world _ _ (kept.asked s history hs)

theorem recordBudget (response : ChatResponse) {s : AgentState ω} (hs : P s) :
    P (Ai.recordBudget env.context response s) := by
  unfold Ai.recordBudget
  split
  · exact hs
  · split
    · exact kept.world _ _ hs
    · exact hs

theorem runLoopFrom (n : ℕ) (step : UInt32) (outcome : AgentOutcome) (history : List ChatMessage)
    {s : AgentState ω} (hs : P s) : P (Ai.runLoopFrom env options n step outcome history s).2 := by
  induction n generalizing step outcome history s with
  | zero => exact hs
  | succ n ih =>
    rw [Ai.runLoopFrom]
    have hasked := kept.ask options history hs
    rcases hask : Ai.ask env options history s with ⟨err | response, s'⟩
    · simpa only [hask] using hasked
    rw [hask] at hasked
    have hbudget := kept.recordBudget response hasked
    dsimp only
    split_ifs with hempty
    · exact hbudget
    have hcalls := fun step history => kept.runCalls options queuedInRun response.toolCalls step
      history (kept.emitted _ response.toolCalls hbudget)
    split <;> rename_i heq <;> have hstate := heq ▸ hcalls _ _
    · exact ih _ _ _ hstate
    · exact hstate

theorem runLoop (history : List ChatMessage) {s : AgentState ω} (hs : P s) :
    P (Ai.runLoop env history options s).2 :=
  kept.runLoopFrom options _ _ _ _ hs

theorem runAgentTurn (messages : List ChatMessage) {s : AgentState ω} (hs : P s) :
    P (Ai.runAgentTurn env messages options s).2 :=
  kept.runLoop options _ hs

/-- What is left of a resumed turn once the pending call is settled. -/
theorem resumeAgentTurn (history : List ChatMessage) (pending : PendingConfirmation)
    (approved : Bool) {s : AgentState ω}
    (hs : P (settlePending env pending approved history s).2.2) :
    P (Ai.resumeAgentTurn env history pending approved options s).2 := by
  unfold Ai.resumeAgentTurn
  rcases hsettle : settlePending env pending approved history s with ⟨settled, history', s'⟩
  rw [hsettle] at hs
  have hcalls := kept.runCalls options (queuedInResume pending.queued) pending.queued
    { toolCalls := [settled] } history' hs
  dsimp only
  split <;> rename_i heq <;> rw [heq] at hcalls
  · exact hcalls
  · exact kept.runLoop (continued options) _ hcalls

end Kept

end Souxmar.Ai
