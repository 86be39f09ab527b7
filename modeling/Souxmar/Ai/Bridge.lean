import Souxmar.Ai.Pairing

/-!
# The chat surface of the C bridge

`souxmar_bridge_chat_send` and `souxmar_bridge_chat_confirm` (`c-bridge/provider.cpp`): a turn for a project,
and the answer to the call it waits for. A session lives from the start of a turn to its end, one for each
project. The regular expressions that read the request and the configuration of a project are parameters.
-/

namespace Souxmar.Ai

open Souxmar.Lib Souxmar.Pipeline

variable (ω : Type)

/-- What the configuration of a project comes to, with the provider that `provider_for` makes of it. -/
structure ResolvedProvider where
  bridgeKind : UInt32 := 1
  model : String := ""
  configError : String := ""
  provider : Except String (Provider ω)

/-- The session of a project. The log is that of its turn. -/
structure AgentSession where
  policy : ConfirmationPolicy ω := {}
  history : List ChatMessage := []
  pending : PendingConfirmation := {}
  stepsUsed : UInt32 := 0
  suspended : Bool := false
  log : List Event := []

/-- What the bridge is given: `tools` is the catalogue of every session, and `openSession` loads the
plugins of a new one. -/
structure BridgeEnv where
  tools : ToolRegistry ω
  parseValueYaml : String → Option Value
  resolveProvider : String → ω → ResolvedProvider ω
  extractStringField : String → String → String
  extractMessages : String → List ChatMessage
  openSession : ω → ω

/-- The sessions, and the log of the turn that the last call was part of. -/
structure Bridge where
  world : ω
  sessions : Dict String (AgentSession ω) := ∅
  turn : List Event := []

variable {ω}

inductive BridgeErrorKind
  | ok
  | httpError
  | timeout
  | invalidResponse
  | unauthorized
  | rateLimited
  | quotaExhausted
  | notConfigured
  | internal
  | awaitingConfirmation
deriving DecidableEq, Repr

def bridgeErrorKindFor : ProviderErrorKind → BridgeErrorKind
  | .providerHttpError => .httpError
  | .rateLimited => .rateLimited
  | .localDaemonUnreachable => .notConfigured
  | .modelNotFound => .notConfigured
  | .httpClientFailed => .internal
  | .malformedResponse => .invalidResponse
  | .protocolMismatch => .invalidResponse
  | .badRequest => .invalidResponse
  | .contextLengthExceeded => .invalidResponse

/-- The response handle. -/
structure BridgeResponse where
  errorKind : BridgeErrorKind := .ok
  errorText : String := ""
  replyText : String := ""
  provider : UInt32 := 0
  tokensIn : UInt64 := 0
  tokensOut : UInt64 := 0
  toolCalls : List AgentToolCall := []
  pendingTool : String := ""
  pendingArguments : String := ""
deriving DecidableEq, Repr

def fillResponse (out : BridgeResponse) (outcome : AgentOutcome) : BridgeResponse :=
  let out := { out with
    toolCalls := out.toolCalls ++ outcome.steps.flatMap AgentStep.toolCalls
    tokensIn := outcome.inputTokens
    tokensOut := outcome.outputTokens }
  match outcome.stopReason with
  | .finalAnswer => { out with errorKind := .ok, replyText := outcome.finalText }
  | .awaitingConfirmation =>
    { out with
      errorKind := .awaitingConfirmation
      pendingTool := outcome.pending.toolName
      pendingArguments := outcome.pending.argumentsJson
      replyText := outcome.finalText }
  | .maxStepsReached =>
    { out with
      errorKind := .ok
      replyText := outcome.finalText ++ (if outcome.finalText.isEmpty then "" else "\n\n") ++
        "(stopped after the step limit with work still in progress — " ++
        "this answer is incomplete.)" }
  | .providerFailed | .aborted =>
    { out with errorKind := bridgeErrorKindFor outcome.errorKind, errorText := outcome.error }

/-- The loop's view of a session. -/
def BridgeEnv.agentEnv (env : BridgeEnv ω) (provider : Provider ω) : Env ω where
  provider := provider
  registry := env.tools
  parseValueYaml := env.parseValueYaml

/-- The options of both calls. -/
def chatOptions (model : String) (stepsAlreadyUsed : UInt32) : AgentOptions where
  model := model
  maxSteps := 8
  suspendOnConfirmation := true
  stepsAlreadyUsed := stepsAlreadyUsed

/-- A suspended turn is kept, any other is over. -/
def closeTurn (projectId : String) (outcome : AgentOutcome) (agent : AgentState ω) (b : Bridge ω) :
    Bridge ω where
  world := agent.world
  sessions :=
    if outcome.stopReason = .awaitingConfirmation then
      b.sessions.insert projectId
        { policy := agent.policy
          history := outcome.history
          pending := outcome.pending
          stepsUsed := outcome.stepsUsed
          suspended := true
          log := agent.log }
    else b.sessions.erase projectId
  turn := agent.log

/-- The call itself fails on a null request. -/
def chatSend (env : BridgeEnv ω) (requestJson : Option String) (projectId : String) (b : Bridge ω) :
    Except String BridgeResponse × Bridge ω :=
  let b := { b with turn := [] }
  match requestJson with
  | none => (.error "request_json is NULL", b)
  | some json =>
    let resolved := env.resolveProvider projectId b.world
    let model := env.extractStringField json "model"
    let messages := env.extractMessages json
    let model :=
      if resolved.model.isEmpty then if model.isEmpty then "stub-model" else model else resolved.model
    let out : BridgeResponse := { provider := resolved.bridgeKind }
    if !resolved.configError.isEmpty then
      (.ok { out with errorKind := .notConfigured, errorText := resolved.configError }, b)
    else
      match resolved.provider with
      | .error providerError =>
        (.ok { out with errorKind := .notConfigured, errorText := providerError }, b)
      | .ok provider =>
        let (outcome, agent) := runAgentTurn (env.agentEnv provider) messages (chatOptions model 0)
          { world := env.openSession b.world, policy := {} }
        (.ok (fillResponse out outcome), closeTurn projectId outcome agent b)

def chatConfirm (env : BridgeEnv ω) (projectId : String) (allow : Bool) (b : Bridge ω) :
    Except String BridgeResponse × Bridge ω :=
  match b.sessions.lookup projectId with
  | none => (.error "no suspended agent turn for this project", { b with turn := [] })
  | some session =>
    if !session.suspended then
      (.error "no suspended agent turn for this project", { b with turn := session.log })
    else
      let resolved := env.resolveProvider projectId b.world
      let out : BridgeResponse := { provider := resolved.bridgeKind }
      match resolved.provider with
      | .error providerError =>
        (.ok { out with errorKind := .notConfigured, errorText := providerError },
          { b with sessions := b.sessions.erase projectId, turn := session.log })
      | .ok provider =>
        let model := if resolved.model.isEmpty then "stub-model" else resolved.model
        let (outcome, agent) := resumeAgentTurn (env.agentEnv provider) session.history session.pending
          allow (chatOptions model session.stepsUsed) ⟨b.world, session.policy, session.log⟩
        (.ok (fillResponse out outcome), closeTurn projectId outcome agent b)

/-- A call into the bridge, in a world that may have changed since the last one. -/
inductive BridgeCall (ω : Type)
  | send (requestJson : Option String) (projectId : String)
  | confirm (projectId : String) (allow : Bool)
  | elapse (world : ω)

def bridgeStep (env : BridgeEnv ω) (b : Bridge ω) : BridgeCall ω → Bridge ω
  | .send requestJson projectId => (chatSend env requestJson projectId b).2
  | .confirm projectId allow => (chatConfirm env projectId allow b).2
  | .elapse world => { b with world }

end Souxmar.Ai
