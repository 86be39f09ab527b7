import Mathlib.Data.Int.Notation
import Mathlib.Data.List.Basic

/-!
# The chat protocol

The messages, requests and responses of `provider.h`. A provider is any function of the request and
of the state of the world outside the loop.
-/

namespace Souxmar.Ai

structure ToolCall where
  id : String
  name : String
  argumentsJson : String
deriving DecidableEq, Repr

inductive Role
  | system
  | user
  | assistant
  | tool
deriving DecidableEq, Repr

structure ChatMessage where
  role : Role := .user
  content : String
  toolCallId : String := ""
  toolCalls : List ToolCall := []
deriving DecidableEq, Repr

/-- A response. `truncated` is left out: the loop does not read it. -/
structure ChatResponse where
  text : String := ""
  toolCalls : List ToolCall := []
  inputTokens : UInt64 := 0
  outputTokens : UInt64 := 0
  latency : ℤ := 0
deriving DecidableEq, Repr

inductive ProviderErrorKind
  | providerHttpError
  | rateLimited
  | localDaemonUnreachable
  | modelNotFound
  | httpClientFailed
  | malformedResponse
  | protocolMismatch
  | badRequest
  | contextLengthExceeded
deriving DecidableEq, Repr

def ProviderErrorKind.toString : ProviderErrorKind → String
  | providerHttpError => "provider-http-error"
  | rateLimited => "rate-limited"
  | localDaemonUnreachable => "local-daemon-unreachable"
  | modelNotFound => "model-not-found"
  | httpClientFailed => "http-client-failed"
  | malformedResponse => "malformed-response"
  | protocolMismatch => "protocol-mismatch"
  | badRequest => "bad-request"
  | contextLengthExceeded => "context-length-exceeded"

structure ProviderError where
  kind : ProviderErrorKind := .providerHttpError
  message : String
deriving DecidableEq, Repr

structure ToolDefinition where
  name : String
  description : String
deriving DecidableEq, Repr

/-- A request. The temperature is the bit pattern of a double. -/
structure ChatRequest where
  model : String
  messages : List ChatMessage
  tools : List ToolDefinition
  temperature : Option UInt64
  maxTokens : Option UInt32 := none
deriving DecidableEq, Repr

/-- `Provider::chat_completion`, in a world `ω`. -/
abbrev Provider (ω : Type) : Type := ChatRequest → ω → Except ProviderError ChatResponse × ω

end Souxmar.Ai
