import Mathlib.Data.Nat.Notation
import Souxmar.Ai.Provider
import Souxmar.Lib.Double

/-!
# Request bodies

The `render_request_body` functions of the three providers (`provider.cpp`), which put the JSON of a
request together by concatenation. The literals are cut where a value of the JSON begins or ends. The
tool definitions of the catalogue are their names and descriptions.
-/

namespace Souxmar.Ai

open Souxmar.Lib

def Role.toString : Role → String
  | system => "system"
  | user => "user"
  | assistant => "assistant"
  | tool => "tool"

/-! ## Encoding helpers -/

def hexDigit (n : ℕ) : Char := if n < 10 then Char.ofNat (48 + n) else Char.ofNat (87 + n)

def escapeChar (c : Char) : List Char :=
  if c = '"' then ['\\', '"']
  else if c = '\\' then ['\\', '\\']
  else if c = '\x08' then ['\\', 'b']
  else if c = '\x0c' then ['\\', 'f']
  else if c = '\n' then ['\\', 'n']
  else if c = '\r' then ['\\', 'r']
  else if c = '\t' then ['\\', 't']
  else if c.toNat < 0x20 then ['\\', 'u', '0', '0', hexDigit (c.toNat / 16), hexDigit (c.toNat % 16)]
  else [c]

/-- What `json_escape_append` appends. -/
def jsonEscape (s : String) : String := String.ofList ('"' :: (s.toList.flatMap escapeChar ++ ['"']))

/-- A loop that appends a comma before every item but the first. -/
def appendItems {α : Type} (render : α → String) : Bool → List α → String
  | _, [] => ""
  | first, item :: items =>
    (if first then "" else ",") ++ render item ++ appendItems render false items

/-- Half to even. -/
def roundDiv (n d : ℕ) : ℕ :=
  if 2 * (n % d) < d ∨ (2 * (n % d) = d ∧ n / d % 2 = 0) then n / d else n / d + 1

/-- `std::to_string` of the double with these bits: six digits behind the point. -/
def doubleToString (bits : UInt64) : String :=
  let magnitude :=
    if Double.exponent bits = 2 ^ 11 - 1 then if Double.fraction bits = 0 then "inf" else "nan"
    else
      let micros := roundDiv (Double.units bits * 10 ^ 6) (2 ^ 1074)
      toString (micros / 10 ^ 6) ++ "." ++
        String.ofList ((Nat.toDigits 10 (10 ^ 6 + micros % 10 ^ 6)).drop 1)
  (if Double.negative bits then "-" else "") ++ magnitude

/-- The schema of every tool: the catalogue documents its inputs in prose. -/
def emptySchemaText : String :=
  "\x7b\"type\":" ++ "\"object\"" ++ ",\"properties\":" ++ "\x7b\x7d" ++ "\x7d"

/-! ## Ollama -/

namespace OllamaProvider

def renderMessage (m : ChatMessage) : String :=
  "\x7b\"role\":" ++ jsonEscape m.role.toString ++ ",\"content\":" ++ jsonEscape m.content ++
    (if m.toolCallId.isEmpty then "" else ",\"tool_call_id\":" ++ jsonEscape m.toolCallId) ++ "\x7d"

def renderTool (t : ToolDefinition) : String :=
  "\x7b\"type\":" ++ "\"function\"" ++ ",\"function\":" ++ "\x7b\"name\":" ++ jsonEscape t.name ++
    ",\"description\":" ++ jsonEscape t.description ++ ",\"parameters\":" ++ emptySchemaText ++
    "\x7d" ++ "\x7d"

def renderOptions (req : ChatRequest) : String :=
  if req.temperature.isSome || req.maxTokens.isSome then
    ",\"options\":" ++ "\x7b" ++
      (match req.temperature with
        | some temperature => "\"temperature\":" ++ doubleToString temperature
        | none => "") ++
      (match req.maxTokens with
        | some maxTokens =>
          (if req.temperature.isSome then "," else "") ++ "\"num_predict\":" ++ toString maxTokens.toNat
        | none => "") ++ "\x7d"
  else ""

def renderRequestBody (req : ChatRequest) (toolDefinitions : List ToolDefinition) : String :=
  let tools := toolDefinitions ++ req.tools
  "\x7b" ++ "\"model\":" ++ jsonEscape req.model ++ ",\"stream\":" ++ "false" ++
    ",\"messages\":" ++ "[" ++ appendItems renderMessage true req.messages ++ "]" ++
    (if tools.isEmpty then "" else ",\"tools\":" ++ "[" ++ appendItems renderTool true tools ++ "]") ++
    renderOptions req ++ "\x7d"

end OllamaProvider

/-! ## OpenAI-compatible services -/

namespace OpenAICompatibleProvider

def renderToolCall (tc : ToolCall) : String :=
  "\x7b\"id\":" ++ jsonEscape tc.id ++ ",\"type\":" ++ "\"function\"" ++ ",\"function\":" ++
    "\x7b\"name\":" ++ jsonEscape tc.name ++ ",\"arguments\":" ++
    jsonEscape (if tc.argumentsJson.isEmpty then "\x7b\x7d" else tc.argumentsJson) ++ "\x7d" ++ "\x7d"

def renderMessage (m : ChatMessage) : String :=
  "\x7b\"role\":" ++ jsonEscape m.role.toString ++ ",\"content\":" ++ jsonEscape m.content ++
    (if m.role = .tool ∧ ¬m.toolCallId.isEmpty then
      ",\"tool_call_id\":" ++ jsonEscape m.toolCallId else "") ++
    (if m.role = .assistant ∧ ¬m.toolCalls.isEmpty then
      ",\"tool_calls\":" ++ "[" ++ appendItems renderToolCall true m.toolCalls ++ "]" else "") ++ "\x7d"

def renderTool (t : ToolDefinition) : String :=
  "\x7b\"type\":" ++ "\"function\"" ++ ",\"function\":" ++ "\x7b\"name\":" ++ jsonEscape t.name ++
    ",\"description\":" ++ jsonEscape t.description ++ ",\"parameters\":" ++ emptySchemaText ++
    "\x7d" ++ "\x7d"

def renderRequestBody (req : ChatRequest) (toolDefinitions : List ToolDefinition) : String :=
  let tools := toolDefinitions ++ req.tools
  "\x7b\"model\":" ++ jsonEscape req.model ++ ",\"stream\":" ++ "false" ++
    ",\"messages\":" ++ "[" ++ appendItems renderMessage true req.messages ++ "]" ++
    (if tools.isEmpty then "" else ",\"tools\":" ++ "[" ++ appendItems renderTool true tools ++ "]") ++
    (match req.temperature with
      | some temperature => ",\"temperature\":" ++ doubleToString temperature
      | none => "") ++
    (match req.maxTokens with
      | some maxTokens => ",\"max_tokens\":" ++ toString maxTokens.toNat
      | none => "") ++ "\x7d"

end OpenAICompatibleProvider

/-! ## Anthropic -/

namespace AnthropicProvider

/-- `append_text_block`. -/
def textBlock (text : String) : String :=
  "\x7b\"type\":" ++ "\"text\"" ++ ",\"text\":" ++ jsonEscape text ++ "\x7d"

/-- The arguments that go into the body as they are: the first character that is not blank opens an
object or an array. -/
def inlined (arguments : String) : Bool :=
  match arguments.toList.dropWhile fun c => c = ' ' || c = '\t' || c = '\r' || c = '\n' with
  | c :: _ => c = '{' || c = '['
  | [] => false

/-- `append_tool_use_block`. -/
def toolUseBlock (tc : ToolCall) : String :=
  "\x7b\"type\":" ++ "\"tool_use\"" ++ ",\"id\":" ++ jsonEscape tc.id ++ ",\"name\":" ++
    jsonEscape tc.name ++ ",\"input\":" ++ (if inlined tc.argumentsJson then tc.argumentsJson else "\x7b\x7d") ++ "\x7d"

def toolResultBlock (m : ChatMessage) : String :=
  "\x7b\"type\":" ++ "\"tool_result\"" ++ ",\"tool_use_id\":" ++ jsonEscape m.toolCallId ++
    ",\"content\":" ++ jsonEscape m.content ++ "\x7d"

/-- The system turns, joined in order. -/
def systemText (messages : List ChatMessage) : String :=
  messages.foldl (fun text m =>
    if m.role ≠ .system ∨ m.content.isEmpty then text
    else (if text.isEmpty then text else text ++ "\n\n") ++ m.content) ""

/-- The blocks of a turn that is no tool result: its text, its calls, and at least one block. -/
def turnBlocks (m : ChatMessage) : String :=
  (if m.content.isEmpty then "" else textBlock m.content) ++
    (if m.role = .assistant then appendItems toolUseBlock m.content.isEmpty m.toolCalls else "") ++
    (if m.content.isEmpty ∧ ¬(m.role = .assistant ∧ m.toolCalls ≠ []) then textBlock " " else "")

def isTool (m : ChatMessage) : Bool := m.role = .tool

/-- The loop over the messages; `first` says that none has been written. -/
def renderMessages (first : Bool) : List ChatMessage → String
  | [] => ""
  | m :: messages =>
    if m.role = .system then renderMessages first messages
    else if m.role = .tool then
      -- consecutive results become one user turn
      (if first then "" else ",") ++ "\x7b\"role\":" ++ "\"user\"" ++ ",\"content\":" ++ "[" ++
        appendItems toolResultBlock true (m :: messages.takeWhile isTool) ++ "]" ++ "\x7d" ++
        renderMessages false (messages.dropWhile isTool)
    else if m.role = .assistant ∧ m.content.isEmpty ∧ m.toolCalls = [] then
      renderMessages first messages
    else
      (if first then "" else ",") ++ "\x7b\"role\":" ++
        jsonEscape (if m.role = .assistant then "assistant" else "user") ++ ",\"content\":" ++ "[" ++
        turnBlocks m ++ "]" ++ "\x7d" ++ renderMessages false messages
termination_by messages => messages.length
decreasing_by
  · simp
  · exact Nat.lt_succ_of_le (List.dropWhile_sublist _).length_le
  · simp
  · simp

def renderTool (t : ToolDefinition) : String :=
  "\x7b\"name\":" ++ jsonEscape t.name ++ ",\"description\":" ++ jsonEscape t.description ++
    ",\"input_schema\":" ++ emptySchemaText ++ "\x7d"

def renderRequestBody (req : ChatRequest) (toolDefinitions : List ToolDefinition)
    (defaultMaxTokens : UInt32) : String :=
  let tools := toolDefinitions ++ req.tools
  "\x7b\"model\":" ++ jsonEscape req.model ++
    ",\"max_tokens\":" ++ toString (req.maxTokens.getD defaultMaxTokens).toNat ++
    (if (systemText req.messages).isEmpty then ""
      else ",\"system\":" ++ jsonEscape (systemText req.messages)) ++
    ",\"messages\":" ++ "[" ++ renderMessages true req.messages ++ "]" ++
    (if tools.isEmpty then "" else ",\"tools\":" ++ "[" ++ appendItems renderTool true tools ++ "]") ++
    (match req.temperature with
      | some temperature => ",\"temperature\":" ++ doubleToString temperature
      | none => "") ++ "\x7d"

end AnthropicProvider

end Souxmar.Ai
