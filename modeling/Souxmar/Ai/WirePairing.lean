import Mathlib.Data.List.TakeWhile
import Souxmar.Ai.RequestBodies

/-!
# Tool calls on the wire

What a service reads out of a request body: the turns of the conversation, with the ids and names of the
calls of each assistant turn and the id that each result names. A format keeps the pairing when the turns
it carries are those of the history (`Keeps`).
-/

namespace Souxmar.Ai

open Souxmar.Lib

inductive Turn
  | system (text : String)
  | user (text : String)
  | assistant (text : String) (calls : List (String × String))
  | result (id content : String)
deriving DecidableEq, Repr

def Turn.spoken : Turn → Bool
  | system _ => false
  | _ => true

/-- Each result names a call of the assistant turn before it; `calls` are the calls of the latest one. -/
def TurnsPaired : List (String × String) → List Turn → Prop
  | _, [] => True
  | calls, .result id _ :: turns => id ∈ calls.map Prod.fst ∧ TurnsPaired calls turns
  | _, .assistant _ calls :: turns => TurnsPaired calls turns
  | calls, .system _ :: turns => TurnsPaired calls turns
  | calls, .user _ :: turns => TurnsPaired calls turns

def ChatMessage.turn (m : ChatMessage) : Turn :=
  match m.role with
  | .system => .system m.content
  | .user => .user m.content
  | .assistant => .assistant m.content (m.toolCalls.map fun tc => (tc.id, tc.name))
  | .tool => .result m.toolCallId m.content

/-- Each result of the history answers a call of the assistant message before it. -/
def Answered (messages : List ChatMessage) : Prop := TurnsPaired [] (messages.map ChatMessage.turn)

/-- The turns carry the history: what is expected of it, in order, and paired. -/
structure Keeps (expected : List Turn) (turns : List Turn) : Prop where
  carried : turns.filter Turn.spoken = expected
  paired : TurnsPaired [] turns

/-! ## Reading a body -/

def field (key : String) : Json → Option Json
  | .obj members => members.lookup key
  | _ => none

def stringField (key : String) (v : Json) : Option String :=
  match field key v with
  | some (.str s) => some s
  | _ => none

def itemsField (key : String) (v : Json) : List Json :=
  match field key v with
  | some (.arr items) => items
  | _ => []

/-- The turns of all messages. -/
def readAll (read : Json → Option (List Turn)) : List Json → Option (List Turn)
  | [] => some []
  | v :: vs => (read v).bind fun turns => (readAll read vs).map (turns ++ ·)

def readTurns (read : Json → Option (List Turn)) (body : String) : Option (List Turn) :=
  (Json.parse body.toList).bind fun document => readAll read (itemsField "messages" document)

/-- A call in the layout of OpenAI. -/
def readCall (v : Json) : String × String :=
  ((stringField "id" v).getD "", ((field "function" v).bind (stringField "name")).getD "")

/-- A message in the layout of Ollama and OpenAI. -/
def readMessage (v : Json) : Option (List Turn) :=
  (stringField "role" v).bind fun role => (stringField "content" v).bind fun content =>
    if role = "system" then some [.system content]
    else if role = "user" then some [.user content]
    else if role = "assistant" then
      some [.assistant content ((itemsField "tool_calls" v).map readCall)]
    else (stringField "tool_call_id" v).map fun id => [.result id content]

/-- A block of a user message in the layout of Anthropic. -/
def readBlock (v : Json) : Option Turn :=
  if stringField "type" v = some "tool_result" then
    (stringField "tool_use_id" v).bind fun id => (stringField "content" v).map (.result id)
  else (stringField "text" v).map .user

def readBlocks : List Json → Option (List Turn)
  | [] => some []
  | v :: vs => (readBlock v).bind fun turn => (readBlocks vs).map (turn :: ·)

def isToolUse (v : Json) : Bool := stringField "type" v = some "tool_use"

def readToolUse (v : Json) : String × String :=
  ((stringField "id" v).getD "", (stringField "name" v).getD "")

/-- A message in the layout of Anthropic. -/
def readAnthropicMessage (v : Json) : Option (List Turn) :=
  let blocks := itemsField "content" v
  if stringField "role" v = some "assistant" then
    some [.assistant (String.join ((blocks.filter (!isToolUse ·)).filterMap (stringField "text")))
      ((blocks.filter isToolUse).map readToolUse)]
  else readBlocks blocks

/-! ## Expectations -/

/-- The messages that are not system messages. -/
def spokenTurns (messages : List ChatMessage) : List Turn :=
  (messages.map ChatMessage.turn).filter Turn.spoken

/-- An assistant message without text and calls. -/
def ChatMessage.silent (m : ChatMessage) : Bool :=
  m.role = .assistant && m.content.isEmpty && m.toolCalls.isEmpty

/-- A user turn is never empty in the layout of Anthropic. -/
def ChatMessage.anthropicTurn (m : ChatMessage) : Turn :=
  if m.role = .user ∧ m.content.isEmpty then .user " " else m.turn

def anthropicTurns (messages : List ChatMessage) : List Turn :=
  ((messages.filter (!·.silent)).map ChatMessage.anthropicTurn).filter Turn.spoken

def OllamaKeeps (req : ChatRequest) (toolDefinitions : List ToolDefinition) : Prop :=
  ∃ turns, readTurns readMessage (OllamaProvider.renderRequestBody req toolDefinitions) = some turns ∧
    Keeps (spokenTurns req.messages) turns

def OpenAiKeeps (req : ChatRequest) (toolDefinitions : List ToolDefinition) : Prop :=
  ∃ turns,
    readTurns readMessage (OpenAICompatibleProvider.renderRequestBody req toolDefinitions) = some turns ∧
      Keeps (spokenTurns req.messages) turns

def AnthropicKeeps (req : ChatRequest) (toolDefinitions : List ToolDefinition)
    (defaultMaxTokens : UInt32) : Prop :=
  ∃ turns, readTurns readAnthropicMessage
      (AnthropicProvider.renderRequestBody req toolDefinitions defaultMaxTokens) = some turns ∧
    Keeps (anthropicTurns req.messages) turns

/-! ## Ollama and OpenAI -/

theorem readAll_map {value : ChatMessage → Json} {turn : ChatMessage → Turn}
    {read : Json → Option (List Turn)} {messages : List ChatMessage}
    (h : ∀ m ∈ messages, read (value m) = some [turn m]) :
    readAll read (messages.map value) = some (messages.map turn) := by
  induction messages with
  | nil => rfl
  | cons m messages ih =>
    have htail := ih fun m' hm' => h m' (List.mem_cons_of_mem _ hm')
    rw [List.map_cons, readAll, h m List.mem_cons_self, Option.bind_some, htail]
    rfl

theorem readAll_isSome {read : Json → Option (List Turn)} {vs : List Json} {turns : List Turn}
    (h : readAll read vs = some turns) : ∀ v ∈ vs, (read v).isSome = true := by
  induction vs generalizing turns with
  | nil => intro v hv; exact nomatch hv
  | cons v vs ih =>
    obtain ⟨head, hhead, hmap⟩ := Option.bind_eq_some_iff.mp h
    obtain ⟨tail, htail, -⟩ := Option.map_eq_some_iff.mp hmap
    intro v' hv'
    rcases List.mem_cons.mp hv' with rfl | hv'
    · rw [hhead]
      rfl
    · exact ih htail v' hv'

theorem readCall_toolCallValue (tc : ToolCall) :
    readCall (OpenAICompatibleProvider.toolCallValue tc) = (tc.id, tc.name) := by
  simp [readCall, OpenAICompatibleProvider.toolCallValue, stringField, field, List.lookup_cons]

theorem readMessage_openAi (m : ChatMessage) :
    readMessage (OpenAICompatibleProvider.messageValue m) =
      if m.role = .tool ∧ m.toolCallId.isEmpty then none else some [m.turn] := by
  obtain ⟨role, content, id, calls⟩ := m
  cases role <;> by_cases hid : id.isEmpty = true <;> by_cases hcalls : calls.isEmpty = true <;>
    simp_all [readMessage, OpenAICompatibleProvider.messageValue, stringField, itemsField, field,
      Role.toString, ChatMessage.turn, List.lookup_cons, readCall_toolCallValue, Function.comp_def]

theorem readMessage_ollama (m : ChatMessage) :
    readMessage (OllamaProvider.messageValue m) =
      if m.role = .tool ∧ m.toolCallId.isEmpty then none else some [{ m with toolCalls := [] }.turn] := by
  obtain ⟨role, content, id, calls⟩ := m
  cases role <;> by_cases hid : id.isEmpty = true <;>
    simp_all [readMessage, OllamaProvider.messageValue, stringField, itemsField, field,
      Role.toString, ChatMessage.turn, List.lookup_cons]

/-- Every result says which call it answers. -/
def NamedResults (messages : List ChatMessage) : Prop :=
  ∀ m ∈ messages, m.role = .tool → m.toolCallId ≠ ""

instance (messages : List ChatMessage) : Decidable (NamedResults messages) :=
  inferInstanceAs (Decidable (∀ m ∈ _, _ → _))

/-- No assistant message has called a tool. -/
def NoCalls (messages : List ChatMessage) : Prop :=
  ∀ m ∈ messages, m.role = .assistant → m.toolCalls = []

section

variable {req : ChatRequest} {toolDefinitions : List ToolDefinition}

theorem readTurns_openAi (hfinite : FiniteTemperature req) :
    readTurns readMessage (OpenAICompatibleProvider.renderRequestBody req toolDefinitions) =
      readAll readMessage (req.messages.map OpenAICompatibleProvider.messageValue) := by
  rw [readTurns, (OpenAICompatibleProvider.spelled_body hfinite toolDefinitions).parse]
  rfl

theorem readTurns_ollama (hfinite : FiniteTemperature req) :
    readTurns readMessage (OllamaProvider.renderRequestBody req toolDefinitions) =
      readAll readMessage (req.messages.map OllamaProvider.messageValue) := by
  rw [readTurns, (OllamaProvider.spelled_body hfinite toolDefinitions).parse]
  rfl

theorem named_of_readAll {value : ChatMessage → Json} {turns : List Turn} {messages : List ChatMessage}
    {turn : ChatMessage → Turn}
    (hread : ∀ m, readMessage (value m) =
      if m.role = .tool ∧ m.toolCallId.isEmpty then none else some [turn m])
    (h : readAll readMessage (messages.map value) = some turns) : NamedResults messages := by
  intro m hm htool hempty
  have hsome := readAll_isSome h (value m) (List.mem_map_of_mem hm)
  rw [hread m, if_pos ⟨htool, by simp [hempty]⟩] at hsome
  exact nomatch hsome

theorem readAll_of_named {value : ChatMessage → Json} {messages : List ChatMessage}
    {turn : ChatMessage → Turn}
    (hread : ∀ m, readMessage (value m) =
      if m.role = .tool ∧ m.toolCallId.isEmpty then none else some [turn m])
    (h : NamedResults messages) : readAll readMessage (messages.map value) = some (messages.map turn) := by
  refine readAll_map fun m hm => ?_
  have hnamed : ¬(m.role = .tool ∧ m.toolCallId.isEmpty = true) := by
    rintro ⟨htool, hempty⟩
    exact h m hm htool (String.isEmpty_iff.mp hempty)
  rw [hread m, if_neg hnamed]

theorem openAi_keeps_iff (hanswered : Answered req.messages) :
    OpenAiKeeps req toolDefinitions ↔ FiniteTemperature req ∧ NamedResults req.messages := by
  constructor
  · rintro ⟨turns, hread, -⟩
    have hfinite : FiniteTemperature req := by
      by_contra hinfinite
      rw [readTurns, OpenAICompatibleProvider.not_parse hinfinite] at hread
      exact nomatch hread
    rw [readTurns_openAi hfinite] at hread
    exact ⟨hfinite, named_of_readAll readMessage_openAi hread⟩
  · rintro ⟨hfinite, hnamed⟩
    refine ⟨req.messages.map ChatMessage.turn, ?_, rfl, hanswered⟩
    rw [readTurns_openAi hfinite]
    exact readAll_of_named readMessage_openAi hnamed

theorem named_of_noCalls {messages : List ChatMessage} (hcalls : NoCalls messages)
    (hanswered : Answered messages) : NamedResults messages := by
  have hnone : ∀ m ∈ messages, m.role ≠ .tool := by
    unfold Answered at hanswered
    induction messages with
    | nil => intro m hm; exact nomatch hm
    | cons m messages ih =>
      have htail : NoCalls messages := fun m' hm' => hcalls m' (List.mem_cons_of_mem _ hm')
      rw [List.map_cons] at hanswered
      have hrest : m.role ≠ .tool ∧ TurnsPaired [] (messages.map ChatMessage.turn) := by
        unfold ChatMessage.turn at hanswered
        cases hrole : m.role with
        | system => simp only [hrole, TurnsPaired] at hanswered; exact ⟨by simp, hanswered⟩
        | user => simp only [hrole, TurnsPaired] at hanswered; exact ⟨by simp, hanswered⟩
        | assistant =>
          have hnil := hcalls m List.mem_cons_self hrole
          simp only [hrole, hnil, TurnsPaired, List.map_nil] at hanswered
          exact ⟨by simp, hanswered⟩
        | tool =>
          simp only [hrole, TurnsPaired] at hanswered
          exact nomatch hanswered.1
      intro m' hm'
      rcases List.mem_cons.mp hm' with rfl | hm'
      · exact hrest.1
      · exact ih htail hrest.2 m' hm'
  exact fun m hm htool => absurd htool (hnone m hm)

theorem noCalls_of_carried {messages : List ChatMessage}
    (h : (messages.map fun m => ChatMessage.turn { m with toolCalls := [] }).filter Turn.spoken =
      spokenTurns messages) : NoCalls messages := by
  unfold spokenTurns at h
  induction messages with
  | nil => intro m hm; exact nomatch hm
  | cons m messages ih =>
    rw [List.map_cons, List.map_cons, List.filter_cons, List.filter_cons] at h
    have hsplit : (m.role = .assistant → m.toolCalls = []) ∧ NoCalls messages := by
      unfold ChatMessage.turn at h
      cases hrole : m.role with
      | system =>
        simp only [hrole] at h
        exact ⟨fun hassistant => (nomatch hassistant), ih h⟩
      | user =>
        simp only [hrole] at h
        exact ⟨fun hassistant => (nomatch hassistant), ih (List.cons.inj h).2⟩
      | assistant =>
        simp only [hrole] at h
        obtain ⟨hturn, htail⟩ := List.cons.inj h
        have hnil : m.toolCalls = [] := by simpa using hturn.symm
        exact ⟨fun _ => hnil, ih htail⟩
      | tool =>
        simp only [hrole] at h
        exact ⟨fun hassistant => (nomatch hassistant), ih (List.cons.inj h).2⟩
    intro m' hm'
    rcases List.mem_cons.mp hm' with rfl | hm'
    · exact hsplit.1
    · exact hsplit.2 m' hm'

theorem ollama_keeps_iff (hanswered : Answered req.messages) :
    OllamaKeeps req toolDefinitions ↔ FiniteTemperature req ∧ NoCalls req.messages := by
  constructor
  · rintro ⟨turns, hread, hcarried, -⟩
    have hfinite : FiniteTemperature req := by
      by_contra hinfinite
      rw [readTurns, OllamaProvider.not_parse hinfinite] at hread
      exact nomatch hread
    rw [readTurns_ollama hfinite] at hread
    have hnamed := named_of_readAll readMessage_ollama hread
    rw [readAll_of_named readMessage_ollama hnamed] at hread
    obtain rfl := Option.some.inj hread
    exact ⟨hfinite, noCalls_of_carried hcarried⟩
  · rintro ⟨hfinite, hcalls⟩
    have hturns : req.messages.map (fun m => ChatMessage.turn { m with toolCalls := [] }) =
        req.messages.map ChatMessage.turn := by
      refine List.map_congr_left fun m hm => ?_
      unfold ChatMessage.turn
      cases hrole : m.role with
      | assistant => rw [hcalls m hm hrole]
      | _ => rfl
    refine ⟨req.messages.map ChatMessage.turn, ?_, rfl, hanswered⟩
    rw [readTurns_ollama hfinite,
      readAll_of_named readMessage_ollama (named_of_noCalls hcalls hanswered), hturns]

end

/-! ## Anthropic -/

section

variable {input : ToolCall → Json}

theorem anthropicTurns_append (messages more : List ChatMessage) :
    anthropicTurns (messages ++ more) = anthropicTurns messages ++ anthropicTurns more := by
  simp [anthropicTurns]

theorem anthropicTurns_tools {messages : List ChatMessage} (h : ∀ m ∈ messages, m.role = .tool) :
    anthropicTurns messages = messages.map ChatMessage.turn := by
  induction messages with
  | nil => rfl
  | cons m messages ih =>
    have hm := h m List.mem_cons_self
    have htail := ih fun m' hm' => h m' (List.mem_cons_of_mem _ hm')
    unfold anthropicTurns at htail ⊢
    have hsilent : m.silent = false := by simp [ChatMessage.silent, hm]
    have hturn : m.anthropicTurn = m.turn := by simp [ChatMessage.anthropicTurn, hm]
    have hspoken : m.turn.spoken = true := by simp [ChatMessage.turn, hm, Turn.spoken]
    rw [List.filter_cons_of_pos (by simp [hsilent]), List.map_cons, hturn,
      List.filter_cons_of_pos hspoken, htail, List.map_cons]

theorem readBlocks_results {messages : List ChatMessage} (h : ∀ m ∈ messages, m.role = .tool) :
    readBlocks (messages.map AnthropicProvider.toolResultValue) =
      some (messages.map ChatMessage.turn) := by
  induction messages with
  | nil => rfl
  | cons m messages ih =>
    have hblock : readBlock (AnthropicProvider.toolResultValue m) = some m.turn := by
      simp [readBlock, AnthropicProvider.toolResultValue, stringField, field, List.lookup_cons,
        ChatMessage.turn, h m List.mem_cons_self]
    rw [List.map_cons, readBlocks, hblock, Option.bind_some,
      ih fun m' hm' => h m' (List.mem_cons_of_mem _ hm')]
    rfl

@[simp]
theorem isToolUse_toolUseValue (tc : ToolCall) :
    isToolUse (AnthropicProvider.toolUseValue input tc) = true := by
  simp [isToolUse, AnthropicProvider.toolUseValue, stringField, field]

@[simp]
theorem isToolUse_textValue (text : String) :
    isToolUse (AnthropicProvider.textValue text) = false := by
  simp [isToolUse, AnthropicProvider.textValue, stringField, field]

@[simp]
theorem readToolUse_toolUseValue (tc : ToolCall) :
    readToolUse (AnthropicProvider.toolUseValue input tc) = (tc.id, tc.name) := by
  simp [readToolUse, AnthropicProvider.toolUseValue, stringField, field, List.lookup_cons]

@[simp]
theorem stringField_textValue (text : String) :
    stringField "text" (AnthropicProvider.textValue text) = some text := by
  simp [AnthropicProvider.textValue, stringField, field, List.lookup_cons]

theorem filter_calls (input : ToolCall → Json) (calls : List ToolCall) :
    (calls.map (AnthropicProvider.toolUseValue input)).filter isToolUse =
      calls.map (AnthropicProvider.toolUseValue input) ∧
    (calls.map (AnthropicProvider.toolUseValue input)).filter (!isToolUse ·) = [] := by
  constructor
  · refine List.filter_eq_self.mpr fun v hv => ?_
    obtain ⟨tc, -, rfl⟩ := List.mem_map.mp hv
    exact isToolUse_toolUseValue tc
  · refine List.filter_eq_nil_iff.mpr fun v hv => ?_
    obtain ⟨tc, -, rfl⟩ := List.mem_map.mp hv
    simp

theorem readAnthropicMessage_assistant {m : ChatMessage} (hassistant : m.role = .assistant)
    (hsilent : m.silent = false) :
    readAnthropicMessage (.obj [("role", .str "assistant"),
      ("content", .arr (AnthropicProvider.turnValues input m))]) = some [m.turn] := by
  have hrole : stringField "role" (.obj [("role", .str "assistant"),
      ("content", .arr (AnthropicProvider.turnValues input m))]) = some "assistant" := rfl
  have hblocks : itemsField "content" (.obj [("role", .str "assistant"),
      ("content", .arr (AnthropicProvider.turnValues input m))]) =
      AnthropicProvider.turnValues input m := by
    simp [itemsField, field, List.lookup_cons]
  obtain ⟨hcalls, hnone⟩ := filter_calls input m.toolCalls
  have hread : ((AnthropicProvider.turnValues input m).filter isToolUse).map readToolUse =
        m.toolCalls.map (fun tc => (tc.id, tc.name)) ∧
      String.join (((AnthropicProvider.turnValues input m).filter (!isToolUse ·)).filterMap
        (stringField "text")) = m.content := by
    unfold AnthropicProvider.turnValues
    by_cases hcontent : m.content.isEmpty = true
    · have hcalled : m.toolCalls ≠ [] := by
        intro hnil
        simp [ChatMessage.silent, hassistant, hcontent, hnil] at hsilent
      have hempty : m.content = "" := String.isEmpty_iff.mp hcontent
      simp [hassistant, hcalled, hcalls, hnone, hempty, Function.comp_def]
    · simp [hassistant, hcontent, hcalls, hnone, Function.comp_def]
  rw [readAnthropicMessage, hrole, hblocks]
  rw [if_pos rfl, hread.1, hread.2, ChatMessage.turn, hassistant]

theorem readAnthropicMessage_user {m : ChatMessage} (huser : m.role = .user) :
    readAnthropicMessage (.obj [("role", .str "user"),
      ("content", .arr (AnthropicProvider.turnValues input m))]) = some [m.anthropicTurn] := by
  have htext : ∀ text : String, readBlock (AnthropicProvider.textValue text) = some (.user text) := by
    intro text
    simp [readBlock, AnthropicProvider.textValue, stringField, field, List.lookup_cons]
  unfold readAnthropicMessage AnthropicProvider.turnValues
  by_cases hcontent : m.content.isEmpty = true
  · simp [stringField, itemsField, field, List.lookup_cons, huser, hcontent, readBlocks, htext,
      ChatMessage.anthropicTurn]
  · simp [stringField, itemsField, field, List.lookup_cons, huser, hcontent, readBlocks, htext,
      ChatMessage.anthropicTurn, ChatMessage.turn]

theorem anthropicTurns_cons {m : ChatMessage} (messages : List ChatMessage) (hsystem : m.role ≠ .system)
    (hsilent : m.silent = false) :
    anthropicTurns (m :: messages) = m.anthropicTurn :: anthropicTurns messages := by
  have hspoken : m.anthropicTurn.spoken = true := by
    unfold ChatMessage.anthropicTurn ChatMessage.turn
    cases hrole : m.role with
    | system => exact absurd hrole hsystem
    | user => split_ifs <;> rfl
    | assistant => simp [Turn.spoken]
    | tool => simp [Turn.spoken]
  unfold anthropicTurns
  rw [List.filter_cons_of_pos (by simp [hsilent]), List.map_cons, List.filter_cons_of_pos hspoken]

theorem anthropicTurns_skip {m : ChatMessage} (messages : List ChatMessage)
    (h : m.role = .system ∨ m.silent = true) : anthropicTurns (m :: messages) = anthropicTurns messages := by
  unfold anthropicTurns
  rcases h with hsystem | hsilent
  · have hkept : m.silent = false := by simp [ChatMessage.silent, hsystem]
    have hspoken : m.anthropicTurn.spoken = false := by
      simp [ChatMessage.anthropicTurn, ChatMessage.turn, hsystem, Turn.spoken]
    rw [List.filter_cons_of_pos (by simp [hkept]), List.map_cons,
      List.filter_cons_of_neg (by simp [hspoken])]
  · rw [List.filter_cons_of_neg (by simp [hsilent])]

theorem readAll_messageValues (messages : List ChatMessage) :
    readAll readAnthropicMessage (AnthropicProvider.messageValues input messages) =
      some (anthropicTurns messages) := by
  induction hn : messages.length using Nat.strongRecOn generalizing messages with
  | ind n ih =>
    cases messages with
    | nil =>
      rw [AnthropicProvider.messageValues]
      rfl
    | cons m messages =>
      have hlt : messages.length < n := by
        rw [List.length_cons] at hn
        omega
      have htail := ih _ hlt messages rfl
      rw [AnthropicProvider.messageValues]
      by_cases hsystem : m.role = .system
      · rw [if_pos hsystem, htail, anthropicTurns_skip messages (.inl hsystem)]
      rw [if_neg hsystem]
      by_cases htool : m.role = .tool
      · -- the run of results that becomes one message
        have htools : ∀ m' ∈ m :: messages.takeWhile AnthropicProvider.isTool, m'.role = .tool := by
          intro m' hm'
          rcases List.mem_cons.mp hm' with rfl | hm'
          · exact htool
          · have hrole : AnthropicProvider.isTool m' = true := List.mem_takeWhile_imp hm'
            exact of_decide_eq_true hrole
        have hsplit : m :: messages = (m :: messages.takeWhile AnthropicProvider.isTool) ++
            messages.dropWhile AnthropicProvider.isTool := by
          rw [List.cons_append, List.takeWhile_append_dropWhile]
        have hrest := ih _ (Nat.lt_of_le_of_lt (List.dropWhile_sublist _).length_le hlt)
          (messages.dropWhile AnthropicProvider.isTool) rfl
        have hread : readAnthropicMessage (.obj [("role", .str "user"),
            ("content", .arr ((m :: messages.takeWhile AnthropicProvider.isTool).map
              AnthropicProvider.toolResultValue))]) =
            some ((m :: messages.takeWhile AnthropicProvider.isTool).map ChatMessage.turn) := by
          rw [← readBlocks_results htools]
          simp [readAnthropicMessage, stringField, itemsField, field, List.lookup_cons]
        rw [if_pos htool, readAll, hread, Option.bind_some, hrest, hsplit, anthropicTurns_append,
          anthropicTurns_tools htools]
        rfl
      rw [if_neg htool]
      by_cases hnothing : m.role = .assistant ∧ m.content.isEmpty ∧ m.toolCalls = []
      · have hsilent : m.silent = true := by simp [ChatMessage.silent, hnothing]
        rw [if_pos hnothing, htail, anthropicTurns_skip messages (.inr hsilent)]
      · have hsilent : m.silent = false := by
          unfold ChatMessage.silent
          simpa using hnothing
        have hread : readAnthropicMessage (.obj
            [("role", .str (if m.role = .assistant then "assistant" else "user")),
              ("content", .arr (AnthropicProvider.turnValues input m))]) = some [m.anthropicTurn] := by
          cases hrole : m.role with
          | system => exact absurd hrole hsystem
          | tool => exact absurd hrole htool
          | assistant =>
            rw [if_pos rfl, readAnthropicMessage_assistant hrole hsilent, ChatMessage.anthropicTurn,
              if_neg (by simp [hrole])]
          | user => rw [if_neg (by decide), readAnthropicMessage_user hrole]
        rw [if_neg hnothing, readAll, hread, Option.bind_some, htail,
          anthropicTurns_cons messages hsystem hsilent]
        rfl

end

theorem TurnsPaired.mono {calls more : List (String × String)} {turns : List Turn} (h : TurnsPaired calls turns)
    (hsub : ∀ id ∈ calls.map Prod.fst, id ∈ more.map Prod.fst) : TurnsPaired more turns := by
  induction turns generalizing calls more with
  | nil => trivial
  | cons turn turns ih =>
    cases turn with
    | system text => exact ih h hsub
    | user text => exact ih h hsub
    | assistant text calls' => exact h
    | result id content => exact ⟨hsub id h.1, ih h.2 hsub⟩

theorem turnsPaired_anthropicTurns {calls : List (String × String)} {messages : List ChatMessage}
    (h : TurnsPaired calls (messages.map ChatMessage.turn)) : TurnsPaired calls (anthropicTurns messages) := by
  induction messages generalizing calls with
  | nil => exact h
  | cons m messages ih =>
    rw [List.map_cons] at h
    by_cases hsystem : m.role = .system
    · rw [anthropicTurns_skip messages (.inl hsystem)]
      unfold ChatMessage.turn at h
      rw [hsystem] at h
      exact ih h
    by_cases hsilent : m.silent = true
    · rw [anthropicTurns_skip messages (.inr hsilent)]
      have hrole : m.role = .assistant ∧ m.toolCalls = [] := by
        unfold ChatMessage.silent at hsilent
        simp only [Bool.and_eq_true, decide_eq_true_eq, List.isEmpty_iff] at hsilent
        exact ⟨hsilent.1.1, hsilent.2⟩
      unfold ChatMessage.turn at h
      rw [hrole.1, hrole.2] at h
      exact (ih h).mono fun id hid => nomatch hid
    · rw [anthropicTurns_cons messages hsystem (by simpa using hsilent)]
      have hother : m.role ≠ .user → m.anthropicTurn = m.turn := fun hrole => if_neg fun h => hrole h.1
      cases hrole : m.role with
      | system => exact absurd hrole hsystem
      | user =>
        have htext : ∃ text, m.anthropicTurn = .user text := by
          unfold ChatMessage.anthropicTurn ChatMessage.turn
          rw [hrole]
          split_ifs
          · exact ⟨_, rfl⟩
          · exact ⟨_, rfl⟩
        obtain ⟨text, htext⟩ := htext
        unfold ChatMessage.turn at h
        rw [hrole] at h
        rw [htext]
        exact ih h
      | assistant =>
        rw [hother (by simp [hrole])]
        unfold ChatMessage.turn at h ⊢
        rw [hrole] at h ⊢
        exact ih h
      | tool =>
        rw [hother (by simp [hrole])]
        unfold ChatMessage.turn at h ⊢
        rw [hrole] at h ⊢
        exact ⟨h.1, ih h.2⟩

theorem itemsField_document (input : ToolCall → Json) (req : ChatRequest)
    (toolDefinitions : List ToolDefinition) (defaultMaxTokens : UInt32) :
    itemsField "messages" (AnthropicProvider.document input req toolDefinitions defaultMaxTokens) =
      AnthropicProvider.messageValues input req.messages := by
  unfold AnthropicProvider.document AnthropicProvider.systemMembers
  split_ifs <;> simp [itemsField, field, List.lookup_cons]

theorem anthropic_keeps {req : ChatRequest} (hfinite : FiniteTemperature req)
    (husable : UsableArguments req) (hanswered : Answered req.messages)
    (toolDefinitions : List ToolDefinition) (defaultMaxTokens : UInt32) :
    AnthropicKeeps req toolDefinitions defaultMaxTokens := by
  have hinput : ∀ m ∈ req.messages, m.role = .assistant → ∀ tc ∈ m.toolCalls,
      AnthropicProvider.toolInput tc = some ((AnthropicProvider.toolInput tc).getD .null) := by
    intro m hm hassistant tc htc
    obtain ⟨v, hv⟩ := Option.isSome_iff_exists.mp (husable m hm hassistant tc htc)
    rw [hv]
    rfl
  refine ⟨anthropicTurns req.messages, ?_, ?_, turnsPaired_anthropicTurns hanswered⟩
  · rw [readTurns,
      (AnthropicProvider.spelled_body hfinite hinput toolDefinitions defaultMaxTokens).parse,
      Option.bind_some, itemsField_document]
    exact readAll_messageValues req.messages
  · unfold anthropicTurns
    rw [List.filter_filter]
    simp

/-! ## The three formats -/

/-- In a history in which every result answers a call, all three bodies keep the pairing exactly when no
assistant message has called a tool, since the body for Ollama leaves the calls out. The body for OpenAI
keeps it exactly when every result has an id, and the body for Anthropic does when the arguments of the
calls are JSON. -/
theorem wire_formats_keep_iff {req : ChatRequest} (toolDefinitions : List ToolDefinition)
    (defaultMaxTokens : UInt32) (hanswered : Answered req.messages) :
    ((OllamaKeeps req toolDefinitions ∧ OpenAiKeeps req toolDefinitions ∧
        AnthropicKeeps req toolDefinitions defaultMaxTokens) ↔
      FiniteTemperature req ∧ NoCalls req.messages) ∧
    (OpenAiKeeps req toolDefinitions ↔ FiniteTemperature req ∧ NamedResults req.messages) ∧
    (FiniteTemperature req → UsableArguments req →
      AnthropicKeeps req toolDefinitions defaultMaxTokens) := by
  refine ⟨⟨fun hkeeps => (ollama_keeps_iff hanswered).mp hkeeps.1, ?_⟩, openAi_keeps_iff hanswered,
    fun hfinite husable => anthropic_keeps hfinite husable hanswered toolDefinitions defaultMaxTokens⟩
  rintro ⟨hfinite, hcalls⟩
  have husable : UsableArguments req := by
    intro m hm hassistant tc htc
    rw [hcalls m hm hassistant] at htc
    exact nomatch htc
  exact ⟨(ollama_keeps_iff hanswered).mpr ⟨hfinite, hcalls⟩,
    (openAi_keeps_iff hanswered).mpr ⟨hfinite, named_of_noCalls hcalls hanswered⟩,
    anthropic_keeps hfinite husable hanswered toolDefinitions defaultMaxTokens⟩

/-- One call and its result. -/
def oneCall : ChatRequest where
  model := "m"
  messages := [{ content := "mesh it" },
    { role := .assistant, content := "", toolCalls := [⟨"c1", "run_mesh", "\x7b\x7d"⟩] },
    { role := .tool, content := "done", toolCallId := "c1" }]
  tools := []
  temperature := none

theorem answered_oneCall : Answered oneCall.messages := ⟨by decide, trivial⟩

theorem wire_formats_keep_oneCall : OpenAiKeeps oneCall [] ∧ AnthropicKeeps oneCall [] 1024 := by
  obtain ⟨-, hopenAi, hanthropic⟩ := wire_formats_keep_iff [] 1024 answered_oneCall
  refine ⟨hopenAi.mpr ⟨by decide, by decide⟩, hanthropic (by decide) (by decide)⟩

theorem ollama_drops_calls : Answered oneCall.messages ∧ ¬OllamaKeeps oneCall [] := by
  refine ⟨answered_oneCall, fun hkeeps => ?_⟩
  have hcalls := ((ollama_keeps_iff answered_oneCall).mp hkeeps).2
  exact nomatch hcalls { role := .assistant, content := "", toolCalls := [⟨"c1", "run_mesh", "\x7b\x7d"⟩] }
    (by decide) rfl

end Souxmar.Ai
