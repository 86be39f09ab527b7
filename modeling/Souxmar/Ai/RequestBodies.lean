import Souxmar.Ai.Render
import Souxmar.Lib.Json

/-!
# Request bodies are JSON

Each body is the text of one document (`ollamaDocument`, `openAiDocument`, `anthropicDocument`), whose
strings are the strings of the request. The Anthropic body takes the arguments of a call over as they
are, so there it is the texts of the arguments that decide.
-/

namespace Souxmar.Ai

open Souxmar.Lib

/-! ## Pieces -/

/-- The text stands for the value. -/
def Spelled (text : String) (v : Json) : Prop := Json.Writes text.toList v

theorem hexVal_hexDigit : ∀ n < 16, Json.hexVal (hexDigit n) = some n := by decide

theorem readUnits_escapeChar (c : Char) {more : List Char} {units : List ℕ} {rest : List Char}
    (h : Json.readUnits more = some (units, rest)) :
    Json.readUnits (escapeChar c ++ more) = some (c.toNat :: units, rest) := by
  unfold escapeChar
  split_ifs with hquote hslash hb hf hn hr ht hcontrol
  · subst hquote
    exact Json.readUnits_escape (by decide) rfl h
  · subst hslash
    exact Json.readUnits_escape (by decide) rfl h
  · subst hb
    exact Json.readUnits_escape (by decide) rfl h
  · subst hf
    exact Json.readUnits_escape (by decide) rfl h
  · subst hn
    exact Json.readUnits_escape (by decide) rfl h
  · subst hr
    exact Json.readUnits_escape (by decide) rfl h
  · subst ht
    exact Json.readUnits_escape (by decide) rfl h
  · refine Json.readUnits_hex ?_ h
    have hzero : Json.hexVal '0' = some 0 := by decide
    rw [Json.hex4, hzero, hexVal_hexDigit _ (by omega), hexVal_hexDigit _ (by omega)]
    simp only [Option.bind_some, Option.map_some, Option.some.injEq]
    omega
  · exact Json.readUnits_plain hquote hslash (by omega) h

theorem spelled_jsonEscape (s : String) : Spelled (jsonEscape s) (.str s) := by
  have hspells : Json.Spells (s.toList.flatMap escapeChar ++ ['"']) s :=
    Json.spells_of_chars fun c _ more units rest h => readUnits_escapeChar c h
  rw [Spelled, jsonEscape, String.toList_ofList]
  exact Json.Writes.str hspells

/-! ## Numbers -/

def numberOf (text : String) : Json := .num text.toList

theorem spelled_nat (n : ℕ) : Spelled (toString n) (numberOf (toString n)) := by
  have hdigits : (toString n).toList = Nat.toDigits 10 n := Nat.toList_repr
  rw [Spelled, numberOf, hdigits]
  exact Json.Writes.num (Json.readNumber_natural (Json.natural_toDigits n))

theorem micros_digits (n : ℕ) : (Nat.toDigits 10 (10 ^ 6 + n % 10 ^ 6)).drop 1 ≠ [] ∧
    ∀ c ∈ (Nat.toDigits 10 (10 ^ 6 + n % 10 ^ 6)).drop 1, c.isDigit = true := by
  have hlength : 1 < (Nat.toDigits 10 (10 ^ 6 + n % 10 ^ 6)).length := by
    have hle : (Nat.toDigits 10 (10 ^ 6 + n % 10 ^ 6)).length ≤ 1 ↔ 10 ^ 6 + n % 10 ^ 6 < 10 ^ 1 :=
      Nat.length_toDigits_le_iff (by omega) (by omega)
    omega
  refine ⟨?_, fun c hc => Nat.isDigit_of_mem_toDigits (by omega) (by omega) (List.mem_of_mem_drop hc)⟩
  intro hnil
  have := List.drop_eq_nil_iff.mp hnil
  omega

theorem spelled_double {bits : UInt64} (h : Double.Finite bits) :
    Spelled (doubleToString bits) (numberOf (doubleToString bits)) := by
  have hshape : ∃ micros : ℕ, doubleToString bits =
      (if Double.negative bits then "-" else "") ++ (toString (micros / 10 ^ 6) ++ "." ++
        String.ofList ((Nat.toDigits 10 (10 ^ 6 + micros % 10 ^ 6)).drop 1)) := by
    unfold doubleToString
    dsimp only
    rw [if_neg h]
    exact ⟨_, rfl⟩
  obtain ⟨micros, hmicros⟩ := hshape
  have hrepr : (toString (micros / 10 ^ 6)).toList = Nat.toDigits 10 (micros / 10 ^ 6) :=
    Nat.toList_repr
  have hchars : (doubleToString bits).toList =
      (if Double.negative bits then ['-'] else []) ++
        (Nat.toDigits 10 (micros / 10 ^ 6) ++
          '.' :: (Nat.toDigits 10 (10 ^ 6 + micros % 10 ^ 6)).drop 1) := by
    rw [hmicros, String.toList_append, String.toList_append, String.toList_append, hrepr,
      String.toList_ofList]
    split_ifs <;> simp_all
  obtain ⟨hne, hfraction⟩ := micros_digits micros
  rw [Spelled, numberOf, hchars]
  exact Json.Writes.num (Json.readNumber_decimal _ (Json.natural_toDigits _) hne hfraction)

theorem unreadable_double {bits : UInt64} (h : ¬Double.Finite bits) (more : List Char) :
    Json.Unreadable ((doubleToString bits).toList ++ more) := by
  unfold doubleToString
  dsimp only
  rw [if_pos (not_not.mp h), String.toList_append]
  split_ifs
  · exact Json.unreadable_sign (by decide) _
  · exact Json.unreadable_sign (by decide) _
  · exact Json.unreadable_inf _
  · exact Json.unreadable_nan _

/-! ## Objects and arrays -/

/-- The text is the rest of an object that has these members left. -/
def Closes (rest : String) (members : List (String × Json)) : Prop := Json.Fields rest.toList members

theorem closes_end : Closes "\x7d" [] := Json.Fields.close

section

variable {opening text rest : String} {v : Json} {members : List (String × Json)}

theorem spelled_object (key : String) (hkey : Json.PlainKey key)
    (hopening : opening.toList = '{' :: '"' :: (key.toList ++ ['"', ':']))
    (hv : Spelled text v) (hrest : Closes rest members) :
    Spelled (opening ++ (text ++ rest)) (.obj ((key, v) :: members)) := by
  have hobject := Json.Writes.object hkey hv hrest
  simpa [Spelled, hopening] using hobject

theorem closes_field (key : String) (hkey : Json.PlainKey key)
    (hopening : opening.toList = ',' :: '"' :: (key.toList ++ ['"', ':']))
    (hv : Spelled text v) (hrest : Closes rest members) :
    Closes (opening ++ (text ++ rest)) ((key, v) :: members) := by
  have hfield := Json.Fields.cons hkey hv hrest
  simpa [Closes, hopening] using hfield

end

/-- The text is a list of items, the first without a comma in front or all of them with one. -/
def Listed (text : String) (items : List Json) : Bool → Prop
  | true => Spelled ("[" ++ (text ++ "]")) (.arr items)
  | false => Json.Items (text ++ "]").toList items

theorem listed_nil (first : Bool) : Listed "" [] first := by
  cases first with
  | true => exact Json.Writes.emptyArray
  | false => exact Json.Items.close

theorem listed_cons {text rest : String} {v : Json} {items : List Json} (first : Bool)
    (hv : Spelled text v) (hrest : Listed rest items false) :
    Listed ((if first then "" else ",") ++ (text ++ rest)) (v :: items) first := by
  cases first with
  | true =>
    have harray := Json.Writes.array hv hrest
    simpa [Listed, Spelled] using harray
  | false =>
    have hitem := Json.Items.cons hv hrest
    simpa [Listed] using hitem

theorem listed_append {α : Type} {render : α → String} {value : α → Json} {items : List α}
    (h : ∀ item ∈ items, Spelled (render item) (value item)) (first : Bool) {rest : String}
    {more : List Json} (hrest : Listed rest more (first && items.isEmpty)) :
    Listed (appendItems render first items ++ rest) (items.map value ++ more) first := by
  induction items generalizing first with
  | nil => simpa [appendItems] using hrest
  | cons item items ih =>
    have htail := ih (fun i hi => h i (List.mem_cons_of_mem _ hi)) false (by simpa using hrest)
    have hcons := listed_cons first (h item List.mem_cons_self) htail
    simpa [appendItems, String.append_assoc] using hcons

theorem listed_appendItems {α : Type} {render : α → String} {value : α → Json} {items : List α}
    (h : ∀ item ∈ items, Spelled (render item) (value item)) (first : Bool) :
    Listed (appendItems render first items) (items.map value) first := by
  have hnil := listed_append h first (listed_nil (first && items.isEmpty))
  simpa using hnil

theorem closes_array {opening text rest : String} {items : List Json}
    {members : List (String × Json)} (key : String) (hkey : Json.PlainKey key)
    (hopening : opening.toList = ',' :: '"' :: (key.toList ++ ['"', ':']))
    (hitems : Listed text items true) (hrest : Closes rest members) :
    Closes (opening ++ ("[" ++ (text ++ ("]" ++ rest)))) ((key, .arr items) :: members) := by
  have hfield := closes_field key hkey hopening hitems hrest
  simpa only [String.append_assoc] using hfield

/-! ## Broken objects -/

/-- What is left of an object cannot be read. -/
def Broken (rest : String) : Prop := Json.Breaks rest.toList

section

variable {opening text rest : String} {v : Json}

theorem broken_value (key : String) (hkey : Json.PlainKey key)
    (hopening : opening.toList = ',' :: '"' :: (key.toList ++ ['"', ':']))
    (hvalue : Json.Unreadable rest.toList) : Broken (opening ++ rest) := by
  have hbreaks := Json.Breaks.value hkey hvalue
  simpa [Broken, hopening] using hbreaks

theorem broken_field (key : String) (hkey : Json.PlainKey key)
    (hopening : opening.toList = ',' :: '"' :: (key.toList ++ ['"', ':']))
    (hv : Spelled text v) (hrest : Broken rest) : Broken (opening ++ (text ++ rest)) := by
  have hbreaks := Json.Breaks.field hkey hv hrest
  simpa [Broken, hopening] using hbreaks

theorem broken_array {items : List Json} (key : String) (hkey : Json.PlainKey key)
    (hopening : opening.toList = ',' :: '"' :: (key.toList ++ ['"', ':']))
    (hitems : Listed text items true) (hrest : Broken rest) :
    Broken (opening ++ ("[" ++ (text ++ ("]" ++ rest)))) := by
  have hfield := broken_field key hkey hopening hitems hrest
  simpa only [String.append_assoc] using hfield

theorem not_parse_object (key : String) (hkey : Json.PlainKey key)
    (hopening : opening.toList = '{' :: '"' :: (key.toList ++ ['"', ':']))
    (hv : Spelled text v) (hrest : Broken rest) :
    Json.parse (opening ++ (text ++ rest)).toList = none := by
  have hobject := (Json.unreadable_object hkey hv hrest).parse
  simpa [hopening] using hobject

end

/-! ## Documents -/

def temperatureMembers (req : ChatRequest) : List (String × Json) :=
  match req.temperature with
  | some temperature => [("temperature", numberOf (doubleToString temperature))]
  | none => []

def maxTokensMembers (key : String) (req : ChatRequest) : List (String × Json) :=
  match req.maxTokens with
  | some maxTokens => [(key, numberOf (toString maxTokens.toNat))]
  | none => []

def emptySchema : Json := .obj [("type", .str "object"), ("properties", .obj [])]

def toolsMembers (value : ToolDefinition → Json) (tools : List ToolDefinition) : List (String × Json) :=
  if tools.isEmpty then [] else [("tools", .arr (tools.map value))]

/-- A tool in the layout of Ollama and OpenAI. -/
def functionValue (t : ToolDefinition) : Json :=
  .obj [("type", .str "function"), ("function", .obj [("name", .str t.name),
    ("description", .str t.description), ("parameters", emptySchema)])]

namespace OllamaProvider

def messageValue (m : ChatMessage) : Json :=
  .obj ([("role", .str m.role.toString), ("content", .str m.content)] ++
    if m.toolCallId.isEmpty then [] else [("tool_call_id", .str m.toolCallId)])

def optionsMembers (req : ChatRequest) : List (String × Json) :=
  if req.temperature.isSome || req.maxTokens.isSome then
    [("options", .obj (temperatureMembers req ++ maxTokensMembers "num_predict" req))]
  else []

def document (req : ChatRequest) (toolDefinitions : List ToolDefinition) : Json :=
  .obj ([("model", .str req.model), ("stream", .bool false),
    ("messages", .arr (req.messages.map messageValue))] ++
    (toolsMembers functionValue (toolDefinitions ++ req.tools) ++ optionsMembers req))

end OllamaProvider

namespace OpenAICompatibleProvider

/-- The arguments of a call stay a string. -/
def toolCallValue (tc : ToolCall) : Json :=
  .obj [("id", .str tc.id), ("type", .str "function"), ("function", .obj [("name", .str tc.name),
    ("arguments", .str (if tc.argumentsJson.isEmpty then "\x7b\x7d" else tc.argumentsJson))])]

def messageValue (m : ChatMessage) : Json :=
  .obj ([("role", .str m.role.toString), ("content", .str m.content)] ++
    ((if m.role = .tool ∧ ¬m.toolCallId.isEmpty then [("tool_call_id", .str m.toolCallId)] else []) ++
    (if m.role = .assistant ∧ ¬m.toolCalls.isEmpty then
      [("tool_calls", .arr (m.toolCalls.map toolCallValue))] else [])))

def document (req : ChatRequest) (toolDefinitions : List ToolDefinition) : Json :=
  .obj ([("model", .str req.model), ("stream", .bool false),
    ("messages", .arr (req.messages.map messageValue))] ++
    (toolsMembers functionValue (toolDefinitions ++ req.tools) ++
      (temperatureMembers req ++ maxTokensMembers "max_tokens" req)))

end OpenAICompatibleProvider

namespace AnthropicProvider

def textValue (text : String) : Json := .obj [("type", .str "text"), ("text", .str text)]

def toolUseValue (input : ToolCall → Json) (tc : ToolCall) : Json :=
  .obj [("type", .str "tool_use"), ("id", .str tc.id), ("name", .str tc.name), ("input", input tc)]

def toolResultValue (m : ChatMessage) : Json :=
  .obj [("type", .str "tool_result"), ("tool_use_id", .str m.toolCallId), ("content", .str m.content)]

def turnValues (input : ToolCall → Json) (m : ChatMessage) : List Json :=
  (if m.content.isEmpty then [] else [textValue m.content]) ++
    ((if m.role = .assistant then m.toolCalls.map (toolUseValue input) else []) ++
    (if m.content.isEmpty ∧ ¬(m.role = .assistant ∧ m.toolCalls ≠ []) then [textValue " "] else []))

def messageValues (input : ToolCall → Json) : List ChatMessage → List Json
  | [] => []
  | m :: messages =>
    if m.role = .system then messageValues input messages
    else if m.role = .tool then
      .obj [("role", .str "user"),
          ("content", .arr ((m :: messages.takeWhile isTool).map toolResultValue))] ::
        messageValues input (messages.dropWhile isTool)
    else if m.role = .assistant ∧ m.content.isEmpty ∧ m.toolCalls = [] then
      messageValues input messages
    else
      .obj [("role", .str (if m.role = .assistant then "assistant" else "user")),
          ("content", .arr (turnValues input m))] :: messageValues input messages
termination_by messages => messages.length
decreasing_by
  · simp
  · exact Nat.lt_succ_of_le (List.dropWhile_sublist _).length_le
  · simp
  · simp

def toolValue (t : ToolDefinition) : Json :=
  .obj [("name", .str t.name), ("description", .str t.description), ("input_schema", emptySchema)]

def systemMembers (req : ChatRequest) : List (String × Json) :=
  if (systemText req.messages).isEmpty then [] else [("system", .str (systemText req.messages))]

def document (input : ToolCall → Json) (req : ChatRequest) (toolDefinitions : List ToolDefinition)
    (defaultMaxTokens : UInt32) : Json :=
  .obj ([("model", .str req.model),
    ("max_tokens", numberOf (toString (req.maxTokens.getD defaultMaxTokens).toNat))] ++
    (systemMembers req ++ ([("messages", .arr (messageValues input req.messages))] ++
      (toolsMembers toolValue (toolDefinitions ++ req.tools) ++ temperatureMembers req))))

/-- The value that the arguments of a call stand for. -/
def toolInput (tc : ToolCall) : Option Json :=
  if inlined tc.argumentsJson then Json.parse tc.argumentsJson.toList else some (.obj [])

end AnthropicProvider

/-! ## Shared fields -/

/-- The double of the temperature is a number. -/
def FiniteTemperature (req : ChatRequest) : Prop := ∀ temperature ∈ req.temperature, Double.Finite temperature

instance (req : ChatRequest) : Decidable (FiniteTemperature req) := Option.decidableForallMem req.temperature

theorem spelled_word (text value : String) (h : text.toList = '"' :: (value.toList ++ ['"']))
    (hplain : Json.PlainKey value) : Spelled text (.str value) := by
  rw [Spelled, h]
  exact Json.Writes.str (Json.spells_plain hplain)

theorem spelled_emptySchema : Spelled emptySchemaText emptySchema := by
  simp only [emptySchemaText, String.append_assoc]
  exact spelled_object "type" (by decide) (by decide) (spelled_word _ "object" (by decide) (by decide))
    (closes_field "properties" (by decide) (by decide) Json.Writes.emptyObject closes_end)

section

variable {req : ChatRequest} {rest : String} {members : List (String × Json)}

theorem closes_temperature (hfinite : FiniteTemperature req) (hrest : Closes rest members) :
    Closes ((match req.temperature with
      | some temperature => ",\"temperature\":" ++ doubleToString temperature
      | none => "") ++ rest) (temperatureMembers req ++ members) := by
  unfold temperatureMembers
  cases htemperature : req.temperature with
  | none => simpa using hrest
  | some temperature =>
    have hdouble := spelled_double (hfinite temperature htemperature)
    simp only [String.append_assoc]
    exact closes_field "temperature" (by decide) (by decide) hdouble hrest

theorem closes_tools {render : ToolDefinition → String} {value : ToolDefinition → Json}
    (hrender : ∀ t, Spelled (render t) (value t)) (tools : List ToolDefinition)
    (hrest : Closes rest members) :
    Closes ((if tools.isEmpty then "" else
      ",\"tools\":" ++ "[" ++ appendItems render true tools ++ "]") ++ rest) (toolsMembers value tools ++ members) := by
  unfold toolsMembers
  split_ifs with hempty
  · simpa using hrest
  · have hlisted := listed_appendItems (fun t (_ : t ∈ tools) => hrender t) true
    simp only [String.append_assoc]
    exact closes_array "tools" (by decide) (by decide) hlisted hrest

end

theorem exists_infinite {req : ChatRequest} (h : ¬FiniteTemperature req) :
    ∃ temperature, req.temperature = some temperature ∧ ¬Double.Finite temperature := by
  by_contra hnone
  exact h fun temperature htemperature => not_not.mp fun hinfinite =>
    hnone ⟨temperature, htemperature, hinfinite⟩

theorem broken_tools {render : ToolDefinition → String} {value : ToolDefinition → Json}
    (hrender : ∀ t, Spelled (render t) (value t)) (tools : List ToolDefinition) {rest : String}
    (hrest : Broken rest) :
    Broken ((if tools.isEmpty then "" else
      ",\"tools\":" ++ "[" ++ appendItems render true tools ++ "]") ++ rest) := by
  split_ifs with hempty
  · simpa using hrest
  · have hlisted := listed_appendItems (fun t (_ : t ∈ tools) => hrender t) true
    simp only [String.append_assoc]
    exact broken_array "tools" (by decide) (by decide) hlisted hrest

/-! ## Ollama -/

namespace OllamaProvider

theorem spelled_message (m : ChatMessage) : Spelled (renderMessage m) (messageValue m) := by
  have hrest : Closes ((if m.toolCallId.isEmpty then "" else
      ",\"tool_call_id\":" ++ jsonEscape m.toolCallId) ++ "\x7d")
      (if m.toolCallId.isEmpty then [] else [("tool_call_id", .str m.toolCallId)]) := by
    split_ifs
    · exact closes_end
    · simp only [String.append_assoc]
      exact closes_field "tool_call_id" (by decide) (by decide) (spelled_jsonEscape _) closes_end
  simp only [renderMessage, messageValue, String.append_assoc]
  exact spelled_object "role" (by decide) (by decide) (spelled_jsonEscape _)
    (closes_field "content" (by decide) (by decide) (spelled_jsonEscape _) hrest)

theorem spelled_tool (t : ToolDefinition) : Spelled (renderTool t) (functionValue t) := by
  have hfunction : Spelled ("\x7b\"name\":" ++ (jsonEscape t.name ++ (",\"description\":" ++
      (jsonEscape t.description ++ (",\"parameters\":" ++ (emptySchemaText ++ "\x7d"))))))
      (.obj [("name", .str t.name), ("description", .str t.description), ("parameters", emptySchema)]) :=
    spelled_object "name" (by decide) (by decide) (spelled_jsonEscape _)
      (closes_field "description" (by decide) (by decide) (spelled_jsonEscape _)
        (closes_field "parameters" (by decide) (by decide) spelled_emptySchema closes_end))
  have htool : Spelled ("\x7b\"type\":" ++ ("\"function\"" ++ (",\"function\":" ++
      (("\x7b\"name\":" ++ (jsonEscape t.name ++ (",\"description\":" ++
        (jsonEscape t.description ++ (",\"parameters\":" ++ (emptySchemaText ++ "\x7d")))))) ++ "\x7d"))))
      (functionValue t) :=
    spelled_object "type" (by decide) (by decide) (spelled_word _ "function" (by decide) (by decide))
      (closes_field "function" (by decide) (by decide) hfunction closes_end)
  unfold renderTool
  simpa only [String.append_assoc] using htool

theorem closes_options {req : ChatRequest} (hfinite : FiniteTemperature req) :
    Closes (renderOptions req ++ "\x7d") (optionsMembers req) := by
  unfold renderOptions optionsMembers temperatureMembers maxTokensMembers
  cases htemperature : req.temperature with
  | none =>
    cases req.maxTokens with
    | none => exact closes_end
    | some maxTokens =>
      have hoptions : Spelled ("\x7b" ++ "\"num_predict\":" ++ (toString maxTokens.toNat ++ "\x7d"))
          (.obj [("num_predict", numberOf (toString maxTokens.toNat))]) :=
        spelled_object "num_predict" (by decide) (by decide) (spelled_nat _) closes_end
      have hfield : Closes (",\"options\":" ++ (("\x7b" ++ "\"num_predict\":" ++
          (toString maxTokens.toNat ++ "\x7d")) ++ "\x7d")) _ :=
        closes_field "options" (by decide) (by decide) hoptions closes_end
      simpa [-String.reduceAppend, String.append_assoc] using hfield
  | some temperature =>
    have hdouble := spelled_double (hfinite temperature htemperature)
    cases req.maxTokens with
    | none =>
      have hoptions : Spelled ("\x7b" ++ "\"temperature\":" ++ (doubleToString temperature ++ "\x7d"))
          (.obj [("temperature", numberOf (doubleToString temperature))]) :=
        spelled_object "temperature" (by decide) (by decide) hdouble closes_end
      have hfield : Closes (",\"options\":" ++ (("\x7b" ++ "\"temperature\":" ++
          (doubleToString temperature ++ "\x7d")) ++ "\x7d")) _ :=
        closes_field "options" (by decide) (by decide) hoptions closes_end
      simpa [-String.reduceAppend, String.append_assoc] using hfield
    | some maxTokens =>
      have hoptions : Spelled ("\x7b" ++ "\"temperature\":" ++ (doubleToString temperature ++
          ("," ++ "\"num_predict\":" ++ (toString maxTokens.toNat ++ "\x7d"))))
          (.obj [("temperature", numberOf (doubleToString temperature)),
            ("num_predict", numberOf (toString maxTokens.toNat))]) :=
        spelled_object "temperature" (by decide) (by decide) hdouble
          (closes_field "num_predict" (by decide) (by decide) (spelled_nat _) closes_end)
      have hfield : Closes (",\"options\":" ++ (("\x7b" ++ "\"temperature\":" ++
          (doubleToString temperature ++ ("," ++ "\"num_predict\":" ++
            (toString maxTokens.toNat ++ "\x7d")))) ++ "\x7d")) _ :=
        closes_field "options" (by decide) (by decide) hoptions closes_end
      simpa [-String.reduceAppend, String.append_assoc] using hfield

theorem spelled_body {req : ChatRequest} (hfinite : FiniteTemperature req)
    (toolDefinitions : List ToolDefinition) :
    Spelled (renderRequestBody req toolDefinitions) (document req toolDefinitions) := by
  have hmessages := listed_appendItems (fun m (_ : m ∈ req.messages) => spelled_message m) true
  have htools := closes_tools spelled_tool (toolDefinitions ++ req.tools) (closes_options hfinite)
  have hstream : Spelled "false" (.bool false) := Json.Writes.false
  have hbody : Spelled ("\x7b" ++ "\"model\":" ++ (jsonEscape req.model ++ (",\"stream\":" ++ ("false" ++
      (",\"messages\":" ++ ("[" ++ (appendItems renderMessage true req.messages ++ ("]" ++ _))))))))
      (document req toolDefinitions) :=
    spelled_object "model" (by decide) (by decide) (spelled_jsonEscape _)
      (closes_field "stream" (by decide) (by decide) hstream
        (closes_array "messages" (by decide) (by decide) hmessages htools))
  unfold renderRequestBody
  simpa only [String.append_assoc] using hbody

theorem not_parse {req : ChatRequest} (hinfinite : ¬FiniteTemperature req)
    (toolDefinitions : List ToolDefinition) :
    Json.parse (renderRequestBody req toolDefinitions).toList = none := by
  obtain ⟨temperature, htemperature, hdouble⟩ := exists_infinite hinfinite
  have hobject : ∀ more : String, Json.Unreadable
      ("\x7b" ++ ("\"temperature\":" ++ (doubleToString temperature ++ more))).toList := by
    intro more
    have hvalue := Json.unreadable_object_value (show Json.PlainKey "temperature" by decide)
      (unreadable_double hdouble more.toList)
    simpa using hvalue
  have hoptions : Broken (renderOptions req ++ "\x7d") := by
    unfold renderOptions
    rw [if_pos (by simp [htemperature])]
    simp only [htemperature, String.append_assoc]
    exact broken_value "options" (by decide) (by decide) (hobject _)
  have hmessages := listed_appendItems (fun m (_ : m ∈ req.messages) => spelled_message m) true
  have htools := broken_tools spelled_tool (toolDefinitions ++ req.tools) hoptions
  have hstream : Spelled "false" (.bool false) := Json.Writes.false
  have hbody : Json.parse ("\x7b" ++ "\"model\":" ++ (jsonEscape req.model ++ (",\"stream\":" ++ ("false" ++
      (",\"messages\":" ++ ("[" ++ (appendItems renderMessage true req.messages ++ ("]" ++ _)))))))).toList =
      none :=
    not_parse_object "model" (by decide) (by decide) (spelled_jsonEscape _)
      (broken_field "stream" (by decide) (by decide) hstream
        (broken_array "messages" (by decide) (by decide) hmessages htools))
  unfold renderRequestBody
  simpa only [String.append_assoc] using hbody

end OllamaProvider

/-! ## OpenAI-compatible services -/

namespace OpenAICompatibleProvider

theorem spelled_toolCall (tc : ToolCall) : Spelled (renderToolCall tc) (toolCallValue tc) := by
  have hfunction : Spelled ("\x7b\"name\":" ++ (jsonEscape tc.name ++ (",\"arguments\":" ++
      (jsonEscape (if tc.argumentsJson.isEmpty then "\x7b\x7d" else tc.argumentsJson) ++ "\x7d"))))
      (.obj [("name", .str tc.name),
        ("arguments", .str (if tc.argumentsJson.isEmpty then "\x7b\x7d" else tc.argumentsJson))]) :=
    spelled_object "name" (by decide) (by decide) (spelled_jsonEscape _)
      (closes_field "arguments" (by decide) (by decide) (spelled_jsonEscape _) closes_end)
  have hcall : Spelled ("\x7b\"id\":" ++ (jsonEscape tc.id ++ (",\"type\":" ++ ("\"function\"" ++
      (",\"function\":" ++ (("\x7b\"name\":" ++ (jsonEscape tc.name ++ (",\"arguments\":" ++
        (jsonEscape (if tc.argumentsJson.isEmpty then "\x7b\x7d" else tc.argumentsJson) ++ "\x7d")))) ++
          "\x7d")))))) (toolCallValue tc) :=
    spelled_object "id" (by decide) (by decide) (spelled_jsonEscape _)
      (closes_field "type" (by decide) (by decide) (spelled_word _ "function" (by decide) (by decide))
        (closes_field "function" (by decide) (by decide) hfunction closes_end))
  unfold renderToolCall
  simpa only [String.append_assoc] using hcall

theorem spelled_message (m : ChatMessage) : Spelled (renderMessage m) (messageValue m) := by
  have hcalls : Closes ((if m.role = .assistant ∧ ¬m.toolCalls.isEmpty then
        ",\"tool_calls\":" ++ "[" ++ appendItems renderToolCall true m.toolCalls ++ "]" else "") ++ "\x7d")
      (if m.role = .assistant ∧ ¬m.toolCalls.isEmpty then
        [("tool_calls", .arr (m.toolCalls.map toolCallValue))] else []) := by
    split_ifs
    · have hlisted := listed_appendItems (fun tc (_ : tc ∈ m.toolCalls) => spelled_toolCall tc) true
      simp only [String.append_assoc]
      exact closes_array "tool_calls" (by decide) (by decide) hlisted closes_end
    · exact closes_end
  have hrest : Closes ((if m.role = .tool ∧ ¬m.toolCallId.isEmpty then
        ",\"tool_call_id\":" ++ jsonEscape m.toolCallId else "") ++
      ((if m.role = .assistant ∧ ¬m.toolCalls.isEmpty then
        ",\"tool_calls\":" ++ "[" ++ appendItems renderToolCall true m.toolCalls ++ "]" else "") ++ "\x7d"))
      ((if m.role = .tool ∧ ¬m.toolCallId.isEmpty then [("tool_call_id", .str m.toolCallId)] else []) ++
        (if m.role = .assistant ∧ ¬m.toolCalls.isEmpty then
          [("tool_calls", .arr (m.toolCalls.map toolCallValue))] else [])) := by
    by_cases hid : m.role = .tool ∧ ¬m.toolCallId.isEmpty
    · rw [if_pos hid, if_pos hid]
      simp only [String.append_assoc] at hcalls ⊢
      exact closes_field "tool_call_id" (by decide) (by decide) (spelled_jsonEscape _) hcalls
    · rw [if_neg hid, if_neg hid]
      simpa using hcalls
  unfold renderMessage messageValue
  simp only [String.append_assoc]
  exact spelled_object "role" (by decide) (by decide) (spelled_jsonEscape _)
    (closes_field "content" (by decide) (by decide) (spelled_jsonEscape _) hrest)

theorem spelled_tool (t : ToolDefinition) : Spelled (renderTool t) (functionValue t) :=
  OllamaProvider.spelled_tool t

theorem spelled_body {req : ChatRequest} (hfinite : FiniteTemperature req)
    (toolDefinitions : List ToolDefinition) :
    Spelled (renderRequestBody req toolDefinitions) (document req toolDefinitions) := by
  have hmessages := listed_appendItems (fun m (_ : m ∈ req.messages) => spelled_message m) true
  have hmax : Closes ((match req.maxTokens with
      | some maxTokens => ",\"max_tokens\":" ++ toString maxTokens.toNat
      | none => "") ++ "\x7d") (maxTokensMembers "max_tokens" req) := by
    unfold maxTokensMembers
    cases req.maxTokens with
    | none => exact closes_end
    | some maxTokens =>
      simp only [String.append_assoc]
      exact closes_field "max_tokens" (by decide) (by decide) (spelled_nat _) closes_end
  have htools := closes_tools spelled_tool (toolDefinitions ++ req.tools)
    (closes_temperature hfinite hmax)
  have hstream : Spelled "false" (.bool false) := Json.Writes.false
  have hbody : Spelled ("\x7b\"model\":" ++ (jsonEscape req.model ++ (",\"stream\":" ++ ("false" ++
      (",\"messages\":" ++ ("[" ++ (appendItems renderMessage true req.messages ++ ("]" ++ _))))))))
      (document req toolDefinitions) :=
    spelled_object "model" (by decide) (by decide) (spelled_jsonEscape _)
      (closes_field "stream" (by decide) (by decide) hstream
        (closes_array "messages" (by decide) (by decide) hmessages htools))
  unfold renderRequestBody
  simp only [String.append_assoc] at hbody ⊢
  exact hbody

theorem not_parse {req : ChatRequest} (hinfinite : ¬FiniteTemperature req)
    (toolDefinitions : List ToolDefinition) :
    Json.parse (renderRequestBody req toolDefinitions).toList = none := by
  obtain ⟨temperature, htemperature, hdouble⟩ := exists_infinite hinfinite
  have htemperatureField : ∀ rest : String,
      Broken ((",\"temperature\":" ++ doubleToString temperature) ++ rest) := by
    intro rest
    rw [String.append_assoc]
    refine broken_value "temperature" (by decide) (by decide) ?_
    rw [String.toList_append]
    exact unreadable_double hdouble _
  have hmessages := listed_appendItems (fun m (_ : m ∈ req.messages) => spelled_message m) true
  have htools := broken_tools spelled_tool (toolDefinitions ++ req.tools) (htemperatureField
    ((match req.maxTokens with
      | some maxTokens => ",\"max_tokens\":" ++ toString maxTokens.toNat
      | none => "") ++ "\x7d"))
  have hstream : Spelled "false" (.bool false) := Json.Writes.false
  have hbody : Json.parse ("\x7b\"model\":" ++ (jsonEscape req.model ++ (",\"stream\":" ++ ("false" ++
      (",\"messages\":" ++ ("[" ++ (appendItems renderMessage true req.messages ++ ("]" ++ _)))))))).toList =
      none :=
    not_parse_object "model" (by decide) (by decide) (spelled_jsonEscape _)
      (broken_field "stream" (by decide) (by decide) hstream
        (broken_array "messages" (by decide) (by decide) hmessages htools))
  unfold renderRequestBody
  rw [htemperature]
  simp only [String.append_assoc] at hbody ⊢
  exact hbody

end OpenAICompatibleProvider

/-! ## Anthropic -/

namespace AnthropicProvider

variable {input : ToolCall → Json}

theorem spelled_text (text : String) : Spelled (textBlock text) (textValue text) := by
  unfold textBlock
  simp only [String.append_assoc]
  exact spelled_object "type" (by decide) (by decide) (spelled_word _ "text" (by decide) (by decide))
    (closes_field "text" (by decide) (by decide) (spelled_jsonEscape _) closes_end)

theorem spelled_toolResult (m : ChatMessage) : Spelled (toolResultBlock m) (toolResultValue m) := by
  unfold toolResultBlock
  simp only [String.append_assoc]
  exact spelled_object "type" (by decide) (by decide)
    (spelled_word _ "tool_result" (by decide) (by decide))
    (closes_field "tool_use_id" (by decide) (by decide) (spelled_jsonEscape _)
      (closes_field "content" (by decide) (by decide) (spelled_jsonEscape _) closes_end))

theorem spelled_toolUse {tc : ToolCall} (h : toolInput tc = some (input tc)) :
    Spelled (toolUseBlock tc) (toolUseValue input tc) := by
  have hinput : Spelled (if inlined tc.argumentsJson then tc.argumentsJson else "\x7b\x7d") (input tc) := by
    unfold toolInput at h
    split_ifs at h ⊢ with hinlined
    · exact Json.writes_of_parse h
    · rw [← Option.some.inj h]
      exact Json.Writes.emptyObject
  unfold toolUseBlock
  simp only [String.append_assoc]
  exact spelled_object "type" (by decide) (by decide) (spelled_word _ "tool_use" (by decide) (by decide))
    (closes_field "id" (by decide) (by decide) (spelled_jsonEscape _)
      (closes_field "name" (by decide) (by decide) (spelled_jsonEscape _)
        (closes_field "input" (by decide) (by decide) hinput closes_end)))

theorem listed_turn {m : ChatMessage}
    (h : m.role = .assistant → ∀ tc ∈ m.toolCalls, toolInput tc = some (input tc)) :
    Listed (turnBlocks m) (turnValues input m) true := by
  have hcalls : ∀ first, Listed
      (if m.role = .assistant then appendItems toolUseBlock first m.toolCalls else "")
      (if m.role = .assistant then m.toolCalls.map (toolUseValue input) else []) first := by
    intro first
    split_ifs with hassistant
    · exact listed_appendItems (fun tc htc => spelled_toolUse (h hassistant tc htc)) first
    · exact listed_nil first
  unfold turnBlocks turnValues
  by_cases hcontent : m.content.isEmpty = true
  · by_cases hblocks : m.role = .assistant ∧ m.toolCalls ≠ []
    · have hlisted := hcalls true
      simpa [hcontent, hblocks] using hlisted
    · have hnone : (if m.role = .assistant then appendItems toolUseBlock true m.toolCalls else "") = "" ∧
          (if m.role = .assistant then m.toolCalls.map (toolUseValue input) else []) = [] := by
        split_ifs with hassistant
        · have hnil : m.toolCalls = [] := not_not.mp fun hne => hblocks ⟨hassistant, hne⟩
          simp [hnil, appendItems]
        · exact ⟨rfl, rfl⟩
      have hblank := listed_cons true (spelled_text " ") (listed_nil false)
      rw [hcontent, hnone.1, hnone.2]
      simpa [hblocks] using hblank
  · have htext := listed_cons true (spelled_text m.content) (hcalls false)
    rw [Bool.not_eq_true] at hcontent
    simpa [hcontent] using htext

theorem spelled_turn {role : String} {blocks : String} {values : List Json} {roleText : String}
    (hrole : Spelled roleText (.str role)) (hblocks : Listed blocks values true) :
    Spelled ("\x7b\"role\":" ++ (roleText ++ (",\"content\":" ++ ("[" ++ (blocks ++ ("]" ++ "\x7d"))))))
      (.obj [("role", .str role), ("content", .arr values)]) :=
  spelled_object "role" (by decide) (by decide) hrole
    (closes_array "content" (by decide) (by decide) hblocks closes_end)

theorem listed_messages {messages : List ChatMessage} (first : Bool)
    (h : ∀ m ∈ messages, m.role = .assistant → ∀ tc ∈ m.toolCalls, toolInput tc = some (input tc)) :
    Listed (renderMessages first messages) (messageValues input messages) first := by
  induction hn : messages.length using Nat.strongRecOn generalizing messages first with
  | ind n ih =>
    cases messages with
    | nil =>
      rw [renderMessages, messageValues]
      exact listed_nil first
    | cons m messages =>
      have htail : ∀ m' ∈ messages, m'.role = .assistant →
          ∀ tc ∈ m'.toolCalls, toolInput tc = some (input tc) :=
        fun m' hm' => h m' (List.mem_cons_of_mem _ hm')
      have hlt : messages.length < n := by
        rw [List.length_cons] at hn
        omega
      rw [renderMessages, messageValues]
      by_cases hsystem : m.role = .system
      · rw [if_pos hsystem, if_pos hsystem]
        exact ih _ hlt first htail rfl
      rw [if_neg hsystem, if_neg hsystem]
      by_cases htool : m.role = .tool
      · rw [if_pos htool, if_pos htool]
        have hsub : (messages.dropWhile isTool).Sublist messages := List.dropWhile_sublist _
        have hrest := ih _ (Nat.lt_of_le_of_lt hsub.length_le hlt) false
          (fun m' hm' => htail m' (hsub.subset hm')) rfl
        have hresults := listed_appendItems
          (fun m' (_ : m' ∈ m :: messages.takeWhile isTool) => spelled_toolResult m') true
        have hturn := spelled_turn (spelled_word "\"user\"" "user" (by decide) (by decide)) hresults
        have hlisted := listed_cons first hturn hrest
        simp only [String.append_assoc] at hlisted ⊢
        exact hlisted
      rw [if_neg htool, if_neg htool]
      by_cases hnothing : m.role = .assistant ∧ m.content.isEmpty ∧ m.toolCalls = []
      · rw [if_pos hnothing, if_pos hnothing]
        exact ih _ hlt first htail rfl
      · rw [if_neg hnothing, if_neg hnothing]
        have hrest := ih _ hlt false htail rfl
        have hturn := spelled_turn (spelled_jsonEscape (if m.role = .assistant then "assistant" else "user"))
          (listed_turn (h m List.mem_cons_self))
        have hlisted := listed_cons first hturn hrest
        simp only [String.append_assoc] at hlisted ⊢
        exact hlisted

theorem spelled_tool (t : ToolDefinition) : Spelled (renderTool t) (toolValue t) := by
  unfold renderTool
  simp only [String.append_assoc]
  exact spelled_object "name" (by decide) (by decide) (spelled_jsonEscape _)
    (closes_field "description" (by decide) (by decide) (spelled_jsonEscape _)
      (closes_field "input_schema" (by decide) (by decide) spelled_emptySchema closes_end))

theorem closes_system (req : ChatRequest) {rest : String} {members : List (String × Json)}
    (hrest : Closes rest members) :
    Closes ((if (systemText req.messages).isEmpty then ""
      else ",\"system\":" ++ jsonEscape (systemText req.messages)) ++ rest)
      (systemMembers req ++ members) := by
  unfold systemMembers
  by_cases hempty : (systemText req.messages).isEmpty = true
  · rw [if_pos hempty, if_pos hempty, String.empty_append]
    exact hrest
  · rw [if_neg hempty, if_neg hempty]
    simp only [String.append_assoc]
    exact closes_field "system" (by decide) (by decide) (spelled_jsonEscape _) hrest

theorem spelled_body {req : ChatRequest} (hfinite : FiniteTemperature req)
    (h : ∀ m ∈ req.messages, m.role = .assistant →
      ∀ tc ∈ m.toolCalls, toolInput tc = some (input tc))
    (toolDefinitions : List ToolDefinition) (defaultMaxTokens : UInt32) :
    Spelled (renderRequestBody req toolDefinitions defaultMaxTokens)
      (document input req toolDefinitions defaultMaxTokens) := by
  have htemperature := closes_temperature hfinite closes_end
  have htools := closes_tools spelled_tool (toolDefinitions ++ req.tools) htemperature
  have hmessages : Closes (",\"messages\":" ++ ("[" ++ (renderMessages true req.messages ++ ("]" ++ _)))) _ :=
    closes_array "messages" (by decide) (by decide) (listed_messages true h) htools
  have hsystem := closes_system req hmessages
  have hbody : Spelled ("\x7b\"model\":" ++ (jsonEscape req.model ++ (",\"max_tokens\":" ++
      (toString (req.maxTokens.getD defaultMaxTokens).toNat ++ _)))) _ :=
    spelled_object "model" (by decide) (by decide) (spelled_jsonEscape _)
      (closes_field "max_tokens" (by decide) (by decide) (spelled_nat _) hsystem)
  unfold renderRequestBody document
  simp only [String.append_assoc, List.append_nil] at hbody ⊢
  exact hbody

end AnthropicProvider

/-! ## The three bodies -/

/-- The arguments of every call can stand in the body of a request. -/
def UsableArguments (req : ChatRequest) : Prop :=
  ∀ m ∈ req.messages, m.role = .assistant →
    ∀ tc ∈ m.toolCalls, (AnthropicProvider.toolInput tc).isSome = true

instance (req : ChatRequest) : Decidable (UsableArguments req) :=
  inferInstanceAs (Decidable (∀ m ∈ req.messages, m.role = .assistant →
    ∀ tc ∈ m.toolCalls, (AnthropicProvider.toolInput tc).isSome = true))

/-- Every body is the JSON of its document, in which each call of the Anthropic one has the value of its
arguments. -/
structure BodiesCarry (req : ChatRequest) (toolDefinitions : List ToolDefinition)
    (defaultMaxTokens : UInt32) : Prop where
  ollama : Json.parse (OllamaProvider.renderRequestBody req toolDefinitions).toList =
    some (OllamaProvider.document req toolDefinitions)
  openAi : Json.parse (OpenAICompatibleProvider.renderRequestBody req toolDefinitions).toList =
    some (OpenAICompatibleProvider.document req toolDefinitions)
  anthropic : ∃ input : ToolCall → Json,
    (∀ m ∈ req.messages, m.role = .assistant →
      ∀ tc ∈ m.toolCalls, AnthropicProvider.toolInput tc = some (input tc)) ∧
    Json.parse (AnthropicProvider.renderRequestBody req toolDefinitions defaultMaxTokens).toList =
      some (AnthropicProvider.document input req toolDefinitions defaultMaxTokens)

/-- All three bodies are JSON that decodes to the strings of the request, exactly when the temperature is
a number and the arguments that the Anthropic body takes over are JSON themselves. -/
theorem bodies_carry_iff (req : ChatRequest) (toolDefinitions : List ToolDefinition)
    (defaultMaxTokens : UInt32) :
    BodiesCarry req toolDefinitions defaultMaxTokens ↔ FiniteTemperature req ∧ UsableArguments req := by
  constructor
  · rintro ⟨-, hopenAi, input, hinput, -⟩
    have hfinite : FiniteTemperature req := by
      by_contra hinfinite
      rw [OpenAICompatibleProvider.not_parse hinfinite] at hopenAi
      exact nomatch hopenAi
    refine ⟨hfinite, fun m hm hassistant tc htc => ?_⟩
    rw [hinput m hm hassistant tc htc]
    rfl
  · rintro ⟨hfinite, husable⟩
    have hinput : ∀ m ∈ req.messages, m.role = .assistant → ∀ tc ∈ m.toolCalls,
        AnthropicProvider.toolInput tc = some ((AnthropicProvider.toolInput tc).getD .null) := by
      intro m hm hassistant tc htc
      obtain ⟨v, hv⟩ := Option.isSome_iff_exists.mp (husable m hm hassistant tc htc)
      rw [hv]
      rfl
    exact ⟨(OllamaProvider.spelled_body hfinite toolDefinitions).parse,
      (OpenAICompatibleProvider.spelled_body hfinite toolDefinitions).parse, _, hinput,
      (AnthropicProvider.spelled_body hfinite hinput toolDefinitions defaultMaxTokens).parse⟩

/-- A call whose arguments are the flow mapping `{path: part.step}`. -/
def flowMessage : ChatMessage where
  role := .assistant
  content := ""
  toolCalls := [⟨"t", "open", "\x7bpath: part.step\x7d"⟩]

def flowRequest : ChatRequest where
  model := "m"
  messages := [flowMessage]
  tools := []
  temperature := none

theorem flow_arguments_break :
    ¬∃ v, Json.parse (AnthropicProvider.renderRequestBody flowRequest [] 1024).toList = some v := by
  have hmessages : AnthropicProvider.renderMessages true flowRequest.messages =
      "" ++ "\x7b\"role\":" ++ jsonEscape "assistant" ++ ",\"content\":" ++ "[" ++
        AnthropicProvider.turnBlocks flowMessage ++ "]" ++ "\x7d" ++ "" := by
    rw [flowRequest, AnthropicProvider.renderMessages, if_neg (by decide), if_neg (by decide),
      if_neg (by decide), AnthropicProvider.renderMessages, if_pos rfl]
    rfl
  have hnone : (Json.parse (AnthropicProvider.renderRequestBody flowRequest [] 1024).toList).isNone = true := by
    unfold AnthropicProvider.renderRequestBody
    rw [hmessages]
    decide +kernel
  rintro ⟨v, hv⟩
  rw [hv] at hnone
  cases hnone

end Souxmar.Ai
