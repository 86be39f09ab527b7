import Mathlib.Data.List.TakeWhile
import Souxmar.Ai.Agent
import Souxmar.Lib.Run

/-!
# Tool calls and their answers

Over any sequence of turns and resumes, every call a model emits is settled once and in order, by a run
of its tool or by a refusal, and every history a provider is handed has the answers of a message's calls
right behind it. A resume that suspends again searches its queue for the call it stops at by id, so this
holds up to the first resume whose queue has that id before that call.
-/

namespace Souxmar.Ai

open Souxmar.Lib Souxmar.Pipeline

variable {ω : Type}

/-! ## Paired histories -/

/-- The ids of the tool messages that come next. -/
def answeredIds (post : List ChatMessage) : List String :=
  (post.takeWhile (·.role = .tool)).map (·.toolCallId)

/-- Every assistant message that carries calls is followed at once by one tool message for each of
them, and no more, with the same ids in the same order. -/
def Paired : List ChatMessage → Prop
  | [] => True
  | m :: post =>
    (m.role = .assistant → m.toolCalls ≠ [] → answeredIds post = m.toolCalls.map (·.id)) ∧ Paired post

/-- A conversation a caller may hand in. -/
abbrev Conversation : Type := { messages : List ChatMessage // Paired messages }

theorem answeredIds_append_of_not_tool {m : ChatMessage} (hm : m.role ≠ .tool)
    (pre post : List ChatMessage) : answeredIds (pre ++ m :: post) = answeredIds pre := by
  unfold answeredIds
  induction pre with
  | nil => simp [hm]
  | cons a pre ih =>
    by_cases ha : a.role = .tool
    · simpa [ha] using ih
    · simp [ha]

theorem paired_append_of_not_tool {m : ChatMessage} (hm : m.role ≠ .tool)
    (pre post : List ChatMessage) :
    Paired (pre ++ m :: post) ↔ Paired pre ∧ Paired (m :: post) := by
  induction pre with
  | nil => simp [Paired]
  | cons a pre ih =>
    rw [List.cons_append, Paired, ih, answeredIds_append_of_not_tool hm]
    exact and_assoc.symm

theorem answeredIds_congr {a b : ChatMessage} (ha : a.role = .tool) (hb : b.role = .tool)
    (hid : a.toolCallId = b.toolCallId) (pre post : List ChatMessage) :
    answeredIds (pre ++ a :: post) = answeredIds (pre ++ b :: post) := by
  unfold answeredIds
  induction pre with
  | nil => simp [ha, hb, hid]
  | cons c pre ih =>
    by_cases hc : c.role = .tool
    · simpa [hc] using ih
    · simp [hc]

theorem paired_congr {a b : ChatMessage} (ha : a.role = .tool) (hb : b.role = .tool)
    (hid : a.toolCallId = b.toolCallId) (pre post : List ChatMessage) :
    Paired (pre ++ a :: post) ↔ Paired (pre ++ b :: post) := by
  induction pre with
  | nil => simp [Paired, ha, hb]
  | cons c pre ih =>
    rw [List.cons_append, List.cons_append, Paired, Paired, ih, answeredIds_congr ha hb hid]

/-- The place of the answer to a call that is not settled yet. -/
def awaited (call : ToolCall) : ChatMessage := { role := .tool, content := "", toolCallId := call.id }

theorem answeredIds_awaited (calls : List ToolCall) :
    answeredIds (calls.map awaited) = calls.map (·.id) := by
  unfold answeredIds
  rw [List.takeWhile_eq_self_iff.mpr (by simp [awaited]), List.map_map]
  rfl

theorem paired_awaited (calls : List ToolCall) : Paired (calls.map awaited) := by
  induction calls with
  | nil => trivial
  | cons call calls ih => exact ⟨nofun, ih⟩

theorem paired_emit {history : List ChatMessage} (h : Paired history) (text : String)
    (calls : List ToolCall) :
    Paired (history ++ { role := .assistant, content := text, toolCalls := calls } ::
      calls.map awaited) :=
  (paired_append_of_not_tool (by simp) _ _).mpr
    ⟨h, fun _ _ => answeredIds_awaited calls, paired_awaited calls⟩

/-! ## The log of a turn -/

def emittedCalls (log : List Event) : List ToolCall :=
  log.flatMap fun
    | .emitted calls => calls
    | _ => []

def settledCalls (log : List Event) : List ToolCall :=
  log.filterMap fun
    | .settled call _ => some call
    | _ => none

/-- The runs of tools and the answers, without the rest. -/
def callEvents (log : List Event) : List Event :=
  log.filter fun
    | .executed _ _ | .settled _ _ => true
    | _ => false

/-- The dispatch a call asks for. -/
def callInputs (env : Env ω) (call : ToolCall) : String × Value :=
  (call.name, parseArguments env.parseValueYaml call.argumentsJson)

/-- What a model reads when a call of the tool is refused. -/
def refusalTexts (name : String) : List String :=
  [renderToolResult (makeError "NOT_FOUND" ("no tool named '" ++ name ++ "' is registered")
      "call `souxmar agent list` (or ToolRegistry.list()) to see available tools"),
    renderToolResult (makeError "NOT_CONFIRMED"
      ("tool '" ++ name ++ "' requires user confirmation but no prompter was supplied")
      ("either set ConfirmationPolicy.prompter or add an override mapping this tool to " ++
        "Confirmation::Auto")),
    renderToolResult (makeError "DENIED" ("user declined to run '" ++ name ++ "'")),
    "error [DENIED]: the user declined to run '" ++ name ++ "'"]

/-- One call after the other was answered: its tool had just run, once, on the arguments of the call, or
the call was refused and nothing had run. -/
inductive RanOrRefused (env : Env ω) : List Event → Prop
  | none : RanOrRefused env []
  | ran {log : List Event} (h : RanOrRefused env log) (call : ToolCall) (answer : String) :
    RanOrRefused env
      (log ++ [.executed (callInputs env call).1 (callInputs env call).2, .settled call answer])
  | refused {log : List Event} (h : RanOrRefused env log) (call : ToolCall) {answer : String}
    (hrefusal : answer ∈ refusalTexts call.name) : RanOrRefused env (log ++ [.settled call answer])

section

variable (l l' : List Event) (e : Event)

@[simp] theorem emittedCalls_append : emittedCalls (l ++ l') = emittedCalls l ++ emittedCalls l' :=
  List.flatMap_append

@[simp] theorem settledCalls_append : settledCalls (l ++ l') = settledCalls l ++ settledCalls l' :=
  List.filterMap_append

@[simp] theorem callEvents_append : callEvents (l ++ l') = callEvents l ++ callEvents l' :=
  List.filter_append ..

end

/-- A turn is on course when the calls settled so far and those outstanding are the calls emitted, in
order, each settled call ran once or was refused, nothing else ran, and no provider was handed an
unpaired history. -/
structure OnCourse (env : Env ω) (log : List Event) (outstanding : List ToolCall) : Prop where
  calls : settledCalls log ++ outstanding = emittedCalls log
  answered : RanOrRefused env (callEvents log)
  asked : ∀ history, .asked history ∈ log → Paired history

/-- A turn in progress: the history has room for exactly the outstanding answers. -/
structure InTurn (env : Env ω) (log : List Event) (history : List ChatMessage)
    (outstanding : List ToolCall) : Prop extends OnCourse env log outstanding where
  room : Paired (history ++ outstanding.map awaited)

section

variable {env : Env ω} {log : List Event} {history : List ChatMessage}
  {call : ToolCall} {rest : List ToolCall}

theorem dispatchTool_log (registry : ToolRegistry ω) (name : String) (inputs : Value)
    (context : ToolContext ω) (s : AgentState ω) :
    ∃ added, (dispatchTool registry name inputs context s).2.log = s.log ++ added ∧
      emittedCalls added = [] ∧ settledCalls added = [] ∧ (∀ h, .asked h ∉ added) ∧
      (callEvents added = [.executed name inputs] ∨ callEvents added = [] ∧
        renderToolResult (dispatchTool registry name inputs context s).1 ∈ refusalTexts name) := by
  unfold dispatchTool
  cases hfind : registry.find name with
  | none => exact ⟨[], by simp, rfl, rfl, by simp, .inr ⟨rfl, by simp [refusalTexts]⟩⟩
  | some tool =>
    have hname := ToolRegistry.find_name hfind
    subst hname
    simp only []
    unfold confirmationGate
    by_cases hauto : effectiveConfirmation tool s.policy = .auto
    · rw [if_pos hauto]
      exact ⟨[.executed tool.name inputs], by simp, rfl, rfl, by simp, .inl rfl⟩
    rw [if_neg hauto]
    by_cases honce : effectiveConfirmation tool s.policy = .confirmOnce ∧
        tool.name ∈ s.policy.confirmedOnce
    · rw [if_pos honce]
      exact ⟨[.executed tool.name inputs], by simp, rfl, rfl, by simp, .inl rfl⟩
    rw [if_neg honce]
    cases hprompter : s.policy.prompter with
    | none => exact ⟨[], by simp, rfl, rfl, by simp, .inr ⟨rfl, by simp [refusalTexts]⟩⟩
    | some prompter =>
      simp only []
      cases (prompter tool inputs s.world).1 with
      | false => exact ⟨[], by simp, rfl, rfl, by simp, .inr ⟨rfl, by simp [refusalTexts]⟩⟩
      | true =>
        exact ⟨[.approved tool.name inputs, .executed tool.name inputs], by simp, rfl, rfl, by simp,
          .inl rfl⟩

theorem InTurn.settle (h : InTurn env log history (call :: rest)) {added : List Event}
    (hemitted : emittedCalls added = []) (hsettled : settledCalls added = [])
    (hasked : ∀ h, .asked h ∉ added) {text : String}
    (hcall : callEvents added = [.executed (callInputs env call).1 (callInputs env call).2] ∨
      callEvents added = [] ∧ text ∈ refusalTexts call.name) :
    InTurn env (log ++ added ++ [.settled call text])
      (history ++ [{ role := .tool, content := text, toolCallId := call.id }]) rest where
  calls := by
    have hnone : emittedCalls [.settled call text] = [] := rfl
    have hlast : settledCalls [.settled call text] = [call] := rfl
    simp only [settledCalls_append, emittedCalls_append, hemitted, hsettled, hnone, hlast,
      List.append_nil, List.append_assoc]
    exact h.calls
  answered := by
    have hlast : callEvents [.settled call text] = [.settled call text] := rfl
    rw [callEvents_append, callEvents_append, hlast, List.append_assoc]
    rcases hcall with hran | ⟨hnone, hrefusal⟩
    · rw [hran]
      exact h.answered.ran call text
    · rw [hnone]
      exact h.answered.refused call hrefusal
  asked history hmem := by
    simp only [List.mem_append, List.mem_singleton, reduceCtorEq, or_false] at hmem
    exact hmem.elim (h.asked history) fun hadded => absurd hadded (hasked history)
  room := by
    rw [List.append_assoc]
    exact (paired_congr (a := awaited call)
      (b := { role := .tool, content := text, toolCallId := call.id }) rfl rfl rfl
      history (rest.map awaited)).mp h.room

theorem InTurn.executeCall {s : AgentState ω} (h : InTurn env s.log history (call :: rest)) :
    InTurn env (executeCall env call history s).2.2.log (executeCall env call history s).2.1 rest := by
  obtain ⟨added, hlog, hemitted, hsettled, hasked, hcall⟩ :=
    dispatchTool_log env.registry call.name
      (parseArguments env.parseValueYaml call.argumentsJson) env.context s
  have hsettle := h.settle hemitted hsettled hasked hcall
  rwa [← hlog] at hsettle

/-- An event that neither emits, settles, runs nor asks. -/
theorem InTurn.approved {outstanding : List ToolCall} (h : InTurn env log history outstanding)
    (name : String) (inputs : Value) :
    InTurn env (log ++ [.approved name inputs]) history outstanding where
  calls := by
    rw [settledCalls_append, emittedCalls_append]
    show settledCalls log ++ [] ++ outstanding = emittedCalls log ++ []
    rw [List.append_nil, List.append_nil, h.calls]
  answered := by
    rw [callEvents_append]
    show RanOrRefused env (callEvents log ++ [])
    rw [List.append_nil]
    exact h.answered
  asked history hmem := by
    simp only [List.mem_append, List.mem_singleton, reduceCtorEq, or_false] at hmem
    exact h.asked history hmem
  room := h.room

theorem InTurn.ask (h : InTurn env log history []) :
    OnCourse env (log ++ [.asked history]) [] where
  calls := by
    rw [settledCalls_append, emittedCalls_append]
    show settledCalls log ++ [] ++ [] = emittedCalls log ++ []
    rw [← h.calls]
  answered := by
    rw [callEvents_append]
    show RanOrRefused env (callEvents log ++ [])
    rw [List.append_nil]
    exact h.answered
  asked history' hmem := by
    rcases List.mem_append.mp hmem with hmem | hmem
    · exact h.asked history' hmem
    · obtain rfl := Event.asked.inj (List.mem_singleton.mp hmem)
      have hroom := h.room
      rwa [List.map_nil, List.append_nil] at hroom

theorem OnCourse.emit (h : OnCourse env log []) (hhistory : Paired history) (text : String)
    (calls : List ToolCall) :
    InTurn env (log ++ [.emitted calls])
      (history ++ [{ role := .assistant, content := text, toolCalls := calls }]) calls where
  calls := by
    have hsettled : settledCalls [.emitted calls] = [] := rfl
    have hemitted : emittedCalls [.emitted calls] = calls := List.append_nil calls
    rw [settledCalls_append, emittedCalls_append, hsettled, hemitted, ← h.calls]
  answered := by
    rw [callEvents_append]
    show RanOrRefused env (callEvents log ++ [])
    rw [List.append_nil]
    exact h.answered
  asked history' hmem := by
    simp only [List.mem_append, List.mem_singleton, reduceCtorEq, or_false] at hmem
    exact h.asked history' hmem
  room := by
    rw [List.append_assoc]
    exact paired_emit hhistory text calls

end

/-! ## A batch of calls -/

theorem needsUserDecision_of_prompter (registry : ToolRegistry ω) {policy : ConfirmationPolicy ω}
    (h : policy.prompter.isSome) (name : String) : needsUserDecision registry policy name = false := by
  have hsome : policy.prompter.isNone = false := by
    cases hp : policy.prompter with
    | none => rw [hp] at h; exact nomatch h
    | some => rfl
  unfold needsUserDecision
  split
  · rfl
  · dsimp only
    split_ifs
    · rfl
    · rfl
    · exact hsome

/-- A dispatch does not change which calls wait. -/
theorem Dispatched.needsUserDecision {registry : ToolRegistry ω} {s s' : AgentState ω} {n : String}
    {inputs : Value} (hd : Dispatched registry n inputs s s') (name : String) :
    needsUserDecision registry s'.policy name = needsUserDecision registry s.policy name := by
  cases hd with
  | refused hpolicy | free _ _ _ hpolicy | confirmed _ _ _ _ hpolicy => rw [hpolicy]
  | approved _ _ _ _ hprompter =>
    have hsome' : s'.policy.prompter.isSome := by rw [hprompter.2]; exact hprompter.1
    rw [needsUserDecision_of_prompter registry hprompter.1,
      needsUserDecision_of_prompter registry hsome']

/-- The loop over a batch stops at the call. -/
def stopsAt (env : Env ω) (options : AgentOptions) (policy : ConfirmationPolicy ω) (call : ToolCall) :
    Bool :=
  options.suspendOnConfirmation && needsUserDecision env.registry policy call.name

/-- How the loop over a batch ends: at its end, or at the first call it stops at. -/
inductive BatchEnds (env : Env ω) (options : AgentOptions)
    (queuedBehind : ToolCall → List ToolCall → List ToolCall) (policy : ConfirmationPolicy ω)
    (calls : List ToolCall) : Batch ω → Prop
  | done {step : AgentStep} {history : List ChatMessage} {s : AgentState ω}
    (hcalls : ∀ call ∈ calls, stopsAt env options policy call = false)
    (h : InTurn env s.log history []) :
    BatchEnds env options queuedBehind policy calls (.done step history s)
  | suspended {step : AgentStep} {history : List ChatMessage} {s : AgentState ω}
    {before : List ToolCall} {call : ToolCall} {after : List ToolCall}
    (hcalls : calls = before ++ call :: after)
    (hbefore : ∀ c ∈ before, stopsAt env options policy c = false)
    (hcall : stopsAt env options policy call) (h : InTurn env s.log history (call :: after)) :
    BatchEnds env options queuedBehind policy calls
      (.suspended ⟨call.name, call.argumentsJson, call.id, queuedBehind call after⟩ step history s)

theorem InTurn.runCalls {env : Env ω} (options : AgentOptions)
    (queuedBehind : ToolCall → List ToolCall → List ToolCall) {calls : List ToolCall}
    {step : AgentStep} {history : List ChatMessage} {s : AgentState ω}
    (h : InTurn env s.log history calls) :
    BatchEnds env options queuedBehind s.policy calls
      (runCalls env options queuedBehind calls step history s) := by
  induction calls generalizing step history s with
  | nil => exact .done (fun _ hc => nomatch hc) h
  | cons call rest ih =>
    rw [Ai.runCalls]
    split_ifs with hstop
    · exact .suspended (List.nil_append _).symm (fun _ hc => nomatch hc) hstop h
    · have hstop' : stopsAt env options s.policy call = false := by simpa [stopsAt] using hstop
      -- the calls that wait are the same after this one has run
      have hsame : ∀ c, stopsAt env options (Ai.executeCall env call history s).2.2.policy c =
          stopsAt env options s.policy c := fun c =>
        congrArg (options.suspendOnConfirmation && ·)
          ((dispatchTool_cases env.registry call.name
            (parseArguments env.parseValueYaml call.argumentsJson) env.context s).needsUserDecision
            c.name)
      have hrest := fun step => @ih step _ _ h.executeCall
      dsimp only
      generalize hstep : ({ step with toolCalls := _ } : AgentStep) = step'
      generalize hbatch : Ai.runCalls env options queuedBehind rest step' _ _ = batch
      have hrest := hbatch ▸ hrest step'
      cases hrest with
      | done hcalls hend =>
        refine .done ?_ hend
        intro c hc
        rcases List.mem_cons.mp hc with rfl | hc
        · exact hstop'
        · rw [← hsame]
          exact hcalls c hc
      | suspended hcalls hbefore hcall hend =>
        rw [hsame] at hcall
        refine .suspended ((congrArg (call :: ·) hcalls).trans (List.cons_append ..).symm) ?_ hcall
          hend
        intro c hc
        rcases List.mem_cons.mp hc with rfl | hc
        · exact hstop'
        · rw [← hsame]
          exact hbefore c hc

/-! ## Turns -/

/-- The calls that an outcome leaves waiting. -/
def AgentOutcome.outstanding (outcome : AgentOutcome) : List ToolCall :=
  if outcome.stopReason = .awaitingConfirmation then outcome.pending.call :: outcome.pending.queued
  else []

@[simp] theorem recordBudget_log (context : ToolContext ω) (response : ChatResponse)
    (s : AgentState ω) : (recordBudget context response s).log = s.log := by
  unfold recordBudget
  split
  · rfl
  · split <;> rfl

@[simp] theorem ask_log (env : Env ω) (options : AgentOptions) (history : List ChatMessage)
    (s : AgentState ω) : (ask env options history s).2.log = s.log ++ [.asked history] := rfl

section

variable {env : Env ω} {s : AgentState ω} {history : List ChatMessage}

/-- The rounds of the loop stay on course, and the outcome's history has room for what it leaves
waiting. -/
theorem InTurn.runLoopFrom (options : AgentOptions) (n : ℕ) (step : UInt32) {outcome : AgentOutcome}
    (houtcome : Paired outcome.history) (h : InTurn env s.log history []) :
    InTurn env (runLoopFrom env options n step outcome history s).2.log
      (runLoopFrom env options n step outcome history s).1.history
      (runLoopFrom env options n step outcome history s).1.outstanding := by
  induction n generalizing step outcome history s with
  | zero => exact h
  | succ n ih =>
    have hasked := h.ask
    have hpaired : Paired history := by
      have hroom := h.room
      rwa [List.map_nil, List.append_nil] at hroom
    rw [Ai.runLoopFrom]
    rcases hask : Ai.ask env options history s with ⟨err | response, s'⟩
    all_goals
      have hlog : s'.log = s.log ++ [.asked history] := by
        rw [← ask_log env options history s, hask]
      rw [← hlog] at hasked
      dsimp only
    · exact ⟨hasked, by simpa [AgentOutcome.outstanding] using houtcome⟩
    · split_ifs with hempty
      · refine ⟨?_, ?_⟩
        · rw [recordBudget_log]
          exact hasked
        · rw [AgentOutcome.outstanding, if_neg (by simp), List.map_nil, List.append_nil]
          exact (paired_append_of_not_tool (by simp) history []).mpr
            ⟨hpaired, fun _ hne => absurd rfl hne, trivial⟩
      · have hemit := hasked.emit hpaired response.text response.toolCalls
        rw [← recordBudget_log env.context response s'] at hemit
        have hbatch := @InTurn.runCalls _ env options queuedInRun _
          { assistantText := response.text, latency := response.latency } _
          ((Ai.recordBudget env.context response s').record (.emitted response.toolCalls)) hemit
        generalize Ai.runCalls env options queuedInRun response.toolCalls _ _ _ = batch at hbatch ⊢
        cases hbatch with
        | done _ hend => exact ih _ houtcome hend
        | suspended _ _ _ hend => exact hend

theorem InTurn.runLoop (options : AgentOptions) (h : InTurn env s.log history []) :
    InTurn env (runLoop env history options s).2.log (runLoop env history options s).1.history
      (runLoop env history options s).1.outstanding :=
  h.runLoopFrom options _ _ trivial

theorem inTurn_runAgentTurn (env : Env ω) (messages : Conversation) (options : AgentOptions)
    {s : AgentState ω} (hs : s.log = []) :
    InTurn env (runAgentTurn env messages.1 options s).2.log
      (runAgentTurn env messages.1 options s).1.history
      (runAgentTurn env messages.1 options s).1.outstanding := by
  refine InTurn.runLoop options ⟨⟨?_, ?_, ?_⟩, ?_⟩
  · rw [hs]; rfl
  · rw [hs]; exact .none
  · rw [hs]; exact fun _ hmem => nomatch hmem
  · rw [List.map_nil, List.append_nil]
    exact ⟨nofun, messages.2⟩

/-! ## Resuming -/

/-- The policy once the pending call is settled. -/
def decided (name : String) (approved : Bool) (policy : ConfirmationPolicy ω) :
    ConfirmationPolicy ω :=
  if approved then unoverride name (approve name policy) else policy

theorem settlePending_policy (env : Env ω) (pending : PendingConfirmation) (approved : Bool)
    (history : List ChatMessage) (s : AgentState ω) :
    (settlePending env pending approved history s).2.2.policy =
      decided pending.toolName approved s.policy := by
  cases approved with
  | false => rfl
  | true =>
    generalize hstate : ({ s.record (.approved pending.toolName
          (parseArguments env.parseValueYaml pending.argumentsJson)) with
        policy := approve pending.toolName s.policy } : AgentState ω) = s'
    have hpolicy : s'.policy = approve pending.toolName s.policy := by rw [← hstate]
    have hsame : (executeCall env pending.call history s').2.2.policy = s'.policy := by
      cases dispatchTool_cases env.registry pending.toolName
        (parseArguments env.parseValueYaml pending.argumentsJson) env.context s' with
      | refused h | free _ _ _ h | confirmed _ _ _ _ h => exact h
      | approved tool hfind hlevel =>
        rw [effectiveConfirmation, hpolicy, ToolRegistry.find_name hfind] at hlevel
        exact absurd (by simp [approve]) hlevel
    show unoverride _ (executeCall env pending.call history { s.record _ with
      policy := approve pending.toolName s.policy }).2.2.policy = _
    rw [hstate, hsame, hpolicy]
    rfl

theorem InTurn.settlePending {pending : PendingConfirmation} (approved : Bool)
    {rest : List ToolCall} (h : InTurn env s.log history (pending.call :: rest)) :
    InTurn env (settlePending env pending approved history s).2.2.log
      (settlePending env pending approved history s).2.1 rest := by
  cases approved with
  | false =>
    have hrefusal : "error [DENIED]: the user declined to run '" ++ pending.toolName ++ "'" ∈
        refusalTexts pending.call.name := by
      simp [refusalTexts, PendingConfirmation.call]
    have hsettle := @InTurn.settle _ _ _ _ _ _ h [] rfl rfl (fun _ hmem => nomatch hmem) _
      (.inr ⟨rfl, hrefusal⟩)
    rwa [List.append_nil] at hsettle
  | true =>
    have happroved := h.approved pending.toolName
      (parseArguments env.parseValueYaml pending.argumentsJson)
    exact happroved.executeCall

end

theorem afterId_eq_iff (before : List ToolCall) (call : ToolCall) (after : List ToolCall) :
    afterId call.id (before ++ call :: after) = after ↔ call.id ∉ before.map (·.id) := by
  induction before with
  | nil => simp [afterId]
  | cons c before ih =>
    rw [List.cons_append, afterId, List.map_cons, List.mem_cons, not_or]
    split_ifs with hid
    · constructor
      · intro h
        have hlen := congrArg List.length h
        rw [List.length_append, List.length_cons] at hlen
        omega
      · intro h
        exact absurd hid.symm h.1
    · rw [ih]
      exact ⟨fun h => ⟨fun heq => hid heq.symm, h⟩, And.right⟩

/-- The agent and the outcome of its last call. The log is that of the current turn. -/
structure TurnSession (ω : Type) where
  agent : AgentState ω
  outcome : AgentOutcome := {}

/-- A new turn, or the user's answer to the call that waits. -/
inductive TurnCall
  | run (messages : Conversation) (options : AgentOptions)
  | resume (approved : Bool) (options : AgentOptions)

/-- A new turn drops whatever was waiting; there is nothing to resume unless a call waits. -/
def turnStep (env : Env ω) (session : TurnSession ω) : TurnCall → TurnSession ω
  | .run messages options =>
    let (outcome, agent) := runAgentTurn env messages.1 options { session.agent with log := [] }
    ⟨agent, outcome⟩
  | .resume approved options =>
    if session.outcome.stopReason = .awaitingConfirmation then
      let (outcome, agent) := resumeAgentTurn env session.outcome.history session.outcome.pending
        approved options session.agent
      ⟨agent, outcome⟩
    else session

/-- The queued call the resume would stop at has an id that no call queued before it has. -/
def StopsAtFreshId (env : Env ω) (session : TurnSession ω) : TurnCall → Prop
  | .run _ _ => True
  | .resume approved options =>
    session.outcome.stopReason = .awaitingConfirmation →
      let pending := session.outcome.pending
      let stops := stopsAt env options (decided pending.toolName approved session.agent.policy)
      ∀ before call after, pending.queued = before ++ call :: after →
        (∀ c ∈ before, stops c = false) → stops call → call.id ∉ before.map (·.id)

theorem firstStop_unique {stops : ToolCall → Bool} {before before' after after' : List ToolCall}
    {call call' : ToolCall} (heq : before ++ call :: after = before' ++ call' :: after')
    (hbefore : ∀ c ∈ before, stops c = false) (hbefore' : ∀ c ∈ before', stops c = false)
    (hcall : stops call) (hcall' : stops call') :
    before = before' ∧ call = call' ∧ after = after' := by
  induction before generalizing before' with
  | nil =>
    cases before' with
    | nil =>
      obtain ⟨hhead, htail⟩ := List.cons.inj heq
      exact ⟨rfl, hhead, htail⟩
    | cons c before' =>
      obtain ⟨rfl, -⟩ := List.cons.inj heq
      rw [hbefore' call List.mem_cons_self] at hcall
      exact nomatch hcall
  | cons c before ih =>
    cases before' with
    | nil =>
      obtain ⟨rfl, -⟩ := List.cons.inj heq
      rw [hbefore c List.mem_cons_self] at hcall'
      exact nomatch hcall'
    | cons c' before' =>
      obtain ⟨rfl, htail⟩ := List.cons.inj heq
      obtain ⟨rfl, hrest⟩ := ih htail (fun x hx => hbefore x (List.mem_cons_of_mem _ hx))
        fun x hx => hbefore' x (List.mem_cons_of_mem _ hx)
      exact ⟨rfl, hrest⟩

/-- The session between two calls. -/
def Settled (env : Env ω) (session : TurnSession ω) : Prop :=
  InTurn env session.agent.log session.outcome.history session.outcome.outstanding

/-- After the call, what was emitted in this turn is what ran or was refused and what is waiting, and the
histories of the turn were paired. -/
def StaysOnCourse (env : Env ω) (session : TurnSession ω) (call : TurnCall) : Prop :=
  OnCourse env (turnStep env session call).agent.log (turnStep env session call).outcome.outstanding

theorem Settled.step {env : Env ω} {session : TurnSession ω} (h : Settled env session)
    (call : TurnCall) :
    (StaysOnCourse env session call ↔ StopsAtFreshId env session call) ∧
      (StaysOnCourse env session call → Settled env (turnStep env session call)) := by
  cases call with
  | run messages options =>
    have hturn := inTurn_runAgentTurn env messages options
      (s := { session.agent with log := [] }) rfl
    exact ⟨⟨fun _ => trivial, fun _ => hturn.toOnCourse⟩, fun _ => hturn⟩
  | resume approved options =>
    by_cases hwaits : session.outcome.stopReason = .awaitingConfirmation
    · unfold Settled at h
      rw [AgentOutcome.outstanding, if_pos hwaits] at h
      have hsettled := h.settlePending approved
      have hbatch := @InTurn.runCalls _ env options
        (queuedInResume session.outcome.pending.queued) _
        { toolCalls := [(Ai.settlePending env session.outcome.pending approved
          session.outcome.history session.agent).1] } _ _ hsettled
      rw [settlePending_policy] at hbatch
      have hstep : turnStep env session (.resume approved options) =
          ⟨(resumeAgentTurn env session.outcome.history session.outcome.pending approved options
              session.agent).2,
            (resumeAgentTurn env session.outcome.history session.outcome.pending approved options
              session.agent).1⟩ := if_pos hwaits
      unfold StaysOnCourse Settled StopsAtFreshId
      rw [hstep]
      unfold resumeAgentTurn
      dsimp only
      generalize runCalls env options _ _ _ _ _ = batch at hbatch ⊢
      cases hbatch with
      | done hcalls hend =>
        have hloop := hend.runLoop (continued options)
        refine ⟨⟨fun _ _ before call after hqueued _ hcall => ?_, fun _ => hloop.toOnCourse⟩,
          fun _ => hloop⟩
        rw [hcalls call (by rw [hqueued]; simp)] at hcall
        exact nomatch hcall
      | suspended hcalls hbefore hcall hend =>
        rename_i before call after
        have hqueue : AgentOutcome.outstanding
            { stopReason := .awaitingConfirmation
              pending := ⟨call.name, call.argumentsJson, call.id,
                queuedInResume session.outcome.pending.queued call after⟩ } =
            call :: afterId call.id (before ++ call :: after) := by rw [← hcalls]; rfl
        have honCourse : OnCourse env _ (call :: afterId call.id (before ++ call :: after)) →
            afterId call.id (before ++ call :: after) = after := fun hon =>
          (List.cons.inj (List.append_cancel_left (hon.calls.trans hend.calls.symm))).2
        unfold AgentOutcome.outstanding at hqueue ⊢
        rw [hqueue]
        refine ⟨⟨fun hon _ before' call' after' hqueued hbefore' hcall' => ?_, fun hfresh => ?_⟩,
          fun hon => ?_⟩
        · obtain ⟨rfl, rfl, rfl⟩ :=
            firstStop_unique (hcalls.symm.trans hqueued) hbefore hbefore' hcall hcall'
          exact (afterId_eq_iff before call after).mp (honCourse hon)
        · rw [(afterId_eq_iff before call after).mpr
            (hfresh hwaits before call after hcalls hbefore hcall)]
          exact hend.toOnCourse
        · rw [honCourse hon]
          exact hend
    · have hstep : turnStep env session (.resume approved options) = session := if_neg hwaits
      unfold StaysOnCourse
      rw [hstep]
      exact ⟨⟨fun _ hw => absurd hw hwaits, fun _ => h.toOnCourse⟩, fun _ => h⟩

/-- **Tool-call pairing.** A session of turns and resumes stays on course through every call exactly
when every resume that suspends again stops at a call whose id no call queued before it has. -/
theorem turns_on_course_iff (env : Env ω) (world : ω) (policy : ConfirmationPolicy ω)
    (calls : List TurnCall) :
    Along (turnStep env) (fun _ session call => StaysOnCourse env session call) []
        ⟨⟨world, policy, []⟩, {}⟩ calls ↔
      Along (turnStep env) (fun _ session call => StopsAtFreshId env session call) []
        ⟨⟨world, policy, []⟩, {}⟩ calls := by
  have hstart : Settled env (⟨⟨world, policy, []⟩, {}⟩ : TurnSession ω) :=
    ⟨⟨rfl, .none, fun _ hmem => nomatch hmem⟩, trivial⟩
  constructor
  · exact Along.of_invariant (P := fun _ session => Settled env session)
      (fun _ _ call h hon => (h.step call).2 hon)
      (fun _ _ call h hon => (h.step call).1.mp hon) hstart
  · exact Along.of_invariant (P := fun _ session => Settled env session)
      (fun _ _ call h hfresh => (h.step call).2 ((h.step call).1.mpr hfresh))
      (fun _ _ call h hfresh => (h.step call).1.mpr hfresh) hstart

/-! ## A repeated id -/

/-- A model whose first message calls a guarded tool, a free one and the guarded one again, with one
id for the last two. -/
def repeatedIdEnv : Env ℕ where
  registry :=
    (ToolRegistry.add { name := "mesh", handler := fun _ n => (.ok { summary := "meshed" }, n) } .empty).add
      { name := "solve", confirmation := .confirmAlways
        handler := fun _ n => (.ok { summary := "solved" }, n) }
  provider _ n :=
    if n = 0 then
      (.ok { toolCalls := [⟨"a", "solve", ""⟩, ⟨"b", "mesh", ""⟩, ⟨"b", "solve", ""⟩] }, 1)
    else (.ok { text := "done" }, n + 1)
  parseValueYaml _ := none

def pausingOptions : AgentOptions :=
  { model := "m", systemPrompt := "s", suspendOnConfirmation := true }

/-- The user approves whatever is asked. -/
def approvals : List TurnCall :=
  [.run ⟨[], trivial⟩ pausingOptions, .resume true pausingOptions, .resume true pausingOptions,
    .resume true pausingOptions]

/-- The second `solve` is settled twice. -/
theorem repeated_id_settled_twice :
    let session := run (turnStep repeatedIdEnv) ⟨⟨0, {}, []⟩, {}⟩ approvals
    ¬ OnCourse repeatedIdEnv session.agent.log session.outcome.outstanding := by
  intro session h
  have htwice : (settledCalls session.agent.log).length = 4 := rfl
  have honce : (emittedCalls session.agent.log).length = 3 := rfl
  have hlen := congrArg List.length h.calls
  rw [List.length_append, htwice, honce] at hlen
  omega

end Souxmar.Ai
