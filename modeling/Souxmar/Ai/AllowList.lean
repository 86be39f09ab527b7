import Souxmar.Ai.Confirmation
import Souxmar.Ai.Pairing

/-!
# The allow-list of a turn

`allowed_tools` restricts what `build_tool_definitions` advertises. `execute_call` does not look at it, so
what holds the tools outside the list back, if anything, is the confirmation gate.
-/

namespace Souxmar.Ai

open Souxmar.Lib Souxmar.Pipeline

variable {ω : Type}

/-! ## Turns -/

/-- A turn before the first answer of the user. -/
def startTurn (env : Env ω) (messages : List ChatMessage) (options : AgentOptions) (s : AgentState ω) :
    TurnSession ω :=
  let (outcome, agent) := runAgentTurn env messages options s
  ⟨agent, outcome⟩

/-- A turn with the answers to what it asks. A resume is given the options of the turn and a count of the
steps already used. -/
def turnWith (env : Env ω) (messages : List ChatMessage) (options : AgentOptions) (s : AgentState ω)
    (decisions : List (Bool × UInt32)) : TurnSession ω :=
  run (turnStep env) (startTurn env messages options s)
    (decisions.map fun d => .resume d.1 { options with stepsAlreadyUsed := d.2 })

/-- Only tools of the list ran. -/
def OnlyListed (allowed : List String) (log : List Event) : Prop :=
  ∀ name inputs, .executed name inputs ∈ log → name ∈ allowed

/-- The policy refuses the tool, whatever it is called with. -/
structure Barred (parseValueYaml : String → Option Value) (policy : ConfirmationPolicy ω) (tool : Tool ω) :
    Prop where
  guarded : effectiveConfirmation tool policy ≠ .auto
  unconfirmed : effectiveConfirmation tool policy = .confirmOnce → tool.name ∉ policy.confirmedOnce
  declined : ∀ prompter, policy.prompter = some prompter → ∀ json world,
    (prompter tool (parseArguments parseValueYaml json) world).1 = false

/-- Every tool outside the list is refused, and the user is not asked about it in a resume. -/
def Fenced (registry : ToolRegistry ω) (parseValueYaml : String → Option Value) (allowed : List String)
    (suspends : Bool) (policy : ConfirmationPolicy ω) : Prop :=
  ∀ name tool, registry.find name = some tool → name ∉ allowed →
    Barred parseValueYaml policy tool ∧ (suspends = true → policy.prompter.isSome = true)

/-! ## Behind the fence -/

section

variable {registry : ToolRegistry ω} {parse : String → Option Value} {s s' : AgentState ω} {name : String}
  {inputs : Value}

theorem Dispatched.prompter (hd : Dispatched registry name inputs s s') :
    s'.policy.prompter = s.policy.prompter := by
  cases hd with
  | refused hpolicy | free _ _ _ hpolicy | confirmed _ _ _ _ hpolicy => rw [hpolicy]
  | approved _ _ _ _ hprompter => exact hprompter.2

theorem Dispatched.confirmedOnce (hd : Dispatched registry name inputs s s') :
    s'.policy.confirmedOnce ⊆ insert name s.policy.confirmedOnce := by
  cases hd with
  | refused hpolicy | free _ _ _ hpolicy | confirmed _ _ _ _ hpolicy =>
    rw [hpolicy]
    exact Finset.subset_insert _ _
  | approved _ _ _ _ _ honce => exact honce

/-- Another tool stays barred. -/
theorem Barred.dispatched {tool : Tool ω} (h : Barred parse s.policy tool)
    (hd : Dispatched registry name inputs s s') (hne : tool.name ≠ name) :
    Barred parse s'.policy tool := by
  have hlevel : effectiveConfirmation tool s'.policy = effectiveConfirmation tool s.policy :=
    effectiveConfirmation_congr tool (by rw [hd.overrides])
  refine ⟨by rw [hlevel]; exact h.guarded, fun honce hmem => ?_, ?_⟩
  · rw [hlevel] at honce
    rcases Finset.mem_insert.mp (hd.confirmedOnce hmem) with heq | hmem
    · exact hne heq
    · exact h.unconfirmed honce hmem
  · rw [hd.prompter]
    exact h.declined

theorem Barred.refused {tool : Tool ω} (h : Barred parse s.policy tool)
    (hfind : registry.find name = some tool) (json : String) (context : ToolContext ω) :
    (dispatchTool registry name (parseArguments parse json) context s).2.policy = s.policy ∧
      (dispatchTool registry name (parseArguments parse json) context s).2.log = s.log := by
  have hgate : ¬(effectiveConfirmation tool s.policy = .confirmOnce ∧
      tool.name ∈ s.policy.confirmedOnce) := fun hboth => h.unconfirmed hboth.1 hboth.2
  unfold dispatchTool confirmationGate
  rw [hfind]
  dsimp only
  rw [if_neg h.guarded, if_neg hgate]
  cases hprompter : s.policy.prompter with
  | none => simp
  | some prompter =>
    have hno := h.declined prompter hprompter json s.world
    simp [hno]

theorem OnlyListed.snoc {allowed : List String} {log : List Event} (h : OnlyListed allowed log) {e : Event}
    (he : ∀ name inputs, e ≠ .executed name inputs) : OnlyListed allowed (log ++ [e]) := by
  intro name inputs hmem
  rcases List.mem_append.mp hmem with hmem | hmem
  · exact h name inputs hmem
  · exact absurd (List.mem_singleton.mp hmem).symm (he name inputs)

theorem OnlyListed.dispatched {allowed : List String} (h : OnlyListed allowed s.log)
    (hd : Dispatched registry name inputs s s') (hname : name ∈ allowed) : OnlyListed allowed s'.log := by
  have hexecuted : ∀ log : List Event, OnlyListed allowed log →
      OnlyListed allowed (log ++ [.executed name inputs]) := by
    intro log hlog other inputs' hmem
    rcases List.mem_append.mp hmem with hmem | hmem
    · exact hlog other inputs' hmem
    · obtain ⟨rfl, -⟩ := Event.executed.inj (List.mem_singleton.mp hmem)
      exact hname
  cases hd with
  | refused _ hlog => rw [hlog]; exact h
  | free _ _ _ _ hlog | confirmed _ _ _ _ _ hlog => rw [hlog]; exact hexecuted _ h
  | approved _ _ _ _ _ _ hlog =>
    have happroved : OnlyListed allowed (s.log ++ [.approved name inputs]) := h.snoc fun _ _ => nofun
    have hboth := hexecuted _ happroved
    rw [List.append_assoc] at hboth
    rw [hlog]
    exact hboth

/-- A tool outside the list does nothing. -/
theorem Fenced.outside {allowed : List String} {suspends : Bool}
    (h : Fenced registry parse allowed suspends s.policy) (hout : name ∉ allowed) (json : String)
    (context : ToolContext ω) :
    (dispatchTool registry name (parseArguments parse json) context s).2.policy = s.policy ∧
      (dispatchTool registry name (parseArguments parse json) context s).2.log = s.log := by
  cases hfind : registry.find name with
  | none =>
    unfold dispatchTool
    rw [hfind]
    simp
  | some tool => exact (h name tool hfind hout).1.refused hfind json context

end

/-- The state of a turn whose list has been enforced. -/
structure Enforced (env : Env ω) (allowed : List String) (suspends : Bool) (s : AgentState ω) : Prop where
  fenced : Fenced env.registry env.parseValueYaml allowed suspends s.policy
  listed : OnlyListed allowed s.log

theorem kept_enforced (env : Env ω) (allowed : List String) (suspends : Bool) :
    Kept env (Enforced env allowed suspends) where
  world _ _ h := ⟨h.fenced, h.listed⟩
  asked _ _ h := ⟨h.fenced, h.listed.snoc fun _ _ => nofun⟩
  emitted _ _ h := ⟨h.fenced, h.listed.snoc fun _ _ => nofun⟩
  call call history s h := by
    have hd := dispatchTool_cases env.registry call.name
      (parseArguments env.parseValueYaml call.argumentsJson) env.context s
    have hdispatched : Enforced env allowed suspends (dispatchTool env.registry call.name
        (parseArguments env.parseValueYaml call.argumentsJson) env.context s).2 := by
      by_cases hname : call.name ∈ allowed
      · refine ⟨fun name tool hfind hout => ?_, h.listed.dispatched hd hname⟩
        obtain ⟨hbarred, hprompter⟩ := h.fenced name tool hfind hout
        have hne : tool.name ≠ call.name := by
          rw [ToolRegistry.find_name hfind]
          exact fun heq => hout (heq ▸ hname)
        exact ⟨hbarred.dispatched hd hne, fun hsuspends => by rw [hd.prompter]; exact hprompter hsuspends⟩
      · obtain ⟨hpolicy, hlog⟩ := h.fenced.outside hname call.argumentsJson env.context
        exact ⟨by rw [hpolicy]; exact h.fenced, by rw [hlog]; exact h.listed⟩
    exact ⟨hdispatched.fenced, hdispatched.listed.snoc fun _ _ => nofun⟩

/-! ## Suspension -/

section

variable {env : Env ω} {options : AgentOptions}

theorem prompter_of_needsUserDecision {registry : ToolRegistry ω} {policy : ConfirmationPolicy ω}
    {name : String} (h : needsUserDecision registry policy name = true) : policy.prompter = none := by
  by_contra hsome
  have hprompter : policy.prompter.isSome = true := Option.isSome_iff_ne_none.mpr hsome
  rw [needsUserDecision_of_prompter registry hprompter] at h
  exact nomatch h

theorem runCalls_suspended {queuedBehind : ToolCall → List ToolCall → List ToolCall}
    {calls : List ToolCall} {step step' : AgentStep} {history history' : List ChatMessage}
    {s s' : AgentState ω} {pending : PendingConfirmation}
    (h : runCalls env options queuedBehind calls step history s = .suspended pending step' history' s') :
    options.suspendOnConfirmation = true ∧ s'.policy.prompter = none := by
  induction calls generalizing step history s with
  | nil => exact nomatch h
  | cons call rest ih =>
    rw [runCalls] at h
    split_ifs at h with hstop
    · obtain ⟨-, -, -, rfl⟩ := Batch.suspended.inj h
      rw [Bool.and_eq_true] at hstop
      exact ⟨hstop.1, prompter_of_needsUserDecision hstop.2⟩
    · exact ih h

theorem runLoopFrom_awaiting {n : ℕ} {step : UInt32} {outcome : AgentOutcome}
    {history : List ChatMessage} {s : AgentState ω}
    (h : (runLoopFrom env options n step outcome history s).1.stopReason = .awaitingConfirmation) :
    options.suspendOnConfirmation = true ∧
      (runLoopFrom env options n step outcome history s).2.policy.prompter = none := by
  induction n generalizing step outcome history s with
  | zero => cases h
  | succ n ih =>
    rw [runLoopFrom] at h ⊢
    rcases hask : ask env options history s with ⟨err | response, s'⟩ <;> rw [hask] at h <;>
      dsimp only at h ⊢
    · cases h
    · by_cases hempty : response.toolCalls.isEmpty = true
      · rw [if_pos hempty] at h
        cases h
      · rw [if_neg hempty] at h ⊢
        generalize hbatch : runCalls env options queuedInRun response.toolCalls _ _ _ = batch at h ⊢
        cases batch with
        | done record history s => exact ih h
        | suspended pending record history s => exact runCalls_suspended hbatch

theorem resumeAgentTurn_awaiting {history : List ChatMessage} {pending : PendingConfirmation}
    {approved : Bool} {s : AgentState ω}
    (h : (resumeAgentTurn env history pending approved options s).1.stopReason = .awaitingConfirmation) :
    options.suspendOnConfirmation = true ∧
      (resumeAgentTurn env history pending approved options s).2.policy.prompter = none := by
  unfold resumeAgentTurn at h ⊢
  dsimp only at h ⊢
  generalize hbatch : runCalls env options _ _ _ _ _ = batch at h ⊢
  cases batch with
  | done step history s => exact runLoopFrom_awaiting h
  | suspended pending step history s => exact runCalls_suspended hbatch

end

/-- Where something is fenced off, no call waits for the user. -/
theorem Fenced.prompter {registry : ToolRegistry ω} {parse : String → Option Value} {allowed : List String}
    {policy : ConfirmationPolicy ω} (h : Fenced registry parse allowed true policy)
    (hnone : policy.prompter = none) {name : String} {tool : Tool ω}
    (hfind : registry.find name = some tool) : name ∈ allowed := by
  by_contra hout
  have hsome := (h name tool hfind hout).2 rfl
  rw [hnone] at hsome
  exact nomatch hsome

/-- The turn between two answers. -/
structure TurnEnforced (env : Env ω) (options : AgentOptions) (session : TurnSession ω) : Prop where
  state : Enforced env options.allowedTools options.suspendOnConfirmation session.agent
  waits : session.outcome.stopReason = .awaitingConfirmation →
    options.suspendOnConfirmation = true ∧ session.agent.policy.prompter = none

theorem turnEnforced_start {env : Env ω} {options : AgentOptions} {s : AgentState ω}
    (h : Enforced env options.allowedTools options.suspendOnConfirmation s) (messages : List ChatMessage) :
    TurnEnforced env options (startTurn env messages options s) :=
  ⟨(kept_enforced env _ _).runAgentTurn options messages h, runLoopFrom_awaiting⟩

theorem TurnEnforced.all_listed {env : Env ω} {options : AgentOptions} {session : TurnSession ω}
    (h : TurnEnforced env options session)
    (hwaits : session.outcome.stopReason = .awaitingConfirmation) (name : String) (tool : Tool ω)
    (hfind : env.registry.find name = some tool) : name ∈ options.allowedTools := by
  obtain ⟨hsuspends, hnone⟩ := h.waits hwaits
  have hfenced := h.state.fenced
  rw [hsuspends] at hfenced
  exact hfenced.prompter hnone hfind

theorem TurnEnforced.settlePending {env : Env ω} {options : AgentOptions} {session : TurnSession ω}
    (h : TurnEnforced env options session)
    (hwaits : session.outcome.stopReason = .awaitingConfirmation) (approved : Bool) :
    Enforced env options.allowedTools options.suspendOnConfirmation
      (settlePending env session.outcome.pending approved session.outcome.history session.agent).2.2 := by
  have hall := h.all_listed hwaits
  refine ⟨fun name tool hfind hout => absurd (hall name tool hfind) hout, ?_⟩
  cases approved with
  | false => exact h.state.listed.snoc fun _ _ => nofun
  | true =>
    set called : AgentState ω :=
      { session.agent.record (.approved session.outcome.pending.toolName
          (parseArguments env.parseValueYaml session.outcome.pending.argumentsJson)) with
        policy := approve session.outcome.pending.toolName session.agent.policy }
    have hcalled : Enforced env options.allowedTools options.suspendOnConfirmation called :=
      ⟨fun name tool hfind hout => absurd (hall name tool hfind) hout,
        h.state.listed.snoc fun _ _ => nofun⟩
    exact ((kept_enforced env _ _).call session.outcome.pending.call session.outcome.history called
      hcalled).listed

theorem TurnEnforced.resume {env : Env ω} {options : AgentOptions} {session : TurnSession ω}
    (h : TurnEnforced env options session) (decision : Bool × UInt32) :
    TurnEnforced env options
      (turnStep env session (.resume decision.1 { options with stepsAlreadyUsed := decision.2 })) := by
  rw [turnStep]
  split_ifs with hwaits
  · exact ⟨(kept_enforced env _ _).resumeAgentTurn _ _ _ _ (h.settlePending hwaits decision.1),
      resumeAgentTurn_awaiting⟩
  · exact h

/-! ## Through the fence -/

/-- A model that calls one tool, always. -/
def insisting (name json : String) (world : ω) : Provider ω := fun _ _ =>
  (.ok { toolCalls := [⟨"", name, json⟩] }, world)

theorem kept_mem (env : Env ω) (e : Event) : Kept env fun s => e ∈ s.log where
  world _ _ h := h
  asked _ _ h := List.mem_append_left _ h
  emitted _ _ h := List.mem_append_left _ h
  call call _ s h := by
    have hd := dispatchTool_cases env.registry call.name
      (parseArguments env.parseValueYaml call.argumentsJson) env.context s
    have hmem : e ∈ (dispatchTool env.registry call.name
        (parseArguments env.parseValueYaml call.argumentsJson) env.context s).2.log := by
      cases hd with
      | refused _ hlog => rw [hlog]; exact h
      | free _ _ _ _ hlog | confirmed _ _ _ _ _ hlog | approved _ _ _ _ _ _ hlog =>
        rw [hlog]
        exact List.mem_append_left _ h
    exact List.mem_append_left _ hmem

section

variable {registry : ToolRegistry ω} {context : ToolContext ω} {parse : String → Option Value}
  {options : AgentOptions} {name json : String} {tool : Tool ω} {w : ω}

theorem executed_of_gate {s : AgentState ω} {inputs : Value} (hfind : registry.find name = some tool)
    (hgate : (confirmationGate tool inputs s).1 = none) :
    .executed name inputs ∈ (dispatchTool registry name inputs context s).2.log := by
  unfold dispatchTool
  rw [hfind]
  rcases hout : confirmationGate tool inputs s with ⟨refusal, s'⟩
  rw [hout] at hgate
  subst hgate
  dsimp only
  rw [hout]
  simp [ToolRegistry.find_name hfind]

theorem recordBudget_idle (calls : List ToolCall) (s : AgentState ω) :
    recordBudget context { toolCalls := calls } s = s := by
  unfold recordBudget
  split
  · rfl
  · simp

theorem maxSteps_pos (maxSteps : UInt32) : ∃ n, (if maxSteps = 0 then 1 else maxSteps).toNat = n + 1 := by
  refine Nat.exists_eq_succ_of_ne_zero fun hzero => ?_
  split_ifs at hzero with h
  · exact nomatch hzero
  · exact h (UInt32.toNat_inj.mp hzero)

theorem needsUserDecision_of_gate {s : AgentState ω} {inputs : Value}
    (hfind : registry.find name = some tool) (hgate : (confirmationGate tool inputs s).1 = none) :
    needsUserDecision registry s.policy name = false := by
  have hname := ToolRegistry.find_name hfind
  subst hname
  unfold confirmationGate effectiveConfirmation at hgate
  unfold needsUserDecision
  rw [hfind]
  dsimp only at hgate ⊢
  split_ifs at hgate ⊢ with hauto honce
  · rfl
  · rfl
  · cases hprompter : s.policy.prompter with
    | none =>
      rw [hprompter] at hgate
      exact nomatch hgate
    | some prompter => rfl

theorem executed_of_insisting {messages : List ChatMessage} {s : AgentState ω}
    (hfind : registry.find name = some tool)
    (hgate : ∀ s' : AgentState ω, s'.policy = s.policy → s'.world = w →
      (confirmationGate tool (parseArguments parse json) s').1 = none) :
    .executed name (parseArguments parse json) ∈
      (runAgentTurn ⟨insisting name json w, registry, context, parse⟩ messages options s).2.log := by
  obtain ⟨n, hn⟩ := maxSteps_pos options.maxSteps
  have hask : ∀ history, ask ⟨insisting name json w, registry, context, parse⟩ options history s =
      (.ok { toolCalls := [⟨"", name, json⟩] }, { s.record (.asked history) with world := w }) :=
    fun _ => rfl
  unfold runAgentTurn runLoop
  dsimp only
  rw [hn, runLoopFrom, hask]
  dsimp only
  rw [recordBudget_idle, if_neg (by simp), runCalls]
  set asked : AgentState ω := AgentState.record { s.record _ with world := w } _
  have hopen := hgate asked rfl rfl
  rw [if_neg (by simp [needsUserDecision_of_gate hfind hopen])]
  dsimp only
  rw [runCalls]
  refine (kept_mem _ _).runLoopFrom _ _ _ _ _ ?_
  exact List.mem_append_left _ (executed_of_gate hfind hopen)

theorem awaiting_of_insisting {messages : List ChatMessage} {s : AgentState ω}
    (hsuspends : options.suspendOnConfirmation = true)
    (hneeds : needsUserDecision registry s.policy name = true) :
    let outcome :=
      runAgentTurn ⟨insisting name json w, registry, context, parse⟩ messages options s
    outcome.1.stopReason = .awaitingConfirmation ∧ outcome.1.pending.toolName = name ∧
      outcome.1.pending.argumentsJson = json := by
  obtain ⟨n, hn⟩ := maxSteps_pos options.maxSteps
  have hask : ∀ history, ask ⟨insisting name json w, registry, context, parse⟩ options history s =
      (.ok { toolCalls := [⟨"", name, json⟩] }, { s.record (.asked history) with world := w }) :=
    fun _ => rfl
  unfold runAgentTurn runLoop
  dsimp only
  rw [hn, runLoopFrom, hask]
  dsimp only
  rw [recordBudget_idle, if_neg (by simp), runCalls]
  set asked : AgentState ω := AgentState.record { s.record _ with world := w } _
  have hpolicy : asked.policy = s.policy := rfl
  rw [if_pos (by rw [hsuspends, hpolicy, hneeds]; rfl)]
  exact ⟨rfl, rfl, rfl⟩

theorem executed_of_approval (env : Env ω) (hfind : env.registry.find name = some tool)
    {pending : PendingConfirmation} (hname : pending.toolName = name) (history : List ChatMessage)
    (s : AgentState ω) : .executed name (parseArguments env.parseValueYaml pending.argumentsJson) ∈
      (resumeAgentTurn env history pending true options s).2.log := by
  subst hname
  refine (kept_mem env _).resumeAgentTurn options history pending true ?_
  have hlevel : effectiveConfirmation tool (approve pending.toolName s.policy) = .auto := by
    unfold effectiveConfirmation approve
    rw [ToolRegistry.find_name hfind, AList.lookup_insert]
    rfl
  refine List.mem_append_left _ (executed_of_gate hfind ?_)
  unfold confirmationGate
  exact congrArg Prod.fst (if_pos hlevel)

theorem gate_opens {s : AgentState ω} {inputs : Value}
    (h : effectiveConfirmation tool s.policy = .auto ∨
      (effectiveConfirmation tool s.policy = .confirmOnce ∧ tool.name ∈ s.policy.confirmedOnce) ∨
      ∃ prompter, s.policy.prompter = some prompter ∧ (prompter tool inputs s.world).1 = true) :
    (confirmationGate tool inputs s).1 = none := by
  unfold confirmationGate
  dsimp only
  by_cases hauto : effectiveConfirmation tool s.policy = .auto
  · rw [if_pos hauto]
  rw [if_neg hauto]
  by_cases honce : effectiveConfirmation tool s.policy = .confirmOnce ∧
      tool.name ∈ s.policy.confirmedOnce
  · rw [if_pos honce]
  rw [if_neg honce]
  rcases h with h | h | ⟨prompter, hprompter, hyes⟩
  · exact absurd h hauto
  · exact absurd h honce
  · rw [hprompter]
    dsimp only
    rw [hyes]
    rfl

end

/-- **The allow-list.** No model, whatever it calls and whatever the user answers, gets a tool outside the
list executed, exactly when the confirmation policy refuses every registered tool outside it. -/
theorem allow_list_enforced_iff (registry : ToolRegistry ω) (context : ToolContext ω)
    (parseValueYaml : String → Option Value) (policy : ConfirmationPolicy ω) (options : AgentOptions)
    (world : ω) : (∀ (provider : Provider ω) (messages : List ChatMessage) (decisions : List (Bool × UInt32)),
      OnlyListed options.allowedTools (turnWith ⟨provider, registry, context, parseValueYaml⟩ messages options
        ⟨world, policy, []⟩ decisions).agent.log) ↔
      Fenced registry parseValueYaml options.allowedTools options.suspendOnConfirmation policy := by
  constructor
  · intro hlisted name tool hfind hout
    have hshut : ∀ json w, ¬(effectiveConfirmation tool policy = .auto ∨
        (effectiveConfirmation tool policy = .confirmOnce ∧ tool.name ∈ policy.confirmedOnce) ∨
        ∃ prompter, policy.prompter = some prompter ∧
          (prompter tool (parseArguments parseValueYaml json) w).1 = true) := by
      intro json w hopen
      refine hout (hlisted (insisting name json w) [] [] name _ (executed_of_insisting hfind ?_))
      rintro s rfl rfl
      exact gate_opens hopen
    have hbarred : Barred parseValueYaml policy tool := by
      refine ⟨fun hauto => hshut "" world (.inl hauto),
        fun honce hmem => hshut "" world (.inr (.inl ⟨honce, hmem⟩)), fun prompter hprompter json w => ?_⟩
      by_contra hyes
      exact hshut json w (.inr (.inr ⟨prompter, hprompter, by simpa using hyes⟩))
    refine ⟨hbarred, fun hsuspends => ?_⟩
    by_contra hnone
    have hneeds : needsUserDecision registry policy name = true := by
      have hguarded := hbarred.guarded
      have hunconfirmed := hbarred.unconfirmed
      rw [effectiveConfirmation, ToolRegistry.find_name hfind] at hguarded hunconfirmed
      unfold needsUserDecision
      rw [hfind]
      dsimp only
      rw [if_neg hguarded, if_neg fun hboth => hunconfirmed hboth.1 hboth.2]
      simpa using hnone
    obtain ⟨hawaiting, hname, -⟩ := @awaiting_of_insisting ω registry context parseValueYaml options name ""
      world [] ⟨world, policy, []⟩ hsuspends hneeds
    have hexecuted : ∃ inputs, .executed name inputs ∈
        (turnWith ⟨insisting name "" world, registry, context, parseValueYaml⟩ [] options
          ⟨world, policy, []⟩ [(true, 0)]).agent.log := by
      unfold turnWith
      rw [List.map_cons, List.map_nil, run_cons, run_nil, turnStep, startTurn]
      dsimp only
      rw [if_pos hawaiting]
      exact ⟨_, executed_of_approval _ hfind hname _ _⟩
    obtain ⟨inputs, hexecuted⟩ := hexecuted
    exact hout (hlisted _ _ _ name inputs hexecuted)
  · intro hfenced provider messages decisions
    have hstart : TurnEnforced ⟨provider, registry, context, parseValueYaml⟩ options
        (startTurn ⟨provider, registry, context, parseValueYaml⟩ messages options ⟨world, policy, []⟩) :=
      turnEnforced_start ⟨hfenced, fun _ _ hmem => absurd hmem List.not_mem_nil⟩ messages
    unfold turnWith
    generalize startTurn _ messages options _ = session at hstart
    induction decisions generalizing session with
    | nil => exact hstart.state.listed
    | cons decision decisions ih => exact ih _ (hstart.resume decision)

/-! ## A tool outside the list -/

/-- A read-only turn, with an erasing tool in the registry. -/
def readOnlyEnv : Env ℕ where
  registry :=
    (ToolRegistry.add { name := "inspect", handler := fun _ n => (.ok { summary := "" }, n) } .empty).add
      { name := "erase", handler := fun _ n => (.ok { summary := "erased" }, n) }
  provider _ n :=
    if n = 0 then (.ok { toolCalls := [⟨"a", "erase", ""⟩] }, 1) else (.ok { text := "done" }, n + 1)
  parseValueYaml _ := none

/-- The erasing tool runs although it is not advertised. -/
theorem unlisted_tool_runs :
    let options : AgentOptions := { model := "m", systemPrompt := "s", allowedTools := ["inspect"] }
    (buildToolDefinitions readOnlyEnv.registry options.allowedTools).map (·.name) = ["inspect"] ∧
      ¬OnlyListed options.allowedTools (turnWith readOnlyEnv [] options ⟨0, {}, []⟩ []).agent.log := by
  refine ⟨by rfl, fun hlisted => ?_⟩
  have hexecuted : .executed "erase" (.map []) ∈
      (turnWith readOnlyEnv [] { model := "m", systemPrompt := "s", allowedTools := ["inspect"] }
        ⟨0, {}, []⟩ []).agent.log := List.mem_of_getElem? (i := 2) rfl
  exact absurd (hlisted _ _ hexecuted) (by decide)

end Souxmar.Ai
