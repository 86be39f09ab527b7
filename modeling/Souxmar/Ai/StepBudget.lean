import Souxmar.Ai.Bridge
import Souxmar.Lib.Run

/-!
# The step budget

How many provider round trips a turn makes across its suspensions. A session remembers the steps its turn
has used, and `resume_agent_turn` goes on for what is left of the budget, but for one step at least: a turn
that is suspended with nothing left goes beyond it.
-/

namespace Souxmar.Ai

open Souxmar.Lib Souxmar.Pipeline

variable {ω : Type}

/-! ## Round trips -/

def isAsked : Event → Bool
  | .asked _ => true
  | _ => false

/-- The number of provider round trips in a log. -/
def rounds (log : List Event) : ℕ := log.countP isAsked

@[simp] theorem rounds_append (log more : List Event) : rounds (log ++ more) = rounds log + rounds more :=
  List.countP_append

@[simp] theorem rounds_asked (history : List ChatMessage) : rounds [.asked history] = 1 := rfl

section

variable (env : Env ω) (options : AgentOptions)

theorem rounds_executeCall (call : ToolCall) (history : List ChatMessage) (s : AgentState ω) :
    rounds (executeCall env call history s).2.2.log = rounds s.log := by
  have hd := dispatchTool_cases env.registry call.name
    (parseArguments env.parseValueYaml call.argumentsJson) env.context s
  have hdispatch : rounds (dispatchTool env.registry call.name
      (parseArguments env.parseValueYaml call.argumentsJson) env.context s).2.log = rounds s.log := by
    cases hd with
    | refused _ hlog => rw [hlog]
    | free _ _ _ _ hlog | confirmed _ _ _ _ _ hlog | approved _ _ _ _ _ _ hlog =>
      rw [hlog, rounds_append]
      rfl
  show rounds ((dispatchTool env.registry call.name _ env.context s).2.log ++ [.settled call _]) = _
  rw [rounds_append, hdispatch]
  rfl

theorem rounds_runCalls (queuedBehind : ToolCall → List ToolCall → List ToolCall) (calls : List ToolCall)
    (step : AgentStep) (history : List ChatMessage) (s : AgentState ω) :
    rounds (runCalls env options queuedBehind calls step history s).state.log = rounds s.log := by
  induction calls generalizing step history s with
  | nil => rfl
  | cons call rest ih =>
    rw [runCalls]
    split_ifs with hstop
    · rfl
    · have hcall := rounds_executeCall env call history s
      exact (ih _ _ _).trans hcall

theorem rounds_settlePending (pending : PendingConfirmation) (approved : Bool)
    (history : List ChatMessage) (s : AgentState ω) :
    rounds (settlePending env pending approved history s).2.2.log = rounds s.log := by
  cases approved with
  | false =>
    show rounds (s.log ++ [.settled pending.call _]) = _
    rw [rounds_append]
    rfl
  | true =>
    have hcall := rounds_executeCall env pending.call history
      { s.record (.approved pending.toolName
          (parseArguments env.parseValueYaml pending.argumentsJson)) with
        policy := approve pending.toolName s.policy }
    have happroved : rounds (s.log ++ [.approved pending.toolName
        (parseArguments env.parseValueYaml pending.argumentsJson)]) = rounds s.log := by
      rw [rounds_append]
      rfl
    exact hcall.trans happroved

/-- What `n` rounds of a loop come to, after `used` steps of the turn: a suspended outcome counts them. -/
structure Rounds (n : ℕ) (used : UInt32) (s : AgentState ω) (r : AgentOutcome × AgentState ω) : Prop where
  least : rounds s.log + min n 1 ≤ rounds r.2.log
  most : rounds r.2.log ≤ rounds s.log + n
  counted : r.1.stopReason = .awaitingConfirmation →
    ∃ k, rounds r.2.log = rounds s.log + k ∧ r.1.stepsUsed = used + UInt32.ofNat k

theorem Rounds.cons {n : ℕ} {used : UInt32} {s s' : AgentState ω} {r : AgentOutcome × AgentState ω}
    (h : Rounds n (used + 1) s' r) (hs : rounds s'.log = rounds s.log + 1) : Rounds (n + 1) used s r := by
  have hleast := h.least
  have hmost := h.most
  refine ⟨by omega, by omega, fun hwaits => ?_⟩
  obtain ⟨k, hk, hused⟩ := h.counted hwaits
  refine ⟨k + 1, by omega, ?_⟩
  rw [hused, UInt32.ofNat_add, UInt32.add_comm (UInt32.ofNat k), ← UInt32.add_assoc]
  rfl

theorem Rounds.one {n : ℕ} {used : UInt32} {s : AgentState ω} {r : AgentOutcome × AgentState ω}
    (hs : rounds r.2.log = rounds s.log + 1)
    (hused : r.1.stopReason = .awaitingConfirmation → r.1.stepsUsed = used + 1) :
    Rounds (n + 1) used s r :=
  ⟨by omega, by omega, fun hwaits => ⟨1, hs, hused hwaits⟩⟩

theorem rounds_runLoopFrom (n : ℕ) (step : UInt32) {outcome : AgentOutcome}
    (houtcome : outcome.stopReason ≠ .awaitingConfirmation) (history : List ChatMessage)
    (s : AgentState ω) :
    Rounds n (options.stepsAlreadyUsed + step) s (runLoopFrom env options n step outcome history s) := by
  induction n generalizing step outcome history s with
  | zero => exact ⟨by simp [runLoopFrom], by simp [runLoopFrom], fun hwaits => by cases hwaits⟩
  | succ n ih =>
    rw [runLoopFrom]
    rcases hask : ask env options history s with ⟨err | response, s'⟩
    all_goals
      have hasked : rounds s'.log = rounds s.log + 1 := by
        have hlog := ask_log env options history s
        rw [hask] at hlog
        rw [hlog, rounds_append, rounds_asked]
      dsimp only
    · exact .one hasked fun hwaits => by cases hwaits
    · split_ifs with hempty
      · refine .one ?_ fun hwaits => by cases hwaits
        rw [recordBudget_log, hasked]
      · have hcalls := fun step history => rounds_runCalls env options queuedInRun
          response.toolCalls step history
          ((recordBudget env.context response s').record (.emitted response.toolCalls))
        have hemitted : rounds ((recordBudget env.context response s').record
            (.emitted response.toolCalls)).log = rounds s.log + 1 := by
          show rounds ((recordBudget env.context response s').log ++ [.emitted response.toolCalls]) = _
          rw [rounds_append, recordBudget_log, hasked]
          rfl
        rw [hemitted] at hcalls
        generalize hbatch : runCalls env options queuedInRun response.toolCalls _ _ _ = batch
        have hbatch := hbatch ▸ hcalls _ _
        cases batch with
        | done record history s'' =>
          refine .cons ?_ hbatch
          rw [UInt32.add_assoc]
          refine ih (step + 1) ?_ history s''
          exact houtcome
        | suspended pending record history s'' => exact .one hbatch fun _ => rfl

theorem rounds_runLoop (history : List ChatMessage) (s : AgentState ω) {n : ℕ}
    (hn : options.maxSteps.toNat = n) (hpos : 0 < n) :
    Rounds n options.stepsAlreadyUsed s (runLoop env history options s) := by
  have hne : options.maxSteps ≠ 0 := by
    rintro hzero
    rw [hzero] at hn
    exact absurd hn (Nat.ne_of_lt hpos)
  have hstart : ({} : AgentOutcome).stopReason ≠ .awaitingConfirmation := nofun
  have hloop := rounds_runLoopFrom env options n 0 hstart history s
  unfold runLoop
  rw [UInt32.add_zero] at hloop
  dsimp only
  rw [if_neg hne, hn]
  exact hloop

/-! ## Suspended batches -/

theorem runCalls_stops (queuedBehind : ToolCall → List ToolCall → List ToolCall) (calls : List ToolCall)
    (step : AgentStep) (history : List ChatMessage) (s : AgentState ω) :
    match runCalls env options queuedBehind calls step history s with
    | .done _ _ _ => ∀ call ∈ calls, stopsAt env options s.policy call = false
    | .suspended _ _ _ _ => ∃ call ∈ calls, stopsAt env options s.policy call = true := by
  induction calls generalizing step history s with
  | nil => exact fun _ hmem => nomatch hmem
  | cons call rest ih =>
    rw [runCalls]
    split_ifs with hstop
    · exact ⟨call, List.mem_cons_self, hstop⟩
    · have hstop' : stopsAt env options s.policy call = false := by simpa [stopsAt] using hstop
      have hsame : ∀ c, stopsAt env options (executeCall env call history s).2.2.policy c =
          stopsAt env options s.policy c := fun c =>
        congrArg (options.suspendOnConfirmation && ·)
          ((dispatchTool_cases env.registry call.name
            (parseArguments env.parseValueYaml call.argumentsJson) env.context s).needsUserDecision
            c.name)
      have hrest := fun step => ih step (executeCall env call history s).2.1
        (executeCall env call history s).2.2
      simp only [hsame] at hrest
      dsimp only
      generalize hstep : ({ step with toolCalls := _ } : AgentStep) = step'
      have hrest := hrest step'
      split at hrest <;> rename_i heq <;> rw [heq]
      · exact List.forall_mem_cons.mpr ⟨hstop', hrest⟩
      · obtain ⟨c, hc, hwaits⟩ := hrest
        exact ⟨c, List.mem_cons_of_mem _ hc, hwaits⟩

theorem rounds_resume_suspended {pending : PendingConfirmation} {approved : Bool} {s : AgentState ω}
    (history : List ChatMessage)
    (h : ∃ call ∈ pending.queued, stopsAt env options (decided pending.toolName approved s.policy) call) :
    let r := resumeAgentTurn env history pending approved options s
    r.1.stopReason = .awaitingConfirmation ∧ r.1.stepsUsed = options.stepsAlreadyUsed ∧
      rounds r.2.log = rounds s.log := by
  have hsettle := rounds_settlePending env pending approved history s
  unfold resumeAgentTurn
  dsimp only
  rw [← settlePending_policy env pending approved history s] at h
  have hstops := fun step history' => runCalls_stops env options (queuedInResume pending.queued)
    pending.queued step history' (settlePending env pending approved history s).2.2
  have hrounds := fun step history' => rounds_runCalls env options (queuedInResume pending.queued)
    pending.queued step history' (settlePending env pending approved history s).2.2
  generalize hbatch : runCalls env options _ _ _ _ _ = batch
  have hstops := hbatch ▸ hstops _ _
  have hrounds := hbatch ▸ hrounds _ _
  cases batch with
  | done step history' s' =>
    obtain ⟨call, hcall, hwaits⟩ := h
    rw [hstops call hcall] at hwaits
    exact nomatch hwaits
  | suspended pending step history' s' => exact ⟨rfl, rfl, hrounds.trans hsettle⟩

theorem rounds_resume_done {pending : PendingConfirmation} {approved : Bool} {s : AgentState ω}
    (history : List ChatMessage) {n : ℕ} (hn : (continued options).maxSteps.toNat = n) (hpos : 0 < n)
    (h : ¬∃ call ∈ pending.queued, stopsAt env options (decided pending.toolName approved s.policy) call) :
    Rounds n options.stepsAlreadyUsed s (resumeAgentTurn env history pending approved options s) := by
  have hsettle := rounds_settlePending env pending approved history s
  unfold resumeAgentTurn
  dsimp only
  rw [← settlePending_policy env pending approved history s] at h
  have hstops := fun step history' => runCalls_stops env options (queuedInResume pending.queued)
    pending.queued step history' (settlePending env pending approved history s).2.2
  have hrounds := fun step history' => rounds_runCalls env options (queuedInResume pending.queued)
    pending.queued step history' (settlePending env pending approved history s).2.2
  generalize hbatch : runCalls env options _ _ _ _ _ = batch
  have hstops := hbatch ▸ hstops _ _
  have hrounds := hbatch ▸ hrounds _ _
  cases batch with
  | done step history' s' =>
    have hloop := rounds_runLoop env (continued options) history' s' hn hpos
    have hsame : rounds s'.log = rounds s.log := hrounds.trans hsettle
    exact ⟨by rw [← hsame]; exact hloop.least, by rw [← hsame]; exact hloop.most,
      by rw [← hsame]; exact hloop.counted⟩
  | suspended pending step history' s' => exact absurd hstops h

end

/-! ## Sessions of the bridge -/

/-- A turn stays within its budget. -/
def WithinBudget (b : Bridge ω) : Prop := rounds b.turn ≤ 8

/-- A confirmation that asks the provider again has steps left for it; one that runs into another call to
confirm asks nobody. -/
def HasStepsLeft (env : BridgeEnv ω) (b : Bridge ω) : BridgeCall ω → Prop
  | .confirm projectId allow =>
    ∀ session provider, b.sessions.lookup projectId = some session →
      (env.resolveProvider projectId b.world).provider = .ok provider →
      session.stepsUsed < 8 ∨ ∃ call ∈ session.pending.queued, needsUserDecision env.tools
        (decided session.pending.toolName allow session.policy) call.name = true
  | _ => True

/-- Every session remembers the round trips of its turn. -/
structure Counted (b : Bridge ω) : Prop where
  turn : WithinBudget b
  sessions : ∀ projectId session, b.sessions.lookup projectId = some session →
    session.suspended = true ∧ rounds session.log = session.stepsUsed.toNat ∧ session.stepsUsed.toNat ≤ 8

theorem Counted.erase {b : Bridge ω} (h : Counted b) {log : List Event} (hlog : rounds log ≤ 8)
    (projectId : String) (world : ω) :
    Counted { world, sessions := b.sessions.erase projectId, turn := log } := by
  refine ⟨hlog, fun other session hsession => h.sessions other session ?_⟩
  by_cases hother : other = projectId
  · subst hother
    rw [AList.lookup_erase] at hsession
    exact nomatch hsession
  · rwa [AList.lookup_erase_ne hother] at hsession

theorem Counted.closeTurn {b : Bridge ω} (h : Counted b) {outcome : AgentOutcome} {agent : AgentState ω}
    (hrounds : rounds agent.log ≤ 8)
    (hcounted : outcome.stopReason = .awaitingConfirmation →
      rounds agent.log = outcome.stepsUsed.toNat) (projectId : String) :
    Counted (closeTurn projectId outcome agent b) := by
  unfold Ai.closeTurn
  split_ifs with hwaits
  · refine ⟨hrounds, fun other session hsession => ?_⟩
    by_cases hother : other = projectId
    · subst hother
      rw [AList.lookup_insert] at hsession
      obtain rfl := Option.some.inj hsession
      have hsame := hcounted hwaits
      exact ⟨rfl, hsame, hsame ▸ hrounds⟩
    · rw [AList.lookup_insert_ne hother] at hsession
      exact h.sessions other session hsession
  · exact h.erase hrounds projectId agent.world

/-- A count that stays in the budget does not wrap. -/
theorem Rounds.stepsUsed {n : ℕ} {used : UInt32} {s : AgentState ω} {r : AgentOutcome × AgentState ω}
    (h : Rounds n used s r) (hs : rounds s.log = used.toNat) (hbudget : rounds r.2.log ≤ 8)
    (hwaits : r.1.stopReason = .awaitingConfirmation) : rounds r.2.log = r.1.stepsUsed.toNat := by
  obtain ⟨k, hk, hused⟩ := h.counted hwaits
  have hsmall : k < 2 ^ 32 := by omega
  rw [hused, UInt32.toNat_add, UInt32.toNat_ofNat_of_lt' hsmall]
  omega

theorem rounds_runAgentTurn (env : Env ω) (messages : List ChatMessage) (model : String)
    (s : AgentState ω) : Rounds 8 0 s (runAgentTurn env messages (chatOptions model 0) s) :=
  rounds_runLoop env (chatOptions model 0) _ s rfl (by omega)

theorem Counted.send {env : BridgeEnv ω} {b : Bridge ω} (h : Counted b) (requestJson : Option String)
    (projectId : String) : Counted (bridgeStep env b (.send requestJson projectId)) := by
  have hidle : Counted { b with turn := [] } := ⟨Nat.zero_le _, h.sessions⟩
  unfold bridgeStep chatSend
  cases requestJson with
  | none => exact hidle
  | some json =>
    dsimp only
    split
    · exact hidle
    · generalize (if (env.resolveProvider projectId b.world).model.isEmpty then _ else _) = model
      cases hprovider : (env.resolveProvider projectId b.world).provider with
      | error message => exact hidle
      | ok provider =>
        have hturn := rounds_runAgentTurn (env.agentEnv provider) (env.extractMessages json) model
          { world := env.openSession b.world, policy := {} }
        have hrounds := hturn.most
        rw [show rounds ([] : List Event) = 0 from rfl, Nat.zero_add] at hrounds
        exact hidle.closeTurn hrounds (hturn.stepsUsed rfl hrounds) projectId

theorem continued_maxSteps (model : String) (used : UInt32) :
    (continued (chatOptions model used)).maxSteps.toNat =
      if used.toNat < 8 then 8 - used.toNat else 1 := by
  unfold continued
  dsimp only
  have hlt : (chatOptions model used).stepsAlreadyUsed < (chatOptions model used).maxSteps ↔
      used.toNat < 8 := UInt32.lt_iff_toNat_lt
  by_cases hused : used.toNat < 8
  · rw [if_pos (hlt.mpr hused), if_pos hused]
    exact UInt32.toNat_sub_of_le _ _ (UInt32.le_of_lt (hlt.mpr hused))
  · rw [if_neg (fun h => hused (hlt.mp h)), if_neg hused]
    rfl

/-- One confirmation: the turn stays in its budget exactly when steps are left, and the sessions go on
remembering their round trips. -/
theorem Counted.confirm {env : BridgeEnv ω} {b : Bridge ω} (h : Counted b) (projectId : String)
    (allow : Bool) : (WithinBudget (bridgeStep env b (.confirm projectId allow)) ↔
        HasStepsLeft env b (.confirm projectId allow)) ∧
      (WithinBudget (bridgeStep env b (.confirm projectId allow)) →
        Counted (bridgeStep env b (.confirm projectId allow))) := by
  unfold bridgeStep chatConfirm HasStepsLeft
  dsimp only
  cases hsession : b.sessions.lookup projectId with
  | none =>
    have hidle : Counted { b with turn := [] } := ⟨Nat.zero_le _, h.sessions⟩
    exact ⟨iff_of_true hidle.turn nofun, fun _ => hidle⟩
  | some session =>
    obtain ⟨hsuspended, hcount, hsmall⟩ := h.sessions projectId session hsession
    dsimp only
    rw [hsuspended, if_neg (by simp)]
    cases hprovider : (env.resolveProvider projectId b.world).provider with
    | error message =>
      have hclosed := h.erase (hcount ▸ hsmall) projectId b.world
      exact ⟨iff_of_true hclosed.turn nofun, fun _ => hclosed⟩
    | ok provider =>
      dsimp only
      generalize (if (env.resolveProvider projectId b.world).model.isEmpty then _ else _) = model
      set r := resumeAgentTurn (env.agentEnv provider) session.history session.pending allow
        (chatOptions model session.stepsUsed) ⟨b.world, session.policy, session.log⟩
      have hcondition : (∀ session' provider', some session = some session' →
          (Except.ok provider : Except String (Provider ω)) = .ok provider' →
          session'.stepsUsed < 8 ∨ ∃ call ∈ session'.pending.queued, needsUserDecision env.tools
            (decided session'.pending.toolName allow session'.policy) call.name = true) ↔
          session.stepsUsed < 8 ∨ ∃ call ∈ session.pending.queued, needsUserDecision env.tools
            (decided session.pending.toolName allow session.policy) call.name = true := by
        refine ⟨fun hall => hall session provider rfl rfl, ?_⟩
        rintro hone _ _ ⟨⟩ ⟨⟩
        exact hone
      rw [hcondition]
      by_cases hstops : ∃ call ∈ session.pending.queued, needsUserDecision env.tools
          (decided session.pending.toolName allow session.policy) call.name = true
      · obtain ⟨-, hused, hsame⟩ : r.1.stopReason = .awaitingConfirmation ∧
            r.1.stepsUsed = session.stepsUsed ∧ rounds r.2.log = rounds session.log :=
          rounds_resume_suspended (env.agentEnv provider) (chatOptions model session.stepsUsed)
            session.history hstops
        have hrounds : rounds r.2.log ≤ 8 := by omega
        have hclosed := h.closeTurn hrounds (fun _ => by rw [hused, hsame, hcount]) projectId
        exact ⟨iff_of_true hclosed.turn (.inr hstops), fun _ => hclosed⟩
      · have hleft := continued_maxSteps model session.stepsUsed
        have hpos : 0 < if session.stepsUsed.toNat < 8 then 8 - session.stepsUsed.toNat else 1 := by
          split_ifs <;> omega
        have hturn : Rounds _ session.stepsUsed ⟨b.world, session.policy, session.log⟩ r :=
          rounds_resume_done (env.agentEnv provider) (chatOptions model session.stepsUsed)
            session.history hleft hpos hstops
        have hleast := hturn.least
        have hmost := hturn.most
        dsimp only at hleast hmost
        have hsteps : session.stepsUsed < 8 ↔ session.stepsUsed.toNat < 8 := UInt32.lt_iff_toNat_lt
        have hwithin : rounds r.2.log ≤ 8 ↔ session.stepsUsed < 8 := by
          rw [hsteps]
          split_ifs at hleast hmost with hused
          · exact iff_of_true (by omega) hused
          · exact iff_of_false (by omega) hused
        refine ⟨?_, fun hrounds => h.closeTurn hrounds (hturn.stepsUsed hcount hrounds) projectId⟩
        rw [or_iff_left hstops]
        exact hwithin

/-- **The step budget.** Every turn of a run of sends and confirmations stays within eight round trips
exactly when every confirmation that asks the provider again has steps left. -/
theorem step_budget_iff (env : BridgeEnv ω) (world : ω) (calls : List (BridgeCall ω)) :
    Along (bridgeStep env) (fun _ b call => WithinBudget (bridgeStep env b call)) [] ⟨world, ∅, []⟩ calls ↔
      Along (bridgeStep env) (fun _ b call => HasStepsLeft env b call) [] ⟨world, ∅, []⟩ calls := by
  have hstart : Counted (⟨world, ∅, []⟩ : Bridge ω) :=
    ⟨Nat.zero_le _, fun projectId session hsession => nomatch hsession⟩
  have hstep : ∀ b call, Counted b →
      (WithinBudget (bridgeStep env b call) ↔ HasStepsLeft env b call) ∧
        (WithinBudget (bridgeStep env b call) → Counted (bridgeStep env b call)) := by
    intro b call h
    cases call with
    | send requestJson projectId =>
      have hsent : Counted (bridgeStep env b (.send requestJson projectId)) :=
        h.send requestJson projectId
      exact ⟨iff_of_true hsent.turn trivial, fun _ => hsent⟩
    | confirm projectId allow => exact h.confirm projectId allow
    | elapse w =>
      have hsame : Counted (bridgeStep env b (.elapse w)) := ⟨h.turn, h.sessions⟩
      exact ⟨iff_of_true hsame.turn trivial, fun _ => hsame⟩
  constructor
  · exact Along.of_invariant (P := fun _ b => Counted b)
      (fun _ b call h hwithin => (hstep b call h).2 hwithin)
      (fun _ b call h hwithin => (hstep b call h).1.mp hwithin) hstart
  · exact Along.of_invariant (P := fun _ b => Counted b)
      (fun _ b call h hleft => (hstep b call h).2 ((hstep b call h).1.mpr hleft))
      (fun _ b call h hleft => (hstep b call h).1.mpr hleft) hstart

/-! ## A model that always asks -/

/-- Every answer of this model calls a tool that has to be confirmed. -/
def guardedBridge : BridgeEnv Unit where
  tools := ToolRegistry.add
    { name := "solve", confirmation := .confirmAlways, handler := fun _ n => (.ok { summary := "" }, n) } .empty
  parseValueYaml _ := none
  resolveProvider _ _ := { provider := .ok fun _ n => (.ok { toolCalls := [⟨"a", "solve", ""⟩] }, n) }
  extractStringField _ _ := ""
  extractMessages _ := []
  openSession n := n

/-- After eight suspensions the ninth round trip is made. -/
theorem ninth_step_taken :
    let calls := BridgeCall.send (some "") "p" :: List.replicate 8 (.confirm "p" true)
    ¬WithinBudget (run (bridgeStep guardedBridge) ⟨(), ∅, []⟩ calls) := by
  intro calls hwithin
  have hnine : rounds (run (bridgeStep guardedBridge) ⟨(), ∅, []⟩ calls).turn = 9 := rfl
  unfold WithinBudget at hwithin
  omega

end Souxmar.Ai
