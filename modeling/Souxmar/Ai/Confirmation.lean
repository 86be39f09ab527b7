import Souxmar.Ai.Agent
import Souxmar.Lib.Run

/-!
# Confirmation safety

A session is any sequence of `run_agent_turn` and `resume_agent_turn` on one policy. What the caller's
policy asks for is asked for throughout, and the policy's overrides are the caller's after every
call, if no call is approved whose tool has an entry among the overrides: `resume_agent_turn` takes
its own override back by erasing the entry, the caller's included.
-/

namespace Souxmar.Ai

open Souxmar.Lib Souxmar.Pipeline

variable {ω : Type}

/-- Every tool that ran was confirmed as `policy` asks: a `ConfirmAlways` tool by the approval of
this very call, a `ConfirmOnce` tool by an earlier approval. -/
def ConfirmedLog (registry : ToolRegistry ω) (policy : ConfirmationPolicy ω) (log : List Event) :
    Prop :=
  ∀ before name inputs after tool, log = before ++ .executed name inputs :: after →
    registry.find name = some tool →
    (effectiveConfirmation tool policy = .confirmAlways →
      ∃ earlier, before = earlier ++ [.approved name inputs]) ∧
    (effectiveConfirmation tool policy = .confirmOnce →
      name ∈ policy.confirmedOnce ∨ ∃ inputs', .approved name inputs' ∈ before)

/-- The state of a session that has kept to the caller's policy. -/
structure Confirmed (registry : ToolRegistry ω) (policy : ConfirmationPolicy ω) (s : AgentState ω) :
    Prop where
  overrides : ∀ name, s.policy.overrides.lookup name = policy.overrides.lookup name
  once : ∀ name ∈ s.policy.confirmedOnce,
    name ∈ policy.confirmedOnce ∨ ∃ inputs, .approved name inputs ∈ s.log
  log : ConfirmedLog registry policy s.log

section

variable {registry : ToolRegistry ω} {policy : ConfirmationPolicy ω} {log : List Event}

theorem confirmedLog_nil : ConfirmedLog registry policy [] := by
  intro before name inputs after tool hlog
  simp at hlog

theorem ConfirmedLog.snoc (h : ConfirmedLog registry policy log) {e : Event}
    (he : ∀ name inputs, e ≠ .executed name inputs) : ConfirmedLog registry policy (log ++ [e]) := by
  intro before name inputs after tool hlog
  rcases List.eq_nil_or_concat after with rfl | ⟨after, last, rfl⟩
  · obtain ⟨-, hlast⟩ := List.append_inj' hlog rfl
    exact absurd (List.cons.inj hlast).1 (he name inputs)
  · rw [List.concat_eq_append, ← List.cons_append, ← List.append_assoc] at hlog
    exact h before name inputs after tool (List.append_inj' hlog rfl).1

theorem ConfirmedLog.snoc_executed (h : ConfirmedLog registry policy log) {name : String}
    {inputs : Value}
    (hexec : ∀ tool, registry.find name = some tool →
      (effectiveConfirmation tool policy = .confirmAlways →
        ∃ earlier, log = earlier ++ [.approved name inputs]) ∧
      (effectiveConfirmation tool policy = .confirmOnce →
        name ∈ policy.confirmedOnce ∨ ∃ inputs', .approved name inputs' ∈ log)) :
    ConfirmedLog registry policy (log ++ [.executed name inputs]) := by
  intro before name' inputs' after tool hlog
  rcases List.eq_nil_or_concat after with rfl | ⟨after, last, rfl⟩
  · obtain ⟨hbefore, hlast⟩ := List.append_inj' hlog rfl
    obtain ⟨rfl, rfl⟩ := Event.executed.inj (List.cons.inj hlast).1
    subst hbefore
    exact hexec tool
  · rw [List.concat_eq_append, ← List.cons_append, ← List.append_assoc] at hlog
    exact h before name' inputs' after tool (List.append_inj' hlog rfl).1

theorem ConfirmedLog.snoc_approved (h : ConfirmedLog registry policy log) (name : String)
    (inputs : Value) :
    ConfirmedLog registry policy (log ++ [.approved name inputs, .executed name inputs]) := by
  have happroved := h.snoc (e := .approved name inputs) fun _ _ => nofun
  have hexec : ConfirmedLog registry policy
      (log ++ [.approved name inputs] ++ [.executed name inputs]) :=
    happroved.snoc_executed fun _ _ => ⟨fun _ => ⟨log, rfl⟩, fun _ => .inr ⟨inputs, by simp⟩⟩
  rwa [List.append_assoc] at hexec

theorem effectiveConfirmation_congr {policy' : ConfirmationPolicy ω} (tool : Tool ω)
    (h : policy'.overrides.lookup tool.name = policy.overrides.lookup tool.name) :
    effectiveConfirmation tool policy' = effectiveConfirmation tool policy := by
  unfold effectiveConfirmation
  rw [h]

theorem Confirmed.record {s : AgentState ω} (h : Confirmed registry policy s) {e : Event}
    (he : ∀ name inputs, e ≠ .executed name inputs) : Confirmed registry policy (s.record e) where
  overrides := h.overrides
  once name hname := by
    obtain hinit | ⟨inputs, happroved⟩ := h.once name hname
    · exact .inl hinit
    · exact .inr ⟨inputs, List.mem_append_left _ happroved⟩
  log := h.log.snoc he

/-- A dispatch under the caller's overrides. -/
theorem Confirmed.dispatched {s s' : AgentState ω} {name : String} {inputs : Value}
    (h : Confirmed registry policy s) (hd : Dispatched registry name inputs s s') :
    Confirmed registry policy s' := by
  have hlevel : ∀ tool, registry.find name = some tool →
      effectiveConfirmation tool s.policy = effectiveConfirmation tool policy := fun tool _ =>
    effectiveConfirmation_congr tool (h.overrides tool.name)
  cases hd with
  | refused hpolicy hlog =>
    exact ⟨by rw [hpolicy]; exact h.overrides, by rw [hpolicy, hlog]; exact h.once,
      by rw [hlog]; exact h.log⟩
  | free tool hfind hauto hpolicy hlog =>
    refine ⟨by rw [hpolicy]; exact h.overrides, ?_, ?_⟩
    · rw [hpolicy, hlog]
      intro n hn
      exact (h.once n hn).imp_right fun ⟨i, hi⟩ => ⟨i, List.mem_append_left _ hi⟩
    · rw [hlog]
      refine h.log.snoc_executed fun tool' hfind' => ?_
      rw [hfind] at hfind'
      obtain rfl := Option.some.inj hfind'
      rw [← hlevel tool hfind, hauto]
      exact ⟨nofun, nofun⟩
  | confirmed tool hfind honce hmem hpolicy hlog =>
    refine ⟨by rw [hpolicy]; exact h.overrides, ?_, ?_⟩
    · rw [hpolicy, hlog]
      intro n hn
      exact (h.once n hn).imp_right fun ⟨i, hi⟩ => ⟨i, List.mem_append_left _ hi⟩
    · rw [hlog]
      refine h.log.snoc_executed fun tool' hfind' => ?_
      rw [hfind] at hfind'
      obtain rfl := Option.some.inj hfind'
      rw [← hlevel tool hfind, honce]
      exact ⟨nofun, fun _ => h.once name hmem⟩
  | approved _ _ _ hoverrides _ honce hlog =>
    refine ⟨by rw [hoverrides]; exact h.overrides, ?_, by rw [hlog]; exact h.log.snoc_approved _ _⟩
    intro n hn
    rw [hlog]
    rcases Finset.mem_insert.mp (honce hn) with rfl | hn
    · exact .inr ⟨inputs, by simp⟩
    · exact (h.once n hn).imp_right fun ⟨i, hi⟩ => ⟨i, List.mem_append_left _ hi⟩

theorem kept_confirmed (env : Env ω) (policy : ConfirmationPolicy ω) :
    Kept env (Confirmed env.registry policy) where
  world _ _ h := ⟨h.overrides, h.once, h.log⟩
  asked _ _ h := h.record fun _ _ => nofun
  emitted _ _ h := h.record fun _ _ => nofun
  call call _ s h := (h.dispatched (dispatchTool_cases env.registry call.name
    (parseArguments env.parseValueYaml call.argumentsJson) env.context s)).record fun _ _ => nofun

/-! ## Settling the pending call -/

theorem Dispatched.overrides {s s' : AgentState ω} {name : String} {inputs : Value}
    (hd : Dispatched registry name inputs s s') : s'.policy.overrides = s.policy.overrides := by
  cases hd with
  | refused hpolicy | free _ _ _ hpolicy | confirmed _ _ _ _ hpolicy => rw [hpolicy]
  | approved _ _ _ hoverrides => exact hoverrides

theorem kept_overrides (env : Env ω) (overrides : Dict String Confirmation) :
    Kept env fun s => s.policy.overrides = overrides where
  world _ _ h := h
  asked _ _ h := h
  emitted _ _ h := h
  call call _ s h := (dispatchTool_cases env.registry call.name
    (parseArguments env.parseValueYaml call.argumentsJson) env.context s).overrides.trans h

theorem settlePending_overrides (env : Env ω) (pending : PendingConfirmation) (approved : Bool)
    (history : List ChatMessage) (s : AgentState ω) :
    (settlePending env pending approved history s).2.2.policy.overrides =
      if approved then (s.policy.overrides.insert pending.toolName .auto).erase pending.toolName
      else s.policy.overrides := by
  cases approved with
  | false => rfl
  | true =>
    rw [if_pos rfl]
    have hd := (kept_overrides env _).call pending.call history
      { s.record (.approved pending.toolName
          (parseArguments env.parseValueYaml pending.argumentsJson)) with
        policy := approve pending.toolName s.policy } rfl
    exact congrArg (AList.erase pending.toolName) hd

theorem Dispatched.after_approval {s s' : AgentState ω} {name : String} {inputs : Value}
    (hd : Dispatched registry name inputs s s')
    (hlog : ConfirmedLog registry policy log) (hs : s.log = log ++ [.approved name inputs]) :
    ConfirmedLog registry policy s'.log ∧ (∀ e ∈ s.log, e ∈ s'.log) ∧
      s'.policy.confirmedOnce ⊆ insert name s.policy.confirmedOnce := by
  have happroved : ConfirmedLog registry policy s.log := by
    rw [hs]
    exact hlog.snoc fun _ _ => nofun
  cases hd with
  | refused hpolicy hlog' =>
    rw [hpolicy, hlog']
    exact ⟨happroved, fun _ he => he, Finset.subset_insert _ _⟩
  | free _ _ _ hpolicy hlog' | confirmed _ _ _ _ hpolicy hlog' =>
    rw [hpolicy, hlog']
    refine ⟨?_, fun _ he => List.mem_append_left _ he, Finset.subset_insert _ _⟩
    rw [hs, List.append_assoc]
    exact hlog.snoc_approved name inputs
  | approved _ _ _ _ _ honce hlog' =>
    rw [hlog']
    exact ⟨happroved.snoc_approved name inputs, fun _ he => List.mem_append_left _ he, honce⟩

theorem Confirmed.settlePending {env : Env ω} {s : AgentState ω}
    (h : Confirmed env.registry policy s) (pending : PendingConfirmation) (approved : Bool)
    (history : List ChatMessage)
    (hfresh : approved → pending.toolName ∉ s.policy.overrides) :
    Confirmed env.registry policy (settlePending env pending approved history s).2.2 := by
  cases approved with
  | false => exact h.record fun _ _ => nofun
  | true =>
    generalize hinputs : parseArguments env.parseValueYaml pending.argumentsJson = inputs
    obtain ⟨hlog, hmem, honce⟩ := (dispatchTool_cases env.registry pending.toolName inputs env.context
      { s.record (.approved pending.toolName inputs) with
        policy := approve pending.toolName s.policy }).after_approval h.log rfl
    subst hinputs
    refine ⟨fun name => ?_, fun name hname => ?_, hlog.snoc fun _ _ => nofun⟩
    · rw [settlePending_overrides, if_pos rfl, Dict.lookup_erase_insert (hfresh rfl), h.overrides]
    · have hname' := honce hname
      simp only [approve, Finset.mem_insert, or_self_left] at hname'
      rcases hname' with rfl | hname'
      · exact .inr ⟨parseArguments env.parseValueYaml pending.argumentsJson, List.mem_append_left _
          (hmem _ (List.mem_append_right _ (List.mem_singleton.mpr rfl)))⟩
      · refine (h.once name hname').imp_right fun ⟨inputs, hinputs⟩ => ⟨inputs, ?_⟩
        exact List.mem_append_left _ (hmem _ (List.mem_append_left _ hinputs))

end

/-! ## Sessions -/

/-- A call into the agent, with the user's decision where it resumes. -/
inductive AgentCall
  | run (messages : List ChatMessage) (options : AgentOptions)
  | resume (history : List ChatMessage) (pending : PendingConfirmation) (approved : Bool)
    (options : AgentOptions)

def agentStep (env : Env ω) (s : AgentState ω) : AgentCall → AgentState ω
  | .run messages options => (runAgentTurn env messages options s).2
  | .resume history pending approved options =>
    (resumeAgentTurn env history pending approved options s).2

/-- The call approves a tool for which the policy has an entry of its own. -/
def ApprovesOverridden (s : AgentState ω) : AgentCall → Prop
  | .run _ _ => False
  | .resume _ pending approved _ => approved ∧ pending.toolName ∈ s.policy.overrides

/-- On return, the overrides are what they were. -/
def OverridesKept (env : Env ω) (s : AgentState ω) (call : AgentCall) : Prop :=
  ∀ name, (agentStep env s call).policy.overrides.lookup name = s.policy.overrides.lookup name

theorem Confirmed.agentStep {env : Env ω} {policy : ConfirmationPolicy ω} {s : AgentState ω}
    (h : Confirmed env.registry policy s) {call : AgentCall} (hcall : ¬ ApprovesOverridden s call) :
    Confirmed env.registry policy (agentStep env s call) := by
  cases call with
  | run messages options => exact (kept_confirmed env policy).runAgentTurn options messages h
  | resume history pending approved options =>
    have hfresh : approved → pending.toolName ∉ s.policy.overrides := fun ha hmem =>
      hcall ⟨ha, hmem⟩
    exact (kept_confirmed env policy).resumeAgentTurn options history pending approved
      (h.settlePending pending approved history hfresh)

theorem overridesKept_iff (env : Env ω) (s : AgentState ω) (call : AgentCall) :
    OverridesKept env s call ↔ ¬ ApprovesOverridden s call := by
  constructor
  · intro hkept happroves
    cases call with
    | run => exact happroves
    | resume history pending approved options =>
      obtain ⟨hyes, hmem⟩ := happroves
      have hafter := (kept_overrides env _).resumeAgentTurn options history pending approved
        (settlePending_overrides env pending approved history s)
      rw [if_pos hyes] at hafter
      have hlookup := hkept pending.toolName
      dsimp only [agentStep] at hlookup
      rw [hafter, AList.lookup_erase] at hlookup
      exact AList.lookup_eq_none.mp hlookup.symm hmem
  · intro hfresh name
    cases call with
    | run messages options =>
      have hafter := (kept_overrides env s.policy.overrides).runAgentTurn options messages rfl
      exact congrArg (AList.lookup name) hafter
    | resume history pending approved options =>
      have hafter := (kept_overrides env _).resumeAgentTurn options history pending approved
        (settlePending_overrides env pending approved history s)
      dsimp only [agentStep]
      rw [hafter]
      split_ifs with hyes
      · exact Dict.lookup_erase_insert (fun hmem => hfresh ⟨hyes, hmem⟩) _ _
      · rfl

/-- **Confirmation safety.** The caller's policy is respected and given back after every call, in
exactly the sessions in which no approved call is of a tool that has an override. -/
theorem confirmed_session_iff (env : Env ω) (world : ω) (policy : ConfirmationPolicy ω)
    (calls : List AgentCall) :
    (Along (agentStep env) (fun _ s call => OverridesKept env s call) [] ⟨world, policy, []⟩ calls ∧
        ConfirmedLog env.registry policy (run (agentStep env) ⟨world, policy, []⟩ calls).log) ↔
      Along (agentStep env) (fun _ s call => ¬ ApprovesOverridden s call) [] ⟨world, policy, []⟩
        calls := by
  constructor
  · rintro ⟨hkept, _⟩
    exact hkept.mono fun _ s call => (overridesKept_iff env s call).mp
  · intro hfresh
    have hstart : Confirmed env.registry policy ⟨world, policy, []⟩ :=
      ⟨fun _ => rfl, fun _ h => .inl h, confirmedLog_nil⟩
    have hend := hfresh.invariant (P := fun _ s => Confirmed env.registry policy s)
      (fun _ _ _ h hcall => h.agentStep hcall) hstart
    exact ⟨hfresh.mono fun _ s call => (overridesKept_iff env s call).mpr, hend.log⟩

/-! ## An override of the caller's -/

/-- A tool that needs no confirmation of its own, and a model that calls it twice in one message. -/
def eraserEnv : Env ℕ where
  registry := ToolRegistry.add
    { name := "erase", handler := fun _ n => (.ok { summary := "erased" }, n) } .empty
  provider _ n := (.ok { toolCalls := [⟨"1", "erase", ""⟩, ⟨"2", "erase", ""⟩] }, n + 1)
  parseValueYaml _ := none

/-- The caller wants to be asked every time. -/
def askAlways : ConfirmationPolicy ℕ where
  overrides := AList.insert "erase" .confirmAlways ∅

def eraserOptions : AgentOptions :=
  { model := "m", systemPrompt := "s", maxSteps := 1, suspendOnConfirmation := true }

/-- The turn waits for the first call, and the user approves it. -/
def eraserCalls : List AgentCall :=
  let paused := (runAgentTurn eraserEnv [] eraserOptions ⟨0, askAlways, []⟩).1
  [.run [] eraserOptions, .resume paused.history paused.pending true eraserOptions]

/-- The second call runs without being asked about. -/
theorem queued_call_unasked : ¬ ConfirmedLog eraserEnv.registry askAlways
    (run (agentStep eraserEnv) ⟨0, askAlways, []⟩ eraserCalls).log := by
  intro h
  -- the log: asked, emitted, approved, executed, settled, and then executed again
  generalize hlog : (run (agentStep eraserEnv) ⟨0, askAlways, []⟩ eraserCalls).log = log at h
  obtain ⟨halways, -⟩ := h (log.take 5) "erase" (.map []) (log.drop 6) _
    (by rw [← hlog]; rfl) rfl
  obtain ⟨earlier, heq⟩ := halways rfl
  have hlast := congrArg List.getLast? heq
  rw [List.getLast?_append, ← hlog] at hlast
  exact nomatch hlast

end Souxmar.Ai
