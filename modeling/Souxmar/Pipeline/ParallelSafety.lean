import Souxmar.Lib.History
import Souxmar.Pipeline.Scheduler
import Souxmar.Pipeline.Validation

/-!
# Safety of the parallel scheduler

The invariants of failures and what they stop (`Halted`), of the outputs (`Published`) and of the
history (`Recorded`), and what they come to in every reachable state.
-/

set_option linter.dupNamespace false

namespace Souxmar.Pipeline

open Souxmar.Lib

variable {ω π : Type} {p : Pipeline} {d : Dispatcher ω π} {options : RunOptions ω π} {workers : ℕ}

/-! ## Failures and what they stop -/

def ParallelState.Produced (s : ParallelState π) (i : ℕ) : Prop :=
  ∃ sr, s.results i = some sr ∧ sr.status.produced = true

/-- The stop flag is that of a recorded failure, and a stage that goes ahead under the flag's option
has only stages with a payload behind it. -/
structure Halted (p : Pipeline) (stopOnFirstFailure : Bool) (s : ParallelState π)
    (held : Fin workers → Option ℕ) : Prop where
  stop_failed : s.stopRequested = true →
    stopOnFirstFailure = true ∧ ∃ i sr, s.results i = some sr ∧ sr.status = .failed
  failed_stop : stopOnFirstFailure = true →
    ∀ i sr, s.results i = some sr → sr.status = .failed → s.stopRequested = true
  skipped_stop : ∀ i sr, s.results i = some sr → sr.status = .skipped → s.stopRequested = true
  held_produced : stopOnFirstFailure = true →
    ∀ v i, held v = some i → ∀ j ∈ p.parents i, s.Produced j
  done_produced : stopOnFirstFailure = true →
    ∀ i, s.Produced i → ∀ j ∈ p.parents i, s.Produced j

namespace Halted

variable {stopOnFirstFailure : Bool} {s s' : ParallelState π} {held held' : Fin workers → Option ℕ}

theorem congr (h : Halted p stopOnFirstFailure s held) (hresults : s'.results = s.results)
    (hstop : s'.stopRequested = s.stopRequested) : Halted p stopOnFirstFailure s' held := by
  have hproduced : ∀ i, s'.Produced i ↔ s.Produced i := by
    intro i
    unfold ParallelState.Produced
    rw [hresults]
  refine ⟨?_, ?_, ?_, ?_, ?_⟩
  · rw [hstop, hresults]
    exact h.stop_failed
  · rw [hstop, hresults]
    exact h.failed_stop
  · rw [hstop, hresults]
    exact h.skipped_stop
  · simp only [hproduced]
    exact h.held_produced
  · simp only [hproduced]
    exact h.done_produced

theorem ready_produced (h : Halted p stopOnFirstFailure s held) (hopt : stopOnFirstFailure = true)
    (hstop : s.stopRequested = false) {i : ℕ} (hi : i ∈ s.done p) : s.Produced i := by
  obtain ⟨sr, hsr⟩ := Option.isSome_iff_exists.mp (ParallelState.mem_done.mp hi).2
  refine ⟨sr, hsr, ?_⟩
  have hfailed : sr.status ≠ .failed := fun hstatus => by
    have htrue := h.failed_stop hopt i sr hsr hstatus
    rw [hstop] at htrue
    exact nomatch htrue
  have hskipped : sr.status ≠ .skipped := fun hstatus => by
    have htrue := h.skipped_stop i sr hsr hstatus
    rw [hstop] at htrue
    exact nomatch htrue
  cases hstatus : sr.status with
  | cached => rfl
  | executed => rfl
  | failed => exact absurd hstatus hfailed
  | skipped => exact absurd hstatus hskipped

theorem record (h : Halted p stopOnFirstFailure s held) {idx : ℕ} {sr : StageRunResult}
    (hnew : s.results idx = none) (hresults : s'.results = Function.update s.results idx (some sr))
    (hstop : s'.stopRequested =
      (s.stopRequested || (sr.status = .failed && stopOnFirstFailure)))
    (hskipped : sr.status = .skipped → s.stopRequested = true)
    (hparents : stopOnFirstFailure = true → sr.status.produced = true →
      ∀ j ∈ p.parents idx, s.Produced j)
    (hheld : ∀ v i, held' v = some i → held v = some i) :
    Halted p stopOnFirstFailure s' held' := by
  have hself : s'.results idx = some sr := by rw [hresults, Function.update_self]
  have hother : ∀ i, i ≠ idx → s'.results i = s.results i := fun i hi => by
    rw [hresults, Function.update_of_ne hi]
  have hkeep : ∀ i sr', s.results i = some sr' → s'.results i = some sr' := by
    intro i sr' hsr'
    have hi : i ≠ idx := fun heq => by rw [heq, hnew] at hsr'; exact nomatch hsr'
    rw [hother i hi]
    exact hsr'
  have hproduced : ∀ i, s.Produced i → s'.Produced i :=
    fun i ⟨sr', hsr', hstatus⟩ => ⟨sr', hkeep i sr' hsr', hstatus⟩
  have hmono : s.stopRequested = true → s'.stopRequested = true := fun htrue => by
    rw [hstop, htrue, Bool.true_or]
  refine ⟨fun htrue => ?_, fun hopt i sr' hsr' hstatus => ?_, fun i sr' hsr' hstatus => ?_,
    fun hopt v i hv j hj => ?_, fun hopt i hi j hj => ?_⟩
  · rw [hstop, Bool.or_eq_true, Bool.and_eq_true, decide_eq_true_eq] at htrue
    rcases htrue with hbefore | ⟨hfailed, hopt⟩
    · obtain ⟨hopt, i, sr', hsr', hstatus⟩ := h.stop_failed hbefore
      exact ⟨hopt, i, sr', hkeep i sr' hsr', hstatus⟩
    · exact ⟨hopt, idx, sr, hself, hfailed⟩
  · by_cases hi : i = idx
    · rw [hi, hself] at hsr'
      obtain rfl := Option.some.inj hsr'
      rw [hstop, hstatus, hopt]
      simp
    · exact hmono (h.failed_stop hopt i sr' (hother i hi ▸ hsr') hstatus)
  · by_cases hi : i = idx
    · rw [hi, hself] at hsr'
      obtain rfl := Option.some.inj hsr'
      exact hmono (hskipped hstatus)
    · exact hmono (h.skipped_stop i sr' (hother i hi ▸ hsr') hstatus)
  · exact hproduced j (h.held_produced hopt v i (hheld v i hv) j hj)
  · by_cases hidx : i = idx
    · obtain ⟨sr', hsr', hstatus⟩ := hi
      rw [hidx, hself] at hsr'
      obtain rfl := Option.some.inj hsr'
      exact hproduced j (hparents hopt hstatus j (hidx ▸ hj))
    · obtain ⟨sr', hsr', hstatus⟩ := hi
      exact hproduced j (h.done_produced hopt i ⟨sr', hother i hidx ▸ hsr', hstatus⟩ j hj)

theorem step {w : Fin workers} {phases phases' : Fin workers → Phase π}
    (hs : Scheduled p s (heldBy phases)) (h : Halted p stopOnFirstFailure s (heldBy phases))
    (hchanges : Changes p stopOnFirstFailure w s s' phases phases') :
    Halted p stopOnFirstFailure s' (heldBy phases') := by
  cases hchanges with
  | exits hphase _ hstate hphases =>
    rw [hstate, hphases, heldBy_keep (by rw [hphase]; rfl)]
    exact h
  | sleeps hphase _ hstate hphases =>
    rw [hstate, hphases, heldBy_keep (by rw [hphase]; rfl)]
    exact h
  | drains idx ready hphase hready hstop hstate hphases =>
    obtain ⟨-, hnone, -, -⟩ := hs.head hready
    rw [hstate, hphases, heldBy_keep (by rw [hphase]; rfl), heldBy_wake]
    refine h.record hnone rfl ?_ (fun _ => hstop) (fun _ hproduced => by cases hproduced)
      fun v i hv => hv
    show s.stopRequested = (s.stopRequested || _)
    rw [hstop, Bool.true_or]
  | takes idx ready hphase hready hstop hstate hphases =>
    obtain ⟨-, -, -, hparents⟩ := hs.head hready
    rw [hstate, hphases, heldBy_update]
    refine ⟨h.stop_failed, h.failed_stop, h.skipped_stop, fun hopt v i hv j hj => ?_, h.done_produced⟩
    by_cases hvw : v = w
    · rw [hvw, Function.update_self] at hv
      rw [← Option.some.inj hv] at hj
      exact h.ready_produced hopt hstop (hparents hj)
    · rw [Function.update_of_ne hvw] at hv
      exact h.held_produced hopt v i hv j hj
  | works idx work work' hphase hstate hphases =>
    rw [hstate, hphases, heldBy_keep (by rw [hphase]; rfl)]
    exact h
  | dispatches idx work work' hphase hstate hphases =>
    rw [hstate, hphases, heldBy_keep (by rw [hphase]; rfl)]
    exact h.congr rfl rfl
  | publishes idx work stage sr payload hphase hstage hstate hphases _ hskipped =>
    have hw : heldBy phases w = some idx := by rw [heldBy, hphase]; rfl
    rw [hstate, hphases, heldBy_update, heldBy_wake]
    refine h.record (hs.fresh w idx hw) rfl rfl (fun heq => absurd heq hskipped)
      (fun hopt _ j hj => h.held_produced hopt w idx hw j hj) fun v i hv => ?_
    have hvw : v ≠ w := fun heq => by rw [heq, Function.update_self] at hv; cases hv
    rw [Function.update_of_ne hvw] at hv
    exact hv

end Halted

/-! ## The outputs -/

/-- The outputs are those of the stages that have a payload, each under its own id. -/
structure Published (p : Pipeline) (s : ParallelState π) : Prop where
  ids : ∀ i sr, s.results i = some sr → sr.stageId = p.stageId i
  keys : ∀ id, id ∈ s.outputs ↔ ∃ i, s.Produced i ∧ p.stageId i = id

theorem Pipeline.stageId_eq {i : ℕ} {stage : Stage} (hstage : p.stages[i]? = some stage) :
    p.stageId i = stage.id := by
  unfold stageId
  rw [hstage]
  rfl

namespace Published

variable {s s' : ParallelState π}

theorem record (h : Published p s) {idx : ℕ} {sr : StageRunResult} (hnew : s.results idx = none)
    (hresults : s'.results = Function.update s.results idx (some sr))
    (hid : sr.stageId = p.stageId idx)
    (houtputs : ∀ id, id ∈ s'.outputs ↔
      (sr.status.produced = true ∧ id = p.stageId idx) ∨ id ∈ s.outputs) : Published p s' := by
  have hself : s'.results idx = some sr := by rw [hresults, Function.update_self]
  have hother : ∀ i, i ≠ idx → s'.results i = s.results i := fun i hi => by
    rw [hresults, Function.update_of_ne hi]
  refine ⟨fun i sr' hsr' => ?_, fun id => ?_⟩
  · by_cases hi : i = idx
    · rw [hi, hself] at hsr'
      rw [← Option.some.inj hsr', hi]
      exact hid
    · exact h.ids i sr' (hother i hi ▸ hsr')
  · rw [houtputs, h.keys]
    constructor
    · rintro (⟨hproduced, rfl⟩ | ⟨i, ⟨sr', hsr', hproduced⟩, hi⟩)
      · exact ⟨idx, ⟨sr, hself, hproduced⟩, rfl⟩
      · have hne : i ≠ idx := fun heq => by rw [heq, hnew] at hsr'; exact nomatch hsr'
        exact ⟨i, ⟨sr', by rw [hother i hne]; exact hsr', hproduced⟩, hi⟩
    · rintro ⟨i, ⟨sr', hsr', hproduced⟩, hi⟩
      by_cases hidx : i = idx
      · rw [hidx, hself] at hsr'
        rw [← Option.some.inj hsr'] at hproduced
        exact .inl ⟨hproduced, by rw [← hi, hidx]⟩
      · exact .inr ⟨i, ⟨sr', hother i hidx ▸ hsr', hproduced⟩, hi⟩

theorem step {stopOnFirstFailure : Bool} {w : Fin workers} {phases phases' : Fin workers → Phase π}
    (hs : Scheduled p s (heldBy phases)) (h : Published p s)
    (hchanges : Changes p stopOnFirstFailure w s s' phases phases') : Published p s' := by
  cases hchanges with
  | exits _ _ hstate => exact hstate ▸ h
  | sleeps _ _ hstate => exact hstate ▸ h
  | drains idx ready _ hready _ hstate =>
    obtain ⟨-, hnone, -, -⟩ := hs.head hready
    subst hstate
    refine h.record hnone rfl rfl fun id => ?_
    show id ∈ s.outputs ↔ _
    simp [StageStatus.produced]
  | takes _ _ _ _ _ hstate =>
    subst hstate
    exact ⟨h.ids, h.keys⟩
  | works _ _ _ _ hstate => exact hstate ▸ h
  | dispatches _ _ _ _ hstate =>
    subst hstate
    exact ⟨h.ids, h.keys⟩
  | publishes idx work stage sr payload hphase hstage hstate _ hid _ hpayload =>
    have hw : heldBy phases w = some idx := by rw [heldBy, hphase]; rfl
    have hsame : sr.stageId = p.stageId idx := by rw [hid, Pipeline.stageId_eq hstage]
    subst hstate
    refine h.record (hs.fresh w idx hw) rfl hsame fun id => ?_
    cases payload with
    | none =>
      rw [← hpayload]
      show id ∈ s.outputs ↔ _
      simp
    | some q =>
      rw [← hpayload, ← hsame]
      show id ∈ s.outputs.emplace sr.stageId q ↔ _
      rw [Dict.mem_emplace]
      simp

end Published

/-! ## The history -/

/-- What may happen after a history: a stage is taken while no failure has stopped the run, and it is
dispatched once, after what it refers to, and recorded once. -/
def Lawful (p : Pipeline) (stopOnFirstFailure : Bool) (before : List SchedulerEvent) :
    SchedulerEvent → Prop
  | .taken _ => stopOnFirstFailure = true → ∀ j, .recorded j .failed ∉ before
  | .dispatched i =>
    .dispatched i ∉ before ∧ ∀ j, p.Refers i j → ∃ status, .recorded j status ∈ before
  | .recorded i _ => ∀ status, .recorded i status ∉ before

/-- The history tells of the results as they are and of the plugin calls that were made. -/
structure Recorded (p : Pipeline) (stopOnFirstFailure : Bool) (s : ParallelState π)
    (phases : Fin workers → Phase π) : Prop where
  recorded : ∀ i status,
    .recorded i status ∈ s.history ↔ ∃ sr, s.results i = some sr ∧ sr.status = status
  dispatched : ∀ i, .dispatched i ∈ s.history →
    (s.results i).isSome ∨ ∃ v work, phases v = .working i work ∧ work.called = true
  lawful : Each (Lawful p stopOnFirstFailure) s.history

namespace Recorded

variable {stopOnFirstFailure : Bool} {s s' : ParallelState π} {w : Fin workers}
  {phases phases' : Fin workers → Phase π}

theorem not_recorded (h : Recorded p stopOnFirstFailure s phases) {idx : ℕ}
    (hnew : s.results idx = none) (status : StageStatus) :
    SchedulerEvent.recorded idx status ∉ s.history := by
  rw [h.recorded, hnew]
  rintro ⟨sr, hsr, -⟩
  exact nomatch hsr

theorem record (h : Recorded p stopOnFirstFailure s phases) {idx : ℕ} {sr : StageRunResult}
    (hnew : s.results idx = none) (hresults : s'.results = Function.update s.results idx (some sr))
    (hhistory : s'.history = s.history ++ [.recorded idx sr.status])
    (hcalled : ∀ i v work, i ≠ idx → phases v = .working i work → phases' v = .working i work) :
    Recorded p stopOnFirstFailure s' phases' := by
  have hself : s'.results idx = some sr := by rw [hresults, Function.update_self]
  have hother : ∀ i, i ≠ idx → s'.results i = s.results i := fun i hi => by
    rw [hresults, Function.update_of_ne hi]
  refine ⟨fun i status => ?_, fun i hi => ?_, ?_⟩
  · rw [hhistory, List.mem_append, List.mem_singleton]
    by_cases hidx : i = idx
    · subst hidx
      rw [hself]
      constructor
      · rintro (hbefore | heq)
        · exact absurd hbefore (h.not_recorded hnew status)
        · exact ⟨sr, rfl, (SchedulerEvent.recorded.inj heq).2.symm⟩
      · rintro ⟨sr', hsr', rfl⟩
        rw [Option.some.inj hsr']
        exact .inr rfl
    · rw [hother i hidx, h.recorded]
      exact or_iff_left fun heq => hidx (SchedulerEvent.recorded.inj heq).1
  · have hbefore : SchedulerEvent.dispatched i ∈ s.history := by
      rw [hhistory, List.mem_append, List.mem_singleton] at hi
      exact hi.resolve_right (by simp)
    by_cases hidx : i = idx
    · rw [hidx, hself]
      exact .inl rfl
    · rw [hother i hidx]
      exact (h.dispatched i hbefore).imp_right fun ⟨v, work, hv, hwork⟩ =>
        ⟨v, work, hcalled i v work hidx hv, hwork⟩
  · rw [hhistory]
    exact h.lawful.snoc (h.not_recorded hnew)

theorem called_update (h : Recorded p stopOnFirstFailure s phases) {phase : Phase π}
    (hphase : ∀ i work, phases w = .working i work → work.called = true →
      ∃ work', phase = .working i work' ∧ work'.called = true) {i : ℕ}
    (hi : SchedulerEvent.dispatched i ∈ s.history) :
    (s.results i).isSome ∨
      ∃ v work, Function.update phases w phase v = .working i work ∧ work.called = true := by
  refine (h.dispatched i hi).imp_right fun ⟨v, work, hv, hwork⟩ => ?_
  by_cases hvw : v = w
  · obtain ⟨work', hphase', hwork'⟩ := hphase i work (hvw ▸ hv) hwork
    exact ⟨w, work', by rw [Function.update_self]; exact hphase', hwork'⟩
  · exact ⟨v, work, by rw [Function.update_of_ne hvw]; exact hv, hwork⟩

theorem step (hparents : ∀ i j, j ∈ p.parents i ↔ p.Refers i j) (hs : Scheduled p s (heldBy phases))
    (hhalted : Halted p stopOnFirstFailure s (heldBy phases))
    (h : Recorded p stopOnFirstFailure s phases)
    (hchanges : Changes p stopOnFirstFailure w s s' phases phases') :
    Recorded p stopOnFirstFailure s' phases' := by
  cases hchanges with
  | exits hphase _ hstate hphases =>
    subst hstate hphases
    refine ⟨h.recorded, fun i hi => h.called_update (fun i work heq => ?_) hi, h.lawful⟩
    rw [hphase] at heq
    cases heq
  | sleeps hphase _ hstate hphases =>
    subst hstate hphases
    refine ⟨h.recorded, fun i hi => h.called_update (fun i work heq => ?_) hi, h.lawful⟩
    rw [hphase] at heq
    cases heq
  | drains idx ready hphase hready hstop hstate hphases =>
    obtain ⟨-, hnone, -, -⟩ := hs.head hready
    subst hstate hphases
    refine h.record hnone rfl rfl fun i v work _ hv => ?_
    have hvw : v ≠ w := fun heq => by rw [heq, hphase] at hv; cases hv
    rw [Function.update_of_ne hvw, hv]
    rfl
  | takes idx ready hphase hready hstop hstate hphases =>
    subst hstate hphases
    refine ⟨fun i status => ?_, fun i hi => ?_, h.lawful.snoc fun hopt j hj => ?_⟩
    · rw [List.mem_append, List.mem_singleton, ← h.recorded]
      exact or_iff_left (by simp)
    · rw [List.mem_append, List.mem_singleton] at hi
      refine h.called_update (fun i work heq => ?_) (hi.resolve_right (by simp))
      rw [hphase] at heq
      cases heq
    · obtain ⟨sr, hsr, hstatus⟩ := (h.recorded j .failed).mp hj
      have htrue := hhalted.failed_stop hopt j sr hsr hstatus
      rw [hstop] at htrue
      cases htrue
  | works idx work work' hphase hstate hphases hcalled =>
    subst hstate hphases
    refine ⟨h.recorded, fun i hi => h.called_update (fun i work₁ heq hwork => ?_) hi, h.lawful⟩
    obtain ⟨rfl, rfl⟩ := Phase.working.inj (hphase.symm.trans heq)
    exact ⟨work', rfl, hcalled.trans hwork⟩
  | dispatches idx work work' hphase hstate hphases hnew hcalled =>
    have hw : heldBy phases w = some idx := by rw [heldBy, hphase]; rfl
    subst hstate hphases
    refine ⟨fun i status => ?_, fun i hi => ?_, h.lawful.snoc ⟨fun hmem => ?_, fun j hj => ?_⟩⟩
    · rw [List.mem_append, List.mem_singleton, ← h.recorded]
      exact or_iff_left (by simp)
    · rw [List.mem_append, List.mem_singleton] at hi
      rcases hi with hi | hi
      · refine h.called_update (fun i work₁ heq hwork => ?_) hi
        obtain ⟨rfl, rfl⟩ := Phase.working.inj (hphase.symm.trans heq)
        exact ⟨work', rfl, hcalled⟩
      · obtain rfl := SchedulerEvent.dispatched.inj hi
        exact .inr ⟨w, work', Function.update_self w _ phases, hcalled⟩
    · -- the call is new: the stage has no result, and only this worker holds it
      rcases h.dispatched idx hmem with hsome | ⟨v, work₁, hv, hwork⟩
      · rw [hs.fresh w idx hw] at hsome
        cases hsome
      · have hheld : heldBy phases v = some idx := by rw [heldBy, hv]; rfl
        rw [hs.alone v w idx hheld hw, hphase] at hv
        rw [← (Phase.working.inj hv).2, hnew] at hwork
        cases hwork
    · have hdone := hs.held_parents hw ((hparents idx j).mpr hj)
      obtain ⟨sr, hsr⟩ := Option.isSome_iff_exists.mp (ParallelState.mem_done.mp hdone).2
      exact ⟨sr.status, (h.recorded j sr.status).mpr ⟨sr, hsr, rfl⟩⟩
  | publishes idx work stage sr payload hphase hstage hstate hphases =>
    have hw : heldBy phases w = some idx := by rw [heldBy, hphase]; rfl
    subst hstate hphases
    refine h.record (hs.fresh w idx hw) rfl rfl fun i v work₁ hi hv => ?_
    have hvw : v ≠ w := fun heq => by
      rw [heq, hphase] at hv
      exact hi (Phase.working.inj hv).1.symm
    rw [Function.update_of_ne hvw, hv]
    rfl

end Recorded

/-! ## Every reachable state -/

/-- The invariants together. -/
structure Sound (p : Pipeline) (stopOnFirstFailure : Bool) (s : ParallelState π)
    (phases : Fin workers → Phase π) : Prop where
  scheduled : Scheduled p s (heldBy phases)
  rested : Rested p s phases
  halted : Halted p stopOnFirstFailure s (heldBy phases)
  published : Published p s
  recorded : Recorded p stopOnFirstFailure s phases

theorem Pipeline.parents_iff_refers {order : List ℕ} (hp : p.Ordered order) (i j : ℕ) :
    j ∈ p.parents i ↔ p.Refers i j := by
  obtain ⟨hids, hdistinct⟩ := ids_of_idToIndex hp.ids
  exact mem_parents_iff hids hdistinct fun s hs id hid =>
    (hp.refs s hs id (mem_collectStageRefs.mpr hid)).1

theorem Sound.start {order : List ℕ} (hp : p.Ordered order) (stopOnFirstFailure : Bool)
    (st : Store ω π) :
    Sound p stopOnFirstFailure (System.start p workers st).shared.state
      (System.start p workers st).phases where
  scheduled := .start hp st
  rested := ⟨fun _ h => (nomatch h), fun _ h => (nomatch h)⟩
  halted :=
    { stop_failed := fun h => nomatch h
      failed_stop := fun _ _ _ h => nomatch h
      skipped_stop := fun _ _ h => nomatch h
      held_produced := fun _ _ _ h => nomatch h
      done_produced := fun _ _ ⟨_, h, _⟩ => nomatch h }
  published :=
    { ids := fun _ _ h => nomatch h
      keys := fun _ => ⟨fun h => (nomatch h), fun ⟨_, ⟨_, h, _⟩, _⟩ => nomatch h⟩ }
  recorded :=
    { recorded := fun _ _ => ⟨fun h => (nomatch h), fun ⟨_, h, _⟩ => nomatch h⟩
      dispatched := fun _ h => nomatch h
      lawful := .nil }

theorem Sound.step {order : List ℕ} (hp : p.Ordered order) {sys sys' : System ω π workers}
    (h : Sound p options.stopOnFirstFailure sys.shared.state sys.phases)
    (hstep : System.Steps p d options sys sys') :
    Sound p options.stopOnFirstFailure sys'.shared.state sys'.phases := by
  obtain ⟨w, hchanges⟩ := hstep.changes
  exact
    { scheduled := h.scheduled.step hp hchanges
      rested := h.rested.step h.scheduled hchanges
      halted := h.halted.step h.scheduled hchanges
      published := h.published.step h.scheduled hchanges
      recorded := h.recorded.step (Pipeline.parents_iff_refers hp) h.scheduled h.halted hchanges }

theorem Sound.reachable {order : List ℕ} (hp : p.Ordered order) {st : Store ω π}
    {sys : System ω π workers} (h : System.Reachable p d options st sys) :
    Sound p options.stopOnFirstFailure sys.shared.state sys.phases := by
  induction h with
  | refl => exact .start hp _ st
  | tail _ hstep ih => exact ih.step hp hstep

theorem ParallelState.mem_ready_record {order : List ℕ} (hp : p.Ordered order) {s : ParallelState π}
    (idx : ℕ) (sr : StageRunResult) {i : ℕ} (hi : i ∈ s.ready) : i ∈ (s.record p idx sr).ready := by
  have hperm := release_ready (fun dep ready => List.perm_append_singleton dep ready)
    (hp.dependents_nodup idx) s.inDegree s.ready
  exact hperm.mem_iff.mpr (List.mem_append_right _ hi)

theorem Changes.drained {order : List ℕ} (hp : p.Ordered order) {stopOnFirstFailure : Bool}
    {w : Fin workers} {s s' : ParallelState π} {phases phases' : Fin workers → Phase π}
    (h : Changes p stopOnFirstFailure w s s' phases phases') (hstop : s.stopRequested = true) {i : ℕ}
    (hi : i ∈ s.ready) (hi' : i ∉ s'.ready) : s'.history = s.history ++ [.recorded i .skipped] := by
  cases h with
  | exits _ _ hstate => exact absurd (hstate ▸ hi) hi'
  | sleeps _ _ hstate => exact absurd (hstate ▸ hi) hi'
  | drains idx ready _ hready _ hstate =>
    subst hstate
    rw [hready] at hi
    rcases List.mem_cons.mp hi with rfl | hrest
    · rfl
    · exact absurd (ParallelState.mem_ready_record hp idx _ hrest) hi'
  | takes _ _ _ _ hrunning =>
    rw [hstop] at hrunning
    exact nomatch hrunning
  | works _ _ _ _ hstate => exact absurd (hstate ▸ hi) hi'
  | dispatches _ _ _ _ hstate =>
    subst hstate
    exact absurd hi hi'
  | publishes idx _ _ sr _ _ _ hstate =>
    subst hstate
    exact absurd (ParallelState.mem_ready_record hp idx sr hi) hi'

/-- What the scheduler guarantees in a state. -/
structure SchedulerSafe (p : Pipeline) (d : Dispatcher ω π) (options : RunOptions ω π)
    (sys : System ω π workers) : Prop where
  /-- A stage is recorded at most once, and dispatched at most once and after what it refers to; with
  `stop_on_first_failure` no stage is taken after a failure. -/
  lawful : Each (Lawful p options.stopOnFirstFailure) sys.shared.state.history
  /-- The results are those that were recorded. -/
  recorded : ∀ i status, .recorded i status ∈ sys.shared.state.history ↔
    ∃ sr, sys.shared.state.results i = some sr ∧ sr.status = status
  /-- The packed result has one stage result for each stage. -/
  packed : (sys.pack p).stageResults.map (·.stageId) = p.stages.map (·.id)
  /-- Without `stop_on_first_failure` the workers record them all. -/
  complete : sys.Finished → options.stopOnFirstFailure = false →
    ∀ i < p.stages.length, (sys.shared.state.results i).isSome
  /-- With it, a stage that leaves the ready queue after a failure is recorded as skipped. -/
  drained : options.stopOnFirstFailure = true →
    (∃ j, .recorded j .failed ∈ sys.shared.state.history) →
      ∀ sys', System.Steps p d options sys sys' → ∀ i ∈ sys.shared.state.ready,
        i ∉ sys'.shared.state.ready →
          sys'.shared.state.history = sys.shared.state.history ++ [.recorded i .skipped]
  /-- With it, a stage that has a payload refers to stages that have one. -/
  produced : options.stopOnFirstFailure = true → ∀ i, sys.shared.state.Produced i →
    ∀ j, p.Refers i j → sys.shared.state.Produced j
  outputs : ∀ id, id ∈ sys.shared.state.outputs ↔
    ∃ i sr, sys.shared.state.results i = some sr ∧ sr.status.produced = true ∧ sr.stageId = id
  /-- With nothing in flight no worker has to wait. -/
  awake : sys.shared.state.inFlight = 0 → sys.shared.state.wakes p = true
  /-- No wake-up is lost. -/
  asleep : ∀ w, sys.phases w = .asleep → sys.shared.state.wakes p = false
  /-- Until all workers have returned, some worker can go on. -/
  progress : sys.Finished ∨ ∃ sys', System.Steps p d options sys sys'

theorem Published.pack_ids {sys : System ω π workers} (h : Published p sys.shared.state) :
    (sys.pack p).stageResults.map (·.stageId) = p.stages.map (·.id) := by
  refine List.ext_getElem (by simp [System.pack]) fun i hi hi' => ?_
  have hbound : i < p.stages.length := by simpa using hi'
  simp only [System.pack, List.getElem_map, List.getElem_range]
  rw [← Pipeline.stageId_eq (List.getElem?_eq_getElem hbound)]
  cases hresult : sys.shared.state.results i with
  | none => rfl
  | some sr => exact h.ids i sr hresult

theorem Sound.complete {sys : System ω π workers}
    (h : Sound p options.stopOnFirstFailure sys.shared.state sys.phases)
    (hworkers : 0 < workers ∨ p.stages.length = 0) (hfinished : sys.Finished)
    (hopt : options.stopOnFirstFailure = false) {i : ℕ} (hi : i < p.stages.length) :
    (sys.shared.state.results i).isSome := by
  have hpos : 0 < workers := hworkers.resolve_right (by omega)
  have hleft := h.rested.exited ⟨0, hpos⟩ (hfinished ⟨0, hpos⟩)
  have hfull : sys.shared.state.completedOrSkipped = p.stages.length := by
    refine hleft.resolve_right fun hstop => ?_
    have hon := (h.halted.stop_failed hstop).1
    rw [hopt] at hon
    exact nomatch hon
  cases hresult : sys.shared.state.results i with
  | none => exact absurd hfull (h.scheduled.not_full hi hresult)
  | some sr => rfl

theorem RunOptions.workerCount_pos (hardware : ℕ) :
    0 < options.workerCount p hardware ∨ p.stages.length = 0 := by
  unfold workerCount
  split_ifs <;> omega

/-- The safety of the scheduler: for every pipeline that validates, every number of workers and every
interleaving of their steps. -/
theorem scheduler_safe {order : List ℕ} (hvalid : p.validate = .ok order) {hardware : ℕ}
    {st : Store ω π} {sys : System ω π (options.workerCount p hardware)}
    (hreach : System.Reachable p d options st sys) : SchedulerSafe p d options sys := by
  have hp := Pipeline.validate_ordered hvalid
  have hsound := Sound.reachable hp hreach
  have hrefers := Pipeline.parents_iff_refers hp
  exact
    { lawful := hsound.recorded.lawful
      recorded := hsound.recorded.recorded
      packed := hsound.published.pack_ids
      complete := fun hfinished hopt i hi =>
        hsound.complete (options.workerCount_pos hardware) hfinished hopt hi
      drained := fun hopt ⟨j, hj⟩ sys' hstep i hi hi' => by
        obtain ⟨sr, hsr, hstatus⟩ := (hsound.recorded.recorded j .failed).mp hj
        obtain ⟨w, hchanges⟩ := hstep.changes
        exact hchanges.drained hp (hsound.halted.failed_stop hopt j sr hsr hstatus) hi hi'
      produced := fun hopt i hi j hj =>
        hsound.halted.done_produced hopt i hi j ((hrefers i j).mpr hj)
      outputs := fun id => by
        rw [hsound.published.keys]
        constructor
        · rintro ⟨i, ⟨sr, hsr, hproduced⟩, hi⟩
          exact ⟨i, sr, hsr, hproduced, (hsound.published.ids i sr hsr).trans hi⟩
        · rintro ⟨i, sr, hsr, hproduced, hi⟩
          exact ⟨i, ⟨sr, hsr, hproduced⟩, (hsound.published.ids i sr hsr).symm.trans hi⟩
      awake := hsound.scheduled.wakes_of_idle hp
      asleep := hsound.rested.asleep
      progress := hsound.scheduled.progress hp hsound.rested }

section Example

theorem System.reachable_of_play {st : Store ω π} {ws : List (Fin workers)}
    {P : System ω π workers → Bool} (h : ((start p workers st).play p d options ws).any P = true) :
    ∃ sys, Reachable p d options st sys ∧ P sys = true := by
  obtain ⟨sys, hplay, hsys⟩ := (Option.any_eq_true _ _).mp h
  refine ⟨sys, ?_, hsys⟩
  have hrest : ∀ (ws : List (Fin workers)) (sys₀ : System ω π workers),
      sys₀.play p d options ws = some sys → Relation.ReflTransGen (Steps p d options) sys₀ sys := by
    intro ws
    induction ws with
    | nil =>
      intro sys₀ hnil
      rw [Option.some.inj hnil]
    | cons w ws ih =>
      intro sys₀ hcons
      rw [play, List.foldlM_cons] at hcons
      obtain ⟨sys₁, hstep, hws⟩ := Option.bind_eq_some_iff.mp hcons
      exact .head ⟨w, true, hstep⟩ (ih sys₁ hws)
  exact hrest ws _ hplay

/-- Three stages that wait for nothing; the first one fails. -/
def threeStages : Pipeline :=
  { stages := [⟨"a", "bad", .null⟩, ⟨"b", "good", .null⟩, ⟨"c", "good", .null⟩] }

def badFails : Dispatcher Unit Unit where
  dispatch capabilityId _ _ world :=
    (if capabilityId = "bad" then .error ⟨"failed"⟩ else .ok (some ()), world)

def twoWorkers : RunOptions Unit Unit := { useCache := false, maxWorkers := 2 }

/-- One worker takes the first stage, the other one the second; then the first stage fails. -/
def failingSchedule : List (Fin 2) := [0, 1, 0, 0, 0, 0, 0, 0]

/-- The third stage is taken from the ready queue although a failure is recorded. -/
theorem ready_stage_drained :
    threeStages.validate = .ok [0, 1, 2] ∧ twoWorkers.stopOnFirstFailure = true ∧
      ∃ sys sys' : System Unit Unit 2,
        System.Reachable threeStages badFails twoWorkers ⟨(), {}, {}, []⟩ sys ∧
          System.Steps threeStages badFails twoWorkers sys sys' ∧
          .recorded 0 .failed ∈ sys.shared.state.history ∧ sys.shared.state.ready = [2] ∧
            sys'.shared.state.ready = [] := by
  refine ⟨by decide, rfl, ?_⟩
  have hplay : ((System.start threeStages 2 ⟨(), {}, {}, []⟩).play threeStages badFails twoWorkers
      failingSchedule).any (fun sys =>
        decide (.recorded 0 .failed ∈ sys.shared.state.history) &&
          decide (sys.shared.state.ready = [2]) &&
            (sys.step threeStages badFails twoWorkers 0 true).any fun sys' =>
              decide (sys'.shared.state.ready = [])) = true := by
    decide
  obtain ⟨sys, hreach, hsys⟩ := System.reachable_of_play hplay
  rw [Bool.and_eq_true, Bool.and_eq_true, decide_eq_true_eq, decide_eq_true_eq] at hsys
  obtain ⟨⟨hfailed, hready⟩, hstep⟩ := hsys
  obtain ⟨sys', hsys', hempty⟩ := (Option.any_eq_true _ _).mp hstep
  exact ⟨sys, sys', hreach, ⟨0, true, hsys'⟩, hfailed, hready, of_decide_eq_true hempty⟩

/-- The run in which the third stage is drained, to its end. -/
theorem scheduler_safe_three :
    ∃ sys : System Unit Unit (twoWorkers.workerCount threeStages 1),
      sys.Finished ∧ SchedulerSafe threeStages badFails twoWorkers sys := by
  have hplay : ((System.start threeStages (twoWorkers.workerCount threeStages 1) ⟨(), {}, {}, []⟩).play
      threeStages badFails twoWorkers
      (failingSchedule ++ [0, 0, 1, 1, 1, 1, 1, 1, 1, 1, 0])).any (fun sys =>
        decide (∀ w, (match sys.phases w with | .exited => true | _ => false) = true)) = true := by
    decide
  obtain ⟨sys, hreach, hsys⟩ := System.reachable_of_play hplay
  have hvalid : threeStages.validate = .ok [0, 1, 2] := by decide
  refine ⟨sys, fun w => ?_, scheduler_safe hvalid hreach⟩
  have hw := of_decide_eq_true hsys w
  split at hw
  · assumption
  · exact nomatch hw

end Example

end Souxmar.Pipeline
