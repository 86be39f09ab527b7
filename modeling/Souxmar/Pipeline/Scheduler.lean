import Mathlib.Data.Fintype.Card
import Souxmar.Pipeline.ParallelRunner

/-!
# The parallel scheduler

`Changes` says what a step of a worker does to the scheduler's state; the invariants are derived from it.
Here are the two that keep the workers going: `Scheduled` for the frontier of the graph, `Rested` for
sleeping and leaving.
-/

set_option linter.dupNamespace false

namespace Souxmar.Pipeline

open Souxmar.Lib

/-! ## The graph of the stages -/

namespace Pipeline

variable {p : Pipeline} {order : List ℕ}

theorem slotOf_inj {id id' : String} {i : ℕ} (h : p.slotOf id = some i)
    (h' : p.slotOf id' = some i) : id = id' := by
  unfold slotOf at h h'
  obtain ⟨hi, hid, -⟩ := List.findIdx?_eq_some_iff_getElem.mp h
  obtain ⟨hi', hid', -⟩ := List.findIdx?_eq_some_iff_getElem.mp h'
  have hfirst : p.stages[i].id = id := by simpa using hid
  have hsecond : p.stages[i].id = id' := by simpa using hid'
  rw [← hfirst, hsecond]

theorem slotOf_of_idToIndex {id : String} {i : ℕ} (h : p.idToIndex id = some i) :
    p.slotOf id = some i := by
  unfold idToIndex at h
  split_ifs at h
  exact h

namespace Ordered

variable (h : p.Ordered order)

include h

theorem upstreamIds_eq {i : ℕ} {stage : Stage} (hstage : p.stages[i]? = some stage) :
    p.upstreamIds i = stage.uniqRefs := by
  unfold upstreamIds
  rw [hstage]
  refine List.filter_eq_self.mpr fun ref href => ?_
  obtain ⟨-, j, hj⟩ := h.refs stage (List.mem_of_getElem? hstage) ref (List.mem_dedup.mp href)
  rw [slotOf_of_idToIndex hj]
  rfl

theorem mem_parents {i j : ℕ} {stage : Stage} (hstage : p.stages[i]? = some stage) :
    j ∈ p.parents i ↔ ∃ ref ∈ collectStageRefs stage.input, p.slotOf ref = some j := by
  unfold parents
  rw [hstage, List.mem_toFinset, mem_producers]
  refine exists_congr fun ref => and_congr_right fun href => ?_
  obtain ⟨hself, k, hk⟩ := h.refs stage (List.mem_of_getElem? hstage) ref href
  rw [slotOf_of_idToIndex hk, hk]
  exact ⟨fun ⟨_, hj⟩ => hj, fun hj => ⟨hself, hj⟩⟩

theorem mem_dependents {i j : ℕ} :
    i ∈ p.dependents j ↔ i ∈ Finset.range p.stages.length ∧ j ∈ p.parents i := by
  unfold dependents
  rw [List.mem_flatMap, Finset.mem_range]
  simp only [List.mem_range, List.mem_filterMap, Option.ite_none_right_eq_some, Option.some.injEq]
  constructor
  · rintro ⟨i', hi', ref, href, hj, rfl⟩
    have hstage := List.getElem?_eq_getElem hi'
    rw [h.upstreamIds_eq hstage] at href
    exact ⟨hi', (h.mem_parents hstage).mpr ⟨ref, List.mem_dedup.mp href, hj⟩⟩
  · rintro ⟨hi, hj⟩
    have hstage := List.getElem?_eq_getElem hi
    obtain ⟨ref, href, hslot⟩ := (h.mem_parents hstage).mp hj
    refine ⟨i, hi, ref, ?_, hslot, rfl⟩
    rw [h.upstreamIds_eq hstage]
    exact List.mem_dedup.mpr href

theorem dependents_nodup (j : ℕ) : (p.dependents j).Nodup := by
  unfold dependents
  refine List.nodup_flatMap.mpr ⟨fun i hi => ?_, ?_⟩
  · rw [h.upstreamIds_eq (List.getElem?_eq_getElem (List.mem_range.mp hi))]
    refine List.Nodup.filterMap (fun ref ref' k hk hk' => ?_) (List.nodup_dedup _)
    rw [Option.mem_def, Option.ite_none_right_eq_some] at hk hk'
    exact slotOf_inj hk.1 hk'.1
  · refine List.nodup_range.imp fun {i i'} hne => ?_
    intro k hk hk'
    simp only [List.mem_filterMap, Option.ite_none_right_eq_some, Option.some.injEq] at hk hk'
    obtain ⟨_, -, -, hik⟩ := hk
    obtain ⟨_, -, -, hik'⟩ := hk'
    exact hne (hik.trans hik'.symm)

theorem upstreamCount_eq {i : ℕ} (hi : i ∈ Finset.range p.stages.length) :
    p.upstreamCount i = (p.parents i).card := by
  obtain ⟨stage, hstage⟩ : ∃ stage, p.stages[i]? = some stage :=
    ⟨_, List.getElem?_eq_getElem (Finset.mem_range.mp hi)⟩
  rw [← inDegree_eq, upstreamCount, inDegree, hstage, h.upstreamIds_eq hstage]
  dsimp only
  unfold producers
  -- every reference of the stage is to another stage, one that exists
  have hall : ∀ refs : List String, (∀ ref ∈ refs, ref ∈ stage.uniqRefs) → refs.length =
      (refs.filterMap fun ref => if ref = stage.id then none else p.idToIndex ref).length := by
    intro refs hrefs
    induction refs with
    | nil => rfl
    | cons ref refs ih =>
      have href := List.mem_dedup.mp (hrefs ref List.mem_cons_self)
      obtain ⟨hself, k, hk⟩ := h.refs stage (List.mem_of_getElem? hstage) ref href
      have hrest := ih fun ref' href' => hrefs ref' (List.mem_cons_of_mem _ href')
      rw [List.filterMap_cons, if_neg hself, hk]
      rw [List.length_cons, List.length_cons, hrest]
  exact hall _ fun _ href => href

end Ordered

end Pipeline

/-! ## What a step does -/

variable {ω π : Type} {p : Pipeline} {d : Dispatcher ω π} {options : RunOptions ω π} {workers : ℕ}

/-- The plugin call of the stage has been made. -/
def Work.called : Work π → Bool
  | .dispatching _ _ | .failed _ _ | .returned _ _ | .persisting _ _ | .executed _ _ => true
  | _ => false

/-- The stage handed over a payload, or had one in the cache. -/
def StageStatus.produced : StageStatus → Bool
  | .cached | .executed => true
  | _ => false

/-- The effect of a step of the worker `w` on the scheduler. -/
inductive Changes (p : Pipeline) (stopOnFirstFailure : Bool) (w : Fin workers)
    (s s' : ParallelState π) (phases phases' : Fin workers → Phase π) : Prop
  | exits (hphase : phases w = .waiting)
      (hdone : s.completedOrSkipped = p.stages.length ∨ s.stopRequested = true)
      (hstate : s' = s) (hphases : phases' = Function.update phases w .exited)
  | sleeps (hphase : phases w = .waiting) (hwakes : s.wakes p = false) (hstate : s' = s)
      (hphases : phases' = Function.update phases w .asleep)
  | drains (idx : ℕ) (ready : List ℕ) (hphase : phases w = .waiting)
      (hready : s.ready = idx :: ready) (hstop : s.stopRequested = true)
      (hstate : s' = { s with ready }.record p idx ⟨p.stageId idx, .skipped, default, none⟩)
      (hphases : phases' = Function.update (fun v => (phases v).wake) w .waiting)
  | takes (idx : ℕ) (ready : List ℕ) (hphase : phases w = .waiting)
      (hready : s.ready = idx :: ready) (hstop : s.stopRequested = false)
      (hstate : s' =
        { s with
          ready
          inFlight := s.inFlight + 1
          history := s.history ++ [.taken idx] })
      (hphases : phases' = Function.update phases w (.working idx .taken))
  | works (idx : ℕ) (work work' : Work π) (hphase : phases w = .working idx work)
      (hstate : s' = s) (hphases : phases' = Function.update phases w (.working idx work'))
      (hcalled : work'.called = work.called)
  | dispatches (idx : ℕ) (work work' : Work π) (hphase : phases w = .working idx work)
      (hstate : s' = { s with history := s.history ++ [.dispatched idx] })
      (hphases : phases' = Function.update phases w (.working idx work'))
      (hnew : work.called = false) (hcalled : work'.called = true)
  | publishes (idx : ℕ) (work : Work π) (stage : Stage) (sr : StageRunResult)
      (payload : Option (Option π)) (hphase : phases w = .working idx work)
      (hstage : p.stages[idx]? = some stage)
      (hstate : s' = s.publish p idx sr payload (sr.status = .failed && stopOnFirstFailure))
      (hphases : phases' = Function.update (fun v => (phases v).wake) w .waiting)
      (hid : sr.stageId = stage.id) (hskipped : sr.status ≠ .skipped)
      (hpayload : payload.isSome = sr.status.produced)

theorem awaitWork_changes {w : Fin workers} {shared : Shared ω π} {phases : Fin workers → Phase π}
    {m : Move ω π} (hphase : phases w = .waiting) (hm : awaitWork p shared = m) :
    Changes p options.stopOnFirstFailure w shared.state m.shared.state phases
      (Function.update (if m.notify then fun v => (phases v).wake else phases) w m.phase) := by
  unfold awaitWork at hm
  by_cases hwakes : shared.state.wakes p = true
  · rw [hwakes, if_neg (by decide)] at hm
    by_cases hdone : shared.state.completedOrSkipped = p.stages.length
    · rw [if_pos hdone] at hm
      subst hm
      exact .exits hphase (.inl hdone) rfl rfl
    · rw [if_neg hdone] at hm
      by_cases hstopped : (shared.state.stopRequested && shared.state.inFlight = 0) = true
      · rw [if_pos hstopped] at hm
        subst hm
        exact .exits hphase (.inr (Bool.and_eq_true_iff.mp hstopped).1) rfl rfl
      · rw [if_neg hstopped] at hm
        cases hready : shared.state.ready with
        | nil =>
          -- the predicate holds, and of its three disjuncts none is left
          unfold ParallelState.wakes at hwakes
          rw [Bool.or_eq_true_iff, Bool.or_eq_true_iff] at hwakes
          rcases hwakes with (hready' | hdone') | hstopped'
          · rw [hready] at hready'
            exact absurd hready' (by decide)
          · exact absurd (of_decide_eq_true hdone') hdone
          · exact absurd hstopped' hstopped
        | cons idx ready =>
          rw [hready] at hm
          dsimp only at hm
          by_cases hstop : shared.state.stopRequested = true
          · rw [if_pos hstop] at hm
            subst hm
            exact .drains idx ready hphase hready hstop rfl rfl
          · rw [if_neg hstop] at hm
            subst hm
            exact .takes idx ready hphase hready (by simpa using hstop) rfl rfl
  · have hsleeps : shared.state.wakes p = false := by simpa using hwakes
    rw [hsleeps, if_pos (by decide)] at hm
    subst hm
    exact .sleeps hphase hsleeps rfl rfl

theorem processStage_changes {w : Fin workers} {shared : Shared ω π}
    {phases : Fin workers → Phase π} {idx : ℕ} {work : Work π} {stage : Stage}
    {guardFree putSucceeds : Bool} {m : Move ω π} (hphase : phases w = .working idx work)
    (hstage : p.stages[idx]? = some stage)
    (hm : processStage p d options idx stage guardFree putSucceeds shared work = some m) :
    Changes p options.stopOnFirstFailure w shared.state m.shared.state phases
      (Function.update (if m.notify then fun v => (phases v).wake else phases) w m.phase) := by
  cases work with
  | taken =>
    obtain rfl := Option.some.inj hm
    exact .works idx _ _ hphase rfl rfl rfl
  | hashed key =>
    rw [processStage] at hm
    split_ifs at hm
    · obtain rfl := Option.some.inj hm
      exact .works idx _ _ hphase rfl rfl rfl
    · split at hm <;> obtain rfl := Option.some.inj hm <;> exact .works idx _ _ hphase rfl rfl rfl
  | missed key =>
    rw [processStage] at hm
    split at hm <;> obtain rfl := Option.some.inj hm <;> exact .works idx _ _ hphase rfl rfl rfl
  | read key blob =>
    rw [processStage] at hm
    split at hm <;> obtain rfl := Option.some.inj hm <;> exact .works idx _ _ hphase rfl rfl rfl
  | rehydrated key payload =>
    obtain rfl := Option.some.inj hm
    exact .works idx _ _ hphase rfl rfl rfl
  | found key payload =>
    obtain rfl := Option.some.inj hm
    exact .publishes idx _ stage ⟨stage.id, .cached, key, none⟩ (some (some payload)) hphase hstage
      rfl rfl rfl (by simp) rfl
  | uncached key =>
    obtain rfl := Option.some.inj hm
    exact .works idx _ _ hphase rfl rfl rfl
  | snapshotted key upstream =>
    rw [processStage] at hm
    split_ifs at hm
    obtain rfl := Option.some.inj hm
    exact .dispatches idx _ _ hphase rfl rfl rfl rfl
  | dispatching key upstream =>
    rw [processStage] at hm
    dsimp only at hm
    split at hm <;> obtain rfl := Option.some.inj hm <;> exact .works idx _ _ hphase rfl rfl rfl
  | failed key err =>
    obtain rfl := Option.some.inj hm
    exact .publishes idx _ stage ⟨stage.id, .failed, key, some err⟩ none hphase hstage rfl rfl rfl
      (by simp) rfl
  | returned key payload =>
    cases payload with
    | none =>
      obtain rfl := Option.some.inj hm
      exact .works idx _ _ hphase rfl rfl rfl
    | some q =>
      rw [processStage] at hm
      split_ifs at hm <;> obtain rfl := Option.some.inj hm <;>
        exact .works idx _ _ hphase rfl rfl rfl
  | persisting key payload =>
    rw [processStage] at hm
    split at hm <;> obtain rfl := Option.some.inj hm <;> exact .works idx _ _ hphase rfl rfl rfl
  | executed key payload =>
    obtain rfl := Option.some.inj hm
    exact .publishes idx _ stage ⟨stage.id, .executed, key, none⟩ (some payload) hphase hstage rfl rfl
      rfl (by simp) rfl

theorem System.Steps.changes {sys sys' : System ω π workers}
    (h : System.Steps p d options sys sys') :
    ∃ w, Changes p options.stopOnFirstFailure w sys.shared.state sys'.shared.state sys.phases
      sys'.phases := by
  obtain ⟨w, putSucceeds, hstep⟩ := h
  obtain ⟨m, hmove, rfl⟩ := Option.map_eq_some_iff.mp hstep
  refine ⟨w, ?_⟩
  unfold System.move at hmove
  cases hphase : sys.phases w with
  | waiting =>
    rw [hphase] at hmove
    exact awaitWork_changes hphase (Option.some.inj hmove)
  | asleep => rw [hphase] at hmove; exact nomatch hmove
  | exited => rw [hphase] at hmove; exact nomatch hmove
  | working idx work =>
    rw [hphase] at hmove
    obtain ⟨stage, hstage, hm⟩ := Option.bind_eq_some_iff.mp hmove
    exact processStage_changes hphase hstage hm

/-! ## The frontier -/

/-- The stage a worker has taken. -/
def Phase.held : Phase π → Option ℕ
  | .working idx _ => some idx
  | _ => none

@[simp] theorem Phase.held_wake (phase : Phase π) : phase.wake.held = phase.held := by
  cases phase <;> rfl

theorem Phase.held_eq_some {phase : Phase π} {idx : ℕ} :
    phase.held = some idx ↔ ∃ work, phase = .working idx work := by
  cases phase <;> simp [held, eq_comm]

/-- The stages that have a result. -/
def ParallelState.done (p : Pipeline) (s : ParallelState π) : Finset ℕ :=
  (Finset.range p.stages.length).filter fun i => (s.results i).isSome

theorem ParallelState.mem_done {s : ParallelState π} {i : ℕ} :
    i ∈ s.done p ↔ i < p.stages.length ∧ (s.results i).isSome := by
  unfold done
  rw [Finset.mem_filter, Finset.mem_range]

theorem ParallelState.done_record {s : ParallelState π} {i : ℕ} (hi : i < p.stages.length)
    (sr : StageRunResult) : (s.record p i sr).done p = insert i (s.done p) := by
  ext j
  rw [Finset.mem_insert, mem_done, mem_done]
  show _ ∧ (Function.update s.results i (some sr) j).isSome ↔ _
  by_cases hj : j = i
  · subst hj
    simp [hi]
  · simp [hj]

theorem card_isSome_update (held : Fin workers → Option ℕ) (w : Fin workers) (idx : ℕ)
    (hw : held w = none) :
    (Finset.univ.filter fun v => (Function.update held w (some idx) v).isSome).card =
      (Finset.univ.filter fun v => (held v).isSome).card + 1 := by
  have hset : (Finset.univ.filter fun v => (Function.update held w (some idx) v).isSome) =
      insert w (Finset.univ.filter fun v => (held v).isSome) := by
    ext v
    by_cases hv : v = w
    · subst hv
      simp
    · simp [hv]
  rw [hset, Finset.card_insert_of_notMem (by simp [hw])]

/-- The counters, the ready queue and the stages that the workers hold fit together. -/
structure Scheduled (p : Pipeline) (s : ParallelState π) (held : Fin workers → Option ℕ) :
    Prop where
  frontier : ∃ started : Finset ℕ, (∀ i, i ∈ started ↔ i ∈ s.done p ∨ ∃ v, held v = some i) ∧
    Frontier (Finset.range p.stages.length) p.parents started (s.done p) s.inDegree s.ready
  fresh : ∀ v i, held v = some i → s.results i = none
  alone : ∀ v v' i, held v = some i → held v' = some i → v = v'
  counted : s.inFlight = (Finset.univ.filter fun v => (held v).isSome).card
  completed : s.completedOrSkipped = (s.done p).card
  inside : ∀ i, (s.results i).isSome → i < p.stages.length

namespace Scheduled

variable {s : ParallelState π} {held : Fin workers → Option ℕ} {order : List ℕ}

theorem held_lt (h : Scheduled p s held) {v : Fin workers} {i : ℕ} (hv : held v = some i) :
    i < p.stages.length := by
  obtain ⟨started, hstarted, hfrontier⟩ := h.frontier
  exact Finset.mem_range.mp (hfrontier.started_nodes ((hstarted i).mpr (.inr ⟨v, hv⟩)))

/-- What a held stage refers to has its result. -/
theorem held_parents (h : Scheduled p s held) {v : Fin workers} {i : ℕ} (hv : held v = some i) :
    p.parents i ⊆ s.done p := by
  obtain ⟨started, hstarted, hfrontier⟩ := h.frontier
  exact hfrontier.started_closed i ((hstarted i).mpr (.inr ⟨v, hv⟩))

theorem head (h : Scheduled p s held) {idx : ℕ} {ready : List ℕ} (hready : s.ready = idx :: ready) :
    idx < p.stages.length ∧ s.results idx = none ∧ (∀ v, held v ≠ some idx) ∧
      p.parents idx ⊆ s.done p := by
  obtain ⟨started, hstarted, hfrontier⟩ := h.frontier
  rw [hready] at hfrontier
  obtain ⟨hnode, hnew, hparents⟩ := (hfrontier.mem_ready idx).mp List.mem_cons_self
  have hbound := Finset.mem_range.mp hnode
  rw [hstarted, not_or] at hnew
  refine ⟨hbound, ?_, fun v hv => hnew.2 ⟨v, hv⟩, hparents⟩
  cases hresult : s.results idx with
  | none => rfl
  | some sr =>
    exact absurd (ParallelState.mem_done.mpr ⟨hbound, by rw [hresult]; rfl⟩) hnew.1

theorem take (h : Scheduled p s held) {idx : ℕ} {ready : List ℕ} (hready : s.ready = idx :: ready)
    {w : Fin workers} (hw : held w = none) :
    Scheduled p
      { s with
        ready
        inFlight := s.inFlight + 1
        history := s.history ++ [.taken idx] }
      (Function.update held w (some idx)) := by
  obtain ⟨-, hnone, hidle, -⟩ := h.head hready
  obtain ⟨started, hstarted, hfrontier⟩ := h.frontier
  rw [hready] at hfrontier
  refine ⟨⟨insert idx started, fun i => ?_, hfrontier.take⟩, fun v i hv => ?_, fun v v' i hv hv' => ?_,
    ?_, h.completed, h.inside⟩
  · show _ ↔ i ∈ s.done p ∨ _
    rw [Finset.mem_insert, hstarted]
    constructor
    · rintro (rfl | hdone | ⟨v, hv⟩)
      · exact .inr ⟨w, Function.update_self w _ held⟩
      · exact .inl hdone
      · have hne : v ≠ w := fun heq => by rw [heq, hw] at hv; exact nomatch hv
        exact .inr ⟨v, by rw [Function.update_of_ne hne]; exact hv⟩
    · rintro (hdone | ⟨v, hv⟩)
      · exact .inr (.inl hdone)
      · by_cases hvw : v = w
        · rw [hvw, Function.update_self] at hv
          exact .inl (Option.some.inj hv).symm
        · rw [Function.update_of_ne hvw] at hv
          exact .inr (.inr ⟨v, hv⟩)
  · by_cases hvw : v = w
    · rw [hvw, Function.update_self] at hv
      rw [← Option.some.inj hv]
      exact hnone
    · rw [Function.update_of_ne hvw] at hv
      exact h.fresh v i hv
  · by_cases hvw : v = w <;> by_cases hvw' : v' = w
    · rw [hvw, hvw']
    · rw [hvw, Function.update_self] at hv
      rw [Function.update_of_ne hvw', ← Option.some.inj hv] at hv'
      exact absurd hv' (hidle v')
    · rw [hvw', Function.update_self] at hv'
      rw [Function.update_of_ne hvw, ← Option.some.inj hv'] at hv
      exact absurd hv (hidle v)
    · rw [Function.update_of_ne hvw] at hv
      rw [Function.update_of_ne hvw'] at hv'
      exact h.alone v v' i hv hv'
  · show s.inFlight + 1 = _
    rw [card_isSome_update held w idx hw, h.counted]

theorem record (hp : p.Ordered order) (h : Scheduled p s held) {w : Fin workers} {idx : ℕ}
    (hw : held w = some idx) (sr : StageRunResult) :
    Scheduled p { s.record p idx sr with inFlight := s.inFlight - 1 }
      (Function.update held w none) := by
  have hbound := h.held_lt hw
  have hdone : ({ s.record p idx sr with inFlight := s.inFlight - 1 } : ParallelState π).done p =
      insert idx (s.done p) := ParallelState.done_record hbound sr
  have hnew : idx ∉ s.done p := fun hmem => by
    have hsome := (ParallelState.mem_done.mp hmem).2
    rw [h.fresh w idx hw] at hsome
    exact nomatch hsome
  obtain ⟨started, hstarted, hfrontier⟩ := h.frontier
  have hfinish := hfrontier.finish (fun x ready => List.perm_append_singleton x ready)
    ((hstarted idx).mpr (.inr ⟨w, hw⟩)) hnew (hp.dependents_nodup idx) fun i => hp.mem_dependents
  refine ⟨⟨started, fun i => ?_, by rw [hdone]; exact hfinish⟩, fun v i hv => ?_,
    fun v v' i hv hv' => ?_, ?_, ?_, fun i hi => ?_⟩
  · rw [hdone, Finset.mem_insert, hstarted]
    constructor
    · rintro (hi | ⟨v, hv⟩)
      · exact .inl (.inr hi)
      · by_cases hvw : v = w
        · rw [hvw, hw] at hv
          exact .inl (.inl (Option.some.inj hv).symm)
        · exact .inr ⟨v, by rw [Function.update_of_ne hvw]; exact hv⟩
    · rintro ((rfl | hi) | ⟨v, hv⟩)
      · exact .inr ⟨w, hw⟩
      · exact .inl hi
      · have hvw : v ≠ w := fun heq => by rw [heq, Function.update_self] at hv; exact nomatch hv
        rw [Function.update_of_ne hvw] at hv
        exact .inr ⟨v, hv⟩
  · have hvw : v ≠ w := fun heq => by rw [heq, Function.update_self] at hv; exact nomatch hv
    rw [Function.update_of_ne hvw] at hv
    have hne : i ≠ idx := fun heq => hvw (h.alone v w idx (heq ▸ hv) hw)
    show Function.update s.results idx (some sr) i = none
    rw [Function.update_of_ne hne]
    exact h.fresh v i hv
  · have hvw : v ≠ w := fun heq => by rw [heq, Function.update_self] at hv; exact nomatch hv
    have hvw' : v' ≠ w := fun heq => by rw [heq, Function.update_self] at hv'; exact nomatch hv'
    rw [Function.update_of_ne hvw] at hv
    rw [Function.update_of_ne hvw'] at hv'
    exact h.alone v v' i hv hv'
  · show s.inFlight - 1 = _
    -- the count before is that of the entries after with this one put back
    have hcount := card_isSome_update (Function.update held w none) w idx (Function.update_self w _ _)
    rw [Function.update_idem, ← hw, Function.update_eq_self] at hcount
    rw [h.counted, hcount]
    omega
  · rw [hdone, Finset.card_insert_of_notMem hnew]
    show s.completedOrSkipped + 1 = _
    rw [h.completed]
  · by_cases hi' : i = idx
    · exact hi' ▸ hbound
    · refine h.inside i ?_
      have hsame : Function.update s.results idx (some sr) i = s.results i :=
        Function.update_of_ne hi' _ _
      exact hsame ▸ hi

theorem congr (h : Scheduled p s held) {s' : ParallelState π} (hready : s'.ready = s.ready)
    (hdegree : s'.inDegree = s.inDegree) (hresults : s'.results = s.results)
    (hinFlight : s'.inFlight = s.inFlight) (hcompleted : s'.completedOrSkipped = s.completedOrSkipped) :
    Scheduled p s' held := by
  have hdone : s'.done p = s.done p := by
    unfold ParallelState.done
    rw [hresults]
  refine ⟨?_, ?_, h.alone, ?_, ?_, ?_⟩
  · rw [hdone, hdegree, hready]
    exact h.frontier
  · rw [hresults]
    exact h.fresh
  · rw [hinFlight]
    exact h.counted
  · rw [hdone, hcompleted]
    exact h.completed
  · rw [hresults]
    exact h.inside

theorem drain (hp : p.Ordered order) (h : Scheduled p s held) {idx : ℕ} {ready : List ℕ}
    (hready : s.ready = idx :: ready) {w : Fin workers} (hw : held w = none) (sr : StageRunResult) :
    Scheduled p ({ s with ready }.record p idx sr) held := by
  have hrecord := (h.take hready hw).record hp (Function.update_self w _ held) sr
  have hback : Function.update (Function.update held w (some idx)) w none = held := by
    rw [Function.update_idem, ← hw, Function.update_eq_self]
  rw [hback] at hrecord
  exact hrecord.congr rfl rfl rfl rfl rfl

end Scheduled

def heldBy (phases : Fin workers → Phase π) : Fin workers → Option ℕ := fun v => (phases v).held

theorem heldBy_update (phases : Fin workers → Phase π) (w : Fin workers) (phase : Phase π) :
    heldBy (Function.update phases w phase) = Function.update (heldBy phases) w phase.held := by
  funext v
  by_cases hv : v = w
  · subst hv
    simp [heldBy]
  · simp [heldBy, hv]

theorem heldBy_wake (phases : Fin workers → Phase π) :
    heldBy (fun v => (phases v).wake) = heldBy phases := by
  funext v
  exact Phase.held_wake _

theorem heldBy_keep {phases : Fin workers → Phase π} {w : Fin workers} {phase : Phase π}
    (h : phase.held = (phases w).held) : heldBy (Function.update phases w phase) = heldBy phases := by
  rw [heldBy_update, h]
  exact Function.update_eq_self w (heldBy phases)

section

variable {order : List ℕ} {stopOnFirstFailure : Bool} {w : Fin workers} {s s' : ParallelState π}
  {phases phases' : Fin workers → Phase π}

theorem Scheduled.step (hp : p.Ordered order) (h : Scheduled p s (heldBy phases))
    (hchanges : Changes p stopOnFirstFailure w s s' phases phases') :
    Scheduled p s' (heldBy phases') := by
  cases hchanges with
  | exits hphase _ hstate hphases =>
    rw [hstate, hphases, heldBy_keep (by rw [hphase]; rfl)]
    exact h
  | sleeps hphase _ hstate hphases =>
    rw [hstate, hphases, heldBy_keep (by rw [hphase]; rfl)]
    exact h
  | drains idx ready hphase hready _ hstate hphases =>
    have hw : heldBy phases w = none := by rw [heldBy, hphase]; rfl
    rw [hstate, hphases, heldBy_keep (by rw [hphase]; rfl), heldBy_wake]
    exact h.drain hp hready hw _
  | takes idx ready hphase hready _ hstate hphases =>
    have hw : heldBy phases w = none := by rw [heldBy, hphase]; rfl
    rw [hstate, hphases, heldBy_update]
    exact h.take hready hw
  | works idx work work' hphase hstate hphases =>
    rw [hstate, hphases, heldBy_keep (by rw [hphase]; rfl)]
    exact h
  | dispatches idx work work' hphase hstate hphases =>
    rw [hstate, hphases, heldBy_keep (by rw [hphase]; rfl)]
    exact h.congr rfl rfl rfl rfl rfl
  | publishes idx work stage sr payload hphase hstage hstate hphases =>
    have hw : heldBy phases w = some idx := by rw [heldBy, hphase]; rfl
    rw [hstate, hphases, heldBy_update, heldBy_wake]
    exact (h.record hp hw sr).congr rfl rfl rfl rfl rfl

end

/-! ## Sleeping and leaving -/

/-- A worker sleeps only while its predicate is false, and leaves only at the end or after a stop. -/
structure Rested (p : Pipeline) (s : ParallelState π) (phases : Fin workers → Phase π) : Prop where
  asleep : ∀ v, phases v = .asleep → s.wakes p = false
  exited : ∀ v, phases v = .exited →
    s.completedOrSkipped = p.stages.length ∨ s.stopRequested = true

theorem Phase.wake_ne_asleep (phase : Phase π) : phase.wake ≠ .asleep := by
  cases phase <;> simp [wake]

theorem Phase.wake_eq_exited {phase : Phase π} (h : phase.wake = .exited) : phase = .exited := by
  cases phase <;> simp_all [wake]

section

variable {order : List ℕ} {stopOnFirstFailure : Bool} {w : Fin workers} {s s' : ParallelState π}
  {phases phases' : Fin workers → Phase π}

/-- Once every stage has its result none is left to record. -/
theorem Scheduled.not_full {held : Fin workers → Option ℕ} (h : Scheduled p s held) {i : ℕ}
    (hi : i < p.stages.length) (hnone : s.results i = none) :
    s.completedOrSkipped ≠ p.stages.length := by
  rw [h.completed]
  intro hcard
  have hall : s.done p = Finset.range p.stages.length :=
    Finset.eq_of_subset_of_card_le (Finset.filter_subset _ _) (by rw [hcard, Finset.card_range])
  have hmem : i ∈ s.done p := hall ▸ Finset.mem_range.mpr hi
  have hsome := (ParallelState.mem_done.mp hmem).2
  rw [hnone] at hsome
  exact nomatch hsome

theorem Rested.keep (h : Rested p s phases) {phase : Phase π}
    (hphases : phases' = Function.update phases w phase)
    (hasleep : phase = .asleep → s'.wakes p = false)
    (hexited : phase = .exited →
      s'.completedOrSkipped = p.stages.length ∨ s'.stopRequested = true)
    (hwakes : s.wakes p = false → s'.wakes p = false)
    (hleft : s.completedOrSkipped = p.stages.length ∨ s.stopRequested = true →
      s'.completedOrSkipped = p.stages.length ∨ s'.stopRequested = true) : Rested p s' phases' := by
  subst hphases
  refine ⟨fun v hv => ?_, fun v hv => ?_⟩
  · by_cases hvw : v = w
    · rw [hvw, Function.update_self] at hv
      exact hasleep hv
    · rw [Function.update_of_ne hvw] at hv
      exact hwakes (h.asleep v hv)
  · by_cases hvw : v = w
    · rw [hvw, Function.update_self] at hv
      exact hexited hv
    · rw [Function.update_of_ne hvw] at hv
      exact hleft (h.exited v hv)

theorem Rested.notified (h : Rested p s phases)
    (hphases : phases' = Function.update (fun v => (phases v).wake) w .waiting)
    (hleft : s.completedOrSkipped = p.stages.length ∨ s.stopRequested = true →
      s'.completedOrSkipped = p.stages.length ∨ s'.stopRequested = true) : Rested p s' phases' := by
  subst hphases
  refine ⟨fun v hv => ?_, fun v hv => ?_⟩
  · by_cases hvw : v = w
    · rw [hvw, Function.update_self] at hv
      exact nomatch hv
    · rw [Function.update_of_ne hvw] at hv
      exact absurd hv (Phase.wake_ne_asleep _)
  · by_cases hvw : v = w
    · rw [hvw, Function.update_self] at hv
      exact nomatch hv
    · rw [Function.update_of_ne hvw] at hv
      exact hleft (h.exited v (Phase.wake_eq_exited hv))

theorem Rested.step (hs : Scheduled p s (heldBy phases)) (h : Rested p s phases)
    (hchanges : Changes p stopOnFirstFailure w s s' phases phases') : Rested p s' phases' := by
  cases hchanges with
  | exits _ hdone hstate hphases =>
    subst hstate
    exact h.keep hphases (fun heq => nomatch heq) (fun _ => hdone) id id
  | sleeps _ hwakes hstate hphases =>
    subst hstate
    exact h.keep hphases (fun _ => hwakes) (fun heq => nomatch heq) id id
  | drains idx ready _ hready hstop hstate hphases =>
    refine h.notified hphases fun _ => .inr ?_
    rw [hstate]
    exact hstop
  | takes idx ready _ hready hstop hstate hphases =>
    -- the ready queue was not empty, so nobody slept
    have hawake : s.wakes p = true := by
      unfold ParallelState.wakes
      rw [hready]
      rfl
    refine h.keep hphases (fun heq => nomatch heq) (fun heq => nomatch heq) (fun hwakes => ?_) ?_
    · rw [hawake] at hwakes
      exact nomatch hwakes
    · rw [hstate]
      exact id
  | works _ _ _ _ hstate hphases =>
    subst hstate
    exact h.keep hphases (fun heq => nomatch heq) (fun heq => nomatch heq) id id
  | dispatches _ _ _ _ hstate hphases =>
    subst hstate
    exact h.keep hphases (fun heq => nomatch heq) (fun heq => nomatch heq) id id
  | publishes idx work stage sr payload hphase _ hstate hphases =>
    have hw : heldBy phases w = some idx := by rw [heldBy, hphase]; rfl
    have hopen := hs.not_full (hs.held_lt hw) (hs.fresh w idx hw)
    refine h.notified hphases fun hleft => .inr ?_
    rw [hstate]
    show (s.stopRequested || _) = true
    rw [hleft.resolve_left hopen, Bool.true_or]

end

/-! ## Getting on -/

section

variable {order : List ℕ}

theorem Scheduled.start (hp : p.Ordered order) (st : Store ω π) :
    Scheduled p (System.start p workers st).shared.state
      (heldBy (System.start p workers st).phases) where
  frontier := by
    have hdone : (System.start p workers st).shared.state.done p = ∅ :=
      Finset.filter_eq_empty_iff.mpr fun i _ hsome => nomatch hsome
    refine ⟨∅, fun i => ?_, ?_⟩
    · rw [hdone]
      exact ⟨fun h => absurd h (Finset.notMem_empty i),
        fun h => h.elim id fun ⟨v, hv⟩ => nomatch hv⟩
    · rw [hdone]
      refine .init (fun i hi => hp.upstreamCount_eq hi) (List.nodup_range.filter _) fun i => ?_
      show i ∈ List.filter _ _ ↔ _ ∧ p.upstreamCount i = 0
      simp
  fresh v i hv := nomatch hv
  alone v v' i hv := nomatch hv
  counted := by
    have hnone := Finset.filter_eq_empty_iff.mpr fun (v : Fin workers) (_ : v ∈ Finset.univ)
      (hv : (heldBy (System.start p workers st).phases v).isSome = true) => nomatch hv
    rw [hnone]
    rfl
  completed := by
    have hdone : (System.start p workers st).shared.state.done p = ∅ :=
      Finset.filter_eq_empty_iff.mpr fun i _ hsome => nomatch hsome
    rw [hdone]
    rfl
  inside i hi := nomatch hi

theorem Scheduled.wakes_of_idle (hp : p.Ordered order) {s : ParallelState π}
    {held : Fin workers → Option ℕ} (h : Scheduled p s held) (hidle : s.inFlight = 0) :
    s.wakes p = true := by
  have hnone : ∀ v, held v = none := by
    intro v
    have hcount := h.counted
    rw [hidle, eq_comm, Finset.card_eq_zero, Finset.filter_eq_empty_iff] at hcount
    simpa using hcount (Finset.mem_univ v)
  unfold ParallelState.wakes
  cases hready : s.ready with
  | cons idx ready => rfl
  | nil =>
    obtain ⟨started, hstarted, hfrontier⟩ := h.frontier
    have hsame : started = s.done p := by
      ext i
      rw [hstarted]
      exact or_iff_left fun ⟨v, hv⟩ => by rw [hnone v] at hv; exact nomatch hv
    rw [hsame, hready] at hfrontier
    have hparents : ∀ i ∈ Finset.range p.stages.length, p.parents i ⊆ Finset.range p.stages.length := by
      intro i _ j hj
      obtain ⟨stage, hstage⟩ : ∃ stage, p.stages[i]? = some stage :=
        ⟨_, List.getElem?_eq_getElem (Finset.mem_range.mp ‹_›)⟩
      obtain ⟨ref, -, hslot⟩ := (hp.mem_parents hstage).mp hj
      exact Finset.mem_range.mpr (List.findIdx?_eq_some_iff_getElem.mp hslot).1
    have hnodup : order.Nodup := hp.perm.nodup_iff.mpr List.nodup_range
    have hacyclic := hp.topological.acyclic hnodup fun i hi =>
      hp.perm.mem_iff.mpr (List.mem_range.mpr (Finset.mem_range.mp hi))
    have hall := hfrontier.all_done hparents hacyclic
    have hfull : s.completedOrSkipped = p.stages.length := by
      rw [h.completed, hall, Finset.card_range]
    simp [hfull]

theorem processStage_isSome {idx : ℕ} {stage : Stage} {guardFree putSucceeds : Bool}
    {shared : Shared ω π} {work : Work π}
    (h : guardFree = true ∨ ∀ key upstream, work ≠ .snapshotted key upstream) :
    (processStage p d options idx stage guardFree putSucceeds shared work).isSome = true := by
  cases work with
  | snapshotted key upstream =>
    rw [processStage, if_pos (h.resolve_right fun hne => hne key upstream rfl)]
    rfl
  | taken | rehydrated | found | uncached | failed | executed => rfl
  | hashed key =>
    rw [processStage]
    split_ifs
    · rfl
    · split <;> rfl
  | returned key payload =>
    unfold processStage
    cases payload with
    | none => rfl
    | some q =>
      dsimp only
      split_ifs <;> rfl
  | missed | read | dispatching | persisting =>
    unfold processStage
    dsimp only
    split <;> rfl

namespace System

variable {sys : System ω π workers}

theorem steps_of_working {w : Fin workers} {idx : ℕ} {work : Work π} {stage : Stage}
    (hphase : sys.phases w = .working idx work) (hstage : p.stages[idx]? = some stage)
    (h : sys.guardFree p d stage = true ∨ ∀ key upstream, work ≠ .snapshotted key upstream) :
    ∃ sys', Steps p d options sys sys' := by
  have hsome : (processStage p d options idx stage (sys.guardFree p d stage) true sys.shared
      work).isSome = true := processStage_isSome h
  obtain ⟨m, hm⟩ := Option.isSome_iff_exists.mp hsome
  have hmove : sys.move p d options w true = some m := by
    unfold move
    rw [hphase]
    dsimp only
    rw [hstage]
    exact hm
  exact ⟨_, w, true, by rw [step, hmove, Option.map_some]⟩

theorem steps_of_holds {v : Fin workers} {pluginId : String}
    (hholds : (sys.phases v).holds p d pluginId = true) : ∃ sys', Steps p d options sys sys' := by
  cases hphase : sys.phases v with
  | waiting | asleep | exited =>
    rw [hphase] at hholds
    exact nomatch hholds
  | working idx work =>
    rw [hphase] at hholds
    unfold Phase.holds at hholds
    split at hholds
    · rename_i idx' key upstream heq
      obtain ⟨rfl, rfl⟩ := Phase.working.inj heq
      obtain ⟨stage, hstage, -⟩ := (Option.any_eq_true _ _).mp hholds
      exact steps_of_working hphase hstage (.inr fun key upstream heq => nomatch heq)
    · exact nomatch hholds

end System

variable {sys : System ω π workers}

theorem Scheduled.steps_of_held (h : Scheduled p sys.shared.state (heldBy sys.phases))
    {w : Fin workers} {idx : ℕ} (hw : heldBy sys.phases w = some idx) :
    ∃ sys', System.Steps p d options sys sys' := by
  obtain ⟨work, hphase⟩ := Phase.held_eq_some.mp hw
  obtain ⟨stage, hstage⟩ : ∃ stage, p.stages[idx]? = some stage :=
    ⟨_, List.getElem?_eq_getElem (h.held_lt hw)⟩
  by_cases hfree : sys.guardFree p d stage = true
  · exact System.steps_of_working hphase hstage (.inl hfree)
  · unfold System.guardFree at hfree
    rw [Bool.or_eq_true, not_or, decide_eq_true_eq, decide_eq_true_eq, not_forall] at hfree
    obtain ⟨v, hv⟩ := hfree.2
    exact System.steps_of_holds (Bool.of_not_eq_false hv)

theorem Scheduled.progress (hp : p.Ordered order)
    (h : Scheduled p sys.shared.state (heldBy sys.phases))
    (hrested : Rested p sys.shared.state sys.phases) :
    sys.Finished ∨ ∃ sys', System.Steps p d options sys sys' := by
  by_cases hfinished : sys.Finished
  · exact .inl hfinished
  · obtain ⟨w, hw⟩ := not_forall.mp hfinished
    refine .inr ?_
    cases hphase : sys.phases w with
    | exited => exact absurd hphase hw
    | waiting =>
      have hmove : sys.move p d options w true = some (awaitWork p sys.shared) := by
        unfold System.move
        rw [hphase]
      exact ⟨_, w, true, by rw [System.step, hmove, Option.map_some]⟩
    | working idx work => exact h.steps_of_held (Phase.held_eq_some.mpr ⟨work, hphase⟩)
    | asleep =>
      -- its predicate is false, so something is in flight
      have hbusy : sys.shared.state.inFlight ≠ 0 := fun hidle => by
        have hwakes := h.wakes_of_idle hp hidle
        rw [hrested.asleep w hphase] at hwakes
        exact nomatch hwakes
      rw [h.counted, ne_eq, Finset.card_eq_zero, ← ne_eq, ← Finset.nonempty_iff_ne_empty] at hbusy
      obtain ⟨v, hv⟩ := hbusy
      obtain ⟨idx, hidx⟩ := Option.isSome_iff_exists.mp (Finset.mem_filter.mp hv).2
      exact h.steps_of_held hidx

end

end Souxmar.Pipeline
