import Mathlib.Algebra.Order.BigOperators.Group.Finset
import Mathlib.Data.Fintype.BigOperators
import Souxmar.Lib.Inevitable
import Souxmar.Pipeline.Settlement

/-!
# The parallel runner comes to the same

Whatever the workers do in whatever order, they come to an end, and what they leave is what the sequential runner would
have: `parallel_refines_sequential`. A stage may be `Cached` for the one and `Executed` for the other when another stage
has its hash.

`Faithful` is what holds between the steps of the workers, `effort` is what every step lowers.
-/

set_option linter.dupNamespace false

namespace Souxmar.Pipeline

open Souxmar.Lib

variable {ω π : Type}

/-! ## The steps -/

section

variable {p : Pipeline} {d : Dispatcher ω π} {options : RunOptions ω π} {workers : ℕ}

/-- What a worker leaves behind. -/
def System.after (sys : System ω π workers) (w : Fin workers) (m : Move ω π) : System ω π workers where
  shared := m.shared
  phases := Function.update (if m.notify then fun v => (sys.phases v).wake else sys.phases) w m.phase

theorem System.Steps.elim {sys sys' : System ω π workers} (h : System.Steps p d options sys sys') :
    ∃ w m, sys' = sys.after w m ∧ ((sys.phases w = .waiting ∧ awaitWork p sys.shared = m) ∨
      ∃ idx work stage guardFree putSucceeds, sys.phases w = .working idx work ∧ p.stages[idx]? = some stage ∧
        processStage p d options idx stage guardFree putSucceeds sys.shared work = some m) := by
  obtain ⟨w, putSucceeds, hstep⟩ := h
  obtain ⟨m, hmove, rfl⟩ := Option.map_eq_some_iff.mp hstep
  refine ⟨w, m, rfl, ?_⟩
  unfold System.move at hmove
  cases hphase : sys.phases w with
  | waiting =>
    rw [hphase] at hmove
    exact .inl ⟨rfl, Option.some.inj hmove⟩
  | asleep =>
    rw [hphase] at hmove
    cases hmove
  | exited =>
    rw [hphase] at hmove
    cases hmove
  | working idx work =>
    rw [hphase] at hmove
    obtain ⟨stage, hstage, hm⟩ := Option.bind_eq_some_iff.mp hmove
    exact .inr ⟨idx, work, stage, _, putSucceeds, rfl, hstage, hm⟩

theorem awaitWork_shared (p : Pipeline) (s : Shared ω π) : (awaitWork p s).shared.world = s.world ∧
    (awaitWork p s).shared.cache = s.cache ∧ (awaitWork p s).shared.disk = s.disk := by
  unfold awaitWork
  cases s.state.ready with
  | nil => split_ifs <;> exact ⟨rfl, rfl, rfl⟩
  | cons idx ready =>
    dsimp only
    split_ifs <;> exact ⟨rfl, rfl, rfl⟩

end

/-! ## The end of the run -/

/-- How far a stage is from its end. -/
def Work.rank : Work π → ℕ
  | .taken => 11
  | .hashed _ => 10
  | .missed _ => 9
  | .read _ _ => 8
  | .rehydrated _ _ => 7
  | .uncached _ => 6
  | .snapshotted _ _ => 5
  | .dispatching _ _ => 4
  | .returned _ _ => 3
  | .persisting _ _ => 2
  | .found _ _ | .failed _ _ | .executed _ _ => 1

/-- A worker that has a stage can wake up all others with it. -/
def Phase.effort (workers : ℕ) : Phase π → ℕ
  | .exited => 0
  | .asleep => 1
  | .waiting => 2
  | .working _ work => workers + 3 + work.rank

@[simp] theorem Phase.effort_exited (workers : ℕ) : (exited : Phase π).effort workers = 0 := rfl

@[simp] theorem Phase.effort_asleep (workers : ℕ) : (asleep : Phase π).effort workers = 1 := rfl

@[simp] theorem Phase.effort_waiting (workers : ℕ) : (waiting : Phase π).effort workers = 2 := rfl

@[simp] theorem Phase.effort_working (workers idx : ℕ) (work : Work π) :
    (working idx work).effort workers = workers + 3 + work.rank := rfl

@[simp] theorem Phase.wake_waiting : (waiting : Phase π).wake = waiting := rfl

@[simp] theorem Phase.wake_working (idx : ℕ) (work : Work π) : (working idx work).wake = working idx work := rfl

@[simp] theorem Work.rank_taken : (taken : Work π).rank = 11 := rfl

/-- The work of the workers, and that of the stages that nobody has taken. -/
def System.effort (p : Pipeline) {workers : ℕ} (sys : System ω π workers) : ℕ :=
  ∑ v, (sys.phases v).effort workers +
    (workers + 15) * (p.stages.length - (sys.shared.state.completedOrSkipped + sys.shared.state.inFlight))

section

variable {p : Pipeline} {d : Dispatcher ω π} {options : RunOptions ω π} {workers : ℕ}

theorem processStage_rank {idx : ℕ} {stage : Stage} {guardFree putSucceeds : Bool} {shared : Shared ω π}
    {work work' : Work π} {idx' : ℕ} {m : Move ω π}
    (hm : processStage p d options idx stage guardFree putSucceeds shared work = some m)
    (hphase : m.phase = .working idx' work') : work'.rank < work.rank := by
  cases work with
  | taken =>
    obtain rfl := Option.some.inj hm
    cases hphase
    simp [Work.rank]
  | hashed key =>
    rw [processStage] at hm
    split_ifs at hm
    · obtain rfl := Option.some.inj hm
      cases hphase
      simp [Work.rank]
    · split at hm <;> obtain rfl := Option.some.inj hm <;> cases hphase <;> simp [Work.rank]
  | missed key =>
    rw [processStage] at hm
    split at hm <;> obtain rfl := Option.some.inj hm <;> cases hphase <;> simp [Work.rank]
  | read key blob =>
    rw [processStage] at hm
    split at hm <;> obtain rfl := Option.some.inj hm <;> cases hphase <;> simp [Work.rank]
  | rehydrated key payload =>
    obtain rfl := Option.some.inj hm
    cases hphase
    simp [Work.rank]
  | found key payload =>
    obtain rfl := Option.some.inj hm
    cases hphase
  | uncached key =>
    obtain rfl := Option.some.inj hm
    cases hphase
    simp [Work.rank]
  | snapshotted key upstream =>
    rw [processStage] at hm
    split_ifs at hm
    obtain rfl := Option.some.inj hm
    cases hphase
    simp [Work.rank]
  | dispatching key upstream =>
    rw [processStage] at hm
    dsimp only at hm
    split at hm <;> obtain rfl := Option.some.inj hm <;> cases hphase <;> simp [Work.rank]
  | failed key err =>
    obtain rfl := Option.some.inj hm
    cases hphase
  | returned key payload =>
    cases payload with
    | none =>
      obtain rfl := Option.some.inj hm
      cases hphase
      simp [Work.rank]
    | some q =>
      rw [processStage] at hm
      split_ifs at hm <;> obtain rfl := Option.some.inj hm <;> cases hphase <;> simp [Work.rank]
  | persisting key payload =>
    rw [processStage] at hm
    split at hm <;> obtain rfl := Option.some.inj hm <;> cases hphase <;> simp [Work.rank]
  | executed key payload =>
    obtain rfl := Option.some.inj hm
    cases hphase

theorem sum_update (f : Phase π → ℕ) (phases : Fin workers → Phase π) (w : Fin workers) (phase : Phase π) :
    ∑ v, f (Function.update phases w phase v) + f (phases w) = ∑ v, f (phases v) + f phase := by
  rw [← Finset.add_sum_erase Finset.univ _ (Finset.mem_univ w),
    ← Finset.add_sum_erase Finset.univ (fun v => f (phases v)) (Finset.mem_univ w), Function.update_self]
  have hrest : ∑ v ∈ Finset.univ.erase w, f (Function.update phases w phase v) =
      ∑ v ∈ Finset.univ.erase w, f (phases v) :=
    Finset.sum_congr rfl fun v hv => by rw [Function.update_of_ne (Finset.ne_of_mem_erase hv)]
  rw [hrest]
  omega

theorem Phase.effort_wake_le (phase : Phase π) : phase.wake.effort workers ≤ phase.effort workers + 1 := by
  cases phase <;> simp [wake, effort]

theorem sum_wake_le (phases : Fin workers → Phase π) :
    ∑ v, (phases v).wake.effort workers ≤ ∑ v, (phases v).effort workers + workers := by
  calc ∑ v, (phases v).wake.effort workers ≤ ∑ v, ((phases v).effort workers + 1) :=
        Finset.sum_le_sum fun v _ => Phase.effort_wake_le (phases v)
    _ = ∑ v, (phases v).effort workers + workers := by
        rw [Finset.sum_add_distrib, ← Finset.card_eq_sum_ones, Finset.card_univ, Fintype.card_fin]

theorem Scheduled.counted_le {s : ParallelState π} {held : Fin workers → Option ℕ} (h : Scheduled p s held) :
    s.completedOrSkipped + s.inFlight ≤ p.stages.length := by
  rw [h.completed, h.counted, ← Finset.card_range p.stages.length]
  have hinj : Set.InjOn (fun v => (held v).getD 0)
      (Finset.univ.filter fun v => (held v).isSome : Finset (Fin workers)) := by
    intro v hv v' hv' heq
    obtain ⟨i, hi⟩ := Option.isSome_iff_exists.mp (Finset.mem_filter.mp hv).2
    obtain ⟨i', hi'⟩ := Option.isSome_iff_exists.mp (Finset.mem_filter.mp hv').2
    simp only [hi, hi', Option.getD_some] at heq
    exact h.alone v v' i hi (heq ▸ hi')
  rw [← Finset.card_image_of_injOn hinj, ← Finset.card_union_of_disjoint]
  · refine Finset.card_le_card (Finset.union_subset (Finset.filter_subset _ _) fun i hi => ?_)
    obtain ⟨v, hv, rfl⟩ := Finset.mem_image.mp hi
    obtain ⟨i, hi⟩ := Option.isSome_iff_exists.mp (Finset.mem_filter.mp hv).2
    rw [hi]
    exact Finset.mem_range.mpr (h.held_lt hi)
  · refine Finset.disjoint_left.mpr fun i hdone hi => ?_
    obtain ⟨v, hv, rfl⟩ := Finset.mem_image.mp hi
    obtain ⟨i, hi⟩ := Option.isSome_iff_exists.mp (Finset.mem_filter.mp hv).2
    have hsome := (ParallelState.mem_done.mp hdone).2
    rw [hi, Option.getD_some, h.fresh v i hi] at hsome
    cases hsome

theorem Scheduled.inFlight_pos {sys : System ω π workers} (h : Scheduled p sys.shared.state (heldBy sys.phases))
    {w : Fin workers} {idx : ℕ} {work : Work π} (hphase : sys.phases w = .working idx work) :
    0 < sys.shared.state.inFlight := by
  have hw : heldBy sys.phases w = some idx := by
    rw [heldBy, hphase]
    rfl
  rw [h.counted]
  exact Finset.card_pos.mpr ⟨w, Finset.mem_filter.mpr ⟨Finset.mem_univ w, by rw [hw]; rfl⟩⟩

/-- A worker that goes on with its stage has less left to do on it. -/
theorem System.rank_lt {sys : System ω π workers} {w : Fin workers} {m : Move ω π}
    (hw : (sys.phases w = .waiting ∧ awaitWork p sys.shared = m) ∨
      ∃ idx work stage guardFree putSucceeds, sys.phases w = .working idx work ∧ p.stages[idx]? = some stage ∧
        processStage p d options idx stage guardFree putSucceeds sys.shared work = some m)
    {idx idx' : ℕ} {work work' : Work π} (hphase : sys.phases w = .working idx work)
    (hphase' : (sys.after w m).phases w = .working idx' work') : work'.rank < work.rank := by
  have hself : (sys.after w m).phases w = m.phase := Function.update_self w _ _
  rcases hw with ⟨hwait, -⟩ | ⟨idx₁, work₁, stage, guardFree, putSucceeds, hphase₁, -, hm⟩
  · rw [hphase] at hwait
    cases hwait
  · rw [hphase] at hphase₁
    obtain ⟨rfl, rfl⟩ := Phase.working.inj hphase₁
    exact processStage_rank hm (hself ▸ hphase')

theorem System.effort_lt_of_changes {sys sys' : System ω π workers} {w : Fin workers}
    (h : Scheduled p sys.shared.state (heldBy sys.phases))
    (hchanges : Changes p options.stopOnFirstFailure w sys.shared.state sys'.shared.state sys.phases sys'.phases)
    (hcounted : sys'.shared.state.completedOrSkipped + sys'.shared.state.inFlight ≤ p.stages.length)
    (hrank : ∀ idx work idx' work', sys.phases w = .working idx work → sys'.phases w = .working idx' work' →
      work'.rank < work.rank) : sys'.effort p < sys.effort p := by
  unfold System.effort
  cases hchanges with
  | exits hphase _ hstate hphases =>
    have hsum := sum_update (Phase.effort workers) sys.phases w .exited
    rw [hphase] at hsum
    rw [hstate, hphases]
    simp only [Phase.effort_exited, Phase.effort_waiting] at hsum
    omega
  | sleeps hphase _ hstate hphases =>
    have hsum := sum_update (Phase.effort workers) sys.phases w .asleep
    rw [hphase] at hsum
    rw [hstate, hphases]
    simp only [Phase.effort_asleep, Phase.effort_waiting] at hsum
    omega
  | drains idx ready hphase _ _ hstate hphases =>
    have hsum := sum_update (Phase.effort workers) (fun v => (sys.phases v).wake) w .waiting
    have hwake := sum_wake_le sys.phases
    have hdone : sys'.shared.state.completedOrSkipped = sys.shared.state.completedOrSkipped + 1 := by
      rw [hstate]
      rfl
    have hflight : sys'.shared.state.inFlight = sys.shared.state.inFlight := by
      rw [hstate]
      rfl
    rw [hdone, hflight] at hcounted ⊢
    obtain ⟨left, hleft⟩ := Nat.exists_eq_add_of_le hcounted
    have hbefore : p.stages.length - (sys.shared.state.completedOrSkipped + sys.shared.state.inFlight) = left + 1 := by
      omega
    have hafter : p.stages.length - (sys.shared.state.completedOrSkipped + 1 + sys.shared.state.inFlight) = left := by
      omega
    rw [hbefore, hafter, hphases, Nat.mul_succ]
    simp only [hphase, Phase.wake_waiting, Phase.effort_waiting] at hsum
    omega
  | takes idx ready hphase _ _ hstate hphases =>
    have hsum := sum_update (Phase.effort workers) sys.phases w (.working idx .taken)
    have hdone : sys'.shared.state.completedOrSkipped = sys.shared.state.completedOrSkipped := by rw [hstate]
    have hflight : sys'.shared.state.inFlight = sys.shared.state.inFlight + 1 := by rw [hstate]
    rw [hdone, hflight] at hcounted ⊢
    obtain ⟨left, hleft⟩ := Nat.exists_eq_add_of_le hcounted
    have hbefore : p.stages.length - (sys.shared.state.completedOrSkipped + sys.shared.state.inFlight) = left + 1 := by
      omega
    have hafter : p.stages.length - (sys.shared.state.completedOrSkipped + (sys.shared.state.inFlight + 1)) = left := by
      omega
    rw [hbefore, hafter, hphases, Nat.mul_succ]
    simp only [hphase, Phase.effort_waiting, Phase.effort_working, Work.rank_taken] at hsum
    omega
  | works idx work work' hphase hstate hphases =>
    have hsum := sum_update (Phase.effort workers) sys.phases w (.working idx work')
    have hless := hrank idx work idx work' hphase (by rw [hphases, Function.update_self])
    rw [hphase] at hsum
    rw [hstate, hphases]
    simp only [Phase.effort_working] at hsum
    omega
  | dispatches idx work work' hphase hstate hphases =>
    have hsum := sum_update (Phase.effort workers) sys.phases w (.working idx work')
    have hless := hrank idx work idx work' hphase (by rw [hphases, Function.update_self])
    have hdone : sys'.shared.state.completedOrSkipped = sys.shared.state.completedOrSkipped := by rw [hstate]
    have hflight : sys'.shared.state.inFlight = sys.shared.state.inFlight := by rw [hstate]
    rw [hphase] at hsum
    rw [hdone, hflight, hphases]
    simp only [Phase.effort_working] at hsum
    omega
  | publishes idx work stage sr payload hphase _ hstate hphases =>
    have hsum := sum_update (Phase.effort workers) (fun v => (sys.phases v).wake) w .waiting
    have hwake := sum_wake_le sys.phases
    have hpos := h.inFlight_pos hphase
    have hdone : sys'.shared.state.completedOrSkipped = sys.shared.state.completedOrSkipped + 1 := by
      rw [hstate]
      rfl
    have hflight : sys'.shared.state.inFlight = sys.shared.state.inFlight - 1 := by
      rw [hstate]
      rfl
    have hsame : sys.shared.state.completedOrSkipped + 1 + (sys.shared.state.inFlight - 1) =
        sys.shared.state.completedOrSkipped + sys.shared.state.inFlight := by omega
    rw [hdone, hflight, hsame, hphases]
    simp only [hphase, Phase.wake_working, Phase.effort_waiting, Phase.effort_working] at hsum
    omega

theorem System.effort_lt {order : List ℕ} (hp : p.Ordered order) {sys sys' : System ω π workers}
    (h : Scheduled p sys.shared.state (heldBy sys.phases)) (hstep : System.Steps p d options sys sys') :
    sys'.effort p < sys.effort p := by
  obtain ⟨w, m, rfl, hw⟩ := hstep.elim
  have hchanges : Changes p options.stopOnFirstFailure w sys.shared.state (sys.after w m).shared.state sys.phases
      (sys.after w m).phases := by
    rcases hw with ⟨hphase, hm⟩ | ⟨idx, work, stage, guardFree, putSucceeds, hphase, hstage, hm⟩
    · exact awaitWork_changes hphase hm
    · exact processStage_changes hphase hstage hm
  exact System.effort_lt_of_changes h hchanges (h.step hp hchanges).counted_le
    fun idx work idx' work' hphase hphase' => System.rank_lt hw hphase hphase'

end

/-! ## What the workers leave -/

/-- The stage has a payload that it may have put into the caches. -/
def Work.stored : Work π → Bool
  | .found _ _ | .persisting _ _ | .executed _ _ => true
  | _ => false

/-- The stage is recorded, or may have put its payload into the caches. -/
def System.Stored {workers : ℕ} (sys : System ω π workers) (j : ℕ) : Prop :=
  (sys.shared.state.results j).isSome = true ∨ ∃ v work, sys.phases v = .working j work ∧ work.stored = true

namespace Course

variable (c : Course ω π) (outcome : ℕ → Except DispatchError (Option π))

def Other (i j : ℕ) : Prop := j < c.p.stages.length ∧ j ≠ i

/-- The outputs that the stage refers to are what their stages came to. -/
def Sees (i : ℕ) (upstream : Outputs π) : Prop :=
  ∀ stage, c.p.stages[i]? = some stage → ∀ id ∈ collectStageRefs stage.input, ∀ j, c.p.idToIndex id = some j →
    upstream.lookup id = (outcome j).toOption

/-- What the local variables of `process_stage` hold. -/
def Tells (i : ℕ) : Work π → Prop
  | .taken => True
  | .hashed key => key = c.key i
  | .missed key => key = c.key i ∧ c.options.useCache = true ∧ c.start.cache.get key = none
  | .read key blob => key = c.key i ∧ c.options.useCache = true ∧ c.start.cache.get key = none ∧
      c.OnDisk outcome (c.Other i) key blob
  | .rehydrated key q => key = c.key i ∧ c.start.cache.get key = none ∧ c.Offered outcome (c.Other i) key q
  | .found key q => key = c.key i ∧ c.Offered outcome (c.Other i) key q
  | .uncached key => key = c.key i ∧ c.consult key = none
  | .snapshotted key upstream => key = c.key i ∧ c.consult key = none ∧ c.Sees outcome i upstream
  | .dispatching key upstream => key = c.key i ∧ c.consult key = none ∧ c.Sees outcome i upstream
  | .failed key err => key = c.key i ∧ c.consult key = none ∧ outcome i = .error err
  | .returned key payload => key = c.key i ∧ c.consult key = none ∧ outcome i = .ok payload
  | .persisting key q => key = c.key i ∧ c.consult key = none ∧ outcome i = .ok (some q)
  | .executed key payload => key = c.key i ∧ c.consult key = none ∧ outcome i = .ok payload

/-- The results, the outputs, the caches and the workers tell what the stages come to. -/
structure Faithful {workers : ℕ} (sys : System ω π workers) : Prop where
  world : c.W sys.shared.world
  caches : c.Keeps outcome sys.Stored sys.shared.cache sys.shared.disk
  results : ∀ i sr, sys.shared.state.results i = some sr → c.Recounts outcome i sr
  hashes : ∀ i, (sys.shared.state.results i).isSome = true → sys.shared.state.stageHashes i = c.key i
  outputs : ∀ i, (sys.shared.state.results i).isSome = true →
    sys.shared.state.outputs.lookup (c.p.stageId i) = (outcome i).toOption
  tells : ∀ v i work, sys.phases v = .working i work → c.Tells outcome i work

section

variable {c} {outcome : ℕ → Except DispatchError (Option π)} {workers : ℕ} {sys : System ω π workers} {w : Fin workers}
  {i : ℕ} {work work' : Work π} {stage : Stage}

theorem Recounts.failed_iff {sr : StageRunResult} (h : c.Recounts outcome i sr) :
    sr.status = .failed ↔ ∃ err, outcome i = .error err := by
  cases hout : outcome i with
  | error err => exact ⟨fun _ => ⟨err, rfl⟩, fun _ => (h.failed err hout).1⟩
  | ok payload =>
    constructor
    · intro hfailed
      rcases (h.done payload hout).2 with ⟨hstatus, -⟩ | ⟨hstatus, -⟩
      · rw [hfailed] at hstatus
        cases hstatus
      · rw [hfailed] at hstatus
        cases hstatus
    · rintro ⟨err, herr⟩
      cases herr

theorem other_of_stored (hs : Scheduled c.p sys.shared.state (heldBy sys.phases))
    (hphase : sys.phases w = .working i work) (hwork : work.stored = false) {j : ℕ} (h : sys.Stored j) : c.Other i j := by
  have hw : heldBy sys.phases w = some i := by
    rw [heldBy, hphase]
    rfl
  rcases h with hdone | ⟨v, work', hv, hstored⟩
  · refine ⟨hs.inside j hdone, fun heq => ?_⟩
    rw [heq, hs.fresh w i hw] at hdone
    cases hdone
  · have hheld : heldBy sys.phases v = some j := by
      rw [heldBy, hv]
      rfl
    refine ⟨hs.held_lt hheld, fun heq => ?_⟩
    obtain rfl := hs.alone v w i (heq ▸ hheld) hw
    rw [hphase] at hv
    rw [(Phase.working.inj hv).2, hstored] at hwork
    cases hwork

theorem Faithful.sees (h : c.Faithful outcome sys) (hs : Scheduled c.p sys.shared.state (heldBy sys.phases))
    (hphase : sys.phases w = .working i work) : c.Sees outcome i sys.shared.state.outputs := by
  intro stage hstage id hid j hj
  have hw : heldBy sys.phases w = some i := by
    rw [heldBy, hphase]
    rfl
  have hparent : j ∈ c.p.parents i :=
    (c.ordered.mem_parents hstage).mpr ⟨id, hid, Pipeline.slotOf_of_idToIndex hj⟩
  have hdone := (ParallelState.mem_done.mp (hs.held_parents hw hparent)).2
  obtain ⟨t, ht, rfl⟩ := Pipeline.getElem?_of_idToIndex hj
  rw [← Pipeline.stageId_eq ht]
  exact h.outputs j hdone

theorem Faithful.key_eq (h : c.Faithful outcome sys) (hs : Scheduled c.p sys.shared.state (heldBy sys.phases))
    (hphase : sys.phases w = .working i work) (hstage : c.p.stages[i]? = some stage) :
    (evaluation c.d stage (sys.shared.state.upstreamHashesFor c.p (c.p.upstreamIds i)) sys.shared.world).key =
      c.key i := by
  refine c.key_of_upstream hstage h.world fun id hid j hj => ?_
  have hw : heldBy sys.phases w = some i := by
    rw [heldBy, hphase]
    rfl
  have hslot := Pipeline.slotOf_of_idToIndex hj
  have hparent : j ∈ c.p.parents i := (c.ordered.mem_parents hstage).mpr ⟨id, hid, hslot⟩
  rw [← h.hashes j (ParallelState.mem_done.mp (hs.held_parents hw hparent)).2, ParallelState.upstreamHashesFor,
    c.ordered.upstreamIds_eq hstage]
  have hmem : id ∈ stage.uniqRefs := List.mem_dedup.mpr hid
  -- the first entry for the id is that of its stage, and there is one
  have hfind : ∀ ids : List String, id ∈ ids → (ids.filterMap fun id' => (c.p.slotOf id').map fun k =>
      (id', sys.shared.state.stageHashes k)).lookup id = some (sys.shared.state.stageHashes j) := by
    intro ids hids
    induction ids with
    | nil => cases hids
    | cons id' ids ih =>
      rw [List.filterMap_cons]
      by_cases heq : id = id'
      · subst heq
        rw [hslot]
        simp
      · have hne : (id == id') = false := beq_eq_false_iff_ne.mpr heq
        cases hslot' : c.p.slotOf id' with
        | none => exact ih ((List.mem_cons.mp hids).resolve_left heq)
        | some k =>
          have hrest := ih ((List.mem_cons.mp hids).resolve_left heq)
          simp only [Option.map_some, List.lookup_cons, hne]
          exact hrest
  exact hfind _ hmem

theorem Faithful.works (h : c.Faithful outcome sys) (hphase : sys.phases w = .working i work) {shared : Shared ω π}
    (hresults : shared.state.results = sys.shared.state.results)
    (hhashes : shared.state.stageHashes = sys.shared.state.stageHashes)
    (houtputs : shared.state.outputs = sys.shared.state.outputs) (hworld : c.W shared.world)
    (htells : c.Tells outcome i work') (hstored : work.stored = true → work'.stored = true)
    (hcaches : ∀ stored, c.Keeps outcome stored sys.shared.cache sys.shared.disk → (work'.stored = true → stored i) →
      c.Keeps outcome stored shared.cache shared.disk) :
    c.Faithful outcome (sys.after w ⟨shared, .working i work', false⟩) := by
  have hself : (sys.after w ⟨shared, .working i work', false⟩).phases w = .working i work' :=
    Function.update_self w _ sys.phases
  have hother : ∀ v, v ≠ w → (sys.after w ⟨shared, .working i work', false⟩).phases v = sys.phases v :=
    fun v hv => Function.update_of_ne hv _ sys.phases
  refine ⟨hworld, ?_, ?_, ?_, ?_, fun v j work₁ hv => ?_⟩
  · refine hcaches _ (h.caches.mono fun j hj => ?_) fun hnew => .inr ⟨w, work', hself, hnew⟩
    rcases hj with hdone | ⟨v, work₁, hv, hwork₁⟩
    · exact .inl (by rw [System.after, hresults]; exact hdone)
    · by_cases hvw : v = w
      · rw [hvw, hphase] at hv
        obtain ⟨rfl, rfl⟩ := Phase.working.inj hv
        exact .inr ⟨w, work', hself, hstored hwork₁⟩
      · exact .inr ⟨v, work₁, by rw [hother v hvw, hv], hwork₁⟩
  · rw [System.after, hresults]
    exact h.results
  · rw [System.after, hresults, hhashes]
    exact h.hashes
  · rw [System.after, hresults, houtputs]
    exact h.outputs
  · by_cases hvw : v = w
    · rw [hvw, hself] at hv
      obtain ⟨rfl, rfl⟩ := Phase.working.inj hv
      exact htells
    · rw [hother v hvw] at hv
      exact h.tells v j work₁ hv

theorem working_of_after_wait {shared : Shared ω π} {v : Fin workers} {j : ℕ} {work₁ : Work π}
    (hv : (sys.after w ⟨shared, .waiting, true⟩).phases v = .working j work₁) :
    v ≠ w ∧ sys.phases v = .working j work₁ := by
  have hvw : v ≠ w := fun heq => by
    have hself : (sys.after w ⟨shared, .waiting, true⟩).phases w = .waiting := Function.update_self w _ _
    rw [heq, hself] at hv
    cases hv
  have hsame : (sys.after w ⟨shared, .waiting, true⟩).phases v = (sys.phases v).wake := Function.update_of_ne hvw _ _
  rw [hsame] at hv
  refine ⟨hvw, ?_⟩
  cases hv' : sys.phases v with
  | waiting | asleep | exited =>
    rw [hv'] at hv
    cases hv
  | working j' work₂ =>
    rw [hv'] at hv
    exact hv

theorem after_wait_working {shared : Shared ω π} {v : Fin workers} {j : ℕ} {work₁ : Work π} (hvw : v ≠ w)
    (hv : sys.phases v = .working j work₁) :
    (sys.after w ⟨shared, .waiting, true⟩).phases v = .working j work₁ := by
  have hsame : (sys.after w ⟨shared, .waiting, true⟩).phases v = (sys.phases v).wake := Function.update_of_ne hvw _ _
  rw [hsame, hv]
  rfl

/-- Nobody else has put out under the id of a stage that is in flight. -/
theorem outputs_fresh (hs : Scheduled c.p sys.shared.state (heldBy sys.phases)) (hpub : Published c.p sys.shared.state)
    (hphase : sys.phases w = .working i work) (hstage : c.p.stages[i]? = some stage) :
    sys.shared.state.outputs.lookup (c.p.stageId i) = none := by
  have hw : heldBy sys.phases w = some i := by
    rw [heldBy, hphase]
    rfl
  rw [AList.lookup_eq_none, hpub.keys]
  rintro ⟨j, ⟨sr', hsr', -⟩, hid⟩
  have hj := hs.inside j (by rw [hsr']; rfl)
  have ht := List.getElem?_eq_getElem hj
  rw [Pipeline.stageId_eq ht, Pipeline.stageId_eq hstage] at hid
  rw [c.ordered.stage_inj ht hstage hid, hs.fresh w i hw] at hsr'
  cases hsr'

theorem publish_outputs {s : ParallelState π} {sr : StageRunResult} {payload : Option (Option π)} {stop : Bool}
    (hfresh : s.outputs.lookup sr.stageId = none) (id : String) :
    (s.publish c.p i sr payload stop).outputs.lookup id = if id = sr.stageId then payload else s.outputs.lookup id := by
  cases payload with
  | none =>
    show s.outputs.lookup id = _
    split_ifs with hid
    · rw [hid, hfresh]
    · rfl
  | some q =>
    show (s.outputs.emplace sr.stageId q).lookup id = _
    rw [Dict.lookup_emplace, hfresh]
    rfl

/-- A worker publishes what its stage came to. -/
theorem Faithful.publishes (h : c.Faithful outcome sys) (hs : Scheduled c.p sys.shared.state (heldBy sys.phases))
    (hpub : Published c.p sys.shared.state) (hphase : sys.phases w = .working i work)
    (hstage : c.p.stages[i]? = some stage) {sr : StageRunResult} {payload : Option (Option π)} (stop : Bool)
    (hsr : c.Recounts outcome i sr) (hpayload : payload = (outcome i).toOption) :
    c.Faithful outcome (sys.after w
      ⟨{ sys.shared with state := sys.shared.state.publish c.p i sr payload stop }, .waiting, true⟩) := by
  have hresults : ∀ j, j ≠ i →
      (sys.shared.state.publish c.p i sr payload stop).results j = sys.shared.state.results j :=
    fun j hj => Function.update_of_ne hj _ _
  have hself : (sys.shared.state.publish c.p i sr payload stop).results i = some sr := Function.update_self i _ _
  have houtputs : ∀ id, (sys.shared.state.publish c.p i sr payload stop).outputs.lookup id =
      if id = c.p.stageId i then (outcome i).toOption else sys.shared.state.outputs.lookup id := by
    have hfresh := outputs_fresh hs hpub hphase hstage
    rw [← hsr.stageId] at hfresh
    rw [← hpayload, ← hsr.stageId]
    exact publish_outputs hfresh
  refine ⟨h.world, h.caches.mono fun j hj => ?_, fun j sr' hsr' => ?_, fun j hj => ?_, fun j hj => ?_,
    fun v j work₁ hv => h.tells v j work₁ (working_of_after_wait hv).2⟩
  · by_cases hji : j = i
    · exact .inl (by rw [hji, System.after, hself]; rfl)
    · rcases hj with hdone | ⟨v, work₁, hv, hwork₁⟩
      · exact .inl (by rw [System.after, hresults j hji]; exact hdone)
      · have hvw : v ≠ w := fun heq => by
          rw [heq, hphase] at hv
          exact hji (Phase.working.inj hv).1.symm
        exact .inr ⟨v, work₁, after_wait_working hvw hv, hwork₁⟩
  · by_cases hji : j = i
    · rw [hji, System.after, hself] at hsr'
      exact hji ▸ Option.some.inj hsr' ▸ hsr
    · rw [System.after, hresults j hji] at hsr'
      exact h.results j sr' hsr'
  · show Function.update sys.shared.state.stageHashes i sr.contentHash j = c.key j
    by_cases hji : j = i
    · rw [hji, Function.update_self, hsr.contentHash]
    · rw [System.after, hresults j hji] at hj
      rw [Function.update_of_ne hji]
      exact h.hashes j hj
  · show (sys.shared.state.publish c.p i sr payload stop).outputs.lookup (c.p.stageId j) = _
    rw [houtputs]
    by_cases hji : j = i
    · rw [hji, if_pos rfl]
    · rw [System.after, hresults j hji] at hj
      have ht := List.getElem?_eq_getElem (hs.inside j hj)
      have hne : c.p.stageId j ≠ c.p.stageId i := by
        rw [Pipeline.stageId_eq ht, Pipeline.stageId_eq hstage]
        exact fun hid => hji (c.ordered.stage_inj ht hstage hid)
      rw [if_neg hne]
      exact h.outputs j hj

theorem Faithful.goesOn (h : c.Faithful outcome sys) (hphase : sys.phases w = .working i work)
    (htells : c.Tells outcome i work') (hstored : work.stored = true → work'.stored = true) :
    c.Faithful outcome (sys.after w ⟨sys.shared, .working i work', false⟩) :=
  h.works hphase rfl rfl rfl h.world htells hstored fun _ hkeeps _ => hkeeps

section

/-! One step of `process_stage`, by where the worker is in it. -/

variable {guardFree putSucceeds : Bool} {m : Move ω π} {key : ContentHash}

theorem Faithful.looks (h : c.Faithful outcome sys) (hs : Scheduled c.p sys.shared.state (heldBy sys.phases))
    (hphase : sys.phases w = .working i (.hashed key))
    (hm : processStage c.p c.d c.options i stage guardFree putSucceeds sys.shared (.hashed key) = some m) :
    c.Faithful outcome (sys.after w m) := by
  obtain rfl : key = c.key i := h.tells w i _ hphase
  rw [processStage] at hm
  cases huse : c.options.useCache with
  | false =>
    rw [huse] at hm
    obtain rfl := Option.some.inj hm
    exact h.goesOn hphase ⟨rfl, c.consult_off huse _⟩ fun heq => by cases heq
  | true =>
    rw [huse] at hm
    cases hget : sys.shared.cache.get (c.key i) with
    | some q =>
      rw [hget] at hm
      obtain rfl := Option.some.inj hm
      refine h.goesOn hphase ⟨rfl, ?_⟩ fun heq => by cases heq
      exact (h.caches.memory huse _ q hget).mono fun j hj => c.other_of_stored hs hphase rfl hj
    | none =>
      rw [hget] at hm
      obtain rfl := Option.some.inj hm
      -- what the memory held at the start it still holds
      have hstart : c.start.cache.get (c.key i) = none := by
        cases hget' : c.start.cache.get (c.key i) with
        | none => rfl
        | some q =>
          rw [h.caches.kept _ q hget'] at hget
          cases hget
      exact h.goesOn hphase ⟨rfl, huse, hstart⟩ fun heq => by cases heq

theorem Faithful.misses (h : c.Faithful outcome sys) (hs : Scheduled c.p sys.shared.state (heldBy sys.phases))
    (hphase : sys.phases w = .working i (.missed key))
    (hm : processStage c.p c.d c.options i stage guardFree putSucceeds sys.shared (.missed key) = some m) :
    c.Faithful outcome (sys.after w m) := by
  obtain ⟨rfl, huse, hget⟩ := h.tells w i _ hphase
  rw [processStage] at hm
  cases hblob : c.options.reader.bind fun _ => sys.shared.disk.getBytes (c.key i) with
  | some blob =>
    rw [hblob] at hm
    obtain rfl := Option.some.inj hm
    obtain ⟨_, -, hbytes⟩ := Option.bind_eq_some_iff.mp hblob
    refine h.goesOn hphase ⟨rfl, huse, hget, ?_⟩ fun heq => by cases heq
    exact (h.caches.blobs _ blob hbytes).mono fun j hj => c.other_of_stored hs hphase rfl hj
  | none =>
    rw [hblob] at hm
    obtain rfl := Option.some.inj hm
    exact h.goesOn hphase ⟨rfl, h.caches.miss huse hget hblob⟩ fun heq => by cases heq

theorem Faithful.reads {blob : List UInt8} (h : c.Faithful outcome sys)
    (hphase : sys.phases w = .working i (.read key blob))
    (hm : processStage c.p c.d c.options i stage guardFree putSucceeds sys.shared (.read key blob) = some m) :
    c.Faithful outcome (sys.after w m) := by
  obtain ⟨rfl, huse, hget, hdisk⟩ := h.tells w i _ hphase
  rw [processStage] at hm
  cases hreader : c.options.reader with
  | none =>
    rw [hreader] at hm
    obtain rfl := Option.some.inj hm
    refine h.goesOn hphase ⟨rfl, ?_⟩ fun heq => by cases heq
    rw [c.consult_disk huse hget, hreader]
    rfl
  | some deserialize =>
    have hread := hdisk.read huse hget hreader h.world
    rw [hreader, Option.bind_some] at hm
    cases hblob : deserialize blob sys.shared.world with
    | some q =>
      rw [hblob] at hm
      obtain rfl := Option.some.inj hm
      exact h.goesOn hphase ⟨rfl, hget, hread.1 q hblob⟩ fun heq => by cases heq
    | none =>
      rw [hblob] at hm
      obtain rfl := Option.some.inj hm
      exact h.goesOn hphase ⟨rfl, hread.2 hblob⟩ fun heq => by cases heq

theorem Faithful.finds {q : π} (h : c.Faithful outcome sys) (hs : Scheduled c.p sys.shared.state (heldBy sys.phases))
    (hpub : Published c.p sys.shared.state) (hphase : sys.phases w = .working i (.found key q))
    (hstage : c.p.stages[i]? = some stage) (hout : outcome i = .ok (some q))
    (hm : processStage c.p c.d c.options i stage guardFree putSucceeds sys.shared (.found key q) = some m) :
    c.Faithful outcome (sys.after w m) := by
  obtain ⟨rfl, hq⟩ := h.tells w i _ hphase
  obtain rfl := Option.some.inj hm
  refine h.publishes hs hpub hphase hstage false
    ⟨(Pipeline.stageId_eq hstage).symm, rfl, fun err herr => ?_, fun payload _ => ⟨rfl, .inl ⟨rfl, ?_⟩⟩⟩
    (by rw [hout]; rfl)
  · rw [hout] at herr
    cases herr
  · rcases hq with hconsult | ⟨j, hj, hkey, -⟩
    · exact .inl (by rw [hconsult]; rfl)
    · exact .inr ⟨j, hj.1, hj.2, hkey⟩

theorem Faithful.dispatches {upstream : Outputs π} (hsettled : c.Settled outcome i stage) (h : c.Faithful outcome sys)
    (hphase : sys.phases w = .working i (.dispatching key upstream)) (hstage : c.p.stages[i]? = some stage)
    (hm : processStage c.p c.d c.options i stage guardFree putSucceeds sys.shared (.dispatching key upstream) = some m) :
    c.Faithful outcome (sys.after w m) := by
  obtain ⟨rfl, hconsult, hsees⟩ := h.tells w i _ hphase
  have hout := hsettled.outcome_of_upstream hstage hconsult h.world (hsees stage hstage)
  have hstays := c.steady.stays stage.plugin stage.input upstream sys.shared.world h.world
  rw [processStage] at hm
  rcases hd : c.d.dispatch stage.plugin stage.input upstream sys.shared.world with ⟨dr, world⟩
  rw [hd] at hm hout hstays
  cases dr with
  | error err =>
    obtain rfl := Option.some.inj hm
    exact h.works hphase rfl rfl rfl hstays ⟨rfl, hconsult, hout.symm⟩ (fun heq => by cases heq)
      fun _ hkeeps _ => hkeeps
  | ok payload =>
    obtain rfl := Option.some.inj hm
    exact h.works hphase rfl rfl rfl hstays ⟨rfl, hconsult, hout.symm⟩ (fun heq => by cases heq)
      fun _ hkeeps _ => hkeeps

theorem Faithful.fails {err : DispatchError} (h : c.Faithful outcome sys)
    (hs : Scheduled c.p sys.shared.state (heldBy sys.phases)) (hpub : Published c.p sys.shared.state)
    (hphase : sys.phases w = .working i (.failed key err)) (hstage : c.p.stages[i]? = some stage)
    (hm : processStage c.p c.d c.options i stage guardFree putSucceeds sys.shared (.failed key err) = some m) :
    c.Faithful outcome (sys.after w m) := by
  obtain ⟨rfl, -, hout⟩ := h.tells w i _ hphase
  obtain rfl := Option.some.inj hm
  refine h.publishes hs hpub hphase hstage _
    ⟨(Pipeline.stageId_eq hstage).symm, rfl, fun err' herr => ?_, fun payload hpayload => ?_⟩ (by rw [hout]; rfl)
  · rw [hout] at herr
    cases herr
    exact ⟨rfl, rfl⟩
  · rw [hout] at hpayload
    cases hpayload

theorem Faithful.stores {payload : Option π} (h : c.Faithful outcome sys)
    (hphase : sys.phases w = .working i (.returned key payload))
    (hm : processStage c.p c.d c.options i stage guardFree putSucceeds sys.shared (.returned key payload) = some m) :
    c.Faithful outcome (sys.after w m) := by
  obtain ⟨rfl, hconsult, hout⟩ := h.tells w i _ hphase
  cases payload with
  | none =>
    obtain rfl := Option.some.inj hm
    exact h.goesOn hphase ⟨rfl, hconsult, hout⟩ fun heq => by cases heq
  | some q =>
    rw [processStage] at hm
    cases huse : c.options.useCache with
    | false =>
      rw [huse] at hm
      obtain rfl := Option.some.inj hm
      exact h.goesOn hphase ⟨rfl, hconsult, hout⟩ fun heq => by cases heq
    | true =>
      rw [huse] at hm
      obtain rfl := Option.some.inj hm
      exact h.works hphase rfl rfl rfl h.world ⟨rfl, hconsult, hout⟩ (fun heq => by cases heq)
        fun stored hkeeps hnew => hkeeps.put (.inr ⟨i, hnew rfl, rfl, hout⟩) (c.memory_of_miss huse hconsult)

theorem Faithful.persists {q : π} (h : c.Faithful outcome sys) (hphase : sys.phases w = .working i (.persisting key q))
    (hm : processStage c.p c.d c.options i stage guardFree putSucceeds sys.shared (.persisting key q) = some m) :
    c.Faithful outcome (sys.after w m) := by
  obtain ⟨rfl, hconsult, hout⟩ := h.tells w i _ hphase
  rw [processStage] at hm
  cases hblob : c.options.writer.bind fun serialize => serialize q with
  | none =>
    rw [hblob] at hm
    obtain rfl := Option.some.inj hm
    exact h.goesOn hphase ⟨rfl, hconsult, hout⟩ fun _ => rfl
  | some blob =>
    rw [hblob] at hm
    obtain rfl := Option.some.inj hm
    obtain ⟨serialize, hwriter, hser⟩ := Option.bind_eq_some_iff.mp hblob
    exact h.works hphase rfl rfl rfl h.world ⟨rfl, hconsult, hout⟩ (fun _ => rfl)
      fun stored hkeeps hnew => hkeeps.putBytes (.inr ⟨i, hnew rfl, rfl, hout⟩) hconsult hwriter hser putSucceeds

theorem Faithful.executes {payload : Option π} (h : c.Faithful outcome sys)
    (hs : Scheduled c.p sys.shared.state (heldBy sys.phases)) (hpub : Published c.p sys.shared.state)
    (hphase : sys.phases w = .working i (.executed key payload)) (hstage : c.p.stages[i]? = some stage)
    (hm : processStage c.p c.d c.options i stage guardFree putSucceeds sys.shared (.executed key payload) = some m) :
    c.Faithful outcome (sys.after w m) := by
  obtain ⟨rfl, hconsult, hout⟩ := h.tells w i _ hphase
  obtain rfl := Option.some.inj hm
  refine h.publishes hs hpub hphase hstage false
    ⟨(Pipeline.stageId_eq hstage).symm, rfl, fun err herr => ?_, fun payload' _ => ?_⟩ (by rw [hout]; rfl)
  · rw [hout] at herr
    cases herr
  · exact ⟨rfl, .inr ⟨rfl, hconsult⟩⟩

end

theorem Faithful.processes (htelling : c.Telling)
    (hsettled : ∀ i stage, c.p.stages[i]? = some stage → c.Settled outcome i stage) (h : c.Faithful outcome sys)
    (hs : Scheduled c.p sys.shared.state (heldBy sys.phases)) (hpub : Published c.p sys.shared.state)
    (hphase : sys.phases w = .working i work) (hstage : c.p.stages[i]? = some stage) {guardFree putSucceeds : Bool}
    {m : Move ω π} (hm : processStage c.p c.d c.options i stage guardFree putSucceeds sys.shared work = some m) :
    c.Faithful outcome (sys.after w m) := by
  have htells := h.tells w i work hphase
  have hoffered : ∀ q, c.Offered outcome (c.Other i) (c.key i) q → outcome i = .ok (some q) := fun q hq =>
    hq.outcome_eq htelling (hsettled i stage hstage) hstage fun j hj =>
      ⟨_, List.getElem?_eq_getElem hj.1, hsettled j _ (List.getElem?_eq_getElem hj.1)⟩
  cases work with
  | taken =>
    obtain rfl := Option.some.inj hm
    exact h.goesOn hphase (h.key_eq hs hphase hstage) fun heq => by cases heq
  | hashed key => exact h.looks hs hphase hm
  | missed key => exact h.misses hs hphase hm
  | read key blob => exact h.reads hphase hm
  | rehydrated key q =>
    obtain ⟨rfl, hget, hq⟩ := htells
    obtain rfl := Option.some.inj hm
    exact h.works hphase rfl rfl rfl h.world ⟨rfl, hq⟩ (fun heq => by cases heq)
      fun stored hkeeps hnew => hkeeps.put (.inr ⟨i, hnew rfl, rfl, hoffered q hq⟩) hget
  | found key q =>
    obtain ⟨rfl, hq⟩ := htells
    exact h.finds hs hpub hphase hstage (hoffered q hq) hm
  | uncached key =>
    obtain ⟨rfl, hconsult⟩ := htells
    obtain rfl := Option.some.inj hm
    exact h.goesOn hphase ⟨rfl, hconsult, h.sees hs hphase⟩ fun heq => by cases heq
  | snapshotted key upstream =>
    rw [processStage] at hm
    split_ifs at hm
    obtain rfl := Option.some.inj hm
    exact h.works hphase rfl rfl rfl h.world htells (fun heq => by cases heq) fun _ hkeeps _ => hkeeps
  | dispatching key upstream => exact h.dispatches (hsettled i stage hstage) hphase hstage hm
  | failed key err => exact h.fails hs hpub hphase hstage hm
  | returned key payload => exact h.stores hphase hm
  | persisting key q => exact h.persists hphase hm
  | executed key payload => exact h.executes hs hpub hphase hstage hm

theorem Faithful.awaits (h : c.Faithful outcome sys) (hs : Scheduled c.p sys.shared.state (heldBy sys.phases))
    (hhalted : Halted c.p c.options.stopOnFirstFailure sys.shared.state (heldBy sys.phases))
    (hno : c.options.stopOnFirstFailure = true → ∀ i < c.p.stages.length, ∀ err, outcome i ≠ .error err)
    (hphase : sys.phases w = .waiting) : c.Faithful outcome (sys.after w (awaitWork c.p sys.shared)) := by
  have hshared : (sys.after w (awaitWork c.p sys.shared)).shared.world = sys.shared.world ∧
      (sys.after w (awaitWork c.p sys.shared)).shared.cache = sys.shared.cache ∧
        (sys.after w (awaitWork c.p sys.shared)).shared.disk = sys.shared.disk := awaitWork_shared c.p sys.shared
  obtain ⟨hworld, hcache, hdisk⟩ := hshared
  have hchanges : Changes c.p c.options.stopOnFirstFailure w sys.shared.state
      (sys.after w (awaitWork c.p sys.shared)).shared.state sys.phases
      (sys.after w (awaitWork c.p sys.shared)).phases :=
    awaitWork_changes hphase rfl
  have hkeep : ∀ phase, (∀ j work, phase = .working j work → work.stored = false ∧ c.Tells outcome j work) →
      (sys.after w (awaitWork c.p sys.shared)).shared.state.results = sys.shared.state.results →
      (sys.after w (awaitWork c.p sys.shared)).shared.state.stageHashes = sys.shared.state.stageHashes →
      (sys.after w (awaitWork c.p sys.shared)).shared.state.outputs = sys.shared.state.outputs →
      (sys.after w (awaitWork c.p sys.shared)).phases = Function.update sys.phases w phase →
      c.Faithful outcome (sys.after w (awaitWork c.p sys.shared)) := by
    intro phase hnew hresults hhashes houtputs hphases
    refine ⟨?_, ?_, ?_, ?_, ?_, fun v j work hv => ?_⟩
    · rw [hworld]
      exact h.world
    · rw [hcache, hdisk]
      refine h.caches.mono fun j hj => ?_
      rcases hj with hdone | ⟨v, work, hv, hwork⟩
      · exact .inl (by rw [hresults]; exact hdone)
      · have hvw : v ≠ w := fun heq => by
          rw [heq, hphase] at hv
          cases hv
        exact .inr ⟨v, work, by rw [hphases, Function.update_of_ne hvw, hv], hwork⟩
    · rw [hresults]
      exact h.results
    · rw [hresults, hhashes]
      exact h.hashes
    · rw [hresults, houtputs]
      exact h.outputs
    · rw [hphases] at hv
      by_cases hvw : v = w
      · rw [hvw, Function.update_self] at hv
        exact (hnew j work hv).2
      · rw [Function.update_of_ne hvw] at hv
        exact h.tells v j work hv
  cases hchanges with
  | exits _ _ hstate hphases =>
    exact hkeep .exited (fun _ _ heq => by cases heq) (by rw [hstate]) (by rw [hstate]) (by rw [hstate]) hphases
  | sleeps _ _ hstate hphases =>
    exact hkeep .asleep (fun _ _ heq => by cases heq) (by rw [hstate]) (by rw [hstate]) (by rw [hstate]) hphases
  | takes idx ready _ _ _ hstate hphases =>
    refine hkeep (.working idx .taken) (fun j work heq => ?_) (by rw [hstate]) (by rw [hstate]) (by rw [hstate]) hphases
    obtain ⟨rfl, rfl⟩ := Phase.working.inj heq
    exact ⟨rfl, trivial⟩
  | drains idx ready _ _ hstop =>
    -- nothing has failed that could have stopped the run
    obtain ⟨hoption, i, sr, hsr, hfailed⟩ := hhalted.stop_failed hstop
    obtain ⟨err, herr⟩ := (h.results i sr hsr).failed_iff.mp hfailed
    exact absurd herr (hno hoption i (hs.inside i (by rw [hsr]; rfl)) err)
  | works idx work work' hworking | dispatches idx work work' hworking | publishes idx work stage sr payload hworking =>
    rw [hphase] at hworking
    cases hworking

theorem Faithful.reachable (htelling : c.Telling)
    (hsettled : ∀ i stage, c.p.stages[i]? = some stage → c.Settled outcome i stage)
    (hno : c.options.stopOnFirstFailure = true → ∀ i < c.p.stages.length, ∀ err, outcome i ≠ .error err)
    (h : System.Reachable c.p c.d c.options c.start sys) : c.Faithful outcome sys := by
  induction h with
  | refl =>
    refine ⟨c.inside, c.keeps_start _ _, fun _ _ h => (nomatch h), fun _ h => (nomatch h), fun _ h => (nomatch h),
      fun _ _ _ h => nomatch h⟩
  | tail hreach hstep ih =>
    have hsound := Sound.reachable c.ordered hreach
    obtain ⟨w, m, rfl, ⟨hphase, rfl⟩ | ⟨idx, work, stage, guardFree, putSucceeds, hphase, hstage, hm⟩⟩ := hstep.elim
    · exact ih.awaits hsound.scheduled hsound.halted hno hphase
    · exact ih.processes htelling hsettled hsound.scheduled hsound.published hphase hstage hm

theorem Faithful.comes (h : c.Faithful outcome sys) (hsound : Sound c.p c.options.stopOnFirstFailure sys.shared.state
    sys.phases) (hworkers : 0 < workers ∨ c.p.stages.length = 0)
    (hno : c.options.stopOnFirstFailure = true → ∀ i < c.p.stages.length, ∀ err, outcome i ≠ .error err)
    (hfinished : sys.Finished) : c.Comes outcome (sys.pack c.p) := by
  have hall : ∀ i < c.p.stages.length, ∃ sr, sys.shared.state.results i = some sr := by
    intro i hi
    have hpos : 0 < workers := hworkers.resolve_right (by omega)
    have hleft := hsound.rested.exited ⟨0, hpos⟩ (hfinished ⟨0, hpos⟩)
    have hfull : sys.shared.state.completedOrSkipped = c.p.stages.length := by
      refine hleft.resolve_right fun hstop => ?_
      obtain ⟨hoption, j, sr, hsr, hfailed⟩ := hsound.halted.stop_failed hstop
      obtain ⟨err, herr⟩ := (h.results j sr hsr).failed_iff.mp hfailed
      exact hno hoption j (hsound.scheduled.inside j (by rw [hsr]; rfl)) err herr
    cases hresult : sys.shared.state.results i with
    | none => exact absurd hfull (hsound.scheduled.not_full hi hresult)
    | some sr => exact ⟨sr, rfl⟩
  have hpacked : ∀ sr, sr ∈ (sys.pack c.p).stageResults ↔
      ∃ i < c.p.stages.length, sys.shared.state.results i = some sr := by
    intro sr
    unfold System.pack
    simp only [List.mem_map, List.mem_range]
    refine exists_congr fun i => and_congr_right fun hi => ?_
    obtain ⟨sr', hsr'⟩ := hall i hi
    rw [hsr', Option.getD_some, Option.some.injEq]
  refine ⟨?_, ?_, fun i hi => ?_, fun sr hsr => ?_, fun i hi => ?_, fun id hid => ?_⟩
  · unfold System.pack
    dsimp only
    split_ifs <;> exact fun heq => by cases heq
  · have hany : (sys.pack c.p).status = .stageFailed ↔ ∃ sr ∈ (sys.pack c.p).stageResults, sr.status = .failed := by
      unfold System.pack
      dsimp only
      rw [ite_eq_left_iff]
      simp
    rw [hany]
    constructor
    · rintro ⟨sr, hsr, hfailed⟩
      obtain ⟨i, hi, hresult⟩ := (hpacked sr).mp hsr
      exact ⟨i, hi, (h.results i sr hresult).failed_iff.mp hfailed⟩
    · rintro ⟨i, hi, herr⟩
      obtain ⟨sr, hresult⟩ := hall i hi
      exact ⟨sr, (hpacked sr).mpr ⟨i, hi, hresult⟩, (h.results i sr hresult).failed_iff.mpr herr⟩
  · obtain ⟨sr, hresult⟩ := hall i hi
    exact ⟨sr, (hpacked sr).mpr ⟨i, hi, hresult⟩, h.results i sr hresult⟩
  · obtain ⟨i, hi, hresult⟩ := (hpacked sr).mp hsr
    exact ⟨i, hi, h.results i sr hresult⟩
  · obtain ⟨sr, hresult⟩ := hall i hi
    exact h.outputs i (by rw [hresult]; rfl)
  · show sys.shared.state.outputs.lookup id = none
    rw [AList.lookup_eq_none, hsound.published.keys]
    rintro ⟨i, ⟨sr, hsr, -⟩, heq⟩
    exact hid i (hsound.scheduled.inside i (by rw [hsr]; rfl)) heq

end

end Course

/-! ## The two runners -/

/-- The results of one stage in two runs: `Cached` and `Executed` are told apart only where no other stage has the
hash. -/
structure SameResult (results : List StageRunResult) (sr sr' : StageRunResult) : Prop where
  stageId : sr'.stageId = sr.stageId
  contentHash : sr'.contentHash = sr.contentHash
  error : sr'.error = sr.error
  status : sr'.status = sr.status ∨ sr.status.produced = true ∧ sr'.status.produced = true ∧
    ∃ other ∈ results, other.stageId ≠ sr.stageId ∧ other.contentHash = sr.contentHash

/-- The same results up to their order, and the same outputs. -/
structure SameRun (result result' : RunResult π) : Prop where
  status : result'.status = result.status
  outputs : ∀ id, result'.outputs.lookup id = result.outputs.lookup id
  results : ∀ sr ∈ result.stageResults, ∃ sr' ∈ result'.stageResults, SameResult result.stageResults sr sr'
  results' : ∀ sr' ∈ result'.stageResults, ∃ sr ∈ result.stageResults, SameResult result.stageResults sr sr'

namespace Course

variable {c : Course ω π} {outcome : ℕ → Except DispatchError (Option π)} {result result' : RunResult π}

theorem Comes.sameResult (h : c.Comes outcome result) {i : ℕ} (hi : i < c.p.stages.length) {sr sr' : StageRunResult}
    (hsr : c.Recounts outcome i sr) (hsr' : c.Recounts outcome i sr') : SameResult result.stageResults sr sr' := by
  refine ⟨hsr'.stageId.trans hsr.stageId.symm, hsr'.contentHash.trans hsr.contentHash.symm, ?_, ?_⟩
  · cases hout : outcome i with
    | error err => rw [(hsr.failed err hout).2, (hsr'.failed err hout).2]
    | ok payload => rw [(hsr.done payload hout).1, (hsr'.done payload hout).1]
  · cases hout : outcome i with
    | error err => exact .inl (by rw [(hsr.failed err hout).1, (hsr'.failed err hout).1])
    | ok payload =>
      have hshared : c.Shares i → ∃ other ∈ result.stageResults, other.stageId ≠ sr.stageId ∧
          other.contentHash = sr.contentHash := by
        rintro ⟨j, hj, hne, hkey⟩
        obtain ⟨other, hmem, hother⟩ := h.recounted j hj
        refine ⟨other, hmem, ?_, ?_⟩
        · rw [hother.stageId, hsr.stageId, Pipeline.stageId_eq (List.getElem?_eq_getElem hj),
            Pipeline.stageId_eq (List.getElem?_eq_getElem hi)]
          exact fun hid => hne (c.ordered.stage_inj (List.getElem?_eq_getElem hj) (List.getElem?_eq_getElem hi) hid)
        · rw [hother.contentHash, hsr.contentHash, hkey]
      rcases (hsr.done payload hout).2 with ⟨hstatus, hserved⟩ | ⟨hstatus, hmiss⟩
      · rcases (hsr'.done payload hout).2 with ⟨hstatus', -⟩ | ⟨hstatus', hmiss'⟩
        · exact .inl (hstatus'.trans hstatus.symm)
        · refine .inr ⟨by rw [hstatus]; rfl, by rw [hstatus']; rfl, hshared (hserved.resolve_left ?_)⟩
          rw [hmiss']
          exact fun heq => by cases heq
      · rcases (hsr'.done payload hout).2 with ⟨hstatus', hserved'⟩ | ⟨hstatus', -⟩
        · refine .inr ⟨by rw [hstatus]; rfl, by rw [hstatus']; rfl, hshared (hserved'.resolve_left ?_)⟩
          rw [hmiss]
          exact fun heq => by cases heq
        · exact .inl (hstatus'.trans hstatus.symm)

theorem Comes.sameRun (h : c.Comes outcome result) (h' : c.Comes outcome result') : SameRun result result' where
  status := by
    have hiff : result'.status = .stageFailed ↔ result.status = .stageFailed := h'.failed.trans h.failed.symm
    have hvalid := h.valid
    have hvalid' := h'.valid
    revert hiff hvalid hvalid'
    cases result.status <;> cases result'.status <;> simp
  outputs id := by
    by_cases hid : ∃ i < c.p.stages.length, c.p.stageId i = id
    · obtain ⟨i, hi, rfl⟩ := hid
      rw [h'.outputs i hi, h.outputs i hi]
    · push Not at hid
      rw [h'.others id hid, h.others id hid]
  results sr hsr := by
    obtain ⟨i, hi, hrec⟩ := h.recounts sr hsr
    obtain ⟨sr', hsr', hrec'⟩ := h'.recounted i hi
    exact ⟨sr', hsr', h.sameResult hi hrec hrec'⟩
  results' sr' hsr' := by
    obtain ⟨i, hi, hrec'⟩ := h'.recounts sr' hsr'
    obtain ⟨sr, hsr, hrec⟩ := h.recounted i hi
    exact ⟨sr, hsr, h.sameResult hi hrec hrec'⟩

end Course

/-- However many workers there are and whatever they do in whatever order, they are joined, and the result is that of
the sequential runner, up to the order of the stage results and to which of two stages with one hash is cached. -/
theorem parallel_refines_sequential {p : Pipeline} {d : Dispatcher ω π} {options : RunOptions ω π} {W : ω → Prop}
    (hsteady : Steady W d) (hdisk : SteadyDisk W options) {st : Store ω π} (hworld : W st.world) {order : List ℕ}
    (hvalid : p.validate = .ok order)
    (htelling : ∀ i j stage stage', p.stages[i]? = some stage → p.stages[j]? = some stage' →
      p.hashOf d st.world order i = p.hashOf d st.world order j →
        stage.plugin = stage'.plugin ∧ stage.input = stage'.input)
    {putSucceeds : ContentHash → Bool} (hstop : options.stopOnFirstFailure = false ∨
      (runPipeline p d options putSucceeds st).1.status = .success) (hardware : ℕ) :
    Inevitable (System.Steps p d options)
      (fun sys => sys.Finished ∧ SameRun (runPipeline p d options putSucceeds st).1 (sys.pack p))
      (System.start p (options.workerCount p hardware) st) := by
  let c : Course ω π := ⟨p, d, options, st, order, W, Pipeline.validate_ordered hvalid, hsteady, hdisk, hworld⟩
  obtain ⟨outcome, hsettled, hcomes⟩ := c.runPipeline_comes hvalid htelling hstop
  have hno : options.stopOnFirstFailure = true → ∀ i < p.stages.length, ∀ err, outcome i ≠ .error err := by
    intro hoption i hi err herr
    have hsuccess := hstop.resolve_left (by rw [hoption]; decide)
    have hfailed := hcomes.failed.mpr ⟨i, hi, err, herr⟩
    rw [hsuccess] at hfailed
    cases hfailed
  refine Inevitable.of_measure (I := fun sys => System.Reachable p d options st sys) (System.effort p) ?_ ?_ ?_ .refl
  · intro sys hreach
    have hsound := Sound.reachable c.ordered hreach
    refine (hsound.scheduled.progress c.ordered hsound.rested).imp_left fun hfinished => ⟨hfinished, ?_⟩
    have hfaithful : c.Faithful outcome sys := .reachable htelling hsettled hno hreach
    exact hcomes.sameRun (hfaithful.comes hsound (options.workerCount_pos hardware) hno hfinished)
  · exact fun sys sys' hreach hstep => hreach.tail hstep
  · exact fun sys sys' hreach hstep => System.effort_lt c.ordered (Sound.reachable c.ordered hreach).scheduled hstep

section Example

/-- Two stages with one hash, and one behind the first that fails. -/
def twinStages : Pipeline :=
  { stages := [⟨"a", "good", .null⟩, ⟨"b", "good", .null⟩, ⟨"c", "bad", .stage "a"⟩] }

def cachedWorkers : RunOptions Unit Unit := { stopOnFirstFailure := false, maxWorkers := 2 }

theorem steady_badFails : Steady (fun _ => True) badFails where
  stays _ _ _ _ _ := trivial
  answers _ _ _ _ _ _ _ _ _ := rfl
  extra _ _ _ _ _ _ := rfl

theorem steadyDisk_cachedWorkers : SteadyDisk (fun _ => True) cachedWorkers where
  reads _ h := by
    have hnone : cachedWorkers.reader = none := rfl
    rw [hnone] at h
    cases h
  lossless _ _ h := by
    have hnone : cachedWorkers.writer = none := rfl
    rw [hnone] at h
    cases h

theorem twinStages_telling (i j : ℕ) (stage stage' : Stage) (hstage : twinStages.stages[i]? = some stage)
    (hstage' : twinStages.stages[j]? = some stage')
    (hkey : twinStages.hashOf badFails () [0, 1, 2] i = twinStages.hashOf badFails () [0, 1, 2] j) :
    stage.plugin = stage'.plugin ∧ stage.input = stage'.input := by
  have hne : twinStages.hashOf badFails () [0, 1, 2] 0 ≠ twinStages.hashOf badFails () [0, 1, 2] 2 ∧
      twinStages.hashOf badFails () [0, 1, 2] 1 ≠ twinStages.hashOf badFails () [0, 1, 2] 2 := by
    decide +kernel
  have hi : i < 3 := (List.getElem?_eq_some_iff.mp hstage).1
  have hj : j < 3 := (List.getElem?_eq_some_iff.mp hstage').1
  have hcases : (i < 2 ∧ j < 2) ∨ (i = 2 ∧ j = 2) := by
    rcases Nat.lt_or_ge i 2 with hi' | hi' <;> rcases Nat.lt_or_ge j 2 with hj' | hj'
    · exact .inl ⟨hi', hj'⟩
    · obtain rfl : j = 2 := by omega
      rcases (by omega : i = 0 ∨ i = 1) with rfl | rfl
      · exact absurd hkey hne.1
      · exact absurd hkey hne.2
    · obtain rfl : i = 2 := by omega
      rcases (by omega : j = 0 ∨ j = 1) with rfl | rfl
      · exact absurd hkey.symm hne.1
      · exact absurd hkey.symm hne.2
    · exact .inr ⟨by omega, by omega⟩
  have hgood : ∀ k < 2, ∀ t, twinStages.stages[k]? = some t → t.plugin = "good" ∧ t.input = .null := by
    intro k hk t ht
    rcases (by omega : k = 0 ∨ k = 1) with rfl | rfl <;> obtain rfl := Option.some.inj ht <;> exact ⟨rfl, rfl⟩
  rcases hcases with ⟨hi', hj'⟩ | ⟨rfl, rfl⟩
  · obtain ⟨hplugin, hinput⟩ := hgood i hi' stage hstage
    obtain ⟨hplugin', hinput'⟩ := hgood j hj' stage' hstage'
    exact ⟨hplugin.trans hplugin'.symm, hinput.trans hinput'.symm⟩
  · rw [hstage] at hstage'
    obtain rfl := Option.some.inj hstage'
    exact ⟨rfl, rfl⟩

theorem parallel_refines_sequential_twins :
    Inevitable (System.Steps twinStages badFails cachedWorkers)
      (fun sys => sys.Finished ∧
        SameRun (runPipeline twinStages badFails cachedWorkers (fun _ => true) ⟨(), {}, {}, []⟩).1
          (sys.pack twinStages))
      (System.start twinStages (cachedWorkers.workerCount twinStages 1) ⟨(), {}, {}, []⟩) :=
  parallel_refines_sequential steady_badFails steadyDisk_cachedWorkers trivial (by decide) twinStages_telling
    (.inl rfl) 1

end Example

end Souxmar.Pipeline
