import Mathlib.Logic.Function.Basic
import Mathlib.Logic.Relation
import Souxmar.Pipeline.Runner

/-!
# The parallel runner

`run_pipeline_parallel` of `parallel_runner.cpp`. The workers share the scheduler's state, which one
lock guards, the caches and the world. A step is what one worker does in one go: a critical section, or
one call outside the lock. Between two steps of a worker the others may take any number of steps.

A worker whose wait predicate is false sleeps until it is notified. That it may wake up by itself is
left out: it would find the predicate false and sleep on. A dispatch that throws is one that returns
the error which the runner makes of the exception. The history of the scheduler is not kept by the
code.
-/

set_option linter.dupNamespace false

namespace Souxmar.Pipeline

open Souxmar.Lib Souxmar.PluginHost

/-! ## The graph of the stages -/

namespace Pipeline

variable (p : Pipeline)

/-- `id_to_index` of this runner, which indexes an empty id too. -/
def slotOf (id : String) : Option ℕ := p.stages.findIdx? (·.id = id)

/-- The ids a stage refers to, each once. The code has them in the order of an `unordered_set`. -/
def upstreamIds (idx : ℕ) : List String :=
  match p.stages[idx]? with
  | some stage => stage.uniqRefs.filter fun ref => (p.slotOf ref).isSome
  | none => []

def dependents (idx : ℕ) : List ℕ :=
  (List.range p.stages.length).flatMap fun i =>
    (p.upstreamIds i).filterMap fun ref => if p.slotOf ref = some idx then some i else none

/-- The `in_degree` of a stage before the run. -/
def upstreamCount (idx : ℕ) : ℕ := (p.upstreamIds idx).length

def stageId (idx : ℕ) : String := ((p.stages[idx]?).map (·.id)).getD ""

end Pipeline

/-! ## The shared state -/

inductive SchedulerEvent
  | taken (idx : ℕ)
  | dispatched (idx : ℕ)
  | recorded (idx : ℕ) (status : StageStatus)
deriving DecidableEq, Repr

/-- What the lock guards. -/
structure ParallelState (π : Type) where
  ready : List ℕ
  inDegree : ℕ → ℕ
  results : ℕ → Option StageRunResult := fun _ => none
  stageHashes : ℕ → ContentHash := fun _ => default
  outputs : Outputs π := ∅
  completedOrSkipped : ℕ := 0
  inFlight : ℕ := 0
  stopRequested : Bool := false
  history : List SchedulerEvent := []

namespace ParallelState

variable {π : Type} (p : Pipeline)

/-- The predicate of `cv.wait`. -/
def wakes (s : ParallelState π) : Bool :=
  !s.ready.isEmpty || s.completedOrSkipped = p.stages.length || (s.stopRequested && s.inFlight = 0)

/-- The result of a stage goes into its slot, and its dependents are counted down. -/
def record (idx : ℕ) (sr : StageRunResult) (s : ParallelState π) : ParallelState π :=
  let (inDegree, ready) :=
    release (fun dep ready => ready ++ [dep]) (p.dependents idx) (s.inDegree, s.ready)
  { s with
    ready
    inDegree
    results := Function.update s.results idx (some sr)
    completedOrSkipped := s.completedOrSkipped + 1
    history := s.history ++ [.recorded idx sr.status] }

/-- The last critical section of `process_stage`: a stage that has a payload publishes it. -/
def publish (idx : ℕ) (sr : StageRunResult) (payload : Option (Option π)) (stop : Bool)
    (s : ParallelState π) : ParallelState π :=
  { s.record p idx sr with
    stageHashes := Function.update s.stageHashes idx sr.contentHash
    outputs :=
      match payload with
      | some payload => s.outputs.emplace sr.stageId payload
      | none => s.outputs
    inFlight := s.inFlight - 1
    stopRequested := s.stopRequested || stop }

/-- The hashes of what a stage refers to. -/
def upstreamHashesFor (s : ParallelState π) (upstreamIds : List String) :
    List (String × ContentHash) :=
  upstreamIds.filterMap fun id => (p.slotOf id).map fun i => (id, s.stageHashes i)

end ParallelState

structure Shared (ω π : Type) where
  world : ω
  cache : Cache π
  disk : DiskCache
  state : ParallelState π

/-! ## The workers -/

/-- How far `process_stage` is, with its local variables. -/
inductive Work (π : Type)
  | taken
  | hashed (key : ContentHash)
  | missed (key : ContentHash)
  | read (key : ContentHash) (blob : List UInt8)
  | rehydrated (key : ContentHash) (payload : π)
  | found (key : ContentHash) (payload : π)
  | uncached (key : ContentHash)
  | snapshotted (key : ContentHash) (upstream : Outputs π)
  | dispatching (key : ContentHash) (upstream : Outputs π)
  | failed (key : ContentHash) (err : DispatchError)
  | returned (key : ContentHash) (payload : Option π)
  | persisting (key : ContentHash) (payload : π)
  | executed (key : ContentHash) (payload : Option π)

inductive Phase (π : Type)
  | waiting
  | asleep
  | exited
  | working (idx : ℕ) (work : Work π)

/-- `notify_all` reaches the workers that sleep. -/
def Phase.wake {π : Type} : Phase π → Phase π
  | asleep => waiting
  | phase => phase

structure System (ω π : Type) (workers : ℕ) where
  shared : Shared ω π
  phases : Fin workers → Phase π

/-- What a step leaves behind: the shared state, where the worker goes, and whether it notifies the
others. -/
structure Move (ω π : Type) where
  shared : Shared ω π
  phase : Phase π
  notify : Bool := false

section

variable {ω π : Type} (p : Pipeline) (d : Dispatcher ω π) (options : RunOptions ω π)

/-- The critical section at the head of a worker's loop. -/
def awaitWork (s : Shared ω π) : Move ω π :=
  if !s.state.wakes p then { shared := s, phase := .asleep }
  else if s.state.completedOrSkipped = p.stages.length then { shared := s, phase := .exited }
  else if s.state.stopRequested && s.state.inFlight = 0 then { shared := s, phase := .exited }
  else
    match s.state.ready with
    | [] => { shared := s, phase := .waiting }
    | idx :: ready =>
      let state := { s.state with ready }
      if s.state.stopRequested then
        { shared := { s with state := state.record p idx ⟨p.stageId idx, .skipped, default, none⟩ }
          phase := .waiting
          notify := true }
      else
        { shared :=
            { s with
              state :=
                { state with
                  inFlight := state.inFlight + 1
                  history := state.history ++ [.taken idx] } }
          phase := .working idx .taken }

/-- The next step of `process_stage`. `guardFree` says that no other worker is in a call that the
reentrancy guard serializes with this one, `putSucceeds` whether a write to the disk cache succeeds. -/
def processStage (idx : ℕ) (stage : Stage) (guardFree putSucceeds : Bool) (s : Shared ω π) :
    Work π → Option (Move ω π)
  | .taken =>
    let upstreamHashes := s.state.upstreamHashesFor p (p.upstreamIds idx)
    some ⟨s, .working idx (.hashed (evaluation d stage upstreamHashes s.world).key), false⟩
  | .hashed key =>
    if !options.useCache then some ⟨s, .working idx (.uncached key), false⟩
    else
      match s.cache.get key with
      | some cached => some ⟨s, .working idx (.found key cached), false⟩
      | none => some ⟨s, .working idx (.missed key), false⟩
  | .missed key =>
    match options.reader.bind fun _ => s.disk.getBytes key with
    | some blob => some ⟨s, .working idx (.read key blob), false⟩
    | none => some ⟨s, .working idx (.uncached key), false⟩
  | .read key blob =>
    match options.reader.bind fun deserialize => deserialize blob s.world with
    | some rehydrated => some ⟨s, .working idx (.rehydrated key rehydrated), false⟩
    | none => some ⟨s, .working idx (.uncached key), false⟩
  | .rehydrated key payload =>
    some ⟨{ s with cache := s.cache.put key (some payload) }, .working idx (.found key payload), false⟩
  | .found key payload =>
    let state := s.state.publish p idx ⟨stage.id, .cached, key, none⟩ (some (some payload)) false
    some ⟨{ s with state }, .waiting, true⟩
  | .uncached key => some ⟨s, .working idx (.snapshotted key s.state.outputs), false⟩
  | .snapshotted key upstream =>
    if guardFree then
      let state := { s.state with history := s.state.history ++ [.dispatched idx] }
      some ⟨{ s with state }, .working idx (.dispatching key upstream), false⟩
    else none
  | .dispatching key upstream =>
    let (dr, world) := d.dispatch stage.plugin stage.input upstream s.world
    match dr with
    | .error err => some ⟨{ s with world }, .working idx (.failed key err), false⟩
    | .ok payload => some ⟨{ s with world }, .working idx (.returned key payload), false⟩
  | .failed key err =>
    let state := s.state.publish p idx ⟨stage.id, .failed, key, some err⟩ none
      options.stopOnFirstFailure
    some ⟨{ s with state }, .waiting, true⟩
  | .returned key payload =>
    match payload with
    | none => some ⟨s, .working idx (.executed key none), false⟩
    | some q =>
      if options.useCache then
        some ⟨{ s with cache := s.cache.put key (some q) }, .working idx (.persisting key q), false⟩
      else some ⟨s, .working idx (.executed key (some q)), false⟩
  | .persisting key payload =>
    match options.writer.bind fun serialize => serialize payload with
    | none => some ⟨s, .working idx (.executed key (some payload)), false⟩
    | some blob =>
      some ⟨{ s with disk := s.disk.putBytes key blob putSucceeds },
        .working idx (.executed key (some payload)), false⟩
  | .executed key payload =>
    let state := s.state.publish p idx ⟨stage.id, .executed, key, none⟩ (some payload) false
    some ⟨{ s with state }, .waiting, true⟩

/-- `ReentrancyGuard`: a worker in a plugin call holds the mutex of the plugin, unless the plugin is
reentrant. -/
def Phase.holds (pluginId : String) : Phase π → Bool
  | .working idx (.dispatching _ _) =>
    (p.stages[idx]?).any fun stage =>
      d.pluginThreading stage.plugin ≠ .reentrant && d.pluginId stage.plugin = pluginId
  | _ => false

namespace System

variable {workers : ℕ}

def guardFree (sys : System ω π workers) (stage : Stage) : Bool :=
  d.pluginThreading stage.plugin = .reentrant ||
    decide (∀ v, (sys.phases v).holds p d (d.pluginId stage.plugin) = false)

/-- The step of a worker, unless it sleeps, has returned or waits for a plugin's mutex. -/
def move (w : Fin workers) (putSucceeds : Bool) (sys : System ω π workers) : Option (Move ω π) :=
  match sys.phases w with
  | .waiting => some (awaitWork p sys.shared)
  | .asleep => none
  | .exited => none
  | .working idx work =>
    (p.stages[idx]?).bind fun stage =>
      processStage p d options idx stage (sys.guardFree p d stage) putSucceeds sys.shared work

def step (w : Fin workers) (putSucceeds : Bool) (sys : System ω π workers) :
    Option (System ω π workers) :=
  (sys.move p d options w putSucceeds).map fun m =>
    { shared := m.shared
      phases := Function.update (if m.notify then fun v => (sys.phases v).wake else sys.phases) w
        m.phase }

/-- Some worker takes a step. -/
def Steps (sys sys' : System ω π workers) : Prop :=
  ∃ w putSucceeds, sys.step p d options w putSucceeds = some sys'

/-- The workers are spawned. -/
def start (workers : ℕ) (st : Store ω π) : System ω π workers where
  shared :=
    { world := st.world
      cache := st.cache
      disk := st.disk
      state :=
        { ready := (List.range p.stages.length).filter fun i => p.upstreamCount i = 0
          inDegree := p.upstreamCount } }
  phases := fun _ => .waiting

def Reachable (st : Store ω π) (sys : System ω π workers) : Prop :=
  Relation.ReflTransGen (Steps p d options) (start p workers st) sys

/-- All workers are joined. -/
def Finished (sys : System ω π workers) : Prop := ∀ w, sys.phases w = .exited

/-- The schedule given by a list of workers, all writes to the disk cache succeeding. -/
def play (ws : List (Fin workers)) (sys : System ω π workers) : Option (System ω π workers) :=
  ws.foldlM (fun sys w => sys.step p d options w true) sys

/-- The sweep and the packing after the workers are joined. -/
def pack (sys : System ω π workers) : RunResult π :=
  let results := (List.range p.stages.length).map fun i =>
    (sys.shared.state.results i).getD ⟨p.stageId i, .skipped, default, none⟩
  { status := if results.any fun sr => sr.status = .failed then .stageFailed else .success
    stageResults := results
    outputs := sys.shared.state.outputs }

end System

/-- The size of the pool. -/
def RunOptions.workerCount (hardware : ℕ) : ℕ :=
  min (if options.maxWorkers > 0 then options.maxWorkers else max 1 hardware) p.stages.length

end

end Souxmar.Pipeline
