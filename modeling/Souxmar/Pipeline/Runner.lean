import Souxmar.Lib.Dict
import Souxmar.Pipeline.ContentHash
import Souxmar.Pipeline.Dag
import Souxmar.PluginHost.Registry

/-!
# The sequential runner

`run_pipeline` of `runner.cpp` for at most one worker, over any dispatcher: a stage is looked up in
the cache under the hash of its evaluation, and dispatched when it is not found.

A payload is a shared pointer and may be null. The world `ω` is what dispatching may read and change,
such as the file system. The store also carries a log of how each stage was settled, which the code
does not keep.
-/

set_option linter.dupNamespace false

namespace Souxmar.Pipeline

open Souxmar.Lib Souxmar.PluginHost

/-! ## Caches -/

/-- The in-memory cache. -/
structure Cache (π : Type) where
  entries : Dict ContentHash (Option π) := ∅

namespace Cache

variable {π : Type}

/-- A null payload is a miss. -/
def get (c : Cache π) (key : ContentHash) : Option π := (c.entries.lookup key).join

def put (key : ContentHash) (payload : Option π) (c : Cache π) : Cache π :=
  ⟨c.entries.insert key payload⟩

theorem get_put (key key' : ContentHash) (payload : Option π) (c : Cache π) :
    (c.put key payload).get key' = if key' = key then payload else c.get key' := by
  unfold get put
  split_ifs with hkey
  · rw [hkey, AList.lookup_insert]
    cases payload <;> rfl
  · rw [AList.lookup_insert_ne hkey]

@[simp] theorem get_empty (key : ContentHash) : ({} : Cache π).get key = none := rfl

end Cache

/-- The directory of the disk cache: a blob for each key. -/
structure DiskCache where
  files : Dict ContentHash (List UInt8) := ∅

namespace DiskCache

def getBytes (c : DiskCache) (key : ContentHash) : Option (List UInt8) := c.files.lookup key

/-- `put_bytes` stores the blob, or fails and leaves the directory as it was. A write that is lost when the stream is
destroyed, after it was found good, is not modelled. -/
def putBytes (key : ContentHash) (blob : List UInt8) (succeeds : Bool) (c : DiskCache) : DiskCache :=
  if succeeds then ⟨c.files.insert key blob⟩ else c

theorem getBytes_putBytes (key key' : ContentHash) (blob : List UInt8) (succeeds : Bool)
    (c : DiskCache) :
    (c.putBytes key blob succeeds).getBytes key' =
      if succeeds ∧ key' = key then some blob else c.getBytes key' := by
  unfold getBytes putBytes
  cases succeeds with
  | false => simp
  | true =>
    by_cases hkey : key' = key
    · subst hkey
      simp [AList.lookup_insert]
    · simp [hkey, AList.lookup_insert_ne hkey]

@[simp] theorem getBytes_empty (key : ContentHash) : ({} : DiskCache).getBytes key = none := rfl

end DiskCache

/-! ## Dispatchers, options and results -/

structure DispatchError where
  message : String
deriving DecidableEq, Repr

abbrev Outputs (π : Type) := Dict String (Option π)

/-- `IDispatcher`, with its default methods. -/
structure Dispatcher (ω π : Type) where
  dispatch : String → Value → Outputs π → ω → Except DispatchError (Option π) × ω
  cacheKeyExtra : String → Value → ω → String := fun _ _ _ => ""
  pluginVersion : String → String := fun _ => ""
  pluginId : String → String := fun capabilityId => capabilityId
  pluginThreading : String → ThreadingModel := fun _ => .singleThreaded

/-- The disk cache pointer may be null, and so may both functions. -/
structure DiskBacking (ω π : Type) where
  hasCache : Bool := true
  serialize : Option (π → Option (List UInt8)) := none
  deserialize : Option (List UInt8 → ω → Option π) := none

structure RunOptions (ω π : Type) where
  useCache : Bool := true
  stopOnFirstFailure : Bool := true
  maxWorkers : ℕ := 1
  diskBacking : Option (DiskBacking ω π) := none

namespace RunOptions

variable {ω π : Type} (options : RunOptions ω π)

/-- The deserializer, when the disk cache can be read. -/
def reader : Option (List UInt8 → ω → Option π) :=
  options.diskBacking.bind fun backing => if backing.hasCache then backing.deserialize else none

/-- The serializer, when the disk cache can be written. -/
def writer : Option (π → Option (List UInt8)) :=
  options.diskBacking.bind fun backing => if backing.hasCache then backing.serialize else none

end RunOptions

inductive StageStatus
  | cached
  | executed
  | failed
  | skipped
deriving DecidableEq, Repr

structure StageRunResult where
  stageId : String
  status : StageStatus
  contentHash : ContentHash := default
  error : Option DispatchError := none
deriving DecidableEq, Repr

inductive RunStatus
  | success
  | validationFailed
  | stageFailed
deriving DecidableEq, Repr

structure RunResult (π : Type) where
  status : RunStatus
  validationErrors : List String := []
  stageResults : List StageRunResult := []
  outputs : Outputs π := ∅

/-! ## Evaluations -/

/-- What the key of a stage is computed from. -/
structure Evaluation where
  capability : String
  version : String
  extra : String
  input : Value
  upstream : List (String × ContentHash)

namespace Evaluation

/-- The context string: capability id, version and extra, with their separators. -/
def context (e : Evaluation) : String :=
  let context := if e.version.isEmpty then e.capability else e.capability ++ "@" ++ e.version
  if e.extra.isEmpty then context else context ++ "|" ++ e.extra

def key (e : Evaluation) : ContentHash := hashInputs e.upstream e.context e.input

end Evaluation

/-- How a stage was settled. -/
inductive StageEvent (π : Type)
  | served (e : Evaluation) (payload : π)
  | executed (e : Evaluation) (payload : Option π)
  | failed (e : Evaluation)

def StageEvent.evaluation {π : Type} : StageEvent π → Evaluation
  | served e _ => e
  | executed e _ => e
  | failed e => e

/-- What the runs of a session share. -/
structure Store (ω π : Type) where
  world : ω
  cache : Cache π := {}
  disk : DiskCache := {}
  log : List (StageEvent π) := []

/-- The variables of one run. -/
structure Loop (π : Type) where
  upstreamHashes : List (String × ContentHash) := []
  outputs : Outputs π := ∅
  stageResults : List StageRunResult := []
  encounteredFailure : Bool := false

variable {ω π : Type}

def Store.record (st : Store ω π) (event : StageEvent π) : Store ω π :=
  { st with log := st.log ++ [event] }

def evaluation (d : Dispatcher ω π) (stage : Stage) (upstream : List (String × ContentHash))
    (world : ω) : Evaluation where
  capability := stage.plugin
  version := d.pluginVersion stage.plugin
  extra := d.cacheKeyExtra stage.plugin stage.input world
  input := stage.input
  upstream := upstream

/-- The lookup in memory and then on disk; a payload found on disk goes back into memory. -/
def lookupCache (options : RunOptions ω π) (key : ContentHash) (st : Store ω π) :
    Option π × Store ω π :=
  if !options.useCache then (none, st)
  else
    match st.cache.get key with
    | some cached => (some cached, st)
    | none =>
      match options.reader with
      | none => (none, st)
      | some deserialize =>
        match (st.disk.getBytes key).bind fun blob => deserialize blob st.world with
        | some rehydrated => (some rehydrated, { st with cache := st.cache.put key (some rehydrated) })
        | none => (none, st)

section

variable {options : RunOptions ω π} {key : ContentHash} {st st' : Store ω π}

theorem lookupCache_none (h : lookupCache options key st = (none, st')) : st' = st := by
  unfold lookupCache at h
  split_ifs at h
  · exact (Prod.mk.inj h).2.symm
  · split at h
    · exact nomatch (Prod.mk.inj h).1
    · split at h
      · exact (Prod.mk.inj h).2.symm
      · split at h
        · exact nomatch (Prod.mk.inj h).1
        · exact (Prod.mk.inj h).2.symm

/-- A payload is served from memory, or from a blob on disk that goes back into memory. -/
theorem lookupCache_some {p : π} (h : lookupCache options key st = (some p, st')) :
    (st.cache.get key = some p ∧ st' = st) ∨
      ∃ deserialize blob, options.reader = some deserialize ∧ st.disk.getBytes key = some blob ∧
        deserialize blob st.world = some p ∧ st.cache.get key = none ∧
        st' = { st with cache := st.cache.put key (some p) } := by
  unfold lookupCache at h
  split_ifs at h
  · exact nomatch (Prod.mk.inj h).1
  · split at h
    · rename_i cached hcached
      obtain ⟨hp, hst⟩ := Prod.mk.inj h
      exact .inl ⟨by rw [hcached, hp], hst.symm⟩
    · rename_i hmiss
      split at h
      · exact nomatch (Prod.mk.inj h).1
      · rename_i deserialize hreader
        split at h
        · rename_i rehydrated hblob
          obtain ⟨hp, hst⟩ := Prod.mk.inj h
          obtain ⟨blob, hget, hdes⟩ := Option.bind_eq_some_iff.mp hblob
          have hpeq := Option.some.inj hp
          subst hpeq
          exact .inr ⟨deserialize, blob, hreader, hget, hdes, hmiss, hst.symm⟩
        · exact nomatch (Prod.mk.inj h).1

end

theorem lookupCache_log (options : RunOptions ω π) (key : ContentHash) (st : Store ω π) :
    (lookupCache options key st).2.log = st.log := by
  rcases h : lookupCache options key st with ⟨found, st'⟩
  cases found with
  | none => rw [lookupCache_none h]
  | some p =>
    rcases lookupCache_some h with ⟨-, rfl⟩ | ⟨_, _, -, -, -, -, rfl⟩ <;> rfl

/-- A payload that is not null goes into the caches. -/
def storePayload (options : RunOptions ω π) (succeeds : Bool) (key : ContentHash)
    (payload : Option π) (st : Store ω π) : Store ω π :=
  match payload with
  | none => st
  | some p =>
    if !options.useCache then st
    else
      let st := { st with cache := st.cache.put key payload }
      match options.writer.bind fun serialize => serialize p with
      | none => st
      | some blob => { st with disk := st.disk.putBytes key blob succeeds }

theorem storePayload_log (options : RunOptions ω π) (succeeds : Bool) (key : ContentHash)
    (payload : Option π) (st : Store ω π) :
    (storePayload options succeeds key payload st).log = st.log := by
  unfold storePayload
  cases payload with
  | none => rfl
  | some p =>
    dsimp only
    split_ifs
    · rfl
    · split <;> rfl

/-- One pass of the loop of `run_pipeline`. `putSucceeds` says which writes to the disk cache
succeed. -/
def runStage (d : Dispatcher ω π) (options : RunOptions ω π) (putSucceeds : ContentHash → Bool)
    (stage : Stage) (loop : Loop π) (st : Store ω π) : Loop π × Store ω π :=
  if loop.encounteredFailure && options.stopOnFirstFailure then
    ({ loop with stageResults := loop.stageResults ++ [⟨stage.id, .skipped, default, none⟩] }, st)
  else
    let e := evaluation d stage loop.upstreamHashes st.world
    let upstreamHashes := loop.upstreamHashes ++ [(stage.id, e.key)]
    match lookupCache options e.key st with
    | (some cached, st) =>
      ({ loop with
          upstreamHashes
          outputs := loop.outputs.emplace stage.id (some cached)
          stageResults := loop.stageResults ++ [⟨stage.id, .cached, e.key, none⟩] },
        st.record (.served e cached))
    | (none, st) =>
      let (dr, world) := d.dispatch stage.plugin stage.input loop.outputs st.world
      let st := { st with world }
      match dr with
      | .error err =>
        ({ loop with
            upstreamHashes
            stageResults := loop.stageResults ++ [⟨stage.id, .failed, e.key, some err⟩]
            encounteredFailure := true },
          st.record (.failed e))
      | .ok payload =>
        ({ loop with
            upstreamHashes
            outputs := loop.outputs.emplace stage.id payload
            stageResults := loop.stageResults ++ [⟨stage.id, .executed, e.key, none⟩] },
          (storePayload options (putSucceeds e.key) e.key payload st).record (.executed e payload))

section

variable {d : Dispatcher ω π} {options : RunOptions ω π} {putSucceeds : ContentHash → Bool}
  {stage : Stage} {loop : Loop π} {st st' : Store ω π} {e : Evaluation} {world : ω}

theorem runStage_skipped (h : (loop.encounteredFailure && options.stopOnFirstFailure) = true) :
    runStage d options putSucceeds stage loop st =
      ({ loop with stageResults := loop.stageResults ++ [⟨stage.id, .skipped, default, none⟩] },
        st) := by
  unfold runStage
  rw [if_pos h]

variable (h : (loop.encounteredFailure && options.stopOnFirstFailure) = false)
  (he : evaluation d stage loop.upstreamHashes st.world = e)

include h he

theorem runStage_served {cached : π} (hlook : lookupCache options e.key st = (some cached, st')) :
    runStage d options putSucceeds stage loop st =
      ({ loop with
          upstreamHashes := loop.upstreamHashes ++ [(stage.id, e.key)]
          outputs := loop.outputs.emplace stage.id (some cached)
          stageResults := loop.stageResults ++ [⟨stage.id, .cached, e.key, none⟩] },
        st'.record (.served e cached)) := by
  subst he
  unfold runStage
  simp only [h, Bool.false_eq_true, if_false, hlook]

theorem runStage_failed {err : DispatchError} (hlook : (lookupCache options e.key st).1 = none)
    (hd : d.dispatch stage.plugin stage.input loop.outputs st.world = (.error err, world)) :
    runStage d options putSucceeds stage loop st =
      ({ loop with
          upstreamHashes := loop.upstreamHashes ++ [(stage.id, e.key)]
          stageResults := loop.stageResults ++ [⟨stage.id, .failed, e.key, some err⟩]
          encounteredFailure := true },
        { st with world }.record (.failed e)) := by
  subst he
  rcases hst : lookupCache options (evaluation d stage loop.upstreamHashes st.world).key st
    with ⟨payload, st'⟩
  obtain rfl : payload = none := by rw [hst] at hlook; exact hlook
  obtain rfl := lookupCache_none hst
  unfold runStage
  simp only [h, Bool.false_eq_true, if_false, hst, hd]

theorem runStage_executed {payload : Option π} (hlook : (lookupCache options e.key st).1 = none)
    (hd : d.dispatch stage.plugin stage.input loop.outputs st.world = (.ok payload, world)) :
    runStage d options putSucceeds stage loop st =
      ({ loop with
          upstreamHashes := loop.upstreamHashes ++ [(stage.id, e.key)]
          outputs := loop.outputs.emplace stage.id payload
          stageResults := loop.stageResults ++ [⟨stage.id, .executed, e.key, none⟩] },
        (storePayload options (putSucceeds e.key) e.key payload { st with world }).record
          (.executed e payload)) := by
  subst he
  rcases hst : lookupCache options (evaluation d stage loop.upstreamHashes st.world).key st
    with ⟨found, st'⟩
  obtain rfl : found = none := by rw [hst] at hlook; exact hlook
  obtain rfl := lookupCache_none hst
  unfold runStage
  simp only [h, Bool.false_eq_true, if_false, hst, hd]

/-- However a stage is settled, its hash joins the others and one event is logged. -/
theorem runStage_settled :
    (runStage d options putSucceeds stage loop st).1.upstreamHashes =
        loop.upstreamHashes ++ [(stage.id, e.key)] ∧
      ∃ event, event.evaluation = e ∧
        (runStage d options putSucceeds stage loop st).2.log = st.log ++ [event] := by
  rcases hlook : lookupCache options e.key st with ⟨found, st'⟩
  have hlog := lookupCache_log options e.key st
  rw [hlook] at hlog
  cases found with
  | some cached =>
    rw [runStage_served h he hlook]
    refine ⟨rfl, .served e cached, rfl, ?_⟩
    rw [← hlog]
    rfl
  | none =>
    have hmiss : (lookupCache options e.key st).1 = none := by rw [hlook]
    rcases hd : d.dispatch stage.plugin stage.input loop.outputs st.world with ⟨dr, world⟩
    cases dr with
    | error err =>
      rw [runStage_failed h he hmiss hd]
      exact ⟨rfl, .failed e, rfl, rfl⟩
    | ok payload =>
      rw [runStage_executed h he hmiss hd]
      refine ⟨rfl, .executed e payload, rfl, ?_⟩
      rw [Store.record, storePayload_log]

end

def runStages (d : Dispatcher ω π) (options : RunOptions ω π) (putSucceeds : ContentHash → Bool)
    (stages : List Stage) (loop : Loop π) (st : Store ω π) : Loop π × Store ω π :=
  match stages with
  | [] => (loop, st)
  | stage :: stages =>
    let (loop, st) := runStage d options putSucceeds stage loop st
    runStages d options putSucceeds stages loop st

theorem runStages_keep {P : Loop π → Store ω π → Prop} {d : Dispatcher ω π}
    {options : RunOptions ω π} {putSucceeds : ContentHash → Bool} {stages : List Stage}
    (keep : ∀ stage ∈ stages, ∀ loop st, P loop st →
      P (runStage d options putSucceeds stage loop st).1
        (runStage d options putSucceeds stage loop st).2)
    {loop : Loop π} {st : Store ω π} (h : P loop st) :
    P (runStages d options putSucceeds stages loop st).1
      (runStages d options putSucceeds stages loop st).2 := by
  induction stages generalizing loop st with
  | nil => exact h
  | cons stage stages ih =>
    exact ih (fun s hs => keep s (List.mem_cons_of_mem _ hs)) (keep stage List.mem_cons_self _ _ h)

/-- The stages of a pipeline in an order of indices. -/
def Pipeline.inOrder (p : Pipeline) (order : List ℕ) : List Stage :=
  order.filterMap fun idx => p.stages[idx]?

/-- The rule for an order: the invariant sees the indices that are behind it. -/
theorem runStages_inOrder {p : Pipeline} {order : List ℕ} (hp : p.Ordered order)
    {P : List ℕ → Loop π → Store ω π → Prop} {d : Dispatcher ω π} {options : RunOptions ω π}
    {putSucceeds : ContentHash → Bool}
    (keep : ∀ before i after stage loop st, order = before ++ i :: after →
      p.stages[i]? = some stage → P before loop st →
      P (before ++ [i]) (runStage d options putSucceeds stage loop st).1
        (runStage d options putSucceeds stage loop st).2)
    {loop : Loop π} {st : Store ω π} (h : P [] loop st) :
    P order (runStages d options putSucceeds (p.inOrder order) loop st).1
      (runStages d options putSucceeds (p.inOrder order) loop st).2 := by
  suffices hrest : ∀ after before loop st, order = before ++ after → P before loop st →
      P order (runStages d options putSucceeds (p.inOrder after) loop st).1
        (runStages d options putSucceeds (p.inOrder after) loop st).2 from
    hrest order [] loop st rfl h
  intro after
  induction after with
  | nil =>
    intro before loop st horder hbefore
    rw [List.append_nil] at horder
    exact horder ▸ hbefore
  | cons i after ih =>
    intro before loop st horder hbefore
    have hi : i ∈ order := horder ▸ List.mem_append_right _ List.mem_cons_self
    have hbound : i < p.stages.length := List.mem_range.mp (hp.perm.mem_iff.mp hi)
    have hstage : p.stages[i]? = some p.stages[i] := List.getElem?_eq_getElem hbound
    have hsplit : p.inOrder (i :: after) = p.stages[i] :: p.inOrder after := by
      rw [Pipeline.inOrder, List.filterMap_cons, hstage]
      rfl
    rw [hsplit, runStages]
    exact ih (before ++ [i]) _ _ (by rw [horder, List.append_assoc, List.singleton_append])
      (keep before i after p.stages[i] loop st horder hstage hbefore)

def validationError (e : DagError) : String :=
  if e.stageId.isEmpty then e.message else "[" ++ e.stageId ++ "] " ++ e.message

/-- `run_pipeline` with one worker. -/
def runPipeline (p : Pipeline) (d : Dispatcher ω π) (options : RunOptions ω π)
    (putSucceeds : ContentHash → Bool) (st : Store ω π) : RunResult π × Store ω π :=
  match p.validate with
  | .error errors =>
    ({ status := .validationFailed, validationErrors := errors.map validationError }, st)
  | .ok order =>
    let (loop, st) := runStages d options putSucceeds (p.inOrder order) {} st
    ({ status := if loop.encounteredFailure then .stageFailed else .success
       stageResults := loop.stageResults
       outputs := loop.outputs }, st)

end Souxmar.Pipeline
