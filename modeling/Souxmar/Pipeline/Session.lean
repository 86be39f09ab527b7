import Souxmar.Lib.Run
import Souxmar.Pipeline.RegistryDispatcher

/-!
# Sessions

Many runs against one cache: each with its own pipeline, plugin registry, base directory and options.
Between runs files may be edited, and the process may be restarted, which loses the cache in memory and
keeps the one on disk.

`Backed` is what the caches are good for: everything in them was handed over by a dispatch of the
session under the same key, and so was everything a run was served.
-/

namespace Souxmar.Pipeline

open Souxmar.Lib

variable {ω π : Type}

/-- The disk cache, where there is one, goes through these two functions. -/
structure RunOptions.Uses (options : RunOptions ω π) (serialize : π → Option (List UInt8))
    (deserialize : List UInt8 → ω → Option π) : Prop where
  writer : ∀ s, options.writer = some s → s = serialize
  reader : ∀ s, options.reader = some s → s = deserialize

/-- A blob comes back as nothing or as what it was made from. -/
def Lossless (serialize : π → Option (List UInt8)) (deserialize : List UInt8 → ω → Option π) :
    Prop :=
  ∀ p blob w q, serialize p = some blob → deserialize blob w = some q → q = p

/-! ## The log and the caches -/

/-- What is served was executed before, under the same key. -/
def ServedFromExecuted (log : List (StageEvent π)) : Prop :=
  ∀ before e p after, log = before ++ .served e p :: after →
    ∃ e', .executed e' (some p) ∈ before ∧ e'.key = e.key

theorem ServedFromExecuted.snoc {log : List (StageEvent π)} (h : ServedFromExecuted log)
    {event : StageEvent π}
    (hevent : ∀ e p, event = .served e p → ∃ e', .executed e' (some p) ∈ log ∧ e'.key = e.key) :
    ServedFromExecuted (log ++ [event]) := by
  intro before e p after heq
  rcases List.eq_nil_or_concat after with rfl | ⟨after, last, rfl⟩
  · obtain ⟨hbefore, hlast⟩ := List.append_inj' heq rfl
    exact hbefore ▸ hevent e p (List.cons.inj hlast).1
  · rw [List.concat_eq_append, ← List.cons_append, ← List.append_assoc] at heq
    exact h before e p after (List.append_inj' heq rfl).1

/-- What the caches hold was executed, and so was what has been served from them. -/
structure Backed (serialize : π → Option (List UInt8)) (st : Store ω π) : Prop where
  memory : ∀ k p, st.cache.get k = some p → ∃ e, .executed e (some p) ∈ st.log ∧ e.key = k
  disk : ∀ k blob, st.disk.getBytes k = some blob →
    ∃ e p, .executed e (some p) ∈ st.log ∧ e.key = k ∧ serialize p = some blob
  served : ServedFromExecuted st.log

namespace Backed

variable {serialize : π → Option (List UInt8)} {st : Store ω π}

theorem record (h : Backed serialize st) {event : StageEvent π}
    (hevent : ∀ e p, event = .served e p → ∃ e', .executed e' (some p) ∈ st.log ∧ e'.key = e.key) :
    Backed serialize (st.record event) where
  memory k p hget := by
    obtain ⟨e, he, hkey⟩ := h.memory k p hget
    exact ⟨e, List.mem_append_left _ he, hkey⟩
  disk k blob hget := by
    obtain ⟨e, p, he, hkey, hblob⟩ := h.disk k blob hget
    exact ⟨e, p, List.mem_append_left _ he, hkey, hblob⟩
  served := h.served.snoc hevent

theorem put (h : Backed serialize st) {e : Evaluation} {p : π}
    (he : .executed e (some p) ∈ st.log) :
    Backed serialize { st with cache := st.cache.put e.key (some p) } where
  memory k q hget := by
    rw [Cache.get_put] at hget
    split_ifs at hget with hk
    · obtain rfl := Option.some.inj hget
      exact ⟨e, he, hk.symm⟩
    · exact h.memory k q hget
  disk := h.disk
  served := h.served

theorem putBytes (h : Backed serialize st) {e : Evaluation} {p : π} {blob : List UInt8}
    (he : .executed e (some p) ∈ st.log) (hblob : serialize p = some blob) (succeeds : Bool) :
    Backed serialize { st with disk := st.disk.putBytes e.key blob succeeds } where
  memory := h.memory
  disk k blob' hget := by
    rw [DiskCache.getBytes_putBytes] at hget
    split_ifs at hget with hk
    · obtain rfl := Option.some.inj hget
      exact ⟨e, p, he, hk.2.symm, hblob⟩
    · exact h.disk k blob' hget
  served := h.served

variable {deserialize : List UInt8 → ω → Option π} {options : RunOptions ω π}

theorem storePayload (h : Backed serialize st) (huses : options.Uses serialize deserialize)
    {e : Evaluation} {payload : Option π} (he : .executed e payload ∈ st.log) (succeeds : Bool) :
    Backed serialize (storePayload options succeeds e.key payload st) := by
  unfold Pipeline.storePayload
  cases payload with
  | none => exact h
  | some p =>
    have hput := h.put he
    dsimp only
    split_ifs
    · exact h
    · split
      · exact hput
      · rename_i blob hblob
        obtain ⟨s, hs, hser⟩ := Option.bind_eq_some_iff.mp hblob
        have hpersisted := hput.putBytes he (huses.writer s hs ▸ hser) succeeds
        exact hpersisted

theorem lookup (h : Backed serialize st) (huses : options.Uses serialize deserialize)
    (hcodec : Lossless serialize deserialize) {k : ContentHash} {p : π} {st' : Store ω π}
    (hlook : lookupCache options k st = (some p, st')) :
    Backed serialize st' ∧ st'.log = st.log ∧ ∃ e, .executed e (some p) ∈ st.log ∧ e.key = k := by
  rcases lookupCache_some hlook with ⟨hget, rfl⟩ | ⟨des, blob, hreader, hget, hdes, -, rfl⟩
  · exact ⟨h, rfl, h.memory k p hget⟩
  · obtain ⟨e, q, he, hkey, hblob⟩ := h.disk k blob hget
    obtain rfl := hcodec q blob _ p hblob (huses.reader des hreader ▸ hdes)
    exact ⟨hkey ▸ h.put he, rfl, e, he, hkey⟩

end Backed

theorem storePayload_record (options : RunOptions ω π) (succeeds : Bool) (key : ContentHash)
    (payload : Option π) (st : Store ω π) (event : StageEvent π) :
    (storePayload options succeeds key payload st).record event =
      storePayload options succeeds key payload (st.record event) := by
  unfold storePayload
  cases payload with
  | none => rfl
  | some p =>
    dsimp only
    split_ifs
    · rfl
    · split <;> rfl

section

variable {serialize : π → Option (List UInt8)} {deserialize : List UInt8 → ω → Option π}
  {d : Dispatcher ω π} {options : RunOptions ω π} {putSucceeds : ContentHash → Bool}

theorem Backed.runStage (huses : options.Uses serialize deserialize)
    (hcodec : Lossless serialize deserialize) {stage : Stage} {loop : Loop π} {st : Store ω π}
    (h : Backed serialize st) :
    Backed serialize (runStage d options putSucceeds stage loop st).2 := by
  cases hskip : (loop.encounteredFailure && options.stopOnFirstFailure) with
  | true => rwa [runStage_skipped hskip]
  | false =>
    rcases hlook : lookupCache options (evaluation d stage loop.upstreamHashes st.world).key st
      with ⟨found, st'⟩
    cases found with
    | some cached =>
      rw [runStage_served hskip rfl hlook]
      obtain ⟨hst', hlog, e, he, hkey⟩ := h.lookup huses hcodec hlook
      refine hst'.record fun e' p heq => ?_
      cases heq
      exact ⟨e, hlog ▸ he, hkey⟩
    | none =>
      have hmiss : (lookupCache options (evaluation d stage loop.upstreamHashes st.world).key st).1 =
          none := by rw [hlook]
      rcases hd : d.dispatch stage.plugin stage.input loop.outputs st.world with ⟨dr, world⟩
      have hworld : Backed serialize { st with world } := ⟨h.memory, h.disk, h.served⟩
      cases dr with
      | error err =>
        rw [runStage_failed hskip rfl hmiss hd]
        exact hworld.record fun e' p heq => nomatch heq
      | ok payload =>
        rw [runStage_executed hskip rfl hmiss hd, storePayload_record]
        have hrecord : Backed serialize ({ st with world }.record
            (.executed (evaluation d stage loop.upstreamHashes st.world) payload)) :=
          hworld.record fun e' p heq => nomatch heq
        exact hrecord.storePayload huses (List.mem_append_right _ (List.mem_singleton.mpr rfl)) _

theorem Backed.runPipeline (huses : options.Uses serialize deserialize)
    (hcodec : Lossless serialize deserialize) (p : Pipeline) {st : Store ω π}
    (h : Backed serialize st) :
    Backed serialize (runPipeline p d options putSucceeds st).2 := by
  unfold Pipeline.runPipeline
  cases p.validate with
  | error errors => exact h
  | ok order =>
    exact runStages_keep (P := fun _ st => Backed serialize st)
      (fun _ _ _ _ hst => hst.runStage huses hcodec) h

end

/-! ## Sessions of the registry dispatcher -/

section

variable (M G F : Type)

structure RegistryRun where
  pipeline : Pipeline
  registry : PluginRegistry M G F
  baseDir : String
  options : RunOptions Files (StageOutput M G F)
  uses : options.Uses serializeStageOutput deserializeStageOutput
  putSucceeds : ContentHash → Bool

inductive SessionAction
  | run (r : RegistryRun M G F)
  | edit (change : Files → Files)
  | restart

end

variable {M G F : Type}

abbrev SessionStore (M G F : Type) : Type := Store Files (StageOutput M G F)

def RegistryRun.dispatcher (r : RegistryRun M G F) : Dispatcher Files (StageOutput M G F) :=
  registryDispatcher r.registry r.baseDir

def RegistryRun.perform (r : RegistryRun M G F) (st : SessionStore M G F) :
    RunResult (StageOutput M G F) × SessionStore M G F :=
  runPipeline r.pipeline r.dispatcher r.options r.putSucceeds st

def sessionStep (st : SessionStore M G F) : SessionAction M G F → SessionStore M G F
  | .run r => (r.perform st).2
  | .edit change => { st with world := change st.world }
  | .restart => { st with cache := {} }

/-- A session starts with empty caches. -/
def sessionStart (files : Files) : SessionStore M G F := { world := files }

/-- A path comes back from disk as it was written. -/
theorem lossless_stageOutput :
    Lossless (serializeStageOutput (M := M) (G := G) (F := F)) deserializeStageOutput := by
  intro p blob files q hser hdes
  cases p with
  | path path =>
    obtain rfl := Option.some.inj hser
    unfold deserializeStageOutput at hdes
    split_ifs at hdes with hshort hkind
    have hdrop : ∀ k : UInt8, (k :: (u64Bytes (UInt64.ofNat path.utf8ByteSize) ++ bytesOf path)).drop 9
        = bytesOf path := fun _ => rfl
    dsimp only at hdes
    split_ifs at hdes with hlen
    rw [hdrop, fromUTF8?_bytesOf] at hdes
    dsimp only at hdes
    split_ifs at hdes
    exact (Option.some.inj hdes).symm
  | none | mesh | geometry | field => exact nomatch hser

theorem Backed.sessionStep {st : SessionStore M G F} (h : Backed serializeStageOutput st)
    (action : SessionAction M G F) : Backed serializeStageOutput (sessionStep st action) := by
  cases action with
  | run r => exact h.runPipeline r.uses lossless_stageOutput r.pipeline
  | edit change => exact ⟨h.memory, h.disk, h.served⟩
  | restart => exact ⟨fun k p hget => (nomatch (Cache.get_empty k).symm.trans hget), h.disk, h.served⟩

theorem session_backed (files : Files) (actions : List (SessionAction M G F)) :
    Backed serializeStageOutput (run sessionStep (sessionStart files) actions) := by
  suffices h : ∀ st : SessionStore M G F, Backed serializeStageOutput st →
      Backed serializeStageOutput (run sessionStep st actions) from
    h _ ⟨fun k p hget => (nomatch (Cache.get_empty k).symm.trans hget),
      fun k blob hget => (nomatch (DiskCache.getBytes_empty k).symm.trans hget),
      fun before e p after heq => absurd heq.symm (List.append_ne_nil_of_right_ne_nil _
        (List.cons_ne_nil _ _))⟩
  induction actions with
  | nil => exact fun st h => h
  | cons action actions ih => exact fun st h => ih _ (h.sessionStep action)

end Souxmar.Pipeline
