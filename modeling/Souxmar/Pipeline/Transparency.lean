import Souxmar.Pipeline.PureDispatch

/-!
# Writers served from the cache

A hit on a writer stage stands for a file, and nothing looks whether the file still is the one that the stage wrote. The
run with the cache leaves the files of the run without it as long as a writer that is served was the last one to
write its path (`served_writers_transparent`).

`Ledger` is what holds between the stages of a session: an evaluation that was executed can be dispatched again from
outputs that the log accounts for, evaluations with one key have one output, and a path that was written has what the
last writer puts there.
-/

namespace Souxmar.Pipeline

open Souxmar.Lib

variable {M G F : Type}

/-! ## What is written, and by whom -/

/-- A writer that was executed for the path. -/
def writerOf (path : String) : StageEvent (StageOutput M G F) → Option Evaluation
  | .executed e _ => if startsWith "writer." e.capability ∧ pathInput e.input = some path then some e else none
  | _ => none

/-- The writer that was executed last for the path. -/
def lastWriter (path : String) (log : List (StageEvent (StageOutput M G F))) : Option Evaluation :=
  (log.filterMap (writerOf path)).getLast?

theorem lastWriter_snoc (path : String) (log : List (StageEvent (StageOutput M G F)))
    (event : StageEvent (StageOutput M G F)) :
    lastWriter path (log ++ [event]) = (writerOf path event).or (lastWriter path log) := by
  unfold lastWriter
  rw [List.filterMap_append, List.getLast?_append]
  cases hevent : writerOf path event with
  | none => simp [hevent]
  | some e => simp [hevent]

/-- The run with `use_cache` off. -/
def RegistryRun.uncached (run : RegistryRun M G F) : RegistryRun M G F :=
  { run with
    options := { run.options with useCache := false }
    uses := ⟨run.uses.writer, run.uses.reader⟩ }

/-- The run leaves the files, and hands back the outputs, that it would without the cache. -/
structure Transparent (st : SessionStore M G F) (run : RegistryRun M G F) : Prop where
  files : (run.perform st).2.world = (run.uncached.perform st).2.world
  outputs : (run.perform st).1.outputs = (run.uncached.perform st).1.outputs

/-! ## What the stages of a run meet -/

/-- The state in which the run reaches the stage behind `before`. -/
def RegistryRun.upTo (run : RegistryRun M G F) (before : List ℕ) (st : SessionStore M G F) :
    Loop (StageOutput M G F) × SessionStore M G F :=
  runStages run.dispatcher run.options run.putSucceeds (run.pipeline.inOrder before) {} st

/-- The evaluation of a stage there. -/
def RegistryRun.evaluationAt (run : RegistryRun M G F) (before : List ℕ) (stage : Stage) (st : SessionStore M G F) :
    Evaluation :=
  evaluation run.dispatcher stage (run.upTo before st).1.upstreamHashes (run.upTo before st).2.world

/-- What its dispatch comes to there. -/
def RegistryRun.dispatchAt (run : RegistryRun M G F) (before : List ℕ) (stage : Stage) (st : SessionStore M G F) :
    Dispatched M G F :=
  dispatch run.registry stage.plugin stage.input (run.upTo before st).1.outputs (run.upTo before st).2.world run.baseDir

/-- `C` holds of every stage of the run and of the stages before it. -/
def RegistryRun.Stagewise (run : RegistryRun M G F) (C : List ℕ → Stage → Prop) : Prop :=
  ∀ order before i after stage, run.pipeline.validate = .ok order → order = before ++ i :: after →
    run.pipeline.stages[i]? = some stage → C before stage

/-- What is hashed for a stage fits in 64-bit sizes and belongs to `D`. -/
structure Hashed (D : Set (List UInt8)) (e : Evaluation) (files : Files) (baseDir : String) : Prop where
  fits : e.Fits
  stream : e.stream ∈ D
  digested : ∀ path, pathInput e.input = some path → ∀ data, files (resolveReaderPath baseDir path) = some data →
    startsWith "reader." e.capability = true → data ∈ D

/-- A successful run with the plugins of `r`. -/
structure Hosted (r : PluginRegistry M G F) (D : Set (List UInt8)) (st : SessionStore M G F)
    (run : RegistryRun M G F) : Prop where
  registry : run.registry = r
  success : (run.perform st).1.status = .success
  hashed : run.Stagewise fun before stage =>
    Hashed D (run.evaluationAt before stage st) (run.upTo before st).2.world run.baseDir

/-- The capability is registered, and a writer that is found in a cache has the key of the one that was executed last
for its path. -/
structure CurrentStage (run : RegistryRun M G F) (st : SessionStore M G F) (before : List ℕ) (stage : Stage) :
    Prop where
  registered : (run.registry.find stage.plugin).isSome = true
  last : startsWith "writer." stage.plugin = true → ∀ path, pathInput stage.input = some path →
    (lookupCache run.options (run.evaluationAt before stage st).key (run.upTo before st).2).1.isSome = true →
      ∃ w, lastWriter path (run.upTo before st).2.log = some w ∧ w.key = (run.evaluationAt before stage st).key

/-! ## Evaluations that the log accounts for -/

section

variable (r : PluginRegistry M G F) (D : Set (List UInt8)) (log : List (StageEvent (StageOutput M G F)))

/-- The outputs that an evaluation refers to were executed under the hashes that it refers to. -/
def Accounted (e : Evaluation) (upstream : Outputs (StageOutput M G F)) : Prop :=
  ∀ id ∈ collectStageRefs e.input, ∃ e' q, e.upstream.lookup id = some e'.key ∧
    upstream.lookup id = some (some q) ∧ .executed e' (some q) ∈ log

/-- The evaluation of a stage of a registered capability, with the outputs and the files that it is made from. -/
structure Grounded (e : Evaluation) (upstream : Outputs (StageOutput M G F)) (files : Files) (baseDir : String) :
    Prop where
  registered : (r.find e.capability).isSome = true
  version : e.version = pluginVersion r e.capability
  extra : e.extra = cacheKeyExtra e.capability e.input files baseDir
  hashed : Hashed D e files baseDir
  accounted : Accounted log e upstream

/-- Executed evaluations with one key had one output. -/
def OneOutput : Prop :=
  ∀ e p e' p', .executed e (some p) ∈ log → .executed e' (some p') ∈ log → e.key = e'.key → p = p'

end

section

variable {r : PluginRegistry M G F} {content : String → M → Option F → Value → List UInt8} {D : Set (List UInt8)}
  {log log' : List (StageEvent (StageOutput M G F))} {e e' : Evaluation}
  {upstream upstream' : Outputs (StageOutput M G F)} {files files' : Files} {baseDir baseDir' : String}

theorem Grounded.mono (h : Grounded r D log e upstream files baseDir) (hlog : log ⊆ log') :
    Grounded r D log' e upstream files baseDir where
  registered := h.registered
  version := h.version
  extra := h.extra
  hashed := h.hashed
  accounted id hid := by
    obtain ⟨e', q, hkey, hq, hmem⟩ := h.accounted id hid
    exact ⟨e', q, hkey, hq, hlog hmem⟩

theorem Grounded.evaluated (h : Grounded r D log e upstream files baseDir) : e.Evaluated r baseDir where
  version := h.version
  extra := ⟨files, h.extra⟩
  resolved id hid := by
    obtain ⟨e', q, hkey, -⟩ := h.accounted id hid
    exact ⟨e'.key, hkey⟩

theorem Grounded.version_ne (h : Grounded r D log e upstream files baseDir) : e.version ≠ "" := by
  obtain ⟨entry, hentry⟩ := Option.isSome_iff_exists.mp h.registered
  rw [h.version, pluginVersion, hentry]
  intro hempty
  have hlist := congrArg String.toList hempty
  rw [String.toList_append] at hlist
  cases hlist

theorem Grounded.agree (hr : Hermetic r content) (hD : Set.InjOn sha256 D) (hone : OneOutput log)
    (h : Grounded r D log e upstream files baseDir) (h' : Grounded r D log e' upstream' files' baseDir')
    (hkey : e.key = e'.key) : e.capability = e'.capability ∧ e.input = e'.input ∧
      (∀ id ∈ collectStageRefs e.input, upstream.lookup id = upstream'.lookup id) ∧
      (dispatch r e.capability e.input upstream files baseDir).1 =
        (dispatch r e'.capability e'.input upstream' files' baseDir').1 := by
  have hsame : e.Identical e' := by
    rcases h.evaluated.key_inj h'.evaluated h.hashed.fits h'.hashed.fits (hD h.hashed.stream h'.hashed.stream) hkey with
      hsame | hshadow | hshadow
    · exact hsame
    · exact absurd hshadow.unregistered h'.version_ne
    · exact absurd hshadow.unregistered h.version_ne
  have hupstream : ∀ id ∈ collectStageRefs e.input, upstream.lookup id = upstream'.lookup id := by
    intro id hid
    obtain ⟨e₁, q₁, hkey₁, hq₁, hmem₁⟩ := h.accounted id hid
    obtain ⟨e₂, q₂, hkey₂, hq₂, hmem₂⟩ := h'.accounted id (hsame.input ▸ hid)
    have hkeys := hsame.upstream id hid
    rw [hkey₁, hkey₂] at hkeys
    rw [hq₁, hq₂, hone e₁ q₁ e₂ q₂ hmem₁ hmem₂ (Option.some.inj hkeys)]
  refine ⟨hsame.capability, hsame.input, hupstream, ?_⟩
  rw [← hsame.capability, ← hsame.input]
  refine hr.dispatch_congr hupstream fun hreader path hpath => ?_
  have hextra : cacheKeyExtra e.capability e.input files baseDir =
      cacheKeyExtra e.capability e.input files' baseDir' := by
    have hextra' := h'.extra
    rw [← hsame.capability, ← hsame.input, ← hsame.extra, h.extra] at hextra'
    exact hextra'
  refine file_of_cacheKeyExtra hD hreader hpath (fun data hdata => h.hashed.digested path hpath data hdata hreader)
    (fun data hdata => ?_) hextra
  exact h'.hashed.digested path (hsame.input ▸ hpath) data hdata (hsame.capability ▸ hreader)

end

/-! ## Between the stages of a session -/

/-- What holds between the stages of a session. -/
structure Ledger (r : PluginRegistry M G F) (content : String → M → Option F → Value → List UInt8)
    (D : Set (List UInt8)) (st : SessionStore M G F) : Prop where
  grounded : ∀ e p, .executed e (some p) ∈ st.log → ∃ upstream files baseDir,
    Grounded r D st.log e upstream files baseDir ∧
      (dispatch r e.capability e.input upstream files baseDir).1 = .ok p
  oneOutput : OneOutput st.log
  held : ∀ path w, lastWriter path st.log = some w → ∃ upstream files baseDir data,
    Grounded r D st.log w upstream files baseDir ∧
      writtenData content w.capability w.input upstream = some data ∧ st.world path = some data

/-- A run has a hash and an output for the same stages, and they are those of one execution. -/
def Supplied (loop : Loop (StageOutput M G F)) (log : List (StageEvent (StageOutput M G F))) : Prop :=
  ∀ id, (loop.upstreamHashes.lookup id = none ∧ loop.outputs.lookup id = none) ∨
    ∃ e q, loop.upstreamHashes.lookup id = some e.key ∧ loop.outputs.lookup id = some (some q) ∧
      .executed e (some q) ∈ log

section

variable {r : PluginRegistry M G F} {content : String → M → Option F → Value → List UInt8} {D : Set (List UInt8)}
  {st st' : SessionStore M G F} {e : Evaluation} {p : StageOutput M G F}

theorem Ledger.served (h : Ledger r content D st) (hlog : st'.log = st.log ++ [.served e p])
    (hworld : st'.world = st.world) : Ledger r content D st' := by
  have hsub : st.log ⊆ st'.log := by
    rw [hlog]
    exact List.subset_append_left _ _
  have hold : ∀ e' p', .executed e' (some p') ∈ st'.log → .executed e' (some p') ∈ st.log := by
    intro e' p' hmem
    rw [hlog, List.mem_append, List.mem_singleton] at hmem
    exact hmem.resolve_right fun heq => nomatch heq
  refine ⟨fun e' p' hmem => ?_, fun e₁ p₁ e₂ p₂ h₁ h₂ => ?_, fun path w hw => ?_⟩
  · obtain ⟨upstream, files, baseDir, hground, hout⟩ := h.grounded e' p' (hold e' p' hmem)
    exact ⟨upstream, files, baseDir, hground.mono hsub, hout⟩
  · exact h.oneOutput e₁ p₁ e₂ p₂ (hold e₁ p₁ h₁) (hold e₂ p₂ h₂)
  · rw [hlog, lastWriter_snoc] at hw
    obtain ⟨upstream, files, baseDir, data, hground, hdata, hfile⟩ := h.held path w hw
    exact ⟨upstream, files, baseDir, data, hground.mono hsub, hdata, hworld ▸ hfile⟩

theorem Ledger.executed (hr : Hermetic r content) (hD : Set.InjOn sha256 D) (h : Ledger r content D st)
    {upstream : Outputs (StageOutput M G F)} {baseDir : String}
    (hground : Grounded r D st.log e upstream st.world baseDir)
    (hout : (dispatch r e.capability e.input upstream st.world baseDir).1 = .ok p)
    (hlog : st'.log = st.log ++ [.executed e (some p)])
    (hworld : st'.world = (dispatch r e.capability e.input upstream st.world baseDir).2) :
    Ledger r content D st' := by
  have hsub : st.log ⊆ st'.log := by
    rw [hlog]
    exact List.subset_append_left _ _
  have hcases : ∀ e' p', .executed e' (some p') ∈ st'.log →
      .executed e' (some p') ∈ st.log ∨ (e' = e ∧ p' = p) := by
    intro e' p' hmem
    rw [hlog, List.mem_append, List.mem_singleton] at hmem
    refine hmem.imp_right fun heq => ?_
    cases heq
    exact ⟨rfl, rfl⟩
  -- an evaluation of before with the key of the new one has its output
  have hnew : ∀ e' p', .executed e' (some p') ∈ st.log → e'.key = e.key → p' = p := by
    intro e' p' hmem hkey
    obtain ⟨upstream', files', baseDir', hground', hout'⟩ := h.grounded e' p' hmem
    have hagree := (hground'.agree hr hD h.oneOutput hground hkey).2.2.2
    rw [hout, hout'] at hagree
    exact Except.ok.inj hagree
  refine ⟨fun e' p' hmem => ?_, fun e₁ p₁ e₂ p₂ h₁ h₂ hkey => ?_, fun path w hw => ?_⟩
  · rcases hcases e' p' hmem with hmem | ⟨rfl, rfl⟩
    · obtain ⟨upstream', files', baseDir', hground', hout'⟩ := h.grounded e' p' hmem
      exact ⟨upstream', files', baseDir', hground'.mono hsub, hout'⟩
    · exact ⟨upstream, st.world, baseDir, hground.mono hsub, hout⟩
  · rcases hcases e₁ p₁ h₁ with h₁ | ⟨rfl, rfl⟩
    · rcases hcases e₂ p₂ h₂ with h₂ | ⟨rfl, rfl⟩
      · exact h.oneOutput e₁ p₁ e₂ p₂ h₁ h₂ hkey
      · exact hnew e₁ p₁ h₁ hkey
    · rcases hcases e₂ p₂ h₂ with h₂ | ⟨rfl, rfl⟩
      · exact (hnew e₂ p₂ h₂ hkey.symm).symm
      · rfl
  · rw [hlog, lastWriter_snoc] at hw
    by_cases hwriter : startsWith "writer." e.capability = true ∧ pathInput e.input = some path
    · have hthis : writerOf path (.executed e (some p)) = some e := if_pos hwriter
      rw [hthis] at hw
      obtain rfl := Option.some.inj hw
      rw [dispatch_writer hwriter.1] at hout hworld
      obtain ⟨data, hdata, hfiles⟩ := hr.dispatchWriter_files st.world hout
      refine ⟨upstream, st.world, baseDir, data, hground.mono hsub, hdata, ?_⟩
      rw [hworld, hfiles, hwriter.2]
      exact Files.write_self path data st.world
    · have hother : writerOf path (.executed e (some p)) = none := if_neg hwriter
      rw [hother] at hw
      obtain ⟨upstream', files', baseDir', data, hground', hdata, hfile⟩ := h.held path w hw
      refine ⟨upstream', files', baseDir', data, hground'.mono hsub, hdata, ?_⟩
      rw [hworld, ← hfile]
      cases hw' : startsWith "writer." e.capability with
      | false => rw [hr.dispatch_files hw']
      | true =>
        rw [dispatch_writer hw'] at hout ⊢
        obtain ⟨data', -, hfiles⟩ := hr.dispatchWriter_files st.world hout
        rw [hfiles]
        exact if_neg fun hpath => hwriter ⟨hw', hpath⟩

theorem Supplied.settle {loop loop' : Loop (StageOutput M G F)} {log log' : List (StageEvent (StageOutput M G F))}
    (h : Supplied loop log) (hlog : log ⊆ log') {id : String} (hmem : .executed e (some p) ∈ log')
    (hhashes : loop'.upstreamHashes = loop.upstreamHashes ++ [(id, e.key)])
    (houtputs : loop'.outputs = loop.outputs.emplace id (some p)) : Supplied loop' log' := by
  intro id'
  rw [hhashes, houtputs, List.lookup_append, Dict.lookup_emplace]
  rcases h id' with ⟨hnone, hnone'⟩ | ⟨e', q, hkey, hq, hmem'⟩
  · by_cases hid : id' = id
    · subst hid
      exact .inr ⟨e, p, by simp [hnone], by simp [hnone'], hmem⟩
    · have hne : (id' == id) = false := beq_eq_false_iff_ne.mpr hid
      exact .inl ⟨by simp [hnone, List.lookup_cons, hne], by rw [if_neg hid]; exact hnone'⟩
  · refine .inr ⟨e', q, by rw [hkey]; rfl, ?_, hlog hmem'⟩
    split_ifs with hid
    · rw [← hid, hq]
      rfl
    · exact hq

end

/-! ## The run with the cache and the run without it -/

theorem lookupCache_off {ω π : Type} {options : RunOptions ω π} (h : options.useCache = false) (key : ContentHash)
    (st : Store ω π) : lookupCache options key st = (none, st) := by
  unfold lookupCache
  rw [h]
  rfl

theorem storePayload_off {ω π : Type} {options : RunOptions ω π} (h : options.useCache = false) (succeeds : Bool)
    (key : ContentHash) (payload : Option π) (st : Store ω π) : storePayload options succeeds key payload st = st := by
  unfold storePayload
  rw [h]
  cases payload <;> rfl

theorem storePayload_world {ω π : Type} (options : RunOptions ω π) (succeeds : Bool) (key : ContentHash)
    (payload : Option π) (st : Store ω π) : (storePayload options succeeds key payload st).world = st.world := by
  unfold storePayload
  cases payload with
  | none => rfl
  | some p =>
    dsimp only
    split_ifs
    · rfl
    · split <;> rfl

theorem runStage_unfailing {ω π : Type} {d : Dispatcher ω π} {options : RunOptions ω π}
    {putSucceeds : ContentHash → Bool} {stage : Stage} {loop : Loop π} {st : Store ω π}
    (h : (runStage d options putSucceeds stage loop st).1.encounteredFailure = false) :
    loop.encounteredFailure = false := by
  cases hskip : (loop.encounteredFailure && options.stopOnFirstFailure) with
  | true =>
    rw [runStage_skipped hskip] at h
    exact h
  | false =>
    rcases hlook : lookupCache options (evaluation d stage loop.upstreamHashes st.world).key st with ⟨found, st'⟩
    cases found with
    | some cached =>
      rw [runStage_served hskip rfl hlook] at h
      exact h
    | none =>
      have hmiss : (lookupCache options (evaluation d stage loop.upstreamHashes st.world).key st).1 = none := by
        rw [hlook]
      rcases hd : d.dispatch stage.plugin stage.input loop.outputs st.world with ⟨dr, world⟩
      cases dr with
      | error err =>
        rw [runStage_failed hskip rfl hmiss hd] at h
        cases h
      | ok payload =>
        rw [runStage_executed hskip rfl hmiss hd] at h
        exact h

theorem runStages_snoc {ω π : Type} (d : Dispatcher ω π) (options : RunOptions ω π) (putSucceeds : ContentHash → Bool)
    (stages : List Stage) (stage : Stage) (loop : Loop π) (st : Store ω π) :
    runStages d options putSucceeds (stages ++ [stage]) loop st =
      runStage d options putSucceeds stage (runStages d options putSucceeds stages loop st).1
        (runStages d options putSucceeds stages loop st).2 := by
  induction stages generalizing loop st with
  | nil => rfl
  | cons s stages ih => exact ih _ _

theorem RegistryRun.upTo_snoc (run : RegistryRun M G F) (before : List ℕ) {i : ℕ} {stage : Stage}
    (hstage : run.pipeline.stages[i]? = some stage) (st : SessionStore M G F) : run.upTo (before ++ [i]) st =
      runStage run.dispatcher run.options run.putSucceeds stage (run.upTo before st).1 (run.upTo before st).2 := by
  have hsplit : run.pipeline.inOrder (before ++ [i]) = run.pipeline.inOrder before ++ [stage] := by
    rw [Pipeline.inOrder, List.filterMap_append, List.filterMap_cons, hstage]
    rfl
  rw [upTo, hsplit, runStages_snoc]
  rfl

/-- Both runs are behind the same stages without a failure, with the same hashes, outputs and files. -/
structure Mirrors (r : PluginRegistry M G F) (content : String → M → Option F → Value → List UInt8)
    (D : Set (List UInt8)) (run : RegistryRun M G F) (before : List ℕ) (st : SessionStore M G F) : Prop where
  known : HashesKnown run.pipeline run.options before (run.upTo before st).1
  backed : Backed serializeStageOutput (run.upTo before st).2
  ledger : Ledger r content D (run.upTo before st).2
  carried : Supplied (run.upTo before st).1 (run.upTo before st).2.log
  hashes : (run.uncached.upTo before st).1.upstreamHashes = (run.upTo before st).1.upstreamHashes
  outputs : (run.uncached.upTo before st).1.outputs = (run.upTo before st).1.outputs
  unfailing : (run.uncached.upTo before st).1.encounteredFailure = false
  files : (run.uncached.upTo before st).2.world = (run.upTo before st).2.world

section

variable {r : PluginRegistry M G F} {content : String → M → Option F → Value → List UInt8} {D : Set (List UInt8)}
  {run : RegistryRun M G F} {st : SessionStore M G F} {order before after : List ℕ} {i : ℕ} {stage : Stage}

theorem Mirrors.grounded (hregistry : run.registry = r) (hp : run.pipeline.Ordered order)
    (horder : order = before ++ i :: after) (hstage : run.pipeline.stages[i]? = some stage)
    (h : Mirrors r content D run before st) (hflag : (run.upTo before st).1.encounteredFailure = false)
    (hhashed : Hashed D (run.evaluationAt before stage st) (run.upTo before st).2.world run.baseDir)
    (hregistered : (run.registry.find stage.plugin).isSome = true) :
    Grounded r D (run.upTo before st).2.log (run.evaluationAt before stage st)
      (run.upTo before st).1.outputs (run.upTo before st).2.world run.baseDir := by
  subst hregistry
  refine ⟨hregistered, rfl, rfl, hhashed, fun id hid => ?_⟩
  obtain ⟨j, hj, -, t, ht, rfl⟩ := hp.ref_before horder hstage hid
  obtain ⟨ch, hch⟩ := h.known (by rw [hflag]; rfl) j hj t ht
  rcases h.carried t.id with ⟨hnone, -⟩ | hfound
  · rw [hch] at hnone
    cases hnone
  · exact hfound

theorem Mirrors.uncached_step (h : Mirrors r content D run before st)
    (hstage : run.pipeline.stages[i]? = some stage) {p : StageOutput M G F}
    (hout : (run.dispatchAt before stage st).1 = .ok p) :
    (run.uncached.upTo (before ++ [i]) st).1.upstreamHashes = (run.upTo before st).1.upstreamHashes ++
        [(stage.id, (run.evaluationAt before stage st).key)] ∧
      (run.uncached.upTo (before ++ [i]) st).1.outputs = (run.upTo before st).1.outputs.emplace stage.id (some p) ∧
      (run.uncached.upTo (before ++ [i]) st).1.encounteredFailure = false ∧
      (run.uncached.upTo (before ++ [i]) st).2.world = (run.dispatchAt before stage st).2 := by
  have hskip : ((run.uncached.upTo before st).1.encounteredFailure &&
      run.uncached.options.stopOnFirstFailure) = false := by
    rw [h.unfailing]
    rfl
  have hoff : run.uncached.options.useCache = false := rfl
  have he : evaluation run.uncached.dispatcher stage (run.uncached.upTo before st).1.upstreamHashes
      (run.uncached.upTo before st).2.world = run.evaluationAt before stage st := by
    rw [h.hashes, h.files]
    rfl
  have hd : run.uncached.dispatcher.dispatch stage.plugin stage.input (run.uncached.upTo before st).1.outputs
      (run.uncached.upTo before st).2.world = (.ok (some p), (run.dispatchAt before stage st).2) := by
    rw [h.outputs, h.files]
    refine Prod.ext ?_ rfl
    exact congrArg (Except.map some) hout
  rw [run.uncached.upTo_snoc before hstage, runStage_executed hskip he (by rw [lookupCache_off hoff]) hd,
    storePayload_off hoff, h.hashes, h.outputs]
  exact ⟨rfl, rfl, h.unfailing, rfl⟩

theorem Mirrors.served_files (hr : Hermetic r content) (hD : Set.InjOn sha256 D) (hregistry : run.registry = r)
    (h : Mirrors r content D run before st)
    (hground : Grounded r D (run.upTo before st).2.log (run.evaluationAt before stage st)
      (run.upTo before st).1.outputs (run.upTo before st).2.world run.baseDir)
    (hcurrent : CurrentStage run st before stage)
    (hhit : (lookupCache run.options (run.evaluationAt before stage st).key (run.upTo before st).2).1.isSome = true)
    {p : StageOutput M G F} (hout : (run.dispatchAt before stage st).1 = .ok p) :
    (run.dispatchAt before stage st).2 = (run.upTo before st).2.world := by
  subst hregistry
  unfold RegistryRun.dispatchAt at hout ⊢
  cases hwriter : startsWith "writer." stage.plugin with
  | false => exact hr.dispatch_files hwriter
  | true =>
    rw [dispatch_writer hwriter] at hout ⊢
    obtain ⟨data, hdata, hfiles⟩ := hr.dispatchWriter_files (run.upTo before st).2.world hout
    rw [hfiles]
    cases hpath : pathInput stage.input with
    | none => rfl
    | some path =>
      -- the file is that of the last writer, which had the same outputs upstream
      obtain ⟨w, hw, hkey⟩ := hcurrent.last hwriter path hpath hhit
      obtain ⟨upstream', files', baseDir', data', hground', hdata', hfile⟩ := h.ledger.held path w hw
      obtain ⟨hcapability, hinput, hupstream, -⟩ := hground'.agree hr hD h.ledger.oneOutput hground hkey
      have hsame : some data' = some data := by
        rw [← hdata', ← hdata, writtenData_congr content w.capability hupstream, hcapability, hinput]
        rfl
      rw [Option.some.inj hsame] at hfile
      exact Files.write_same hfile

theorem Mirrors.next (h : Mirrors r content D run before st) (hstage : run.pipeline.stages[i]? = some stage)
    {p : StageOutput M G F} {e' : Evaluation} (hout : (run.dispatchAt before stage st).1 = .ok p)
    (hledger : Ledger r content D (run.upTo (before ++ [i]) st).2)
    (hlog : (run.upTo before st).2.log ⊆ (run.upTo (before ++ [i]) st).2.log)
    (hmem : .executed e' (some p) ∈ (run.upTo (before ++ [i]) st).2.log)
    (hhashes : (run.upTo (before ++ [i]) st).1.upstreamHashes =
      (run.upTo before st).1.upstreamHashes ++ [(stage.id, e'.key)])
    (hkey : e'.key = (run.evaluationAt before stage st).key)
    (houtputs : (run.upTo (before ++ [i]) st).1.outputs = (run.upTo before st).1.outputs.emplace stage.id (some p))
    (hworld : (run.upTo (before ++ [i]) st).2.world = (run.dispatchAt before stage st).2) :
    Mirrors r content D run (before ++ [i]) st := by
  have hsnoc := run.upTo_snoc before hstage st
  obtain ⟨hhashes', houtputs', hunfailing, hfiles⟩ := h.uncached_step hstage hout
  refine ⟨?_, ?_, hledger, h.carried.settle hlog hmem hhashes houtputs, ?_, houtputs'.trans houtputs.symm, hunfailing,
    hfiles.trans hworld.symm⟩
  · rw [hsnoc]
    exact h.known.runStage hstage
  · rw [hsnoc]
    exact h.backed.runStage run.uses lossless_stageOutput
  · rw [hhashes', hhashes, hkey]

theorem Mirrors.serves {p : StageOutput M G F} {st' : SessionStore M G F} (hr : Hermetic r content)
    (hD : Set.InjOn sha256 D) (hregistry : run.registry = r)
    (hstage : run.pipeline.stages[i]? = some stage) (h : Mirrors r content D run before st)
    (hground : Grounded r D (run.upTo before st).2.log (run.evaluationAt before stage st)
      (run.upTo before st).1.outputs (run.upTo before st).2.world run.baseDir)
    (hcurrent : CurrentStage run st before stage)
    (hskip : ((run.upTo before st).1.encounteredFailure && run.options.stopOnFirstFailure) = false)
    (hlook : lookupCache run.options (run.evaluationAt before stage st).key (run.upTo before st).2 = (some p, st')) :
    Mirrors r content D run (before ++ [i]) st := by
  have hsnoc := run.upTo_snoc before hstage st
  obtain ⟨-, hlog, e', he', hkey⟩ := h.backed.lookup run.uses lossless_stageOutput hlook
  have hworld : st'.world = (run.upTo before st).2.world := by
    rcases lookupCache_some hlook with ⟨-, rfl⟩ | ⟨_, _, -, -, -, -, rfl⟩ <;> rfl
  -- what is served is what the dispatch would give
  have hout : (run.dispatchAt before stage st).1 = .ok p := by
    obtain ⟨upstream', files', baseDir', hground', hout'⟩ := h.ledger.grounded e' p he'
    rw [← hout', (hground'.agree hr hD h.ledger.oneOutput hground hkey).2.2.2, ← hregistry]
    rfl
  have hfiles := h.served_files hr hD hregistry hground hcurrent (by rw [hlook]; rfl) hout
  rw [runStage_served hskip rfl hlook] at hsnoc
  have hlog' : (run.upTo (before ++ [i]) st).2.log =
      (run.upTo before st).2.log ++ [.served (run.evaluationAt before stage st) p] := by
    rw [hsnoc, ← hlog]
    rfl
  have hsub : (run.upTo before st).2.log ⊆ (run.upTo (before ++ [i]) st).2.log := by
    rw [hlog']
    exact List.subset_append_left _ _
  have hworld' : (run.upTo (before ++ [i]) st).2.world = (run.upTo before st).2.world := by
    rw [hsnoc, ← hworld]
    rfl
  refine h.next hstage hout (h.ledger.served hlog' hworld') hsub (hsub he') ?_ hkey ?_ (hworld'.trans hfiles.symm)
  · rw [hsnoc, hkey]
    rfl
  · rw [hsnoc]

theorem Mirrors.executes {p : StageOutput M G F} (hr : Hermetic r content)
    (hD : Set.InjOn sha256 D) (hregistry : run.registry = r)
    (hstage : run.pipeline.stages[i]? = some stage) (h : Mirrors r content D run before st)
    (hground : Grounded r D (run.upTo before st).2.log (run.evaluationAt before stage st)
      (run.upTo before st).1.outputs (run.upTo before st).2.world run.baseDir)
    (hskip : ((run.upTo before st).1.encounteredFailure && run.options.stopOnFirstFailure) = false)
    (hmiss : (lookupCache run.options (run.evaluationAt before stage st).key (run.upTo before st).2).1 = none)
    (hout : (run.dispatchAt before stage st).1 = .ok p) : Mirrors r content D run (before ++ [i]) st := by
  have hsnoc := run.upTo_snoc before hstage st
  have hd : run.dispatcher.dispatch stage.plugin stage.input (run.upTo before st).1.outputs
      (run.upTo before st).2.world = (.ok (some p), (run.dispatchAt before stage st).2) :=
    Prod.ext (congrArg (Except.map some) hout) rfl
  rw [runStage_executed hskip rfl hmiss hd] at hsnoc
  have hlog' : (run.upTo (before ++ [i]) st).2.log =
      (run.upTo before st).2.log ++ [.executed (run.evaluationAt before stage st) (some p)] := by
    rw [hsnoc, Store.record, storePayload_log]
    rfl
  have hworld' : (run.upTo (before ++ [i]) st).2.world = (run.dispatchAt before stage st).2 := by
    rw [hsnoc]
    exact storePayload_world _ _ _ _ _
  have hout' : (dispatch r stage.plugin stage.input (run.upTo before st).1.outputs (run.upTo before st).2.world
      run.baseDir).1 = .ok p := by
    rw [← hregistry]
    exact hout
  have hworld'' : (run.upTo (before ++ [i]) st).2.world = (dispatch r stage.plugin stage.input
      (run.upTo before st).1.outputs (run.upTo before st).2.world run.baseDir).2 := by
    rw [hworld', ← hregistry]
    rfl
  have hmem : .executed (run.evaluationAt before stage st) (some p) ∈ (run.upTo (before ++ [i]) st).2.log := by
    rw [hlog']
    exact List.mem_append_right _ (List.mem_singleton.mpr rfl)
  refine h.next hstage hout (h.ledger.executed hr hD hground hout' hlog' hworld'') ?_ hmem ?_ rfl ?_ hworld'
  · rw [hlog']
    exact List.subset_append_left _ _
  · rw [hsnoc]
    rfl
  · rw [hsnoc]

theorem Mirrors.step (hr : Hermetic r content) (hD : Set.InjOn sha256 D) (hregistry : run.registry = r)
    (hp : run.pipeline.Ordered order) (horder : order = before ++ i :: after)
    (hstage : run.pipeline.stages[i]? = some stage) (h : Mirrors r content D run before st)
    (hflag : (run.upTo before st).1.encounteredFailure = false)
    (hhashed : Hashed D (run.evaluationAt before stage st) (run.upTo before st).2.world run.baseDir)
    (hcurrent : CurrentStage run st before stage)
    (hafter : (run.upTo (before ++ [i]) st).1.encounteredFailure = false) :
    Mirrors r content D run (before ++ [i]) st := by
  have hground := h.grounded hregistry hp horder hstage hflag hhashed hcurrent.registered
  have hskip : ((run.upTo before st).1.encounteredFailure && run.options.stopOnFirstFailure) = false := by
    rw [hflag]
    rfl
  rcases hlook : lookupCache run.options (run.evaluationAt before stage st).key (run.upTo before st).2 with ⟨found, st'⟩
  cases found with
  | some p => exact h.serves hr hD hregistry hstage hground hcurrent hskip hlook
  | none =>
    have hmiss : (lookupCache run.options (run.evaluationAt before stage st).key (run.upTo before st).2).1 = none := by
      rw [hlook]
    cases hout : (run.dispatchAt before stage st).1 with
    | error err =>
      have hd : run.dispatcher.dispatch stage.plugin stage.input (run.upTo before st).1.outputs
          (run.upTo before st).2.world = (.error err, (run.dispatchAt before stage st).2) :=
        Prod.ext (congrArg (Except.map some) hout) rfl
      rw [run.upTo_snoc before hstage st, runStage_failed hskip rfl hmiss hd] at hafter
      cases hafter
    | ok p => exact h.executes hr hD hregistry hstage hground hskip hmiss hout

end

/-! ## Whole sessions -/

section

variable {r : PluginRegistry M G F} {content : String → M → Option F → Value → List UInt8} {D : Set (List UInt8)}
  {run : RegistryRun M G F} {st : SessionStore M G F}

theorem RegistryRun.perform_success (h : (run.perform st).1.status = .success) :
    ∃ order, run.pipeline.validate = .ok order ∧ (run.upTo order st).1.encounteredFailure = false := by
  unfold perform runPipeline at h
  cases hvalid : run.pipeline.validate with
  | error errors =>
    rw [hvalid] at h
    cases h
  | ok order =>
    rw [hvalid] at h
    refine ⟨order, rfl, ?_⟩
    by_contra hfailed
    rw [Bool.not_eq_false] at hfailed
    have hstatus : (if (run.upTo order st).1.encounteredFailure then RunStatus.stageFailed else .success) = .success :=
      h
    rw [hfailed] at hstatus
    cases hstatus

theorem RegistryRun.perform_upTo {order : List ℕ} (h : run.pipeline.validate = .ok order)
    (s : Store Files (StageOutput M G F)) :
    (run.perform s).2 = (run.upTo order s).2 ∧ (run.perform s).1.outputs = (run.upTo order s).1.outputs := by
  unfold perform runPipeline
  rw [h]
  exact ⟨rfl, rfl⟩

theorem Mirrors.of_run (hr : Hermetic r content) (hD : Set.InjOn sha256 D) (hhosted : Hosted r D st run)
    (hcurrent : run.Stagewise (CurrentStage run st)) (hbacked : Backed serializeStageOutput st)
    (hledger : Ledger r content D st) {order : List ℕ} (hvalid : run.pipeline.validate = .ok order)
    (hflag : (run.upTo order st).1.encounteredFailure = false) : Mirrors r content D run order st := by
  have hp := Pipeline.validate_ordered hvalid
  -- every stage before one that has not failed has not failed either
  suffices h : ∀ before after, order = before ++ after →
      (run.upTo before st).1.encounteredFailure = false → Mirrors r content D run before st from
    h order [] (List.append_nil _).symm hflag
  intro before
  induction before using List.reverseRecOn with
  | nil =>
    intro after _ _
    exact ⟨fun _ j hj => (nomatch hj), hbacked, hledger, fun id => .inl ⟨rfl, rfl⟩, rfl, rfl, rfl, rfl⟩
  | append_singleton before i ih =>
    intro after horder hafter
    rw [List.append_assoc, List.singleton_append] at horder
    have hi : i ∈ order := horder ▸ List.mem_append_right _ List.mem_cons_self
    have hbound : i < run.pipeline.stages.length := List.mem_range.mp (hp.perm.mem_iff.mp hi)
    have hstage : run.pipeline.stages[i]? = some run.pipeline.stages[i] := List.getElem?_eq_getElem hbound
    have hbefore : (run.upTo before st).1.encounteredFailure = false := by
      rw [run.upTo_snoc before hstage] at hafter
      exact runStage_unfailing hafter
    exact (ih (i :: after) horder hbefore).step hr hD hhosted.registry hp horder hstage hbefore
      (hhosted.hashed order before i after _ hvalid horder hstage)
      (hcurrent order before i after _ hvalid horder hstage) hafter

/-- What the actions of a session meet. Between the runs files are edited that no writer has written, and restarts lose
the cache in memory. -/
def Orderly (r : PluginRegistry M G F) (D : Set (List UInt8)) (st : SessionStore M G F) : SessionAction M G F → Prop
  | .run run => Hosted r D st run ∧ run.Stagewise (CurrentStage run st)
  | .edit change => ∀ path, (lastWriter path st.log).isSome = true → change st.world path = st.world path
  | .restart => True

def TransparentAction (st : SessionStore M G F) : SessionAction M G F → Prop
  | .run run => Transparent st run
  | .edit _ => True
  | .restart => True

theorem Ledger.edit (h : Ledger r content D st) {change : Files → Files}
    (hchange : ∀ path, (lastWriter path st.log).isSome = true → change st.world path = st.world path) :
    Ledger r content D { st with world := change st.world } where
  grounded := h.grounded
  oneOutput := h.oneOutput
  held path w hw := by
    obtain ⟨upstream, files, baseDir, data, hground, hdata, hfile⟩ := h.held path w hw
    exact ⟨upstream, files, baseDir, data, hground, hdata,
      (hchange path (Option.isSome_iff_exists.mpr ⟨w, hw⟩)).trans hfile⟩

/-- An action keeps the caches and the files in order. -/
theorem Ledger.sessionStep (hr : Hermetic r content) (hD : Set.InjOn sha256 D)
    (hbacked : Backed serializeStageOutput st) (hledger : Ledger r content D st) {action : SessionAction M G F}
    (h : Orderly r D st action) :
    Ledger r content D (sessionStep st action) ∧ TransparentAction st action := by
  cases action with
  | run run =>
    obtain ⟨hhosted, hcurrent⟩ := h
    obtain ⟨order, hvalid, hflag⟩ := run.perform_success hhosted.success
    have hmirrors := Mirrors.of_run hr hD hhosted hcurrent hbacked hledger hvalid hflag
    obtain ⟨hst, houtputs⟩ := run.perform_upTo hvalid st
    obtain ⟨hst', houtputs'⟩ := run.uncached.perform_upTo hvalid st
    refine ⟨?_, ?_, ?_⟩
    · have hledger' := hmirrors.ledger
      rw [← hst] at hledger'
      exact hledger'
    · rw [hst, hst', hmirrors.files]
    · rw [houtputs, houtputs', hmirrors.outputs]
  | edit change => exact ⟨hledger.edit h, trivial⟩
  | restart => exact ⟨⟨hledger.grounded, hledger.oneOutput, hledger.held⟩, trivial⟩

/-- Sessions with hermetic plugins in which a writer that is found in a cache is the one that was executed last for its
path: every run leaves the files, and hands back the outputs, that it would without the cache. -/
theorem served_writers_transparent (hr : Hermetic r content) (hD : Set.InjOn sha256 D) (files : Files)
    (actions : List (SessionAction M G F))
    (h : Along sessionStep (fun _ st action => Orderly r D st action) [] (sessionStart files) actions) :
    Along sessionStep (fun _ st action => TransparentAction st action) [] (sessionStart files) actions := by
  refine h.of_invariant (P := fun _ st => Backed serializeStageOutput st ∧ Ledger r content D st) ?_ ?_ ?_
  · rintro past st action ⟨hbacked, hledger⟩ haction
    exact ⟨hbacked.sessionStep action, (hledger.sessionStep hr hD hbacked haction).1⟩
  · rintro past st action ⟨hbacked, hledger⟩ haction
    exact (hledger.sessionStep hr hD hbacked haction).2
  · exact ⟨session_backed files [],
      ⟨fun e p h => (nomatch h), fun e p e' p' h => (nomatch h), fun path w h => (nomatch h)⟩⟩

end

section Example

/-- Two meshers, and a writer that writes which of them made the mesh. -/
abbrev SampleFn : PluginHost.CapabilityKind → Type := PluginFn Bool Unit Unit

def sampleMesher (made : Bool) : SampleFn .mesher := fun _ _ _ files => (.returned 0 none (some made), files)

def sampleContent (_ : String) (made : Bool) (_ : Option Unit) (_ : Value) : List UInt8 := if made then [1] else [0]

def sampleWriter : SampleFn .writer := fun made field input _ files =>
  (.returned 0 none (), files.write (pathInput input) (sampleContent "" made field input))

def sampleRegistry : PluginRegistry Bool Unit Unit :=
  (PluginHost.Registry.addWriter "writer.w" "w" (some ⟨1, some sampleWriter⟩) 0 .reentrant
    (PluginHost.Registry.addMesher "mesher.b" "b" (some ⟨1, some (sampleMesher true)⟩) 0 .reentrant
      (PluginHost.Registry.addMesher "mesher.a" "a" (some ⟨1, some (sampleMesher false)⟩) 0 .reentrant {}).2).2).2

theorem sampleRegistry_find {id : String} {entry : PluginHost.CapabilityEntry SampleFn}
    (h : sampleRegistry.find id = some entry) :
    entry = ⟨"writer.w", "w", .writer, 1, .reentrant, ⟨1, some sampleWriter⟩, 0⟩ ∨
      entry = ⟨"mesher.b", "b", .mesher, 1, .reentrant, ⟨1, some (sampleMesher true)⟩, 0⟩ ∨
      entry = ⟨"mesher.a", "a", .mesher, 1, .reentrant, ⟨1, some (sampleMesher false)⟩, 0⟩ := by
  have hmem : (⟨id, entry⟩ : Sigma fun _ : String => PluginHost.CapabilityEntry SampleFn) ∈
      sampleRegistry.entries.entries := AList.mem_lookup_iff.mp h
  rcases List.mem_cons.mp hmem with heq | hmem
  · cases heq
    exact .inl rfl
  · rcases List.mem_cons.mp hmem with heq | hmem
    · cases heq
      exact .inr (.inl rfl)
    · cases List.mem_singleton.mp hmem
      exact .inr (.inr rfl)

theorem findVtable_eq_some {kind : PluginHost.CapabilityKind} {r : PluginRegistry M G F} {id : String}
    {found : PluginFn M G F kind × ℕ} (h : findVtable kind r id = some found) : ∃ entry, ∃ hkind : entry.kind = kind,
      r.find id = some entry ∧ (hkind ▸ entry.vtable).fn.map (fun fn => (fn, entry.userData)) = some found := by
  unfold findVtable at h
  cases hfind : r.find id with
  | none =>
    rw [hfind] at h
    cases h
  | some entry =>
    rw [hfind] at h
    dsimp only at h
    split_ifs at h with hkind
    exact ⟨entry, hkind, rfl, h⟩

theorem sampleRegistry_hermetic : Hermetic sampleRegistry sampleContent where
  mesher id meshFn userData h := by
    obtain ⟨entry, hkind, hfind, hfn⟩ := findVtable_eq_some h
    rcases sampleRegistry_find hfind with rfl | rfl | rfl
    · cases hkind
    · cases hfn
      exact ⟨fun _ _ => .returned 0 none (some true), fun _ _ _ => rfl⟩
    · cases hfn
      exact ⟨fun _ _ => .returned 0 none (some false), fun _ _ _ => rfl⟩
  solver id solveFn userData h := by
    obtain ⟨entry, hkind, hfind, -⟩ := findVtable_eq_some h
    rcases sampleRegistry_find hfind with rfl | rfl | rfl <;> cases hkind
  postproc id computeFn userData h := by
    obtain ⟨entry, hkind, hfind, -⟩ := findVtable_eq_some h
    rcases sampleRegistry_find hfind with rfl | rfl | rfl <;> cases hkind
  reader id readFn userData h := by
    obtain ⟨entry, hkind, hfind, -⟩ := findVtable_eq_some h
    rcases sampleRegistry_find hfind with rfl | rfl | rfl <;> cases hkind
  writer id writeFn userData h := by
    obtain ⟨entry, hkind, hfind, hfn⟩ := findVtable_eq_some h
    rcases sampleRegistry_find hfind with rfl | rfl | rfl
    · cases hfn
      exact ⟨fun _ _ _ => .returned 0 none (), fun _ _ _ _ => ⟨rfl, fun _ _ => rfl⟩⟩
    · cases hkind
    · cases hkind

def sampleMesh (mesher : String) : Stage := ⟨"m", mesher, .null⟩

def sampleWrite : Stage := ⟨"w", "writer.w", .map [("mesh", .stage "m"), ("path", .string "out")]⟩

def sampleRun (mesher : String) : RegistryRun Bool Unit Unit where
  pipeline := { stages := [sampleMesh mesher, sampleWrite] }
  registry := sampleRegistry
  baseDir := ""
  options := {}
  uses := ⟨fun _ h => (nomatch h), fun _ h => (nomatch h)⟩
  putSucceeds := fun _ => true

theorem stale_writer_served :
    let before := run sessionStep (sessionStart fun _ => none)
      [.run (sampleRun "mesher.a"), .run (sampleRun "mesher.b")]
    let last := (sampleRun "mesher.a").perform before
    last.1.stageResults.map (·.status) = [.cached, .cached] ∧ last.2.world "out" = some [1] ∧
      ((sampleRun "mesher.a").uncached.perform before).2.world "out" = some [0] := by
  decide +kernel

/-! The session of one pipeline, with an edit of another file in between. -/

def sampleEvaluation (stage : Stage) (upstream : List (String × ContentHash)) : Evaluation :=
  ⟨stage.plugin, "abi1", "", stage.input, upstream⟩

def meshEvaluated : Evaluation := sampleEvaluation (sampleMesh "mesher.a") []

def writeEvaluated : Evaluation := sampleEvaluation sampleWrite [("m", meshEvaluated.key)]

def sampleStreams : Set (List UInt8) := {stream | stream = meshEvaluated.stream ∨ stream = writeEvaluated.stream}

def sampleEdit : Files → Files := Files.write (some "notes") [0]

def sampleActions : List (SessionAction Bool Unit Unit) :=
  [.run (sampleRun "mesher.a"), .edit sampleEdit, .run (sampleRun "mesher.a")]

def sampleStart : SessionStore Bool Unit Unit := sessionStart fun _ => none

def sampleMiddle : SessionStore Bool Unit Unit := sessionStep sampleStart (.run (sampleRun "mesher.a"))

def sampleLast : SessionStore Bool Unit Unit := sessionStep sampleMiddle (.edit sampleEdit)

theorem sample_order : (sampleRun "mesher.a").pipeline.validate = .ok [0, 1] := by decide

theorem sample_evaluates : sha256 meshEvaluated.stream ≠ sha256 writeEvaluated.stream ∧
    (∀ st ∈ [sampleStart, sampleLast], ((sampleRun "mesher.a").perform st).1.status = .success ∧
      ((lookupCache (sampleRun "mesher.a").options writeEvaluated.key
          ((sampleRun "mesher.a").upTo [0] st).2).1.isSome = true →
        (lastWriter "out" ((sampleRun "mesher.a").upTo [0] st).2.log).map Evaluation.key =
          some writeEvaluated.key)) ∧
    (lastWriter "notes" sampleMiddle.log).isSome = false := by
  decide +kernel

theorem sampleStreams_injOn : Set.InjOn sha256 sampleStreams := by
  have hne := sample_evaluates.1
  rintro s (rfl | rfl) s' (rfl | rfl) h
  · rfl
  · exact absurd h hne
  · exact absurd h.symm hne
  · rfl

theorem sample_stages (st : SessionStore Bool Unit Unit) {C : List ℕ → Stage → Prop}
    (hmesh : (sampleRun "mesher.a").evaluationAt [] (sampleMesh "mesher.a") st = meshEvaluated →
      C [] (sampleMesh "mesher.a"))
    (hwrite : (sampleRun "mesher.a").evaluationAt [0] sampleWrite st = writeEvaluated → C [0] sampleWrite) :
    (sampleRun "mesher.a").Stagewise C := by
  intro order before i after stage hvalid horder hstage
  rw [sample_order] at hvalid
  obtain rfl := Except.ok.inj hvalid
  rcases before with _ | ⟨j, before⟩
  · obtain ⟨rfl, -⟩ := List.cons.inj horder
    obtain rfl := Option.some.inj hstage
    exact hmesh rfl
  · obtain ⟨rfl, hrest⟩ := List.cons.inj horder
    rcases before with _ | ⟨j, before⟩
    · obtain ⟨rfl, -⟩ := List.cons.inj hrest
      obtain rfl := Option.some.inj hstage
      refine hwrite ?_
      have hhashes : (runStage (sampleRun "mesher.a").dispatcher (sampleRun "mesher.a").options
          (sampleRun "mesher.a").putSucceeds (sampleMesh "mesher.a") {} st).1.upstreamHashes =
          [("m", meshEvaluated.key)] := (runStage_settled rfl rfl).1
      have hevaluated : evaluation (sampleRun "mesher.a").dispatcher sampleWrite [("m", meshEvaluated.key)]
          ((sampleRun "mesher.a").upTo [0] st).2.world = writeEvaluated := rfl
      rw [← hevaluated, ← hhashes]
      rfl
    · obtain ⟨-, hrest⟩ := List.cons.inj hrest
      cases before <;> cases hrest

theorem sampleRun_hosted {st : SessionStore Bool Unit Unit}
    (h : ((sampleRun "mesher.a").perform st).1.status = .success) :
    Hosted sampleRegistry sampleStreams st (sampleRun "mesher.a") where
  registry := rfl
  success := h
  hashed := sample_stages st
    (fun he => by
      rw [he]
      exact ⟨⟨by decide, .null⟩, .inl rfl, fun path hpath => (nomatch hpath)⟩)
    (fun he => by
      rw [he]
      exact ⟨⟨by decide, .map (by decide) (by decide) (List.forall_mem_cons.mpr ⟨.stage (by decide),
        List.forall_mem_singleton.mpr (.string (by decide))⟩)⟩, .inr rfl,
        fun path _ data _ hreader => absurd hreader (by decide)⟩)

theorem sampleRun_current {st : SessionStore Bool Unit Unit}
    (h : (lookupCache (sampleRun "mesher.a").options writeEvaluated.key
        ((sampleRun "mesher.a").upTo [0] st).2).1.isSome = true →
      (lastWriter "out" ((sampleRun "mesher.a").upTo [0] st).2.log).map Evaluation.key = some writeEvaluated.key) :
    (sampleRun "mesher.a").Stagewise (CurrentStage (sampleRun "mesher.a") st) :=
  sample_stages st
    (fun _ => ⟨by decide, fun hwriter => absurd hwriter (by decide)⟩)
    (fun he => by
      refine ⟨by decide, fun _ path hpath hhit => ?_⟩
      obtain rfl := Option.some.inj hpath
      rw [he] at hhit ⊢
      exact Option.map_eq_some_iff.mp (h hhit))

theorem served_writers_transparent_sample : TransparentAction sampleLast (.run (sampleRun "mesher.a")) := by
  obtain ⟨-, hruns, hnotes⟩ := sample_evaluates
  have hfirst := hruns sampleStart List.mem_cons_self
  have hsecond := hruns sampleLast (List.mem_cons_of_mem _ (List.mem_singleton.mpr rfl))
  have hedit : Orderly sampleRegistry sampleStreams sampleMiddle (.edit sampleEdit) := by
    intro path hlast
    refine Files.write_other ?_ _ _
    rintro rfl
    exact absurd (hnotes.symm.trans hlast) (by decide)
  have horderly : Orderly sampleRegistry sampleStreams sampleStart (.run (sampleRun "mesher.a")) :=
    ⟨sampleRun_hosted hfirst.1, sampleRun_current hfirst.2⟩
  have horderly' : Orderly sampleRegistry sampleStreams sampleLast (.run (sampleRun "mesher.a")) :=
    ⟨sampleRun_hosted hsecond.1, sampleRun_current hsecond.2⟩
  exact (served_writers_transparent sampleRegistry_hermetic sampleStreams_injOn (fun _ => none) sampleActions
    ⟨horderly, hedit, horderly', trivial⟩).2.2.1

end Example

end Souxmar.Pipeline
