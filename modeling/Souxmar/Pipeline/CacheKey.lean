import Souxmar.Lib.Decimal
import Souxmar.Pipeline.Session

/-!
# What a cache key stands for

The context string of a key is put together with `@` and `|`. Version strings and extras have neither
in them, so the string splits at its last `|` and then at its last `@`, unless one side has no version:
an unregistered capability may be named like a registered one with its version (`Shadows`). That is the
only way for two evaluations to share a key (`cache_hits_sound_iff`).
-/

namespace Souxmar.Pipeline

open Souxmar.Lib

variable {M G F : Type}

namespace Evaluation

/-- The bytes that the key is the hash of. -/
def stream (e : Evaluation) : List UInt8 := inputsStream e.upstream e.context e.input

theorem key_bytes (e : Evaluation) : e.key.bytes = sha256 e.stream :=
  hashInputs_bytes e.upstream e.context e.input

/-- Sizes are 64-bit numbers. -/
structure Fits (e : Evaluation) : Prop where
  context : e.context.utf8ByteSize < 2 ^ 64
  input : e.input.Sized

/-- An evaluation as the registry dispatcher gives it, with every stage that the input refers to among
the upstream hashes. -/
structure Evaluated (r : PluginRegistry M G F) (baseDir : String) (e : Evaluation) : Prop where
  version : e.version = pluginVersion r e.capability
  extra : ∃ files, e.extra = cacheKeyExtra e.capability e.input files baseDir
  resolved : ∀ id ∈ collectStageRefs e.input, ∃ ch, e.upstream.lookup id = some ch

/-- The same work on the same inputs. -/
structure Identical (e e' : Evaluation) : Prop where
  capability : e.capability = e'.capability
  version : e.version = e'.version
  extra : e.extra = e'.extra
  input : e.input = e'.input
  upstream : ∀ id ∈ collectStageRefs e.input, e.upstream.lookup id = e'.upstream.lookup id

/-- `e` is of a registered capability and `e'` of an unregistered one, whose name is the registered
name with its version; the inputs are the same. -/
structure Shadows (e e' : Evaluation) : Prop where
  registered : e.version ≠ ""
  unregistered : e'.version = ""
  named : e'.capability = e.capability ++ "@" ++ e.version
  extra : e.extra = e'.extra
  input : e.input = e'.input
  upstream : ∀ id ∈ collectStageRefs e.input, e.upstream.lookup id = e'.upstream.lookup id

end Evaluation

/-! ## The parts of the context string -/

/-- A part of the context with its separator; an empty part leaves none. -/
def part (sep : Char) (s : String) : List Char := if s.isEmpty then [] else sep :: s.toList

theorem part_empty (sep : Char) : part sep "" = [] := rfl

theorem part_of_ne {s : String} (sep : Char) (h : s ≠ "") : part sep s = sep :: s.toList := by
  unfold part
  rw [if_neg (by simpa using h)]

theorem part_inj {sep : Char} {s t : String} {u v : List Char} (hs : sep ∉ s.toList)
    (ht : sep ∉ t.toList) (hempty : s = "" ↔ t = "") (h : u ++ part sep s = v ++ part sep t) :
    u = v ∧ s = t := by
  by_cases hsempty : s = ""
  · obtain rfl := hempty.mp hsempty
    subst hsempty
    exact ⟨by simpa [part_empty] using h, rfl⟩
  · rw [part_of_ne sep hsempty, part_of_ne sep fun h => hsempty (hempty.mpr h)] at h
    obtain ⟨huv, hst⟩ := append_delimiter_inj hs ht h
    exact ⟨huv, String.toList_inj.mp hst⟩

theorem Evaluation.context_toList (e : Evaluation) :
    e.context.toList = e.capability.toList ++ part '@' e.version ++ part '|' e.extra := by
  unfold Evaluation.context part
  split_ifs <;> simp

theorem mem_toString_int {n : ℤ} {c : Char} (h : c ∈ (toString n).toList) : c = '-' ∨ c.isDigit := by
  obtain ⟨digits, -, hdigits, htext | htext⟩ := toList_toString_int n
  · rw [htext] at h
    exact .inr (hdigits c h)
  · rw [htext] at h
    rcases List.mem_cons.mp h with rfl | hmem
    · exact .inl rfl
    · exact .inr (hdigits c hmem)

theorem notMem_pluginVersion (r : PluginRegistry M G F) (capabilityId : String) {c : Char}
    (hc : c ∉ ['a', 'b', 'i', '-']) (hdigit : c.isDigit = false) :
    c ∉ (pluginVersion r capabilityId).toList := by
  intro hmem
  unfold pluginVersion at hmem
  split at hmem
  · rw [String.toList_append, List.mem_append] at hmem
    rcases hmem with habi | hnum
    · have habi' : c ∈ ['a', 'b', 'i'] := habi
      simp at habi' hc
      tauto
    · rcases mem_toString_int hnum with rfl | hd
      · simp at hc
      · rw [hdigit] at hd
        exact nomatch hd
  · exact nomatch hmem

theorem notMem_cacheKeyExtra (capabilityId : String) (input : Value) (files : Files)
    (baseDir : String) : '|' ∉ (cacheKeyExtra capabilityId input files baseDir).toList := by
  intro hmem
  unfold cacheKeyExtra at hmem
  split_ifs at hmem
  · exact nomatch hmem
  · split at hmem
    · exact nomatch hmem
    · split at hmem
      · rw [ContentHash.hex, String.toList_ofList, List.mem_flatMap] at hmem
        obtain ⟨b, -, hb⟩ := hmem
        exact absurd (mem_hexByte hb) (by decide)
      · exact absurd hmem (by decide)

theorem cacheKeyExtra_empty_iff (capabilityId : String) (input : Value) (files : Files)
    (baseDir : String) :
    cacheKeyExtra capabilityId input files baseDir = "" ↔
      (startsWith "reader." capabilityId = false ∨ pathInput input = none) := by
  unfold cacheKeyExtra
  cases hreader : startsWith "reader." capabilityId with
  | false => simp
  | true =>
    cases hpath : pathInput input with
    | none => simp
    | some path =>
      simp only [Bool.not_true, Bool.false_eq_true, if_false, reduceCtorEq, or_self, iff_false]
      split
      · rename_i data _
        intro hempty
        have hlist := congrArg String.toList hempty
        rw [ContentHash.hex, String.toList_ofList] at hlist
        have hsize := (hashFile data).size
        cases hbytes : (hashFile data).bytes with
        | nil => rw [hbytes] at hsize; exact nomatch hsize
        | cons b bs => rw [hbytes, List.flatMap_cons] at hlist; exact nomatch hlist
      · decide

/-! ## Equal keys -/

namespace Evaluation

theorem startsWith_reader_iff (e : Evaluation) :
    startsWith "reader." e.capability = true ↔ "reader.".toList <+: e.context.toList := by
  have hsep : ∀ sep ∈ ['@', '|'], ∀ s, ∀ d ∈ (part sep s).head?, d ∉ "reader.".toList := by
    intro sep hsep s d hd
    unfold part at hd
    split_ifs at hd
    · exact nomatch hd
    · obtain rfl := Option.some.inj hd
      revert hsep
      simp only [List.mem_cons, List.not_mem_nil, or_false]
      rintro (rfl | rfl) <;> decide
  rw [startsWith, List.isPrefixOf_iff_prefix, context_toList,
    prefix_append_iff (hsep '|' (by simp) e.extra), prefix_append_iff (hsep '@' (by simp) e.version)]

variable {r r' : PluginRegistry M G F} {baseDir baseDir' : String} {e e' : Evaluation}

namespace Evaluated

theorem notMem_version (h : Evaluated r baseDir e) {c : Char} (hc : c ∉ ['a', 'b', 'i', '-'])
    (hdigit : c.isDigit = false) : c ∉ e.version.toList :=
  h.version ▸ notMem_pluginVersion r e.capability hc hdigit

theorem notMem_extra (h : Evaluated r baseDir e) : '|' ∉ e.extra.toList := by
  obtain ⟨files, hextra⟩ := h.extra
  exact hextra ▸ notMem_cacheKeyExtra e.capability e.input files baseDir

theorem extra_empty_iff (h : Evaluated r baseDir e) :
    e.extra = "" ↔ (startsWith "reader." e.capability = false ∨ pathInput e.input = none) := by
  obtain ⟨files, hextra⟩ := h.extra
  rw [hextra, cacheKeyExtra_empty_iff]

theorem extra_eq (h : Evaluated r baseDir e) (h' : Evaluated r' baseDir' e')
    (hinput : e.input = e'.input) (hcontext : e.context = e'.context) :
    e.capability.toList ++ part '@' e.version = e'.capability.toList ++ part '@' e'.version ∧
      e.extra = e'.extra := by
  have hreader : startsWith "reader." e.capability = startsWith "reader." e'.capability := by
    rw [Bool.eq_iff_iff, startsWith_reader_iff, startsWith_reader_iff, hcontext]
  have hempty : e.extra = "" ↔ e'.extra = "" := by
    rw [h.extra_empty_iff, h'.extra_empty_iff, hreader, hinput]
  have hlist := congrArg String.toList hcontext
  rw [context_toList, context_toList] at hlist
  exact part_inj h.notMem_extra h'.notMem_extra hempty hlist

theorem capability_eq (h : Evaluated r baseDir e) (h' : Evaluated r' baseDir' e')
    (hbase : e.capability.toList ++ part '@' e.version =
      e'.capability.toList ++ part '@' e'.version) :
    (e.capability = e'.capability ∧ e.version = e'.version) ∨
      (e.version ≠ "" ∧ e'.version = "" ∧ e'.capability = e.capability ++ "@" ++ e.version) ∨
      (e'.version ≠ "" ∧ e.version = "" ∧ e.capability = e'.capability ++ "@" ++ e'.version) := by
  have hat : '@' ∉ e.version.toList := h.notMem_version (by decide) (by decide)
  have hat' : '@' ∉ e'.version.toList := h'.notMem_version (by decide) (by decide)
  by_cases hempty : e.version = "" ↔ e'.version = ""
  · obtain ⟨hcap, hversion⟩ := part_inj hat hat' hempty hbase
    exact .inl ⟨String.toList_inj.mp hcap, hversion⟩
  · by_cases hversion : e.version = ""
    · have hversion' : e'.version ≠ "" := fun h' => hempty ⟨fun _ => h', fun _ => hversion⟩
      rw [hversion, part_empty, List.append_nil, part_of_ne '@' hversion'] at hbase
      refine .inr (.inr ⟨hversion', hversion, String.toList_inj.mp ?_⟩)
      rw [hbase, String.toList_append, String.toList_append, List.append_assoc]
      rfl
    · have hversion' : e'.version = "" := by
        by_contra hne
        exact hempty ⟨fun h => absurd h hversion, fun h => absurd h hne⟩
      rw [hversion', part_empty, List.append_nil, part_of_ne '@' hversion] at hbase
      refine .inr (.inl ⟨hversion, hversion', String.toList_inj.mp ?_⟩)
      rw [← hbase, String.toList_append, String.toList_append, List.append_assoc]
      rfl

theorem stream_inj (h : Evaluated r baseDir e) (h' : Evaluated r' baseDir' e') (hfits : e.Fits)
    (hfits' : e'.Fits) (hstream : e.stream = e'.stream) :
    e.context = e'.context ∧ e.input = e'.input ∧
      ∀ id ∈ collectStageRefs e.input, e.upstream.lookup id = e'.upstream.lookup id := by
  obtain ⟨hcontext, hinput, hbytes⟩ :=
    inputsStream_inj hfits.context hfits'.context hfits.input hfits'.input hstream
  refine ⟨hcontext, hinput, fun id hid => ?_⟩
  obtain ⟨ch, hch⟩ := h.resolved id hid
  obtain ⟨ch', hch'⟩ := h'.resolved id (hinput ▸ hid)
  have heq := hbytes id hid
  rw [upstreamBytes, upstreamBytes, hch, hch'] at heq
  rw [hch, hch', ContentHash.ext heq]

theorem key_inj (h : Evaluated r baseDir e) (h' : Evaluated r' baseDir' e') (hfits : e.Fits)
    (hfits' : e'.Fits) (hsha : sha256 e.stream = sha256 e'.stream → e.stream = e'.stream)
    (hkey : e.key = e'.key) : Identical e e' ∨ Shadows e e' ∨ Shadows e' e := by
  have hstream : e.stream = e'.stream :=
    hsha (by rw [← key_bytes, ← key_bytes, hkey])
  obtain ⟨hcontext, hinput, hupstream⟩ := h.stream_inj h' hfits hfits' hstream
  obtain ⟨hbase, hextra⟩ := h.extra_eq h' hinput hcontext
  rcases h.capability_eq h' hbase with ⟨hcap, hver⟩ | ⟨hreg, hunreg, hname⟩ | ⟨hreg, hunreg, hname⟩
  · exact .inl ⟨hcap, hver, hextra, hinput, hupstream⟩
  · exact .inr (.inl ⟨hreg, hunreg, hname, hextra, hinput, hupstream⟩)
  · exact .inr (.inr ⟨hreg, hunreg, hname, hextra.symm, hinput.symm, fun id hid =>
      (hupstream id (hinput.symm ▸ hid)).symm⟩)

end Evaluated

theorem Shadows.key_eq (h : Shadows e e') : e.key = e'.key := by
  have hcontext : e.context = e'.context := by
    have hversion : e.version.isEmpty = false := by simpa using h.registered
    unfold context
    rw [hversion, h.unregistered, h.named, h.extra]
    rfl
  unfold key
  rw [hcontext, ← h.input]
  refine hashInputs_congr e'.context e.input fun id hid => ?_
  rw [upstreamBytes, upstreamBytes, h.upstream id hid]

theorem Shadows.not_identical (h : Shadows e e') : ¬Identical e e' := fun hid =>
  h.registered (hid.version.trans h.unregistered)

end Evaluation

/-! ## The evaluations of a session -/

/-- The stages that are behind in a run have their hashes among the upstream hashes. -/
def HashesKnown (p : Pipeline) {ω π : Type} (options : RunOptions ω π) (before : List ℕ)
    (loop : Loop π) : Prop :=
  (loop.encounteredFailure && options.stopOnFirstFailure) = false →
    ∀ i ∈ before, ∀ s, p.stages[i]? = some s → ∃ ch, loop.upstreamHashes.lookup s.id = some ch

theorem lookup_append_isSome {α β : Type} [BEq α] {xs ys : List (α × β)} {a : α} {b : β}
    (h : xs.lookup a = some b) : (xs ++ ys).lookup a = some b := by
  rw [List.lookup_append, h]
  rfl

theorem evaluated_of_ordered {p : Pipeline} {order before after : List ℕ} (hp : p.Ordered order)
    {i : ℕ} {stage : Stage} (horder : order = before ++ i :: after)
    (hstage : p.stages[i]? = some stage) {r : PluginRegistry M G F} {baseDir : String}
    {upstream : List (String × ContentHash)} (files : Files)
    (hknown : ∀ j ∈ before, ∀ s, p.stages[j]? = some s → ∃ ch, upstream.lookup s.id = some ch) :
    (evaluation (registryDispatcher r baseDir) stage upstream files).Evaluated r baseDir where
  version := rfl
  extra := ⟨files, rfl⟩
  resolved id hid := by
    obtain ⟨j, hj, -, t, ht, rfl⟩ := hp.ref_before horder hstage hid
    exact hknown j hj t ht

theorem HashesKnown.runStage {p : Pipeline} {ω π : Type} {d : Dispatcher ω π}
    {options : RunOptions ω π} {putSucceeds : ContentHash → Bool} {before : List ℕ} {i : ℕ}
    {stage : Stage} {loop : Loop π} {st : Store ω π} (hstage : p.stages[i]? = some stage)
    (h : HashesKnown p options before loop) :
    HashesKnown p options (before ++ [i]) (runStage d options putSucceeds stage loop st).1 := by
  cases hskip : (loop.encounteredFailure && options.stopOnFirstFailure) with
  | true =>
    rw [runStage_skipped hskip]
    intro hnot
    exact nomatch hskip.symm.trans hnot
  | false =>
    intro _ j hj s hs
    rw [(runStage_settled hskip rfl).1]
    rcases List.mem_append.mp hj with hj | hj
    · obtain ⟨ch, hch⟩ := h hskip j hj s hs
      exact ⟨ch, lookup_append_isSome hch⟩
    · obtain rfl := List.mem_singleton.mp hj
      obtain rfl := Option.some.inj (hstage.symm.trans hs)
      rw [List.lookup_append]
      cases hlook : loop.upstreamHashes.lookup stage.id with
      | some ch => exact ⟨ch, rfl⟩
      | none => exact ⟨(evaluation d stage loop.upstreamHashes st.world).key, by simp⟩

/-- Every evaluation of the log is one that a registry dispatcher gives. -/
def AllEvaluated (log : List (StageEvent (StageOutput M G F))) : Prop :=
  ∀ event ∈ log, ∃ (r : PluginRegistry M G F) (baseDir : String), event.evaluation.Evaluated r baseDir

theorem AllEvaluated.perform {st : SessionStore M G F} (h : AllEvaluated st.log)
    (r : RegistryRun M G F) : AllEvaluated (r.perform st).2.log := by
  unfold RegistryRun.perform runPipeline
  cases hvalid : r.pipeline.validate with
  | error errors => exact h
  | ok order =>
    have hp := Pipeline.validate_ordered hvalid
    refine (runStages_inOrder hp (P := fun before loop st =>
      HashesKnown r.pipeline r.options before loop ∧ AllEvaluated st.log) ?_ ⟨?_, h⟩).2
    · rintro before i after stage loop st horder hstage ⟨hknown, hall⟩
      refine ⟨hknown.runStage hstage, ?_⟩
      cases hskip : (loop.encounteredFailure && r.options.stopOnFirstFailure) with
      | true => rwa [runStage_skipped hskip]
      | false =>
        have hsettled : ∃ event, event.evaluation =
            evaluation r.dispatcher stage loop.upstreamHashes st.world ∧
            (runStage r.dispatcher r.options r.putSucceeds stage loop st).2.log =
              st.log ++ [event] := (runStage_settled hskip rfl).2
        obtain ⟨event, hevent, hlog⟩ := hsettled
        rw [hlog]
        intro ev hev
        rcases List.mem_append.mp hev with hev | hev
        · exact hall ev hev
        · obtain rfl := List.mem_singleton.mp hev
          exact ⟨r.registry, r.baseDir, hevent ▸
            evaluated_of_ordered hp horder hstage st.world (hknown hskip)⟩
    · intro _ j hj
      exact nomatch hj

theorem session_evaluated (files : Files) (actions : List (SessionAction M G F)) :
    AllEvaluated (run sessionStep (sessionStart files) actions).log := by
  suffices h : ∀ st : SessionStore M G F, AllEvaluated st.log →
      AllEvaluated (run sessionStep st actions).log from h _ fun event hevent => nomatch hevent
  induction actions with
  | nil => exact fun st h => h
  | cons action actions ih =>
    intro st h
    refine ih _ ?_
    cases action with
    | run r => exact h.perform r
    | edit change => exact h
    | restart => exact h

/-- Two evaluations share a key exactly when they are the same work or one shadows the other. And in
every session of runs, whatever is served was executed before under the same key, by an evaluation of
this kind. -/
theorem cache_hits_sound_iff {r r' : PluginRegistry M G F} {baseDir baseDir' : String}
    {e e' : Evaluation} (h : e.Evaluated r baseDir) (h' : e'.Evaluated r' baseDir')
    (hfits : e.Fits) (hfits' : e'.Fits)
    (hsha : sha256 e.stream = sha256 e'.stream → e.stream = e'.stream) :
    ((e.key = e'.key → e.Identical e') ↔ ¬(e.Shadows e' ∨ e'.Shadows e)) ∧
      ∀ (files : Files) (actions : List (SessionAction M G F)),
        AllEvaluated (run sessionStep (sessionStart files) actions).log ∧
          ServedFromExecuted (run sessionStep (sessionStart files) actions).log := by
  refine ⟨⟨fun hsound => ?_, fun hnone hkey => ?_⟩, fun files actions =>
    ⟨session_evaluated files actions, (session_backed files actions).served⟩⟩
  · rintro (hshadow | hshadow)
    · exact hshadow.not_identical (hsound hshadow.key_eq)
    · have hid := hsound hshadow.key_eq.symm
      exact hshadow.registered (hid.version.symm.trans hshadow.unregistered)
  · rcases h.key_inj h' hfits hfits' hsha hkey with hid | hshadow | hshadow
    · exact hid
    · exact absurd (.inl hshadow) hnone
    · exact absurd (.inr hshadow) hnone

section Example

/-- One mesher, registered as `mesher.x` at ABI version 1. -/
def mesherX : PluginRegistry Unit Unit Unit :=
  (PluginHost.Registry.addMesher "mesher.x" "x"
    (some { abiVersion := 1, fn := some fun _ _ _ files => (.returned 0 none (some ()), files) })
    0 .reentrant {}).2

def meshWith (plugin : String) : RegistryRun Unit Unit Unit where
  pipeline := { stages := [⟨"m", plugin, .null⟩] }
  registry := mesherX
  baseDir := ""
  options := {}
  uses := ⟨fun _ h => (nomatch h), fun _ h => (nomatch h)⟩
  putSucceeds := fun _ => true

/-- A stage of the unregistered `mesher.x@abi1` has the key of `mesher.x` and is served its mesh. -/
theorem unregistered_capability_served :
    let first := (meshWith "mesher.x").perform (sessionStart fun _ => none)
    let second := (meshWith "mesher.x@abi1").perform first.2
    mesherX.find "mesher.x@abi1" = none ∧
      first.1.stageResults.map (·.status) = [.executed] ∧
      second.1.stageResults.map (·.status) = [.cached] ∧
      second.1.stageResults.map (·.contentHash) = first.1.stageResults.map (·.contentHash) := by
  decide +kernel

def meshEvaluation (plugin : String) : Evaluation :=
  evaluation (registryDispatcher mesherX "") ⟨"m", plugin, .null⟩ [] fun _ => none

theorem meshEvaluation_evaluated (plugin : String) :
    (meshEvaluation plugin).Evaluated mesherX "" where
  version := rfl
  extra := ⟨fun _ => none, rfl⟩
  resolved _ hid := nomatch hid

theorem cache_hits_sound_iff_shadowed :
    ¬((meshEvaluation "mesher.x").key = (meshEvaluation "mesher.x@abi1").key →
      (meshEvaluation "mesher.x").Identical (meshEvaluation "mesher.x@abi1")) := by
  intro hsound
  have hiff := cache_hits_sound_iff (meshEvaluation_evaluated "mesher.x")
    (meshEvaluation_evaluated "mesher.x@abi1") ⟨by decide, .null⟩ ⟨by decide, .null⟩ fun _ => rfl
  exact hiff.1.mp hsound (.inl ⟨by decide, by decide, by decide, by decide, rfl,
    fun id hid => nomatch hid⟩)

end Example

end Souxmar.Pipeline
