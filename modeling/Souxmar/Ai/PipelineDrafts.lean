import Souxmar.Ai.Tool
import Souxmar.Pipeline.Emit
import Souxmar.Pipeline.Reparse

/-!
# Pipeline drafts

The tools `propose_pipeline` and `apply_pipeline_diff`. What a list of ops makes of a draft is the relation `Edits`.
-/

set_option linter.dupNamespace false

namespace Souxmar.Ai

open Souxmar.Lib Souxmar.Lib.Yaml Souxmar.Pipeline

/-- Why an op does not apply: its error, or what is thrown on the way. -/
inductive OpFailure
  | error (err : String)
  | thrown (what : Thrown)
deriving DecidableEq, Repr

def kindName : Value → String
  | .null => "null"
  | .boolean _ => "bool"
  | .number _ => "number"
  | .string _ => "string"
  | .stage _ => "stage-ref"
  | .list _ => "list"
  | .map _ => "map"

/-- `as_map()` on a value that is not a map. -/
def notMap (v : Value) : Thrown := .exception ("Value: requested as map, but holds " ++ kindName v)

def stagesOf (base : Value) : List Value :=
  match base.find "stages" with
  | some (.list items) => items
  | _ => []

def stageIdView (stage : Value) : String :=
  match stage.find "id" with
  | some (.string id) => id
  | _ => ""

/-- The number of stages when none has the id. -/
def indexOfStage (stages : List Value) (id : String) : ℕ := stages.findIdx fun stage => stageIdView stage = id

/-- `fields[key] = v` on the fields of a map. -/
def assignField (key : String) (v : Value) : List (String × Value) → List (String × Value)
  | [] => [(key, v)]
  | (k, w) :: fields =>
    if key < k then (key, v) :: (k, w) :: fields
    else if key = k then (key, v) :: fields
    else (k, w) :: assignField key v fields

/-- The stages of the base are left out, and the new ones put in their place. -/
def rebuildPipeline (base : List (String × Value)) (stages : List Value) : Value :=
  .map (Value.emplaceField "stages" (.list stages) (base.filter fun field => field.1 ≠ "stages"))

/-! ## Ops -/

/-- Where a stage is added that is not to stand after another one. -/
def insertBefore (stages : List Value) (op : Value) : Except OpFailure ℕ :=
  match op.find "before" with
  | some (.string before) =>
    let j := indexOfStage stages before
    if j = stages.length then .error (.error ("add op: `before` references unknown stage '" ++ before ++ "'"))
    else .ok j
  | _ => .ok stages.length

def insertAt (stages : List Value) (op : Value) : Except OpFailure ℕ :=
  match op.find "after" with
  | some (.string after) =>
    let j := indexOfStage stages after
    if j = stages.length then .error (.error ("add op: `after` references unknown stage '" ++ after ++ "'"))
    else .ok (j + 1)
  | _ => insertBefore stages op

def applyAdd (stages : List Value) (op : Value) : Except OpFailure (List Value) :=
  match op.find "stage" with
  | some (.map stage) =>
    let id := stageIdView (.map stage)
    if id.isEmpty then .error (.error "add op `stage` must carry a string `id`")
    else if indexOfStage stages id ≠ stages.length then
      .error (.error ("add op: stage '" ++ id ++ "' already exists"))
    else (insertAt stages op).map fun i => stages.insertIdx i (.map stage)
  | _ => .error (.error "add op requires map `stage`")

def applyRemove (stages : List Value) (op : Value) : Except OpFailure (List Value) :=
  match op.find "id" with
  | some (.string id) =>
    let j := indexOfStage stages id
    if j = stages.length then .error (.error ("remove op: unknown stage '" ++ id ++ "'"))
    else .ok (stages.eraseIdx j)
  | _ => .error (.error "remove op requires string `id`")

/-- The stage with an input set. An input that is not a map makes way for a new one. -/
def setInput (key : String) (value : Value) (stage : List (String × Value)) : Value :=
  let inputMap :=
    match stage.lookup "input" with
    | some (.map inputs) => inputs
    | _ => []
  .map (assignField "input" (.map (assignField key value inputMap)) stage)

def applySetInput (stages : List Value) (op : Value) : Except OpFailure (List Value) :=
  match op.find "id", op.find "key", op.find "value" with
  | some (.string id), some (.string key), some value =>
    let j := indexOfStage stages id
    match stages[j]? with
    | none => .error (.error ("set_input op: unknown stage '" ++ id ++ "'"))
    | some (.map stage) => .ok (stages.set j (setInput key value stage))
    | some stage => .error (.thrown (notMap stage))
  | _, _, _ => .error (.error "set_input op requires string `id`, string `key`, and any `value`")

def applyReplace (stages : List Value) (op : Value) : Except OpFailure (List Value) :=
  match op.find "id", op.find "stage" with
  | some (.string id), some (.map stage) =>
    let j := indexOfStage stages id
    if j = stages.length then .error (.error ("replace op: unknown stage '" ++ id ++ "'"))
    else .ok (stages.set j (.map stage))
  | _, _ => .error (.error "replace op requires string `id` and map `stage`")

def applyOne (stages : List Value) (op : Value) : Except OpFailure (List Value) :=
  match op with
  | .map _ =>
    match op.find "op" with
    | some (.string kind) =>
      if kind = "add" then applyAdd stages op
      else if kind = "remove" then applyRemove stages op
      else if kind = "set_input" then applySetInput stages op
      else if kind = "replace" then applyReplace stages op
      else .error (.error ("unknown op kind '" ++ kind ++ "' (expected add / remove / set_input / replace)"))
    | _ => .error (.error "op missing required string `op`")
  | _ => .error (.error "op must be a map")

/-- The ops in their order, with the number of those that applied before one that does not. -/
def applyOps : List Value → ℕ → List Value → Except (ℕ × OpFailure) (List Value)
  | stages, _, [] => .ok stages
  | stages, applied, op :: ops =>
    match applyOne stages op with
    | .error failure => .error (applied, failure)
    | .ok stages => applyOps stages (applied + 1) ops

/-! ## Handlers -/

def invalidArgument (summary message : String) (suggestion : String := "") : ToolResult where
  summary := summary
  error := some ⟨"INVALID_ARGUMENT", message, suggestion⟩

/-- A parse error with its place. -/
def parseMessage (err : ParseError) : String :=
  err.message ++ (err.line.elim "" fun line => " (line " ++ toString line ++ ")") ++
    (err.column.elim "" fun column => ", column " ++ toString column)

def dagMessage (errs : List DagError) : String :=
  "; ".intercalate (errs.map fun err =>
    (if err.stageId.isEmpty then "" else "stage '" ++ err.stageId ++ "': ") ++ err.message)

/-- Only version 1 is parsed. -/
def parsedVersion : Value := .number (Double.ofNat 1)

variable (load : String → Except LoadFailure Node) (c : Conversions) (fmt : UInt64 → String)

def proposePipeline (inputs : Value) : ToolResult :=
  match inputs with
  | .map _ =>
    let yaml := emitValueYaml fmt inputs
    match parsePipeline c load yaml with
    | .error err =>
      invalidArgument "pipeline draft failed to parse" (parseMessage err)
        ("fix the reported error and call propose_pipeline again — the YAML this tool emits is the same shape " ++
          "`souxmar run` consumes, so a parse error here is the same error the user would see at run time")
    | .ok parsed =>
      { data := .map [("parsed_stages", .number (Double.ofNat parsed.stages.length)), ("version", parsedVersion),
          ("yaml", .string yaml)]
        summary := "pipeline draft: " ++ toString parsed.stages.length ++ " stages (validated)" }
  | _ => invalidArgument "input must be a map" "propose_pipeline input must be a map with `version` and `stages`"

def draftResult (yaml : String) (parsed : Pipeline) (applied : ℕ) : ToolResult where
  data := .map [("ops_applied", .number (Double.ofNat applied)),
    ("parsed_stages", .number (Double.ofNat parsed.stages.length)), ("version", parsedVersion), ("yaml", .string yaml)]
  summary := "applied " ++ toString applied ++ " op(s); " ++ toString parsed.stages.length ++ " stage(s) in result"

/-- The answer to ops that applied: the draft when it parses and validates. -/
def answerDraft (base : List (String × Value)) (stages : List Value) (applied : ℕ) : ToolResult :=
  let yaml := emitValueYaml fmt (rebuildPipeline base stages)
  match parsePipeline c load yaml with
  | .error err =>
    invalidArgument "diffed pipeline failed validation" (parseMessage err)
      ("the ops applied cleanly but the result no longer parses as a valid pipeline — typically a dangling " ++
        "\x7bfrom: <id>\x7d reference after a remove. Re-add the missing upstream and retry.")
  | .ok parsed =>
    match parsed.validate with
    | .error errs =>
      invalidArgument "diffed pipeline failed validation" (dagMessage errs)
        ("the ops applied cleanly and the result parses, but it is not a runnable DAG — typically a dangling " ++
          "\x7bfrom: <id>\x7d reference left by a remove, or a cycle introduced by an add. Re-add the missing " ++
          "upstream (or drop the stage that referenced it) and retry; the pipeline is unchanged on failure.")
    | .ok _ => draftResult yaml parsed applied

def applyPipelineDiff (inputs : Value) : Except Thrown ToolResult :=
  match inputs with
  | .map _ =>
    match inputs.find "base" with
    | some (.map base) =>
      match inputs.find "ops" with
      | some (.list ops) =>
        match applyOps (stagesOf (.map base)) 0 ops with
        | .error (_, .thrown what) => .error what
        | .error (applied, .error opErr) =>
          .ok (invalidArgument ("diff failed at op " ++ toString applied ++ ": " ++ opErr) opErr
            "fix the op and retry; the pipeline is unchanged on failure")
        | .ok stages => .ok (answerDraft load c fmt base stages ops.length)
      | _ =>
        .ok (invalidArgument "missing or wrong-typed `ops`"
          "apply_pipeline_diff requires a list `ops` of edit operations")
    | _ =>
      .ok (invalidArgument "missing or wrong-typed `base`"
        "apply_pipeline_diff requires a map `base` pipeline spec")
  | _ =>
    .ok (invalidArgument "input must be a map" "apply_pipeline_diff input must be \x7bbase, ops: [...]\x7d")

def makeProposePipelineTool {ω : Type} : Tool ω where
  name := "propose_pipeline"
  description := "Validate and emit a YAML pipeline draft from a structured spec. Round-trips through the parser so " ++
    "the draft is guaranteed to load — the agent can iterate before the user runs `write_pipeline` to commit it to " ++
    "disk."
  confirmation := .auto
  inputSchemaDoc :=
    "\x7bversion: 1,\n stages: [\n   \x7bid: string, plugin: string, input?: <Value map>\x7d,\n   ...\n ]\x7d"
  handler inputs world := (.ok (proposePipeline load c fmt inputs), world)

def makeApplyPipelineDiffTool {ω : Type} : Tool ω where
  name := "apply_pipeline_diff"
  description := "Apply a list of structured edits (add / remove / set_input / replace) to a pipeline draft. The " ++
    "result is re-emitted as YAML and round-tripped through the parser, so the returned pipeline is guaranteed to " ++
    "load at `souxmar run` time. Read-only: produces a draft, never writes to disk."
  confirmation := .confirmOnce
  inputSchemaDoc :=
    "\x7bbase: <pipeline-spec>,                                       # the same shape propose_pipeline takes\n" ++
      " ops:  [\n" ++
      "   \x7bop: 'add',       stage: \x7bid, plugin, input?\x7d, after?: <id>, before?: <id>\x7d,\n" ++
      "   \x7bop: 'remove',    id: <id>\x7d,\n" ++
      "   \x7bop: 'set_input', id: <id>, key: <string>, value: <Value>\x7d,\n" ++
      "   \x7bop: 'replace',   id: <id>, stage: \x7bid, plugin, input?\x7d\x7d,\n" ++
      "   ...\n ]\x7d"
  handler inputs world := (applyPipelineDiff load c fmt inputs, world)

/-! ## What ops do -/

/-- The first stage with the id, and the stages on both sides of it. -/
structure SplitAt (stages : List Value) (id : String) (before : List Value) (stage : Value) (after : List Value) :
    Prop where
  eq : stages = before ++ stage :: after
  named : stageIdView stage = id
  first : ∀ s ∈ before, stageIdView s ≠ id

/-- The stage has an id, and no stage of the draft has it. -/
def Fresh (stages : List Value) (stage : Value) : Prop :=
  stageIdView stage ≠ "" ∧ ∀ s ∈ stages, stageIdView s ≠ stageIdView stage

def NotText (v : Option Value) : Prop := ∀ text, v ≠ some (.string text)

/-- The draft with a stage added where the op wants it. -/
inductive Placed (op stage : Value) (stages : List Value) : List Value → Prop
  | after {other : String} {before : List Value} {s : Value} {after : List Value}
    (hafter : op.find "after" = some (.string other)) (hsplit : SplitAt stages other before s after) :
    Placed op stage stages (before ++ s :: stage :: after)
  | before {other : String} {before : List Value} {s : Value} {after : List Value} (hafter : NotText (op.find "after"))
    (hbefore : op.find "before" = some (.string other)) (hsplit : SplitAt stages other before s after) :
    Placed op stage stages (before ++ stage :: s :: after)
  | last (hafter : NotText (op.find "after")) (hbefore : NotText (op.find "before")) :
    Placed op stage stages (stages ++ [stage])

/-- What an op makes of the stages of a draft. -/
inductive Edit (op : Value) (stages : List Value) : List Value → Prop
  | add {stage : List (String × Value)} {edited : List Value} (hop : op.find "op" = some (.string "add"))
    (hstage : op.find "stage" = some (.map stage)) (hfresh : Fresh stages (.map stage))
    (hplaced : Placed op (.map stage) stages edited) : Edit op stages edited
  | remove {id : String} {before : List Value} {s : Value} {after : List Value}
    (hop : op.find "op" = some (.string "remove")) (hid : op.find "id" = some (.string id))
    (hsplit : SplitAt stages id before s after) : Edit op stages (before ++ after)
  | setInput {id key : String} {value : Value} {before : List Value} {stage : List (String × Value)}
    {after : List Value} (hop : op.find "op" = some (.string "set_input")) (hid : op.find "id" = some (.string id))
    (hkey : op.find "key" = some (.string key)) (hvalue : op.find "value" = some value)
    (hsplit : SplitAt stages id before (.map stage) after) :
    Edit op stages (before ++ setInput key value stage :: after)
  | replace {id : String} {stage : List (String × Value)} {before : List Value} {s : Value} {after : List Value}
    (hop : op.find "op" = some (.string "replace")) (hid : op.find "id" = some (.string id))
    (hstage : op.find "stage" = some (.map stage)) (hsplit : SplitAt stages id before s after) :
    Edit op stages (before ++ .map stage :: after)

/-- What the ops make of them one after the other. -/
inductive Edits : List Value → List Value → List Value → Prop
  | nil (stages : List Value) : Edits [] stages stages
  | cons {op : Value} {ops stages next edited : List Value} (hop : Edit op stages next) (hops : Edits ops next edited) :
    Edits (op :: ops) stages edited

theorem indexOfStage_eq_length {stages : List Value} {id : String} :
    indexOfStage stages id = stages.length ↔ ∀ s ∈ stages, stageIdView s ≠ id := by
  rw [indexOfStage, List.findIdx_eq_length]
  simp

theorem SplitAt.index {stages before after : List Value} {id : String} {s : Value}
    (h : SplitAt stages id before s after) : indexOfStage stages id = before.length := by
  unfold indexOfStage
  have hfirst : before.findIdx (fun stage => stageIdView stage = id) = before.length :=
    indexOfStage_eq_length.mpr h.first
  rw [h.eq, List.findIdx_append, hfirst, if_neg (lt_irrefl _), List.findIdx_cons]
  simp [h.named]

theorem SplitAt.ne_length {stages before after : List Value} {id : String} {s : Value}
    (h : SplitAt stages id before s after) : indexOfStage stages id ≠ stages.length := by
  rw [h.index, h.eq, List.length_append, List.length_cons]
  omega

theorem exists_splitAt {stages : List Value} {id : String} (h : indexOfStage stages id ≠ stages.length) :
    ∃ before s after, SplitAt stages id before s after := by
  have hlt : indexOfStage stages id < stages.length := lt_of_le_of_ne List.findIdx_le_length h
  obtain ⟨s, hs, hid⟩ := List.findIdx_lt_length.mp hlt
  have hsome : (stages.find? fun stage => stageIdView stage = id).isSome := List.find?_isSome.mpr ⟨s, hs, hid⟩
  obtain ⟨s, hfind⟩ := Option.isSome_iff_exists.mp hsome
  obtain ⟨hnamed, before, after, heq, hfirst⟩ := List.find?_eq_some_iff_append.mp hfind
  exact ⟨before, s, after, heq, of_decide_eq_true hnamed, fun s hs hid => by simpa [hid] using hfirst s hs⟩

theorem insertIdx_between {α : Type} (before after : List α) (x : α) :
    (before ++ after).insertIdx before.length x = before ++ x :: after := by
  induction before with
  | nil => rfl
  | cons b before ih => exact congrArg (b :: ·) ih

section

variable {stages before after : List Value} {id : String} {s : Value} (h : SplitAt stages id before s after)

include h

theorem SplitAt.getElem? : stages[indexOfStage stages id]? = some s := by
  rw [h.index, h.eq]
  simp

theorem SplitAt.set (s' : Value) : stages.set (indexOfStage stages id) s' = before ++ s' :: after := by
  rw [h.index, h.eq, List.set_append_right _ _ le_rfl, Nat.sub_self, List.set_cons_zero]

theorem SplitAt.eraseIdx : stages.eraseIdx (indexOfStage stages id) = before ++ after := by
  rw [h.index, h.eq, List.eraseIdx_append_of_length_le le_rfl, Nat.sub_self, List.eraseIdx_cons_zero]

theorem SplitAt.insertIdx (s' : Value) : stages.insertIdx (indexOfStage stages id) s' = before ++ s' :: s :: after := by
  rw [h.index, h.eq, insertIdx_between]

theorem SplitAt.insertIdx_succ (s' : Value) :
    stages.insertIdx (indexOfStage stages id + 1) s' = before ++ s :: s' :: after := by
  have hlength : before.length + 1 = (before ++ [s]).length := by simp
  rw [h.index, h.eq, List.append_cons before s after, hlength, insertIdx_between, List.append_assoc]
  rfl

end

/-! ## Ops and their relations -/

theorem placed_of_insertBefore {stages : List Value} {op stage : Value} {i : ℕ} (hafter : NotText (op.find "after"))
    (hi : insertBefore stages op = .ok i) : Placed op stage stages (stages.insertIdx i stage) := by
  unfold insertBefore at hi
  split at hi
  case h_1 other hbefore =>
    dsimp only at hi
    split_ifs at hi with hother
    obtain ⟨before, s, after, hsplit⟩ := exists_splitAt hother
    rw [← Except.ok.inj hi, hsplit.insertIdx]
    exact .before hafter hbefore hsplit
  case h_2 hbefore =>
    rw [← Except.ok.inj hi, List.insertIdx_length_self]
    exact .last hafter hbefore

theorem insertAt_ok_iff {stages edited : List Value} {op stage : Value} :
    (∃ i, insertAt stages op = .ok i ∧ edited = stages.insertIdx i stage) ↔ Placed op stage stages edited := by
  constructor
  · rintro ⟨i, hi, rfl⟩
    unfold insertAt at hi
    split at hi
    case h_1 other hafter =>
      dsimp only at hi
      split_ifs at hi with hother
      obtain ⟨before, s, after, hsplit⟩ := exists_splitAt hother
      rw [← Except.ok.inj hi, hsplit.insertIdx_succ]
      exact .after hafter hsplit
    case h_2 hafter => exact placed_of_insertBefore hafter hi
  · have hnotAfter : NotText (op.find "after") → insertAt stages op = insertBefore stages op := by
      intro hafter
      unfold insertAt
      split
      case h_1 other hother => exact absurd hother (hafter other)
      case h_2 => rfl
    intro h
    cases h with
    | @after other _ _ _ hafter hsplit =>
      refine ⟨indexOfStage stages other + 1, ?_, (hsplit.insertIdx_succ stage).symm⟩
      rw [insertAt, hafter]
      exact if_neg hsplit.ne_length
    | @before other _ _ _ hafter hbefore hsplit =>
      refine ⟨indexOfStage stages other, ?_, (hsplit.insertIdx stage).symm⟩
      rw [hnotAfter hafter, insertBefore, hbefore]
      exact if_neg hsplit.ne_length
    | last hafter hbefore =>
      refine ⟨stages.length, ?_, List.insertIdx_length_self.symm⟩
      rw [hnotAfter hafter]
      unfold insertBefore
      split
      case h_1 other hother => exact absurd hother (hbefore other)
      case h_2 => rfl

theorem applyAdd_ok_iff {stages edited : List Value} {op : Value} : applyAdd stages op = .ok edited ↔
    ∃ stage, op.find "stage" = some (.map stage) ∧ Fresh stages (.map stage) ∧
      Placed op (.map stage) stages edited := by
  constructor
  · intro h
    unfold applyAdd at h
    split at h
    case h_2 => cases h
    case h_1 stage hstage =>
      dsimp only at h
      split_ifs at h with hempty hknown
      obtain ⟨i, hi, rfl⟩ := except_map_eq_ok h
      refine ⟨stage, hstage, ⟨fun heq => hempty (String.isEmpty_iff.mpr heq), ?_⟩, insertAt_ok_iff.mp ⟨i, hi, rfl⟩⟩
      exact indexOfStage_eq_length.mp (not_not.mp hknown)
  · rintro ⟨stage, hstage, hfresh, hplaced⟩
    obtain ⟨i, hi, rfl⟩ := insertAt_ok_iff.mpr hplaced
    have hknown : indexOfStage stages (stageIdView (.map stage)) = stages.length :=
      indexOfStage_eq_length.mpr hfresh.2
    rw [applyAdd, hstage]
    dsimp only
    rw [if_neg (fun hempty => hfresh.1 (String.isEmpty_iff.mp hempty)), if_neg (not_not.mpr hknown), hi]
    rfl

theorem applyRemove_ok_iff {stages edited : List Value} {op : Value} : applyRemove stages op = .ok edited ↔
    ∃ id before s after, op.find "id" = some (.string id) ∧ SplitAt stages id before s after ∧
      edited = before ++ after := by
  constructor
  · intro h
    unfold applyRemove at h
    split at h
    case h_2 => cases h
    case h_1 id hid =>
      dsimp only at h
      split_ifs at h with hknown
      obtain ⟨before, s, after, hsplit⟩ := exists_splitAt hknown
      exact ⟨id, before, s, after, hid, hsplit, (Except.ok.inj h).symm.trans hsplit.eraseIdx⟩
  · rintro ⟨id, before, s, after, hid, hsplit, rfl⟩
    rw [applyRemove, hid, ← hsplit.eraseIdx]
    exact if_neg hsplit.ne_length

theorem applySetInput_ok_iff {stages edited : List Value} {op : Value} : applySetInput stages op = .ok edited ↔
    ∃ id key value before stage after, op.find "id" = some (.string id) ∧ op.find "key" = some (.string key) ∧
      op.find "value" = some value ∧ SplitAt stages id before (.map stage) after ∧
      edited = before ++ setInput key value stage :: after := by
  constructor
  · intro h
    unfold applySetInput at h
    split at h
    case h_2 => cases h
    case h_1 id key value hid hkey hvalue =>
      dsimp only at h
      split at h
      case h_1 => cases h
      case h_3 => cases h
      case h_2 stage hstage =>
        have hknown : indexOfStage stages id ≠ stages.length := by
          intro heq
          rw [heq, List.getElem?_eq_none le_rfl] at hstage
          cases hstage
        obtain ⟨before, s, after, hsplit⟩ := exists_splitAt hknown
        rw [hsplit.getElem?] at hstage
        obtain rfl := Option.some.inj hstage
        exact ⟨id, key, value, before, stage, after, hid, hkey, hvalue, hsplit,
          (Except.ok.inj h).symm.trans (hsplit.set _)⟩
  · rintro ⟨id, key, value, before, stage, after, hid, hkey, hvalue, hsplit, rfl⟩
    rw [applySetInput, hid, hkey, hvalue]
    dsimp only
    rw [hsplit.getElem?, ← hsplit.set]

theorem applyReplace_ok_iff {stages edited : List Value} {op : Value} : applyReplace stages op = .ok edited ↔
    ∃ id stage before s after, op.find "id" = some (.string id) ∧ op.find "stage" = some (.map stage) ∧
      SplitAt stages id before s after ∧ edited = before ++ .map stage :: after := by
  constructor
  · intro h
    unfold applyReplace at h
    split at h
    case h_2 => cases h
    case h_1 id stage hid hstage =>
      dsimp only at h
      split_ifs at h with hknown
      obtain ⟨before, s, after, hsplit⟩ := exists_splitAt hknown
      exact ⟨id, stage, before, s, after, hid, hstage, hsplit, (Except.ok.inj h).symm.trans (hsplit.set _)⟩
  · rintro ⟨id, stage, before, s, after, hid, hstage, hsplit, rfl⟩
    rw [applyReplace, hid, hstage, ← hsplit.set]
    exact if_neg hsplit.ne_length

theorem applyOne_ok_iff {stages edited : List Value} {op : Value} :
    applyOne stages op = .ok edited ↔ Edit op stages edited := by
  constructor
  · intro h
    unfold applyOne at h
    split at h
    case h_2 => cases h
    case h_1 =>
      split at h
      case h_2 => cases h
      case h_1 kind hop =>
        split_ifs at h with hadd hremove hset hreplace
        · obtain ⟨stage, hstage, hfresh, hplaced⟩ := applyAdd_ok_iff.mp h
          exact .add (hadd ▸ hop) hstage hfresh hplaced
        · obtain ⟨id, before, s, after, hid, hsplit, rfl⟩ := applyRemove_ok_iff.mp h
          exact .remove (hremove ▸ hop) hid hsplit
        · obtain ⟨id, key, value, before, stage, after, hid, hkey, hvalue, hsplit, rfl⟩ := applySetInput_ok_iff.mp h
          exact .setInput (hset ▸ hop) hid hkey hvalue hsplit
        · obtain ⟨id, stage, before, s, after, hid, hstage, hsplit, rfl⟩ := applyReplace_ok_iff.mp h
          exact .replace (hreplace ▸ hop) hid hstage hsplit
  · have hkind : ∀ {kind : String}, op.find "op" = some (.string kind) → applyOne stages op =
        if kind = "add" then applyAdd stages op
        else if kind = "remove" then applyRemove stages op
        else if kind = "set_input" then applySetInput stages op
        else if kind = "replace" then applyReplace stages op
        else .error (.error ("unknown op kind '" ++ kind ++ "' (expected add / remove / set_input / replace)")) := by
      intro kind hop
      obtain ⟨fields, rfl, -⟩ := Value.find_eq_some hop
      rw [applyOne, hop]
    intro h
    cases h with
    | add hop hstage hfresh hplaced =>
      rw [hkind hop, if_pos rfl]
      exact applyAdd_ok_iff.mpr ⟨_, hstage, hfresh, hplaced⟩
    | remove hop hid hsplit =>
      rw [hkind hop, if_neg (by decide), if_pos rfl]
      exact applyRemove_ok_iff.mpr ⟨_, _, _, _, hid, hsplit, rfl⟩
    | setInput hop hid hkey hvalue hsplit =>
      rw [hkind hop, if_neg (by decide), if_neg (by decide), if_pos rfl]
      exact applySetInput_ok_iff.mpr ⟨_, _, _, _, _, _, hid, hkey, hvalue, hsplit, rfl⟩
    | replace hop hid hstage hsplit =>
      rw [hkind hop, if_neg (by decide), if_neg (by decide), if_neg (by decide), if_pos rfl]
      exact applyReplace_ok_iff.mpr ⟨_, _, _, _, _, hid, hstage, hsplit, rfl⟩

/-- The ops apply exactly when each of them does to what the ones before it have made. -/
theorem applyOps_ok_iff {ops : List Value} : ∀ {stages edited : List Value} {applied : ℕ},
    applyOps stages applied ops = .ok edited ↔ Edits ops stages edited := by
  induction ops with
  | nil =>
    intro stages edited applied
    rw [applyOps]
    constructor
    · intro h
      obtain rfl := Except.ok.inj h
      exact .nil stages
    · intro h
      cases h
      rfl
  | cons op ops ih =>
    intro stages edited applied
    rw [applyOps]
    cases hone : applyOne stages op with
    | error failure =>
      refine iff_of_false (fun h => by cases h) fun h => ?_
      cases h with
      | cons hop _ =>
        rw [applyOne_ok_iff.mpr hop] at hone
        cases hone
    | ok next =>
      rw [ih]
      constructor
      · exact fun h => .cons (applyOne_ok_iff.mp hone) h
      · intro h
        cases h with
        | cons hop hops =>
          rw [applyOne_ok_iff.mpr hop] at hone
          rwa [Except.ok.inj hone] at hops

theorem Edits.unique {ops stages edited edited' : List Value} (h : Edits ops stages edited)
    (h' : Edits ops stages edited') : edited = edited' := by
  have hops : applyOps stages 0 ops = .ok edited := applyOps_ok_iff.mpr h
  exact Except.ok.inj (hops.symm.trans (applyOps_ok_iff.mpr h'))

end Souxmar.Ai
