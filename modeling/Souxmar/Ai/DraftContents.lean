import Souxmar.Ai.PipelineDrafts
import Souxmar.Pipeline.SameStages
import Souxmar.Pipeline.Validation

/-!
# What a draft contains

The pipeline that `apply_pipeline_diff` answers with: it loads and has a schedule, its stages are the edited ones, and
those that no op names are the ones of the base.
-/

set_option linter.dupNamespace false

namespace Souxmar.Ai

open Souxmar.Lib Souxmar.Lib.Yaml Souxmar.Pipeline

/-! ## Stages that no op names -/

/-- The ids an op can touch: the one it names, and that of the stage it brings. -/
def namedBy (op : Value) : List String :=
  (match op.find "id" with
    | some (.string id) => [id]
    | _ => []) ++ ((op.find "stage").map stageIdView).toList

theorem mem_namedBy_id {op : Value} {id : String} (h : op.find "id" = some (.string id)) : id ∈ namedBy op := by
  simp [namedBy, h]

theorem mem_namedBy_stage {op stage : Value} (h : op.find "stage" = some stage) : stageIdView stage ∈ namedBy op := by
  simp [namedBy, h]

theorem lookup_field (k key : String) (v : Value) (fields : List (String × Value)) :
    List.lookup k ((key, v) :: fields) = if k = key then some v else fields.lookup k := by
  rw [List.lookup_cons]
  by_cases hk : k = key
  · rw [if_pos hk, beq_iff_eq.mpr hk]
  · rw [if_neg hk, beq_eq_false_iff_ne.mpr hk]

theorem lookup_assignField (key k : String) (v : Value) (fields : List (String × Value)) :
    (assignField key v fields).lookup k = if k = key then some v else fields.lookup k := by
  induction fields with
  | nil => exact lookup_field k key v []
  | cons field fields ih =>
    obtain ⟨k', w⟩ := field
    rw [assignField]
    by_cases hlt : key < k'
    · rw [if_pos hlt, lookup_field]
    rw [if_neg hlt]
    by_cases heq : key = k'
    · subst heq
      rw [if_pos rfl, lookup_field, lookup_field]
      split_ifs <;> rfl
    · rw [if_neg heq, lookup_field, lookup_field, ih]
      by_cases hk : k = k'
      · rw [if_pos hk, if_pos hk, if_neg fun h => heq (h.symm.trans hk)]
      · rw [if_neg hk, if_neg hk]

theorem stageIdView_setInput (key : String) (value : Value) (stage : List (String × Value)) :
    stageIdView (setInput key value stage) = stageIdView (.map stage) := by
  unfold stageIdView setInput
  rw [Value.find, Value.find, lookup_assignField, if_neg (by decide)]

theorem SplitAt.filter {stages before after : List Value} {id : String} {s : Value}
    (h : SplitAt stages id before s after) {keep : Value → Bool} (hs : keep s = false) :
    stages.filter keep = before.filter keep ++ after.filter keep := by
  rw [h.eq, List.filter_append, List.filter_cons_of_neg (by simp [hs])]

theorem Edit.filter {op : Value} {stages edited : List Value} (h : Edit op stages edited) {keep : Value → Bool}
    (hkeep : ∀ item, keep item = true → stageIdView item ∉ namedBy op) : edited.filter keep = stages.filter keep := by
  have hdrop : ∀ item, stageIdView item ∈ namedBy op → keep item = false := fun item hitem =>
    Bool.eq_false_iff.mpr fun h => hkeep item h hitem
  cases h with
  | add _ hstage _ hplaced =>
    have hnew := hdrop _ (mem_namedBy_stage hstage)
    cases hplaced with
    | after _ hsplit => simp [hsplit.eq, List.filter_append, List.filter_cons, hnew]
    | before _ _ hsplit => simp [hsplit.eq, List.filter_append, List.filter_cons, hnew]
    | last => simp [List.filter_append, hnew]
  | remove _ hid hsplit =>
    have hold := hdrop _ (hsplit.named ▸ mem_namedBy_id hid)
    rw [hsplit.filter hold, List.filter_append]
  | @setInput _ key value _ stage _ _ hid _ _ hsplit =>
    have hold := hdrop _ (hsplit.named ▸ mem_namedBy_id hid)
    have hnew := hdrop (Ai.setInput key value stage)
      (by rw [stageIdView_setInput, hsplit.named]; exact mem_namedBy_id hid)
    rw [hsplit.filter hold, List.filter_append, List.filter_cons_of_neg (by simp [hnew])]
  | replace _ hid hstage hsplit =>
    have hold := hdrop _ (hsplit.named ▸ mem_namedBy_id hid)
    have hnew := hdrop _ (mem_namedBy_stage hstage)
    rw [hsplit.filter hold, List.filter_append, List.filter_cons_of_neg (by simp [hnew])]

theorem Edits.filter {ops stages edited : List Value} (h : Edits ops stages edited) {keep : Value → Bool}
    (hkeep : ∀ op ∈ ops, ∀ item, keep item = true → stageIdView item ∉ namedBy op) :
    edited.filter keep = stages.filter keep := by
  induction h with
  | nil => rfl
  | cons hop _ ih =>
    rw [List.forall_mem_cons] at hkeep
    rw [ih hkeep.2, hop.filter hkeep.1]

/-- No op names the stage. -/
def untouched (ops : List Value) (item : Value) : Bool := ops.all fun op => stageIdView item ∉ namedBy op

theorem Edits.untouched {ops stages edited : List Value} (h : Edits ops stages edited) :
    edited.filter (untouched ops) = stages.filter (untouched ops) := by
  refine h.filter fun op hop item hitem => ?_
  exact of_decide_eq_true (List.all_eq_true.mp hitem op hop)

/-! ## Documents that are carried -/

section

variable (number : UInt64 → Prop)

/-- The value is as the code keeps it, and YAML carries it. -/
def Sound (v : Value) : Prop := v.Ordered ∧ Carried number v

variable {number}

theorem sound_list_iff {items : List Value} : Sound number (.list items) ↔ ∀ item ∈ items, Sound number item := by
  rw [Sound, Value.Ordered, Value.orderedItems_iff, Carried, carriedItems_iff, ← forall₂_and]
  rfl

theorem sound_map_iff {fields : List (String × Value)} : Sound number (.map fields) ↔
    Value.Ascending fields ∧ ∀ field ∈ fields, CarriedKey field.1 ∧ Sound number field.2 := by
  rw [Sound, Value.Ordered, Value.orderedFields_iff, Carried, carriedFields_iff]
  constructor
  · rintro ⟨⟨hascending, hordered⟩, hcarried⟩
    exact ⟨hascending, fun field hfield =>
      ⟨(hcarried field hfield).1, hordered field hfield, (hcarried field hfield).2⟩⟩
  · rintro ⟨hascending, h⟩
    exact ⟨⟨hascending, fun field hfield => (h field hfield).2.1⟩, fun field hfield =>
      ⟨(h field hfield).1, (h field hfield).2.2⟩⟩

theorem Sound.find {v child : Value} {key : String} (h : Sound number v) (hfind : v.find key = some child) :
    Sound number child := by
  obtain ⟨fields, rfl, hlookup⟩ := Value.find_eq_some hfind
  exact ((sound_map_iff.mp h).2 _ (mem_of_lookup hlookup)).2

theorem mem_assignField {key : String} {v : Value} {fields : List (String × Value)} {field : String × Value}
    (h : field ∈ assignField key v fields) : field = (key, v) ∨ field ∈ fields := by
  induction fields with
  | nil => exact .inl (List.mem_singleton.mp h)
  | cons first fields ih =>
    obtain ⟨k, w⟩ := first
    rw [assignField] at h
    split_ifs at h
    · rcases List.mem_cons.mp h with rfl | h
      · exact .inl rfl
      · exact .inr h
    · rcases List.mem_cons.mp h with rfl | h
      · exact .inl rfl
      · exact .inr (List.mem_cons_of_mem _ h)
    · rcases List.mem_cons.mp h with rfl | h
      · exact .inr List.mem_cons_self
      · exact (ih h).imp_right (List.mem_cons_of_mem _)

theorem mem_emplaceField {key : String} {v : Value} {fields : List (String × Value)} {field : String × Value}
    (h : field ∈ Value.emplaceField key v fields) : field = (key, v) ∨ field ∈ fields := by
  induction fields with
  | nil => exact .inl (List.mem_singleton.mp h)
  | cons first fields ih =>
    obtain ⟨k, w⟩ := first
    rw [Value.emplaceField] at h
    split_ifs at h
    · rcases List.mem_cons.mp h with rfl | h
      · exact .inl rfl
      · exact .inr h
    · exact .inr h
    · rcases List.mem_cons.mp h with rfl | h
      · exact .inr List.mem_cons_self
      · exact (ih h).imp_right (List.mem_cons_of_mem _)

theorem keys_assignField (key : String) (v : Value) (fields : List (String × Value)) :
    (assignField key v fields).map (·.1) = (Value.emplaceField key v fields).map (·.1) := by
  induction fields with
  | nil => rfl
  | cons field fields ih =>
    obtain ⟨k, w⟩ := field
    rw [assignField, Value.emplaceField]
    split_ifs with hlt heq
    · rfl
    · rw [heq]
      rfl
    · rw [List.map_cons, List.map_cons, ih]

theorem ascending_assignField {fields : List (String × Value)} (h : Value.Ascending fields) (key : String) (v : Value) :
    Value.Ascending (assignField key v fields) := by
  rw [Value.Ascending, keys_assignField]
  exact h.emplaceField key v

theorem Sound.assignField {fields : List (String × Value)} (h : Sound number (.map fields)) {key : String} {v : Value}
    (hkey : CarriedKey key) (hv : Sound number v) : Sound number (.map (assignField key v fields)) := by
  rw [sound_map_iff] at h ⊢
  refine ⟨ascending_assignField h.1 key v, fun field hfield => ?_⟩
  rcases mem_assignField hfield with rfl | hfield
  · exact ⟨hkey, hv⟩
  · exact h.2 field hfield

theorem carriedKey_input : CarriedKey "input" := ⟨by decide, by decide, by decide⟩

theorem carriedKey_stages : CarriedKey "stages" := ⟨by decide, by decide, by decide⟩

theorem Sound.setInput {stage : List (String × Value)} (h : Sound number (.map stage)) {key : String} {value : Value}
    (hkey : CarriedKey key) (hvalue : Sound number value) : Sound number (setInput key value stage) := by
  refine h.assignField carriedKey_input (Sound.assignField ?_ hkey hvalue)
  split
  case h_1 inputs hinputs => exact h.find (show (Value.map stage).find "input" = some (.map inputs) from hinputs)
  case h_2 => exact ⟨⟨Value.Ascending.nil, trivial⟩, trivial⟩

/-- The keys that the ops set can be carried. -/
def CarriesKeys (ops : List Value) : Prop := ∀ op ∈ ops, ∀ key, op.find "key" = some (.string key) → CarriedKey key

theorem Edit.sound {op : Value} {stages edited : List Value} (h : Edit op stages edited) (hop : Sound number op)
    (hkeys : ∀ key, op.find "key" = some (.string key) → CarriedKey key) (hstages : ∀ s ∈ stages, Sound number s) :
    ∀ s ∈ edited, Sound number s := by
  cases h with
  | add _ hstage _ hplaced =>
    have hnew := hop.find hstage
    cases hplaced with
    | after _ hsplit =>
      rw [hsplit.eq] at hstages
      simp only [List.forall_mem_append, List.forall_mem_cons] at hstages ⊢
      exact ⟨hstages.1, hstages.2.1, hnew, hstages.2.2⟩
    | before _ _ hsplit =>
      rw [hsplit.eq] at hstages
      simp only [List.forall_mem_append, List.forall_mem_cons] at hstages ⊢
      exact ⟨hstages.1, hnew, hstages.2⟩
    | last =>
      simp only [List.forall_mem_append, List.forall_mem_singleton]
      exact ⟨hstages, hnew⟩
  | remove _ _ hsplit =>
    rw [hsplit.eq] at hstages
    simp only [List.forall_mem_append, List.forall_mem_cons] at hstages ⊢
    exact ⟨hstages.1, hstages.2.2⟩
  | setInput _ _ hkey hvalue hsplit =>
    rw [hsplit.eq] at hstages
    simp only [List.forall_mem_append, List.forall_mem_cons] at hstages ⊢
    exact ⟨hstages.1, hstages.2.1.setInput (hkeys _ hkey) (hop.find hvalue), hstages.2.2⟩
  | replace _ _ hstage hsplit =>
    rw [hsplit.eq] at hstages
    simp only [List.forall_mem_append, List.forall_mem_cons] at hstages ⊢
    exact ⟨hstages.1, hop.find hstage, hstages.2.2⟩

theorem Edits.sound {ops stages edited : List Value} (h : Edits ops stages edited) (hops : ∀ op ∈ ops, Sound number op)
    (hkeys : CarriesKeys ops) (hstages : ∀ s ∈ stages, Sound number s) : ∀ s ∈ edited, Sound number s := by
  induction h with
  | nil => exact hstages
  | cons hop _ ih =>
    rw [List.forall_mem_cons] at hops
    exact ih hops.2 (fun op hmem => hkeys op (List.mem_cons_of_mem _ hmem))
      (hop.sound hops.1 (hkeys _ List.mem_cons_self) hstages)

theorem Sound.stagesOf {base : Value} (h : Sound number base) : ∀ s ∈ stagesOf base, Sound number s := by
  unfold Ai.stagesOf
  split
  case h_1 items hitems => exact sound_list_iff.mp (h.find hitems)
  case h_2 => exact fun _ h => nomatch h

theorem Sound.rebuildPipeline {base : List (String × Value)} (h : Sound number (.map base)) {stages : List Value}
    (hstages : ∀ s ∈ stages, Sound number s) : Sound number (rebuildPipeline base stages) := by
  rw [sound_map_iff] at h
  refine sound_map_iff.mpr ⟨Value.Ascending.emplaceField ?_ _ _, fun field hfield => ?_⟩
  · exact h.1.sublist (List.filter_sublist.map _)
  · rcases mem_emplaceField hfield with rfl | hfield
    · exact ⟨carriedKey_stages, sound_list_iff.mpr hstages⟩
    · exact h.2 field (List.mem_filter.mp hfield).1

theorem unmarked_rebuildPipeline {base : List (String × Value)} (h : Unmarked (.map base)) (stages : List Value) :
    Unmarked (rebuildPipeline base stages) := by
  intro field hfield
  rcases mem_emplaceField hfield with rfl | hfield
  · have hmarker : isMarker ("stages".toList ++ [':', ' ']) = false := by decide
    exact fun _ => hmarker
  · exact h field (List.mem_filter.mp hfield).1

end

theorem lookup_emplaceField {key : String} {fields : List (String × Value)} (h : ∀ field ∈ fields, field.1 ≠ key)
    (k : String) (v : Value) :
    (Value.emplaceField key v fields).lookup k = if k = key then some v else fields.lookup k := by
  induction fields with
  | nil => exact lookup_field k key v []
  | cons field fields ih =>
    obtain ⟨k', w⟩ := field
    rw [List.forall_mem_cons] at h
    rw [Value.emplaceField, if_neg h.1.symm]
    by_cases hlt : key < k'
    · rw [if_pos hlt, lookup_field]
    · rw [if_neg hlt, lookup_field, lookup_field, ih h.2]
      by_cases hk : k = k'
      · rw [if_pos hk, if_pos hk, if_neg fun heq => h.1 (hk.symm.trans heq)]
      · rw [if_neg hk, if_neg hk]

theorem lookup_filter_ne {key k : String} (h : k ≠ key) (fields : List (String × Value)) :
    (fields.filter fun field => field.1 ≠ key).lookup k = fields.lookup k := by
  induction fields with
  | nil => rfl
  | cons field fields ih =>
    obtain ⟨k', w⟩ := field
    rw [List.filter_cons, lookup_field]
    by_cases hk : k' = key
    · rw [if_neg (by simp [hk]), ih, if_neg fun heq => h (heq.trans hk)]
    · rw [if_pos (by simp [hk]), lookup_field, ih]

theorem find_rebuildPipeline (base : List (String × Value)) (stages : List Value) (key : String) :
    (rebuildPipeline base stages).find key = if key = "stages" then some (.list stages) else base.lookup key := by
  have hrest : ∀ field ∈ base.filter fun field => field.1 ≠ "stages", field.1 ≠ "stages" := fun field hfield =>
    of_decide_eq_true (List.mem_filter.mp hfield).2
  rw [rebuildPipeline, Value.find, lookup_emplaceField hrest]
  by_cases hkey : key = "stages"
  · rw [if_pos hkey, if_pos hkey]
  · rw [if_neg hkey, if_neg hkey, lookup_filter_ne hkey]

/-! ## References -/

/-- The id that the map refers to, when the text of the map reads as a reference. -/
def referenceOf : List (String × Value) → Option String
  | [(key, .string id)] => if key = "from" then some id else none
  | _ => none

mutual

/-- The value with its maps `from: id` as references. -/
def resolved : Value → Value
  | .list items => .list (resolvedItems items)
  | .map fields => (referenceOf fields).elim (.map (resolvedFields fields)) .stage
  | v => v

def resolvedItems : List Value → List Value
  | [] => []
  | item :: items => resolved item :: resolvedItems items

def resolvedFields : List (String × Value) → List (String × Value)
  | [] => []
  | (key, child) :: fields => (key, resolved child) :: resolvedFields fields

end

theorem resolvedItems_eq (items : List Value) : resolvedItems items = items.map resolved := by
  induction items with
  | nil => rfl
  | cons item items ih => rw [resolvedItems, ih, List.map_cons]

theorem resolvedFields_eq (fields : List (String × Value)) :
    resolvedFields fields = fields.map fun field => (field.1, resolved field.2) := by
  induction fields with
  | nil => rfl
  | cons field fields ih => rw [resolvedFields, ih, List.map_cons]

theorem referenceOf_eq_some {fields : List (String × Value)} {id : String} (h : referenceOf fields = some id) :
    fields = [("from", .string id)] := by
  unfold referenceOf at h
  split at h
  case h_1 key id' =>
    split_ifs at h with hkey
    rw [hkey, Option.some.inj h]
  case h_2 => cases h

theorem lookup_resolvedFields (key : String) (fields : List (String × Value)) :
    (resolvedFields fields).lookup key = (fields.lookup key).map resolved := by
  induction fields with
  | nil => rfl
  | cons field fields ih =>
    obtain ⟨k, child⟩ := field
    rw [resolvedFields, lookup_field, lookup_field, ih]
    split_ifs <;> rfl

theorem nodeOf_resolved (fmt : UInt64 → String) (v : Value) : nodeOf fmt (resolved v) = nodeOf fmt v := by
  induction v with
  | list items ih =>
    rw [resolved, nodeOf, nodeOf, nodesOf_eq, nodesOf_eq, resolvedItems_eq, List.map_map]
    exact congrArg (Node.sequence noMark) (List.map_congr_left ih)
  | map fields ih =>
    rw [resolved]
    cases href : referenceOf fields with
    | some id =>
      have hfrom : scalarNode "from" = fromKey := by rfl
      rw [referenceOf_eq_some href, Option.elim_some, nodeOf, nodeOf, entriesOf, entriesOf, nodeOf, hfrom]
    | none =>
      rw [Option.elim_none, nodeOf, nodeOf, entriesOf_eq, entriesOf_eq, resolvedFields_eq, List.map_map]
      congr 1
      refine List.map_congr_left fun field hfield => ?_
      show (scalarNode field.1, nodeOf fmt (resolved field.2)) = _
      rw [ih field hfield]
  | _ => rfl

theorem find_resolved_rebuild (base : List (String × Value)) (stages : List Value)
    (hmap : ∃ fields, resolved (rebuildPipeline base stages) = .map fields) :
    (resolved (rebuildPipeline base stages)).find "stages" = some (.list (stages.map resolved)) := by
  have hstages := find_rebuildPipeline base stages "stages"
  rw [if_pos rfl, rebuildPipeline, Value.find] at hstages
  obtain ⟨fields, hmap⟩ := hmap
  rw [rebuildPipeline, resolved] at hmap ⊢
  cases href :
    referenceOf (Value.emplaceField "stages" (.list stages) (base.filter fun field => field.1 ≠ "stages")) with
  | some id =>
    rw [href] at hmap
    cases hmap
  | none =>
    rw [Option.elim_none, Value.find, lookup_resolvedFields, hstages, Option.map_some, resolved, resolvedItems_eq]

theorem Sound.resolved {number : UInt64 → Prop} {v : Value} (h : Sound number v) : Sound number (resolved v) := by
  induction v with
  | list items ih =>
    rw [Ai.resolved, resolvedItems_eq]
    rw [sound_list_iff] at h ⊢
    intro item hitem
    obtain ⟨item, hitem', rfl⟩ := List.mem_map.mp hitem
    exact ih item hitem' (h item hitem')
  | map fields ih =>
    rw [Ai.resolved]
    cases href : referenceOf fields with
    | some id =>
      obtain rfl := referenceOf_eq_some href
      exact ⟨trivial, ((sound_map_iff.mp h).2 ("from", .string id) List.mem_cons_self).2.2⟩
    | none =>
      rw [Option.elim_none, resolvedFields_eq]
      rw [sound_map_iff] at h ⊢
      refine ⟨?_, fun field hfield => ?_⟩
      · rw [Value.Ascending, List.map_map]
        exact h.1
      · obtain ⟨field, hfield', rfl⟩ := List.mem_map.mp hfield
        exact ⟨(h.2 field hfield').1, ih field hfield' (h.2 field hfield').2⟩
  | _ => exact h

/-! ## The answer -/

/-- The parsed stage is the one that the item describes, whenever that one can be written. -/
def Rendered (c : Conversions) (item : Value) (s' : Stage) : Prop :=
  ∀ s, DescribesStage (resolved item) s → Writable c s → s'.Same s

/-- A draft with its schedule: the ops make `edited` of the stages of the base, the text is that of the base with these
stages, and it is parsed to a pipeline whose stages stand in `order` after those they refer to. -/
structure DraftOf (load : String → Except LoadFailure Node) (c : Conversions) (fmt : UInt64 → String)
    (base : List (String × Value)) (ops edited : List Value) (p : Pipeline) (order : List ℕ) : Prop where
  edits : Edits ops (stagesOf (.map base)) edited
  parses : parsePipeline c load (emitValueYaml fmt (rebuildPipeline base edited)) = .ok p
  validates : p.validate = .ok order

section

variable {load : String → Except LoadFailure Node} {c : Conversions} {fmt : UInt64 → String}

theorem rendered_of_readsStage {item : Value} {s' : Stage} (hsound : Sound (ReadsNumber c fmt) item)
    (h : ReadsStage c (nodeOf fmt item) s') : Rendered c item s' := by
  intro s hdescribes hwritable
  obtain ⟨read, hread, hsame⟩ :=
    (readsStage_nodeOf hdescribes hsound.resolved.1 hsound.resolved.2).mpr hwritable
  rw [nodeOf_resolved] at hread
  rwa [h.unique hread]

theorem answerDraft_ok_iff {base : List (String × Value)} {edited : List Value} {applied : ℕ} {result : ToolResult} :
    answerDraft load c fmt base edited applied = result ∧ result.error = none ↔
      ∃ p order, parsePipeline c load (emitValueYaml fmt (rebuildPipeline base edited)) = .ok p ∧
        p.validate = .ok order ∧ result = draftResult (emitValueYaml fmt (rebuildPipeline base edited)) p applied := by
  unfold answerDraft
  dsimp only
  cases hparse : parsePipeline c load (emitValueYaml fmt (rebuildPipeline base edited)) with
  | error err =>
    constructor
    · rintro ⟨rfl, herror⟩
      cases herror
    · rintro ⟨p, order, hp, -⟩
      cases hp
  | ok p =>
    cases hvalidate : p.validate with
    | error errs =>
      dsimp only
      rw [hvalidate]
      constructor
      · rintro ⟨rfl, herror⟩
        cases herror
      · rintro ⟨p', order, hp, horder, -⟩
        obtain rfl := Except.ok.inj hp
        rw [hvalidate] at horder
        cases horder
    | ok order =>
      dsimp only
      rw [hvalidate]
      constructor
      · rintro ⟨rfl, -⟩
        exact ⟨p, order, rfl, hvalidate, rfl⟩
      · rintro ⟨p', order', hp, -, rfl⟩
        obtain rfl := Except.ok.inj hp
        exact ⟨rfl, rfl⟩

theorem applyPipelineDiff_iff {inputs : Value} {result : ToolResult} :
    applyPipelineDiff load c fmt inputs = .ok result ∧ result.error = none ↔
      ∃ base ops edited p order, inputs.find "base" = some (.map base) ∧ inputs.find "ops" = some (.list ops) ∧
        DraftOf load c fmt base ops edited p order ∧
        result = draftResult (emitValueYaml fmt (rebuildPipeline base edited)) p ops.length := by
  constructor
  · rintro ⟨h, herror⟩
    have hrefused : ∀ {r : ToolResult}, Except.ok (ε := Thrown) r = .ok result → r.error ≠ none → False := by
      intro r hr hne
      obtain rfl := Except.ok.inj hr
      exact hne herror
    unfold applyPipelineDiff at h
    split at h
    case h_2 => exact (hrefused h (by simp [invalidArgument])).elim
    case h_1 =>
      split at h
      case h_2 => exact (hrefused h (by simp [invalidArgument])).elim
      case h_1 base hbase =>
        split at h
        case h_2 => exact (hrefused h (by simp [invalidArgument])).elim
        case h_1 ops hops =>
          split at h
          case h_1 => cases h
          case h_2 => exact (hrefused h (by simp [invalidArgument])).elim
          case h_3 edited hedits =>
            obtain ⟨p, order, hparse, hvalidate, hresult⟩ := answerDraft_ok_iff.mp ⟨Except.ok.inj h, herror⟩
            exact ⟨base, ops, edited, p, order, hbase, hops, ⟨applyOps_ok_iff.mp hedits, hparse, hvalidate⟩, hresult⟩
  · rintro ⟨base, ops, edited, p, order, hbase, hops, hdraft, hresult⟩
    have hanswer := answerDraft_ok_iff.mpr ⟨p, order, hdraft.parses, hdraft.validates, hresult⟩
    obtain ⟨fields, rfl, -⟩ := Value.find_eq_some hbase
    have hedits : applyOps (stagesOf (.map base)) 0 ops = .ok edited := applyOps_ok_iff.mpr hdraft.edits
    rw [applyPipelineDiff, hbase, hops]
    dsimp only
    rw [hedits]
    exact ⟨congrArg Except.ok hanswer.1, hanswer.2⟩

theorem renderedStages {edited : List Value} {stages : List Stage} (hsound : ∀ s ∈ edited, Sound (ReadsNumber c fmt) s)
    (h : List.Forall₂ (ReadsStage c) (nodesOf fmt edited) stages) : List.Forall₂ (Rendered c) edited stages := by
  induction edited generalizing stages with
  | nil =>
    cases h
    exact .nil
  | cons item edited ih =>
    rw [nodesOf] at h
    rw [List.forall_mem_cons] at hsound
    cases h with
    | cons hread hreads => exact .cons (rendered_of_readsStage hsound.1 hread) (ih hsound.2 hreads)

theorem same_of_rendered {base : List (String × Value)} {edited : List Value} {read stages : List Stage}
    (h : List.Forall₂ (Rendered c) edited read)
    (hdescribes : Describes (resolved (rebuildPipeline base edited)) stages) (hwritable : ∀ s ∈ stages, Writable c s) :
    List.Forall₂ Stage.Same read stages := by
  obtain ⟨items, hitems, hstages⟩ := hdescribes.stages
  obtain rfl : items = edited.map resolved := by
    have hfind := find_resolved_rebuild base edited
    obtain ⟨fields, hmap, -⟩ := Value.find_eq_some hitems
    rw [hfind ⟨fields, hmap⟩] at hitems
    exact (Value.list.inj (Option.some.inj hitems)).symm
  clear hitems hdescribes
  induction h generalizing stages with
  | nil =>
    cases hstages
    exact .nil
  | cons hrendered _ ih =>
    cases hstages with
    | cons hstage hstages =>
      rw [List.forall_mem_cons] at hwritable
      exact .cons (hrendered _ hstage hwritable.1) (ih hwritable.2 hstages)

theorem parsePipeline_rebuilt (hload : ReadsYaml fun text => (load text).toOption) {base : List (String × Value)}
    (hbase : Sound (ReadsNumber c fmt) (.map base)) (hroot : Unmarked (.map base)) {edited : List Value}
    (hedited : ∀ s ∈ edited, Sound (ReadsNumber c fmt) s) (p : Pipeline) :
    parsePipeline c load (emitValueYaml fmt (rebuildPipeline base edited)) = .ok p ↔
      parseYamlRoot c (nodeOf fmt (rebuildPipeline base edited)) = .ok p := by
  have hdoc := hbase.rebuildPipeline hedited
  have hshaped : CarriedBy fmt (rebuildPipeline base edited) := hdoc.2.mono fun _ h => h.numberShaped
  exact (parsePipeline_emit hload hdoc.1 hshaped (unmarked_rebuildPipeline hroot edited)).ok_iff p

theorem stages_of_parse {base : List (String × Value)} (hbase : Sound (ReadsNumber c fmt) (.map base))
    {edited : List Value} (hedited : ∀ s ∈ edited, Sound (ReadsNumber c fmt) s) {p : Pipeline}
    (h : parseYamlRoot c (nodeOf fmt (rebuildPipeline base edited)) = .ok p) :
    edited ≠ [] ∧ (p.stages.map Stage.id).Nodup ∧ List.Forall₂ (Rendered c) edited p.stages := by
  have hdoc := hbase.rebuildPipeline hedited
  have hkept : ∀ field ∈ Value.emplaceField "stages" (.list edited) (base.filter fun field => field.1 ≠ "stages"),
      Pipeline.Kept field.1 := fun field hfield => ((sound_map_iff.mp hdoc).2 field hfield).1.kept
  have hfind := find_nodeOf fmt hkept "stages"
  have hstages := find_rebuildPipeline base edited "stages"
  rw [if_pos rfl, rebuildPipeline, Value.find] at hstages
  rw [hstages, Option.map_some, nodeOf, nodeOf] at hfind
  rw [rebuildPipeline, nodeOf, parseYamlRoot_ok_iff] at h
  obtain ⟨-, smark, nodes, hnodes, hne, hread⟩ := h
  rw [hfind] at hnodes
  obtain ⟨-, rfl⟩ := Node.sequence.inj (Option.some.inj hnodes)
  rw [parseStages_ok_iff] at hread
  refine ⟨fun hnil => hne ?_, hread.2.1, renderedStages hedited hread.1⟩
  rw [hnil, nodesOf]

end

/-- Inputs of the tool that YAML carries, and whose numbers come through the libraries. -/
structure CarriedInputs (c : Conversions) (fmt : UInt64 → String) (inputs : Value) (base : List (String × Value))
    (ops : List Value) : Prop where
  sound : Sound (fun bits => Double.InRange bits ∧ ReadsNumber c fmt bits) inputs
  hasBase : inputs.find "base" = some (.map base)
  root : Unmarked (.map base)
  hasOps : inputs.find "ops" = some (.list ops)
  keys : CarriesKeys ops

section

variable {load : String → Except LoadFailure Node} {c : Conversions} {fmt : UInt64 → String} {inputs : Value}
  {base : List (String × Value)} {ops : List Value}

theorem CarriedInputs.soundBase (h : CarriedInputs c fmt inputs base ops) : Sound (ReadsNumber c fmt) (.map base) :=
  ⟨(h.sound.find h.hasBase).1, (h.sound.find h.hasBase).2.mono fun _ h => h.2⟩

theorem CarriedInputs.soundEdited (h : CarriedInputs c fmt inputs base ops) {edited : List Value}
    (hedits : Edits ops (stagesOf (.map base)) edited) : ∀ s ∈ edited, Sound (ReadsNumber c fmt) s := by
  refine hedits.sound (fun op hop => ?_) h.keys h.soundBase.stagesOf
  have hsound := sound_list_iff.mp (h.sound.find h.hasOps) op hop
  exact ⟨hsound.1, hsound.2.mono fun _ h => h.2⟩

section Example

def twoStagesBase : List (String × Value) :=
  match twoStagesDoc with
  | .map fields => fields
  | _ => []

def removeOp : Value := .map [("id", .string "mesh"), ("op", .string "remove")]

def removeInputs : Value := .map [("base", twoStagesDoc), ("ops", .list [removeOp])]

def geoStage : Stage := ⟨"geo", "reader.step", .map []⟩

def geoItem : Value := .map [("id", .string "geo"), ("plugin", .string "reader.step")]

theorem removeInputs_carried : CarriedInputs oneConversions sampleFormat removeInputs twoStagesBase [removeOp] where
  sound := by
    have hkeys : (["base", "ops"] : List String).Pairwise (· < ·) := by decide
    have hop : (["id", "op"] : List String).Pairwise (· < ·) := by decide
    have hkey : ∀ key ∈ ["base", "ops", "id", "op"], CarriedKey key := by
      intro key hkey
      simp only [List.mem_cons, List.not_mem_nil, or_false] at hkey
      rcases hkey with rfl | rfl | rfl | rfl <;> exact ⟨by decide, by decide, by decide⟩
    have hmesh : CarriedText "mesh" := by decide
    have hremove : CarriedText "remove" := by decide
    exact ⟨⟨hkeys, twoStagesDoc_ordered, ⟨⟨hop, trivial, trivial, trivial⟩, trivial⟩, trivial⟩,
      hkey _ (by simp), twoStagesDoc_carried, hkey _ (by simp),
      ⟨⟨hkey _ (by simp), hmesh, hkey _ (by simp), hremove, trivial⟩, trivial⟩, trivial⟩
  hasBase := rfl
  root := twoStagesDoc_unmarked
  hasOps := rfl
  keys := by
    intro op hop key hkey
    rw [List.mem_singleton.mp hop] at hkey
    cases hkey

theorem removeOp_edits : Edits [removeOp] (stagesOf (.map twoStagesBase)) [geoItem] := by
  have hops : applyOps (stagesOf (.map twoStagesBase)) 0 [removeOp] = .ok [geoItem] := rfl
  exact applyOps_ok_iff.mp hops

theorem geoStage_writable : ∀ s ∈ [geoStage], Writable oneConversions s := by
  intro s hs
  rw [List.mem_singleton.mp hs]
  exact ⟨⟨by decide, by decide⟩, ⟨by decide, by decide⟩, rfl, trivial⟩

theorem geoDoc_describes : Describes (resolved (rebuildPipeline twoStagesBase [geoItem])) [geoStage] where
  version := ⟨0x3FF0000000000000, rfl, by decide +kernel⟩
  stages := ⟨_, rfl, .cons ⟨rfl, rfl, rfl, _, rfl⟩ .nil⟩

end Example

/-- The draft that the tool answers with is parsed to a pipeline that has a schedule. Its stages are those that the ops
make of the base, in their order, each as it is written whenever it can be; and the stages that no op names are those of
the base. -/
theorem apply_pipeline_diff_contents (hload : ReadsYaml fun text => (load text).toOption)
    (hinputs : CarriedInputs c fmt inputs base ops) {result : ToolResult}
    (h : applyPipelineDiff load c fmt inputs = .ok result) (hok : result.error = none) :
    ∃ yaml edited p order, result.data.find "yaml" = some (.string yaml) ∧ Edits ops (stagesOf (.map base)) edited ∧
      parsePipeline c load yaml = .ok p ∧ p.Ordered order ∧ (p.stages.map Stage.id).Nodup ∧
      List.Forall₂ (Rendered c) edited p.stages ∧
      edited.filter (untouched ops) = (stagesOf (.map base)).filter (untouched ops) := by
  obtain ⟨base', ops', edited, p, order, hbase, hops, hdraft, rfl⟩ := applyPipelineDiff_iff.mp ⟨h, hok⟩
  obtain rfl : base' = base := Value.map.inj (Option.some.inj (hbase.symm.trans hinputs.hasBase))
  obtain rfl : ops' = ops := Value.list.inj (Option.some.inj (hops.symm.trans hinputs.hasOps))
  have hedited := hinputs.soundEdited hdraft.edits
  have hparse := (parsePipeline_rebuilt hload hinputs.soundBase hinputs.root hedited p).mp hdraft.parses
  obtain ⟨-, hnodup, hrendered⟩ := stages_of_parse hinputs.soundBase hedited hparse
  exact ⟨_, edited, p, order, rfl, hdraft.edits, hdraft.parses, Pipeline.validate_ordered hdraft.validates, hnodup,
    hrendered, hdraft.edits.untouched⟩

section Example

theorem apply_pipeline_diff_contents_remove : ∃ result,
    applyPipelineDiff loadText oneConversions sampleFormat removeInputs = .ok result ∧
    ∃ yaml edited p order, result.data.find "yaml" = some (.string yaml) ∧
      Edits [removeOp] (stagesOf (.map twoStagesBase)) edited ∧ parsePipeline oneConversions loadText yaml = .ok p ∧
      p.Ordered order ∧ (p.stages.map Stage.id).Nodup ∧ List.Forall₂ (Rendered oneConversions) edited p.stages ∧
      edited.filter (untouched [removeOp]) = (stagesOf (.map twoStagesBase)).filter (untouched [removeOp]) := by
  have hinputs := removeInputs_carried
  have hedited := hinputs.soundEdited removeOp_edits
  have hdoc := (hinputs.soundBase.rebuildPipeline hedited).resolved
  have hread := parseYamlRoot_nodeOf (c := oneConversions) rfl hdoc.1 hdoc.2 geoDoc_describes
  obtain ⟨p, hparse, hsame⟩ := hread.mpr ⟨by simp, by simp, geoStage_writable⟩
  rw [nodeOf_resolved] at hparse
  have hvalidate : (Pipeline.mk [geoStage]).validate = .ok [0] := by decide +kernel
  obtain ⟨h, hok⟩ := applyPipelineDiff_iff.mpr ⟨twoStagesBase, [removeOp], [geoItem], p, [0], hinputs.hasBase,
    hinputs.hasOps, ⟨removeOp_edits,
      (parsePipeline_rebuilt loadText_reads hinputs.soundBase hinputs.root hedited p).mpr hparse,
      (Pipeline.validate_same (q := ⟨[geoStage]⟩) hsame).trans hvalidate⟩, rfl⟩
  exact ⟨_, h, apply_pipeline_diff_contents loadText_reads hinputs h hok⟩

end Example

/-- The tool answers with a draft exactly when the stages that the edited document describes, all of which can be
written, are a well-formed pipeline. -/
theorem apply_pipeline_diff_decides (hload : ReadsYaml fun text => (load text).toOption)
    (hone : c.asInt64 "1" = some 1) (hinputs : CarriedInputs c fmt inputs base ops) {edited : List Value}
    (hedits : Edits ops (stagesOf (.map base)) edited) {stages : List Stage}
    (hdescribes : Describes (resolved (rebuildPipeline base edited)) stages) (hwritable : ∀ s ∈ stages, Writable c s) :
    (∃ result, applyPipelineDiff load c fmt inputs = .ok result ∧ result.error = none) ↔
      stages ≠ [] ∧ (Pipeline.mk stages).WellFormed := by
  have hedited := hinputs.soundEdited hedits
  have hrebuilt := parsePipeline_rebuilt hload hinputs.soundBase hinputs.root hedited
  have hdoc := (hinputs.soundBase.rebuildPipeline hedited).resolved
  have hread := parseYamlRoot_nodeOf hone hdoc.1 hdoc.2 hdescribes
  rw [nodeOf_resolved] at hread
  constructor
  · rintro ⟨result, h, hok⟩
    obtain ⟨base', ops', edited', p, order, hbase, hops, hdraft, -⟩ := applyPipelineDiff_iff.mp ⟨h, hok⟩
    obtain rfl : base' = base := Value.map.inj (Option.some.inj (hbase.symm.trans hinputs.hasBase))
    obtain rfl : ops' = ops := Value.list.inj (Option.some.inj (hops.symm.trans hinputs.hasOps))
    obtain rfl : edited' = edited := hdraft.edits.unique hedits
    have hparse := (hrebuilt p).mp hdraft.parses
    obtain ⟨hne, hnodup, hrendered⟩ := stages_of_parse hinputs.soundBase hedited hparse
    have hsame := same_of_rendered hrendered hdescribes hwritable
    have hlength := hrendered.length_eq.trans hsame.length_eq
    have hvalidate : (Pipeline.mk stages).validate = .ok order :=
      (Pipeline.validate_same (q := ⟨stages⟩) hsame).symm.trans hdraft.validates
    refine ⟨fun hnil => hne ?_, (Pipeline.validate_ok hvalidate).1⟩
    rw [hnil, List.length_nil, List.length_eq_zero_iff] at hlength
    exact hlength
  · rintro ⟨hne, hwf⟩
    obtain ⟨p, hparse, hsame⟩ := hread.mpr ⟨hne, hwf.distinct, hwritable⟩
    obtain ⟨order, horder, -⟩ := hwf.validate_least
    have hvalidate : p.validate = .ok order := (Pipeline.validate_same (q := ⟨stages⟩) hsame).trans horder
    exact ⟨_, applyPipelineDiff_iff.mpr ⟨base, ops, edited, p, order, hinputs.hasBase, hinputs.hasOps,
      ⟨hedits, (hrebuilt p).mpr hparse, hvalidate⟩, rfl⟩⟩

end

section Example

theorem apply_pipeline_diff_decides_remove :
    (∃ result, applyPipelineDiff loadText oneConversions sampleFormat removeInputs = .ok result ∧
        result.error = none) ↔ [geoStage] ≠ [] ∧ (Pipeline.mk [geoStage]).WellFormed :=
  apply_pipeline_diff_decides loadText_reads rfl removeInputs_carried removeOp_edits geoDoc_describes geoStage_writable

end Example

end Souxmar.Ai
