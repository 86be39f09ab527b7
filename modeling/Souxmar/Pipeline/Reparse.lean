import Souxmar.Pipeline.Parser
import Souxmar.Pipeline.ReaderAgreement
import Souxmar.Pipeline.RoundTrip

/-!
# Pipelines through YAML and back

`parse_pipeline` on the text of `emit_value_yaml`. This reader looks at the tag of a scalar, so a string in quotes comes
back as itself, and one without quotes unless its text is a number or one of the booleans that are not put in quotes.
-/

set_option linter.dupNamespace false

namespace Souxmar.Pipeline

open Souxmar.Lib Souxmar.Lib.Yaml

/-! ## Values -/

/-- The string is read as itself by the pipeline parser. -/
def Textual (c : Conversions) (s : String) : Prop :=
  Kept s ∧ (needsQuotes s = true ∨
    (s ≠ "True" ∧ s ≠ "False" ∧ (c.asDouble s = none ∨ s.toList.all numericChar = false)))

mutual

/-- No string is taken for something else, no map for a reference, and no reference is empty. -/
def Reparsable (c : Conversions) : Value → Prop
  | .string s => Textual c s
  | .stage stageId => Kept stageId ∧ stageId.isEmpty = false
  | .list items => ReparsableItems c items
  | .map fields => referenceLike fields = false ∧ ReparsableFields c fields
  | _ => True

def ReparsableItems (c : Conversions) : List Value → Prop
  | [] => True
  | item :: items => Reparsable c item ∧ ReparsableItems c items

def ReparsableFields (c : Conversions) : List (String × Value) → Prop
  | [] => True
  | (_, child) :: fields => Reparsable c child ∧ ReparsableFields c fields

end

theorem reparsableItems_iff {c : Conversions} {items : List Value} :
    ReparsableItems c items ↔ ∀ item ∈ items, Reparsable c item := by
  induction items with
  | nil => simp [ReparsableItems]
  | cons item items ih => simp [ReparsableItems, ih]

theorem reparsableFields_iff {c : Conversions} {fields : List (String × Value)} :
    ReparsableFields c fields ↔ ∀ field ∈ fields, Reparsable c field.2 := by
  induction fields with
  | nil => simp [ReparsableFields]
  | cons field fields ih => simp [ReparsableFields, ih]

section

variable {c : Conversions} {fmt : UInt64 → String}

/-- What the pipeline parser makes of the node of the value. -/
def Reparses (c : Conversions) (fmt : UInt64 → String) (v : Value) : Prop :=
  ∃ v', toValue c (nodeOf fmt v) = .ok v' ∧ v'.equal v = true

theorem needsQuotes_lower {s : String} (h : s = "true" ∨ s = "false") : needsQuotes s = true := by
  rcases h with rfl | rfl <;> decide

theorem scalarToValue_plain (text s : String) : (scalarToValue c plainTag text).equal (.string s) = true ↔
    text = s ∧ (text ≠ "true" ∧ text ≠ "True") ∧ (text ≠ "false" ∧ text ≠ "False") ∧
      (c.asDouble text = none ∨ text.toList.all numericChar = false) := by
  have htag : ¬plainTag = quotedTag := by decide
  unfold scalarToValue
  rw [if_neg htag]
  by_cases htrue : text = "true" ∨ text = "True"
  · rw [if_pos htrue]
    simp only [Value.equal, Bool.false_eq_true, false_iff, not_and]
    tauto
  rw [if_neg htrue]
  by_cases hfalse : text = "false" ∨ text = "False"
  · rw [if_pos hfalse]
    simp only [Value.equal, Bool.false_eq_true, false_iff, not_and]
    tauto
  rw [if_neg hfalse]
  rw [not_or] at htrue hfalse
  cases hdouble : c.asDouble text with
  | none => simp [Value.equal, htrue, hfalse]
  | some d =>
    cases hnumeric : text.toList.all numericChar with
    | true => simp [Value.equal]
    | false => simp [Value.equal, htrue, hfalse]

theorem reparses_string (s : String) : Reparses c fmt (.string s) ↔ Textual c s := by
  unfold Reparses Textual
  rw [nodeOf]
  by_cases hquotes : needsQuotes s = true
  · have hnode : scalarNode s = .scalar noMark quotedTag s := by
      rw [scalarNode, if_pos hquotes, quotedNode, String.ofList_toList]
    rw [hnode, toValue, scalarToValue, if_pos rfl]
    exact iff_of_true ⟨.string s, rfl, by simp [Value.equal]⟩ ⟨.inl hquotes, .inl hquotes⟩
  · rcases scalarNode_cases s with ⟨tag, hnode, hkept⟩ | ⟨hlost, hnode | ⟨text, hnode, hne⟩⟩
    · have htag : tag = plainTag := by
        have hplain : scalarNode s = plainNode (String.ofList (strip s.toList)) := if_neg hquotes
        rw [hplain, plainNode] at hnode
        split_ifs at hnode
        exact (Node.scalar.inj hnode).2.1.symm
      have hlower : s ≠ "true" ∧ s ≠ "false" := by
        constructor
        · exact fun h => hquotes (needsQuotes_lower (.inl h))
        · exact fun h => hquotes (needsQuotes_lower (.inr h))
      rw [hnode, toValue, htag]
      constructor
      · rintro ⟨v', hv', hequal⟩
        rw [← Except.ok.inj hv', scalarToValue_plain] at hequal
        obtain ⟨-, ⟨-, htrue⟩, ⟨-, hfalse⟩, hnumber⟩ := hequal
        exact ⟨hkept, .inr ⟨htrue, hfalse, hnumber⟩⟩
      · rintro ⟨-, hquoted | ⟨htrue, hfalse, hnumber⟩⟩
        · exact absurd hquoted hquotes
        · exact ⟨_, rfl, (scalarToValue_plain s s).mpr ⟨rfl, ⟨hlower.1, htrue⟩, ⟨hlower.2, hfalse⟩, hnumber⟩⟩
    · rw [hnode, toValue]
      refine iff_of_false ?_ fun h => hlost h.1
      rintro ⟨v', hv', hequal⟩
      rw [← Except.ok.inj hv'] at hequal
      cases hequal
    · rw [hnode, toValue]
      refine iff_of_false ?_ fun h => hlost h.1
      rintro ⟨v', hv', hequal⟩
      rw [← Except.ok.inj hv', scalarToValue_plain] at hequal
      exact hne hequal.1

theorem reparses_stage (id : String) : Reparses c fmt (.stage id) ↔ Kept id ∧ id.isEmpty = false := by
  unfold Reparses
  rw [nodeOf]
  rcases scalarNode_cases id with ⟨tag, hnode, hkept⟩ | ⟨hlost, hnode | ⟨text, hnode, hne⟩⟩
  · have href : recogniseStageRef (.map noMark [(fromKey, .scalar noMark tag id)]) = some id := by
      simp [recogniseStageRef, fromKey]
    rw [hnode, toValue, href]
    dsimp only
    cases hempty : id.isEmpty with
    | true =>
      refine iff_of_false ?_ fun h => Bool.noConfusion h.2
      rintro ⟨v', hv', -⟩
      rw [if_pos rfl] at hv'
      cases hv'
    | false =>
      rw [if_neg Bool.false_ne_true]
      exact iff_of_true ⟨.stage id, rfl, by simp [Value.equal]⟩ ⟨hkept, rfl⟩
  · have href : recogniseStageRef (.map noMark [(fromKey, .null noMark)]) = none := rfl
    rw [hnode, toValue, href]
    refine iff_of_false ?_ fun h => hlost h.1
    rintro ⟨v', hv', hequal⟩
    obtain ⟨fields, -, rfl⟩ := except_map_eq_ok hv'
    cases hequal
  · have href : recogniseStageRef (.map noMark [(fromKey, .scalar noMark plainTag text)]) = some text := by
      simp [recogniseStageRef, fromKey]
    rw [hnode, toValue, href]
    refine iff_of_false ?_ fun h => hlost h.1
    rintro ⟨v', hv', hequal⟩
    dsimp only at hv'
    split_ifs at hv'
    rw [← Except.ok.inj hv'] at hequal
    exact hne (of_decide_eq_true hequal)

theorem reparses_boolean (b : Bool) : Reparses c fmt (.boolean b) := by
  refine ⟨.boolean b, ?_, by simp [Value.equal]⟩
  have htag : ¬plainTag = quotedTag := by decide
  rw [nodeOf, toValue, scalarToValue, if_neg htag]
  cases b with
  | true => rfl
  | false => rfl

theorem reparses_number {bits : UInt64} (h : ReadsNumber c fmt bits) : Reparses c fmt (.number bits) := by
  obtain ⟨d, hd, hequal⟩ := h.reads
  have hchars := h.numberShaped.chars
  have hword : ∀ word : String, word ∈ ["true", "True", "false", "False"] → numberText fmt bits ≠ word := by
    rintro word hword heq
    have hnot : ∀ word ∈ ["true", "True", "false", "False"], ¬∀ c ∈ word.toList, numericChar c = true := by decide
    exact hnot word hword (heq ▸ hchars)
  have htag : ¬plainTag = quotedTag := by decide
  refine ⟨.number d, ?_, hequal⟩
  rw [nodeOf, toValue, scalarToValue, if_neg htag, if_neg, if_neg, hd]
  · exact congrArg Except.ok (if_pos (List.all_eq_true.mpr hchars))
  · rintro (heq | heq)
    · exact hword "false" (by decide) heq
    · exact hword "False" (by decide) heq
  · rintro (heq | heq)
    · exact hword "true" (by decide) heq
    · exact hword "True" (by decide) heq

theorem reparses_list {items : List Value} :
    Reparses c fmt (.list items) ↔ ∀ item ∈ items, Reparses c fmt item := by
  have hitems : (∃ vs, toValues c (nodesOf fmt items) = .ok vs ∧ Value.equalItems vs items = true) ↔
      ∀ item ∈ items, Reparses c fmt item := by
    induction items with
    | nil => exact iff_of_true ⟨[], rfl, rfl⟩ fun _ h => nomatch h
    | cons item items ih =>
      rw [List.forall_mem_cons, ← ih, nodesOf, toValues]
      constructor
      · rintro ⟨vs, hread, hequal⟩
        obtain ⟨v, hv, hread⟩ := except_bind_eq_ok hread
        obtain ⟨rest, hrest, rfl⟩ := except_map_eq_ok hread
        rw [Value.equalItems, Bool.and_eq_true] at hequal
        exact ⟨⟨v, hv, hequal.1⟩, rest, hrest, hequal.2⟩
      · rintro ⟨⟨v, hv, hequal⟩, rest, hrest, hequals⟩
        refine ⟨v :: rest, by rw [hv, hrest]; rfl, ?_⟩
        rw [Value.equalItems, hequal, hequals]
        rfl
  rw [← hitems]
  unfold Reparses
  rw [nodeOf, toValue]
  constructor
  · rintro ⟨v, hread, hequal⟩
    obtain ⟨vs, hvs, rfl⟩ := except_map_eq_ok hread
    exact ⟨vs, hvs, hequal⟩
  · rintro ⟨vs, hvs, hequal⟩
    exact ⟨.list vs, by rw [hvs]; rfl, hequal⟩

/-- What is read of the fields of a map. -/
def rereadFields (c : Conversions) (fmt : UInt64 → String) :
    List (String × Value) → Except ParseError (List (String × Value))
  | [] => .ok []
  | field :: fields =>
    (toValue c (nodeOf fmt field.2)).bind fun v => (rereadFields c fmt fields).map fun read => (field.1, v) :: read

theorem toFields_entriesOf {fields : List (String × Value)} (hkept : ∀ field ∈ fields, Kept field.1) :
    ∀ before : List (String × Value), Value.Ascending (before ++ fields) →
      toFields c (entriesOf fmt fields) before = (rereadFields c fmt fields).map (before ++ ·) := by
  induction fields with
  | nil =>
    intro before _
    show Except.ok before = Except.ok (before ++ [])
    rw [List.append_nil]
  | cons field fields ih =>
    intro before hascending
    obtain ⟨key, child⟩ := field
    obtain ⟨tag, hkey⟩ := scalarNode_kept (hkept (key, child) List.mem_cons_self)
    have htail := ih fun field hfield => hkept field (List.mem_cons_of_mem _ hfield)
    rw [entriesOf, hkey, toFields, rereadFields]
    cases hread : toValue c (nodeOf fmt child) with
    | error e => rfl
    | ok v =>
      have hlast : ∀ field ∈ before, field.1 < key := by
        intro field hfield
        rw [Value.Ascending, List.map_append, List.pairwise_append] at hascending
        exact hascending.2.2 field.1 (List.mem_map_of_mem hfield) key List.mem_cons_self
      have hnext : Value.Ascending ((before ++ [(key, v)]) ++ fields) := by
        simpa [Value.Ascending] using hascending
      show toFields c (entriesOf fmt fields) (Value.emplaceField key v before) = _
      rw [emplaceField_last v hlast, htail _ hnext]
      cases rereadFields c fmt fields with
      | error e => rfl
      | ok read =>
        show Except.ok (before ++ [(key, v)] ++ read) = Except.ok (before ++ (key, v) :: read)
        rw [List.append_assoc]
        rfl

theorem reparses_fields {fields : List (String × Value)} : (∃ read,
      rereadFields c fmt fields = .ok read ∧ Value.equalFields read fields = true) ↔
    ∀ field ∈ fields, Reparses c fmt field.2 := by
  induction fields with
  | nil => exact iff_of_true ⟨[], rfl, rfl⟩ fun _ h => nomatch h
  | cons field fields ih =>
    rw [List.forall_mem_cons, ← ih, rereadFields]
    constructor
    · rintro ⟨read, hread, hequal⟩
      obtain ⟨v, hv, hread⟩ := except_bind_eq_ok hread
      obtain ⟨rest, hrest, rfl⟩ := except_map_eq_ok hread
      rw [Value.equalFields, Bool.and_eq_true, Bool.and_eq_true] at hequal
      exact ⟨⟨v, hv, hequal.1.2⟩, rest, hrest, hequal.2⟩
    · rintro ⟨⟨v, hv, hequal⟩, rest, hrest, hequals⟩
      refine ⟨(field.1, v) :: rest, by rw [hv, hrest]; rfl, ?_⟩
      rw [Value.equalFields, hequal, hequals]
      simp

theorem not_reparses_reference {fields : List (String × Value)} (h : referenceLike fields = true) :
    ¬Reparses c fmt (.map fields) := by
  rintro ⟨v, hread, hequal⟩
  obtain _ | ⟨⟨key, child⟩, _ | ⟨_, _⟩⟩ := fields
  · cases h
  rotate_left
  · cases h
  simp only [referenceLike, Bool.and_eq_true, decide_eq_true_eq] at h
  obtain ⟨rfl, hscalar⟩ := h
  obtain ⟨tag, hkey⟩ := scalarNode_kept (s := "from") (by decide)
  rw [nodeOf, entriesOf, entriesOf, hkey] at hread
  rcases @nodeOf_scalar fmt child hscalar with ⟨tag', text, hnode⟩ | ⟨s, rfl, hnode⟩
  · rw [hnode, toValue, recogniseStageRef, if_pos rfl] at hread
    dsimp only at hread
    split_ifs at hread
    rw [← Except.ok.inj hread] at hequal
    cases hequal
  · rw [hnode, toValue, recogniseStageRef] at hread
    · obtain ⟨read, hfields, rfl⟩ := except_map_eq_ok hread
      rw [toFields, toValue] at hfields
      rw [← Except.ok.inj hfields] at hequal
      simp [Value.emplaceField, Value.equal, Value.equalFields] at hequal
    · simp

theorem reparses_map {fields : List (String × Value)} (hkept : ∀ field ∈ fields, Kept field.1)
    (hascending : Value.Ascending fields) : Reparses c fmt (.map fields) ↔
      referenceLike fields = false ∧ ∀ field ∈ fields, Reparses c fmt field.2 := by
  have hread : ∀ plain : recogniseStageRef (nodeOf fmt (.map fields)) = none,
      Reparses c fmt (.map fields) ↔ ∀ field ∈ fields, Reparses c fmt field.2 := by
    intro hplain
    have hfields : toFields c (entriesOf fmt fields) [] = (rereadFields c fmt fields).map ([] ++ ·) :=
      toFields_entriesOf hkept [] hascending
    rw [← reparses_fields]
    unfold Reparses
    rw [nodeOf] at hplain ⊢
    rw [toValue, hplain, hfields]
    cases rereadFields c fmt fields with
    | error e =>
      constructor
      · rintro ⟨v, hv, -⟩
        cases hv
      · rintro ⟨read, hread, -⟩
        cases hread
    | ok read =>
      constructor
      · rintro ⟨v, hv, hequal⟩
        rw [← Except.ok.inj hv] at hequal
        exact ⟨read, rfl, hequal⟩
      · rintro ⟨read', hread', hequal⟩
        obtain rfl := Except.ok.inj hread'
        exact ⟨.map read, rfl, hequal⟩
  cases hreference : referenceLike fields with
  | false =>
    rw [hread (recogniseStageRef_nodeOf hkept hreference)]
    exact (and_iff_right rfl).symm
  | true => exact iff_of_false (not_reparses_reference hreference) fun h => Bool.noConfusion h.1

theorem reparses_iff {v : Value} (hordered : v.Ordered) (hcarried : Carried (ReadsNumber c fmt) v) :
    Reparses c fmt v ↔ Reparsable c v := by
  induction v with
  | null => exact iff_of_true ⟨.null, rfl, rfl⟩ trivial
  | boolean b => exact iff_of_true (reparses_boolean b) trivial
  | number bits => exact iff_of_true (reparses_number hcarried) trivial
  | string s => exact reparses_string s
  | stage id => exact reparses_stage id
  | list items ih =>
    rw [Value.Ordered, Value.orderedItems_iff] at hordered
    rw [Carried, carriedItems_iff] at hcarried
    rw [reparses_list, Reparsable, reparsableItems_iff]
    exact forall₂_congr fun item hitem => ih item hitem (hordered item hitem) (hcarried item hitem)
  | map fields ih =>
    rw [Value.Ordered, Value.orderedFields_iff] at hordered
    rw [Carried, carriedFields_iff] at hcarried
    have hkept : ∀ field ∈ fields, Kept field.1 := fun field hfield => (hcarried field hfield).1.kept
    have hfields : (∀ field ∈ fields, Reparses c fmt field.2) ↔ ∀ field ∈ fields, Reparsable c field.2 :=
      forall₂_congr fun field hfield => ih field hfield (hordered.2 field hfield) (hcarried field hfield).2
    rw [reparses_map hkept hordered.1, Reparsable, reparsableFields_iff, hfields]

end

/-! ## Places in the text -/

/-- The same result up to the error. -/
def Agree {ε ε' α : Type} (x : Except ε α) (y : Except ε' α) : Prop := x.toOption = y.toOption

theorem Agree.bind {ε ε' α β : Type} {x : Except ε α} {y : Except ε' α} {f : α → Except ε β} {g : α → Except ε' β}
    (h : Agree x y) (hrest : ∀ a, Agree (f a) (g a)) : Agree (x.bind f) (y.bind g) := by
  cases x with
  | error e =>
    cases y with
    | error e' => rfl
    | ok b => cases h
  | ok a =>
    cases y with
    | error e' => cases h
    | ok b =>
      obtain rfl : a = b := Option.some.inj h
      exact hrest a

theorem Agree.map {ε ε' α β : Type} {x : Except ε α} {y : Except ε' α} (h : Agree x y) (f : α → β) :
    Agree (x.map f) (y.map f) := by
  have hbind : ∀ {ε : Type} (x : Except ε α), x.map f = x.bind fun a => .ok (f a) := by
    intro ε x
    cases x <;> rfl
  rw [hbind, hbind]
  exact h.bind fun a => rfl

theorem Agree.ok_iff {ε ε' α : Type} {x : Except ε α} {y : Except ε' α} (h : Agree x y) (a : α) :
    x = .ok a ↔ y = .ok a := by
  cases x with
  | error e =>
    cases y with
    | error e' => exact iff_of_false (fun h => by cases h) fun h => by cases h
    | ok b => cases h
  | ok b =>
    cases y with
    | error e' => cases h
    | ok b' =>
      obtain rfl : b = b' := Option.some.inj h
      exact ⟨fun h => by cases h; rfl, fun h => by cases h; rfl⟩

section

variable (c : Conversions)

theorem toValue_unmark (node : Node) : Agree (toValue c node.unmark) (toValue c node) := by
  induction node with
  | undefined mark => rfl
  | null mark => rfl
  | scalar mark tag text => rfl
  | sequence mark items ih =>
    have hitems : Agree (toValues c (Node.unmarkItems items)) (toValues c items) := by
      induction items with
      | nil => rfl
      | cons item items ihs =>
        have hrest := ihs fun node hnode => ih node (List.mem_cons_of_mem _ hnode)
        exact (ih item List.mem_cons_self).bind fun v => hrest.map _
    exact hitems.map _
  | map mark entries ih =>
    have hentries : ∀ fields, Agree (toFields c (Node.unmarkEntries entries) fields) (toFields c entries fields) := by
      have hread : ∀ kv ∈ entries, Agree (toValue c kv.2.unmark) (toValue c kv.2) := fun kv hkv => (ih kv hkv).2
      clear ih
      induction entries with
      | nil => exact fun _ => rfl
      | cons kv entries ihs =>
        intro fields
        obtain ⟨key, value⟩ := kv
        have htail := ihs fun kv hkv => hread kv (List.mem_cons_of_mem _ hkv)
        cases key with
        | scalar _ _ text =>
          exact (hread (.scalar _ _ text, value) List.mem_cons_self).bind fun v => htail _
        | _ => rfl
    have href := recogniseStageRef_unmark mark entries
    rw [Node.unmark] at href ⊢
    rw [toValue, toValue, href]
    cases recogniseStageRef (.map mark entries) with
    | none => exact (hentries []).map _
    | some id =>
      dsimp only
      split_ifs <;> rfl

theorem find_unmark (key : String) (node : Node) : node.unmark.find key = (node.find key).map Node.unmark := by
  cases node with
  | map mark entries =>
    rw [Node.unmark, Node.find, Node.find]
    induction entries with
    | nil => rfl
    | cons entry entries ih =>
      obtain ⟨k, value⟩ := entry
      rw [Node.unmarkEntries, List.find?_cons, List.find?_cons]
      cases k with
      | scalar _ _ text =>
        by_cases htext : text = key
        · simp [Node.unmark, htext]
        · simpa [Node.unmark, htext] using ih
      | _ => simpa [Node.unmark] using ih
  | _ => rfl

theorem requiredText_unmark (node : Node) (key missing : String) :
    Agree (requiredText node.unmark key missing) (requiredText node key missing) := by
  unfold requiredText
  rw [find_unmark]
  cases node.find key with
  | none => rfl
  | some found =>
    cases found with
    | scalar mark tag text =>
      show Agree (ite _ _ _) (ite _ _ _)
      split_ifs <;> rfl
    | _ => rfl

theorem stageInput_unmark (node : Node) (id : String) : Agree (stageInput c node.unmark id) (stageInput c node id) := by
  unfold stageInput
  rw [find_unmark]
  cases node.find "input" with
  | none => rfl
  | some input =>
    have hread := toValue_unmark c input
    dsimp only [Option.map_some]
    cases hv : toValue c input with
    | error e =>
      cases hv' : toValue c input.unmark with
      | error e' => rfl
      | ok v' =>
        rw [hv, hv'] at hread
        cases hread
    | ok v =>
      rw [(hread.ok_iff v).mpr hv]
      cases v <;> rfl

theorem parseStage_unmark (seenIds : List String) (node : Node) :
    Agree (parseStage c seenIds node.unmark) (parseStage c seenIds node) := by
  cases node with
  | map mark entries =>
    refine (requiredText_unmark (.map mark entries) _ _).bind fun id => ?_
    by_cases hseen : id ∈ seenIds
    · simp only [hseen, if_true]
      rfl
    · simp only [hseen, if_false]
      exact (requiredText_unmark (.map mark entries) _ _).bind fun plugin =>
        (stageInput_unmark c (.map mark entries) id).bind fun input => rfl
  | _ => rfl

theorem parseStages_unmark (nodes : List Node) : ∀ seenIds : List String,
    Agree (parseStages c seenIds (Node.unmarkItems nodes)) (parseStages c seenIds nodes) := by
  induction nodes with
  | nil => exact fun _ => rfl
  | cons node nodes ih =>
    intro seenIds
    exact (parseStage_unmark c seenIds node).bind fun stage => (ih (stage.id :: seenIds)).bind fun stages => rfl

theorem parseVersion_unmark (root : Node) : Agree (parseVersion c root.unmark) (parseVersion c root) := by
  unfold parseVersion
  rw [find_unmark]
  cases root.find "version" with
  | none => rfl
  | some found =>
    cases found with
    | scalar mark tag text =>
      dsimp only [Option.map_some, Node.unmark]
      cases c.asInt64 text with
      | none => rfl
      | some n =>
        dsimp only
        split_ifs <;> rfl
    | _ => rfl

theorem parseYamlRoot_unmark (root : Node) : Agree (parseYamlRoot c root.unmark) (parseYamlRoot c root) := by
  cases root with
  | map mark entries =>
    refine (parseVersion_unmark c (.map mark entries)).bind fun _ => ?_
    have hfind := find_unmark "stages" (.map mark entries)
    rw [Node.unmark] at hfind
    rw [hfind]
    cases (Node.map mark entries).find "stages" with
    | none => rfl
    | some found =>
      cases found with
      | sequence smark nodes =>
        cases nodes with
        | nil => rfl
        | cons node nodes => exact (parseStages_unmark c (node :: nodes) []).bind fun stages => rfl
      | _ => rfl
  | _ => rfl

end

/-! ## Stages -/

/-- What a parsed stage says of its node. -/
structure ReadsStage (c : Conversions) (node : Node) (s : Stage) : Prop where
  mapping : ∃ mark entries, node = .map mark entries
  id : requiredText node "id" "stage missing required `id`" = .ok s.id
  plugin : requiredText node "plugin" ("stage '" ++ s.id ++ "' missing required `plugin`") = .ok s.plugin
  input : stageInput c node s.id = .ok s.input

section

variable {c : Conversions}

theorem ReadsStage.unique {node : Node} {s s' : Stage} (h : ReadsStage c node s) (h' : ReadsStage c node s') :
    s = s' := by
  obtain ⟨id, plugin, input⟩ := s
  obtain ⟨id', plugin', input'⟩ := s'
  obtain rfl : id = id' := Except.ok.inj (h.id.symm.trans h'.id)
  obtain rfl : plugin = plugin' := Except.ok.inj (h.plugin.symm.trans h'.plugin)
  obtain rfl : input = input' := Except.ok.inj (h.input.symm.trans h'.input)
  rfl

theorem parseStage_ok_iff {seenIds : List String} {node : Node} {s : Stage} :
    parseStage c seenIds node = .ok s ↔ ReadsStage c node s ∧ s.id ∉ seenIds := by
  constructor
  · intro h
    cases node with
    | map mark entries =>
      obtain ⟨id, hid, h⟩ := except_bind_eq_ok h
      by_cases hseen : id ∈ seenIds
      · simp only [hseen, if_true] at h
        cases h
      simp only [hseen, if_false] at h
      obtain ⟨plugin, hplugin, h⟩ := except_bind_eq_ok h
      obtain ⟨input, hinput, h⟩ := except_bind_eq_ok h
      obtain rfl := Except.ok.inj h
      exact ⟨⟨⟨mark, entries, rfl⟩, hid, hplugin, hinput⟩, hseen⟩
    | _ => cases h
  · rintro ⟨⟨⟨mark, entries, rfl⟩, hid, hplugin, hinput⟩, hseen⟩
    unfold parseStage
    dsimp only
    rw [hid]
    show ite _ _ _ = _
    rw [if_neg hseen, hplugin]
    show (stageInput c _ _).bind _ = _
    rw [hinput]
    rfl

theorem parseStages_ok_iff {nodes : List Node} : ∀ {seenIds : List String} {stages : List Stage},
    parseStages c seenIds nodes = .ok stages ↔ List.Forall₂ (ReadsStage c) nodes stages ∧
      (stages.map Stage.id).Nodup ∧ ∀ s ∈ stages, s.id ∉ seenIds := by
  induction nodes with
  | nil =>
    intro seenIds stages
    rw [parseStages, List.forall₂_nil_left_iff]
    constructor
    · intro h
      obtain rfl := Except.ok.inj h
      exact ⟨rfl, List.nodup_nil, fun _ h => nomatch h⟩
    · rintro ⟨rfl, -⟩
      rfl
  | cons node nodes ih =>
    intro seenIds stages
    rw [parseStages]
    constructor
    · intro h
      obtain ⟨s, hs, h⟩ := except_bind_eq_ok h
      obtain ⟨rest, hrest, h⟩ := except_bind_eq_ok h
      obtain rfl := Except.ok.inj h
      rw [parseStage_ok_iff] at hs
      rw [ih] at hrest
      obtain ⟨hread, hnodup, hnew⟩ := hrest
      simp only [List.mem_cons, not_or] at hnew
      refine ⟨.cons hs.1 hread, List.nodup_cons.mpr ⟨?_, hnodup⟩, ?_⟩
      · intro hmem
        obtain ⟨s', hs', heq⟩ := List.mem_map.mp hmem
        exact (hnew s' hs').1 heq
      · exact List.forall_mem_cons.mpr ⟨hs.2, fun s' hs' => (hnew s' hs').2⟩
    · rintro ⟨hread, hnodup, hnew⟩
      cases hread with
      | @cons _ s _ rest hs hrest =>
        rw [List.map_cons, List.nodup_cons] at hnodup
        rw [List.forall_mem_cons] at hnew
        have htail : parseStages c (s.id :: seenIds) nodes = .ok rest := by
          refine ih.mpr ⟨hrest, hnodup.2, fun s' hs' => ?_⟩
          rw [List.mem_cons, not_or]
          exact ⟨fun heq => hnodup.1 (heq ▸ List.mem_map_of_mem hs'), hnew.2 s' hs'⟩
        rw [parseStage_ok_iff.mpr ⟨hs, hnew.1⟩]
        show (parseStages c (s.id :: seenIds) nodes).bind _ = _
        rw [htail]
        rfl

end

theorem parseYamlRoot_ok_iff {c : Conversions} {mark : Mark} {entries : List (Node × Node)} {p : Pipeline} :
    parseYamlRoot c (.map mark entries) = .ok p ↔ parseVersion c (.map mark entries) = .ok () ∧
      ∃ smark nodes, (Node.map mark entries).find "stages" = some (.sequence smark nodes) ∧ nodes ≠ [] ∧
        parseStages c [] nodes = .ok p.stages := by
  unfold parseYamlRoot
  dsimp only
  constructor
  · intro h
    obtain ⟨_, hversion, h⟩ := except_bind_eq_ok h
    refine ⟨hversion, ?_⟩
    cases hfind : (Node.map mark entries).find "stages" with
    | none =>
      rw [hfind] at h
      cases h
    | some found =>
      rw [hfind] at h
      cases found with
      | sequence smark nodes =>
        cases nodes with
        | nil => cases h
        | cons node nodes =>
          obtain ⟨stages, hstages, h⟩ := except_bind_eq_ok h
          obtain rfl := Except.ok.inj h
          exact ⟨smark, _, rfl, List.cons_ne_nil _ _, hstages⟩
      | _ => cases h
  · rintro ⟨hversion, smark, nodes, hfind, hne, hstages⟩
    rw [hversion, hfind]
    obtain _ | ⟨node, nodes⟩ := nodes
    · exact absurd rfl hne
    · show (parseStages c [] (node :: nodes)).bind _ = _
      rw [hstages]
      rfl

theorem find_nodeOf (fmt : UInt64 → String) {fields : List (String × Value)} (hkept : ∀ field ∈ fields, Kept field.1)
    (key : String) : (nodeOf fmt (.map fields)).find key = (fields.lookup key).map (nodeOf fmt) := by
  rw [nodeOf, Node.find]
  induction fields with
  | nil => rfl
  | cons field fields ih =>
    obtain ⟨k, child⟩ := field
    obtain ⟨tag, hkey⟩ := scalarNode_kept (hkept (k, child) List.mem_cons_self)
    have htail := ih fun field hfield => hkept field (List.mem_cons_of_mem _ hfield)
    rw [entriesOf, hkey, List.find?_cons, List.lookup_cons]
    by_cases hk : k = key
    · simp [hk]
    · have hk' : (key == k) = false := by simpa using Ne.symm hk
      simpa [hk, hk'] using htail

/-- What the item of a list of stages says of the stage. -/
structure DescribesStage (item : Value) (s : Stage) : Prop where
  id : item.find "id" = some (.string s.id)
  plugin : item.find "plugin" = some (.string s.plugin)
  input : s.input = (item.find "input").getD (.map [])
  mapping : ∃ fields, s.input = .map fields

/-- The document is a pipeline of version 1 with these stages. -/
structure Describes (doc : Value) (stages : List Stage) : Prop where
  version : ∃ bits, doc.find "version" = some (.number bits) ∧ Double.integer bits = some 1
  stages : ∃ items, doc.find "stages" = some (.list items) ∧ List.Forall₂ DescribesStage items stages

/-- The stage comes through the text: its names are read as they are and not empty, and so is its input. -/
structure Writable (c : Conversions) (s : Stage) : Prop where
  id : Kept s.id ∧ s.id ≠ ""
  plugin : Kept s.plugin ∧ s.plugin ≠ ""
  input : Reparsable c s.input

/-- The same stage, with the input as `operator==` compares it. -/
structure Stage.Same (s s' : Stage) : Prop where
  id : s.id = s'.id
  plugin : s.plugin = s'.plugin
  input : s.input.equal s'.input = true

theorem ids_of_same {read stages : List Stage} (h : List.Forall₂ Stage.Same read stages) :
    read.map Stage.id = stages.map Stage.id := by
  induction h with
  | nil => rfl
  | cons hsame _ ih => rw [List.map_cons, List.map_cons, hsame.id, ih]

theorem Value.find_eq_some {v : Value} {key : String} {child : Value} (h : v.find key = some child) :
    ∃ fields, v = .map fields ∧ fields.lookup key = some child := by
  cases v with
  | map fields => exact ⟨fields, rfl, h⟩
  | _ => cases h

theorem mem_of_lookup {key : String} {v : Value} {fields : List (String × Value)} (h : fields.lookup key = some v) :
    (key, v) ∈ fields := by
  obtain ⟨before, after, rfl, -⟩ := List.lookup_eq_some_iff.mp h
  simp

theorem map_of_equal {v : Value} {fields : List (String × Value)} (h : v.equal (.map fields) = true) :
    ∃ read, v = .map read := by
  cases v with
  | map read => exact ⟨read, rfl⟩
  | _ => cases h

section

variable {c : Conversions} {fmt : UInt64 → String}

theorem requiredText_nodeOf {fields : List (String × Value)} (hkept : ∀ field ∈ fields, Kept field.1)
    {key text : String} (h : fields.lookup key = some (.string text)) (missing : String) :
    requiredText (nodeOf fmt (.map fields)) key missing = .ok text ↔ Kept text ∧ text ≠ "" := by
  have hfind := find_nodeOf fmt hkept key
  rw [h, Option.map_some, nodeOf] at hfind
  unfold requiredText
  rw [hfind]
  rcases scalarNode_cases text with ⟨tag, hnode, hkept⟩ | ⟨hlost, hnode | ⟨other, hnode, hne⟩⟩
  · rw [hnode]
    dsimp only
    by_cases hempty : text.isEmpty = true
    · rw [if_pos hempty]
      exact iff_of_false (fun h => by cases h) fun h => h.2 (String.isEmpty_iff.mp hempty)
    · rw [if_neg hempty]
      exact iff_of_true rfl ⟨hkept, fun h => hempty (String.isEmpty_iff.mpr h)⟩
  · rw [hnode]
    exact iff_of_false (fun h => by cases h) fun h => hlost h.1
  · rw [hnode]
    refine iff_of_false (fun h => ?_) fun h => hlost h.1
    dsimp only at h
    split_ifs at h
    exact hne (Except.ok.inj h)

theorem stageInput_nodeOf {fields : List (String × Value)} (hkept : ∀ field ∈ fields, Kept field.1)
    {input : Value} (hinput : input = (fields.lookup "input").getD (.map [])) (hmap : ∃ inputs, input = .map inputs)
    (id : String) : (∃ v, stageInput c (nodeOf fmt (.map fields)) id = .ok v ∧ v.equal input = true) ↔
      Reparses c fmt input := by
  have hfind := find_nodeOf fmt hkept "input"
  unfold stageInput Reparses
  rw [hfind]
  cases hlookup : fields.lookup "input" with
  | none =>
    rw [hlookup] at hinput
    subst hinput
    exact iff_of_true ⟨.map [], rfl, rfl⟩ ⟨.map [], rfl, rfl⟩
  | some found =>
    rw [hlookup, Option.getD_some] at hinput
    subst hinput
    obtain ⟨inputs, rfl⟩ := hmap
    dsimp only [Option.map_some]
    cases hread : toValue c (nodeOf fmt (.map inputs)) with
    | error e =>
      constructor
      · rintro ⟨v, hv, -⟩
        cases hv
      · rintro ⟨v, hv, -⟩
        cases hv
    | ok v =>
      constructor
      · rintro ⟨v', hv', hequal⟩
        cases v with
        | map read => exact ⟨v', hv', hequal⟩
        | _ => cases hv'
      · rintro ⟨v', hv', hequal⟩
        obtain rfl := Except.ok.inj hv'
        obtain ⟨read, rfl⟩ := map_of_equal hequal
        exact ⟨_, rfl, hequal⟩

theorem readsStage_nodeOf {item : Value} {s : Stage} (h : DescribesStage item s) (hordered : item.Ordered)
    (hcarried : Carried (ReadsNumber c fmt) item) :
    (∃ s', ReadsStage c (nodeOf fmt item) s' ∧ s'.Same s) ↔ Writable c s := by
  obtain ⟨fields, rfl, hid⟩ := Value.find_eq_some h.id
  have hplugin : fields.lookup "plugin" = some (.string s.plugin) := h.plugin
  rw [Value.Ordered, Value.orderedFields_iff] at hordered
  rw [Carried, carriedFields_iff] at hcarried
  have hkept : ∀ field ∈ fields, Kept field.1 := fun field hfield => (hcarried field hfield).1.kept
  have hinput : Reparses c fmt s.input ↔ Reparsable c s.input := by
    have hcases : s.input = .map [] ∨ ("input", s.input) ∈ fields := by
      have hvalue : s.input = (fields.lookup "input").getD (.map []) := h.input
      cases hlookup : fields.lookup "input" with
      | none => exact .inl (by rw [hvalue, hlookup]; rfl)
      | some found => exact .inr (by rw [hvalue, hlookup]; exact mem_of_lookup hlookup)
    rcases hcases with hempty | hmem
    · rw [hempty]
      exact reparses_iff ⟨Value.Ascending.nil, trivial⟩ trivial
    · exact reparses_iff (hordered.2 _ hmem) (hcarried _ hmem).2
  constructor
  · rintro ⟨s', hread, hsame⟩
    have hid' := hread.id
    have hplugin' := hread.plugin
    rw [hsame.id, requiredText_nodeOf hkept hid] at hid'
    rw [hsame.plugin, requiredText_nodeOf hkept hplugin] at hplugin'
    exact ⟨hid', hplugin',
      hinput.mp ((stageInput_nodeOf hkept h.input h.mapping s'.id).mp ⟨s'.input, hread.input, hsame.input⟩)⟩
  · intro hwritable
    obtain ⟨v, hv, hequal⟩ := (stageInput_nodeOf hkept h.input h.mapping s.id).mpr (hinput.mpr hwritable.input)
    refine ⟨⟨s.id, s.plugin, v⟩, ⟨⟨_, _, nodeOf.eq_def _ _⟩, ?_, ?_, hv⟩, rfl, rfl, hequal⟩
    · exact (requiredText_nodeOf hkept hid _).mpr hwritable.id
    · exact (requiredText_nodeOf hkept hplugin _).mpr hwritable.plugin

theorem parseStages_nodesOf {items : List Value} {stages : List Stage} (h : List.Forall₂ DescribesStage items stages)
    (hordered : ∀ item ∈ items, item.Ordered) (hcarried : ∀ item ∈ items, Carried (ReadsNumber c fmt) item) :
    (∃ read, parseStages c [] (nodesOf fmt items) = .ok read ∧ List.Forall₂ Stage.Same read stages) ↔
      (stages.map Stage.id).Nodup ∧ ∀ s ∈ stages, Writable c s := by
  have hread : (∃ read, List.Forall₂ (ReadsStage c) (nodesOf fmt items) read ∧
      List.Forall₂ Stage.Same read stages) ↔ ∀ s ∈ stages, Writable c s := by
    induction h with
    | nil => exact iff_of_true ⟨[], .nil, .nil⟩ fun _ h => absurd h List.not_mem_nil
    | @cons item s items stages hstage hstages ih =>
      rw [List.forall_mem_cons] at hordered hcarried
      have htail := ih hordered.2 hcarried.2
      have hhead := readsStage_nodeOf hstage hordered.1 hcarried.1
      rw [List.forall_mem_cons, ← hhead, ← htail, nodesOf]
      constructor
      · rintro ⟨read, hread, hsame⟩
        cases hread with
        | cons hr hrs =>
          cases hsame with
          | cons hs hss => exact ⟨⟨_, hr, hs⟩, _, hrs, hss⟩
      · rintro ⟨⟨s', hr, hs⟩, read, hrs, hss⟩
        exact ⟨s' :: read, .cons hr hrs, .cons hs hss⟩
  rw [← hread]
  constructor
  · rintro ⟨read, hparse, hsame⟩
    rw [parseStages_ok_iff] at hparse
    exact ⟨ids_of_same hsame ▸ hparse.2.1, read, hparse.1, hsame⟩
  · rintro ⟨hnodup, read, hstages, hsame⟩
    refine ⟨read, parseStages_ok_iff.mpr ⟨hstages, ?_, fun _ _ h => absurd h List.not_mem_nil⟩, hsame⟩
    rw [ids_of_same hsame]
    exact hnodup

end

/-! ## The round trip -/

section

variable {c : Conversions} {fmt : UInt64 → String} {load : String → Except LoadFailure Node}

theorem parsePipeline_emit (hload : ReadsYaml fun text => (load text).toOption) {doc : Value} (hordered : doc.Ordered)
    (hcarried : CarriedBy fmt doc) (hroot : Unmarked doc) :
    Agree (parsePipeline c load (emitValueYaml fmt doc)) (parseYamlRoot c (nodeOf fmt doc)) := by
  obtain ⟨node, hnode, hsame⟩ := hload _ _ (readDocument_emitValueYaml fmt hcarried hordered hroot)
  replace hnode : (load (emitValueYaml fmt doc)).toOption = some node := hnode
  have hread : load (emitValueYaml fmt doc) = .ok node := by
    cases h : load (emitValueYaml fmt doc) with
    | error e =>
      rw [h] at hnode
      cases hnode
    | ok node' =>
      rw [h] at hnode
      rw [Option.some.inj hnode]
  have hparse : parsePipeline c load (emitValueYaml fmt doc) = parseYamlRoot c node := by
    rw [parsePipeline, hread]
  have hnode' := parseYamlRoot_unmark c node
  rw [hsame] at hnode'
  rw [hparse]
  exact hnode'.symm.trans (parseYamlRoot_unmark c (nodeOf fmt doc))

theorem toString_one : toString (1 : ℤ) = "1" := by decide

theorem parseVersion_nodeOf (hone : c.asInt64 "1" = some 1) {fields : List (String × Value)}
    (hkept : ∀ field ∈ fields, Kept field.1) {bits : UInt64} (hversion : fields.lookup "version" = some (.number bits))
    (hinteger : Double.integer bits = some 1) : parseVersion c (nodeOf fmt (.map fields)) = .ok () := by
  have htext : numberText fmt bits = "1" := by
    rw [numberText, hinteger]
    exact toString_one
  unfold parseVersion
  rw [find_nodeOf fmt hkept, hversion, Option.map_some, nodeOf, htext]
  dsimp only
  rw [hone]
  rfl

/-- The node of a document is parsed to its stages exactly when it has some, no two under one id, and all writable. -/
theorem parseYamlRoot_nodeOf (hone : c.asInt64 "1" = some 1) {doc : Value} (hordered : doc.Ordered)
    (hcarried : Carried (ReadsNumber c fmt) doc) {stages : List Stage} (h : Describes doc stages) :
    (∃ p, parseYamlRoot c (nodeOf fmt doc) = .ok p ∧ List.Forall₂ Stage.Same p.stages stages) ↔
      stages ≠ [] ∧ (stages.map Stage.id).Nodup ∧ ∀ s ∈ stages, Writable c s := by
  obtain ⟨bits, hversion, hinteger⟩ := h.version
  obtain ⟨items, hitems, hdescribes⟩ := h.stages
  obtain ⟨fields, rfl, hversion⟩ := Value.find_eq_some hversion
  rw [Value.find] at hitems
  rw [Value.Ordered, Value.orderedFields_iff] at hordered
  rw [Carried, carriedFields_iff] at hcarried
  have hkept : ∀ field ∈ fields, Kept field.1 := fun field hfield => (hcarried field hfield).1.kept
  have hmem := mem_of_lookup hitems
  have hitemsOrdered := Value.orderedItems_iff.mp (hordered.2 _ hmem)
  have hitemsCarried := (carriedItems_iff _).mp (hcarried _ hmem).2
  have hstages := find_nodeOf fmt hkept "stages"
  rw [hitems, Option.map_some, nodeOf, nodeOf] at hstages
  have hne : nodesOf fmt items ≠ [] ↔ stages ≠ [] := by
    rw [nodesOf_eq, Ne, List.map_eq_nil_iff]
    cases hdescribes with
    | nil => exact iff_of_false (fun h => h rfl) fun h => h rfl
    | cons _ _ => exact iff_of_true (List.cons_ne_nil _ _) (List.cons_ne_nil _ _)
  have hparsed : parseVersion c (nodeOf fmt (.map fields)) = .ok () :=
    parseVersion_nodeOf hone hkept hversion hinteger
  rw [nodeOf] at hparsed ⊢
  simp only [parseYamlRoot_ok_iff]
  rw [← parseStages_nodesOf hdescribes hitemsOrdered hitemsCarried, ← hne]
  constructor
  · rintro ⟨p, ⟨-, smark, nodes, hfind, hnodes, hp⟩, hsame⟩
    rw [hstages] at hfind
    obtain ⟨-, rfl⟩ := Node.sequence.inj (Option.some.inj hfind)
    exact ⟨hnodes, p.stages, hp, hsame⟩
  · rintro ⟨hnodes, read, hread, hsame⟩
    exact ⟨⟨read⟩, ⟨hparsed, noMark, _, hstages, hnodes, hread⟩, hsame⟩

/-- On every document of a pipeline that YAML carries in the form it is emitted in, and whose numbers come through the
libraries: the emitted text is parsed to the stages of the document exactly when there is one, no two have one id, and
each is writable. -/
theorem pipeline_round_trip_iff (hload : ReadsYaml fun text => (load text).toOption) (hone : c.asInt64 "1" = some 1)
    {doc : Value} (hordered : doc.Ordered)
    (hcarried : Carried (fun bits => Double.InRange bits ∧ ReadsNumber c fmt bits) doc) (hroot : Unmarked doc)
    {stages : List Stage} (h : Describes doc stages) :
    (∃ p, parsePipeline c load (emitValueYaml fmt doc) = .ok p ∧ List.Forall₂ Stage.Same p.stages stages) ↔
      stages ≠ [] ∧ (stages.map Stage.id).Nodup ∧ ∀ s ∈ stages, Writable c s := by
  have hnumbers : Carried (ReadsNumber c fmt) doc := hcarried.mono fun _ h => h.2
  have hshaped : CarriedBy fmt doc := hnumbers.mono fun _ h => h.numberShaped
  have hemit := parsePipeline_emit (c := c) hload hordered hshaped hroot
  rw [← parseYamlRoot_nodeOf hone hordered hnumbers h]
  exact exists_congr fun p => and_congr_left fun _ => hemit.ok_iff p

end

section Example

/-- `YAML::Load` on this part of YAML. -/
def loadText (text : String) : Except LoadFailure Node :=
  match readText text with
  | some node => .ok node
  | none => .error (.other "bad document")

theorem loadText_reads : ReadsYaml fun text => (loadText text).toOption := by
  intro text node h
  refine ⟨node, ?_, rfl⟩
  have hread : readText text = some node := h
  show (loadText text).toOption = some node
  rw [loadText, hread]
  rfl

/-- Conversions that know the number 1. -/
def oneConversions : Conversions where
  decodeBool _ := none
  asDouble raw := if raw = "1" then some 0x3FF0000000000000 else none
  asInt64 raw := if raw = "1" then some 1 else none
  nullText := some "null"

theorem one_reads : ReadsNumber oneConversions sampleFormat 0x3FF0000000000000 where
  shaped h := absurd h (by decide +kernel)
  notBool := by decide +kernel
  reads := ⟨0x3FF0000000000000, by decide +kernel, by decide +kernel⟩

def twoStages : List Stage :=
  [⟨"geo", "reader.step", .map []⟩,
    ⟨"mesh", "mesher.grid", .map [("geometry", .stage "geo"), ("order", .string "yes")]⟩]

def twoStagesDoc : Value :=
  .map [("stages", .list [.map [("id", .string "geo"), ("plugin", .string "reader.step")],
      .map [("id", .string "mesh"), ("input", .map [("geometry", .stage "geo"), ("order", .string "yes")]),
        ("plugin", .string "mesher.grid")]]),
    ("version", .number 0x3FF0000000000000)]

theorem twoStagesDoc_describes : Describes twoStagesDoc twoStages where
  version := ⟨0x3FF0000000000000, rfl, by decide +kernel⟩
  stages := ⟨_, rfl, .cons ⟨rfl, rfl, rfl, _, rfl⟩ (.cons ⟨rfl, rfl, rfl, _, rfl⟩ .nil)⟩

theorem twoStagesDoc_ordered : twoStagesDoc.Ordered := by
  have hdoc : (["stages", "version"] : List String).Pairwise (· < ·) := by decide
  have hreader : (["id", "plugin"] : List String).Pairwise (· < ·) := by decide
  have hmesher : (["id", "input", "plugin"] : List String).Pairwise (· < ·) := by decide
  have hinput : (["geometry", "order"] : List String).Pairwise (· < ·) := by decide
  exact ⟨hdoc, ⟨⟨hreader, trivial, trivial, trivial⟩,
    ⟨hmesher, trivial, ⟨hinput, trivial, trivial, trivial⟩, trivial, trivial⟩, trivial⟩, trivial, trivial⟩

theorem twoStagesDoc_carried :
    Carried (fun bits => Double.InRange bits ∧ ReadsNumber oneConversions sampleFormat bits) twoStagesDoc := by
  have hkey : ∀ key ∈ ["stages", "id", "plugin", "input", "geometry", "order", "version"], CarriedKey key := by
    intro key hkey
    simp only [List.mem_cons, List.not_mem_nil, or_false] at hkey
    rcases hkey with rfl | rfl | rfl | rfl | rfl | rfl | rfl <;> exact ⟨by decide, by decide, by decide⟩
  have htext : ∀ text ∈ ["geo", "reader.step", "mesh", "yes", "mesher.grid"], CarriedText text := by decide
  have hone : Double.InRange 0x3FF0000000000000 := by decide +kernel
  exact ⟨hkey _ (by simp), ⟨⟨hkey _ (by simp), htext _ (by simp), hkey _ (by simp), htext _ (by simp), trivial⟩,
    ⟨hkey _ (by simp), htext _ (by simp), hkey _ (by simp), ⟨hkey _ (by simp), htext _ (by simp), hkey _ (by simp),
      htext _ (by simp), trivial⟩, hkey _ (by simp), htext _ (by simp), trivial⟩, trivial⟩,
    hkey _ (by simp), ⟨hone, one_reads⟩, trivial⟩

theorem twoStagesDoc_unmarked : Unmarked twoStagesDoc := by
  intro field hfield _
  have hstages : isMarker ("stages".toList ++ [':', ' ']) = false := by decide
  have hversion : isMarker ("version".toList ++ [':', ' ']) = false := by decide
  rcases List.mem_cons.mp hfield with rfl | hfield
  · exact hstages
  · rw [List.mem_singleton.mp hfield]
    exact hversion

theorem pipeline_round_trip_iff_two :
    (∃ p, parsePipeline oneConversions loadText (emitValueYaml sampleFormat twoStagesDoc) = .ok p ∧
        List.Forall₂ Stage.Same p.stages twoStages) ↔
      twoStages ≠ [] ∧ (twoStages.map Stage.id).Nodup ∧ ∀ s ∈ twoStages, Writable oneConversions s :=
  pipeline_round_trip_iff loadText_reads rfl twoStagesDoc_ordered twoStagesDoc_carried twoStagesDoc_unmarked
    twoStagesDoc_describes

end Example

end Souxmar.Pipeline
