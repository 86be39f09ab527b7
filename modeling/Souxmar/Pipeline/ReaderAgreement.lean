import Souxmar.Pipeline.Readers

/-!
# Where the two readers agree

The readers differ on scalars alone. `Agreeable` walks the tree to the scalars that end up in a value,
and asks of each that both readers classify it alike.
-/

set_option linter.dupNamespace false

namespace Souxmar.Pipeline

open Souxmar.Lib.Yaml

variable {c : Conversions}

/-! ## Scalars -/

/-- What yaml-cpp documents of the spellings that the pipeline parser takes for booleans. -/
structure ReadsPlainBools (c : Conversions) : Prop where
  isTrue : ∀ raw, raw = "true" ∨ raw = "True" → c.decodeBool raw = some true
  isFalse : ∀ raw, raw = "false" ∨ raw = "False" → c.decodeBool raw = some false

/-- The spellings of booleans in the pipeline parser. -/
def PlainBool (raw : String) : Prop :=
  (raw = "true" ∨ raw = "True") ∨ raw = "false" ∨ raw = "False"

/-- A quoted scalar is no boolean and no number to yaml-cpp. A plain one is a boolean in both readers,
or else no boolean to yaml-cpp and, if it is a number, made of the characters of numbers. -/
def AgreeableScalar (c : Conversions) (tag raw : String) : Prop :=
  if tag = quotedTag then c.decodeBool raw = none ∧ c.asDouble raw = none
  else PlainBool raw ∨
    c.decodeBool raw = none ∧ (c.asDouble raw ≠ none → raw.toList.all numericChar = true)

theorem scalar_agrees_iff (hbool : ReadsPlainBools c) (tag raw : String) :
    scalarToValue c tag raw = yamlScalarToValue c raw ↔ AgreeableScalar c tag raw := by
  unfold scalarToValue AgreeableScalar PlainBool
  by_cases htag : tag = quotedTag
  · rw [if_pos htag, if_pos htag]
    unfold yamlScalarToValue
    cases hb : c.decodeBool raw with
    | some b => simp
    | none => cases hd : c.asDouble raw <;> simp
  · rw [if_neg htag, if_neg htag]
    by_cases htrue : raw = "true" ∨ raw = "True"
    · rw [if_pos htrue, yamlScalarToValue, hbool.isTrue raw htrue]
      simp [htrue]
    · rw [if_neg htrue]
      by_cases hfalse : raw = "false" ∨ raw = "False"
      · rw [if_pos hfalse, yamlScalarToValue, hbool.isFalse raw hfalse]
        simp [hfalse]
      · rw [if_neg hfalse]
        unfold yamlScalarToValue
        cases hb : c.decodeBool raw with
        | some b =>
          -- yaml-cpp takes more spellings for booleans than the pipeline parser
          cases hd : c.asDouble raw with
          | none => simp [htrue, hfalse]
          | some d =>
            dsimp only
            split_ifs <;> simp [htrue, hfalse]
        | none =>
          cases hd : c.asDouble raw with
          | none => simp
          | some d =>
            dsimp only
            split_ifs with hchars
            · simp [hchars]
            · simp [htrue, hfalse, hchars]

/-! ## Trees -/

mutual

/-- Both readers classify every scalar alike that ends up in the value: the target of a reference does
not count, and neither does what stands under a key that came before. -/
def Agreeable (c : Conversions) : Node → Prop
  | .undefined _ => True
  | .null _ => True
  | .scalar _ tag raw => AgreeableScalar c tag raw
  | .sequence _ items => AgreeableItems c items
  | .map mark entries =>
    (recogniseStageRef (.map mark entries)).isSome ∨ AgreeableEntries c [] entries

def AgreeableItems (c : Conversions) : List Node → Prop
  | [] => True
  | item :: items => Agreeable c item ∧ AgreeableItems c items

def AgreeableEntries (c : Conversions) (seen : List String) : List (Node × Node) → Prop
  | [] => True
  | (key, value) :: entries =>
    match key with
    | .scalar _ _ text =>
      (text ∈ seen ∨ Agreeable c value) ∧ AgreeableEntries c (text :: seen) entries
    | _ => True

end

theorem emplaceField_eq_iff {key : String} {v v' : Value} {fields fields' : List (String × Value)}
    (h : Value.Ascending fields) (hkeys : fields.map (·.1) = fields'.map (·.1)) :
    Value.emplaceField key v fields = Value.emplaceField key v' fields' ↔
      fields = fields' ∧ (key ∈ fields.map (·.1) ∨ v = v') := by
  induction fields generalizing fields' with
  | nil =>
    obtain rfl := List.map_eq_nil_iff.mp hkeys.symm
    simp [Value.emplaceField]
  | cons kv fields ih =>
    cases fields' with
    | nil => exact absurd hkeys (by simp)
    | cons kv' fields' =>
      obtain ⟨k, w⟩ := kv
      obtain ⟨k', w'⟩ := kv'
      obtain ⟨hk, hrest⟩ := List.cons.inj hkeys
      obtain rfl : k = k' := hk
      obtain ⟨hhead, htail⟩ := List.pairwise_cons.mp h
      rw [Value.emplaceField, Value.emplaceField]
      by_cases hlt : key < k
      · have hnew : key ∉ ((k, w) :: fields).map (·.1) := by
          intro hmem
          rcases List.mem_cons.mp hmem with heq | hmem
          · exact absurd (heq ▸ hlt) (lt_irrefl _)
          · exact absurd (hlt.trans (hhead key hmem)) (lt_irrefl _)
        rw [if_pos hlt, if_pos hlt]
        simp only [List.cons.injEq, Prod.mk.injEq, true_and, hnew, false_or]
        tauto
      · rw [if_neg hlt, if_neg hlt]
        by_cases heq : key = k
        · rw [if_pos heq, if_pos heq]
          simp [heq]
        · rw [if_neg heq, if_neg heq, List.cons.injEq, List.cons.injEq, ih htail hrest]
          simp only [List.map_cons, List.mem_cons, heq, false_or]
          tauto

theorem keys_emplaceField {key : String} {v v' : Value} {fields fields' : List (String × Value)}
    (hkeys : fields.map (·.1) = fields'.map (·.1)) :
    (Value.emplaceField key v fields).map (·.1) = (Value.emplaceField key v' fields').map (·.1) := by
  induction fields generalizing fields' with
  | nil =>
    obtain rfl := List.map_eq_nil_iff.mp hkeys.symm
    rfl
  | cons kv fields ih =>
    cases fields' with
    | nil => exact absurd hkeys (by simp)
    | cons kv' fields' =>
      obtain ⟨k, w⟩ := kv
      obtain ⟨k', w'⟩ := kv'
      obtain ⟨hk, hrest⟩ := List.cons.inj hkeys
      obtain rfl : k = k' := hk
      rw [Value.emplaceField, Value.emplaceField]
      split_ifs
      · rw [List.map_cons, hkeys, ← List.map_cons]
        rfl
      · exact hkeys
      · rw [List.map_cons, List.map_cons, ih hrest]

theorem except_bind_eq_ok {ε α β : Type} {x : Except ε α} {f : α → Except ε β} {b : β}
    (h : x.bind f = .ok b) : ∃ a, x = .ok a ∧ f a = .ok b := by
  cases x with
  | error e => exact nomatch h
  | ok a => exact ⟨a, rfl, h⟩

theorem except_map_eq_ok {ε α β : Type} {x : Except ε α} {f : α → β} {b : β}
    (h : x.map f = .ok b) : ∃ a, x = .ok a ∧ f a = b := by
  cases x with
  | error e => exact nomatch h
  | ok a => exact ⟨a, rfl, Except.ok.inj h⟩

/-- What the two readers make of a node agrees exactly if it is agreeable. -/
def AgreesIff (c : Conversions) (node : Node) : Prop :=
  ∀ v v', toValue c node = .ok v → yamlNodeToValue c node = some v' → (v = v' ↔ Agreeable c node)

theorem items_agree_iff {items : List Node} (h : ∀ node ∈ items, AgreesIff c node)
    {vs vs' : List Value} (hvs : toValues c items = .ok vs)
    (hvs' : yamlNodesToValues c items = some vs') : vs = vs' ↔ AgreeableItems c items := by
  induction items generalizing vs vs' with
  | nil =>
    obtain rfl := Except.ok.inj hvs
    obtain rfl := Option.some.inj hvs'
    simp [AgreeableItems]
  | cons item items ih =>
    obtain ⟨v, hv, htail⟩ := except_bind_eq_ok hvs
    obtain ⟨rest, hrest, rfl⟩ := except_map_eq_ok htail
    obtain ⟨v', hv', htail'⟩ := Option.bind_eq_some_iff.mp hvs'
    obtain ⟨rest', hrest', rfl⟩ := Option.map_eq_some_iff.mp htail'
    rw [List.cons.injEq, h item List.mem_cons_self v v' hv hv',
      ih (fun node hnode => h node (List.mem_cons_of_mem _ hnode)) hrest hrest', AgreeableItems]

theorem entries_agree_iff {entries : List (Node × Node)} (h : ∀ kv ∈ entries, AgreesIff c kv.2)
    {seen : List String} {fields fields' out out' : List (String × Value)}
    (hascending : Value.Ascending fields) (hseen : ∀ k, k ∈ seen ↔ k ∈ fields.map (·.1))
    (hkeys : fields.map (·.1) = fields'.map (·.1)) (hout : toFields c entries fields = .ok out)
    (hout' : yamlNodesToFields c entries fields' = some out') :
    out = out' ↔ fields = fields' ∧ AgreeableEntries c seen entries := by
  induction entries generalizing seen fields fields' with
  | nil =>
    obtain rfl := Except.ok.inj hout
    obtain rfl := Option.some.inj hout'
    simp [AgreeableEntries]
  | cons kv entries ih =>
    obtain ⟨key, value⟩ := kv
    cases key with
    | scalar mark tag text =>
      obtain ⟨v, hv, hrest⟩ := except_bind_eq_ok hout
      obtain ⟨text', htext, hrest'⟩ := Option.bind_eq_some_iff.mp hout'
      obtain rfl := Option.some.inj htext
      obtain ⟨v', hv', hrest'⟩ := Option.bind_eq_some_iff.mp hrest'
      have hnext : out = out' ↔
          Value.emplaceField text v fields = Value.emplaceField text v' fields' ∧
            AgreeableEntries c (text :: seen) entries :=
        ih (fun kv hkv => h kv (List.mem_cons_of_mem _ hkv)) (hascending.emplaceField text v)
          (fun k => by rw [List.mem_cons, Value.mem_keys_emplaceField, hseen])
          (keys_emplaceField hkeys) hrest hrest'
      rw [hnext, emplaceField_eq_iff hascending hkeys,
        h _ List.mem_cons_self v v' hv hv', AgreeableEntries, hseen, and_assoc]
    | undefined | null | sequence | map => exact nomatch hout

theorem agreesIff (hbool : ReadsPlainBools c) (node : Node) : AgreesIff c node := by
  induction node with
  | undefined mark => exact fun v v' hv => nomatch hv
  | null mark =>
    intro v v' hv hv'
    obtain rfl := Except.ok.inj hv
    obtain rfl := Option.some.inj hv'
    simp [Agreeable]
  | scalar mark tag raw =>
    intro v v' hv hv'
    rw [toValue] at hv
    rw [yamlNodeToValue] at hv'
    rw [← Except.ok.inj hv, ← Option.some.inj hv', scalar_agrees_iff hbool, Agreeable]
  | sequence mark items ih =>
    intro v v' hv hv'
    obtain ⟨vs, hvs, rfl⟩ := except_map_eq_ok hv
    obtain ⟨vs', hvs', rfl⟩ := Option.map_eq_some_iff.mp hv'
    rw [Value.list.injEq, items_agree_iff ih hvs hvs', Agreeable]
  | map mark entries ih =>
    intro v v' hv hv'
    rw [toValue] at hv
    rw [yamlNodeToValue] at hv'
    rw [Agreeable]
    cases href : recogniseStageRef (.map mark entries) with
    | some stageId =>
      rw [href] at hv hv'
      dsimp only at hv hv'
      split_ifs at hv
      rw [← Except.ok.inj hv, ← Option.some.inj hv']
      simp
    | none =>
      rw [href] at hv hv'
      obtain ⟨fields, hfields, rfl⟩ := except_map_eq_ok hv
      obtain ⟨fields', hfields', rfl⟩ := Option.map_eq_some_iff.mp hv'
      rw [Value.map.injEq, entries_agree_iff (fun kv hkv => (ih kv hkv).2) Value.Ascending.nil
        (fun k => Iff.rfl) rfl hfields hfields']
      simp

/-- On every document that both readers accept, they give the same value exactly if it is agreeable. -/
theorem readers_agree_iff (hbool : ReadsPlainBools c) {node : Node} {v v' : Value}
    (hpipeline : toValue c node = .ok v) (harguments : yamlNodeToValue c node = some v') :
    v = v' ↔ Agreeable c node :=
  agreesIff hbool node v v' hpipeline harguments

section Example

/-- The conversions of yaml-cpp, as far as the examples need numbers. -/
def sampleConversions : Conversions where
  decodeBool raw :=
    if raw ∈ ["y", "Y", "yes", "Yes", "YES", "true", "True", "TRUE", "on", "On", "ON"] then some true
    else if raw ∈ ["n", "N", "no", "No", "NO", "false", "False", "FALSE", "off", "Off", "OFF"] then
      some false
    else none
  asDouble raw := if raw = "2507" then some 0x40A3960000000000 else none
  asInt64 raw := if raw = "2507" then some 2507 else none
  nullText := none

theorem sampleConversions_reads : ReadsPlainBools sampleConversions where
  isTrue raw h := by rcases h with rfl | rfl <;> decide
  isFalse raw h := by rcases h with rfl | rfl <;> decide

/-- The document `alloy: "2507"`. -/
def quotedAlloy : Node :=
  .map ⟨0, 0⟩ [(.scalar ⟨0, 0⟩ "?" "alloy", .scalar ⟨0, 7⟩ "!" "2507")]

/-- The pipeline parser keeps the quoted number a string, the reader of tool arguments does not. -/
theorem quoted_number_differs :
    toValue sampleConversions quotedAlloy = .ok (.map [("alloy", .string "2507")]) ∧
      yamlNodeToValue sampleConversions quotedAlloy =
        some (.map [("alloy", .number 0x40A3960000000000)]) ∧
      Value.map [("alloy", .string "2507")] ≠ .map [("alloy", .number 0x40A3960000000000)] :=
  ⟨rfl, rfl, by simp⟩

theorem readers_agree_iff_alloy :
    Value.map [("alloy", .string "2507")] = .map [("alloy", .number 0x40A3960000000000)] ↔
      Agreeable sampleConversions quotedAlloy :=
  readers_agree_iff sampleConversions_reads rfl rfl

end Example

end Souxmar.Pipeline
