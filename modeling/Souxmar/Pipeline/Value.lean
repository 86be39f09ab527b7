import Mathlib.Data.List.Basic
import Mathlib.Data.String.Basic

/-!
# Values

The typed tree of a stage's inputs (`value.h`) and the stage references in it. A number is its 64-bit
pattern, and the fields of a map stand in the order of `std::map`.
-/

namespace Souxmar.Pipeline

inductive Value
  | null
  | boolean (b : Bool)
  | number (bits : UInt64)
  | string (s : String)
  | stage (stageId : String)
  | list (items : List Value)
  | map (fields : List (String × Value))
deriving Repr, Inhabited

namespace Value

/-- The byte of `Value::Kind`. -/
def kind : Value → UInt8
  | null => 0
  | boolean _ => 1
  | number _ => 2
  | string _ => 3
  | stage _ => 4
  | list _ => 5
  | map _ => 6

/-- Induction over the tree, with the hypothesis at every item of a list and every field of a map. -/
@[induction_eliminator]
theorem induction {P : Value → Prop} (null : P null) (boolean : ∀ b, P (boolean b))
    (number : ∀ bits, P (number bits)) (string : ∀ s, P (string s)) (stage : ∀ id, P (stage id))
    (list : ∀ items, (∀ v ∈ items, P v) → P (list items))
    (map : ∀ fields, (∀ kv ∈ fields, P kv.2) → P (map fields)) (v : Value) : P v :=
  @Value.rec P (fun items => ∀ v ∈ items, P v) (fun fields => ∀ kv ∈ fields, P kv.2)
    (fun kv => P kv.2) null boolean number string stage list map
    (fun _ hv => nomatch hv)
    (fun _ _ hv hvs => List.forall_mem_cons.mpr ⟨hv, hvs⟩)
    (fun _ hkv => nomatch hkv)
    (fun _ _ hkv hkvs => List.forall_mem_cons.mpr ⟨hkv, hkvs⟩)
    (fun _ _ hv => hv) v

def tryString : Value → Option String
  | string s => some s
  | _ => none

/-- Field access; nothing on a value that is not a map. -/
def find (key : String) : Value → Option Value
  | map fields => fields.lookup key
  | _ => none

/-- `emplace` into the fields of a map: they stay in order, and the first value under a key stays. -/
def emplaceField (key : String) (v : Value) : List (String × Value) → List (String × Value)
  | [] => [(key, v)]
  | (k, w) :: fields =>
    if key < k then (key, v) :: (k, w) :: fields
    else if key = k then (k, w) :: fields
    else (k, w) :: emplaceField key v fields

/-- Fields as `std::map` keeps them: every key once, in ascending order. -/
def Ascending (fields : List (String × Value)) : Prop := (fields.map (·.1)).Pairwise (· < ·)

theorem Ascending.nil : Ascending [] := List.Pairwise.nil

theorem mem_keys_emplaceField {key k : String} {v : Value} {fields : List (String × Value)} :
    k ∈ (emplaceField key v fields).map (·.1) ↔ k = key ∨ k ∈ fields.map (·.1) := by
  induction fields with
  | nil => simp [emplaceField]
  | cons kv fields ih =>
    obtain ⟨k', w⟩ := kv
    rw [emplaceField]
    split_ifs with hlt heq
    · simp
    · subst heq
      simp
    · rw [List.map_cons, List.mem_cons, ih, List.map_cons, List.mem_cons]
      tauto

theorem Ascending.emplaceField {fields : List (String × Value)} (h : Ascending fields) (key : String)
    (v : Value) : Ascending (emplaceField key v fields) := by
  induction fields with
  | nil => exact List.pairwise_singleton _ _
  | cons kv fields ih =>
    obtain ⟨k, w⟩ := kv
    obtain ⟨hhead, htail⟩ := List.pairwise_cons.mp h
    rw [Value.emplaceField]
    split_ifs with hlt heq
    · refine List.pairwise_cons.mpr ⟨fun k' hk' => ?_, h⟩
      rcases List.mem_cons.mp hk' with rfl | hk'
      · exact hlt
      · exact hlt.trans (hhead k' hk')
    · exact h
    · refine List.pairwise_cons.mpr ⟨fun k' hk' => ?_, ih htail⟩
      rcases mem_keys_emplaceField.mp hk' with rfl | hk'
      · exact lt_of_le_of_ne (not_lt.mp hlt) (fun hsame => heq hsame.symm)
      · exact hhead k' hk'

end Value

mutual

/-- The stage ids a tree refers to, in the order of the walk. -/
def collectStageRefs : Value → List String
  | .stage stageId => [stageId]
  | .list items => collectStageRefsItems items
  | .map fields => collectStageRefsFields fields
  | _ => []

def collectStageRefsItems : List Value → List String
  | [] => []
  | item :: items => collectStageRefs item ++ collectStageRefsItems items

def collectStageRefsFields : List (String × Value) → List String
  | [] => []
  | (_, child) :: fields => collectStageRefs child ++ collectStageRefsFields fields

end

mutual

/-- All maps of the tree are as `std::map` keeps them. -/
def Value.Ordered : Value → Prop
  | .list items => Value.OrderedItems items
  | .map fields => Value.Ascending fields ∧ Value.OrderedFields fields
  | _ => True

def Value.OrderedItems : List Value → Prop
  | [] => True
  | item :: items => item.Ordered ∧ Value.OrderedItems items

def Value.OrderedFields : List (String × Value) → Prop
  | [] => True
  | (_, child) :: fields => child.Ordered ∧ Value.OrderedFields fields

end

theorem Value.orderedItems_iff {items : List Value} :
    Value.OrderedItems items ↔ ∀ item ∈ items, item.Ordered := by
  induction items with
  | nil => simp [Value.OrderedItems]
  | cons item items ih => simp [Value.OrderedItems, ih]

theorem Value.orderedFields_iff {fields : List (String × Value)} :
    Value.OrderedFields fields ↔ ∀ field ∈ fields, field.2.Ordered := by
  induction fields with
  | nil => simp [Value.OrderedFields]
  | cons field fields ih => simp [Value.OrderedFields, ih]

theorem mem_collectStageRefs_list {id : String} {items : List Value} :
    id ∈ collectStageRefs (.list items) ↔ ∃ v ∈ items, id ∈ collectStageRefs v := by
  rw [collectStageRefs]
  induction items with
  | nil => simp [collectStageRefsItems]
  | cons item items ih => simp [collectStageRefsItems, ih]

theorem mem_collectStageRefs_map {id : String} {fields : List (String × Value)} :
    id ∈ collectStageRefs (.map fields) ↔ ∃ kv ∈ fields, id ∈ collectStageRefs kv.2 := by
  rw [collectStageRefs]
  induction fields with
  | nil => simp [collectStageRefsFields]
  | cons kv fields ih => simp [collectStageRefsFields, ih]

end Souxmar.Pipeline
