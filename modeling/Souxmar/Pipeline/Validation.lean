import Mathlib.Data.List.Lex
import Souxmar.Pipeline.Dag

/-!
# What validation accepts

A pipeline is well formed when its stage ids are non-empty and distinct, every reference in a stage's
input names another stage, and no stage waits for itself. `validate_exact` says that `validate` accepts
these pipelines and no others, and that the order it returns is the least of all execution orders.
-/

set_option linter.dupNamespace false

namespace Souxmar.Pipeline

open Souxmar.Lib

/-! ### References -/

/-- A reference to the stage stands somewhere in the tree. -/
inductive Value.Mentions (id : String) : Value → Prop
  | stage : Mentions id (.stage id)
  | item {items : List Value} {v : Value} (mem : v ∈ items) (mentions : Mentions id v) :
    Mentions id (.list items)
  | field {fields : List (String × Value)} {kv : String × Value} (mem : kv ∈ fields)
    (mentions : Mentions id kv.2) : Mentions id (.map fields)

/-- The walk finds the references, however deep they stand. -/
theorem mem_collectStageRefs {id : String} {v : Value} :
    id ∈ collectStageRefs v ↔ v.Mentions id := by
  constructor
  · intro h
    induction v with
    | stage stageId =>
      obtain rfl : id = stageId := by simpa [collectStageRefs] using h
      exact .stage
    | list items ih =>
      obtain ⟨v, hv, hid⟩ := mem_collectStageRefs_list.mp h
      exact .item hv (ih v hv hid)
    | map fields ih =>
      obtain ⟨kv, hkv, hid⟩ := mem_collectStageRefs_map.mp h
      exact .field hkv (ih kv hkv hid)
    | null => simp [collectStageRefs] at h
    | boolean b => simp [collectStageRefs] at h
    | number bits => simp [collectStageRefs] at h
    | string s => simp [collectStageRefs] at h
  · intro h
    induction h with
    | stage => simp [collectStageRefs]
    | item mem _ ih => exact mem_collectStageRefs_list.mpr ⟨_, mem, ih⟩
    | field mem _ ih => exact mem_collectStageRefs_map.mpr ⟨_, mem, ih⟩

namespace Pipeline

variable (p : Pipeline)

/-- Stage `i` refers to stage `j`. -/
def Refers (i j : ℕ) : Prop :=
  ∃ s t, p.stages[i]? = some s ∧ p.stages[j]? = some t ∧ s.input.Mentions t.id

structure WellFormed : Prop where
  ids : ∀ s ∈ p.stages, s.id ≠ ""
  distinct : (p.stages.map Stage.id).Nodup
  refs : ∀ s ∈ p.stages, ∀ id, s.input.Mentions id → id ≠ s.id ∧ ∃ t ∈ p.stages, t.id = id
  acyclic : ∀ i, ¬Relation.TransGen p.Refers i i

/-- Every stage once, after the stages it refers to. -/
structure ExecutionOrder (order : List ℕ) : Prop where
  perm : order.Perm (List.range p.stages.length)
  after : ∀ before i rest, order = before ++ i :: rest → ∀ j, p.Refers i j → j ∈ before

variable {p}

/-! ### The index of a stage -/

theorem idToIndex_of_distinct (hids : ∀ s ∈ p.stages, s.id ≠ "")
    (hdistinct : (p.stages.map Stage.id).Nodup) {i : ℕ} {s : Stage} (hs : p.stages[i]? = some s) :
    p.idToIndex s.id = some i := by
  obtain ⟨hi, hget⟩ := List.getElem?_eq_some_iff.mp hs
  have hne : ¬s.id.isEmpty = true := by
    rw [String.isEmpty_iff]
    exact hids s (List.mem_of_getElem? hs)
  rw [idToIndex, if_neg hne, List.findIdx?_eq_some_iff_getElem]
  refine ⟨hi, by simp [hget], fun j hj hsame => ?_⟩
  have hjn : j < (p.stages.map Stage.id).length := by
    rw [List.length_map]
    omega
  have hids : (p.stages.map Stage.id)[j]? = (p.stages.map Stage.id)[i]? := by
    have hgetj := List.getElem?_eq_getElem (hj.trans hi)
    rw [List.getElem?_map, List.getElem?_map, hs, hgetj]
    simpa using hsame
  exact absurd ((List.getElem?_inj hjn hdistinct).mp hids) (Nat.ne_of_lt hj)

theorem ids_of_idToIndex (h : ∀ i s, p.stages[i]? = some s → p.idToIndex s.id = some i) :
    (∀ s ∈ p.stages, s.id ≠ "") ∧ (p.stages.map Stage.id).Nodup := by
  constructor
  · intro s hs hempty
    obtain ⟨i, hi⟩ := List.mem_iff_getElem?.mp hs
    have hindex := h i s hi
    rw [idToIndex, hempty] at hindex
    exact nomatch hindex
  · rw [List.nodup_iff_getElem?_ne_getElem?]
    intro i j hij hj heq
    rw [List.length_map] at hj
    have hi : i < p.stages.length := by omega
    have hget := List.getElem?_eq_getElem hi
    have hget' := List.getElem?_eq_getElem hj
    have hsame : p.stages[i].id = p.stages[j].id := by simpa [hget, hget'] using heq
    have hindex := h i _ hget
    rw [hsame, h j _ hget', Option.some.injEq] at hindex
    omega

theorem mem_of_idToIndex {id : String} {j : ℕ} (h : p.idToIndex id = some j) :
    ∃ t ∈ p.stages, t.id = id := by
  obtain ⟨t, ht, hid⟩ := getElem?_of_idToIndex h
  exact ⟨t, List.mem_of_getElem? ht, hid⟩

/-- In a pipeline whose ids and references are in order, the parents are what a stage refers to. -/
theorem mem_parents_iff (hids : ∀ s ∈ p.stages, s.id ≠ "")
    (hdistinct : (p.stages.map Stage.id).Nodup)
    (hrefs : ∀ s ∈ p.stages, ∀ id, s.input.Mentions id → id ≠ s.id) {i j : ℕ} :
    j ∈ p.parents i ↔ p.Refers i j := by
  unfold parents Refers
  cases hs : p.stages[i]? with
  | none => simp
  | some s =>
    simp only [List.mem_toFinset, mem_producers, Option.some.injEq, exists_eq_left', exists_and_left]
    constructor
    · rintro ⟨ref, href, _, hindex⟩
      obtain ⟨t, ht, rfl⟩ := getElem?_of_idToIndex hindex
      exact ⟨t, ht, mem_collectStageRefs.mp href⟩
    · rintro ⟨t, ht, hmentions⟩
      exact ⟨t.id, mem_collectStageRefs.mpr hmentions,
        hrefs s (List.mem_of_getElem? hs) t.id hmentions, idToIndex_of_distinct hids hdistinct ht⟩

theorem swap_feeds (hparents : ∀ i j, j ∈ p.parents i ↔ p.Refers i j) :
    Function.swap (Feeds (Finset.range p.stages.length) p.parents) = p.Refers := by
  ext a b
  constructor
  · intro hab
    exact (hparents a b).mp hab.2
  · intro hab
    have ⟨s, _, hs, _⟩ := hab
    exact ⟨Finset.mem_range.mpr (List.getElem?_eq_some_iff.mp hs).1, (hparents a b).mpr hab⟩

theorem acyclic_iff (hparents : ∀ i j, j ∈ p.parents i ↔ p.Refers i j) :
    Acyclic (Finset.range p.stages.length) p.parents ↔ ∀ i, ¬Relation.TransGen p.Refers i i := by
  refine forall_congr' fun i => not_congr ?_
  rw [← Relation.transGen_swap, swap_feeds hparents]

theorem parents_subset (hparents : ∀ i j, j ∈ p.parents i ↔ p.Refers i j) :
    ∀ i ∈ Finset.range p.stages.length, p.parents i ⊆ Finset.range p.stages.length := by
  intro i _ j hj
  obtain ⟨-, t, -, ht, -⟩ := (hparents i j).mp hj
  exact Finset.mem_range.mpr (List.getElem?_eq_some_iff.mp ht).1

/-! ### What the checks of validation say -/

theorem dagErrors_eq_nil_iff : p.dagErrors = [] ↔
    (∀ s ∈ p.stages, s.id ≠ "") ∧ (p.stages.map Stage.id).Nodup ∧
      ∀ s ∈ p.stages, ∀ id, s.input.Mentions id → id ≠ s.id ∧ ∃ t ∈ p.stages, t.id = id := by
  rw [dagErrors, List.append_eq_nil_iff, List.flatMap_eq_nil_iff, List.flatMap_eq_nil_iff]
  constructor
  · rintro ⟨hid, href⟩
    obtain ⟨hids, hdistinct⟩ := ids_of_idToIndex fun i s hs =>
      idErrors_nil (hid (s, i) (List.mem_zipIdx_iff_getElem?.mpr hs))
    refine ⟨hids, hdistinct, fun s hs id hmentions => ?_⟩
    obtain ⟨hself, j, hj⟩ := refErrors_nil (href s hs) (mem_collectStageRefs.mpr hmentions)
    exact ⟨hself, mem_of_idToIndex hj⟩
  · rintro ⟨hids, hdistinct, hrefs⟩
    refine ⟨fun si hsi => ?_, fun s hs => ?_⟩
    · have hs : p.stages[si.2]? = some si.1 := List.mem_zipIdx_iff_getElem?.mp hsi
      have hne : ¬si.1.id.isEmpty = true := by
        rw [String.isEmpty_iff]
        exact hids si.1 (List.mem_of_getElem? hs)
      rw [idErrors, if_neg hne, if_neg (not_not.mpr (idToIndex_of_distinct hids hdistinct hs))]
    · rw [refErrors, List.filterMap_eq_nil_iff]
      intro ref href
      have hmentions := mem_collectStageRefs.mp (List.mem_dedup.mp href)
      obtain ⟨hself, t, ht, rfl⟩ := hrefs s hs ref hmentions
      obtain ⟨j, hj⟩ := List.mem_iff_getElem?.mp ht
      rw [if_neg hself, idToIndex_of_distinct hids hdistinct hj]

theorem validate_ok {order : List ℕ} (h : p.validate = .ok order) :
    p.WellFormed ∧ p.ExecutionOrder order := by
  have hordered := validate_ordered h
  obtain ⟨hids, hdistinct⟩ := ids_of_idToIndex hordered.ids
  have hrefs : ∀ s ∈ p.stages, ∀ id, s.input.Mentions id → id ≠ s.id ∧ ∃ t ∈ p.stages, t.id = id := by
    intro s hs id hmentions
    obtain ⟨hself, j, hj⟩ := hordered.refs s hs id (mem_collectStageRefs.mpr hmentions)
    exact ⟨hself, mem_of_idToIndex hj⟩
  have hparents : ∀ i j, j ∈ p.parents i ↔ p.Refers i j := fun i j =>
    mem_parents_iff hids hdistinct fun s hs id hid => (hrefs s hs id hid).1
  refine ⟨⟨hids, hdistinct, hrefs, ?_⟩, hordered.perm, fun before i rest horder j hj => ?_⟩
  · have hnodup : order.Nodup := hordered.perm.nodup_iff.mpr List.nodup_range
    exact (acyclic_iff hparents).mp <| hordered.topological.acyclic hnodup fun i hi =>
      hordered.perm.mem_iff.mpr (List.mem_range.mpr (Finset.mem_range.mp hi))
  · exact hordered.topological before i rest horder j ((hparents i j).mpr hj)

theorem WellFormed.validate_least (h : p.WellFormed) : ∃ order, p.validate = .ok order ∧
    ∀ order', p.ExecutionOrder order' → order = order' ∨ List.Lex (· < ·) order order' := by
  have herrors := dagErrors_eq_nil_iff.mpr ⟨h.ids, h.distinct, h.refs⟩
  have hparents : ∀ i j, j ∈ p.parents i ↔ p.Refers i j := fun i j =>
    mem_parents_iff h.ids h.distinct fun s hs id hid => (h.refs s hs id hid).1
  have hacyclic := (acyclic_iff hparents).mpr h.acyclic
  have hsub := parents_subset hparents
  have hinit : Frontier (Finset.range p.stages.length) p.parents ([] : List ℕ).toFinset
      ([] : List ℕ).toFinset p.inDegree _ := frontier_init p
  have hcomplete := kahn_complete orderedInsert_perm children_nodup (fun i j => mem_children) hsub
    hacyclic p.stages.length hinit (by simp)
  have hnodup := (kahn_topological orderedInsert_perm children_nodup (fun i j => mem_children)
    p.stages.length hinit List.nodup_nil
    (fun before i after heq => by simp at heq)).1
  have hlength := List.toFinset_card_of_nodup hnodup
  rw [hcomplete, Finset.card_range] at hlength
  refine ⟨(kahn (List.orderedInsert (· ≤ ·)) p.children p.stages.length p.inDegree
    ((List.range p.stages.length).filter fun i => p.inDegree i = 0) []).1, ?_, fun order' horder' => ?_⟩
  · rw [validate, if_neg (not_not.mpr herrors)]
    exact if_neg (not_not.mpr hlength.symm)
  · have hsorted : ((List.range p.stages.length).filter fun i => p.inDegree i = 0).Pairwise (· ≤ ·) :=
      (List.pairwise_lt_range.imp Nat.le_of_lt).filter _
    refine kahn_least children_nodup (fun i j => mem_children) p.stages.length hinit hsorted
      (horder'.perm.nodup_iff.mpr List.nodup_range)
      (fun before i rest heq j hj => horder'.after before i rest heq j ((hparents i j).mp hj))
      fun i => ?_
    rw [List.nil_append, horder'.perm.mem_iff, List.mem_range, Finset.mem_range]

/-- **Validation is exact.** -/
theorem validate_exact (p : Pipeline) :
    ((∃ order, p.validate = .ok order) ↔ p.WellFormed) ∧
    (∀ order, p.validate = .ok order → p.ExecutionOrder order ∧
      ∀ order', p.ExecutionOrder order' → order = order' ∨ List.Lex (· < ·) order order') ∧
    (¬p.WellFormed → ∃ error errors, p.validate = .error (error :: errors)) := by
  refine ⟨⟨fun ⟨order, h⟩ => (validate_ok h).1, fun h => ?_⟩, fun order h => ?_, fun hnot => ?_⟩
  · obtain ⟨order, horder, -⟩ := h.validate_least
    exact ⟨order, horder⟩
  · obtain ⟨hwf, horder⟩ := validate_ok h
    obtain ⟨order', h', hleast⟩ := hwf.validate_least
    obtain rfl := Except.ok.inj (h.symm.trans h')
    exact ⟨horder, hleast⟩
  · cases h : p.validate with
    | ok order => exact absurd (validate_ok h).1 hnot
    | error errors =>
      cases errors with
      | cons error errors => exact ⟨error, errors, rfl⟩
      | nil =>
        unfold validate at h
        split_ifs at h with herrors
        · exact absurd (Except.error.inj h) herrors
        · dsimp only at h
          split_ifs at h
          exact nomatch Except.error.inj h

end Pipeline

end Souxmar.Pipeline
