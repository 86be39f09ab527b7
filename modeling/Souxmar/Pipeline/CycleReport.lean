import Souxmar.Pipeline.Validation

/-!
# The report of a cycle

When the working-off stops before the end, `validate` names the stages whose counter is not zero: those
on a cycle of references, and those behind one. `cycle_report_iff` says when these are the stages of the
cycles.
-/

set_option linter.dupNamespace false

namespace Souxmar.Pipeline

open Souxmar.Lib

namespace Pipeline

variable {p : Pipeline}

/-- The stage refers to itself, however indirectly. -/
def OnCycle (p : Pipeline) (i : ℕ) : Prop := Relation.TransGen p.Refers i i

theorem kahn_leftover (hparents : ∀ i j, j ∈ p.parents i ↔ p.Refers i j) :
    ∃ order degree,
      kahn (List.orderedInsert (· ≤ ·)) p.children p.stages.length p.inDegree
        ((List.range p.stages.length).filter fun i => p.inDegree i = 0) [] = (order, degree) ∧
      order.Nodup ∧ (∀ i ∈ order, i < p.stages.length) ∧
      (∀ i < p.stages.length, 0 < degree i ↔ i ∉ order) ∧
      ∀ i < p.stages.length, i ∉ order ↔ ∃ j, p.OnCycle j ∧ Relation.ReflTransGen p.Refers i j := by
  have hinit : Frontier (Finset.range p.stages.length) p.parents ([] : List ℕ).toFinset
      ([] : List ℕ).toFinset p.inDegree _ := frontier_init p
  have hrests := kahn_rests orderedInsert_perm children_nodup (fun i j => mem_children)
    p.stages.length hinit (by simp)
  obtain ⟨hnodup, hnodes, htop⟩ := kahn_topological orderedInsert_perm children_nodup
    (fun i j => mem_children) p.stages.length hinit List.nodup_nil
    (fun before i after heq => by simp at heq)
  refine ⟨_, _, rfl, hnodup, fun i hi => ?_, fun i hi => ?_, fun i hi => ?_⟩
  · exact Finset.mem_range.mp (hnodes (List.mem_toFinset.mpr hi))
  · rw [hrests.degree_pos_iff (Finset.mem_range.mpr hi), List.mem_toFinset]
  · rw [left_over_iff hrests hnodup htop (parents_subset hparents) (Finset.mem_range.mpr hi)]
    refine exists_congr fun j => and_congr ?_ ?_
    · rw [← Relation.transGen_swap, swap_feeds hparents]
      rfl
    · rw [← Relation.reflTransGen_swap, swap_feeds hparents]

/-- The ids of the stages with a property, in declaration order. -/
def idsWhere (p : Pipeline) (named : ℕ → Bool) : List String :=
  p.stages.zipIdx.filterMap fun si => if named si.2 then some si.1.id else none

theorem idsWhere_sublist (p : Pipeline) (named : ℕ → Bool) :
    (p.idsWhere named).Sublist (p.stages.map Stage.id) := by
  have hsub : ∀ l : List (Stage × ℕ),
      (l.filterMap fun si => if named si.2 then some si.1.id else none).Sublist (l.map fun si => si.1.id) := by
    intro l
    induction l with
    | nil => exact .slnil
    | cons si l ih =>
      rw [List.filterMap_cons, List.map_cons]
      split_ifs
      · exact ih.cons_cons _
      · exact ih.cons _
  have hids : p.stages.zipIdx.map (fun si => si.1.id) = p.stages.map Stage.id := by
    conv_rhs => rw [← List.zipIdx_map_fst 0 p.stages, List.map_map]
    rfl
  exact hids ▸ hsub p.stages.zipIdx

theorem mem_idsWhere (named : ℕ → Bool) (hdistinct : (p.stages.map Stage.id).Nodup) {i : ℕ} {s : Stage}
    (hs : p.stages[i]? = some s) : s.id ∈ p.idsWhere named ↔ named i = true := by
  rw [idsWhere, List.mem_filterMap]
  constructor
  · rintro ⟨⟨t, j⟩, hmem, hid⟩
    rw [Option.ite_none_right_eq_some] at hid
    have ht : p.stages[j]? = some t := List.mem_zipIdx_iff_getElem?.mp hmem
    have hi : i < (p.stages.map Stage.id).length := by
      rw [List.length_map]
      exact (List.getElem?_eq_some_iff.mp hs).1
    have hij : i = j := by
      refine (List.getElem?_inj hi hdistinct).mp ?_
      rw [List.getElem?_map, List.getElem?_map, hs, ht, Option.map_some, Option.map_some, Option.some.inj hid.2]
    rw [hij]
    exact hid.1
  · intro hnamed
    exact ⟨(s, i), List.mem_zipIdx_iff_getElem?.mpr hs, by rw [if_pos hnamed]⟩

/-- The stages on a cycle and those behind one are named, in declaration order; they are the stages of the cycles
if and only if no other stage refers to one of these. -/
theorem cycle_report_iff (hids : ∀ s ∈ p.stages, s.id ≠ "") (hdistinct : (p.stages.map Stage.id).Nodup)
    (hrefs : ∀ s ∈ p.stages, ∀ id, s.input.Mentions id → id ≠ s.id ∧ ∃ t ∈ p.stages, t.id = id)
    (hcycle : ∃ i, p.OnCycle i) :
    ∃ named, p.validate =
        .error [⟨"pipeline contains a cycle involving stages: " ++ ", ".intercalate named, ""⟩] ∧
      named.Sublist (p.stages.map Stage.id) ∧
      (∀ i s, p.stages[i]? = some s →
        (s.id ∈ named ↔ ∃ j, p.OnCycle j ∧ Relation.ReflTransGen p.Refers i j)) ∧
      ((∀ i s, p.stages[i]? = some s → (s.id ∈ named ↔ p.OnCycle i)) ↔
        ∀ i j, p.Refers i j → p.OnCycle j → p.OnCycle i) := by
  have hparents : ∀ i j, j ∈ p.parents i ↔ p.Refers i j := fun i j =>
    mem_parents_iff hids hdistinct fun s hs id hid => (hrefs s hs id hid).1
  obtain ⟨order, degree, hkahn, hnodup, hbound, hdegree, hleft⟩ := kahn_leftover hparents
  have hstage : ∀ i, p.OnCycle i → i < p.stages.length := by
    intro i hi
    obtain ⟨j, ⟨s, -, hs, -⟩, -⟩ := Relation.TransGen.head'_iff.mp hi
    exact (List.getElem?_eq_some_iff.mp hs).1
  have hshort : order.length ≠ p.stages.length := by
    obtain ⟨i, hi⟩ := hcycle
    intro hlength
    have hsub : ∀ j ∈ order, j ∈ List.range p.stages.length := fun j hj => List.mem_range.mpr (hbound j hj)
    have hperm := (List.subperm_of_subset hnodup hsub).perm_of_length_le (by rw [List.length_range, hlength])
    have hmem := hperm.mem_iff.mpr (List.mem_range.mpr (hstage i hi))
    exact (hleft i (hstage i hi)).mpr ⟨i, hi, .refl⟩ hmem
  have hnamed : ∀ i s, p.stages[i]? = some s →
      (s.id ∈ p.idsWhere (fun i => degree i > 0) ↔
        ∃ j, p.OnCycle j ∧ Relation.ReflTransGen p.Refers i j) := by
    intro i s hs
    have hi := (List.getElem?_eq_some_iff.mp hs).1
    rw [mem_idsWhere _ hdistinct hs, decide_eq_true_eq, gt_iff_lt, hdegree i hi, hleft i hi]
  refine ⟨_, ?_, ?_, hnamed, ?_⟩
  · rw [validate, if_neg (not_not.mpr (dagErrors_eq_nil_iff.mpr ⟨hids, hdistinct, hrefs⟩))]
    dsimp only
    rw [hkahn, if_pos hshort]
    simp [idsWhere]
  · exact idsWhere_sublist p _
  · constructor
    · intro hexact i j hij hj
      obtain ⟨s, -, hs, -⟩ := id hij
      exact (hexact i s hs).mp ((hnamed i s hs).mpr ⟨j, hj, .single hij⟩)
    · intro hdirect i s hs
      have hback : ∀ k j, p.OnCycle j → Relation.ReflTransGen p.Refers k j → p.OnCycle k := by
        intro k j hj hpath
        induction hpath using Relation.ReflTransGen.head_induction_on with
        | refl => exact hj
        | head hrefers _ ih => exact hdirect _ _ hrefers ih
      rw [hnamed i s hs]
      constructor
      · rintro ⟨j, hj, hpath⟩
        exact hback i j hj hpath
      · exact fun hi => ⟨i, hi, .refl⟩

/-- `a` and `b` refer to each other, and `c` to `a`. -/
def chainBehindCycle : Pipeline :=
  { stages := [⟨"a", "x", .stage "b"⟩, ⟨"b", "x", .stage "a"⟩, ⟨"c", "x", .stage "a"⟩] }

theorem chainBehindCycle_refs : ∀ s ∈ chainBehindCycle.stages, ∀ id, s.input.Mentions id →
    id ≠ s.id ∧ ∃ t ∈ chainBehindCycle.stages, t.id = id := by
  intro s hs id hid
  rw [← mem_collectStageRefs] at hid
  simp only [chainBehindCycle, List.mem_cons, List.not_mem_nil, or_false] at hs
  rcases hs with rfl | rfl | rfl <;> obtain rfl := List.mem_singleton.mp hid <;> decide

theorem chainBehindCycle_onCycle : chainBehindCycle.OnCycle 0 := by
  have hab : chainBehindCycle.Refers 0 1 := ⟨_, _, rfl, rfl, .stage⟩
  have hba : chainBehindCycle.Refers 1 0 := ⟨_, _, rfl, rfl, .stage⟩
  exact .tail (.single hab) hba

theorem chainBehindCycle_not_onCycle : ¬chainBehindCycle.OnCycle 2 := by
  intro hcycle
  obtain ⟨i, -, s, t, hs, ht, hmentions⟩ := Relation.TransGen.tail'_iff.mp hcycle
  obtain rfl := Option.some.inj ht
  have hall : ∀ s ∈ chainBehindCycle.stages, "c" ∉ collectStageRefs s.input := by decide
  exact hall s (List.mem_of_getElem? hs) (mem_collectStageRefs.mpr hmentions)

/-- The report of a pipeline whose ids and references are well formed. -/
theorem cycle_report_chain :
    ∃ named, chainBehindCycle.validate =
        .error [⟨"pipeline contains a cycle involving stages: " ++ ", ".intercalate named, ""⟩] ∧
      named.Sublist (chainBehindCycle.stages.map Stage.id) :=
  have ⟨named, hreport, hsub, _⟩ := @cycle_report_iff chainBehindCycle (by decide) (by decide)
    chainBehindCycle_refs ⟨0, chainBehindCycle_onCycle⟩
  ⟨named, hreport, hsub⟩

/-- The stage behind the cycle is named as one of it. -/
theorem bystander_named :
    (∀ s ∈ chainBehindCycle.stages, s.id ≠ "") ∧ (chainBehindCycle.stages.map Stage.id).Nodup ∧
      (∀ s ∈ chainBehindCycle.stages, ∀ id, s.input.Mentions id →
        id ≠ s.id ∧ ∃ t ∈ chainBehindCycle.stages, t.id = id) ∧
      chainBehindCycle.OnCycle 0 ∧ ¬chainBehindCycle.OnCycle 2 ∧ chainBehindCycle.validate =
        .error [⟨"pipeline contains a cycle involving stages: a, b, c", ""⟩] :=
  ⟨by decide, by decide, chainBehindCycle_refs, chainBehindCycle_onCycle, chainBehindCycle_not_onCycle,
    by decide⟩

end Pipeline

end Souxmar.Pipeline
