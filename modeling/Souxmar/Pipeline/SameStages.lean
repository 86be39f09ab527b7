import Souxmar.Pipeline.Dag
import Souxmar.Pipeline.Reparse

/-!
# Validation of equal stages

`validate` reads the ids of the stages and the references in their inputs, and nothing else of them.
-/

set_option linter.dupNamespace false

namespace Souxmar.Pipeline

theorem collectStageRefs_equal {v v' : Value} (h : v.equal v' = true) : collectStageRefs v = collectStageRefs v' := by
  induction v generalizing v' with
  | list items ih =>
    cases v' with
    | list items' =>
      replace h : Value.equalItems items items' = true := h
      show collectStageRefsItems items = collectStageRefsItems items'
      induction items generalizing items' with
      | nil =>
        cases items' with
        | nil => rfl
        | cons _ _ => cases h
      | cons item items ihs =>
        cases items' with
        | nil => cases h
        | cons item' items' =>
          rw [Value.equalItems, Bool.and_eq_true] at h
          rw [collectStageRefsItems, collectStageRefsItems, ih item List.mem_cons_self h.1,
            ihs (fun v hv => ih v (List.mem_cons_of_mem _ hv)) items' h.2]
    | _ => cases h
  | map fields ih =>
    cases v' with
    | map fields' =>
      replace h : Value.equalFields fields fields' = true := h
      show collectStageRefsFields fields = collectStageRefsFields fields'
      induction fields generalizing fields' with
      | nil =>
        cases fields' with
        | nil => rfl
        | cons _ _ => cases h
      | cons field fields ihs =>
        cases fields' with
        | nil => cases h
        | cons field' fields' =>
          rw [Value.equalFields, Bool.and_eq_true, Bool.and_eq_true] at h
          rw [collectStageRefsFields, collectStageRefsFields, ih field List.mem_cons_self h.1.2,
            ihs (fun v hv => ih v (List.mem_cons_of_mem _ hv)) fields' h.2]
    | _ => cases h
  | stage id =>
    cases v' with
    | stage id' => rw [of_decide_eq_true (h : decide (id = id') = true)]
    | _ => cases h
  | _ => cases v' with
    | _ => first | rfl | cases h

theorem flatMap_same {α β γ : Type} {R : α → β → Prop} {f : α → List γ} {g : β → List γ}
    (hfg : ∀ a b, R a b → f a = g b) {l : List α} {l' : List β} (h : List.Forall₂ R l l') : l.flatMap f = l'.flatMap g := by
  induction h with
  | nil => rfl
  | cons hab _ ih => rw [List.flatMap_cons, List.flatMap_cons, hfg _ _ hab, ih]

theorem zipIdx_same {α β : Type} {R : α → β → Prop} {l : List α} {l' : List β} (h : List.Forall₂ R l l') (n : ℕ) :
    List.Forall₂ (fun a b => R a.1 b.1 ∧ a.2 = b.2) (l.zipIdx n) (l'.zipIdx n) := by
  induction h generalizing n with
  | nil => exact .nil
  | cons hab _ ih => exact .cons ⟨hab, rfl⟩ (ih (n + 1))

theorem filterMap_same {α β γ : Type} {R : α → β → Prop} {f : α → Option γ} {g : β → Option γ}
    (hfg : ∀ a b, R a b → f a = g b) {l : List α} {l' : List β} (h : List.Forall₂ R l l') :
    l.filterMap f = l'.filterMap g := by
  induction h with
  | nil => rfl
  | cons hab _ ih => rw [List.filterMap_cons, List.filterMap_cons, hfg _ _ hab, ih]

theorem getElem?_same {α β : Type} {R : α → β → Prop} {l : List α} {l' : List β} (h : List.Forall₂ R l l') (i : ℕ) :
    (l[i]? = none ∧ l'[i]? = none) ∨ ∃ a b, l[i]? = some a ∧ l'[i]? = some b ∧ R a b := by
  induction h generalizing i with
  | nil => exact .inl ⟨rfl, rfl⟩
  | cons hab _ ih =>
    cases i with
    | zero => exact .inr ⟨_, _, rfl, rfl, hab⟩
    | succ i => exact ih i

namespace Pipeline

variable {p q : Pipeline} (h : List.Forall₂ Stage.Same p.stages q.stages)

include h

theorem idToIndex_same (id : String) : p.idToIndex id = q.idToIndex id := by
  have hids : ∀ stages : List Stage, stages.findIdx? (·.id = id) = (stages.map Stage.id).findIdx? (· = id) := by
    intro stages
    rw [List.findIdx?_map]
    rfl
  unfold idToIndex
  rw [hids, hids, ids_of_same h]

omit h in
theorem uniqRefs_same {s s' : Stage} (h : s.Same s') : s.uniqRefs = s'.uniqRefs := by
  rw [Stage.uniqRefs, Stage.uniqRefs, collectStageRefs_equal h.input]

theorem producers_same {s s' : Stage} (hs : s.Same s') : p.producers s = q.producers s' := by
  unfold producers
  rw [uniqRefs_same hs, hs.id]
  simp only [idToIndex_same h]

theorem dagErrors_same : p.dagErrors = q.dagErrors := by
  have hid : ∀ s s' : Stage × ℕ, s.1.Same s'.1 ∧ s.2 = s'.2 → p.idErrors s.1 s.2 = q.idErrors s'.1 s'.2 := by
    rintro ⟨s, i⟩ ⟨s', i'⟩ ⟨hs, rfl⟩
    unfold idErrors
    rw [idToIndex_same h, hs.id]
  have href : ∀ s s' : Stage, s.Same s' → p.refErrors s = q.refErrors s' := by
    intro s s' hs
    unfold refErrors
    rw [uniqRefs_same hs, hs.id]
    simp only [idToIndex_same h]
  unfold dagErrors
  rw [flatMap_same hid (zipIdx_same h 0), flatMap_same href h]

theorem inDegree_same : p.inDegree = q.inDegree := by
  funext i
  unfold inDegree
  rcases getElem?_same h i with ⟨hp, hq⟩ | ⟨s, s', hp, hq, hs⟩
  · rw [hp, hq]
  · rw [hp, hq]
    exact congrArg List.length (producers_same h hs)

theorem children_same : p.children = q.children := by
  funext producer
  unfold children
  rw [h.length_eq]
  refine List.filter_congr fun i _ => ?_
  rcases getElem?_same h i with ⟨hp, hq⟩ | ⟨s, s', hp, hq, hs⟩
  · rw [hp, hq, Option.any_none, Option.any_none]
  · rw [hp, hq, Option.any_some, Option.any_some, producers_same h hs]

/-- Stages that compare equal are validated alike. -/
theorem validate_same : p.validate = q.validate := by
  have hcycle : ∀ inDegree : ℕ → ℕ,
      (p.stages.zipIdx.filterMap fun si => if inDegree si.2 > 0 then some si.1.id else none) =
        q.stages.zipIdx.filterMap fun si => if inDegree si.2 > 0 then some si.1.id else none := by
    refine fun inDegree => filterMap_same ?_ (zipIdx_same h 0)
    rintro ⟨s, i⟩ ⟨s', i'⟩ ⟨hs, rfl⟩
    rw [hs.id]
  unfold validate
  simp only [dagErrors_same h, children_same h, inDegree_same h, h.length_eq, hcycle]

end Pipeline

end Souxmar.Pipeline
