import Mathlib.Data.List.Dedup
import Mathlib.Data.List.Sort
import Souxmar.Lib.Frontier
import Souxmar.Pipeline.Value

/-!
# Validating a pipeline

`dag.cpp`: the errors of a pipeline, and the order in which its stages run. `validate_ordered` is what
the runners build on: in the order that `validate` returns every stage stands once, after the stages
it refers to.
-/

set_option linter.dupNamespace false

namespace Souxmar.Pipeline

open Souxmar.Lib

structure Stage where
  id : String
  plugin : String
  input : Value
deriving Repr

/-- A parsed pipeline. Its version is left out: nothing here reads it. -/
structure Pipeline where
  stages : List Stage
deriving Repr

structure DagError where
  message : String
  stageId : String
deriving DecidableEq, Repr

/-- The references of a stage, each once. -/
def Stage.uniqRefs (s : Stage) : List String := (collectStageRefs s.input).dedup

namespace Pipeline

variable (p : Pipeline)

/-- The first stage with an id; an empty id is not indexed. -/
def idToIndex (id : String) : Option ℕ :=
  if id.isEmpty then none else p.stages.findIdx? (·.id = id)

def idErrors (s : Stage) (i : ℕ) : List DagError :=
  if s.id.isEmpty then [⟨"stage id must be non-empty", ""⟩]
  else if p.idToIndex s.id ≠ some i then [⟨"duplicate stage id '" ++ s.id ++ "'", s.id⟩]
  else []

def refErrors (s : Stage) : List DagError :=
  s.uniqRefs.filterMap fun ref =>
    if ref = s.id then
      some ⟨"stage '" ++ s.id ++ "' references itself via `from: " ++ s.id ++ "`", s.id⟩
    else
      match p.idToIndex ref with
      | none => some ⟨"stage '" ++ s.id ++ "' references unknown stage '" ++ ref ++ "'", s.id⟩
      | some _ => none

/-- The stages whose outputs a stage waits for. -/
def producers (s : Stage) : List ℕ :=
  s.uniqRefs.filterMap fun ref => if ref = s.id then none else p.idToIndex ref

/-- The adjacency list of a producer, filled in declaration order. -/
def children (producer : ℕ) : List ℕ :=
  (List.range p.stages.length).filter fun i =>
    (p.stages[i]?).any fun s => producer ∈ p.producers s

def inDegree (i : ℕ) : ℕ :=
  match p.stages[i]? with
  | some s => (p.producers s).length
  | none => 0

def dagErrors : List DagError :=
  p.stages.zipIdx.flatMap (fun si => p.idErrors si.1 si.2) ++ p.stages.flatMap p.refErrors

/-- `validate`: ready stages are worked off in declaration order. -/
def validate : Except (List DagError) (List ℕ) :=
  if p.dagErrors ≠ [] then .error p.dagErrors
  else
    let ready := (List.range p.stages.length).filter fun i => p.inDegree i = 0
    let (order, inDegree) :=
      kahn (List.orderedInsert (· ≤ ·)) p.children p.stages.length p.inDegree ready []
    if order.length ≠ p.stages.length then
      let cycleMembers := p.stages.zipIdx.filterMap fun si =>
        if inDegree si.2 > 0 then some si.1.id else none
      .error [⟨"pipeline contains a cycle involving stages: " ++ ", ".intercalate cycleMembers, ""⟩]
    else .ok order

/-! ## What a valid order gives -/

/-- The nodes a stage waits for. -/
def parents (i : ℕ) : Finset ℕ :=
  match p.stages[i]? with
  | some s => (p.producers s).toFinset
  | none => ∅

variable {p}

theorem getElem?_of_idToIndex {id : String} {i : ℕ} (h : p.idToIndex id = some i) :
    ∃ s, p.stages[i]? = some s ∧ s.id = id := by
  unfold idToIndex at h
  split_ifs at h
  obtain ⟨hi, hid, -⟩ := List.findIdx?_eq_some_iff_getElem.mp h
  exact ⟨p.stages[i], List.getElem?_eq_getElem hi, by simpa using hid⟩

theorem idToIndex_inj {id id' : String} {i : ℕ} (h : p.idToIndex id = some i)
    (h' : p.idToIndex id' = some i) : id = id' := by
  obtain ⟨s, hs, rfl⟩ := getElem?_of_idToIndex h
  obtain ⟨s', hs', rfl⟩ := getElem?_of_idToIndex h'
  rw [hs] at hs'
  rw [Option.some.inj hs']

theorem producers_nodup (s : Stage) : (p.producers s).Nodup := by
  refine List.Nodup.filterMap ?_ (List.nodup_dedup _)
  intro ref ref' i h h'
  rw [Option.mem_def, Option.ite_none_left_eq_some] at h h'
  exact idToIndex_inj h.2 h'.2

theorem mem_producers {s : Stage} {j : ℕ} :
    j ∈ p.producers s ↔ ∃ ref ∈ collectStageRefs s.input, ref ≠ s.id ∧ p.idToIndex ref = some j := by
  unfold producers Stage.uniqRefs
  rw [List.mem_filterMap]
  simp only [List.mem_dedup, Option.ite_none_left_eq_some]

theorem mem_children {i j : ℕ} :
    i ∈ p.children j ↔ i ∈ Finset.range p.stages.length ∧ j ∈ p.parents i := by
  unfold children parents
  rw [List.mem_filter, List.mem_range, Finset.mem_range]
  refine and_congr_right fun hi => ?_
  rw [List.getElem?_eq_getElem hi]
  simp

theorem children_nodup (j : ℕ) : (p.children j).Nodup := List.nodup_range.filter _

theorem inDegree_eq (i : ℕ) : p.inDegree i = (p.parents i).card := by
  unfold inDegree parents
  split
  · rw [List.toFinset_card_of_nodup (producers_nodup _)]
  · rfl

/-- The stages fit together, and `order` has each of them once, after the stages it refers to. -/
structure Ordered (p : Pipeline) (order : List ℕ) : Prop where
  ids : ∀ i s, p.stages[i]? = some s → p.idToIndex s.id = some i
  refs : ∀ s ∈ p.stages, ∀ ref ∈ collectStageRefs s.input,
    ref ≠ s.id ∧ ∃ j, p.idToIndex ref = some j
  perm : order.Perm (List.range p.stages.length)
  topological : Topological p.parents order

/-- What a stage refers to stands before it. -/
theorem Ordered.ref_before {order before after : List ℕ} (h : p.Ordered order) {i : ℕ} {s : Stage}
    (horder : order = before ++ i :: after) (hs : p.stages[i]? = some s) {ref : String}
    (href : ref ∈ collectStageRefs s.input) :
    ∃ j ∈ before, p.idToIndex ref = some j ∧ ∃ t, p.stages[j]? = some t ∧ t.id = ref := by
  obtain ⟨hself, j, hj⟩ := h.refs s (List.mem_of_getElem? hs) ref href
  have hparent : j ∈ p.parents i := by
    unfold parents
    rw [hs]
    exact List.mem_toFinset.mpr (mem_producers.mpr ⟨ref, href, hself, hj⟩)
  exact ⟨j, h.topological before i after horder j hparent, hj, getElem?_of_idToIndex hj⟩

theorem orderedInsert_perm (x : ℕ) (ready : List ℕ) :
    (List.orderedInsert (· ≤ ·) x ready).Perm (x :: ready) :=
  List.perm_orderedInsert _ x ready

theorem idErrors_nil {s : Stage} {i : ℕ} (h : p.idErrors s i = []) : p.idToIndex s.id = some i := by
  unfold idErrors at h
  split_ifs at h with _ hindex
  exact not_not.mp hindex

theorem refErrors_nil {s : Stage} (h : p.refErrors s = []) {ref : String}
    (href : ref ∈ collectStageRefs s.input) : ref ≠ s.id ∧ ∃ j, p.idToIndex ref = some j := by
  unfold refErrors at h
  rw [List.filterMap_eq_nil_iff] at h
  have hnone := h ref (List.mem_dedup.mpr href)
  split_ifs at hnone with hself
  refine ⟨hself, ?_⟩
  cases hindex : p.idToIndex ref with
  | none => rw [hindex] at hnone; exact nomatch hnone
  | some j => exact ⟨j, rfl⟩

theorem frontier_init (p : Pipeline) :
    Frontier (Finset.range p.stages.length) p.parents ∅ ∅ p.inDegree
      ((List.range p.stages.length).filter fun i => p.inDegree i = 0) :=
  Frontier.init (fun i _ => inDegree_eq i) (List.nodup_range.filter _) fun i => by simp

theorem validate_ordered {order : List ℕ} (h : p.validate = .ok order) : p.Ordered order := by
  unfold validate at h
  split_ifs at h with herrors
  rw [ne_eq, not_not, dagErrors, List.append_eq_nil_iff, List.flatMap_eq_nil_iff,
    List.flatMap_eq_nil_iff] at herrors
  have hkahn := kahn_topological orderedInsert_perm children_nodup (fun i j => mem_children)
    p.stages.length (frontier_init p) List.nodup_nil (fun before i after heq => by simp at heq)
  dsimp only at h
  split_ifs at h with hlength
  obtain rfl := Except.ok.inj h
  rw [not_not] at hlength
  refine ⟨fun i s hs => ?_, fun s hs ref href => refErrors_nil (herrors.2 s hs) href, ?_, hkahn.2.2⟩
  · exact idErrors_nil (herrors.1 (s, i) (List.mem_zipIdx_iff_getElem?.mpr hs))
  · -- distinct indices below the number of stages, and as many of them
    have hsub : ∀ i ∈ _, i ∈ List.range p.stages.length := fun i hi =>
      List.mem_range.mpr (Finset.mem_range.mp (hkahn.2.1 (List.mem_toFinset.mpr hi)))
    exact (List.subperm_of_subset hkahn.1 hsub).perm_of_length_le (by
      rw [List.length_range, hlength])

end Pipeline

end Souxmar.Pipeline
