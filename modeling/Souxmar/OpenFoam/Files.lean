import Souxmar.OpenFoam.Faces
import Souxmar.OpenFoam.Layout

/-!
# The written files

The translator accepts a mesh of linear solid cells, and writes its internal faces, sorted, and behind them its
boundary faces patch by patch.
-/

namespace Souxmar.OpenFoam

open Souxmar.Core Souxmar.Lib

/-! ## Accepted meshes -/

theorem faceTableFor_eq (t : ElementType) :
    faceTableFor t = if t ∈ solidTypes then some (faceNodeTable t) else none := by
  cases t <;> rfl

theorem faceTableFor_solid {t : ElementType} (h : t ∈ solidTypes) : faceTableFor t = some (faceNodeTable t) := by
  rw [faceTableFor_eq, if_pos h]

theorem unsupported_eq_none_iff {c : ℕ} {cells : List Cell} :
    unsupported c cells = none ↔ ∀ cell ∈ cells, cell.type ∈ solidTypes := by
  induction cells generalizing c with
  | nil => exact iff_of_true rfl (List.forall_mem_nil _)
  | cons cell cells ih =>
    rw [List.forall_mem_cons, unsupported, faceTableFor_eq]
    by_cases h : cell.type ∈ solidTypes
    · rw [if_pos h, and_iff_right h, ← ih (c := c + 1)]
      rfl
    · rw [if_neg h]
      exact iff_of_false (fun hnone => by cases hnone) fun hall => h hall.1

/-- Meshes that are written. -/
structure Accepted (mesh : TaggedMesh) : Prop where
  nodes : mesh.nodes ≠ []
  cells : mesh.cells ≠ []
  solid : ∀ cell ∈ mesh.cells, cell.type ∈ solidTypes

/-! ## The parts of the files -/

section

variable (choices : Choices) (mesh : TaggedMesh) (bcs : List ParsedBC)

def allFaces : List FaceEntry := choices.walk (visitCells 0 mesh.cells ∅)

def internalFaces : List FaceEntry := choices.internal.sort ((allFaces choices mesh).filter fun fe => fe.neighbour ≥ 0)

def boundaryFaces : List FaceEntry := choices.boundary.sort ((allFaces choices mesh).filter fun fe => fe.neighbour < 0)

def tagOf (fe : FaceEntry) : ℤ := mesh.faceTag fe.owner.toNat fe.ownerLocalFace

/-- The tags of the boundary faces, in their order. -/
def tagsPresent : List ℤ := (boundaryFaces choices mesh).map (tagOf mesh)

/-- The boundary faces with a tag. -/
def facesTagged (tag : ℤ) : List FaceEntry := (boundaryFaces choices mesh).filter fun fe => tagOf mesh fe = tag

/-- The boundary faces, patch by patch. -/
def patchFaces : List (List FaceEntry) :=
  (patchTags (tagsPresent choices mesh) bcs).map (facesTagged choices mesh)

def patchList : List BoundaryPatch :=
  (patchTags (tagsPresent choices mesh) bcs).map fun tag =>
    patchOf bcs tag (facesWith (tagsPresent choices mesh).zipIdx tag)

end

theorem faceLocalIdx_patchOf (bcs : List ParsedBC) (tag : ℤ) (faces : List ℕ) :
    (patchOf bcs tag faces).faceLocalIdx = faces := by
  unfold patchOf wallsPatch
  split_ifs
  · rfl
  · split
    · rfl
    · rfl

theorem filterMap_facesWith {α : Type} (l : List α) (tag : α → ℤ) (t : ℤ) :
    ((facesWith (l.map tag).zipIdx t).filterMap fun i => l[i]?) = l.filter fun a => tag a = t := by
  have hzip : (l.map tag).zipIdx = l.zipIdx.map fun p => (tag p.1, p.2) := List.zipIdx_map
  have hget : ∀ p ∈ l.zipIdx.filter fun p => decide (tag p.1 = t), l[p.2]? = some p.1 := fun p hp =>
    List.mk_mem_zipIdx_iff_getElem?.mp (List.mem_of_mem_filter hp)
  have hfst : l.zipIdx.map Prod.fst = l := List.zipIdx_map_fst 0 l
  calc ((facesWith (l.map tag).zipIdx t).filterMap fun i => l[i]?)
      = (l.zipIdx.filter fun p => decide (tag p.1 = t)).filterMap fun p => l[p.2]? := by
        rw [facesWith, hzip, List.filter_map, List.map_map, List.filterMap_map]
        rfl
    _ = (l.zipIdx.filter fun p => decide (tag p.1 = t)).map Prod.fst := by
        rw [List.filterMap_congr hget]
        exact congrFun (List.filterMap_eq_map (f := Prod.fst)) _
    _ = (l.zipIdx.map Prod.fst).filter fun a => decide (tag a = t) := by
        rw [List.filter_map]
        rfl
    _ = l.filter fun a => tag a = t := by rw [hfst]

theorem length_facesWith {α : Type} (l : List α) (tag : α → ℤ) (t : ℤ) :
    (facesWith (l.map tag).zipIdx t).length = (l.filter fun a => tag a = t).length := by
  have hzip : (l.map tag).zipIdx = l.zipIdx.map fun p => (tag p.1, p.2) := List.zipIdx_map
  have hfst : l.zipIdx.map Prod.fst = l := List.zipIdx_map_fst 0 l
  have hfilter : (l.filter fun a => decide (tag a = t)) =
      (l.zipIdx.filter fun p => decide (tag p.1 = t)).map Prod.fst := by
    conv_lhs => rw [← hfst]
    rw [List.filter_map]
    rfl
  rw [hfilter, facesWith, hzip, List.filter_map, List.length_map, List.length_map, List.length_map]
  rfl

section

variable {choices : Choices} {mesh : TaggedMesh} {bcs : List ParsedBC}

/-- What is written. -/
theorem write_eq (h : Accepted mesh) : writePolymeshFromMesh choices mesh bcs =
    .ok
      { points := mesh.nodes
        faces := (internalFaces choices mesh ++ (patchFaces choices mesh bcs).flatten).map FaceEntry.vertsOwner
        owner := (internalFaces choices mesh ++ (patchFaces choices mesh bcs).flatten).map FaceEntry.owner
        neighbour := (internalFaces choices mesh).map FaceEntry.neighbour
        boundary := boundaryLines (internalFaces choices mesh).length (patchList choices mesh bcs)
        patches := patchList choices mesh bcs } := by
  have hguard : (decide (mesh.nodes = []) || decide (mesh.cells = [])) = false := by
    rw [decide_eq_false h.nodes, decide_eq_false h.cells]
    rfl
  have hgrouped : GroupedBy ((tagsPresent choices mesh).zipIdx.foldl groupFace {})
      (tagsPresent choices mesh).zipIdx := by
    have hall := groupedBy_start.groupFaces (tagsPresent choices mesh).zipIdx
    rwa [List.nil_append] at hall
  have hpatches : buildPatches choices ((tagsPresent choices mesh).zipIdx.foldl groupFace {}) bcs =
      patchList choices mesh bcs := by
    rw [buildPatches_eq choices hgrouped, List.zipIdx_map_fst]
    rfl
  have hreordered : ((patchList choices mesh bcs).flatMap fun p => p.faceLocalIdx).filterMap
      (fun i => (boundaryFaces choices mesh)[i]?) = (patchFaces choices mesh bcs).flatten := by
    rw [patchList, List.flatMap_map, List.filterMap_flatMap, patchFaces, ← List.flatMap_def]
    apply List.flatMap_congr
    intro tag _
    rw [faceLocalIdx_patchOf]
    exact filterMap_facesWith (boundaryFaces choices mesh) (tagOf mesh) tag
  rw [writePolymeshFromMesh, hguard, unsupported_eq_none_iff.mpr h.solid]
  dsimp only
  change Except.ok _ = _
  rw [← hreordered, ← hpatches]
  rfl

theorem write_error (h : ¬Accepted mesh) :
    ∃ status, ∀ choices bcs, writePolymeshFromMesh choices mesh bcs = .error status := by
  by_cases hguard : (decide (mesh.nodes = []) || decide (mesh.cells = [])) = true
  · exact ⟨.noNodesOrCells, fun choices bcs => if_pos hguard⟩
  · cases hnone : unsupported 0 mesh.cells with
    | none =>
      rw [Bool.or_eq_true, decide_eq_true_eq, decide_eq_true_eq, not_or] at hguard
      exact absurd ⟨hguard.1, hguard.2, unsupported_eq_none_iff.mp hnone⟩ h
    | some found =>
      refine ⟨.unsupportedType found.1 found.2, fun choices bcs => ?_⟩
      rw [writePolymeshFromMesh, if_neg hguard, hnone]

theorem accepted_of_write {out : PolyMesh} (h : writePolymeshFromMesh choices mesh bcs = .ok out) : Accepted mesh := by
  by_contra hnot
  obtain ⟨status, hstatus⟩ := write_error hnot
  rw [hstatus] at h
  cases h

theorem patchFaces_perm (choices : Choices) (mesh : TaggedMesh) (bcs : List ParsedBC) :
    (patchFaces choices mesh bcs).flatten.Perm (boundaryFaces choices mesh) := by
  rw [patchFaces, ← List.flatMap_def]
  apply perm_groups (nodup_patchTags _ bcs)
  intro fe hfe
  exact mem_patchTags.mpr (List.mem_map_of_mem hfe)

theorem faces_perm (choices : Choices) (mesh : TaggedMesh) (bcs : List ParsedBC) :
    (internalFaces choices mesh ++ (patchFaces choices mesh bcs).flatten).Perm (allFaces choices mesh) := by
  have hsplit := List.filter_append_perm (fun fe : FaceEntry => decide (fe.neighbour ≥ 0)) (allFaces choices mesh)
  have hboundary : ((allFaces choices mesh).filter fun fe => !decide (fe.neighbour ≥ 0)) =
      (allFaces choices mesh).filter fun fe => decide (fe.neighbour < 0) := by
    apply List.filter_congr
    intro fe _
    rw [← decide_not, decide_eq_decide, ge_iff_le, not_le]
  rw [hboundary] at hsplit
  exact ((choices.internal.perm _).append ((patchFaces_perm choices mesh bcs).trans (choices.boundary.perm _))).trans
    hsplit

theorem mem_allFaces {fe : FaceEntry} :
    fe ∈ allFaces choices mesh ↔ ∃ k, entryOf (claimants k (cellFaces 0 mesh.cells)) = some fe :=
  (choices.walk_perm _).mem_iff.trans ((visited_mesh mesh.cells).mem_values fe)

theorem mem_internalFaces {fe : FaceEntry} :
    fe ∈ internalFaces choices mesh ↔ fe ∈ allFaces choices mesh ∧ 0 ≤ fe.neighbour := by
  rw [internalFaces, Sorter.mem_sort, List.mem_filter, decide_eq_true_eq, ge_iff_le]

theorem mem_boundaryFaces {fe : FaceEntry} :
    fe ∈ boundaryFaces choices mesh ↔ fe ∈ allFaces choices mesh ∧ fe.neighbour < 0 := by
  rw [boundaryFaces, Sorter.mem_sort, List.mem_filter, decide_eq_true_eq]

/-- The boundary faces are the faces of cells that no other face has the nodes of. -/
theorem mem_boundaryFaces_alone {fe : FaceEntry} : fe ∈ boundaryFaces choices mesh ↔
    ∃ f ∈ cellFaces 0 mesh.cells, tally CellFace.key f.key (cellFaces 0 mesh.cells) = 1 ∧
      fe = ⟨f.verts, f.cell, -1, f.localFace⟩ := by
  rw [mem_boundaryFaces, mem_allFaces]
  constructor
  · rintro ⟨⟨k, hk⟩, hnb⟩
    have hone := (entryFor_of_entryOf hk).alone.mp hnb
    have hlength := hone
    rw [← length_claimants] at hlength
    obtain ⟨f, hclaim⟩ := List.length_eq_one_iff.mp hlength
    have hin : f ∈ claimants k (cellFaces 0 mesh.cells) := by
      rw [hclaim]
      exact List.mem_cons_self
    obtain ⟨hvisited, rfl⟩ := mem_claimants.mp hin
    rw [hclaim] at hk
    exact ⟨f, hvisited, hone, (Option.some.inj hk).symm⟩
  · rintro ⟨f, hf, hone, rfl⟩
    have hlength := hone
    rw [← length_claimants] at hlength
    obtain ⟨g, hclaim⟩ := List.length_eq_one_iff.mp hlength
    have hin : f ∈ claimants f.key (cellFaces 0 mesh.cells) := mem_claimants.mpr ⟨hf, rfl⟩
    rw [hclaim] at hin
    obtain rfl := List.mem_singleton.mp hin
    refine ⟨⟨f.key, ?_⟩, (by decide : (-1 : ℤ) < 0)⟩
    rw [hclaim]
    rfl

theorem nodup_allFaces (choices : Choices) (mesh : TaggedMesh) :
    ((allFaces choices mesh).map fun fe => faceKey fe.vertsOwner).Nodup :=
  ((choices.walk_perm _).map _).nodup_iff.mpr (visited_mesh mesh.cells).nodup_keys

end

end Souxmar.OpenFoam
