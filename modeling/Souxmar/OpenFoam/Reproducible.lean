import Souxmar.OpenFoam.PatchNames

/-!
# Runs of the translator

Two runs may walk through the hash maps in different orders and sort equal elements differently. The files are the
same exactly when neither the internal faces nor the boundary faces of one tag have elements that compare equal.
-/

namespace Souxmar.OpenFoam

open Souxmar.Core Souxmar.Lib

/-- What the files of `constant/polyMesh` have in them. -/
def PolyMesh.files (out : PolyMesh) :
    List (UInt64 × UInt64 × UInt64) × List (List ℕ) × List ℤ × List ℤ × List BoundaryLine :=
  (out.points, out.faces, out.owner, out.neighbour, out.boundary)

/-- All runs write the same files. -/
def Reproducible (mesh : TaggedMesh) (bcs : List ParsedBC) : Prop :=
  ∀ choices choices', (writePolymeshFromMesh choices mesh bcs).map PolyMesh.files =
    (writePolymeshFromMesh choices' mesh bcs).map PolyMesh.files

/-- The first and the last cell face with these nodes, of two or more. -/
def Spans (mesh : TaggedMesh) (k : List ℕ) (f g : CellFace) : Prop :=
  (claimants k (cellFaces 0 mesh.cells)).head? = some f ∧ (claimants k (cellFaces 0 mesh.cells)).getLast? = some g ∧
    tally CellFace.key k (cellFaces 0 mesh.cells) ≠ 1

/-- A cell has no two boundary faces with one tag, and no two cells are the first and the last one at two faces. -/
structure Separated (mesh : TaggedMesh) : Prop where
  boundary : ∀ f ∈ cellFaces 0 mesh.cells, ∀ g ∈ cellFaces 0 mesh.cells,
    tally CellFace.key f.key (cellFaces 0 mesh.cells) = 1 → tally CellFace.key g.key (cellFaces 0 mesh.cells) = 1 →
      f.cell = g.cell → mesh.faceTag f.cell f.localFace = mesh.faceTag g.cell g.localFace → f = g
  internal : ∀ k k' f g f' g', Spans mesh k f g → Spans mesh k' f' g' → f.cell = f'.cell → g.cell = g'.cell → k = k'

section

variable {choices choices' : Choices} {mesh : TaggedMesh} {bcs : List ParsedBC}

/-! ## Faces in two runs -/

theorem allFaces_perm (choices choices' : Choices) (mesh : TaggedMesh) :
    (allFaces choices mesh).Perm (allFaces choices' mesh) := (choices.walk_perm _).trans (choices'.walk_perm _).symm

theorem boundaryFaces_perm (choices choices' : Choices) (mesh : TaggedMesh) :
    (boundaryFaces choices mesh).Perm (boundaryFaces choices' mesh) :=
  (choices.boundary.perm _).trans
    (((allFaces_perm choices choices' mesh).filter _).trans (choices'.boundary.perm _).symm)

theorem patchTags_eq (choices choices' : Choices) (mesh : TaggedMesh) (bcs : List ParsedBC) :
    patchTags (tagsPresent choices mesh) bcs = patchTags (tagsPresent choices' mesh) bcs :=
  patchTags_congr (fun _ => ((boundaryFaces_perm choices choices' mesh).map (tagOf mesh)).mem_iff) bcs

theorem facesTagged_perm (choices choices' : Choices) (mesh : TaggedMesh) (tag : ℤ) :
    (facesTagged choices mesh tag).Perm (facesTagged choices' mesh tag) :=
  (boundaryFaces_perm choices choices' mesh).filter _

/-- What a line says of a patch. -/
def lineOf (p : BoundaryPatch) : String × String × ℕ := (p.name, p.openfoamType, p.faceLocalIdx.length)

theorem boundaryLines_congr {start : ℕ} {patches patches' : List BoundaryPatch}
    (h : patches.map lineOf = patches'.map lineOf) : boundaryLines start patches = boundaryLines start patches' := by
  induction patches generalizing start patches' with
  | nil =>
    rw [List.map_nil, eq_comm, List.map_eq_nil_iff] at h
    rw [h]
  | cons p patches ih =>
    cases patches' with
    | nil => cases h
    | cons p' patches' =>
      obtain ⟨hline, hrest⟩ := List.cons.inj h
      obtain ⟨hname, hmore⟩ := Prod.mk.inj hline
      obtain ⟨htype, hlength⟩ := Prod.mk.inj hmore
      rw [boundaryLines, boundaryLines, hname, htype, hlength, ih hrest]

theorem lineOf_patchOf (bcs : List ParsedBC) (tag : ℤ) (faces : List ℕ) :
    lineOf (patchOf bcs tag faces) = (nameOf bcs tag, (patchOf bcs tag []).openfoamType, faces.length) := by
  have htype : (patchOf bcs tag faces).openfoamType = (patchOf bcs tag []).openfoamType := by
    unfold patchOf wallsPatch
    split_ifs
    · rfl
    · cases bcs.find? fun bc => bc.tagId = some tag with
      | none => rfl
      | some bc => rfl
  rw [lineOf, name_patchOf, htype, faceLocalIdx_patchOf]

theorem lines_eq (choices choices' : Choices) (mesh : TaggedMesh) (bcs : List ParsedBC) :
    (patchList choices mesh bcs).map lineOf = (patchList choices' mesh bcs).map lineOf := by
  have hlines : ∀ choices : Choices, (patchList choices mesh bcs).map lineOf =
      (patchTags (tagsPresent choices mesh) bcs).map fun tag =>
        (nameOf bcs tag, (patchOf bcs tag []).openfoamType, (facesTagged choices mesh tag).length) := by
    intro choices
    rw [patchList, List.map_map]
    apply List.map_congr_left
    intro tag _
    have hlength := length_facesWith (boundaryFaces choices mesh) (tagOf mesh) tag
    rw [Function.comp_apply, lineOf_patchOf]
    exact congrArg _ (congrArg _ hlength)
  rw [hlines, hlines, patchTags_eq choices choices']
  apply List.map_congr_left
  intro tag _
  rw [(facesTagged_perm choices choices' mesh tag).length_eq]

/-! ## Separated faces -/

theorem spans_of_entry {e : FaceEntry} (he : e ∈ allFaces choices mesh) (hnb : 0 ≤ e.neighbour) :
    ∃ k f g, Spans mesh k f g ∧ e.owner = f.cell ∧ e.neighbour = g.cell ∧
      entryOf (claimants k (cellFaces 0 mesh.cells)) = some e := by
  obtain ⟨k, hk⟩ := mem_allFaces.mp he
  have hentry := entryFor_of_entryOf hk
  obtain ⟨f, -, hhead, -, howner, -⟩ := hentry.first
  obtain ⟨g, -, hlast, hneighbour⟩ := hentry.last hnb
  have hmany : tally CellFace.key k (cellFaces 0 mesh.cells) ≠ 1 := fun hone =>
    absurd (hentry.alone.mpr hone) (Int.not_lt.mpr hnb)
  exact ⟨k, f, g, ⟨hhead, hlast, hmany⟩, howner, hneighbour, hk⟩

theorem entry_of_spans (choices : Choices) {k : List ℕ} {f g : CellFace} (h : Spans mesh k f g) :
    ∃ e ∈ allFaces choices mesh, faceKey e.vertsOwner = k ∧ e.owner = f.cell ∧ 0 ≤ e.neighbour ∧
      e.neighbour = g.cell := by
  obtain ⟨hhead, hlast, hmany⟩ := h
  cases hk : entryOf (claimants k (cellFaces 0 mesh.cells)) with
  | none =>
    cases hclaim : claimants k (cellFaces 0 mesh.cells) with
    | nil =>
      rw [hclaim] at hhead
      cases hhead
    | cons a rest =>
      rw [hclaim] at hk
      cases hk
  | some e =>
    have hentry := entryFor_of_entryOf hk
    have hnb : 0 ≤ e.neighbour := by
      by_contra hneg
      exact hmany (hentry.alone.mp (not_le.mp hneg))
    obtain ⟨f', -, hhead', -, howner, -⟩ := hentry.first
    obtain ⟨g', -, hlast', hneighbour⟩ := hentry.last hnb
    obtain rfl := Option.some.inj (hhead.symm.trans hhead')
    obtain rfl := Option.some.inj (hlast.symm.trans hlast')
    exact ⟨e, mem_allFaces.mpr ⟨k, hk⟩, hentry.key, howner, hnb, hneighbour⟩

theorem Separated.internalFaces_eq (h : Separated mesh) (choices choices' : Choices) :
    internalFaces choices mesh = internalFaces choices' mesh := by
  apply choices.internal.sort_eq choices'.internal ((allFaces_perm choices choices' mesh).filter _)
  intro a ha b hb hab hba
  rw [List.mem_filter, decide_eq_true_eq] at ha hb
  obtain ⟨k, f, g, hspans, howner, hneighbour, hk⟩ := spans_of_entry ha.1 ha.2
  obtain ⟨k', f', g', hspans', howner', hneighbour', hk'⟩ := spans_of_entry hb.1 hb.2
  unfold internalLt at hab hba
  have hkey := h.internal k k' f g f' g' hspans hspans' (by omega) (by omega)
  rw [hkey] at hk
  exact Option.some.inj (hk.symm.trans hk')

theorem Separated.facesTagged_eq (h : Separated mesh) (choices choices' : Choices) (tag : ℤ) :
    facesTagged choices mesh tag = facesTagged choices' mesh tag := by
  apply (facesTagged_perm choices choices' mesh tag).eq_of_pairwise _ ((choices.boundary.sorted _).filter _)
    ((choices'.boundary.sorted _).filter _)
  intro a b ha hb hab hba
  obtain ⟨hain, hatag⟩ := List.mem_filter.mp ha
  obtain ⟨hbin, hbtag⟩ := List.mem_filter.mp hb
  obtain ⟨f, hf, hfone, rfl⟩ := mem_boundaryFaces_alone.mp hain
  obtain ⟨g, hg, hgone, rfl⟩ := mem_boundaryFaces_alone.mp hbin
  unfold boundaryLt at hab hba
  dsimp only at hab hba
  have htags : mesh.faceTag f.cell f.localFace = mesh.faceTag g.cell g.localFace :=
    (of_decide_eq_true hatag).trans (of_decide_eq_true hbtag).symm
  obtain rfl := h.boundary f hf g hg hfone hgone (by omega) htags
  rfl

/-! ## Faces in either order -/

theorem eq_of_verts {e e' : FaceEntry} (he : e ∈ allFaces choices mesh) (he' : e' ∈ allFaces choices mesh)
    (h : e.vertsOwner = e'.vertsOwner) : e = e' :=
  List.inj_on_of_nodup_map (nodup_allFaces choices mesh) he he' (congrArg faceKey h)

theorem nodup_faces (choices : Choices) (mesh : TaggedMesh) : (allFaces choices mesh).Nodup :=
  List.Nodup.of_map _ (nodup_allFaces choices mesh)

theorem faces_of_files (hmesh : Accepted mesh) (hfiles : (writePolymeshFromMesh choices mesh bcs).map PolyMesh.files =
    (writePolymeshFromMesh choices' mesh bcs).map PolyMesh.files) :
    (internalFaces choices mesh ++ (patchFaces choices mesh bcs).flatten).map FaceEntry.vertsOwner =
      (internalFaces choices' mesh ++ (patchFaces choices' mesh bcs).flatten).map FaceEntry.vertsOwner := by
  rw [write_eq hmesh, write_eq hmesh] at hfiles
  exact (Prod.mk.inj (Prod.mk.inj (Except.ok.inj hfiles)).2).1

theorem Reproducible.boundary (h : Reproducible mesh bcs) (hmesh : Accepted mesh) {a b : FaceEntry}
    (ha : a ∈ boundaryFaces plainChoices mesh) (hb : b ∈ boundaryFaces plainChoices mesh) (howner : a.owner = b.owner)
    (htag : tagOf mesh a = tagOf mesh b) : a = b := by
  have htied : Sorter.Tied boundaryLt a b := by
    intro x
    unfold boundaryLt
    rw [howner]
    exact ⟨Iff.rfl, Iff.rfl⟩
  have hnodup := (nodup_faces plainChoices mesh).filter fun fe => decide (fe.neighbour < 0)
  have hain := plainChoices.boundary.mem_sort.mp ha
  have hbin := plainChoices.boundary.mem_sort.mp hb
  let exchanged : Choices :=
    { plainChoices with boundary := plainChoices.boundary.exchange htied hnodup hain hbin }
  have hboundary : boundaryFaces exchanged mesh = (boundaryFaces plainChoices mesh).map (Equiv.swap a b) :=
    plainChoices.boundary.exchange_sort htied hnodup hain hbin
  have hswap : ∀ x, tagOf mesh (Equiv.swap a b x) = tagOf mesh x := by
    intro x
    rw [Equiv.swap_apply_def]
    split_ifs with hxa hxb
    · rw [hxa, htag]
    · rw [hxb, htag]
    · rfl
  have hpatches : patchFaces exchanged mesh bcs =
      (patchFaces plainChoices mesh bcs).map (List.map (Equiv.swap a b)) := by
    rw [patchFaces, patchFaces, patchTags_eq exchanged plainChoices, List.map_map]
    apply List.map_congr_left
    intro tag _
    rw [Function.comp_apply, facesTagged, facesTagged, hboundary, List.filter_map]
    simp only [Function.comp_def, hswap]
  have hfaces := faces_of_files hmesh (h plainChoices exchanged)
  rw [hpatches, ← List.map_flatten, List.map_append, List.map_append] at hfaces
  have hverts := List.append_cancel_left hfaces
  rw [List.map_map, List.map_inj_left] at hverts
  have hsame := hverts a ((patchFaces_perm plainChoices mesh bcs).mem_iff.mpr ha)
  rw [Function.comp_apply, Equiv.swap_apply_left] at hsame
  exact eq_of_verts (mem_boundaryFaces.mp ha).1 (mem_boundaryFaces.mp hb).1 hsame

theorem Reproducible.internal (h : Reproducible mesh bcs) (hmesh : Accepted mesh) {a b : FaceEntry}
    (ha : a ∈ internalFaces plainChoices mesh) (hb : b ∈ internalFaces plainChoices mesh) (howner : a.owner = b.owner)
    (hneighbour : a.neighbour = b.neighbour) : a = b := by
  have htied : Sorter.Tied internalLt a b := by
    intro x
    unfold internalLt
    rw [howner, hneighbour]
    exact ⟨Iff.rfl, Iff.rfl⟩
  have hnodup := (nodup_faces plainChoices mesh).filter fun fe => decide (fe.neighbour ≥ 0)
  have hain := plainChoices.internal.mem_sort.mp ha
  have hbin := plainChoices.internal.mem_sort.mp hb
  let exchanged : Choices :=
    { plainChoices with internal := plainChoices.internal.exchange htied hnodup hain hbin }
  have hinternal : internalFaces exchanged mesh = (internalFaces plainChoices mesh).map (Equiv.swap a b) :=
    plainChoices.internal.exchange_sort htied hnodup hain hbin
  have hpatches : patchFaces exchanged mesh bcs = patchFaces plainChoices mesh bcs := rfl
  have hfaces := faces_of_files hmesh (h plainChoices exchanged)
  rw [hinternal, hpatches, List.map_append, List.map_append] at hfaces
  have hverts := List.append_cancel_right hfaces
  rw [List.map_map, List.map_inj_left] at hverts
  have hsame := hverts a ha
  rw [Function.comp_apply, Equiv.swap_apply_left] at hsame
  exact eq_of_verts (mem_internalFaces.mp ha).1 (mem_internalFaces.mp hb).1 hsame

end

/-- All runs write the same files exactly when no two faces that are sorted together compare equal. -/
theorem reproducible_iff (mesh : TaggedMesh) (bcs : List ParsedBC) :
    Reproducible mesh bcs ↔ (Accepted mesh → Separated mesh) := by
  constructor
  · intro h hmesh
    refine ⟨fun f hf g hg hfone hgone hcell htag => ?_, fun k k' f g f' g' hspans hspans' hfirst hlast => ?_⟩
    · have hsame := h.boundary hmesh (mem_boundaryFaces_alone.mpr ⟨f, hf, hfone, rfl⟩)
        (mem_boundaryFaces_alone.mpr ⟨g, hg, hgone, rfl⟩) (congrArg Nat.cast hcell) htag
      obtain ⟨fcell, fverts, flocal⟩ := f
      obtain ⟨gcell, gverts, glocal⟩ := g
      obtain ⟨rfl, -, -, rfl⟩ := FaceEntry.mk.inj hsame
      obtain rfl : fcell = gcell := hcell
      rfl
    · obtain ⟨a, ha, hakey, haowner, hanb, hacell⟩ := entry_of_spans plainChoices hspans
      obtain ⟨b, hb, hbkey, hbowner, hbnb, hbcell⟩ := entry_of_spans plainChoices hspans'
      have hsame := h.internal hmesh (mem_internalFaces.mpr ⟨ha, hanb⟩) (mem_internalFaces.mpr ⟨hb, hbnb⟩)
        (by rw [haowner, hbowner, hfirst]) (by rw [hacell, hbcell, hlast])
      rw [← hakey, ← hbkey, hsame]
  · intro h choices choices'
    by_cases hmesh : Accepted mesh
    · have hsep := h hmesh
      have hpatches : patchFaces choices mesh bcs = patchFaces choices' mesh bcs := by
        rw [patchFaces, patchFaces, patchTags_eq choices choices']
        exact List.map_congr_left fun tag _ => hsep.facesTagged_eq choices choices' tag
      have hlines : ∀ start, boundaryLines start (patchList choices mesh bcs) =
          boundaryLines start (patchList choices' mesh bcs) := fun _ =>
        boundaryLines_congr (lines_eq choices choices' mesh bcs)
      rw [write_eq hmesh, write_eq hmesh]
      change Except.ok _ = Except.ok _
      dsimp only [PolyMesh.files]
      rw [hpatches, hsep.internalFaces_eq choices choices', hlines]
    · obtain ⟨status, hstatus⟩ := write_error hmesh
      rw [hstatus, hstatus]

/-- The choices of a run that walks through the face map the other way. -/
def backwardChoices : Choices :=
  { plainChoices with
    walk := fun m => (m.entries.map fun e => e.2).reverse
    walk_perm := fun _ => List.reverse_perm _ }

/-- One tetrahedron without tags. -/
def lonelyTet : TaggedMesh where
  nodes := [(0, 0, 0), (1, 0, 0), (0, 1, 0), (0, 0, 1)]
  cells := [⟨.tet4, [0, 1, 2, 3], 0⟩]
  faceTag _ _ := faceUntagged

/-- The faces of one cell come in the order of the walk. -/
theorem faces_follow_walk : ∃ choices choices', (writePolymeshFromMesh choices lonelyTet []).map PolyMesh.files ≠
    (writePolymeshFromMesh choices' lonelyTet []).map PolyMesh.files := by
  have haccepted : Accepted lonelyTet := ⟨by decide, by decide, by decide⟩
  refine ⟨plainChoices, backwardChoices, fun h => ?_⟩
  exact absurd (faces_of_files haccepted h) (by decide)

end Souxmar.OpenFoam
