import Souxmar.Lib.Ragged
import Souxmar.OpenFoam.Files

/-!
# The written mesh is valid

On a mesh of linear solid cells with distinct nodes, none of whose faces is shared by more than two cells, the files
describe the mesh: every face once, internal faces first and sorted, and behind them one patch for each tag.
-/

namespace Souxmar.OpenFoam

open Souxmar.Core Souxmar.Lib

/-- A mesh of linear solid cells with distinct nodes; no vertex set of a face is in more than two cells. -/
structure LinearMesh (mesh : TaggedMesh) : Prop where
  valid : mesh.toMesh.Valid
  nonempty : mesh.cells ≠ []
  solid : ∀ cell ∈ mesh.cells, cell.type ∈ solidTypes
  distinct : ∀ cell ∈ mesh.cells, cell.nodes.Nodup
  twice : ∀ f ∈ mesh.faces, mesh.cells.countP (fun cell => ∃ g ∈ cell.faces, g.toFinset = f.toFinset) ≤ 2

/-- The `j`-th face of cell `c`, in the cell's outward order. -/
def TaggedMesh.HasFace (mesh : TaggedMesh) (c : ℕ) (f : List ℕ) (j : ℕ) : Prop :=
  ∃ cell, mesh.cells[c]? = some cell ∧ cell.faces[j]? = some f

/-- The lines are ranges one after the other, from here to there. -/
def Consecutive : ℕ → List BoundaryLine → ℕ → Prop
  | start, [], stop => start = stop
  | start, line :: lines, stop => line.startFace = start ∧ Consecutive (start + line.nFaces) lines stop

/-- The patch of a tag: of the first boundary condition for it, of the tag itself, or of the untagged faces. -/
def StandsFor (bcs : List ParsedBC) (p : BoundaryPatch) (tag : ℤ) : Prop :=
  if tag = faceUntagged then p.bc = none ∧ p.name = "walls"
  else (∃ bc ∈ bcs, bc.tagId = some tag ∧ p.bc = some bc ∧ p.name = patchName bc tag) ∨
    (∀ bc ∈ bcs, bc.tagId ≠ some tag) ∧ p.bc = none ∧ p.name = "tag_" ++ toString tag

/-- The files describe the mesh. -/
structure PolyMesh.Describes (out : PolyMesh) (mesh : TaggedMesh) (bcs : List ParsedBC) : Prop where
  owners : out.owner.length = out.faces.length
  neighbours : out.neighbour.length ≤ out.faces.length
  once : (out.faces.map List.toFinset).Nodup
  all : ∀ s, s ∈ out.faces.map List.toFinset ↔ s ∈ mesh.faces.map List.toFinset
  internal : ∀ i < out.neighbour.length, ∃ (c d : ℕ) (f g : List ℕ), c < d ∧ out.owner[i]? = some (c : ℤ) ∧
    out.neighbour[i]? = some (d : ℤ) ∧ out.faces[i]? = some f ∧ (∃ j, mesh.HasFace c f j) ∧
    (∃ j, mesh.HasFace d g j) ∧ g.toFinset = f.toFinset
  sorted : ((out.owner.take out.neighbour.length).zip out.neighbour).Pairwise fun a b =>
    a.1 < b.1 ∨ a.1 = b.1 ∧ a.2 ≤ b.2
  ranges : Consecutive out.neighbour.length out.boundary out.faces.length
  patches : ∃ tags : List ℤ, tags.Nodup ∧ List.Forall₂ (StandsFor bcs) out.patches tags ∧
    out.boundary.map BoundaryLine.name = out.patches.map BoundaryPatch.name ∧
    ∀ (n : ℕ) (line : BoundaryLine) (tag : ℤ), out.boundary[n]? = some line → tags[n]? = some tag →
      ∀ i, line.startFace ≤ i → i < line.startFace + line.nFaces → ∃ (c : ℕ) (f : List ℕ) (j : ℕ),
        out.owner[i]? = some (c : ℤ) ∧ out.faces[i]? = some f ∧ mesh.HasFace c f j ∧
        mesh.faces.countP (fun g => g.toFinset = f.toFinset) = 1 ∧ mesh.faceTag c j = tag

/-! ## The faces of cells -/

theorem table_distinct : ∀ t ∈ solidTypes,
    (faceNodeTable t).Pairwise fun lf lf' => lf.corners.toFinset ≠ lf'.corners.toFinset := by
  decide

theorem faces_keys {cell : Cell} (hsolid : cell.type ∈ solidTypes)
    (harity : cell.nodes.length = cell.type.numNodes) (hnodup : cell.nodes.Nodup) :
    cell.faces.Pairwise fun f g => faceKey f ≠ faceKey g := by
  rw [Cell.faces, List.pairwise_map]
  apply (table_distinct cell.type hsolid).imp_of_mem
  intro lf lf' hlf hlf' hne hkey
  have hset := (faceKey_eq_iff (faceVerts_nodup hsolid harity hnodup hlf).2
    (faceVerts_nodup hsolid harity hnodup hlf').2).mp hkey
  have hsubset : ∀ {l l' : LocalFace}, l ∈ faceNodeTable cell.type → l' ∈ faceNodeTable cell.type →
      (faceVerts cell l).toFinset = (faceVerts cell l').toFinset → l.corners.toFinset ⊆ l'.corners.toFinset := by
    intro l l' hl hl' hsame i hi
    rw [List.mem_toFinset] at hi ⊢
    have hin : cell.nodes.getD i 0 ∈ (faceVerts cell l').toFinset := by
      rw [← hsame, List.mem_toFinset]
      exact List.mem_map_of_mem hi
    obtain ⟨j, hj, hij⟩ := List.mem_map.mp (List.mem_toFinset.mp hin)
    have hbound := (table_corners cell.type hsolid l hl).2.2 i hi
    have hbound' := (table_corners cell.type hsolid l' hl').2.2 j hj
    rw [← getD_nodes_inj harity hnodup hbound' hbound hij]
    exact hj
  exact hne (Finset.Subset.antisymm (hsubset hlf hlf' hset) (hsubset hlf' hlf hset.symm))

theorem facesOf_solid {cell : Cell} (h : cell.type ∈ solidTypes) : facesOf cell = cell.faces.zipIdx := by
  rw [facesOf, faceTableFor_solid h]
  rfl

theorem mem_cellFaces {cells : List Cell} (hsolid : ∀ cell ∈ cells, cell.type ∈ solidTypes) {c : ℕ} {f : CellFace} :
    f ∈ cellFaces c cells ↔ c ≤ f.cell ∧
      ∃ cell, cells[f.cell - c]? = some cell ∧ cell.faces[f.localFace]? = some f.verts := by
  induction cells generalizing c with
  | nil =>
    refine iff_of_false List.not_mem_nil ?_
    rintro ⟨-, cell, hcell, -⟩
    cases hcell
  | cons cell cells ih =>
    have hmem : f ∈ CellFace.ofCell c cell ↔ f.cell = c ∧ cell.faces[f.localFace]? = some f.verts := by
      rw [CellFace.ofCell, List.mem_map, facesOf_solid (hsolid cell List.mem_cons_self)]
      constructor
      · rintro ⟨p, hp, rfl⟩
        exact ⟨rfl, List.mk_mem_zipIdx_iff_getElem?.mp hp⟩
      · rintro ⟨rfl, hget⟩
        exact ⟨(f.verts, f.localFace), List.mk_mem_zipIdx_iff_getElem?.mpr hget, rfl⟩
    rw [cellFaces, List.mem_append, hmem, ih fun cell' h' => hsolid cell' (List.mem_cons_of_mem cell h')]
    constructor
    · rintro (⟨rfl, hget⟩ | ⟨hle, cell', hcell', hget⟩)
      · refine ⟨le_rfl, cell, ?_, hget⟩
        rw [Nat.sub_self]
        rfl
      · refine ⟨by omega, cell', ?_, hget⟩
        have hsub : f.cell - c = f.cell - (c + 1) + 1 := by omega
        rw [hsub]
        exact hcell'
    · rintro ⟨hle, cell', hcell', hget⟩
      rcases Nat.eq_or_lt_of_le hle with heq | hlt
      · rw [← heq, Nat.sub_self] at hcell'
        obtain rfl : cell = cell' := Option.some.inj hcell'
        exact Or.inl ⟨heq.symm, hget⟩
      · refine Or.inr ⟨hlt, cell', ?_, hget⟩
        have hsub : f.cell - c = f.cell - (c + 1) + 1 := by omega
        rw [hsub] at hcell'
        exact hcell'

theorem pairwise_cellFaces {cells : List Cell} (h : ∀ cell ∈ cells, cell.type ∈ solidTypes ∧
    cell.nodes.length = cell.type.numNodes ∧ cell.nodes.Nodup) (c : ℕ) :
    (cellFaces c cells).Pairwise fun f g => f.cell < g.cell ∨ f.key ≠ g.key := by
  induction cells generalizing c with
  | nil => exact List.Pairwise.nil
  | cons cell cells ih =>
    obtain ⟨hsolid, harity, hnodup⟩ := h cell List.mem_cons_self
    have hrest := fun cell' h' => h cell' (List.mem_cons_of_mem cell h')
    rw [cellFaces, List.pairwise_append]
    refine ⟨?_, ih hrest (c + 1), fun f hf g hg => ?_⟩
    · rw [CellFace.ofCell, facesOf_solid hsolid, List.pairwise_map]
      have hkeys := faces_keys hsolid harity hnodup
      rw [← List.zipIdx_map_fst 0 cell.faces, List.pairwise_map] at hkeys
      exact hkeys.imp fun hne => Or.inr hne
    · obtain ⟨p, -, rfl⟩ := List.mem_map.mp hf
      exact Or.inl ((mem_cellFaces fun cell' h' => (hrest cell' h').1).mp hg).1

section

variable {mesh : TaggedMesh}

theorem LinearMesh.cell (h : LinearMesh mesh) : ∀ cell ∈ mesh.cells, cell.type ∈ solidTypes ∧
    cell.nodes.length = cell.type.numNodes ∧ cell.nodes.Nodup :=
  fun cell hcell => ⟨h.solid cell hcell, (h.valid cell hcell).1, h.distinct cell hcell⟩

theorem LinearMesh.accepted (h : LinearMesh mesh) : Accepted mesh where
  nodes := by
    obtain ⟨cell, hcell⟩ := List.exists_mem_of_ne_nil _ h.nonempty
    obtain ⟨hsolid, harity, -⟩ := h.cell cell hcell
    have hpos : 0 < cell.nodes.length := by
      have hall : ∀ t ∈ solidTypes, 0 < t.numNodes := by decide
      rw [harity]
      exact hall cell.type hsolid
    intro hnil
    have hlt := (h.valid cell hcell).2 _ (List.getElem_mem hpos)
    rw [hnil] at hlt
    exact Nat.not_lt_zero _ hlt
  cells := h.nonempty
  solid := h.solid

theorem LinearMesh.nodup (h : LinearMesh mesh) {f : List ℕ} (hf : f ∈ mesh.faces) : f.Nodup := by
  obtain ⟨cell, hcell, hface⟩ := List.mem_flatMap.mp hf
  obtain ⟨lf, hlf, rfl⟩ := List.mem_map.mp hface
  obtain ⟨hsolid, harity, hnodup⟩ := h.cell cell hcell
  exact (faceVerts_nodup hsolid harity hnodup hlf).2

theorem verts_cellFaces {cells : List Cell} (hsolid : ∀ cell ∈ cells, cell.type ∈ solidTypes) (c : ℕ) :
    (cellFaces c cells).map CellFace.verts = cells.flatMap Cell.faces := by
  induction cells generalizing c with
  | nil => rfl
  | cons cell cells ih =>
    have hcell : (CellFace.ofCell c cell).map CellFace.verts = cell.faces := by
      rw [CellFace.ofCell, List.map_map, facesOf_solid (hsolid cell List.mem_cons_self)]
      exact List.zipIdx_map_fst 0 cell.faces
    rw [cellFaces, List.map_append, List.flatMap_cons, hcell,
      ih fun cell' h' => hsolid cell' (List.mem_cons_of_mem cell h')]

theorem LinearMesh.tally (h : LinearMesh mesh) {f : List ℕ} (hf : f ∈ mesh.faces) :
    Lib.tally CellFace.key (faceKey f) (cellFaces 0 mesh.cells) =
      mesh.faces.countP fun g => g.toFinset = f.toFinset := by
  have hverts : (cellFaces 0 mesh.cells).map CellFace.verts = mesh.faces := verts_cellFaces h.solid 0
  rw [← hverts, List.countP_map]
  apply List.countP_congr
  intro g hg
  have hin : g.verts ∈ mesh.faces := by
    rw [← hverts]
    exact List.mem_map_of_mem hg
  rw [Function.comp_apply, decide_eq_true_eq, decide_eq_true_eq]
  exact faceKey_eq_iff (h.nodup hin) (h.nodup hf)

theorem mem_hasFace (hsolid : ∀ cell ∈ mesh.cells, cell.type ∈ solidTypes) {f : CellFace} :
    f ∈ cellFaces 0 mesh.cells ↔ mesh.HasFace f.cell f.verts f.localFace := by
  rw [mem_cellFaces hsolid, and_iff_right (Nat.zero_le _)]
  exact Iff.rfl

theorem mem_faces_of_hasFace {c j : ℕ} {f : List ℕ} (h : mesh.HasFace c f j) : f ∈ mesh.faces := by
  obtain ⟨cell, hcell, hface⟩ := h
  exact List.mem_flatMap.mpr ⟨cell, List.mem_of_getElem? hcell, List.mem_of_getElem? hface⟩

/-! ## The entries of the files -/

variable {choices : Choices}

theorem LinearMesh.owner (h : LinearMesh mesh) {e : FaceEntry} (he : e ∈ allFaces choices mesh) :
    ∃ c : ℕ, e.owner = c ∧ mesh.HasFace c e.vertsOwner e.ownerLocalFace := by
  obtain ⟨k, hk⟩ := mem_allFaces.mp he
  obtain ⟨f, hf, -, hverts, howner, hlocal⟩ := (entryFor_of_entryOf hk).first
  refine ⟨f.cell, howner, ?_⟩
  rw [hverts, hlocal]
  exact (mem_hasFace h.solid).mp (mem_claimants.mp hf).1

theorem LinearMesh.boundary_once (h : LinearMesh mesh) {e : FaceEntry} (he : e ∈ allFaces choices mesh)
    (hnb : e.neighbour < 0) : mesh.faces.countP (fun g => g.toFinset = e.vertsOwner.toFinset) = 1 := by
  obtain ⟨c, -, hface⟩ := h.owner he
  obtain ⟨k, hk⟩ := mem_allFaces.mp he
  have hentry := entryFor_of_entryOf hk
  rw [← h.tally (mem_faces_of_hasFace hface), hentry.key]
  exact hentry.alone.mp hnb

/-- The neighbour of an internal face. -/
theorem LinearMesh.neighbour (h : LinearMesh mesh) {e : FaceEntry} (he : e ∈ allFaces choices mesh)
    (hnb : 0 ≤ e.neighbour) : ∃ (c d : ℕ) (g : List ℕ) (j : ℕ), e.owner = c ∧ e.neighbour = d ∧ c < d ∧
      mesh.HasFace d g j ∧ g.toFinset = e.vertsOwner.toFinset := by
  obtain ⟨c', -, hface⟩ := h.owner he
  obtain ⟨k, hk⟩ := mem_allFaces.mp he
  have hentry := entryFor_of_entryOf hk
  obtain ⟨f, hf, hhead, hverts, howner, -⟩ := hentry.first
  obtain ⟨g, hg, hlast, hneighbour⟩ := hentry.last hnb
  obtain ⟨hgin, hgkey⟩ := mem_claimants.mp hg
  have hgface := (mem_hasFace h.solid).mp hgin
  refine ⟨f.cell, g.cell, g.verts, g.localFace, howner, hneighbour, ?_, hgface, ?_⟩
  · have hpair : (claimants k (cellFaces 0 mesh.cells)).Pairwise fun f g => f.cell < g.cell := by
      have hfilter := (pairwise_cellFaces h.cell 0).filter fun f : CellFace => decide (f.key = k)
      apply hfilter.imp_of_mem
      intro a b ha hb hab
      refine hab.resolve_right fun hne => hne ?_
      exact (mem_claimants.mp ha).2.trans (mem_claimants.mp hb).2.symm
    have hmany : (claimants k (cellFaces 0 mesh.cells)).length ≠ 1 := by
      rw [length_claimants]
      exact fun hone => absurd (hentry.alone.mpr hone) (Int.not_lt.mpr hnb)
    cases hclaim : claimants k (cellFaces 0 mesh.cells) with
    | nil =>
      rw [hclaim] at hhead
      cases hhead
    | cons a rest =>
      rw [hclaim] at hhead hlast hpair hmany
      obtain rfl : a = f := Option.some.inj hhead
      cases hrest : rest with
      | nil =>
        rw [hrest] at hmany
        exact absurd rfl hmany
      | cons b rest' =>
        rw [hrest, List.getLast?_cons_cons] at hlast
        exact (List.pairwise_cons.mp hpair).1 g (hrest ▸ List.mem_of_getLast? hlast)
  · rw [← faceKey_eq_iff (h.nodup (mem_faces_of_hasFace hgface)) (h.nodup (mem_faces_of_hasFace hface)), hentry.key]
    exact hgkey

theorem LinearMesh.entry (h : LinearMesh mesh) (choices : Choices) {f : List ℕ} (hf : f ∈ mesh.faces) :
    ∃ e ∈ allFaces choices mesh, e.vertsOwner.toFinset = f.toFinset := by
  have hverts : (cellFaces 0 mesh.cells).map CellFace.verts = mesh.faces := verts_cellFaces h.solid 0
  rw [← hverts] at hf
  obtain ⟨g, hg, rfl⟩ := List.mem_map.mp hf
  have hclaim : g ∈ claimants g.key (cellFaces 0 mesh.cells) := mem_claimants.mpr ⟨hg, rfl⟩
  cases hentry : entryOf (claimants g.key (cellFaces 0 mesh.cells)) with
  | none =>
    cases hlist : claimants g.key (cellFaces 0 mesh.cells) with
    | nil =>
      rw [hlist] at hclaim
      exact absurd hclaim List.not_mem_nil
    | cons a rest =>
      rw [hlist] at hentry
      cases hentry
  | some e =>
    have he : e ∈ allFaces choices mesh := mem_allFaces.mpr ⟨g.key, hentry⟩
    obtain ⟨c, -, hface⟩ := h.owner he
    have hin := mem_faces_of_hasFace ((mem_hasFace h.solid).mp hg)
    exact ⟨e, he, (faceKey_eq_iff (h.nodup (mem_faces_of_hasFace hface)) (h.nodup hin)).mp
      (entryFor_of_entryOf hentry).key⟩

theorem LinearMesh.nodup_faces (h : LinearMesh mesh) (choices : Choices) :
    ((allFaces choices mesh).map fun e => e.vertsOwner.toFinset).Nodup := by
  have hkeys := nodup_allFaces choices mesh
  rw [List.Nodup, List.pairwise_map] at hkeys ⊢
  apply hkeys.imp_of_mem
  intro a b ha hb hne heq
  obtain ⟨c, -, hfa⟩ := h.owner ha
  obtain ⟨d, -, hfb⟩ := h.owner hb
  exact hne ((faceKey_eq_iff (h.nodup (mem_faces_of_hasFace hfa)) (h.nodup (mem_faces_of_hasFace hfb))).mpr heq)

end

/-! ## The lines of the patches -/

theorem consecutive_boundaryLines (start : ℕ) (patches : List BoundaryPatch) :
    Consecutive start (boundaryLines start patches)
      (start + (patches.map fun p => p.faceLocalIdx.length).sum) := by
  induction patches generalizing start with
  | nil => rfl
  | cons p patches ih =>
    refine ⟨rfl, ?_⟩
    rw [List.map_cons, List.sum_cons, ← Nat.add_assoc]
    exact ih (start + p.faceLocalIdx.length)

theorem names_boundaryLines (start : ℕ) (patches : List BoundaryPatch) :
    (boundaryLines start patches).map BoundaryLine.name = patches.map BoundaryPatch.name := by
  induction patches generalizing start with
  | nil => rfl
  | cons p patches ih => rw [boundaryLines, List.map_cons, List.map_cons, ih]

theorem getElem?_boundaryLines {start n : ℕ} {patches : List BoundaryPatch} {line : BoundaryLine}
    (h : (boundaryLines start patches)[n]? = some line) :
    line.startFace = start + ((patches.take n).map fun p => p.faceLocalIdx.length).sum ∧
      ∃ p, patches[n]? = some p ∧ line.nFaces = p.faceLocalIdx.length := by
  induction patches generalizing start n with
  | nil => cases h
  | cons p patches ih =>
    cases n with
    | zero =>
      obtain rfl := Option.some.inj h
      exact ⟨rfl, p, rfl, rfl⟩
    | succ n =>
      obtain ⟨hstart, hpatch⟩ := ih h
      refine ⟨?_, hpatch⟩
      rw [hstart, List.take_succ_cons, List.map_cons, List.sum_cons, Nat.add_assoc]

theorem standsFor_patchOf (bcs : List ParsedBC) (tag : ℤ) (faces : List ℕ) :
    StandsFor bcs (patchOf bcs tag faces) tag := by
  unfold StandsFor patchOf
  by_cases htag : tag = faceUntagged
  · rw [if_pos htag, if_pos htag]
    exact ⟨rfl, rfl⟩
  · rw [if_neg htag, if_neg htag]
    cases hfind : bcs.find? fun bc => bc.tagId = some tag with
    | none =>
      rw [List.find?_eq_none] at hfind
      exact Or.inr ⟨fun bc hbc hid => hfind bc hbc (decide_eq_true hid), rfl, rfl⟩
    | some bc =>
      have hid := List.find?_some hfind
      exact Or.inl ⟨bc, List.mem_of_find?_eq_some hfind, of_decide_eq_true hid, rfl, rfl⟩

section

variable (choices : Choices) (mesh : TaggedMesh) (bcs : List ParsedBC)

theorem lengths_patchList : (patchList choices mesh bcs).map (fun p => p.faceLocalIdx.length) =
    (patchFaces choices mesh bcs).map List.length := by
  rw [patchList, patchFaces, List.map_map, List.map_map]
  apply List.map_congr_left
  intro tag _
  rw [Function.comp_apply, Function.comp_apply, faceLocalIdx_patchOf]
  exact length_facesWith (boundaryFaces choices mesh) (tagOf mesh) tag

theorem face_of_line {n i : ℕ} {line : BoundaryLine} {tag : ℤ}
    (hline : (boundaryLines (internalFaces choices mesh).length (patchList choices mesh bcs))[n]? = some line)
    (htag : (patchTags (tagsPresent choices mesh) bcs)[n]? = some tag) (hlow : line.startFace ≤ i)
    (hhigh : i < line.startFace + line.nFaces) : ∃ e ∈ boundaryFaces choices mesh, tagOf mesh e = tag ∧
      (internalFaces choices mesh ++ (patchFaces choices mesh bcs).flatten)[i]? = some e := by
  obtain ⟨hstart, p, hp, hcount⟩ := getElem?_boundaryLines hline
  have hrow : (patchFaces choices mesh bcs)[n]? = some (facesTagged choices mesh tag) := by
    rw [patchFaces, List.getElem?_map, htag]
    rfl
  have hlength : p.faceLocalIdx.length = (facesTagged choices mesh tag).length := by
    have hboth : ((patchList choices mesh bcs).map fun p => p.faceLocalIdx.length)[n]? =
        ((patchFaces choices mesh bcs).map List.length)[n]? := by rw [lengths_patchList]
    rw [List.getElem?_map, List.getElem?_map, hp, hrow] at hboth
    exact Option.some.inj hboth
  have hoffset : ((patchList choices mesh bcs).take n |>.map fun p => p.faceLocalIdx.length).sum =
      ((patchFaces choices mesh bcs).take n).flatten.length := by
    rw [List.map_take, lengths_patchList, ← List.map_take, List.length_flatten]
  rw [hoffset] at hstart
  obtain ⟨k, rfl⟩ := Nat.exists_eq_add_of_le hlow
  have hk : k < (facesTagged choices mesh tag).length := by omega
  have hget := Ragged.getElem?_row hrow hk
  rw [List.getElem?_eq_getElem hk] at hget
  have hmem := List.getElem_mem hk
  generalize (facesTagged choices mesh tag)[k] = e at hget hmem
  obtain ⟨hin, hetag⟩ := List.mem_filter.mp hmem
  refine ⟨e, hin, of_decide_eq_true hetag, ?_⟩
  rw [hstart, Nat.add_assoc, List.getElem?_append_right (Nat.le_add_right _ _), Nat.add_sub_cancel_left]
  exact hget

end

/-! ## Outward faces -/

/-- The corners of the reference cells. -/
def referenceCorners : ElementType → List (ℤ × ℤ × ℤ)
  | .tet4 => [(0, 0, 0), (1, 0, 0), (0, 1, 0), (0, 0, 1)]
  | .hex8 => [(0, 0, 0), (1, 0, 0), (1, 1, 0), (0, 1, 0), (0, 0, 1), (1, 0, 1), (1, 1, 1), (0, 1, 1)]
  | .prism6 => [(0, 0, 0), (1, 0, 0), (0, 1, 0), (0, 0, 1), (1, 0, 1), (0, 1, 1)]
  | .pyramid5 => [(0, 0, 0), (2, 0, 0), (2, 2, 0), (0, 2, 0), (1, 1, 1)]
  | _ => []

/-- Six times the volume of a tetrahedron, with a sign. -/
def signedVolume (a b c d : ℤ × ℤ × ℤ) : ℤ :=
  let u := b - a
  let v := c - a
  let w := d - a
  w.1 * (u.2.1 * v.2.2 - u.2.2 * v.2.1) + w.2.1 * (u.2.2 * v.1 - u.1 * v.2.2) + w.2.2 * (u.1 * v.2.1 - u.2.1 * v.1)

def referenceCorner (t : ElementType) (i : ℕ) : ℤ × ℤ × ℤ := (referenceCorners t).getD i (0, 0, 0)

/-- The other corners of the reference cell are behind the face. -/
def Outward (t : ElementType) (lf : LocalFace) : Prop :=
  ∀ i ∈ List.range t.numNodes, i ∉ lf.corners →
    signedVolume (referenceCorner t (lf.corners.getD 0 0)) (referenceCorner t (lf.corners.getD 1 0))
      (referenceCorner t (lf.corners.getD 2 0)) (referenceCorner t i) < 0

instance (t : ElementType) (lf : LocalFace) : Decidable (Outward t lf) :=
  inferInstanceAs (Decidable (∀ i ∈ List.range t.numNodes, i ∉ lf.corners → _))

theorem table_outward : ∀ t ∈ solidTypes, ∀ lf ∈ faceNodeTable t, Outward t lf := by
  decide

/-! ## The written case -/

section

variable {mesh : TaggedMesh}

theorem getElem?_internal {choices : Choices} (bcs : List ParsedBC) {i : ℕ}
    (hi : i < (internalFaces choices mesh).length) : ∃ e ∈ internalFaces choices mesh,
      (internalFaces choices mesh)[i]? = some e ∧
        (internalFaces choices mesh ++ (patchFaces choices mesh bcs).flatten)[i]? = some e := by
  refine ⟨(internalFaces choices mesh)[i], List.getElem_mem hi, List.getElem?_eq_getElem hi, ?_⟩
  rw [List.getElem?_append_left hi, List.getElem?_eq_getElem hi]

theorem pairwise_internal (choices : Choices) (mesh : TaggedMesh) :
    ((internalFaces choices mesh).map fun e => (e.owner, e.neighbour)).Pairwise fun a b =>
      a.1 < b.1 ∨ a.1 = b.1 ∧ a.2 ≤ b.2 := by
  rw [List.pairwise_map]
  apply (choices.internal.sorted _).imp
  intro a b hnot
  unfold internalLt at hnot
  omega

/-- The translator writes a valid case, from tables of outward faces. -/
theorem polymesh_valid (h : LinearMesh mesh) (choices : Choices) (bcs : List ParsedBC) :
    (∀ t table, faceTableFor t = some table → ∀ lf ∈ table, Outward t lf) ∧
      ∃ out, writePolymeshFromMesh choices mesh bcs = .ok out ∧ out.Describes mesh bcs := by
  refine ⟨fun t table htable lf hlf => ?_, _, write_eq h.accepted, ?_⟩
  · rw [faceTableFor_eq] at htable
    split_ifs at htable with ht
    obtain rfl := Option.some.inj htable
    exact table_outward t ht lf hlf
  have hperm := faces_perm choices mesh bcs
  have hboundary := patchFaces_perm choices mesh bcs
  refine ⟨?_, ?_, ?_, fun s => ?_, fun i hi => ?_, ?_, ?_, ?_⟩
  · rw [List.length_map, List.length_map]
  · rw [List.length_map, List.length_map, List.length_append]
    exact Nat.le_add_right _ _
  · rw [List.map_map]
    exact (hperm.map _).nodup_iff.mpr (h.nodup_faces choices)
  · rw [List.map_map, (hperm.map _).mem_iff, List.mem_map, List.mem_map]
    constructor
    · rintro ⟨e, he, rfl⟩
      obtain ⟨c, -, hface⟩ := h.owner he
      exact ⟨e.vertsOwner, mem_faces_of_hasFace hface, rfl⟩
    · rintro ⟨f, hf, rfl⟩
      exact h.entry choices hf
  · rw [List.length_map] at hi
    obtain ⟨e, he, hint, hall⟩ := getElem?_internal bcs hi
    obtain ⟨hin, hnb⟩ := mem_internalFaces.mp he
    obtain ⟨c', hc', hface⟩ := h.owner hin
    obtain ⟨c, d, g, j, hc, hd, hlt, hneighbour, hsame⟩ := h.neighbour hin hnb
    obtain rfl : c' = c := Int.ofNat.inj (hc'.symm.trans hc)
    refine ⟨c', d, e.vertsOwner, g, hlt, ?_, ?_, ?_, ⟨_, hface⟩, ⟨j, hneighbour⟩, hsame⟩
    · rw [List.getElem?_map, hall, ← hc]
      rfl
    · rw [List.getElem?_map, hint, ← hd]
      rfl
    · rw [List.getElem?_map, hall]
      rfl
  · have hsorted := pairwise_internal choices mesh
    have htake : ((internalFaces choices mesh ++ (patchFaces choices mesh bcs).flatten).map FaceEntry.owner).take
        ((internalFaces choices mesh).map FaceEntry.neighbour).length =
          (internalFaces choices mesh).map FaceEntry.owner := by
      rw [List.length_map, ← List.map_take, List.take_left]
    dsimp only
    rwa [htake, List.zip_map']
  · have hlines := consecutive_boundaryLines (internalFaces choices mesh).length (patchList choices mesh bcs)
    rw [lengths_patchList, ← List.length_flatten] at hlines
    dsimp only
    rwa [List.length_map, List.length_map, List.length_append]
  · refine ⟨patchTags (tagsPresent choices mesh) bcs, nodup_patchTags _ bcs, ?_, names_boundaryLines _ _, ?_⟩
    · dsimp only
      rw [patchList, List.forall₂_map_left_iff, List.forall₂_same]
      intro tag _
      exact standsFor_patchOf bcs tag _
    · intro n line tag hline htag i hlow hhigh
      obtain ⟨e, he, hetag, hget⟩ := face_of_line choices mesh bcs hline htag hlow hhigh
      obtain ⟨hin, hnb⟩ := mem_boundaryFaces.mp he
      obtain ⟨c, hc, hface⟩ := h.owner hin
      refine ⟨c, e.vertsOwner, e.ownerLocalFace, ?_, ?_, hface, h.boundary_once hin hnb, ?_⟩
      · rw [List.getElem?_map, hget, ← hc]
        rfl
      · rw [List.getElem?_map, hget]
        rfl
      · rw [tagOf, hc] at hetag
        exact hetag

end

/-- Two tetrahedra with a common face, and one tagged face each. -/
def taggedTets : TaggedMesh where
  nodes := [(0, 0, 0), (1, 0, 0), (0, 1, 0), (0, 0, 1), (1, 1, 1)]
  cells := [⟨.tet4, [0, 1, 2, 3], 0⟩, ⟨.tet4, [1, 2, 3, 4], 0⟩]
  faceTag c j := if c = 0 ∧ j = 1 then 7 else if c = 1 ∧ j = 0 then 5 else -1

theorem taggedTets_linear : LinearMesh taggedTets where
  valid := by unfold Mesh.Valid; decide
  nonempty := by decide
  solid := by decide
  distinct := by decide
  twice := by decide

theorem polymesh_valid_tets :
    (∀ t table, faceTableFor t = some table → ∀ lf ∈ table, Outward t lf) ∧
      ∃ out, writePolymeshFromMesh plainChoices taggedTets [⟨some 7, "in let", "inlet"⟩] = .ok out ∧
        out.Describes taggedTets [⟨some 7, "in let", "inlet"⟩] :=
  polymesh_valid taggedTets_linear plainChoices [⟨some 7, "in let", "inlet"⟩]

end Souxmar.OpenFoam
