import Souxmar.Core.Watertight
import Souxmar.Lib.Tally

/-!
# The stream shows the boundary

The faces of a surface stream are the surface cells and the faces of solid cells whose key occurs once. `Tallied`
is what holds of the face map while the cells are walked: an entry is without a neighbour as long as its key
has occurred once.
-/

namespace Souxmar.Core

open Souxmar.Lib

/-! ## The boundary of a mesh -/

def Cell.IsSurface (cell : Cell) : Prop := cell.type = .tri3 ∨ cell.type = .quad4

instance : DecidablePred Cell.IsSurface := fun _ => inferInstanceAs (Decidable (_ ∨ _))

/-- The cells that are faces themselves. -/
def Mesh.surfaceCells (mesh : Mesh) : List (List ℕ) := (mesh.cells.filter Cell.IsSurface).map Cell.nodes

/-- The faces of the three-dimensional cells. -/
def Mesh.solidFaces (mesh : Mesh) : List (List ℕ) :=
  (mesh.cells.filter fun cell => cell.type ∈ solidTypes).flatMap Cell.faces

def Mesh.boundaryFaces (mesh : Mesh) : List (List ℕ) := once faceKey mesh.solidFaces

def Mesh.surfaceFaces (mesh : Mesh) : List (List ℕ) := mesh.surfaceCells ++ mesh.boundaryFaces

theorem not_isSurface_of_solid {cell : Cell} (h : cell.type ∈ solidTypes) : ¬cell.IsSurface := by
  rintro (heq | heq)
  · exact absurd (heq ▸ h) (by decide)
  · exact absurd (heq ▸ h) (by decide)

/-! ## The walk over the cells -/

theorem faceNodeTable_other {t : ElementType} (hsolid : t ∉ solidTypes) (htri : t ≠ .tri3) (hquad : t ≠ .quad4) :
    faceNodeTable t = [] := by
  cases t <;> first | rfl | exact absurd rfl htri | exact absurd rfl hquad | exact absurd (by decide) hsolid

theorem visitCell_surface {cell : Cell} (h : cell.IsSurface) (hnodes : cell.nodes.length = cell.type.numNodes) (c : ℕ)
    (x : Extraction) : visitCell c cell x = { x with out := x.out ++ [cell.nodes] } := by
  rcases h with htri | hquad
  · rw [htri] at hnodes
    have hlength : cell.nodes.length = 3 := hnodes
    rw [visitCell, if_pos htri, if_pos hlength.ge, ← hlength, List.take_length]
  · rw [hquad] at hnodes
    have hlength : cell.nodes.length = 4 := hnodes
    have htri : cell.type ≠ .tri3 := by
      rw [hquad]
      decide
    rw [visitCell, if_neg htri, if_pos hquad, if_pos hlength.ge, ← hlength, List.take_length]

theorem visitCell_other {cell : Cell} (hsolid : cell.type ∉ solidTypes) (hsurface : ¬cell.IsSurface) (c : ℕ)
    (x : Extraction) : visitCell c cell x = x := by
  obtain ⟨htri, hquad⟩ := not_or.mp hsurface
  rw [visitCell, if_neg htri, if_neg hquad, faceNodeTable_other hsolid htri hquad]
  rfl

/-- The entries of the map after these faces. -/
structure Tallied (faces : List (List ℕ)) (m : FaceMap) : Prop where
  owner : ∀ k e, m.lookup k = some e → e.vertsOwner ∈ faces ∧ faceKey e.vertsOwner = k
  seen : ∀ f ∈ faces, faceKey f ∈ m
  one : ∀ k e, m.lookup k = some e → (e.neighbour < 0 ↔ tally faceKey k faces = 1)

theorem tallied_start : Tallied [] ∅ where
  owner _ _ hk := nomatch hk
  seen _ hf := nomatch hf
  one _ _ hk := nomatch hk

section

variable {faces : List (List ℕ)} {m : FaceMap}

theorem Tallied.seen_append (h : Tallied faces m) (f : List ℕ) (e : FaceEntry) :
    ∀ g ∈ faces ++ [f], faceKey g ∈ m.insert (faceKey f) e := by
  intro g hg
  rw [AList.mem_insert]
  rcases List.mem_append.mp hg with hg | hg
  · exact Or.inr (h.seen g hg)
  · exact Or.inl (by rw [List.mem_singleton.mp hg])

theorem Tallied.one_append (h : Tallied faces m) {f : List ℕ} {k : List ℕ} (hne : k ≠ faceKey f) {e : FaceEntry}
    (hk : m.lookup k = some e) : e.neighbour < 0 ↔ tally faceKey k (faces ++ [f]) = 1 := by
  rw [tally_append, tally_singleton, if_neg (Ne.symm hne), Nat.add_zero]
  exact h.one k e hk

theorem Tallied.first (h : Tallied faces m) {f : List ℕ} (hnone : m.lookup (faceKey f) = none) :
    Tallied (faces ++ [f]) (m.insert (faceKey f) { vertsOwner := f }) where
  owner k e hk := by
    obtain ⟨rfl, rfl⟩ | ⟨_, hk⟩ := Dict.of_lookup_insert hk
    · exact ⟨List.mem_append_right _ List.mem_cons_self, rfl⟩
    · have hold := h.owner k e hk
      exact ⟨List.mem_append_left _ hold.1, hold.2⟩
  seen := h.seen_append f _
  one k e hk := by
    obtain ⟨rfl, rfl⟩ | ⟨hne, hk⟩ := Dict.of_lookup_insert hk
    · have hzero : tally faceKey (faceKey f) faces = 0 := by
        rw [tally_eq_zero_iff]
        intro g hg hkey
        exact AList.lookup_eq_none.mp hnone (hkey ▸ h.seen g hg)
      rw [tally_append, tally_singleton, if_pos rfl, hzero]
      exact iff_of_true (by decide : (-1 : ℤ) < 0) rfl
    · exact h.one_append hne hk

theorem Tallied.again (h : Tallied faces m) {f : List ℕ} {e : FaceEntry} (hsome : m.lookup (faceKey f) = some e)
    (c : ℕ) : Tallied (faces ++ [f]) (m.insert (faceKey f) { e with neighbour := c }) where
  owner k e' hk := by
    obtain ⟨rfl, rfl⟩ | ⟨_, hk⟩ := Dict.of_lookup_insert hk
    · have hold := h.owner _ e hsome
      exact ⟨List.mem_append_left _ hold.1, hold.2⟩
    · have hold := h.owner k e' hk
      exact ⟨List.mem_append_left _ hold.1, hold.2⟩
  seen := h.seen_append f _
  one k e' hk := by
    obtain ⟨rfl, rfl⟩ | ⟨hne, hk⟩ := Dict.of_lookup_insert hk
    · have hpos : 0 < tally faceKey (faceKey f) faces := tally_pos_iff.mpr ⟨e.vertsOwner, h.owner _ e hsome⟩
      rw [tally_append, tally_singleton, if_pos rfl]
      refine iff_of_false (Int.not_lt.mpr (Int.natCast_nonneg c)) ?_
      omega
    · exact h.one_append hne hk

theorem Tallied.visitFace (h : Tallied faces m) (f : List ℕ) (c : ℕ) :
    Tallied (faces ++ [f]) (visitFace c m f) := by
  unfold Core.visitFace
  cases hlook : m.lookup (faceKey f) with
  | none => exact h.first hlook
  | some e => exact h.again hlook c

theorem Tallied.visitFaces (h : Tallied faces m) (more : List (List ℕ)) (c : ℕ) :
    Tallied (faces ++ more) (more.foldl (Core.visitFace c) m) := by
  induction more generalizing faces m with
  | nil => rwa [List.append_nil]
  | cons f more ih =>
    rw [List.append_cons]
    exact ih (h.visitFace f c)

theorem Tallied.openFaces_perm (h : Tallied faces m) : (openFaces m.entries).Perm (once faceKey faces) := by
  have hmem : ∀ f, f ∈ openFaces m.entries ↔ ∃ k e, m.lookup k = some e ∧ e.neighbour < 0 ∧ e.vertsOwner = f := by
    intro f
    simp only [openFaces, List.mem_map, List.mem_filter, decide_eq_true_eq]
    constructor
    · rintro ⟨e, ⟨he, hopen⟩, rfl⟩
      exact ⟨e.1, e.2, AList.mem_lookup_iff.mpr he, hopen, rfl⟩
    · rintro ⟨k, e, hk, hopen, rfl⟩
      exact ⟨⟨k, e⟩, ⟨AList.mem_lookup_iff.mp hk, hopen⟩, rfl⟩
  apply perm_once
  · have hkeys : (openFaces m.entries).map faceKey =
        (m.entries.filter fun e => e.2.neighbour < 0).map fun e => e.1 := by
      rw [openFaces, List.map_map]
      apply List.map_congr_left
      intro e he
      exact (h.owner e.1 e.2 (AList.mem_lookup_iff.mpr (List.mem_of_mem_filter he))).2
    rw [hkeys]
    exact List.NodupKeys.sublist List.filter_sublist m.nodupKeys
  · intro f
    rw [hmem]
    constructor
    · rintro ⟨k, e, hk, hopen, rfl⟩
      obtain ⟨hin, rfl⟩ := h.owner k e hk
      exact ⟨hin, (h.one _ e hk).mp hopen⟩
    · rintro ⟨hin, hone⟩
      obtain ⟨e, he⟩ := Option.isSome_iff_exists.mp (AList.lookup_isSome.mpr (h.seen f hin))
      obtain ⟨hin', hkey⟩ := h.owner _ e he
      exact ⟨faceKey f, e, he, (h.one _ e he).mpr hone, eq_of_tally_one hin' hin hkey hone⟩

end

theorem tallied_cells {cells : List Cell} (hvalid : ∀ cell ∈ cells, cell.nodes.length = cell.type.numNodes)
    {faces : List (List ℕ)} {x : Extraction} (h : Tallied faces x.faceMap) (c : ℕ) :
    Tallied (faces ++ (cells.filter fun cell => cell.type ∈ solidTypes).flatMap Cell.faces)
        (visitCells c cells x).faceMap ∧
      (visitCells c cells x).out = x.out ++ (cells.filter Cell.IsSurface).map Cell.nodes := by
  induction cells generalizing faces x c with
  | nil =>
    rw [List.filter_nil, List.filter_nil, List.flatMap_nil, List.map_nil, List.append_nil, List.append_nil]
    exact ⟨h, rfl⟩
  | cons cell cells ih =>
    have hrest := fun cell' h' => hvalid cell' (List.mem_cons_of_mem cell h')
    by_cases hsolid : cell.type ∈ solidTypes
    · have hsurface := not_isSurface_of_solid hsolid
      rw [List.filter_cons, List.filter_cons, if_pos (decide_eq_true hsolid), if_neg (by rwa [decide_eq_true_eq]),
        List.flatMap_cons, ← List.append_assoc, visitCells, visitCell_solid hsolid]
      exact ih hrest (x := { x with faceMap := _ }) (h.visitFaces cell.faces c) (c + 1)
    by_cases hsurface : cell.IsSurface
    · rw [List.filter_cons, List.filter_cons, if_neg (by rwa [decide_eq_true_eq]), if_pos (decide_eq_true hsurface),
        visitCells, visitCell_surface hsurface (hvalid cell List.mem_cons_self), List.map_cons]
      obtain ⟨hmap, hout⟩ := ih hrest (x := { x with out := x.out ++ [cell.nodes] }) h (c + 1)
      exact ⟨hmap, hout.trans (List.append_assoc x.out [cell.nodes] _)⟩
    · rw [List.filter_cons, List.filter_cons, if_neg (by rwa [decide_eq_true_eq]), if_neg (by rwa [decide_eq_true_eq]),
        visitCells, visitCell_other hsolid hsurface]
      exact ih hrest h (c + 1)

theorem extractBoundaryFaces_perm (order : WalkOrder) {mesh : Mesh} (h : mesh.Valid) :
    (extractBoundaryFaces order mesh).Perm mesh.surfaceFaces := by
  obtain ⟨htallied, hout⟩ := tallied_cells (fun cell hcell => (h cell hcell).1) (x := {}) tallied_start 0
  rw [List.nil_append] at htallied hout
  have hvalues := ((order.perm (visitCells 0 mesh.cells {}).faceMap).filter fun fe => fe.neighbour < 0).map
    FaceEntry.vertsOwner
  rw [List.filter_map, List.map_map] at hvalues
  rw [extractBoundaryFaces, Mesh.surfaceFaces, hout]
  exact (hvalues.trans htallied.openFaces_perm).append_left mesh.surfaceCells

/-! ## The keys -/

theorem faces_surface {cell : Cell} (h : cell.IsSurface) (hnodes : cell.nodes.length = cell.type.numNodes) :
    cell.faces = [cell.nodes] := by
  obtain ⟨type, nodes, tag⟩ := cell
  rcases h with rfl | rfl
  · obtain ⟨a, b, c, rfl⟩ := List.length_eq_three.mp hnodes
    rfl
  · obtain ⟨a, b, c, d, rfl⟩ := List.length_eq_four.mp hnodes
    rfl

theorem tally_faces {mesh : Mesh} (h : mesh.Valid) (k : List ℕ) :
    tally faceKey k mesh.faces = tally faceKey k mesh.surfaceCells + tally faceKey k mesh.solidFaces := by
  have hcells : ∀ cells : List Cell, (∀ cell ∈ cells, cell.nodes.length = cell.type.numNodes) →
      tally faceKey k (cells.flatMap Cell.faces) =
        tally faceKey k ((cells.filter Cell.IsSurface).map Cell.nodes) +
          tally faceKey k ((cells.filter fun cell => cell.type ∈ solidTypes).flatMap Cell.faces) := by
    intro cells hvalid
    induction cells with
    | nil => rfl
    | cons cell cells ih =>
      have hrest := ih fun cell' h' => hvalid cell' (List.mem_cons_of_mem cell h')
      rw [List.flatMap_cons, tally_append, hrest, List.filter_cons, List.filter_cons]
      by_cases hsolid : cell.type ∈ solidTypes
      · have hsurface := not_isSurface_of_solid hsolid
        rw [if_neg (by rwa [decide_eq_true_eq]), if_pos (decide_eq_true hsolid), List.flatMap_cons, tally_append]
        omega
      by_cases hsurface : cell.IsSurface
      · rw [if_pos (decide_eq_true hsurface), if_neg (by rwa [decide_eq_true_eq]), List.map_cons,
          ← List.singleton_append, tally_append, faces_surface hsurface (hvalid cell List.mem_cons_self)]
        omega
      · obtain ⟨htri, hquad⟩ := not_or.mp hsurface
        rw [if_neg (by rwa [decide_eq_true_eq]), if_neg (by rwa [decide_eq_true_eq]), Cell.faces,
          faceNodeTable_other hsolid htri hquad]
        exact Nat.zero_add _
  exact hcells mesh.cells fun cell hcell => (h cell hcell).1

theorem mem_surfaceKeys {mesh : Mesh} (h : mesh.Valid) (k : List ℕ) : k ∈ mesh.surfaceFaces.map faceKey ↔
    (∃ f ∈ mesh.surfaceCells, faceKey f = k) ∨
      ∃ f ∈ mesh.solidFaces, faceKey f = k ∧ tally faceKey k mesh.faces = 1 := by
  have hsum := tally_faces h k
  rw [Mesh.surfaceFaces, List.map_append, List.mem_append, List.mem_map, List.mem_map]
  by_cases hcell : ∃ f ∈ mesh.surfaceCells, faceKey f = k
  · exact iff_of_true (Or.inl hcell) (Or.inl hcell)
  · have hzero : tally faceKey k mesh.surfaceCells = 0 :=
      tally_eq_zero_iff.mpr fun f hf hkey => hcell ⟨f, hf, hkey⟩
    rw [hzero, Nat.zero_add] at hsum
    rw [or_iff_right hcell, or_iff_right hcell, hsum]
    constructor
    · rintro ⟨f, hf, rfl⟩
      obtain ⟨hin, hone⟩ := mem_once.mp hf
      exact ⟨f, hin, rfl, hone⟩
    · rintro ⟨f, hin, rfl, hone⟩
      exact ⟨f, mem_once.mpr ⟨hin, hone⟩, rfl⟩

/-! ## The stream of a list of faces -/

/-- The stream shows these faces, in this order. -/
structure SurfaceStream.Shows (s : SurfaceStream) (faces : List (List ℕ)) : Prop where
  nodup : s.vertexIds.Nodup
  vertices : ∀ n, n ∈ s.vertexIds ↔ ∃ f ∈ faces, n ∈ f
  below : ∀ i ∈ s.indices, i.toNat < s.vertexIds.length
  whole : s.Whole
  triangles : s.triangles = (faces.flatMap fan).map (List.map some)
  numbered : s.faceIds.map UInt32.toNat = (faces.zipIdx 1).flatMap fun f => List.replicate (f.1.length - 2) f.2

theorem vertexIds_compactIds (boundary : List (List ℕ)) : (compactIds boundary).vertexIds.Nodup ∧
    ∀ n, n ∈ (compactIds boundary).vertexIds ↔ ∃ f ∈ boundary, n ∈ f := by
  have hfold : ∀ (nodes : List ℕ) (ids : CompactIds), ids.vertexIds.Nodup →
      (∀ n, n ∈ ids.nodeToCompact ↔ n ∈ ids.vertexIds) →
      (nodes.foldl addVertex ids).vertexIds.Nodup ∧
        ∀ n, n ∈ (nodes.foldl addVertex ids).vertexIds ↔ n ∈ ids.vertexIds ∨ n ∈ nodes := by
    intro nodes
    induction nodes with
    | nil =>
      intro ids hnodup _
      exact ⟨hnodup, fun n => (or_iff_left List.not_mem_nil).symm⟩
    | cons m nodes ih =>
      intro ids hnodup hsame
      have hstep : (addVertex ids m).vertexIds.Nodup ∧
          ∀ n, n ∈ (addVertex ids m).vertexIds ↔ n ∈ ids.vertexIds ∨ n = m := by
        unfold addVertex
        split_ifs with hmem
        · refine ⟨hnodup, fun n => (or_iff_left_of_imp ?_).symm⟩
          rintro rfl
          exact (hsame n).mp hmem
        · refine ⟨List.nodup_append.mpr ⟨hnodup, List.nodup_singleton m, ?_⟩, fun n => ?_⟩
          · rintro a ha b hb rfl
            rw [List.mem_singleton.mp hb] at ha
            exact hmem ((hsame m).mpr ha)
          · rw [List.mem_append, List.mem_singleton]
      have hkeys : ∀ n, n ∈ (addVertex ids m).nodeToCompact ↔ n ∈ (addVertex ids m).vertexIds := by
        intro n
        rw [mem_addVertex, hstep.2, hsame, or_comm]
      obtain ⟨hend, hmem⟩ := ih (addVertex ids m) hstep.1 hkeys
      refine ⟨hend, fun n => ?_⟩
      rw [List.foldl_cons, hmem, hstep.2, List.mem_cons, or_assoc]
  obtain ⟨hnodup, hmem⟩ := hfold boundary.flatten {} List.nodup_nil
    (fun n => iff_of_false (AList.notMem_empty n) List.not_mem_nil)
  refine ⟨hnodup, fun n => ?_⟩
  rw [compactIds, hmem, List.mem_flatten]
  exact or_iff_right List.not_mem_nil

theorem emitFace_adds {ci : List UInt32} (h : ci.length = 3 ∨ ci.length = 4) (faceIdx : ℕ) (s : SurfaceStream) :
    (emitFace faceIdx ci s).faceIds = s.faceIds ++ List.replicate (ci.length - 2) (UInt32.ofNat (faceIdx + 1)) ∧
      ∀ v ∈ (emitFace faceIdx ci s).indices, v ∈ s.indices ∨ v ∈ ci := by
  rcases h with h | h
  · obtain ⟨a, b, c, rfl⟩ := List.length_eq_three.mp h
    exact ⟨rfl, fun v hv => List.mem_append.mp hv⟩
  · obtain ⟨a, b, c, d, rfl⟩ := List.length_eq_four.mp h
    refine ⟨List.append_assoc s.faceIds [_] [_], fun v hv => ?_⟩
    rcases List.mem_append.mp hv with hv | hv
    · rcases List.mem_append.mp hv with hv | hv
      · exact Or.inl hv
      · refine Or.inr (List.Sublist.subset ?_ hv)
        exact List.sublist_append_left [a, b, c] [d]
    · refine Or.inr (List.Sublist.subset ?_ hv)
      exact ((List.sublist_cons_self b [c, d]).cons_cons a)

theorem emitFaces_adds {ids : CompactIds} {boundary : List (List ℕ)}
    (hids : ∀ f ∈ boundary, ∀ node ∈ f, node ∈ ids.nodeToCompact)
    (hlength : ∀ f ∈ boundary, f.length = 3 ∨ f.length = 4) {s s' : SurfaceStream} (hwhole : s.Whole) (faceIdx : ℕ)
    (hrun : emitFaces ids faceIdx boundary s = .ok s') :
    s'.Whole ∧ s'.vertexIds = s.vertexIds ∧
      s'.faceIds = s.faceIds ++ (boundary.zipIdx (faceIdx + 1)).flatMap
        (fun f => List.replicate (f.1.length - 2) (UInt32.ofNat f.2)) ∧
      ∀ v ∈ s'.indices, v ∈ s.indices ∨ ∃ f ∈ boundary, ∃ node ∈ f, v = ids.num node := by
  induction boundary generalizing s faceIdx with
  | nil =>
    obtain rfl : s = s' := Except.ok.inj hrun
    exact ⟨hwhole, rfl, (List.append_nil _).symm, fun v hv => Or.inl hv⟩
  | cons f boundary ih =>
    rw [emitFaces, CompactIds.mapM_at (hids f List.mem_cons_self)] at hrun
    obtain ⟨hnext, hsame, -⟩ := emitFace_spec hwhole faceIdx (f.map ids.num)
    have hci : (f.map ids.num).length = 3 ∨ (f.map ids.num).length = 4 := by
      rw [List.length_map]
      exact hlength f List.mem_cons_self
    obtain ⟨hnumbers, hindices⟩ := emitFace_adds hci faceIdx s
    obtain ⟨hend, hvertex, hids', hindices'⟩ := ih (fun g hg => hids g (List.mem_cons_of_mem f hg))
      (fun g hg => hlength g (List.mem_cons_of_mem f hg)) hnext (faceIdx + 1) hrun
    refine ⟨hend, hvertex.trans hsame, ?_, fun v hv => ?_⟩
    · rw [hids', hnumbers, List.length_map, List.zipIdx_cons, List.flatMap_cons, List.append_assoc]
    · rcases hindices' v hv with hv | ⟨g, hg, hnode⟩
      · rcases hindices v hv with hv | hv
        · exact Or.inl hv
        · obtain ⟨node, hnode, rfl⟩ := List.mem_map.mp hv
          exact Or.inr ⟨f, List.mem_cons_self, node, hnode, rfl⟩
      · exact Or.inr ⟨g, List.mem_cons_of_mem f hg, hnode⟩

theorem mem_fan {α : Type} {f t : List α} (ht : t ∈ fan f) {x : α} (hx : x ∈ t) : x ∈ f := by
  have hsub : ∀ a b c d : α, t ∈ [[a, b, c], [a, c, d]] → x ∈ [a, b, c, d] := by
    intro a b c d ht
    rcases List.mem_pair.mp ht with rfl | rfl
    · exact List.Sublist.subset (List.sublist_append_left [a, b, c] [d]) hx
    · exact List.Sublist.subset ((List.sublist_cons_self b [c, d]).cons_cons a) hx
  by_cases hthree : f.length = 3
  · obtain ⟨a, b, c, rfl⟩ := List.length_eq_three.mp hthree
    rwa [List.mem_singleton.mp ht] at hx
  by_cases hfour : f.length = 4
  · obtain ⟨a, b, c, d, rfl⟩ := List.length_eq_four.mp hfour
    exact hsub a b c d ht
  · have hnil : fan f = [] := by
      unfold fan
      split
      · exact absurd rfl hthree
      · exact absurd rfl hfour
      · rfl
    rw [hnil] at ht
    exact absurd ht List.not_mem_nil

theorem shows_of_emitFaces {boundary : List (List ℕ)} (hlength : ∀ f ∈ boundary, f.length = 3 ∨ f.length = 4)
    (hvertices : (compactIds boundary).vertexIds.length ≤ 2 ^ 32) (hfaces : boundary.length < 2 ^ 32) :
    ∃ s, emitFaces (compactIds boundary) 0 boundary { vertexIds := (compactIds boundary).vertexIds } = .ok s ∧
      s.Shows boundary := by
  have hids : ∀ f ∈ boundary, ∀ node ∈ f, node ∈ (compactIds boundary).nodeToCompact :=
    fun f hf node hnode => mem_compactIds hf hnode
  obtain ⟨s, hrun, htriangles⟩ := emitFaces_ok hids
    (s := { vertexIds := (compactIds boundary).vertexIds }) rfl rfl 0
  obtain ⟨hwhole, hvertex, hnumbers, hindices⟩ := emitFaces_adds hids hlength
    (s := { vertexIds := (compactIds boundary).vertexIds }) rfl 0 hrun
  obtain ⟨hnodup, hmem⟩ := vertexIds_compactIds boundary
  have hread : ∀ f ∈ boundary, ∀ node ∈ f, (compactIds boundary).read node = some node :=
    fun f hf node hnode => compactIds_read hvertices hf hnode
  refine ⟨s, hrun, ?_, ?_, ?_, hwhole, ?_, ?_⟩
  · rwa [hvertex]
  · rwa [hvertex]
  · intro v hv
    obtain ⟨f, hf, node, hnode, rfl⟩ := (hindices v hv).resolve_left List.not_mem_nil
    rw [hvertex]
    exact (List.getElem?_eq_some_iff.mp (hread f hf node hnode)).1
  · have hstart : s.triangles = (boundary.flatMap fan).map (List.map (compactIds boundary).read) := htriangles
    rw [hstart]
    apply List.map_congr_left
    intro t ht
    apply List.map_congr_left
    intro node hnode
    obtain ⟨f, hf, hfan⟩ := List.mem_flatMap.mp ht
    exact hread f hf node (mem_fan hfan hnode)
  · have hstart : s.faceIds = (boundary.zipIdx 1).flatMap
        (fun f => List.replicate (f.1.length - 2) (UInt32.ofNat f.2)) := hnumbers
    rw [hstart, List.map_flatMap]
    apply List.flatMap_congr
    intro f hf
    have hlt : f.2 < 2 ^ 32 := by
      have hle := List.snd_lt_add_of_mem_zipIdx hf
      omega
    rw [List.map_replicate, UInt32.toNat_ofNat_of_lt' hlt]

/-! ## Exactness -/

section

variable {mesh : Mesh}

theorem length_surfaceCells (h : mesh.Valid) {f : List ℕ} (hf : f ∈ mesh.surfaceCells) :
    (f.length = 3 ∨ f.length = 4) ∧ ∀ n ∈ f, n < mesh.nodes.length := by
  obtain ⟨cell, hcell, rfl⟩ := List.mem_map.mp hf
  obtain ⟨hin, hsurface⟩ := List.mem_filter.mp hcell
  obtain ⟨harity, hbound⟩ := h cell hin
  refine ⟨?_, hbound⟩
  rw [harity]
  rcases of_decide_eq_true hsurface with htri | hquad
  · rw [htri]
    exact Or.inl rfl
  · rw [hquad]
    exact Or.inr rfl

theorem length_solidFaces (h : mesh.Valid) {f : List ℕ} (hf : f ∈ mesh.solidFaces) :
    (f.length = 3 ∨ f.length = 4) ∧ ∀ n ∈ f, n < mesh.nodes.length := by
  obtain ⟨cell, hcell, hface⟩ := List.mem_flatMap.mp hf
  obtain ⟨hin, hsolid⟩ := List.mem_filter.mp hcell
  obtain ⟨harity, hbound⟩ := h cell hin
  obtain ⟨lf, hlf, rfl⟩ := List.mem_map.mp hface
  obtain ⟨hlen, -, hlt⟩ := table_corners cell.type (of_decide_eq_true hsolid) lf hlf
  refine ⟨by rwa [faceVerts, List.length_map], fun n hn => ?_⟩
  obtain ⟨i, hi, rfl⟩ := List.mem_map.mp hn
  have hi' : i < cell.nodes.length := by
    rw [harity]
    exact hlt i hi
  rw [List.getD_eq_getElem _ _ hi']
  exact hbound _ (List.getElem_mem hi')

theorem length_surfaceFaces (h : mesh.Valid) {f : List ℕ} (hf : f ∈ mesh.surfaceFaces) :
    (f.length = 3 ∨ f.length = 4) ∧ ∀ n ∈ f, n < mesh.nodes.length := by
  rcases List.mem_append.mp hf with hf | hf
  · exact length_surfaceCells h hf
  · exact length_solidFaces h (mem_once.mp hf).1

/-- The stream shows the surface cells and the faces of solid cells whose key occurs once, over the solid cells and,
by its keys, over the faces of all cells. -/
theorem surface_exact (order : WalkOrder) (h : mesh.Valid) (hnodes : mesh.nodes.length < 2 ^ 32)
    (hfaces : mesh.surfaceFaces.length < 2 ^ 32) :
    ∃ s faces, SurfaceStream.build order mesh = .ok s ∧ s.Shows faces ∧
      faces.Perm (mesh.surfaceCells ++ once faceKey mesh.solidFaces) ∧
      ∀ k, k ∈ faces.map faceKey ↔ (∃ f ∈ mesh.surfaceCells, faceKey f = k) ∨
        ∃ f ∈ mesh.solidFaces, faceKey f = k ∧ tally faceKey k mesh.faces = 1 := by
  have hperm := extractBoundaryFaces_perm order h
  have hkeys : ∀ k, k ∈ (extractBoundaryFaces order mesh).map faceKey ↔ _ := fun k =>
    (hperm.map faceKey).mem_iff.trans (mem_surfaceKeys h k)
  unfold SurfaceStream.build
  by_cases hempty : extractBoundaryFaces order mesh = []
  · refine ⟨{}, [], if_pos hempty, ?_, hempty ▸ hperm, fun k => ?_⟩
    · refine ⟨List.nodup_nil, fun n => iff_of_false List.not_mem_nil ?_, fun i hi => absurd hi List.not_mem_nil, rfl,
        rfl, rfl⟩
      rintro ⟨f, hf, -⟩
      exact List.not_mem_nil hf
    · rw [← hkeys k, hempty]
  · have hsurface : ∀ f ∈ extractBoundaryFaces order mesh,
        (f.length = 3 ∨ f.length = 4) ∧ ∀ n ∈ f, n < mesh.nodes.length :=
      fun f hf => length_surfaceFaces h (hperm.mem_iff.mp hf)
    have hvertices : (compactIds (extractBoundaryFaces order mesh)).vertexIds.length ≤ 2 ^ 32 := by
      obtain ⟨hnodup, hmem⟩ := vertexIds_compactIds (extractBoundaryFaces order mesh)
      have hrange : (compactIds (extractBoundaryFaces order mesh)).vertexIds ⊆ List.range mesh.nodes.length := by
        intro n hn
        obtain ⟨f, hf, hnf⟩ := (hmem n).mp hn
        exact List.mem_range.mpr ((hsurface f hf).2 n hnf)
      have hle := (hnodup.subperm hrange).length_le
      rw [List.length_range] at hle
      omega
    obtain ⟨s, hrun, hshows⟩ := shows_of_emitFaces (fun f hf => (hsurface f hf).1) hvertices
      (by rwa [hperm.length_eq])
    exact ⟨s, extractBoundaryFaces order mesh, (if_neg hempty).trans hrun, hshows, hperm, hkeys⟩

end

theorem surface_exact_two : ∃ s faces, SurfaceStream.build entryOrder twoTets = .ok s ∧ s.Shows faces ∧
    faces.Perm (twoTets.surfaceCells ++ once faceKey twoTets.solidFaces) ∧
      ∀ k, k ∈ faces.map faceKey ↔ (∃ f ∈ twoTets.surfaceCells, faceKey f = k) ∨
        ∃ f ∈ twoTets.solidFaces, faceKey f = k ∧ tally faceKey k twoTets.faces = 1 :=
  surface_exact entryOrder twoTets_solid.valid (by decide) (by decide)

/-- A tetrahedron with a triangle on one of its faces. -/
def coatedTet : Mesh where
  nodes := List.replicate 4 (0, 0, 0)
  cells := [⟨.tet4, [0, 1, 2, 3], 0⟩, ⟨.tri3, [1, 2, 3], 0⟩]

/-- The key of the coated face occurs twice over the tables of all cells, and the face is shown. -/
theorem coated_face_shown : ¬∀ (order : WalkOrder) (mesh : Mesh), mesh.Valid → mesh.nodes.length < 2 ^ 32 →
    mesh.surfaceFaces.length < 2 ^ 32 → ∀ s faces, SurfaceStream.build order mesh = .ok s → s.Shows faces →
      faces.Perm (mesh.surfaceCells ++
        mesh.solidFaces.filter fun f => tally faceKey (faceKey f) mesh.faces = 1) := by
  intro h
  obtain ⟨s, hrun, hshows⟩ := @shows_of_emitFaces (extractBoundaryFaces entryOrder coatedTet) (by decide) (by decide)
    (by decide)
  have hbuild : SurfaceStream.build entryOrder coatedTet = .ok s := hrun
  have hvalid : coatedTet.Valid := by
    unfold Mesh.Valid
    decide
  have hperm := h entryOrder coatedTet hvalid (by decide) (by decide) s _ hbuild hshows
  exact absurd hperm.length_eq (by decide)

end Souxmar.Core
