import Mathlib.Algebra.BigOperators.Group.List.Basic
import Mathlib.Algebra.Group.Prod
import Souxmar.Am.Agreement

/-!
# The closed verdict on volumes

A volume is reported as closed as soon as a face is emitted. A cell lies between two of its faces at an edge, so that one
can walk around the edge from cell to cell. Where the walk comes from one emitted face to another and meets every cell,
but for those in closed rings, the edge is on two emitted faces.
-/

namespace Souxmar.Am.Slicer

open Souxmar.Core Souxmar.Lib

/-! ## The cells that are taken -/

/-- A volume cell that is not skipped. -/
def Taken (cell : Cell) : Prop :=
  (topoFor cell.type).volume = true ∧
    ¬(cell.nodes.length < (topoFor cell.type).corners || cell.nodes.length > kMaxCellNodes) = true

instance : DecidablePred Taken := fun _ => inferInstanceAs (Decidable (_ ∧ _))

def cellFaces (cell : Cell) : List (List ℕ) :=
  if Taken cell then (topoFor cell.type).faces.map (nodesOf cell.nodes) else []

def volumeFaces (mesh : Mesh) : List (List ℕ) := mesh.cells.flatMap cellFaces

/-- The face is counted once, in 32 bits. -/
def Lone (mesh : Mesh) (f : List ℕ) : Prop := tally faceKey (faceKey f) (volumeFaces mesh) % 2 ^ 32 = 1

instance (mesh : Mesh) : DecidablePred (Lone mesh) := fun _ => inferInstanceAs (Decidable (_ = _))

def loneFaces (mesh : Mesh) : List (List ℕ) := (volumeFaces mesh).filter fun f => Lone mesh f

/-- The corners of the cell are nodes of the mesh. -/
def InRange (numNodes : ℕ) (cell : Cell) : Prop :=
  Taken cell → ¬((cell.nodes.take (topoFor cell.type).corners).any fun n => n ≥ numNodes) = true

instance (numNodes : ℕ) : DecidablePred (InRange numNodes) := fun _ => inferInstanceAs (Decidable (_ → _))

/-- Nothing in the mesh makes the extraction fail. -/
structure Readable (mesh : Mesh) : Prop where
  nodes : mesh.nodes ≠ []
  finite : ¬∃ p ∈ mesh.nodes, ¬finitePoint p
  cells : ∀ cell ∈ mesh.cells, InRange mesh.nodes.length cell

/-! ## Around an edge -/

def facesAt (e : List ℕ) (cell : Cell) : List (List ℕ) := (cellFaces cell).filter fun f => e ∈ edgesOf f

/-- A cell at an edge, between the two of its faces that have the edge as one of their sides. -/
structure Wedge (e : List ℕ) where
  cell : Cell
  left : List ℕ
  right : List ℕ
  faces : (facesAt e cell).Perm [left, right]
  once : (edgesOf left).count e = 1 ∧ (edgesOf right).count e = 1

/-- The number of cells that have the face. -/
def owners (mesh : Mesh) (f : List ℕ) : ℕ := tally faceKey (faceKey f) (volumeFaces mesh)

section

variable (mesh : Mesh) {e : List ℕ}

/-- The face at the right of the first cell is the one at the left of the second, and no third cell has it. -/
def Joined (s t : Wedge e) : Prop := faceKey s.right = faceKey t.left ∧ owners mesh s.right = 2

/-- From a face of one cell around the edge to another face of one cell. -/
structure IsFan (first : Wedge e) (rest : List (Wedge e)) : Prop where
  chain : List.IsChain (Joined mesh) (first :: rest)
  begins : owners mesh first.left = 1
  ends : owners mesh (rest.getLastD first).right = 1

/-- Around the edge and back. -/
structure IsRing (first : Wedge e) (rest : List (Wedge e)) : Prop where
  chain : List.IsChain (Joined mesh) (first :: rest)
  closes : Joined mesh (rest.getLastD first) first

variable (e)

/-- The cells at the edge are one open fan, and otherwise closed rings. -/
def OneFan : Prop :=
  ∃ (first : Wedge e) (rest : List (Wedge e)) (rings : List (Wedge e × List (Wedge e))),
    IsFan mesh first rest ∧ (∀ r ∈ rings, IsRing mesh r.1 r.2) ∧
      ((first :: rest ++ rings.flatMap fun r => r.1 :: r.2).map Wedge.cell).Perm
        (mesh.cells.filter fun cell => facesAt e cell ≠ [])

end

/-- Every edge of the facets is on two of them, and once on each, as the audit of shells has it. -/
def EdgesTwice (facets : List (List ℕ)) : Prop :=
  ∀ f ∈ facets, ∀ e ∈ edgesOf f,
    (facets.flatMap edgesOf).count e = 2 ∧ (facets.countP fun g => decide (e ∈ edgesOf g)) = 2

/-! ## Counting around an edge -/

section

variable {mesh : Mesh} {e : List ℕ}

/-- The sides at the edge, and the faces at it, among those of a list that one cell owns. -/
def loneAt (mesh : Mesh) (e : List ℕ) (faces : List (List ℕ)) : ℕ × ℕ :=
  (((faces.filter fun f => Lone mesh f).flatMap edgesOf).count e,
    (faces.filter fun f => Lone mesh f).countP fun f => decide (e ∈ edgesOf f))

theorem loneAt_append (faces faces' : List (List ℕ)) :
    loneAt mesh e (faces ++ faces') = loneAt mesh e faces + loneAt mesh e faces' := by
  simp only [loneAt, List.filter_append, List.flatMap_append, List.count_append, List.countP_append, Prod.mk_add_mk]

theorem loneAt_perm {faces faces' : List (List ℕ)} (h : faces.Perm faces') :
    loneAt mesh e faces = loneAt mesh e faces' :=
  Prod.ext (((h.filter _).flatMap_right edgesOf).count_eq e) ((h.filter _).countP_eq _)

theorem loneAt_flatMap {α : Type*} (faces : α → List (List ℕ)) (l : List α) :
    loneAt mesh e (l.flatMap faces) = (l.map fun a => loneAt mesh e (faces a)).sum := by
  induction l with
  | nil => rfl
  | cons a l ih => rw [List.flatMap_cons, loneAt_append, ih, List.map_cons, List.sum_cons]

theorem loneAt_singleton (f : List ℕ) : loneAt mesh e [f] =
    if Lone mesh f then ((edgesOf f).count e, if e ∈ edgesOf f then 1 else 0) else 0 := by
  unfold loneAt
  by_cases hlone : Lone mesh f
  · rw [if_pos hlone, List.filter_singleton, decide_eq_true hlone, cond_true, List.flatMap_singleton,
      List.countP_singleton]
    simp only [decide_eq_true_eq]
  · rw [if_neg hlone, List.filter_singleton, decide_eq_false hlone, cond_false]
    rfl

theorem loneAt_facesAt (faces : List (List ℕ)) :
    loneAt mesh e faces = loneAt mesh e (faces.filter fun f => e ∈ edgesOf f) := by
  induction faces with
  | nil => rfl
  | cons f faces ih =>
    rw [← List.singleton_append, loneAt_append, List.filter_append, loneAt_append, ih, List.filter_singleton]
    congr 1
    by_cases he : e ∈ edgesOf f
    · rw [decide_eq_true he, cond_true]
    · rw [decide_eq_false he, cond_false, loneAt_singleton, List.count_eq_zero.mpr he, if_neg he]
      exact ite_self _

/-- A face of a wedge counts when one cell owns it. -/
def loneSide (mesh : Mesh) (f : List ℕ) : ℕ × ℕ := if Lone mesh f then (1, 1) else 0

theorem loneAt_wedge (w : Wedge e) :
    loneAt mesh e (cellFaces w.cell) = loneSide mesh w.left + loneSide mesh w.right := by
  have hside : ∀ {f : List ℕ}, (edgesOf f).count e = 1 → loneAt mesh e [f] = loneSide mesh f := fun {f} hcount => by
    have hmem : e ∈ edgesOf f := List.count_pos_iff.mp (by omega)
    rw [loneAt_singleton, hcount, if_pos hmem]
    rfl
  rw [loneAt_facesAt]
  change loneAt mesh e (facesAt e w.cell) = _
  rw [loneAt_perm w.faces, ← List.singleton_append, loneAt_append, hside w.once.1, hside w.once.2]

theorem loneSide_one {f : List ℕ} (h : owners mesh f = 1) : loneSide mesh f = (1, 1) :=
  if_pos (by rw [Lone, ← owners, h]; decide)

theorem loneSide_two {f : List ℕ} (h : owners mesh f = 2) : loneSide mesh f = 0 :=
  if_neg (by rw [Lone, ← owners, h]; decide)

theorem Joined.loneSides {s t : Wedge e} (h : Joined mesh s t) :
    loneSide mesh s.right = 0 ∧ loneSide mesh t.left = 0 :=
  ⟨loneSide_two h.2, loneSide_two (by rw [owners, ← h.1]; exact h.2)⟩

theorem loneAt_chain {first : Wedge e} {rest : List (Wedge e)} (h : List.IsChain (Joined mesh) (first :: rest)) :
    ((first :: rest).map fun w => loneAt mesh e (cellFaces w.cell)).sum =
      loneSide mesh first.left + loneSide mesh (rest.getLastD first).right := by
  induction rest generalizing first with
  | nil => rw [List.map_singleton, List.sum_singleton, loneAt_wedge, List.getLastD_nil]
  | cons next rest ih =>
    obtain ⟨hjoined, hchain⟩ := List.isChain_cons_cons.mp h
    obtain ⟨hright, hleft⟩ := hjoined.loneSides
    rw [List.map_cons, List.sum_cons, ih hchain, loneAt_wedge, hright, hleft, add_zero, zero_add, List.getLastD_cons]

theorem IsFan.loneAt {first : Wedge e} {rest : List (Wedge e)} (h : IsFan mesh first rest) :
    ((first :: rest).map fun w => Slicer.loneAt mesh e (cellFaces w.cell)).sum = (2, 2) := by
  rw [loneAt_chain h.chain, loneSide_one h.begins, loneSide_one h.ends]
  rfl

theorem IsRing.loneAt {first : Wedge e} {rest : List (Wedge e)} (h : IsRing mesh first rest) :
    ((first :: rest).map fun w => Slicer.loneAt mesh e (cellFaces w.cell)).sum = 0 := by
  obtain ⟨hright, hleft⟩ := h.closes.loneSides
  rw [loneAt_chain h.chain, hright, hleft, add_zero]

theorem loneAt_cells (cells : List Cell) :
    (cells.map fun cell => loneAt mesh e (cellFaces cell)).sum =
      ((cells.filter fun cell => facesAt e cell ≠ []).map fun cell => loneAt mesh e (cellFaces cell)).sum := by
  induction cells with
  | nil => rfl
  | cons cell cells ih =>
    rw [List.map_cons, List.sum_cons, ih, List.filter_cons]
    by_cases hat : facesAt e cell = []
    · have hnone : loneAt mesh e (cellFaces cell) = 0 := by
        rw [loneAt_facesAt]
        change loneAt mesh e (facesAt e cell) = 0
        rw [hat]
        rfl
      rw [if_neg (by rw [decide_eq_true_iff]; exact not_not_intro hat), hnone, zero_add]
    · rw [if_pos (decide_eq_true hat), List.map_cons, List.sum_cons]

theorem OneFan.twice (h : OneFan mesh e) : loneAt mesh e (volumeFaces mesh) = (2, 2) := by
  obtain ⟨first, rest, rings, hfan, hrings, hcells⟩ := h
  have hall : ((rings.flatMap fun r => r.1 :: r.2).map fun w => loneAt mesh e (cellFaces w.cell)).sum = 0 := by
    clear hcells
    induction rings with
    | nil => rfl
    | cons r rings ih =>
      obtain ⟨hr, hrings⟩ := List.forall_mem_cons.mp hrings
      rw [List.flatMap_cons, List.map_append, List.sum_append, hr.loneAt, zero_add]
      exact ih hrings
  rw [volumeFaces, loneAt_flatMap, loneAt_cells, ← (hcells.map _).sum_eq, List.map_map, List.map_append, List.sum_append]
  change ((first :: rest).map fun w => loneAt mesh e (cellFaces w.cell)).sum +
    ((rings.flatMap fun r => r.1 :: r.2).map fun w => loneAt mesh e (cellFaces w.cell)).sum = _
  rw [hfan.loneAt, hall, add_zero]

end

/-! ## The extraction -/

section

variable {numNodes : ℕ} {cell : Cell}

theorem loadCell_taken (htaken : Taken cell) (h : InRange numNodes cell) :
    loadCell numNodes cell (topoFor cell.type) = .ok (some cell.nodes) := by
  unfold loadCell
  rw [if_neg htaken.2, if_neg (h htaken)]

theorem loadCell_skipped (hvolume : (topoFor cell.type).volume = true) (htaken : ¬Taken cell) :
    loadCell numNodes cell (topoFor cell.type) = .ok none := by
  unfold loadCell
  rw [if_pos (not_not.mp fun hfits => htaken ⟨hvolume, hfits⟩)]

theorem countCell_eq (h : InRange numNodes cell) (m : Dict (List ℕ) UInt32) :
    countCell numNodes m cell = .ok (((cellFaces cell).map faceKey).foldl increment m) := by
  unfold countCell cellFaces
  by_cases hvolume : (topoFor cell.type).volume = true
  · by_cases htaken : Taken cell
    · simp only [hvolume, Bool.not_true, loadCell_taken htaken h, if_pos htaken, List.map_map]
      rfl
    · simp only [hvolume, Bool.not_true, loadCell_skipped hvolume htaken, if_neg htaken]
      rfl
  · have htaken : ¬Taken cell := fun htaken => hvolume htaken.1
    simp only [Bool.eq_false_iff.mpr hvolume, Bool.not_false, if_neg htaken]
    rfl

theorem inRange_of_countCell {m m' : Dict (List ℕ) UInt32} (h : countCell numNodes m cell = .ok m') :
    InRange numNodes cell := by
  intro htaken hbad
  unfold countCell loadCell at h
  simp only [htaken.1, Bool.not_true, if_neg htaken.2, if_pos hbad] at h
  cases h

theorem emitCell_eq (h : InRange numNodes cell) (m : Dict (List ℕ) UInt32) (bm : BoundaryMesh) :
    emitCell numNodes m bm cell = .ok ((cellFaces cell).foldl (emitIfOnce m)
      (if Taken cell then bm else { bm with unsupportedCells := bm.unsupportedCells + 1 })) := by
  unfold emitCell cellFaces
  by_cases hvolume : (topoFor cell.type).volume = true
  · by_cases htaken : Taken cell
    · simp only [hvolume, Bool.not_true, loadCell_taken htaken h, if_pos htaken]
      rfl
    · simp only [hvolume, Bool.not_true, loadCell_skipped hvolume htaken, if_neg htaken]
      rfl
  · have htaken : ¬Taken cell := fun htaken => hvolume htaken.1
    simp only [Bool.eq_false_iff.mpr hvolume, Bool.not_false, if_neg htaken]
    rfl

end

theorem length_cellFaces {cell : Cell} {f : List ℕ} (hf : f ∈ cellFaces cell) : f.length = 3 ∨ f.length = 4 := by
  unfold cellFaces at hf
  split_ifs at hf with htaken
  · obtain ⟨lf, hlf, rfl⟩ := List.mem_map.mp hf
    have hcorners : ∀ t, ∀ lf ∈ (topoFor t).faces, lf.corners.length = 3 ∨ lf.corners.length = 4 := by
      intro t
      cases t <;> decide
    unfold nodesOf
    rw [List.length_map]
    exact hcorners cell.type lf hlf
  · exact absurd hf List.not_mem_nil

/-- Where there is a facet there is a triangle. -/
def Drawn (bm : BoundaryMesh) : Prop := bm.facets ≠ [] → bm.triangles ≠ []

theorem drawn_emitIfOnce (m : Dict (List ℕ) UInt32) (faces : List (List ℕ)) {bm : BoundaryMesh} (h : Drawn bm) :
    Drawn (faces.foldl (emitIfOnce m) bm) := by
  induction faces generalizing bm with
  | nil => exact h
  | cons f faces ih =>
    apply ih
    unfold emitIfOnce emitFace
    split_ifs
    · rcases f with _ | ⟨a, _ | ⟨b, _ | ⟨c, _ | ⟨d, _ | ⟨x, rest⟩⟩⟩⟩⟩
      · exact h
      · exact h
      · exact h
      · exact fun _ => List.append_ne_nil_of_right_ne_nil _ (List.cons_ne_nil _ _)
      · exact fun _ => List.append_ne_nil_of_right_ne_nil _ (List.cons_ne_nil _ _)
      · exact h
    · exact h

theorem emitCells_spec {numNodes : ℕ} {cells : List Cell} (h : ∀ cell ∈ cells, InRange numNodes cell)
    (m : Dict (List ℕ) UInt32) {bm : BoundaryMesh} (hdrawn : Drawn bm) :
    ∃ bm', cells.foldlM (emitCell numNodes m) bm = .ok bm' ∧ Drawn bm' ∧
      bm'.facets = bm.facets ++ (cells.flatMap cellFaces).filter fun f => m.lookup (faceKey f) = some 1 := by
  induction cells generalizing bm with
  | nil => exact ⟨bm, rfl, hdrawn, (List.append_nil _).symm⟩
  | cons cell cells ih =>
    obtain ⟨hcell, hcells⟩ := List.forall_mem_cons.mp h
    have hstart : Drawn (if Taken cell then bm else { bm with unsupportedCells := bm.unsupportedCells + 1 }) := by
      split_ifs
      · exact hdrawn
      · exact hdrawn
    have hfacets : (if Taken cell then bm else { bm with unsupportedCells := bm.unsupportedCells + 1 }).facets =
        bm.facets := by
      split_ifs
      · rfl
      · rfl
    obtain ⟨bm', hrun, hdrawn', hfacets'⟩ := ih hcells (drawn_emitIfOnce m (cellFaces cell) hstart)
    refine ⟨bm', ?_, hdrawn', ?_⟩
    · rw [List.foldlM_cons, emitCell_eq hcell]
      exact hrun
    · rw [hfacets', facets_emitIfOnce (fun f hf => length_cellFaces hf), hfacets, List.flatMap_cons, List.filter_append,
        List.append_assoc]

theorem countCells_spec {numNodes : ℕ} {cells : List Cell} (h : ∀ cell ∈ cells, InRange numNodes cell)
    (m : Dict (List ℕ) UInt32) :
    cells.foldlM (countCell numNodes) m = .ok (((cells.flatMap cellFaces).map faceKey).foldl increment m) := by
  rw [foldlM_ok fun cell hcell m => countCell_eq (h cell hcell) m, List.map_flatMap, List.foldl_flatMap]

theorem inRange_of_countCells {numNodes : ℕ} {cells : List Cell} {m m' : Dict (List ℕ) UInt32}
    (h : cells.foldlM (countCell numNodes) m = .ok m') : ∀ cell ∈ cells, InRange numNodes cell := by
  induction cells generalizing m with
  | nil => exact fun cell hcell => absurd hcell List.not_mem_nil
  | cons cell cells ih =>
    rw [List.foldlM_cons] at h
    cases hcount : countCell numNodes m cell with
    | error e =>
      rw [hcount] at h
      cases h
    | ok m₁ =>
      rw [hcount] at h
      exact List.forall_mem_cons.mpr ⟨inRange_of_countCell hcount, ih h⟩

section

variable {mesh : Mesh}

theorem extractVolume_spec (h : ∀ cell ∈ mesh.cells, InRange mesh.nodes.length cell) :
    ∃ bm, extractVolume mesh = .ok bm ∧ bm.facets = loneFaces mesh ∧ (bm.facets ≠ [] → bm.manifold = .closed) := by
  have hcounts := counts_start.increments ((volumeFaces mesh).map faceKey)
  rw [List.nil_append] at hcounts
  have hcount := countCells_spec h ∅
  unfold volumeFaces at hcounts
  generalize ((mesh.cells.flatMap cellFaces).map faceKey).foldl increment ∅ = counts at hcount hcounts
  have hstart : Drawn { interiorFaces := (counts.entries.filter fun e => e.2 > 1).length } := fun hne => absurd rfl hne
  obtain ⟨bm, hrun, hdrawn, hfacets⟩ := emitCells_spec h counts hstart
  have hselect : ((mesh.cells.flatMap cellFaces).filter fun f => counts.lookup (faceKey f) = some 1) =
      loneFaces mesh := by
    apply List.filter_congr
    intro f hf
    rw [hcounts.counted _ (List.mem_map_of_mem hf), count_map, decide_eq_decide, Option.some.injEq,
      ← UInt32.toNat_inj, UInt32.toNat_ofNat']
    rfl
  refine ⟨{ bm with manifold := if bm.triangles = [] then .unknown else .closed }, ?_, ?_, ?_⟩
  · unfold extractVolume
    rw [hcount]
    change (mesh.cells.foldlM (emitCell mesh.nodes.length counts)
      { interiorFaces := (counts.entries.filter fun e => e.2 > 1).length } >>= _) = _
    rw [hrun]
    rfl
  · exact (hfacets.trans (List.nil_append _)).trans hselect
  · exact fun hne => if_neg (hdrawn hne)

theorem extractBoundary_volume (hvolume : (mesh.cells.any fun cell => (topoFor cell.type).volume) = true)
    (h : Readable mesh) : ∃ bm, extractBoundary mesh = .ok bm ∧ bm.facets = loneFaces mesh ∧
      (bm.facets ≠ [] → bm.manifold = .closed) := by
  obtain ⟨bm, hrun, hbm⟩ := extractVolume_spec h.cells
  refine ⟨bm, ?_, hbm⟩
  unfold extractBoundary
  rwa [if_neg h.nodes, if_neg h.finite, if_pos hvolume]

theorem readable_of_extracted (hvolume : (mesh.cells.any fun cell => (topoFor cell.type).volume) = true)
    {bm : BoundaryMesh} (h : extractBoundary mesh = .ok bm) : Readable mesh := by
  unfold extractBoundary at h
  split_ifs at h with hnodes hfinite
  refine ⟨hnodes, hfinite, ?_⟩
  unfold extractVolume at h
  cases hcount : mesh.cells.foldlM (countCell mesh.nodes.length) ∅ with
  | error e =>
    rw [hcount] at h
    cases h
  | ok m => exact inRange_of_countCells hcount

/-- On volumes the closed verdict means what it means on shells, when the cells around every edge of an emitted face are
one open fan, and otherwise closed rings. -/
theorem closed_verdict_of_fans (hvolume : (mesh.cells.any fun cell => (topoFor cell.type).volume) = true)
    (hfans : Readable mesh → ∀ f ∈ volumeFaces mesh, Lone mesh f → ∀ e ∈ edgesOf f, OneFan mesh e) :
    ∀ bm, extractBoundary mesh = .ok bm → bm.manifold = .closed → EdgesTwice bm.facets := by
  intro bm hrun _
  have hreadable := readable_of_extracted hvolume hrun
  obtain ⟨bm', hrun', hfacets, -⟩ := extractBoundary_volume hvolume hreadable
  obtain rfl := Except.ok.inj (hrun.symm.trans hrun')
  rw [hfacets]
  intro f hf e he
  obtain ⟨hmem, hlone⟩ := List.mem_filter.mp hf
  have htwice := (hfans hreadable f hmem (of_decide_eq_true hlone) e he).twice
  exact ⟨congrArg Prod.fst htwice, congrArg Prod.snd htwice⟩

end

theorem oneFan_single {mesh : Mesh} {e : List ℕ} (w : Wedge e) (hleft : owners mesh w.left = 1)
    (hright : owners mesh w.right = 1) (hcells : mesh.cells.filter (fun cell => facesAt e cell ≠ []) = [w.cell]) :
    OneFan mesh e :=
  ⟨w, [], [], ⟨.singleton w, hleft, hright⟩, fun _ hr => absurd hr List.not_mem_nil, by rw [hcells]; rfl⟩

def tetCell : Cell := ⟨.tet4, [0, 1, 2, 3], 0⟩

def lonelyTet : Mesh where
  nodes := List.replicate 4 (0, 0, 0)
  cells := [tetCell]

theorem lonelyTet_fans : ∀ f ∈ volumeFaces lonelyTet, ∀ e ∈ edgesOf f, OneFan lonelyTet e := by
  have hwedges : ∀ f ∈ volumeFaces lonelyTet, ∀ e ∈ edgesOf f, ∃ l ∈ cellFaces tetCell, ∃ r ∈ cellFaces tetCell,
      facesAt e tetCell = [l, r] ∧ ((edgesOf l).count e = 1 ∧ (edgesOf r).count e = 1) ∧
        owners lonelyTet l = 1 ∧ owners lonelyTet r = 1 ∧
          lonelyTet.cells.filter (fun cell => facesAt e cell ≠ []) = [tetCell] := by
    decide
  intro f hf e he
  obtain ⟨l, -, r, -, hfaces, honce, hleft, hright, hcells⟩ := hwedges f hf e he
  exact oneFan_single ⟨tetCell, l, r, .of_eq hfaces, honce⟩ hleft hright hcells

theorem closed_verdict_of_fans_tet :
    (lonelyTet.cells.any fun cell => (topoFor cell.type).volume) = true ∧
      ∀ bm, extractBoundary lonelyTet = .ok bm → bm.manifold = .closed → EdgesTwice bm.facets :=
  ⟨rfl, closed_verdict_of_fans rfl fun _ f hf _ => lonelyTet_fans f hf⟩

/-- Two tetrahedra with an edge in common. -/
def hinge : Mesh where
  nodes := List.replicate 6 (0, 0, 0)
  cells := [⟨.tet4, [0, 1, 2, 3], 0⟩, ⟨.tet4, [0, 1, 4, 5], 0⟩]

/-- The common edge is on four facets, and the verdict is closed. -/
theorem hinge_closed :
    ∃ bm, extractBoundary hinge = .ok bm ∧ bm.manifold = .closed ∧
      ∃ f ∈ bm.facets, [0, 1] ∈ edgesOf f ∧ (bm.facets.countP fun g => decide ([0, 1] ∈ edgesOf g)) = 4 := by
  have hlone : loneFaces hinge =
      [[1, 2, 3], [0, 3, 2], [0, 1, 3], [0, 2, 1], [1, 4, 5], [0, 5, 4], [0, 1, 5], [0, 4, 1]] := by decide
  have hreadable : Readable hinge := ⟨by decide, by decide, by decide⟩
  have hvolume : (hinge.cells.any fun cell => (topoFor cell.type).volume) = true := rfl
  obtain ⟨bm, hrun, hfacets, hclosed⟩ := extractBoundary_volume hvolume hreadable
  rw [hlone] at hfacets
  refine ⟨bm, hrun, hclosed (by rw [hfacets]; exact List.cons_ne_nil _ _), ?_⟩
  rw [hfacets]
  exact ⟨[0, 1, 3], by decide, by decide, by decide⟩

end Souxmar.Am.Slicer
