import Mathlib.Analysis.Real.Sqrt
import Mathlib.Data.Finset.Basic
import Mathlib.Data.Rat.Sqrt
import Mathlib.Tactic.FieldSimp
import Souxmar.Core.Watertight
import Souxmar.Fem.Solve

/-!
# Tractions on the boundary

The faces that a traction selector loads against the boundary faces of the mesh. The selection looks at one cell at a
time, so that it is right exactly when it meets no face of two cells. The nodal loads of a face add up to its area, which
is that of its triangles; the rule for quadrilaterals gives it where they are plane and convex.
-/

namespace Souxmar.Fem

open Souxmar.Core Souxmar.Lib

variable {K : Type*} [Field K]

/-! ## Faces of a mesh -/

/-- A mesh of Tet4 and Hex8 cells, with the node ids in range. -/
structure FemMesh.TetHex (mesh : FemMesh K) : Prop where
  types : ∀ cell ∈ mesh.cells, cell.type = .tet4 ∨ cell.type = .hex8
  arity : ∀ cell ∈ mesh.cells, cell.nodes.length = cell.type.numNodes
  inside : ∀ cell ∈ mesh.cells, ∀ i ∈ cell.nodes, i < mesh.nodes.length

/-- The node set of a face. -/
def faceNodes (t : Cell × LocalFace) : Finset ℕ := (faceVerts t.1 t.2).toFinset

/-- The cells that have this face. -/
def ownerCount (mesh : FemMesh K) (face : Finset ℕ) : ℕ :=
  mesh.cells.countP fun (cell : Cell) => decide (∃ lf ∈ faceTable cell.type, faceNodes (cell, lf) = face)

def IsBoundary (mesh : FemMesh K) (face : Finset ℕ) : Prop := ownerCount mesh face = 1

instance (mesh : FemMesh K) (face : Finset ℕ) : Decidable (IsBoundary mesh face) :=
  inferInstanceAs (Decidable (ownerCount mesh face = 1))

variable [LinearOrder K]

/-- The selector matches the face: its nodes are on the plane, or a cell has the tag on it. -/
def Matches (mesh : FemMesh K) (sel : Selector K) (face : Finset ℕ) : Prop :=
  match sel.kind with
  | .plane => ∀ i ∈ face, nodeOnPlane sel (mesh.nodes.getD i 0) = true
  | .faceTag => ∃ t ∈ mesh.cells.zipIdx, ∃ g ∈ (faceTable t.1.type).zipIdx,
      faceNodes (t.1, g.1) = face ∧ mesh.faceTag t.2 g.2 = sel.faceTag

/-- Half the length of the cross product of two sides. -/
def triangleArea (sqrt : K → K) (a b c : Vec3 K) : K :=
  kHalf * sqrt (dot3 (cross3 (b - a) (c - a)) (cross3 (b - a) (c - a)))

/-- The area of a plane convex polygon: the triangles from its first corner. -/
def polygonArea (sqrt : K → K) (count : ℕ) (fx : ℕ → Vec3 K) : K :=
  ((List.range (count - 2)).map fun i => triangleArea sqrt (fx 0) (fx (i + 1)) (fx (i + 2))).sum

/-- The corners of a face. -/
def faceCorners (mesh : FemMesh K) (t : Cell × LocalFace) : ℕ → Vec3 K :=
  fun v => mesh.nodes.getD ((faceVerts t.1 t.2).getD v 0) 0

def faceArea (sqrt : K → K) (mesh : FemMesh K) (t : Cell × LocalFace) : K :=
  polygonArea sqrt t.2.vertexCount (faceCorners mesh t)

/-- Twice the area of a triangle with these coordinates in a plane, negative when it turns the other way. -/
def turn (p q : ℕ → K) (i j k : ℕ) : K := (p j - p i) * (q k - q i) - (q j - q i) * (p k - p i)

/-- Four points in a plane that turn the same way at each corner. -/
def ConvexQuad (fx : ℕ → Vec3 K) : Prop :=
  ∃ (o e1 e2 : Vec3 K) (p q : ℕ → K), (∀ i < 4, ∀ d, fx i d = o d + p i * e1 d + q i * e2 d) ∧
    0 ≤ turn p q 3 0 1 ∧ 0 ≤ turn p q 0 1 2 ∧ 0 ≤ turn p q 1 2 3 ∧ 0 ≤ turn p q 2 3 0

/-- The quadrilaterals that are selected are plane and convex. -/
def FlatFaces (mesh : FemMesh K) (sel : Selector K) : Prop :=
  ∀ t ∈ selectedFaces mesh sel, t.2.vertexCount = 4 → ConvexQuad (faceCorners mesh t)

/-- A component of the load on all nodes. -/
def totalLoad (n : ℕ) (rhs : ℕ → K) (d : Fin 3) : K := ∑ i ∈ Finset.range n, rhs (i * 3 + d)

/-- The faces over which the traction is integrated are the boundary faces that the selector matches, each once. -/
structure SelectsBoundaryOnce (mesh : FemMesh K) (sel : Selector K) : Prop where
  once : ((selectedFaces mesh sel).map faceNodes).Nodup
  exactly : ∀ face, face ∈ (selectedFaces mesh sel).map faceNodes ↔ IsBoundary mesh face ∧ Matches mesh sel face

/-- And the nodal loads add up to the traction times the area of these faces. -/
structure LoadsBoundaryOnce (sqrt : K → K) (kGauss2 : K) (mesh : FemMesh K) (sel : Selector K) : Prop
    extends SelectsBoundaryOnce mesh sel where
  loads : ∀ rhs d, totalLoad mesh.nodes.length (applyTraction sqrt kGauss2 mesh sel rhs) d =
    totalLoad mesh.nodes.length rhs d + sel.traction d *
      (((selectedFaces mesh sel).filter fun t => IsBoundary mesh (faceNodes t)).map (faceArea sqrt mesh)).sum

/-! ## Selection -/

/-- The faces of one cell that are selected. -/
def selectedOf (mesh : FemMesh K) (sel : Selector K) (t : Cell × ℕ) : List (Cell × LocalFace) :=
  ((faceTable t.1.type).zipIdx.filter fun g => faceSelected mesh sel t.2 t.1 g.2 g.1).map fun g => (t.1, g.1)

theorem selectedFaces_eq (mesh : FemMesh K) (sel : Selector K) :
    selectedFaces mesh sel = mesh.cells.zipIdx.flatMap (selectedOf mesh sel) := rfl

theorem mem_selectedOf {mesh : FemMesh K} {sel : Selector K} {t : Cell × ℕ} {x : Cell × LocalFace} :
    x ∈ selectedOf mesh sel t ↔
      ∃ g ∈ (faceTable t.1.type).zipIdx, faceSelected mesh sel t.2 t.1 g.2 g.1 = true ∧ x = (t.1, g.1) := by
  unfold selectedOf
  rw [List.mem_map]
  constructor
  · rintro ⟨g, hg, rfl⟩
    obtain ⟨hg, hselected⟩ := List.mem_filter.mp hg
    exact ⟨g, hg, hselected, rfl⟩
  · rintro ⟨g, hg, hselected, rfl⟩
    exact ⟨g, List.mem_filter.mpr ⟨hg, hselected⟩, rfl⟩

theorem fst_mem_of_mem_zipIdx {α : Type*} {l : List α} {p : α × ℕ} (h : p ∈ l.zipIdx) : p.1 ∈ l := by
  rw [← List.zipIdx_map_fst 0 l]
  exact List.mem_map_of_mem h

theorem selected_matches {mesh : FemMesh K} {sel : Selector K} {t : Cell × ℕ} (ht : t ∈ mesh.cells.zipIdx)
    {x : Cell × LocalFace} (hx : x ∈ selectedOf mesh sel t) : Matches mesh sel (faceNodes x) := by
  obtain ⟨g, hg, hselected, rfl⟩ := mem_selectedOf.mp hx
  unfold faceSelected at hselected
  unfold Matches
  cases hkind : sel.kind with
  | plane =>
    rw [hkind] at hselected
    intro i hi
    exact List.all_eq_true.mp hselected i (List.mem_toFinset.mp hi)
  | faceTag =>
    rw [hkind] at hselected
    exact ⟨t, ht, g, hg, rfl, of_decide_eq_true hselected⟩

theorem selected_of_matches {mesh : FemMesh K} {sel : Selector K} {face : Finset ℕ}
    (hface : ∃ t ∈ mesh.cells.zipIdx, ∃ g ∈ (faceTable t.1.type).zipIdx, faceNodes (t.1, g.1) = face)
    (hmatches : Matches mesh sel face) : face ∈ (selectedFaces mesh sel).map faceNodes := by
  have hselect : ∀ t ∈ mesh.cells.zipIdx, ∀ g ∈ (faceTable t.1.type).zipIdx, faceNodes (t.1, g.1) = face →
      faceSelected mesh sel t.2 t.1 g.2 g.1 = true → face ∈ (selectedFaces mesh sel).map faceNodes := by
    rintro t ht g hg rfl hselected
    exact List.mem_map_of_mem (List.mem_flatMap.mpr ⟨t, ht, mem_selectedOf.mpr ⟨g, hg, hselected, rfl⟩⟩)
  unfold Matches at hmatches
  cases hkind : sel.kind with
  | plane =>
    rw [hkind] at hmatches
    obtain ⟨t, ht, g, hg, rfl⟩ := hface
    apply hselect t ht g hg rfl
    unfold faceSelected
    rw [hkind]
    exact List.all_eq_true.mpr fun i hi => hmatches i (List.mem_toFinset.mpr hi)
  | faceTag =>
    rw [hkind] at hmatches
    obtain ⟨t, ht, g, hg, hnodes, htag⟩ := hmatches
    apply hselect t ht g hg hnodes
    unfold faceSelected
    rw [hkind]
    exact decide_eq_true htag

/-! ## Owners -/

omit [Field K] [LinearOrder K] in
theorem exists_of_isBoundary {mesh : FemMesh K} {face : Finset ℕ} (h : IsBoundary mesh face) :
    ∃ t ∈ mesh.cells.zipIdx, ∃ g ∈ (faceTable t.1.type).zipIdx, faceNodes (t.1, g.1) = face := by
  have hpos : 0 < ownerCount mesh face := by
    rw [h]
    decide
  obtain ⟨cell, hcell, howns⟩ := List.countP_pos_iff.mp hpos
  obtain ⟨lf, hlf, hnodes⟩ := of_decide_eq_true howns
  rw [← List.zipIdx_map_fst 0 mesh.cells, List.mem_map] at hcell
  obtain ⟨t, ht, rfl⟩ := hcell
  rw [← List.zipIdx_map_fst 0 (faceTable t.1.type), List.mem_map] at hlf
  obtain ⟨g, hg, rfl⟩ := hlf
  exact ⟨t, ht, g, hg, hnodes⟩

theorem pairwise_of_countP {α : Type*} {p : α → Bool} {l : List α} (h : l.countP p ≤ 1) :
    l.Pairwise fun a b => ¬(p a = true ∧ p b = true) := by
  induction l with
  | nil => exact List.Pairwise.nil
  | cons a l ih =>
    rw [List.countP_cons] at h
    refine List.pairwise_cons.mpr ⟨fun b hb hboth => ?_, ih (by omega)⟩
    rw [if_pos hboth.1] at h
    have hpos := List.countP_pos_iff.mpr ⟨b, hb, hboth.2⟩
    omega

theorem disjoint_selected {mesh : FemMesh K} {sel : Selector K}
    (h : ∀ x ∈ selectedFaces mesh sel, IsBoundary mesh (faceNodes x)) :
    mesh.cells.zipIdx.Pairwise fun t t' =>
      List.Disjoint ((selectedOf mesh sel t).map faceNodes) ((selectedOf mesh sel t').map faceNodes) := by
  have howns : ∀ {t : Cell × ℕ} {face : Finset ℕ}, face ∈ (selectedOf mesh sel t).map faceNodes →
      decide (∃ lf ∈ faceTable t.1.type, faceNodes (t.1, lf) = face) = true := by
    intro t face hface
    obtain ⟨x, hx, rfl⟩ := List.mem_map.mp hface
    obtain ⟨g, hg, -, rfl⟩ := mem_selectedOf.mp hx
    exact decide_eq_true ⟨g.1, fst_mem_of_mem_zipIdx hg, rfl⟩
  rw [List.pairwise_iff_getElem]
  intro i j hi hj hij face hface hface'
  have hboundary : IsBoundary mesh face := by
    obtain ⟨x, hx, rfl⟩ := List.mem_map.mp hface
    exact h x (List.mem_flatMap.mpr ⟨_, List.getElem_mem hi, hx⟩)
  have hpairwise := pairwise_of_countP hboundary.le
  rw [← List.zipIdx_map_fst 0 mesh.cells, List.pairwise_map] at hpairwise
  exact List.pairwise_iff_getElem.mp hpairwise i j hi hj hij ⟨howns hface, howns hface'⟩

/-! ## Loads -/

section

omit [LinearOrder K]

theorem totalLoad_addAt {n nid : ℕ} (hnid : nid < n) (rhs : ℕ → K) (d d' : Fin 3) (v : K) :
    totalLoad n (addAt rhs (nid * 3 + d') v) d = totalLoad n rhs d + if d' = d then v else 0 := by
  have hterm : ∀ i, addAt rhs (nid * 3 + d') v (i * 3 + d) =
      rhs (i * 3 + d) + if i = nid then (if d' = d then v else 0) else 0 := by
    intro i
    unfold addAt
    by_cases hi : i = nid
    · subst hi
      by_cases hd : d' = d
      · subst hd
        rw [Function.update_self, if_pos rfl, if_pos rfl]
      · have hne : i * 3 + (d : ℕ) ≠ i * 3 + d' := fun heq => hd (Fin.ext (by omega))
        rw [Function.update_of_ne hne, if_pos rfl, if_neg hd, add_zero]
    · have hne : i * 3 + (d : ℕ) ≠ nid * 3 + d' := by omega
      rw [Function.update_of_ne hne, if_neg hi, add_zero]
  unfold totalLoad
  rw [Finset.sum_congr rfl fun i _ => hterm i, Finset.sum_add_distrib, Finset.sum_ite_eq',
    if_pos (Finset.mem_range.mpr hnid)]

theorem totalLoad_addNode {n nid : ℕ} (hnid : nid < n) (rhs : ℕ → K) (d : Fin 3) (w : K) (traction : Vec3 K) :
    totalLoad n ((List.finRange 3).foldl (fun rhs (d' : Fin 3) => addAt rhs (nid * 3 + d') (w * traction d')) rhs) d =
      totalLoad n rhs d + w * traction d := by
  have hthree : List.finRange 3 = [0, 1, 2] := rfl
  rw [hthree, List.foldl_cons, List.foldl_cons, List.foldl_cons, List.foldl_nil, totalLoad_addAt hnid,
    totalLoad_addAt hnid, totalLoad_addAt hnid]
  fin_cases d
  · simp
  · simp
  · simp

theorem totalLoad_addNodes {n : ℕ} {verts : List (ℕ × ℕ)} (hverts : ∀ t ∈ verts, t.1 < n) (rhs : ℕ → K) (d : Fin 3)
    (w : ℕ → K) (traction : Vec3 K) :
    totalLoad n (verts.foldl (fun rhs t => (List.finRange 3).foldl
        (fun rhs (d' : Fin 3) => addAt rhs (t.1 * 3 + d') (w t.2 * traction d')) rhs) rhs) d =
      totalLoad n rhs d + traction d * (verts.map fun t => w t.2).sum := by
  induction verts generalizing rhs with
  | nil => rw [List.map_nil, List.sum_nil, mul_zero, add_zero, List.foldl_nil]
  | cons t verts ih =>
    obtain ⟨ht, hrest⟩ := List.forall_mem_cons.mp hverts
    rw [List.foldl_cons, ih hrest, totalLoad_addNode ht, List.map_cons, List.sum_cons]
    ring

theorem foldl_weights (f : K × K → ℕ → K) (points : List (K × K)) (w : ℕ → K) (i : ℕ) :
    points.foldl (fun w q i => w i + f q i) w i = w i + (points.map fun q => f q i).sum := by
  induction points generalizing w with
  | nil => rw [List.foldl_nil, List.map_nil, List.sum_nil, add_zero]
  | cons q points ih => rw [List.foldl_cons, ih, List.map_cons, List.sum_cons, add_assoc]

variable [CharZero K]

theorem sum_quadShape (xi eta : K) :
    quadShape xi eta 0 + quadShape xi eta 1 + quadShape xi eta 2 + quadShape xi eta 3 = 1 := by
  unfold quadShape kQuarter qs
  simp only [List.getD_cons_zero, List.getD_cons_succ]
  field_simp
  ring

theorem sum_faceWeights (sqrt : K → K) (kGauss2 : K) {count : ℕ} (hcount : count = 3 ∨ count = 4) (fx : ℕ → Vec3 K) :
    ((List.range count).map (faceWeights sqrt kGauss2 count fx)).sum =
      if count = 3 then triArea sqrt fx else ((quadPoints kGauss2).map fun q => quadJacobian sqrt fx q.1 q.2).sum := by
  rcases hcount with rfl | rfl
  · have hthree : List.range 3 = [0, 1, 2] := rfl
    rw [if_pos rfl, hthree]
    unfold faceWeights
    simp only [if_true, List.map_cons, List.map_nil, List.sum_cons, List.sum_nil, Nat.reduceLT]
    ring
  · have hfour : List.range 4 = [0, 1, 2, 3] := rfl
    have hweight : ∀ i, faceWeights sqrt kGauss2 4 fx i =
        ((quadPoints kGauss2).map fun q => quadShape q.1 q.2 i * quadJacobian sqrt fx q.1 q.2).sum := by
      intro i
      unfold faceWeights
      rw [if_neg (by decide), foldl_weights, zero_add]
    have hpoint : ∀ q : K × K, quadJacobian sqrt fx q.1 q.2 =
        quadShape q.1 q.2 0 * quadJacobian sqrt fx q.1 q.2 + (quadShape q.1 q.2 1 * quadJacobian sqrt fx q.1 q.2 +
          (quadShape q.1 q.2 2 * quadJacobian sqrt fx q.1 q.2 + quadShape q.1 q.2 3 * quadJacobian sqrt fx q.1 q.2)) := by
      intro q
      rw [← add_mul, ← add_mul, ← add_mul, ← add_assoc, ← add_assoc, sum_quadShape, one_mul]
    rw [if_neg (by decide), hfour, List.map_congr_left fun q _ => hpoint q, List.sum_map_add, List.sum_map_add,
      List.sum_map_add]
    simp only [List.map_cons, List.map_nil, List.sum_cons, List.sum_nil, hweight, add_zero]

/-- The determinant of a plane quad with these coordinates at a point. -/
def planeDet (p q : ℕ → K) (xi eta : K) : K :=
  let dx := fun f : ℕ → K => ∑ i ∈ Finset.range 4, kQuarter * (qs.getD i (0, 0)).1 * (1 + eta * (qs.getD i (0, 0)).2) * f i
  let de := fun f : ℕ → K => ∑ i ∈ Finset.range 4, kQuarter * (1 + xi * (qs.getD i (0, 0)).1) * (qs.getD i (0, 0)).2 * f i
  dx p * de q - dx q * de p

omit [CharZero K] in
theorem sum_plane {fx : ℕ → Vec3 K} {o e1 e2 : Vec3 K} {p q w : ℕ → K} {s : Finset ℕ}
    (hplane : ∀ i ∈ s, ∀ d, fx i d = o d + p i * e1 d + q i * e2 d) (hw : ∑ i ∈ s, w i = 0) (d : Fin 3) :
    ∑ i ∈ s, w i * fx i d = (∑ i ∈ s, w i * p i) * e1 d + (∑ i ∈ s, w i * q i) * e2 d := by
  have hterm : ∀ i ∈ s, w i * fx i d = w i * o d + (w i * p i * e1 d + w i * q i * e2 d) := fun i hi => by
    rw [hplane i hi]
    ring
  rw [Finset.sum_congr rfl hterm, Finset.sum_add_distrib, Finset.sum_add_distrib, ← Finset.sum_mul, hw, zero_mul, zero_add,
    ← Finset.sum_mul, ← Finset.sum_mul]

omit [CharZero K] in
theorem cross3_plane (e1 e2 : Vec3 K) (a b a' b' : K) :
    cross3 (fun d => a * e1 d + b * e2 d) (fun d => a' * e1 d + b' * e2 d) =
      fun d => (a * b' - b * a') * cross3 e1 e2 d := by
  funext d
  unfold cross3
  fin_cases d <;> simp <;> ring

omit [CharZero K] in
theorem dot3_scaled (c : K) (n : Vec3 K) : dot3 (fun d => c * n d) (fun d => c * n d) = c * c * dot3 n n := by
  unfold dot3
  ring

omit [CharZero K] in
theorem quadJacobian_plane {sqrt : K → K} {fx : ℕ → Vec3 K} {o e1 e2 : Vec3 K} {p q : ℕ → K}
    (hplane : ∀ i < 4, ∀ d, fx i d = o d + p i * e1 d + q i * e2 d) (xi eta : K) :
    quadJacobian sqrt fx xi eta =
      sqrt (planeDet p q xi eta * planeDet p q xi eta * dot3 (cross3 e1 e2) (cross3 e1 e2)) := by
  -- the derivatives of the shape functions add up to zero, in either direction
  have hxi : ∑ i ∈ Finset.range 4, kQuarter * (qs.getD i (0, 0)).1 * (1 + eta * (qs.getD i (0, 0)).2) = (0 : K) := by
    simp only [qs, Finset.sum_range_succ, Finset.sum_range_zero, List.getD_cons_zero, List.getD_cons_succ]
    ring
  have heta : ∑ i ∈ Finset.range 4, kQuarter * (1 + xi * (qs.getD i (0, 0)).1) * (qs.getD i (0, 0)).2 = (0 : K) := by
    simp only [qs, Finset.sum_range_succ, Finset.sum_range_zero, List.getD_cons_zero, List.getD_cons_succ]
    ring
  have hplane' : ∀ i ∈ Finset.range 4, ∀ d, fx i d = o d + p i * e1 d + q i * e2 d := fun i hi =>
    hplane i (Finset.mem_range.mp hi)
  unfold quadJacobian planeDet
  simp only [sum_plane hplane' hxi, sum_plane hplane' heta]
  rw [cross3_plane, dot3_scaled]

omit [CharZero K] in
theorem triangleArea_plane {sqrt : K → K} {fx : ℕ → Vec3 K} {o e1 e2 : Vec3 K} {p q : ℕ → K} {i j k : ℕ}
    (hplane : ∀ l ∈ [i, j, k], ∀ d, fx l d = o d + p l * e1 d + q l * e2 d) :
    triangleArea sqrt (fx i) (fx j) (fx k) =
      sqrt (turn p q i j k * turn p q i j k * dot3 (cross3 e1 e2) (cross3 e1 e2)) / 2 := by
  obtain ⟨hi, hrest⟩ := List.forall_mem_cons.mp hplane
  obtain ⟨hj, hrest⟩ := List.forall_mem_cons.mp hrest
  have hk := List.forall_mem_singleton.mp hrest
  have hside : ∀ {l}, (∀ d, fx l d = o d + p l * e1 d + q l * e2 d) →
      fx l - fx i = fun d => (p l - p i) * e1 d + (q l - q i) * e2 d := fun hl => by
    funext d
    rw [Pi.sub_apply, hl, hi]
    ring
  rw [triangleArea, hside hj, hside hk, cross3_plane, dot3_scaled, kHalf, one_div, inv_mul_eq_div]
  rfl

section Areas

variable [LinearOrder K] [IsStrictOrderedRing K] {sqrt : K → K} (hsqrt : ∀ x, 0 ≤ x → 0 ≤ sqrt x ∧ sqrt x * sqrt x = x)

omit [CharZero K]

theorem planeDet_nonneg {p q : ℕ → K} (h0 : 0 ≤ turn p q 3 0 1) (h1 : 0 ≤ turn p q 0 1 2) (h2 : 0 ≤ turn p q 1 2 3)
    (h3 : 0 ≤ turn p q 2 3 0) {xi eta : K} (hxi : -1 ≤ xi ∧ xi ≤ 1) (heta : -1 ≤ eta ∧ eta ≤ 1) :
    0 ≤ planeDet p q xi eta := by
  have hdet : planeDet p q xi eta = ((1 - xi) * (1 - eta) * turn p q 3 0 1 + (1 + xi) * (1 - eta) * turn p q 0 1 2 +
      (1 + xi) * (1 + eta) * turn p q 1 2 3 + (1 - xi) * (1 + eta) * turn p q 2 3 0) / 16 := by
    unfold planeDet kQuarter qs turn
    simp only [Finset.sum_range_succ, Finset.sum_range_zero, List.getD_cons_zero, List.getD_cons_succ]
    ring
  have hlow : ∀ {x : K}, -1 ≤ x ∧ x ≤ 1 → 0 ≤ 1 - x ∧ 0 ≤ 1 + x := fun hx =>
    ⟨sub_nonneg.mpr hx.2, by linarith only [hx.1]⟩
  obtain ⟨hxi, hxi'⟩ := hlow hxi
  obtain ⟨heta, heta'⟩ := hlow heta
  rw [hdet]
  positivity

include hsqrt

theorem sqrt_scaled {c s : K} (hc : 0 ≤ c) (hs : 0 ≤ s) : sqrt (c * c * s) = c * sqrt s := by
  obtain ⟨hroot, hsquare⟩ := hsqrt (c * c * s) (mul_nonneg (mul_nonneg hc hc) hs)
  obtain ⟨hroot', hsquare'⟩ := hsqrt s hs
  refine (mul_self_inj hroot (mul_nonneg hc hroot')).mp ?_
  rw [hsquare, mul_mul_mul_comm, hsquare']

omit hsqrt [LinearOrder K] [IsStrictOrderedRing K] in
theorem mem_quadPoints {kGauss2 : K} {x : K × K} (h : x ∈ quadPoints kGauss2) :
    (x.1 = -kGauss2 ∨ x.1 = kGauss2) ∧ (x.2 = -kGauss2 ∨ x.2 = kGauss2) := by
  obtain ⟨xi, hxi, hx⟩ := List.mem_flatMap.mp h
  obtain ⟨eta, heta, rfl⟩ := List.mem_map.mp hx
  exact ⟨by simpa using hxi, by simpa using heta⟩

theorem sum_quadJacobian_plane {kGauss2 : K} (hgauss : -1 ≤ kGauss2 ∧ kGauss2 ≤ 1) {fx : ℕ → Vec3 K}
    (hquad : ConvexQuad fx) :
    ((quadPoints kGauss2).map fun x => quadJacobian sqrt fx x.1 x.2).sum = polygonArea sqrt 4 fx := by
  obtain ⟨o, e1, e2, p, q, hplane, h0, h1, h2, h3⟩ := hquad
  have hnormal : 0 ≤ dot3 (cross3 e1 e2) (cross3 e1 e2) :=
    add_nonneg (add_nonneg (mul_self_nonneg _) (mul_self_nonneg _)) (mul_self_nonneg _)
  have hbound : ∀ {y : K}, y = -kGauss2 ∨ y = kGauss2 → -1 ≤ y ∧ y ≤ 1 := by
    rintro y (rfl | rfl)
    · exact ⟨neg_le_neg hgauss.2, neg_le.mp hgauss.1⟩
    · exact hgauss
  have hpoint : ∀ x ∈ quadPoints kGauss2, quadJacobian sqrt fx x.1 x.2 =
      planeDet p q x.1 x.2 * sqrt (dot3 (cross3 e1 e2) (cross3 e1 e2)) := fun x hx => by
    obtain ⟨hxi, heta⟩ := mem_quadPoints hx
    rw [quadJacobian_plane hplane, sqrt_scaled hsqrt (planeDet_nonneg h0 h1 h2 h3 (hbound hxi) (hbound heta)) hnormal]
  have hsum : ((quadPoints kGauss2).map fun x => planeDet p q x.1 x.2).sum = (turn p q 0 1 2 + turn p q 2 3 0) / 2 := by
    unfold quadPoints planeDet kQuarter qs turn
    simp only [List.flatMap_cons, List.flatMap_nil, List.map_cons, List.map_nil, List.cons_append, List.nil_append,
      List.sum_cons, List.sum_nil, Finset.sum_range_succ, Finset.sum_range_zero, List.getD_cons_zero,
      List.getD_cons_succ]
    ring
  have htriangle : ∀ {i j k : ℕ}, (∀ l ∈ [i, j, k], l < 4) → 0 ≤ turn p q i j k →
      triangleArea sqrt (fx i) (fx j) (fx k) = turn p q i j k * sqrt (dot3 (cross3 e1 e2) (cross3 e1 e2)) / 2 :=
    fun hlt hturn => by
      rw [triangleArea_plane fun l hl => hplane l (hlt l hl), sqrt_scaled hsqrt hturn hnormal]
  have hcycle : turn p q 0 2 3 = turn p q 2 3 0 := by
    unfold turn
    ring
  have htwo : List.range (4 - 2) = [0, 1] := rfl
  rw [List.map_congr_left hpoint, List.sum_map_mul_right, hsum, polygonArea, htwo, List.map_cons, List.map_singleton,
    List.sum_cons, List.sum_singleton, htriangle (by decide) h1, htriangle (by decide) (hcycle ▸ h3), hcycle]
  ring

theorem sum_faceWeights_area {kGauss2 : K} (hgauss : -1 ≤ kGauss2 ∧ kGauss2 ≤ 1) {count : ℕ}
    (hcount : count = 3 ∨ count = 4) {fx : ℕ → Vec3 K} (hquad : count = 4 → ConvexQuad fx) :
    ((List.range count).map (faceWeights sqrt kGauss2 count fx)).sum = polygonArea sqrt count fx := by
  rw [sum_faceWeights sqrt kGauss2 hcount]
  rcases hcount with rfl | rfl
  · have hone : List.range (3 - 2) = [0] := rfl
    rw [if_pos rfl, polygonArea, hone, List.map_singleton, List.sum_singleton, triArea, triangleArea]
  · rw [if_neg (by decide), sum_quadJacobian_plane hsqrt hgauss (hquad rfl)]

end Areas

theorem table_counts : ∀ type, ∀ lf ∈ faceTable type, (lf.vertexCount = 3 ∨ lf.vertexCount = 4) ∧
    lf.corners.length = lf.vertexCount ∧ ∀ i ∈ lf.corners, i < type.numNodes := by
  intro type
  cases type <;> decide

omit [CharZero K] in
theorem totalLoad_addFaceLoad (sqrt : K → K) (kGauss2 : K) {mesh : FemMesh K} (sel : Selector K) {cell : Cell}
    (harity : cell.nodes.length = cell.type.numNodes) (hinside : ∀ i ∈ cell.nodes, i < mesh.nodes.length)
    {lf : LocalFace} (hlf : lf ∈ faceTable cell.type) (rhs : ℕ → K) (d : Fin 3) :
    totalLoad mesh.nodes.length (addFaceLoad sqrt kGauss2 mesh sel cell rhs lf) d =
      totalLoad mesh.nodes.length rhs d + sel.traction d *
        ((List.range lf.vertexCount).map
          (faceWeights sqrt kGauss2 lf.vertexCount (faceCorners mesh (cell, lf)))).sum := by
  obtain ⟨-, hlength, hcorners⟩ := table_counts cell.type lf hlf
  have hverts : ∀ t ∈ (faceVerts cell lf).zipIdx, t.1 < mesh.nodes.length := by
    intro t ht
    obtain ⟨i, hi, hnode⟩ := List.mem_map.mp (fst_mem_of_mem_zipIdx ht)
    have hlt : i < cell.nodes.length := by
      rw [harity]
      exact hcorners i hi
    rw [← hnode, List.getD_eq_getElem?_getD, List.getElem?_eq_getElem hlt]
    exact hinside _ (List.getElem_mem hlt)
  have hrange : ∀ w : ℕ → K, ((faceVerts cell lf).zipIdx.map fun t => w t.2).sum =
      ((List.range lf.vertexCount).map w).sum := by
    intro w
    have hsnd : (faceVerts cell lf).zipIdx.map Prod.snd = List.range lf.vertexCount := by
      rw [List.zipIdx_map_snd, faceVerts, List.length_map, hlength, List.range_eq_range']
    rw [← hsnd, List.map_map]
    rfl
  unfold addFaceLoad
  dsimp only
  rw [totalLoad_addNodes hverts, hrange]
  rfl

omit [CharZero K] in
theorem totalLoad_selected (sqrt : K → K) (kGauss2 : K) {mesh : FemMesh K} (sel : Selector K)
    {faces : List (Cell × LocalFace)}
    (h : ∀ t ∈ faces, t.1.nodes.length = t.1.type.numNodes ∧ (∀ i ∈ t.1.nodes, i < mesh.nodes.length) ∧
      t.2 ∈ faceTable t.1.type)
    (harea : ∀ t ∈ faces, ((List.range t.2.vertexCount).map
      (faceWeights sqrt kGauss2 t.2.vertexCount (faceCorners mesh t))).sum = faceArea sqrt mesh t)
    (rhs : ℕ → K) (d : Fin 3) :
    totalLoad mesh.nodes.length (faces.foldl (fun rhs t => addFaceLoad sqrt kGauss2 mesh sel t.1 rhs t.2) rhs) d =
      totalLoad mesh.nodes.length rhs d + sel.traction d * (faces.map (faceArea sqrt mesh)).sum := by
  induction faces generalizing rhs with
  | nil => rw [List.foldl_nil, List.map_nil, List.sum_nil, mul_zero, add_zero]
  | cons t faces ih =>
    obtain ⟨⟨hnodes, hinside, hlf⟩, hrest⟩ := List.forall_mem_cons.mp h
    obtain ⟨ht, hareas⟩ := List.forall_mem_cons.mp harea
    rw [List.foldl_cons, ih hrest hareas, totalLoad_addFaceLoad sqrt kGauss2 sel hnodes hinside hlf, ht, List.map_cons,
      List.sum_cons]
    ring

end

theorem FemMesh.TetHex.selected {mesh : FemMesh K} (h : mesh.TetHex) {sel : Selector K} {x : Cell × LocalFace}
    (hx : x ∈ selectedFaces mesh sel) : x.1.nodes.length = x.1.type.numNodes ∧
      (∀ i ∈ x.1.nodes, i < mesh.nodes.length) ∧ x.2 ∈ faceTable x.1.type := by
  obtain ⟨t, ht, hx⟩ := List.mem_flatMap.mp hx
  obtain ⟨g, hg, -, rfl⟩ := mem_selectedOf.mp hx
  have hcell := fst_mem_of_mem_zipIdx ht
  exact ⟨h.arity _ hcell, h.inside _ hcell, fst_mem_of_mem_zipIdx hg⟩

theorem totalLoad_applyTraction [IsStrictOrderedRing K] {sqrt : K → K}
    (hsqrt : ∀ x, 0 ≤ x → 0 ≤ sqrt x ∧ sqrt x * sqrt x = x) {kGauss2 : K} (hgauss : -1 ≤ kGauss2 ∧ kGauss2 ≤ 1)
    {mesh : FemMesh K} (h : mesh.TetHex) {sel : Selector K} (hflat : FlatFaces mesh sel) (rhs : ℕ → K) (d : Fin 3) :
    totalLoad mesh.nodes.length (applyTraction sqrt kGauss2 mesh sel rhs) d =
      totalLoad mesh.nodes.length rhs d + sel.traction d * ((selectedFaces mesh sel).map (faceArea sqrt mesh)).sum := by
  refine totalLoad_selected sqrt kGauss2 sel (fun x hx => h.selected hx) (fun x hx => ?_) rhs d
  obtain ⟨-, -, hlf⟩ := h.selected hx
  exact sum_faceWeights_area hsqrt hgauss (table_counts _ _ hlf).1 (hflat x hx)

/-- Each selected face belongs to one cell, and no cell has it twice. -/
def OwnFaces (mesh : FemMesh K) (sel : Selector K) : Prop :=
  (∀ x ∈ selectedFaces mesh sel, IsBoundary mesh (faceNodes x)) ∧
    ∀ t ∈ mesh.cells.zipIdx, ((selectedOf mesh sel t).map faceNodes).Nodup

theorem selectsBoundaryOnce_iff {mesh : FemMesh K} {sel : Selector K} :
    SelectsBoundaryOnce mesh sel ↔ OwnFaces mesh sel := by
  constructor
  · rintro ⟨honce, hexactly⟩
    refine ⟨fun x hx => ((hexactly _).mp (List.mem_map_of_mem hx)).1, ?_⟩
    rw [selectedFaces_eq, List.map_flatMap, List.nodup_flatMap] at honce
    exact honce.1
  · rintro ⟨hboundary, hcells⟩
    refine ⟨?_, fun face => ⟨fun hface => ?_, fun hface => ?_⟩⟩
    · rw [selectedFaces_eq, List.map_flatMap, List.nodup_flatMap]
      exact ⟨hcells, disjoint_selected hboundary⟩
    · obtain ⟨x, hx, rfl⟩ := List.mem_map.mp hface
      obtain ⟨t, ht, hmem⟩ := List.mem_flatMap.mp hx
      exact ⟨hboundary x hx, selected_matches ht hmem⟩
    · exact selected_of_matches (exists_of_isBoundary hface.1) hface.2

/-- The faces are selected once exactly when each selected face belongs to one cell, and no cell has it twice. Then the
loads add up to the traction times the area, where the quadrilaterals among them are plane and convex. -/
theorem loadsBoundaryOnce_iff [IsStrictOrderedRing K] {sqrt : K → K}
    (hsqrt : ∀ x, 0 ≤ x → 0 ≤ sqrt x ∧ sqrt x * sqrt x = x) {kGauss2 : K} (hgauss : -1 ≤ kGauss2 ∧ kGauss2 ≤ 1)
    {mesh : FemMesh K} (h : mesh.TetHex) (sel : Selector K) :
    (SelectsBoundaryOnce mesh sel ↔ OwnFaces mesh sel) ∧
      (FlatFaces mesh sel → (LoadsBoundaryOnce sqrt kGauss2 mesh sel ↔ OwnFaces mesh sel)) := by
  refine ⟨selectsBoundaryOnce_iff, fun hflat => ⟨fun hloads => selectsBoundaryOnce_iff.mp hloads.toSelectsBoundaryOnce,
    fun hown => ⟨selectsBoundaryOnce_iff.mpr hown, fun rhs d => ?_⟩⟩⟩
  have hfilter : (selectedFaces mesh sel).filter (fun t => decide (IsBoundary mesh (faceNodes t))) =
      selectedFaces mesh sel := List.filter_eq_self.mpr fun x hx => decide_eq_true (hown.1 x hx)
  rw [totalLoad_applyTraction hsqrt hgauss h hflat, hfilter]

/-! ## An interior face -/

def twoTetCells : List Cell := [⟨.tet4, [0, 1, 2, 3], 0⟩, ⟨.tet4, [0, 3, 2, 4], 0⟩]

/-- Two tetrahedra with the face `x = 0` between them. -/
def twoTets (K : Type*) [Field K] : FemMesh K where
  nodes := [![0, 0, 0], ![1, 0, 0], ![0, 1, 0], ![0, 0, 1], ![-1, 0, 0]]
  cells := twoTetCells
  faceTag _ _ := -1

omit [LinearOrder K] in
theorem twoTets_tetHex : (twoTets K).TetHex where
  types := show ∀ cell ∈ twoTetCells, cell.type = .tet4 ∨ cell.type = .hex8 by decide
  arity := show ∀ cell ∈ twoTetCells, cell.nodes.length = cell.type.numNodes by decide
  inside := show ∀ cell ∈ twoTetCells, ∀ i ∈ cell.nodes, i < 5 by decide

/-- The plane `x = 0`, pulled along `x`. -/
def middlePlane (K : Type*) [Field K] [LinearOrder K] : Selector K := { Selector.initial with traction := ![1, 0, 0] }

/-- The face inside is loaded from both sides. -/
theorem interior_face_loaded : ¬LoadsBoundaryOnce Rat.sqrt (1 / 2) (twoTets ℚ) (middlePlane ℚ) := by
  intro h
  have hmem : ({0, 2, 3} : Finset ℕ) ∈ (selectedFaces (twoTets ℚ) (middlePlane ℚ)).map faceNodes := by decide +kernel
  have hboundary := ((h.exactly _).mp hmem).1
  exact absurd hboundary (by decide +kernel)

theorem loadsBoundaryOnce_iff_twoTets :
    (SelectsBoundaryOnce (twoTets ℝ) (middlePlane ℝ) ↔ OwnFaces (twoTets ℝ) (middlePlane ℝ)) ∧
      (FlatFaces (twoTets ℝ) (middlePlane ℝ) →
        (LoadsBoundaryOnce Real.sqrt (√3)⁻¹ (twoTets ℝ) (middlePlane ℝ) ↔ OwnFaces (twoTets ℝ) (middlePlane ℝ))) :=
  have hroot : 1 ≤ √(3 : ℝ) := Real.one_le_sqrt.mpr (by norm_num)
  have hpos : 0 < (√(3 : ℝ))⁻¹ := inv_pos.mpr (zero_lt_one.trans_le hroot)
  loadsBoundaryOnce_iff (fun _ hx => ⟨Real.sqrt_nonneg _, Real.mul_self_sqrt hx⟩)
    ⟨(neg_nonpos.mpr zero_le_one).trans hpos.le, inv_le_one_of_one_le₀ hroot⟩ twoTets_tetHex _

end Souxmar.Fem
