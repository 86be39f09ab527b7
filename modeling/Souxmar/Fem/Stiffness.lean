import Souxmar.Fem.Assembly
import Souxmar.Fem.ElementForm

/-!
# The assembled stiffness matrix

The pattern has an entry for every pair of nodes of a cell, so that every contribution is found. The matrix is the sum
of the elements' forms, and has what they have: it is symmetric, not negative, and zero on rigid motions.
-/

namespace Souxmar.Fem

open Souxmar.Core Souxmar.Lib

variable {K : Type*} [Field K] [LinearOrder K]

/-! ## Meshes -/

/-- A mesh of Tet4 and Hex8 cells whose elements pass the Jacobian check. -/
structure ElasticMesh.Solvable (mesh : ElasticMesh K) (kGauss2 : K) : Prop where
  nonempty : mesh.cells ≠ []
  types : ∀ cell ∈ mesh.cells, cell.type ∈ femTypes
  arity : ∀ cell ∈ mesh.cells, cell.nodes.length = cell.type.numNodes
  inside : ∀ cell ∈ mesh.cells, ∀ i ∈ cell.nodes, i < mesh.nodes.length
  passes : ∀ cell ∈ mesh.cells, PassesJacobianCheck kGauss2 cell.type (elementCoords mesh cell)
  small : 3 * mesh.nodes.length < 2 ^ 32

/-- `u(x) = t + w × x` at the degrees of freedom of the nodes. -/
def ElasticMesh.rigid (mesh : ElasticMesh K) (t w : Vec3 K) : ℕ → K :=
  fun p => rigidMotion t w (mesh.nodes.getD (p / 3) 0) ⟨p % 3, Nat.mod_lt p (by decide)⟩

/-- Entries mirror each other, the energy of a displacement is not negative, and rigid motions have no forces. -/
structure StiffnessAdmissible (mesh : ElasticMesh K) (A : Csr K) : Prop where
  symmetric : ∀ r < 3 * mesh.nodes.length, ∀ c < 3 * mesh.nodes.length, A.entry r c = A.entry c r
  nonneg : ∀ x : ℕ → K, 0 ≤ ∑ r ∈ Finset.range (3 * mesh.nodes.length), x r * A.multiply x r
  rigid : ∀ t w, ∀ r < 3 * mesh.nodes.length, A.multiply (mesh.rigid t w) r = 0

/-! ## The pattern -/

theorem getD_modify {α : Type*} {l : List (List α)} {i : ℕ} (hi : i < l.length) (f : List α → List α) (k : ℕ) :
    (l.modify i f).getD k [] = if i = k then f (l.getD k []) else l.getD k [] := by
  rw [List.getD_eq_getElem?_getD, List.getD_eq_getElem?_getD]
  split_ifs with hik
  · rw [← hik, List.getElem?_modify_eq, List.getElem?_eq_getElem hi]
    rfl
  · rw [List.getElem?_modify_ne _ _ hik]

/-- The neighbours in these cells. -/
structure AdjacentIn (numNodes : ℕ) (cells : List Cell) (adj : List (List ℕ)) : Prop where
  length : adj.length = numNodes
  mem : ∀ i < numNodes, ∀ j, j ∈ adj.getD i [] ↔ ∃ cell ∈ cells, i ∈ cell.nodes ∧ ∃ m ∈ cell.nodes, j = m % 2 ^ 32

theorem adjacentIn_start (numNodes : ℕ) : AdjacentIn numNodes [] (List.replicate numNodes []) where
  length := List.length_replicate
  mem i hi j := by
    rw [List.getD_eq_getElem?_getD, List.getElem?_replicate, if_pos hi]
    refine iff_of_false List.not_mem_nil ?_
    rintro ⟨cell, hcell, -⟩
    exact List.not_mem_nil hcell

theorem foldlM_addNeighbours {numNodes : ℕ} (row : List ℕ) {nodes : List ℕ} (hnodes : ∀ i ∈ nodes, i < numNodes)
    {adj : List (List ℕ)} (hadj : adj.length = numNodes) :
    ∃ adj', nodes.foldlM (fun adj i => if i ≥ numNodes then Except.error Status.nodeOutOfRange
        else .ok (adj.modify i (· ++ row))) adj = .ok adj' ∧ adj'.length = numNodes ∧
      ∀ k j, j ∈ adj'.getD k [] ↔ j ∈ adj.getD k [] ∨ k ∈ nodes ∧ j ∈ row := by
  induction nodes generalizing adj with
  | nil => exact ⟨adj, rfl, hadj, fun k j => (or_iff_left fun h => List.not_mem_nil h.1).symm⟩
  | cons i nodes ih =>
    obtain ⟨hi, hrest⟩ := List.forall_mem_cons.mp hnodes
    have hmodify : (adj.modify i (· ++ row)).length = numNodes := by rwa [List.length_modify]
    obtain ⟨adj', hrun, hlength, hmem⟩ := ih hrest hmodify
    refine ⟨adj', ?_, hlength, fun k j => ?_⟩
    · rw [List.foldlM_cons, if_neg (not_le.mpr hi)]
      exact hrun
    · rw [hmem, getD_modify (hadj ▸ hi), List.mem_cons]
      split_ifs with hik
      · rw [List.mem_append, hik]
        tauto
      · have hki : k ≠ i := Ne.symm hik
        tauto

theorem AdjacentIn.addCell {numNodes : ℕ} {cells : List Cell} {adj : List (List ℕ)} (h : AdjacentIn numNodes cells adj)
    {cell : Cell} (htype : cell.type ∈ femTypes) (harity : cell.nodes.length = cell.type.numNodes)
    (hinside : ∀ i ∈ cell.nodes, i < numNodes) :
    ∃ adj', addCell numNodes adj cell = .ok adj' ∧ AdjacentIn numNodes (cells ++ [cell]) adj' := by
  obtain ⟨adj', hrun, hlength, hmem⟩ := foldlM_addNeighbours (cell.nodes.map (· % 2 ^ 32)) hinside h.length
  have hguards : ¬(cell.type ≠ .tet4 ∧ cell.type ≠ .hex8) ∧
      ¬(cell.nodes.length = 0 ∨ cell.nodes.length > kMaxElementNodes) := by
    rw [harity]
    simp only [femTypes, List.mem_cons, List.not_mem_nil, or_false] at htype
    rcases htype with htype | htype
    · rw [htype]
      decide
    · rw [htype]
      decide
  refine ⟨adj', ?_, hlength, fun i hi j => ?_⟩
  · unfold Fem.addCell
    rw [if_neg hguards.1, if_neg hguards.2]
    exact hrun
  · rw [hmem, h.mem i hi, List.mem_map]
    constructor
    · rintro (⟨cell', hcell', hin, hj⟩ | ⟨hin, m, hm, rfl⟩)
      · exact ⟨cell', List.mem_append_left _ hcell', hin, hj⟩
      · exact ⟨cell, List.mem_append_right _ List.mem_cons_self, hin, m, hm, rfl⟩
    · rintro ⟨cell', hcell', hin, m, hm, rfl⟩
      rcases List.mem_append.mp hcell' with hcell' | hcell'
      · exact Or.inl ⟨cell', hcell', hin, m, hm, rfl⟩
      · rw [List.mem_singleton.mp hcell'] at hin hm
        exact Or.inr ⟨hin, m, hm, rfl⟩

theorem AdjacentIn.addCells {numNodes : ℕ} {cells : List Cell} {adj : List (List ℕ)}
    (h : AdjacentIn numNodes cells adj) {more : List Cell} (htypes : ∀ cell ∈ more, cell.type ∈ femTypes)
    (harity : ∀ cell ∈ more, cell.nodes.length = cell.type.numNodes)
    (hinside : ∀ cell ∈ more, ∀ i ∈ cell.nodes, i < numNodes) :
    ∃ adj', more.foldlM (Fem.addCell numNodes) adj = .ok adj' ∧ AdjacentIn numNodes (cells ++ more) adj' := by
  induction more generalizing cells adj with
  | nil => exact ⟨adj, rfl, by rwa [List.append_nil]⟩
  | cons cell more ih =>
    obtain ⟨htype, htypes⟩ := List.forall_mem_cons.mp htypes
    obtain ⟨ha, harity⟩ := List.forall_mem_cons.mp harity
    obtain ⟨hi, hinside⟩ := List.forall_mem_cons.mp hinside
    obtain ⟨next, hstep, hnext⟩ := h.addCell htype ha hi
    obtain ⟨adj', hrun, hadj'⟩ := ih hnext htypes harity hinside
    refine ⟨adj', ?_, ?_⟩
    · rw [List.foldlM_cons, hstep]
      exact hrun
    · rwa [List.append_cons]

theorem sorted_sortUnique (a : List ℕ) : (sortUnique a).Pairwise (· < ·) := by
  have hsorted := List.pairwise_insertionSort (· ≤ ·) a
  rw [sortUnique, hsorted.destutter_eq_dedup]
  have hle : ((a.insertionSort (· ≤ ·)).dedup).Pairwise (· ≤ ·) := hsorted.sublist (List.dedup_sublist _)
  exact (hle.and (List.nodup_dedup _)).imp fun h => Nat.lt_of_le_of_ne h.1 h.2

theorem mem_sortUnique {a : List ℕ} {j : ℕ} : j ∈ sortUnique a ↔ j ∈ a := by
  rw [sortUnique, (List.pairwise_insertionSort (· ≤ ·) a).destutter_eq_dedup, List.mem_dedup, List.mem_insertionSort]

theorem getD_map_sortUnique (adj : List (List ℕ)) (k : ℕ) :
    (adj.map sortUnique).getD k [] = sortUnique (adj.getD k []) := by
  rw [List.getD_eq_getElem?_getD, List.getD_eq_getElem?_getD, List.getElem?_map]
  cases adj[k]? with
  | none => rfl
  | some l => rfl

theorem mem_blockRow {a : List ℕ} {c : ℕ} : c ∈ blockRow a ↔ ∃ j ∈ a, ∃ b < 3, c = (3 * j + b) % 2 ^ 32 := by
  unfold blockRow
  rw [List.mem_flatMap]
  apply exists_congr
  intro j
  apply and_congr_right
  intro _
  rw [List.mem_map]
  apply exists_congr
  intro b
  rw [List.mem_range, eq_comm]

theorem length_blockRow (a : List ℕ) : (blockRow a).length = 3 * a.length := by
  unfold blockRow
  rw [List.length_flatMap]
  have hthree : ∀ j ∈ a, ((List.range 3).map fun b => (3 * j + b) % 2 ^ 32).length = 3 := fun j _ => by
    rw [List.length_map, List.length_range]
  rw [List.map_congr_left hthree, List.map_const', List.sum_replicate, smul_eq_mul, mul_comm]

theorem sorted_blockRow {a : List ℕ} (hsorted : a.Pairwise (· < ·)) (hsmall : ∀ j ∈ a, 3 * j + 2 < 2 ^ 32) :
    (blockRow a).Pairwise (· < ·) := by
  unfold blockRow
  induction a with
  | nil => exact List.Pairwise.nil
  | cons j a ih =>
    obtain ⟨hj, hsmall⟩ := List.forall_mem_cons.mp hsmall
    obtain ⟨hlt, hsorted⟩ := List.pairwise_cons.mp hsorted
    rw [List.flatMap_cons, List.pairwise_append]
    refine ⟨?_, ih hsorted hsmall, fun c hc d hd => ?_⟩
    · rw [List.pairwise_map]
      apply List.pairwise_lt_range.imp_of_mem
      intro b b' hb hb' hbb
      rw [List.mem_range] at hb hb'
      rw [Nat.mod_eq_of_lt (by omega), Nat.mod_eq_of_lt (by omega)]
      omega
    · obtain ⟨b, hb, rfl⟩ := List.mem_map.mp hc
      obtain ⟨j', hj', b', hb', rfl⟩ := mem_blockRow.mp hd
      have hjj := hlt j' hj'
      have hbound := hsmall j' hj'
      rw [List.mem_range] at hb
      rw [Nat.mod_eq_of_lt (by omega), Nat.mod_eq_of_lt (by omega)]
      omega

/-- The rows of the pattern, three for each node. -/
def patternRows (adj : List (List ℕ)) : List (List ℕ) := adj.flatMap fun a => List.replicate 3 (blockRow a)

theorem length_patternRows (adj : List (List ℕ)) : (patternRows adj).length = 3 * adj.length := by
  induction adj with
  | nil => rfl
  | cons a adj ih =>
    have hcons : patternRows (a :: adj) = List.replicate 3 (blockRow a) ++ patternRows adj := List.flatMap_cons
    rw [hcons, List.length_append, ih, List.length_replicate, List.length_cons]
    omega

theorem getElem?_patternRows (adj : List (List ℕ)) (i : ℕ) {a : ℕ} (ha : a < 3) :
    (patternRows adj)[3 * i + a]? = adj[i]?.map blockRow := by
  induction adj generalizing i with
  | nil => rfl
  | cons row adj ih =>
    have hcons : patternRows (row :: adj) = List.replicate 3 (blockRow row) ++ patternRows adj := List.flatMap_cons
    rw [hcons]
    cases i with
    | zero =>
      rw [List.getElem?_append_left (by rw [List.length_replicate]; omega), List.getElem?_replicate,
        if_pos (by omega)]
      rfl
    | succ i =>
      rw [List.getElem?_append_right (by rw [List.length_replicate]; omega), List.length_replicate]
      have hindex : 3 * (i + 1) + a - 3 = 3 * i + a := by omega
      rw [hindex, ih]
      rfl

theorem rowStarts_eq (nnz : ℕ) (adj : List (List ℕ)) :
    rowStarts nnz adj = (Ragged.offsets (patternRows adj)).map (nnz + ·) := by
  induction adj generalizing nnz with
  | nil => rfl
  | cons a adj ih =>
    have hcons : patternRows (a :: adj) = blockRow a :: blockRow a :: blockRow a :: patternRows adj := rfl
    rw [hcons, Ragged.offsets_cons, Ragged.offsets_cons, Ragged.offsets_cons, rowStarts, ih, length_blockRow]
    simp only [List.map_cons, List.map_map, Nat.add_zero]
    congr 1
    congr 1
    congr 1
    · omega
    · apply List.map_congr_left
      intro k _
      simp only [Function.comp_apply]
      omega

omit [LinearOrder K] in
theorem pattern_eq (adj : List (List ℕ)) : (pattern adj : Csr K) =
    ⟨Ragged.offsets (patternRows adj), (patternRows adj).flatten,
      List.replicate (patternRows adj).flatten.length 0⟩ := by
  have hcolumns : columns adj = (patternRows adj).flatten := by
    unfold columns patternRows
    rw [← List.flatMap_id, List.flatMap_assoc]
    rfl
  have hstarts : rowStarts 0 adj = Ragged.offsets (patternRows adj) := by
    rw [rowStarts_eq]
    have hzero : ∀ k ∈ Ragged.offsets (patternRows adj), 0 + k = k := fun k _ => Nat.zero_add k
    rw [List.map_congr_left hzero, List.map_id']
  rw [pattern, hcolumns, hstarts]

/-! ## Contributions -/

omit [LinearOrder K] in
theorem sum_flatMap {α β : Type*} (l : List α) (g : α → List β) (f : β → K) :
    ((l.flatMap g).map f).sum = (l.map fun a => ((g a).map f).sum).sum := by
  induction l with
  | nil => rfl
  | cons a l ih => rw [List.flatMap_cons, List.map_append, List.sum_append, ih, List.map_cons, List.sum_cons]

omit [LinearOrder K] in
theorem sum_range_eq (n : ℕ) (f : ℕ → K) : ((List.range n).map f).sum = ∑ i ∈ Finset.range n, f i := rfl

omit [LinearOrder K] in
theorem sum_finRange_eq (n : ℕ) (f : Fin n → K) : ((List.finRange n).map f).sum = ∑ i, f i := rfl

omit [LinearOrder K] in
theorem form_contributions {nodes : List ℕ} (hsmall : ∀ i < nodes.length, 3 * nodes.getD i 0 + 2 < 2 ^ 32)
    (ke : Stiffness K) (y x : ℕ → K) : Csr.form (contributions nodes ke) y x =
      elementForm nodes.length ke (fun i a => y (3 * nodes.getD i 0 + a)) fun j b => x (3 * nodes.getD j 0 + b) := by
  unfold Csr.form contributions elementForm dofs
  rw [sum_flatMap, sum_range_eq, Finset.sum_product]
  apply Finset.sum_congr rfl
  intro i _
  rw [sum_flatMap, sum_finRange_eq]
  apply Finset.sum_congr rfl
  intro a _
  rw [sum_flatMap, sum_range_eq, Finset.sum_product]
  apply Finset.sum_congr rfl
  intro j hj
  have hbound := hsmall j (Finset.mem_range.mp hj)
  rw [List.map_map, sum_finRange_eq]
  apply Finset.sum_congr rfl
  intro b _
  rw [Function.comp_apply, Nat.mod_eq_of_lt (by omega)]

/-- What the contributions of a mesh have. -/
structure FormAdmissible (mesh : ElasticMesh K) (additions : List (ℕ × ℕ × K)) : Prop where
  symm : ∀ y x, Csr.form additions y x = Csr.form additions x y
  nonneg : ∀ x, 0 ≤ Csr.form additions x x
  rigid : ∀ t w y, Csr.form additions y (mesh.rigid t w) = 0

theorem formAdmissible_nil (mesh : ElasticMesh K) : FormAdmissible mesh [] where
  symm _ _ := rfl
  nonneg _ := le_refl 0
  rigid _ _ _ := rfl

theorem FormAdmissible.append [IsStrictOrderedRing K] {mesh : ElasticMesh K} {l l' : List (ℕ × ℕ × K)}
    (h : FormAdmissible mesh l)
    (h' : FormAdmissible mesh l') : FormAdmissible mesh (l ++ l') where
  symm y x := by rw [Csr.form_append, Csr.form_append, h.symm, h'.symm]
  nonneg x := by
    rw [Csr.form_append]
    exact add_nonneg (h.nonneg x) (h'.nonneg x)
  rigid t w y := by rw [Csr.form_append, h.rigid, h'.rigid, add_zero]

omit [LinearOrder K] in
theorem rigid_node (mesh : ElasticMesh K) (t w : Vec3 K) (i : ℕ) (a : Fin 3) :
    mesh.rigid t w (3 * i + a) = rigidMotion t w (mesh.nodes.getD i 0) a := by
  have hnode : (3 * i + a) / 3 = i := by omega
  have hcomponent : (⟨(3 * i + a) % 3, Nat.mod_lt _ (by decide)⟩ : Fin 3) = a := by
    apply Fin.ext
    dsimp only
    omega
  rw [ElasticMesh.rigid, hnode, hcomponent]

theorem formAdmissible_contributions {mesh : ElasticMesh K} {cell : Cell} {ke : Stiffness K}
    (hsmall : ∀ i < cell.nodes.length, 3 * cell.nodes.getD i 0 + 2 < 2 ^ 32)
    (h : ElementAdmissible cell.nodes.length (elementCoords mesh cell) ke) :
    FormAdmissible mesh (contributions cell.nodes ke) where
  symm y x := by rw [form_contributions hsmall, form_contributions hsmall, elementForm_comm h.symm]
  nonneg x := by
    rw [form_contributions hsmall]
    exact h.nonneg _
  rigid t w y := by
    have hmotion : (fun j (b : Fin 3) => mesh.rigid t w (3 * cell.nodes.getD j 0 + b)) =
        fun j => rigidMotion t w (elementCoords mesh cell j) := by
      funext j b
      exact rigid_node mesh t w _ b
    rw [form_contributions hsmall, hmotion]
    exact h.rigid t w _

/-! ## The assembled matrix -/

theorem inside_patternRows {adj : List (List ℕ)} {i j : ℕ} (hi : i < adj.length) (hj : j ∈ adj.getD i []) (a b : Fin 3) :
    ∃ h : 3 * i + a < (patternRows adj).length, (3 * j + b) % 2 ^ 32 ∈ (patternRows adj)[3 * i + a] := by
  have hlength := length_patternRows adj
  have hlt : 3 * i + a < (patternRows adj).length := by omega
  refine ⟨hlt, ?_⟩
  have hrow := getElem?_patternRows adj i a.isLt
  rw [List.getElem?_eq_getElem hlt, List.getElem?_eq_getElem hi, Option.map_some, Option.some.injEq] at hrow
  rw [List.getD_eq_getElem?_getD, List.getElem?_eq_getElem hi] at hj
  rw [hrow]
  exact mem_blockRow.mpr ⟨j, hj, b, b.isLt, rfl⟩

section

variable {mesh : ElasticMesh K} {kGauss2 : K}

theorem ElasticMesh.Solvable.bound (h : mesh.Solvable kGauss2) {cell : Cell} (hcell : cell ∈ mesh.cells) :
    ∀ i < cell.nodes.length, 3 * cell.nodes.getD i 0 + 2 < 2 ^ 32 := by
  intro i hi
  have hin := h.inside cell hcell cell.nodes[i] (List.getElem_mem hi)
  have hsmall := h.small
  rw [List.getD_eq_getElem?_getD, List.getElem?_eq_getElem hi, Option.getD_some]
  omega

theorem ElasticMesh.Solvable.adjacency (h : mesh.Solvable kGauss2) :
    ∃ adj, mesh.cells.foldlM (addCell mesh.nodes.length) (List.replicate mesh.nodes.length []) = .ok adj ∧
      AdjacentIn mesh.nodes.length mesh.cells adj := by
  have hadj := (adjacentIn_start mesh.nodes.length).addCells h.types h.arity h.inside
  rwa [List.nil_append] at hadj

theorem sorted_patternRows (h : mesh.Solvable kGauss2) {adj : List (List ℕ)}
    (hadj : AdjacentIn mesh.nodes.length mesh.cells adj) :
    ∀ row ∈ patternRows (adj.map sortUnique), row.Pairwise (· < ·) := by
  intro row hrow
  obtain ⟨a, ha, hrow⟩ := List.mem_flatMap.mp hrow
  rw [List.eq_of_mem_replicate hrow]
  obtain ⟨l, hl, rfl⟩ := List.mem_map.mp ha
  apply sorted_blockRow (sorted_sortUnique l)
  intro j hj
  obtain ⟨i, hi, rfl⟩ := List.mem_iff_getElem.mp hl
  have hmem := (hadj.mem i (hadj.length ▸ hi) j).mp
  rw [List.getD_eq_getElem?_getD, List.getElem?_eq_getElem hi] at hmem
  obtain ⟨cell, hcell, -, m, hm, rfl⟩ := hmem (mem_sortUnique.mp hj)
  have hin := h.inside cell hcell m hm
  have hsmall := h.small
  rw [Nat.mod_eq_of_lt (by omega)]
  omega

theorem contributions_inside {adj : List (List ℕ)} (hadj : AdjacentIn mesh.nodes.length mesh.cells adj)
    (h : mesh.Solvable kGauss2) {cell : Cell} (hcell : cell ∈ mesh.cells) (ke : Stiffness K) :
    ∀ t ∈ contributions cell.nodes ke, ∃ hlt : t.1 < (patternRows (adj.map sortUnique)).length,
      t.2.1 ∈ (patternRows (adj.map sortUnique))[t.1] := by
  intro t ht
  obtain ⟨i, hi, ht⟩ := List.mem_flatMap.mp ht
  obtain ⟨a, -, ht⟩ := List.mem_flatMap.mp ht
  obtain ⟨j, hj, ht⟩ := List.mem_flatMap.mp ht
  obtain ⟨b, -, rfl⟩ := List.mem_map.mp ht
  rw [List.mem_range] at hi hj
  have hmem : ∀ k, k < cell.nodes.length → cell.nodes.getD k 0 ∈ cell.nodes := by
    intro k hk
    rw [List.getD_eq_getElem?_getD, List.getElem?_eq_getElem hk]
    exact List.getElem_mem hk
  have hrow := h.inside cell hcell _ (hmem i hi)
  have hcol := h.inside cell hcell _ (hmem j hj)
  have hsmall := h.small
  apply inside_patternRows (by rw [List.length_map, hadj.length]; exact hrow)
  rw [getD_map_sortUnique, mem_sortUnique, hadj.mem _ hrow]
  exact ⟨cell, hcell, hmem i hi, _, hmem j hj, (Nat.mod_eq_of_lt (by omega)).symm⟩

variable [IsStrictOrderedRing K] {youngs nu : K}

theorem assembleCell_ok (hE : 0 < youngs) (hlow : -1 < nu) (hhigh : nu < 1 / 2) (h : mesh.Solvable kGauss2)
    {adj : List (List ℕ)} (hadj : AdjacentIn mesh.nodes.length mesh.cells adj) {cell : Cell} (hcell : cell ∈ mesh.cells)
    {A : Csr K} {additions : List (ℕ × ℕ × K)} (hholds : Csr.Holds A (patternRows (adj.map sortUnique)) additions)
    (hform : FormAdmissible mesh additions) :
    ∃ A' additions', assembleCell kGauss2 (makeMaterial youngs nu) mesh A cell = .ok A' ∧
      Csr.Holds A' (patternRows (adj.map sortUnique)) additions' ∧ FormAdmissible mesh additions' := by
  obtain ⟨ke, hke, hadmissible⟩ := elementStiffness_admissible hE hlow hhigh (h.types cell hcell) (h.passes cell hcell)
  rw [← h.arity cell hcell] at hke hadmissible
  obtain ⟨A', hrun, hholds'⟩ := hholds.addAll (contributions_inside hadj h hcell ke)
  refine ⟨A', _, ?_, hholds', hform.append (formAdmissible_contributions (h.bound hcell) hadmissible)⟩
  unfold assembleCell
  rw [hke]
  dsimp only
  rw [hrun]

theorem assembleCells_ok (hE : 0 < youngs) (hlow : -1 < nu) (hhigh : nu < 1 / 2) (h : mesh.Solvable kGauss2)
    {adj : List (List ℕ)} (hadj : AdjacentIn mesh.nodes.length mesh.cells adj) {cells : List Cell}
    (hcells : ∀ cell ∈ cells, cell ∈ mesh.cells) {A : Csr K} {additions : List (ℕ × ℕ × K)}
    (hholds : Csr.Holds A (patternRows (adj.map sortUnique)) additions) (hform : FormAdmissible mesh additions) :
    ∃ A' additions', cells.foldlM (assembleCell kGauss2 (makeMaterial youngs nu) mesh) A = .ok A' ∧
      Csr.Holds A' (patternRows (adj.map sortUnique)) additions' ∧ FormAdmissible mesh additions' := by
  induction cells generalizing A additions with
  | nil => exact ⟨A, additions, rfl, hholds, hform⟩
  | cons cell cells ih =>
    obtain ⟨hcell, hrest⟩ := List.forall_mem_cons.mp hcells
    obtain ⟨next, more, hstep, hnext, hmore⟩ := assembleCell_ok hE hlow hhigh h hadj hcell hholds hform
    obtain ⟨A', additions', hrun, hA', hform'⟩ := ih hrest hnext hmore
    refine ⟨A', additions', ?_, hA', hform'⟩
    rw [List.foldlM_cons, hstep]
    exact hrun

/-- What is assembled is a sum of admissible contributions on the pattern. -/
theorem assembleStiffness_holds (hE : 0 < youngs) (hlow : -1 < nu) (hhigh : nu < 1 / 2) (h : mesh.Solvable kGauss2) :
    ∃ A adj additions, assembleStiffness kGauss2 mesh youngs nu = .ok A ∧
      AdjacentIn mesh.nodes.length mesh.cells adj ∧ Csr.Holds A (patternRows (adj.map sortUnique)) additions ∧
        FormAdmissible mesh additions := by
  obtain ⟨adj, hrun, hadj⟩ := h.adjacency
  have hstart : Csr.Holds (pattern (adj.map sortUnique) : Csr K) (patternRows (adj.map sortUnique)) [] := by
    rw [pattern_eq]
    exact Csr.holds_start (sorted_patternRows h hadj)
  obtain ⟨A, additions, hcells, hholds, hform⟩ :=
    assembleCells_ok hE hlow hhigh h hadj (fun cell hcell => hcell) hstart (formAdmissible_nil mesh)
  refine ⟨A, adj, additions, ?_, hadj, hholds, hform⟩
  obtain ⟨cell, hcell⟩ := List.exists_mem_of_ne_nil _ h.nonempty
  have hguard : ¬(mesh.nodes.length = 0 ∨ mesh.cells.length = 0) := by
    rintro (hnodes | hcells)
    · have hlength := h.arity cell hcell
      have htype := h.types cell hcell
      simp only [femTypes, List.mem_cons, List.not_mem_nil, or_false] at htype
      have hpos : 0 < cell.nodes.length := by
        rcases htype with htype | htype
        · rw [hlength, htype]
          decide
        · rw [hlength, htype]
          decide
      have hlt := h.inside cell hcell _ (List.getElem_mem hpos)
      omega
    · exact h.nonempty (List.length_eq_zero_iff.mp hcells)
  have hrange : nu > -1 ∧ nu < kIncompressible := ⟨hlow, hhigh⟩
  unfold assembleStiffness
  rw [if_neg hguard, if_neg (not_not.mpr hE), if_neg (not_not.mpr hrange), hrun]
  exact hcells

/-- The assembled matrix is admissible. -/
theorem stiffness_admissible (hE : 0 < youngs) (hlow : -1 < nu) (hhigh : nu < 1 / 2) (h : mesh.Solvable kGauss2) :
    ∃ A, assembleStiffness kGauss2 mesh youngs nu = .ok A ∧ StiffnessAdmissible mesh A := by
  obtain ⟨A, adj, additions, hrun, hadj, hholds, hform⟩ := assembleStiffness_holds hE hlow hhigh h
  have hrows : (patternRows (adj.map sortUnique)).length = 3 * mesh.nodes.length := by
    rw [length_patternRows, List.length_map, hadj.length]
  refine ⟨A, hrun, fun r hr c hc => ?_, fun x => ?_, fun t w r hr => ?_⟩
  · rw [hholds.entries r (hrows ▸ hr), hholds.entries c (hrows ▸ hc), hform.symm]
  · rw [← hrows, hholds.quadratic]
    exact hform.nonneg x
  · rw [hholds.multiply_eq (hrows ▸ hr), hform.rigid]

end

/-- A mesh of one tetrahedron: its Jacobian is the same at every point. -/
theorem solvable_tet4 {mesh : ElasticMesh K} (kGauss2 : K) {tag : UInt32} (hcells : mesh.cells = [⟨.tet4, [0, 1, 2, 3], tag⟩])
    (hnodes : 4 ≤ mesh.nodes.length) (hsmall : 3 * mesh.nodes.length < 2 ^ 32)
    (hpositive : PositiveJacobian .tet4 (elementCoords mesh ⟨.tet4, [0, 1, 2, 3], tag⟩) 0) : mesh.Solvable kGauss2 := by
  have hcell : ∀ cell ∈ mesh.cells, cell = ⟨.tet4, [0, 1, 2, 3], tag⟩ := by
    rw [hcells]
    exact fun cell => List.mem_singleton.mp
  refine ⟨?_, fun cell h => ?_, fun cell h => ?_, fun cell h i hi => ?_, fun cell h => ?_, hsmall⟩
  · rw [hcells]
    exact List.cons_ne_nil _ _
  · rw [hcell cell h]
    exact List.mem_cons_self
  · rw [hcell cell h]
    rfl
  · rw [hcell cell h] at hi
    have hall : ∀ i ∈ [0, 1, 2, 3], i < 4 := by decide
    exact (hall i hi).trans_le hnodes
  · rw [hcell cell h]
    intro points hpoints point hpoint
    obtain rfl := Option.some.inj hpoints
    rw [List.mem_singleton.mp hpoint]
    exact hpositive

/-- One tetrahedron. -/
def unitTet : ElasticMesh ℚ where
  nodes := [![0, 0, 0], ![1, 0, 0], ![0, 1, 0], ![0, 0, 1]]
  cells := [⟨.tet4, [0, 1, 2, 3], 0⟩]

theorem unitTet_solvable : unitTet.Solvable (1 / 2) :=
  solvable_tet4 _ rfl (by decide) (by decide) (by
    simp [PositiveJacobian, invert3, jacobian, shapeDerivatives, elementCoords, unitTet, Finset.sum_range_succ])

theorem stiffness_admissible_tet :
    ∃ A, assembleStiffness (1 / 2) unitTet 1 (1 / 4) = .ok A ∧ StiffnessAdmissible unitTet A :=
  stiffness_admissible one_pos (by norm_num) (by norm_num) unitTet_solvable

end Souxmar.Fem
