import Mathlib.Data.Rat.Floor
import Mathlib.Data.Rat.Sqrt
import Souxmar.Fem.Elimination

/-!
# The constrained problem

The eliminated system against the problem it stands for: the prescribed values at the fixed degrees of freedom, and the
rows of the assembled matrix at the free ones.
-/

namespace Souxmar.Fem

open Souxmar.Core Souxmar.Lib

section

variable {K : Type*} [Field K] {n : ℕ}

/-- The prescribed values and the rows of the free degrees of freedom. -/
structure SolvesConstrained (n : ℕ) (P : Problem K) (u : Fin n → K) : Prop where
  fixed : ∀ r : Fin n, P.fixed r = true → u r = P.prescribed r
  free : ∀ r : Fin n, P.fixed r = false → multiply P.A u r = P.rhs r

/-- The elimination keeps the problem. -/
structure Preserves (n : ℕ) (P : Problem K) : Prop where
  symmetric : Symmetric (eliminate n P).A n
  solutions : ∀ u : Fin n → K, multiply (eliminate n P).A u = (eliminate n P).load n ↔ SolvesConstrained n P u

/-! ## Entries -/

/-- The row has a place for its diagonal. -/
def HasDiagonal (A : Csr K) (r : ℕ) : Prop := ∃ k, A.find r r = some k

section

omit [Field K]

theorem Square.row_lt {A : Csr K} (h : Square A n) (r : Fin n) : (r : ℕ) < h.rows.length := by
  rw [h.length]
  exact r.isLt

theorem find_same {A A' : Csr K} (h : SamePlaces A A') (r c : ℕ) : A'.find r c = A.find r c := by
  unfold Csr.find
  rw [h.rowStart, h.col]

theorem place_of_find {A : Csr K} {rows : List (List ℕ)} (h : Csr.HasRows A rows) {r : ℕ} (hr : r < rows.length)
    {c k : ℕ} (hk : A.find r c = some k) : k ∈ rowPlaces A r ∧ A.col.getD k 0 = c := by
  obtain ⟨j, hget, rfl⟩ := (h.find_iff hr).mp hk
  obtain ⟨hj, hc⟩ := List.getElem?_eq_some_iff.mp hget
  have hnext := Csr.start_succ hr
  refine ⟨(mem_rowPlaces h hr).mpr ⟨Nat.le_add_right _ _, by omega⟩, ?_⟩
  rw [h.getD_col hr hj, hc]

def Square.same {A A' : Csr K} (h : Square A n) (hsame : SamePlaces A A') : Square A' n :=
  ⟨h.rows, hsame.hasRows h.hasRows, h.length, h.columns⟩

end

variable {P : Problem K} {sys : LinearSystem K}

theorem entry_free (h : Square P.A n) (hsys : Eliminated n P sys) {r : Fin n} (hfree : P.fixed r = false) (c : ℕ) :
    sys.A.entry r c = if P.fixed c = true then 0 else P.A.entry r c := by
  unfold Csr.entry
  rw [find_same hsys.same]
  cases hk : P.A.find r c with
  | none => exact (ite_self _).symm
  | some k =>
    obtain ⟨hplace, hcol⟩ := place_of_find h.hasRows (h.row_lt r) hk
    dsimp only
    rw [hsys.free r r.isLt hfree k hplace, hcol]

theorem entry_fixed_ne (h : Square P.A n) (hsys : Eliminated n P sys) {r : Fin n} (hfixed : P.fixed r = true) {c : ℕ}
    (hc : c ≠ r) : sys.A.entry r c = 0 := by
  unfold Csr.entry
  rw [find_same hsys.same]
  cases hk : P.A.find r c with
  | none => rfl
  | some k =>
    obtain ⟨hplace, hcol⟩ := place_of_find h.hasRows (h.row_lt r) hk
    dsimp only
    rw [hsys.fixed r r.isLt hfixed k hplace, hcol, if_neg hc]

theorem entry_diagonal (h : Square P.A n) (hsys : Eliminated n P sys) {r : Fin n} (hfixed : P.fixed r = true)
    (hdiag : HasDiagonal P.A r) : sys.A.entry r r = 1 := by
  obtain ⟨k, hk⟩ := hdiag
  obtain ⟨hplace, hcol⟩ := place_of_find h.hasRows (h.row_lt r) hk
  unfold Csr.entry
  rw [find_same hsys.same, hk]
  dsimp only
  rw [hsys.fixed r r.isLt hfixed k hplace, hcol, if_pos rfl]

theorem entry_no_diagonal (hsys : Eliminated n P sys) {r : Fin n} (hdiag : ¬HasDiagonal P.A r) :
    sys.A.entry r r = 0 := by
  unfold Csr.entry
  rw [find_same hsys.same]
  cases hk : P.A.find r r with
  | none => rfl
  | some k => exact absurd ⟨k, hk⟩ hdiag

theorem symmetric_eliminated (h : Square P.A n) (hsymm : Symmetric P.A n) (hsys : Eliminated n P sys) :
    Symmetric sys.A n := by
  intro r c
  by_cases hrc : r = c
  · rw [hrc]
  · have hval : (c : ℕ) ≠ r := fun heq => hrc (Fin.ext heq.symm)
    cases hr : P.fixed r with
    | false =>
      rw [entry_free h hsys hr]
      cases hc : P.fixed c with
      | false =>
        rw [entry_free h hsys hc, hr]
        exact hsymm r c
      | true =>
        rw [entry_fixed_ne h hsys hc (Ne.symm hval)]
        exact if_pos rfl
    | true =>
      rw [entry_fixed_ne h hsys hr hval]
      cases hc : P.fixed c with
      | false => rw [entry_free h hsys hc, if_pos hr]
      | true => rw [entry_fixed_ne h hsys hc (Ne.symm hval)]

/-! ## Rows -/

/-- The fixed part of a vector of prescribed values. -/
def fixedPart (P : Problem K) : Fin n → K := fun c => if P.fixed c = true then P.prescribed c else 0

theorem movedLoad_eq (h : Square P.A n) (r : Fin n) :
    movedLoad P.toSupports P.A (rowPlaces P.A r) = multiply P.A (fixedPart P) r := by
  unfold movedLoad multiply Csr.multiply
  change _ = ((rowPlaces P.A r).map _).sum
  congr 1
  apply List.map_congr_left
  intro k hk
  have hr := h.row_lt r
  obtain ⟨hlo, hhi⟩ := (mem_rowPlaces h.hasRows hr).mp hk
  have hnext := Csr.start_succ hr
  obtain ⟨j, rfl⟩ := Nat.exists_eq_add_of_le hlo
  have hj : j < h.rows[(r : ℕ)].length := by omega
  have hcol := h.hasRows.getD_col hr hj
  have hlt := (h.columns _ (List.getElem_mem hr) _ (List.getElem_mem hj)).1
  rw [hcol, toArray_of_lt _ hlt]
  unfold fixedPart
  dsimp only
  split_ifs
  · rfl
  · rw [mul_zero]

theorem multiply_free (h : Square P.A n) (hsys : Eliminated n P sys) {r : Fin n} (hfree : P.fixed r = false)
    (u : Fin n → K) :
    multiply sys.A u r = ∑ c : Fin n, if P.fixed c = true then 0 else P.A.entry r c * u c := by
  rw [multiply_eq_sum (h.same hsys.same)]
  apply Finset.sum_congr rfl
  intro c _
  rw [entry_free h hsys hfree]
  split_ifs
  · rw [zero_mul]
  · rfl

theorem multiply_fixed (h : Square P.A n) (hsys : Eliminated n P sys) {r : Fin n} (hfixed : P.fixed r = true)
    (u : Fin n → K) : multiply sys.A u r = sys.A.entry r r * u r := by
  rw [multiply_eq_sum (h.same hsys.same)]
  apply Finset.sum_eq_single r
  · intro c _ hc
    rw [entry_fixed_ne h hsys hfixed fun heq => hc (Fin.ext heq), zero_mul]
  · intro hr
    exact absurd (Finset.mem_univ r) hr

theorem free_row_iff (h : Square P.A n) (hsys : Eliminated n P sys) {r : Fin n} (hfree : P.fixed r = false)
    {u : Fin n → K} (hu : ∀ c : Fin n, P.fixed c = true → u c = P.prescribed c) :
    multiply sys.A u r = sys.rhs r ↔ multiply P.A u r = P.rhs r := by
  have hsplit : multiply P.A u r = multiply sys.A u r + multiply P.A (fixedPart P) r := by
    rw [multiply_free h hsys hfree, multiply_eq_sum h, multiply_eq_sum h, ← Finset.sum_add_distrib]
    apply Finset.sum_congr rfl
    intro c _
    unfold fixedPart
    split_ifs with hc
    · rw [zero_add, hu c hc]
    · rw [mul_zero, add_zero]
  rw [hsys.freeLoad r r.isLt hfree, movedLoad_eq h, hsplit, eq_sub_iff_add_eq]

/-! ## Solutions -/

/-- The vector with the prescribed values. -/
def withPrescribed (P : Problem K) (u : Fin n → K) : Fin n → K := fun c =>
  if P.fixed c = true then P.prescribed c else u c

theorem multiply_free_congr (h : Square P.A n) (hsys : Eliminated n P sys) {r : Fin n} (hfree : P.fixed r = false)
    {u v : Fin n → K} (huv : ∀ c : Fin n, P.fixed c = false → u c = v c) :
    multiply sys.A u r = multiply sys.A v r := by
  rw [multiply_free h hsys hfree, multiply_free h hsys hfree]
  apply Finset.sum_congr rfl
  intro c _
  split_ifs with hc
  · rfl
  · rw [huv c (Bool.eq_false_of_not_eq_true hc)]

theorem solvesConstrained_withPrescribed (h : Square P.A n) (hsys : Eliminated n P sys) {u : Fin n → K}
    (hu : multiply sys.A u = sys.load n) : SolvesConstrained n P (withPrescribed P u) := by
  have hfixed : ∀ c : Fin n, P.fixed c = true → withPrescribed P u c = P.prescribed c := fun c hc => if_pos hc
  refine ⟨hfixed, fun r hfree => ?_⟩
  rw [← free_row_iff h hsys hfree hfixed, multiply_free_congr h hsys hfree (v := u)]
  · exact congrFun hu r
  · intro c hc
    exact if_neg (by rw [hc]; decide)

theorem solutions_of_diagonals (h : Square P.A n) (hsys : Eliminated n P sys)
    (hdiag : ∀ r : Fin n, P.fixed r = true → HasDiagonal P.A r) (u : Fin n → K) :
    multiply sys.A u = sys.load n ↔ SolvesConstrained n P u := by
  have hrow : ∀ r : Fin n, P.fixed r = true → (multiply sys.A u r = sys.load n r ↔ u r = P.prescribed r) := by
    intro r hfixed
    have hload : sys.load n r = P.prescribed r := hsys.fixedLoad r r.isLt hfixed
    rw [multiply_fixed h hsys hfixed, entry_diagonal h hsys hfixed (hdiag r hfixed), one_mul, hload]
  constructor
  · intro hu
    have hfixed : ∀ r : Fin n, P.fixed r = true → u r = P.prescribed r :=
      fun r hr => (hrow r hr).mp (congrFun hu r)
    exact ⟨hfixed, fun r hfree => (free_row_iff h hsys hfree hfixed).mp (congrFun hu r)⟩
  · rintro ⟨hfixed, hfree⟩
    funext r
    cases hr : P.fixed r with
    | true => exact (hrow r hr).mpr (hfixed r hr)
    | false => exact (free_row_iff h hsys hr hfixed).mpr (hfree r hr)

theorem solution_not_unique (h : Square P.A n) (hsys : Eliminated n P sys) {r : Fin n} (hfixed : P.fixed r = true)
    (hdiag : ¬HasDiagonal P.A r) {u : Fin n → K} (hu : multiply sys.A u = sys.load n) (a : K) :
    multiply sys.A (Function.update u r a) = sys.load n := by
  rw [← hu]
  funext r'
  cases hr' : P.fixed r' with
  | false =>
    apply multiply_free_congr h hsys hr'
    intro c hc
    apply Function.update_of_ne
    rintro rfl
    rw [hfixed] at hc
    cases hc
  | true =>
    rw [multiply_fixed h hsys hr', multiply_fixed h hsys hr']
    by_cases heq : r' = r
    · rw [heq, entry_no_diagonal hsys hdiag, zero_mul, zero_mul]
    · rw [Function.update_of_ne heq]

theorem preserves_iff (h : Square P.A n) (hsymm : Symmetric P.A n) :
    Preserves n P ↔ (∀ r : Fin n, P.fixed r = true → HasDiagonal P.A r) ∨ ¬∃ u, SolvesConstrained n P u := by
  have hsys : Eliminated n P (eliminate n P) := by
    have heliminated := eliminated_eliminate h.hasRows
    rwa [h.length] at heliminated
  constructor
  · rintro ⟨-, hsolutions⟩
    by_contra hneither
    rw [not_or, not_not] at hneither
    obtain ⟨hmissing, u, hu⟩ := hneither
    push Not at hmissing
    obtain ⟨r, hfixed, hdiag⟩ := hmissing
    -- the unknown of the lost row is free to move
    have hmoved := solution_not_unique h hsys hfixed hdiag ((hsolutions u).mpr hu) (u r + 1)
    have hvalue := ((hsolutions _).mp hmoved).fixed r hfixed
    rw [Function.update_self, hu.fixed r hfixed] at hvalue
    exact one_ne_zero (left_eq_add.mp hvalue.symm)
  · intro hcases
    refine ⟨symmetric_eliminated h hsymm hsys, fun u => ?_⟩
    rcases hcases with hdiag | hnone
    · exact solutions_of_diagonals h hsys hdiag u
    · refine iff_of_false (fun hu => hnone ⟨_, solvesConstrained_withPrescribed h hsys hu⟩) fun hu => hnone ⟨u, hu⟩

end

/-! ## The assembled problem -/

section

variable {K : Type*} [Field K] [LinearOrder K] {mesh : ElasticMesh K} {A : Csr K}

theorem Assembled.length_rows (h : Assembled mesh A) :
    (patternRows (h.adj.map sortUnique)).length = 3 * mesh.nodes.length := by
  rw [length_patternRows, List.length_map, h.adjacent.length]

theorem Assembled.mem_row (h : Assembled mesh A) {r : ℕ} (hr : r < (patternRows (h.adj.map sortUnique)).length) {c : ℕ} :
    c ∈ (patternRows (h.adj.map sortUnique))[r] ↔
      ∃ cell ∈ mesh.cells, r / 3 ∈ cell.nodes ∧ ∃ m ∈ cell.nodes, ∃ b < 3, c = (3 * (m % 2 ^ 32) + b) % 2 ^ 32 := by
  have hlength := h.length_rows
  have hi : r / 3 < mesh.nodes.length := by omega
  have hsplit : 3 * (r / 3) + r % 3 = r := Nat.div_add_mod r 3
  have hrow := getElem?_patternRows (h.adj.map sortUnique) (r / 3) (Nat.mod_lt r (by decide))
  have hlt : r / 3 < (h.adj.map sortUnique).length := by rwa [List.length_map, h.adjacent.length]
  rw [hsplit, List.getElem?_eq_getElem hr, List.getElem?_eq_getElem hlt, Option.map_some, Option.some.injEq] at hrow
  have hnode : (h.adj.map sortUnique)[r / 3] = sortUnique (h.adj.getD (r / 3) []) := by
    rw [← getD_map_sortUnique, List.getD_eq_getElem?_getD, List.getElem?_eq_getElem hlt]
    rfl
  rw [hrow, hnode, mem_blockRow]
  constructor
  · rintro ⟨j, hj, b, hb, rfl⟩
    obtain ⟨cell, hcell, hin, m, hm, rfl⟩ := (h.adjacent.mem _ hi j).mp (mem_sortUnique.mp hj)
    exact ⟨cell, hcell, hin, m, hm, b, hb, rfl⟩
  · rintro ⟨cell, hcell, hin, m, hm, b, hb, rfl⟩
    exact ⟨m % 2 ^ 32, mem_sortUnique.mpr ((h.adjacent.mem _ hi _).mpr ⟨cell, hcell, hin, m, hm, rfl⟩), b, hb, rfl⟩

/-- The assembled matrix has a column for each row. -/
def Assembled.square (h : Assembled mesh A) (hinside : ∀ cell ∈ mesh.cells, ∀ i ∈ cell.nodes, i < mesh.nodes.length) :
    Square A (3 * mesh.nodes.length) where
  rows := patternRows (h.adj.map sortUnique)
  hasRows := h.holds.pattern
  length := h.length_rows
  columns := by
    intro row hrow c hc
    obtain ⟨r, hr, rfl⟩ := List.mem_iff_getElem.mp hrow
    obtain ⟨cell, hcell, -, m, hm, b, hb, rfl⟩ := (h.mem_row hr).mp hc
    have hlt := hinside cell hcell m hm
    have hsmall := h.small
    rw [Nat.mod_eq_of_lt (show m < 2 ^ 32 by omega), Nat.mod_eq_of_lt (by omega)]
    omega

theorem Assembled.symmetric (h : Assembled mesh A) : Symmetric A (3 * mesh.nodes.length) := by
  intro r c
  have hlength := h.length_rows
  rw [h.holds.entries r (by omega), h.holds.entries c (by omega), h.form.symm]

theorem Assembled.hasDiagonal_iff (h : Assembled mesh A)
    (hinside : ∀ cell ∈ mesh.cells, ∀ i ∈ cell.nodes, i < mesh.nodes.length) {r : ℕ} (hr : r < 3 * mesh.nodes.length) :
    HasDiagonal A r ↔ ∃ cell ∈ mesh.cells, r / 3 ∈ cell.nodes := by
  have hrow : r < (patternRows (h.adj.map sortUnique)).length := by rwa [h.length_rows]
  have hsmall := h.small
  have hmem : HasDiagonal A r ↔ r ∈ (patternRows (h.adj.map sortUnique))[r] := by
    constructor
    · rintro ⟨k, hk⟩
      obtain ⟨j, hget, -⟩ := (h.holds.pattern.find_iff hrow).mp hk
      exact List.mem_of_getElem? hget
    · exact h.holds.pattern.find_of_mem hrow
  rw [hmem, h.mem_row hrow]
  constructor
  · rintro ⟨cell, hcell, hin, -⟩
    exact ⟨cell, hcell, hin⟩
  · rintro ⟨cell, hcell, hin⟩
    have hlt := hinside cell hcell _ hin
    refine ⟨cell, hcell, hin, r / 3, hin, r % 3, Nat.mod_lt r (by decide), ?_⟩
    rw [Nat.mod_eq_of_lt (show r / 3 < 2 ^ 32 by omega), Nat.div_add_mod, Nat.mod_eq_of_lt (by omega)]

variable [FloorRing K] [IsStrictOrderedRing K]

/-- The elimination keeps the problem exactly when each fixed degree of freedom is one of a node of some cell, or the
problem has no solution. -/
theorem elimination_iff {num : Numerics K} {mesh : FemMesh K} {inputs : Option (Value K)} {P : Problem K}
    (hsmall : 3 * mesh.nodes.length < 2 ^ 32) (h : problem num mesh inputs = .ok P) :
    Preserves (3 * mesh.nodes.length) P ↔
      (∀ r < 3 * mesh.nodes.length, P.fixed r = true → ∃ cell ∈ mesh.cells, r / 3 ∈ cell.nodes) ∨
        ¬∃ u, SolvesConstrained (3 * mesh.nodes.length) P u := by
  obtain ⟨hA⟩ := exists_assembled hsmall h
  obtain ⟨youngs, nu, hassembled, -⟩ := problem_ok h
  obtain ⟨-, -, -, hsolvable⟩ := solvable_of_assembled hsmall hassembled
  rw [preserves_iff (hA.square hsolvable.inside) hA.symmetric]
  refine or_congr_left ⟨fun hdiag r hr hfixed => ?_, fun hused r hfixed => ?_⟩
  · exact (hA.hasDiagonal_iff hsolvable.inside hr).mp (hdiag ⟨r, hr⟩ hfixed)
  · exact (hA.hasDiagonal_iff hsolvable.inside r.isLt).mpr (hused r r.isLt hfixed)

end

/-! ## A node without cells -/

/-- A tetrahedron and a node that it does not use. -/
def looseNode : FemMesh ℚ where
  nodes := [![0, 0, 0], ![1, 0, 0], ![0, 2, 0], ![0, 0, 2], ![0, 1, 1]]
  cells := [⟨.tet4, [0, 1, 2, 3], 0⟩]
  faceTag _ _ := -1

/-- The nodes at the least `x` are fixed. -/
def fixLeast : Option (Value ℚ) :=
  some (.map [("fix", .list [.map [("at", .string "min"), ("plane", .string "x"), ("tol", .number (1 / 10))]])])

def rationalNumerics : Numerics ℚ := ⟨Rat.sqrt, 1 / 2⟩

theorem looseNode_solvable : looseNode.toElasticMesh.Solvable (1 / 2) :=
  solvable_tet4 _ rfl (by decide) (by decide) (by
    simp [PositiveJacobian, invert3, jacobian, shapeDerivatives, elementCoords, looseNode, Finset.sum_range_succ])

/-- The supports of the example. -/
def looseSupports : Supports ℚ :=
  applyFix looseNode { Selector.initial with tol := 1 / 10 } ⟨fun _ => false, fun _ => 0⟩

theorem looseNode_assembles : ∃ A, assembleStiffness (1 / 2) looseNode.toElasticMesh 210000000000 (3 / 10) = .ok A := by
  have hE : (0 : ℚ) < 210000000000 := by norm_num
  have hlow : (-1 : ℚ) < 3 / 10 := by norm_num
  have hhigh : (3 / 10 : ℚ) < 1 / 2 := by norm_num
  obtain ⟨A, adj, additions, hA, -⟩ := assembleStiffness_holds hE hlow hhigh looseNode_solvable
  exact ⟨A, hA⟩

theorem looseNode_supports : supports rationalNumerics looseNode fixLeast = .ok looseSupports := rfl

theorem looseNode_problem : ∃ A, problem rationalNumerics looseNode fixLeast = .ok ⟨looseSupports, A, fun _ => 0⟩ := by
  obtain ⟨A, hA⟩ := looseNode_assembles
  exact ⟨A, problem_of_stages hA rfl looseNode_supports ⟨12, by decide, by decide +kernel⟩⟩

/-- At the unused node the eliminated system leaves open what is prescribed. -/
theorem elimination_loses_value :
    ∃ P, problem rationalNumerics looseNode fixLeast = .ok P ∧ ¬Preserves (3 * looseNode.nodes.length) P := by
  obtain ⟨A, hP⟩ := looseNode_problem
  have hsmall : 3 * looseNode.nodes.length < 2 ^ 32 := by decide
  obtain ⟨hA⟩ := exists_assembled hsmall hP
  refine ⟨_, hP, fun hpreserves => ?_⟩
  rcases (preserves_iff (hA.square looseNode_solvable.inside) hA.symmetric).mp hpreserves with hdiag | hnone
  · have hfixed : looseSupports.fixed 12 = true := by decide +kernel
    have hlt : 12 < 3 * looseNode.nodes.length := by decide
    have hused := (hA.hasDiagonal_iff looseNode_solvable.inside hlt).mp (hdiag ⟨12, hlt⟩ hfixed)
    exact absurd hused (by decide)
  · have hprescribed : ∀ r : Fin (3 * looseNode.nodes.length), looseSupports.prescribed r = 0 := by decide +kernel
    refine hnone ⟨0, fun r _ => (hprescribed r).symm, fun r _ => ?_⟩
    exact congrFun (map_zero (hA.square looseNode_solvable.inside).image) r

theorem elimination_iff_looseNode :
    ∃ P, problem rationalNumerics looseNode fixLeast = .ok P ∧
      (Preserves (3 * looseNode.nodes.length) P ↔
        (∀ r < 3 * looseNode.nodes.length, P.fixed r = true → ∃ cell ∈ looseNode.cells, r / 3 ∈ cell.nodes) ∨
          ¬∃ u, SolvesConstrained (3 * looseNode.nodes.length) P u) := by
  obtain ⟨A, hP⟩ := looseNode_problem
  exact ⟨_, hP, elimination_iff (by decide) hP⟩

end Souxmar.Fem
