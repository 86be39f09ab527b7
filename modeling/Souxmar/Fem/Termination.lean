import Souxmar.Fem.Solver

/-!
# Termination of the solver

The rounds of `solve_pcg` are steps of the conjugate gradient recurrence, and its three early exits do no harm: on a
positive definite matrix the loop ends with a small residual after at most as many rounds as there are unknowns.
-/

namespace Souxmar.Fem

open Souxmar.Lib

variable {K : Type*} [Field K] [LinearOrder K] {n : ℕ}

/-! ## Matrices -/

/-- A matrix of `n` rows and columns. The columns are sorted and fit 32 bits. -/
structure Square (A : Csr K) (n : ℕ) where
  rows : List (List ℕ)
  hasRows : Csr.HasRows A rows
  length : rows.length = n
  columns : ∀ row ∈ rows, ∀ c ∈ row, c < n ∧ c < 2 ^ 32

omit [LinearOrder K] in
theorem entry_eq_zero {A : Csr K} {rows : List (List ℕ)} (h : Csr.HasRows A rows) {r c : ℕ} (hr : r < rows.length)
    (hc : c ∉ rows[r]) : A.entry r c = 0 := by
  unfold Csr.entry
  cases hfind : A.find r c with
  | none => rfl
  | some k =>
    obtain ⟨j, hget, -⟩ := (h.find_iff hr).mp hfind
    exact absurd (List.mem_of_getElem? hget) hc

omit [LinearOrder K] in
theorem toArray_of_lt (x : Fin n → K) {i : ℕ} (hi : i < n) : toArray x i = x ⟨i, hi⟩ := dif_pos hi

omit [LinearOrder K] in
/-- The product with the stored entries of a row is the product with the row. -/
theorem multiply_eq_sum {A : Csr K} (h : Square A n) (x : Fin n → K) (r : Fin n) :
    multiply A x r = ∑ c : Fin n, A.entry r c * x c := by
  have hr : (r : ℕ) < h.rows.length := by
    rw [h.length]
    exact r.isLt
  have hnodup : h.rows[(r : ℕ)].Nodup := (h.hasRows.sorted _ (List.getElem_mem hr)).imp Nat.ne_of_lt
  have hsubset : h.rows[(r : ℕ)].toFinset ⊆ Finset.range n := by
    intro c hc
    exact Finset.mem_range.mpr (h.columns _ (List.getElem_mem hr) c (List.mem_toFinset.mp hc)).1
  have hrange : ∑ c : Fin n, A.entry r c * x c = ∑ c ∈ Finset.range n, A.entry r c * toArray x c := by
    rw [Finset.sum_range]
    apply Finset.sum_congr rfl
    intro c _
    rw [toArray_of_lt x c.isLt]
  rw [hrange, multiply, h.hasRows.multiply_eq hr, ← List.sum_toFinset _ hnodup]
  apply Finset.sum_subset hsubset
  intro c _ hc
  rw [entry_eq_zero h.hasRows hr fun hmem => hc (List.mem_toFinset.mpr hmem), zero_mul]

/-- The product as a linear map. -/
def Square.image {A : Csr K} (h : Square A n) : (Fin n → K) →ₗ[K] (Fin n → K) where
  toFun := multiply A
  map_add' x y := by
    funext r
    rw [Pi.add_apply, multiply_eq_sum h, multiply_eq_sum h, multiply_eq_sum h, ← Finset.sum_add_distrib]
    exact Finset.sum_congr rfl fun c _ => mul_add _ _ _
  map_smul' a x := by
    funext r
    rw [Pi.smul_apply, multiply_eq_sum h, multiply_eq_sum h, Finset.smul_sum]
    exact Finset.sum_congr rfl fun c _ => mul_left_comm _ _ _

def Symmetric (A : Csr K) (n : ℕ) : Prop := ∀ r c : Fin n, A.entry r c = A.entry c r

def PositiveSemidefinite (A : Csr K) (n : ℕ) : Prop := ∀ x : Fin n → K, 0 ≤ x ⬝ᵥ multiply A x

def PositiveDefinite (A : Csr K) (n : ℕ) : Prop := ∀ x : Fin n → K, x ≠ 0 → 0 < x ⬝ᵥ multiply A x

theorem PositiveDefinite.semidefinite {A : Csr K} (h : PositiveDefinite A n) : PositiveSemidefinite A n := by
  intro x
  by_cases hx : x = 0
  · rw [hx, zero_dotProduct]
  · exact (h x hx).le

omit [LinearOrder K] in
theorem Square.selfAdjoint {A : Csr K} (h : Square A n) (hsymm : Symmetric A n) :
    ConjugateGradient.SelfAdjoint h.image := by
  intro x y
  change x ⬝ᵥ multiply A y = multiply A x ⬝ᵥ y
  unfold dotProduct
  have hleft : ∀ r, x r * multiply A y r = ∑ c : Fin n, x r * (A.entry r c * y c) := fun r => by
    rw [multiply_eq_sum h, Finset.mul_sum]
  have hright : ∀ c, multiply A x c * y c = ∑ r : Fin n, A.entry c r * x r * y c := fun c => by
    rw [multiply_eq_sum h, Finset.sum_mul]
  rw [Finset.sum_congr rfl fun r _ => hleft r, Finset.sum_congr rfl fun c _ => hright c, Finset.sum_comm]
  refine Finset.sum_congr rfl fun c _ => Finset.sum_congr rfl fun r _ => ?_
  rw [hsymm r c]
  ring

/-! ## The preconditioner -/

/-- The inverse of the diagonal, or 1. -/
def minv (A : Csr K) (r : ℕ) : K :=
  if A.entry r (r % 2 ^ 32) ≠ 0 then 1 / A.entry r (r % 2 ^ 32) else 1

theorem minvAt_eq (A : Csr K) (r : ℕ) : minvAt A r = some (minv A r) := by
  unfold minvAt minv
  dsimp only
  split_ifs with hzero
  · exact if_neg hzero
  · rfl

theorem mapM_some {α β : Type*} {f : α → Option β} {g : α → β} (h : ∀ a, f a = some (g a)) (l : List α) :
    l.mapM f = some (l.map g) := by
  induction l with
  | nil => rfl
  | cons a l ih =>
    rw [List.mapM_cons, h, ih]
    rfl

theorem minvAll_eq (A : Csr K) (n : ℕ) : minvAll A n = some fun i : Fin n => minv A i := by
  unfold minvAll
  rw [mapM_some (minvAt_eq A), Option.map_some]
  congr 1
  funext i
  rw [List.getD_eq_getElem?_getD, List.getElem?_map, List.getElem?_range i.isLt]
  rfl

omit [LinearOrder K] in
theorem dot_single {A : Csr K} (h : Square A n) (r : Fin n) :
    Pi.single r 1 ⬝ᵥ multiply A (Pi.single r 1) = A.entry r r := by
  rw [single_dotProduct, one_mul, multiply_eq_sum h, Finset.sum_eq_single r]
  · rw [Pi.single_eq_same, mul_one]
  · intro c _ hc
    rw [Pi.single_eq_of_ne hc, mul_zero]
  · intro hr
    exact absurd (Finset.mem_univ r) hr

variable [IsStrictOrderedRing K]

theorem minv_pos {A : Csr K} (h : Square A n) (hnonneg : PositiveSemidefinite A n) {r : Fin n}
    (hr : (r : ℕ) < 2 ^ 32) : 0 < minv A r := by
  unfold minv
  rw [Nat.mod_eq_of_lt hr]
  have hdiag : 0 ≤ A.entry r r := by
    rw [← dot_single h r]
    exact hnonneg _
  split_ifs with hzero
  · exact one_div_pos.mpr (lt_of_le_of_ne hdiag (Ne.symm hzero))
  · exact one_pos

theorem PositiveDefinite.row_lt {A : Csr K} (h : Square A n) (hpos : PositiveDefinite A n) (r : Fin n) :
    (r : ℕ) < 2 ^ 32 := by
  have hr : (r : ℕ) < h.rows.length := by
    rw [h.length]
    exact r.isLt
  by_contra hlarge
  have hne : (Pi.single r 1 : Fin n → K) ≠ 0 := fun hzero => one_ne_zero (Pi.single_eq_zero_iff.mp hzero)
  have henergy := hpos _ hne
  rw [dot_single h, entry_eq_zero h.hasRows hr fun hmem => hlarge (h.columns _ (List.getElem_mem hr) _ hmem).2] at henergy
  exact lt_irrefl 0 henergy

/-! ## Rounds -/

section

variable {A : Csr K}

omit [IsStrictOrderedRing K] in
theorem pcgRound_cases (h : Square A n) (d : Fin n → K) (tol2 : K) {s : PcgState K n} (hrz : s.rz ≠ 0) (it : ℕ) :
    (s.p ⬝ᵥ h.image s.p ≤ 0 ∧ pcgRound A d tol2 it s = some (.stop it s)) ∨
    (0 < s.p ⬝ᵥ h.image s.p ∧ ∃ s', s' = ConjugateGradient.advance h.image (ConjugateGradient.jacobi d) s ∧
      s'.r ⬝ᵥ s'.r ≤ tol2 ∧ pcgRound A d tol2 it s = some (.stop (it + 1) ⟨s'.x, s'.r, s.p, s.rz⟩)) ∨
    (0 < s.p ⬝ᵥ h.image s.p ∧ ∃ s', s' = ConjugateGradient.advance h.image (ConjugateGradient.jacobi d) s ∧
      tol2 < s'.r ⬝ᵥ s'.r ∧ pcgRound A d tol2 it s = some (.next s')) := by
  have himage : h.image s.p = multiply A s.p := rfl
  rcases le_or_gt (s.p ⬝ᵥ h.image s.p) 0 with hcurv | hcurv
  · refine Or.inl ⟨hcurv, ?_⟩
    unfold pcgRound
    rw [himage] at hcurv
    simp only [gt_iff_lt, not_lt, hcurv, if_true]
    rfl
  · refine Or.inr ?_
    have hguard : ¬¬0 < s.p ⬝ᵥ multiply A s.p := not_not.mpr hcurv
    have halpha : div? s.rz (s.p ⬝ᵥ multiply A s.p) = some (s.rz / (s.p ⬝ᵥ multiply A s.p)) := if_neg hcurv.ne'
    have hbeta : ∀ a, div? a s.rz = some (a / s.rz) := fun a => if_neg hrz
    rcases le_or_gt ((ConjugateGradient.advance h.image (ConjugateGradient.jacobi d) s).r ⬝ᵥ
      (ConjugateGradient.advance h.image (ConjugateGradient.jacobi d) s).r) tol2 with hsmall | hlarge
    · refine Or.inl ⟨hcurv, _, rfl, hsmall, ?_⟩
      unfold pcgRound
      simp only [gt_iff_lt, hguard, if_false, halpha]
      exact if_pos hsmall
    · refine Or.inr ⟨hcurv, _, rfl, hlarge, ?_⟩
      unfold pcgRound
      simp only [gt_iff_lt, hguard, if_false, halpha]
      refine (if_neg (not_le.mpr hlarge)).trans ?_
      simp only [hrz, if_false, hbeta]
      rfl

end

/-! ## The run -/

/-- The run on a definite matrix. -/
structure Solved (A : Csr K) (b : Fin n → K) (relTol : K) (it : ℕ) (x : Fin n → K) : Prop where
  rounds : it ≤ n
  residual : (b - multiply A x) ⬝ᵥ (b - multiply A x) ≤ relTol * relTol * (b ⬝ᵥ b)

section

variable {A : Csr K} {d b : Fin n → K} {tol2 : K}

omit [IsStrictOrderedRing K] in
theorem ne_zero_of_lt (htol : 0 ≤ tol2) {r : Fin n → K} (h : tol2 < r ⬝ᵥ r) : r ≠ 0 := by
  rintro rfl
  rw [zero_dotProduct] at h
  exact lt_irrefl 0 (htol.trans_lt h)

theorem pcgLoop_solves (h : Square A n) (hsymm : Symmetric A n) (hpos : PositiveDefinite A n) (hd : ∀ i, 0 < d i)
    (htol : 0 ≤ tol2) {left k : ℕ} {s : PcgState K n}
    (hs : ConjugateGradient.Invariant h.image (ConjugateGradient.jacobi d) b k s) (hr : s.r ≠ 0) (hleft : n ≤ k + left) :
    ∃ it s', pcgLoop A d tol2 left k s = some (it, s') ∧ it ≤ n ∧ s'.r = b - multiply A s'.x ∧ s'.r ⬝ᵥ s'.r ≤ tol2 := by
  have hM : ∀ x, x ≠ 0 → 0 < x ⬝ᵥ ConjugateGradient.jacobi d x := fun x => ConjugateGradient.jacobi_pos hd
  induction left generalizing k s with
  | zero =>
    -- as many steps as unknowns have been made, and the residual is zero
    have hk : k = Fintype.card (Fin n) := by
      have hle := hs.le_card
      rw [Fintype.card_fin] at hle ⊢
      omega
    subst hk
    exact absurd hs.residual_eq_zero hr
  | succ left ih =>
    have hrz := (hs.product_pos hM hr).ne'
    have hcurv := hpos s.p (hs.direction_ne_zero hM hr)
    have hadvance := hs.advance (h.selfAdjoint hsymm) (ConjugateGradient.selfAdjoint_jacobi d) hcurv.ne' hrz
    rw [pcgLoop]
    rcases pcgRound_cases h d tol2 hrz k with
      ⟨hneg, -⟩ | ⟨-, s', rfl, hsmall, hround⟩ | ⟨-, s', rfl, hlarge, hround⟩
    · exact absurd hneg (not_le.mpr hcurv)
    · rw [hround]
      have hle := hadvance.le_card
      rw [Fintype.card_fin] at hle
      exact ⟨k + 1, _, rfl, hle, hadvance.residual, hsmall⟩
    · rw [hround]
      exact ih hadvance (ne_zero_of_lt htol hlarge) (by omega)

theorem pcgStates_residual (h : Square A n) (hsymm : Symmetric A n) (hpos : PositiveDefinite A n) (hd : ∀ i, 0 < d i)
    (htol : 0 ≤ tol2) {left k : ℕ} {s : PcgState K n}
    (hs : ConjugateGradient.Invariant h.image (ConjugateGradient.jacobi d) b k s) (hr : s.r ≠ 0) :
    ∀ s' ∈ pcgStates A d tol2 left k s, s'.r = b - multiply A s'.x := by
  have hM : ∀ x, x ≠ 0 → 0 < x ⬝ᵥ ConjugateGradient.jacobi d x := fun x => ConjugateGradient.jacobi_pos hd
  induction left generalizing k s with
  | zero => exact fun s' hs' => absurd hs' List.not_mem_nil
  | succ left ih =>
    have hrz := (hs.product_pos hM hr).ne'
    have hcurv := hpos s.p (hs.direction_ne_zero hM hr)
    have hadvance := hs.advance (h.selfAdjoint hsymm) (ConjugateGradient.selfAdjoint_jacobi d) hcurv.ne' hrz
    rw [pcgStates]
    rcases pcgRound_cases h d tol2 hrz k with
      ⟨hneg, -⟩ | ⟨-, s', rfl, hsmall, hround⟩ | ⟨-, s', rfl, hlarge, hround⟩
    · exact absurd hneg (not_le.mpr hcurv)
    · rw [hround]
      intro s' hs'
      rw [List.mem_singleton.mp hs']
      exact hadvance.residual
    · rw [hround]
      intro s' hs'
      rcases List.mem_cons.mp hs' with rfl | hs'
      · exact hadvance.residual
      · exact ih hadvance (ne_zero_of_lt htol hlarge) s' hs'

end

omit [LinearOrder K] [IsStrictOrderedRing K] in
theorem invariant_pcgStart (h : Square A n) (minv b : Fin n → K) :
    ConjugateGradient.Invariant h.image (ConjugateGradient.jacobi minv) b 0 (pcgStart minv b) :=
  ConjugateGradient.invariant_start h.image (ConjugateGradient.jacobi minv) b

/-- On a definite matrix no division is by zero, the residual stays that of the iterate, and the run ends within as many
rounds as unknowns. -/
theorem solvePcg_solves {A : Csr K} (h : Square A n) (hsymm : Symmetric A n) (hpos : PositiveDefinite A n)
    (b : Fin n → K) {relTol : K} (htol : 0 ≤ relTol) {maxIterations : ℕ} (hmax : n ≤ maxIterations) :
    ∃ it x states, solvePcg A b relTol maxIterations = some (it, x) ∧ Solved A b relTol it x ∧
      solvePcgStates A b relTol maxIterations = some states ∧ ∀ s ∈ states, s.r = b - multiply A s.x := by
  have hd : ∀ i : Fin n, 0 < minv A i := fun i => minv_pos h hpos.semidefinite (hpos.row_lt h i)
  have hstart := invariant_pcgStart h (fun i : Fin n => minv A i) b
  unfold solvePcg solvePcgStates
  rw [minvAll_eq]
  by_cases hb : b = 0
  · have hbb : b ⬝ᵥ b = 0 := by rw [hb, zero_dotProduct]
    refine ⟨0, 0, [], if_pos hbb, ⟨Nat.zero_le n, ?_⟩, if_pos hbb, fun s hs => absurd hs List.not_mem_nil⟩
    have himage : multiply A (0 : Fin n → K) = 0 := map_zero h.image
    rw [himage, sub_zero, hbb, mul_zero]
  · have hbb : ¬b ⬝ᵥ b = 0 := fun hzero => hb (dotProduct_self_eq_zero.mp hzero)
    have htol2 : 0 ≤ relTol * relTol * (b ⬝ᵥ b) :=
      mul_nonneg (mul_nonneg htol htol) (Finset.sum_nonneg fun i _ => mul_self_nonneg _)
    have hleft : n ≤ 0 + maxIterations := by omega
    obtain ⟨it, s, hrun, hit, hresidual, hsmall⟩ := pcgLoop_solves h hsymm hpos hd htol2 hstart hb hleft
    refine ⟨it, s.x, _, ?_, ⟨hit, ?_⟩, if_neg hbb, pcgStates_residual h hsymm hpos hd htol2 hstart hb⟩
    · refine (if_neg hbb).trans ?_
      change (pcgLoop A _ _ maxIterations 0 _).bind _ = _
      rw [hrun]
      rfl
    · rwa [← hresidual]

/-- The matrix with rows `2 1` and `1 2`. -/
def twoRows : Csr ℚ := ⟨[0, 2, 4], [0, 1, 0, 1], [2, 1, 1, 2]⟩

def square_twoRows : Square twoRows 2 where
  rows := [[0, 1], [0, 1]]
  hasRows := ⟨by decide, by decide, by decide, by decide⟩
  length := rfl
  columns := by decide

theorem symmetric_twoRows : Symmetric twoRows 2 := by
  unfold Symmetric
  decide +kernel

theorem positiveDefinite_twoRows : PositiveDefinite twoRows 2 := by
  intro x hx
  have hrow : ∀ r c : Fin 2, twoRows.entry r c = if r = c then 2 else 1 := by decide +kernel
  have henergy : x ⬝ᵥ multiply twoRows x = x 0 * x 0 + x 1 * x 1 + (x 0 + x 1) * (x 0 + x 1) := by
    simp only [dotProduct, multiply_eq_sum square_twoRows, hrow, Fin.sum_univ_two, if_true, Fin.reduceEq, if_false]
    ring
  have hnonneg : 0 ≤ (x 0 + x 1) * (x 0 + x 1) := mul_self_nonneg _
  have hpos : 0 < x 0 * x 0 + x 1 * x 1 := by
    have hself := dotProduct_self_eq_zero.not.mpr hx
    have hsum : x ⬝ᵥ x = x 0 * x 0 + x 1 * x 1 := Fin.sum_univ_two _
    rw [hsum] at hself
    exact lt_of_le_of_ne (add_nonneg (mul_self_nonneg _) (mul_self_nonneg _)) (Ne.symm hself)
  rw [henergy]
  linarith

theorem solvePcg_solves_twoRows :
    ∃ it x states, solvePcg twoRows ![1, 0] 0 2 = some (it, x) ∧ Solved twoRows ![1, 0] 0 it x ∧
      solvePcgStates twoRows ![1, 0] 0 2 = some states ∧ ∀ s ∈ states, s.r = ![1, 0] - multiply twoRows s.x :=
  solvePcg_solves square_twoRows symmetric_twoRows positiveDefinite_twoRows _ le_rfl le_rfl

end Souxmar.Fem
