import Souxmar.Fem.Constrained

/-!
# Convergence of the solve

`fem_solve` does not look at how its solver ended. The displacements meet the tolerance exactly when one of the Krylov
spaces within the budget has a Galerkin solution that does.
-/

namespace Souxmar.Fem

open Souxmar.Core Souxmar.Lib

section

variable {K : Type*} [Field K] [LinearOrder K] {n : ℕ}

/-! ## Galerkin solutions -/

/-- The residual of the displacements is within the tolerance. -/
def Converged (sys : LinearSystem K) (n : ℕ) (tol : K) (u : Fin n → K) : Prop :=
  (sys.load n - multiply sys.A u) ⬝ᵥ (sys.load n - multiply sys.A u) ≤ tol * tol * (sys.load n ⬝ᵥ sys.load n)

/-- The entries of a matrix as a linear map. -/
def entries (A : Csr K) (n : ℕ) : (Fin n → K) →ₗ[K] (Fin n → K) :=
  Matrix.mulVecLin fun r c : Fin n => A.entry r c

/-- The Jacobi preconditioner. -/
def preconditioner (A : Csr K) (n : ℕ) : (Fin n → K) →ₗ[K] (Fin n → K) :=
  ConjugateGradient.jacobi fun i : Fin n => minv A i

/-- Within the budget there is a Krylov space whose Galerkin solution meets the tolerance. Without load nothing is to do,
and a tolerance of 1 is met in front of the first round. -/
inductive ToleranceReachable (sys : LinearSystem K) (n : ℕ) (tol : K) (maxIterations : ℕ) : Prop
  | noLoad (h : sys.load n = 0)
  | galerkin (k : ℕ) (h : 1 ≤ k ∧ k ≤ maxIterations) (x : Fin n → K)
      (hx : ConjugateGradient.Galerkin (entries sys.A n) (sys.load n)
        (ConjugateGradient.krylov (entries sys.A n) (preconditioner sys.A n) (sys.load n) k) x)
      (hsmall : Converged sys n tol x)
  | atOnce (hsmall : Converged sys n tol 0)
      (hcurv : preconditioner sys.A n (sys.load n) ⬝ᵥ entries sys.A n (preconditioner sys.A n (sys.load n)) ≤ 0)

omit [LinearOrder K] in
theorem image_eq_entries {A : Csr K} (h : Square A n) : h.image = entries A n := by
  apply LinearMap.ext
  intro x
  funext r
  exact multiply_eq_sum h x r

variable [IsStrictOrderedRing K] {A : Csr K} {d b : Fin n → K} {tol2 : K}

theorem pcgLoop_iff (h : Square A n) (hsymm : Symmetric A n) (hnonneg : PositiveSemidefinite A n) (hd : ∀ i, 0 < d i)
    (htol : 0 ≤ tol2) (left : ℕ) {k : ℕ} {s : PcgState K n}
    (hs : ConjugateGradient.Invariant h.image (ConjugateGradient.jacobi d) b k s) (hr : s.r ≠ 0) :
    ∃ it s', pcgLoop A d tol2 left k s = some (it, s') ∧ s'.r = b - multiply A s'.x ∧
      (s'.r ⬝ᵥ s'.r ≤ tol2 ↔
        (∃ j, k < j ∧ j ≤ k + left ∧ ∃ x, ConjugateGradient.Galerkin h.image b
          (ConjugateGradient.krylov h.image (ConjugateGradient.jacobi d) b j) x ∧
            (b - multiply A x) ⬝ᵥ (b - multiply A x) ≤ tol2) ∨
        s.r ⬝ᵥ s.r ≤ tol2 ∧ (left = 0 ∨ s.p ⬝ᵥ h.image s.p ≤ 0)) := by
  have hA := h.selfAdjoint hsymm
  have hM : ∀ x, x ≠ 0 → 0 < x ⬝ᵥ ConjugateGradient.jacobi d x := fun x => ConjugateGradient.jacobi_pos hd
  induction left generalizing k s with
  | zero =>
    refine ⟨k, s, rfl, hs.residual, fun hsmall => Or.inr ⟨hsmall, Or.inl rfl⟩, ?_⟩
    rintro (⟨j, hkj, hjk, -⟩ | ⟨hsmall, -⟩)
    · omega
    · exact hsmall
  | succ left ih =>
    have hrz := (hs.product_pos hM hr).ne'
    rw [pcgLoop]
    rcases pcgRound_cases h d tol2 hrz k with
      ⟨hcurv, hround⟩ | ⟨hcurv, s', rfl, hsmall, hround⟩ | ⟨hcurv, s', rfl, hlarge, hround⟩
    · -- without curvature no later space has a solution
      rw [hround]
      have himage := ConjugateGradient.image_eq_zero hA hnonneg hcurv
      refine ⟨k, s, rfl, hs.residual, fun hsmall => Or.inr ⟨hsmall, Or.inr hcurv⟩, ?_⟩
      rintro (⟨j, hkj, -, x, hx, -⟩ | ⟨hsmall, -⟩)
      · exact absurd hx (hs.not_galerkin hA himage hrz hkj x)
      · exact hsmall
    · rw [hround]
      have hadvance := hs.advance hA (ConjugateGradient.selfAdjoint_jacobi d) hcurv.ne' hrz
      refine ⟨k + 1, _, rfl, hadvance.residual, iff_of_true hsmall (Or.inl ?_)⟩
      refine ⟨k + 1, Nat.lt_succ_self k, by omega, _, hadvance.galerkin, ?_⟩
      have hresidual := hadvance.residual
      rwa [hresidual] at hsmall
    · rw [hround]
      have hadvance := hs.advance hA (ConjugateGradient.selfAdjoint_jacobi d) hcurv.ne' hrz
      obtain ⟨it, s', hrun, hresidual, hiff⟩ := ih hadvance (ne_zero_of_lt htol hlarge)
      refine ⟨it, s', hrun, hresidual, hiff.trans ?_⟩
      constructor
      · rintro (⟨j, hkj, hjk, hx⟩ | ⟨hsmall, -⟩)
        · exact Or.inl ⟨j, by omega, by omega, hx⟩
        · exact absurd hsmall (not_le.mpr hlarge)
      · rintro (⟨j, hkj, hjk, x, hx, hsmall⟩ | ⟨-, hleft | hneg⟩)
        · rcases Nat.eq_or_lt_of_le (Nat.add_one_le_of_lt hkj) with rfl | hlt
          · -- the next iterate is the only one of its space
            have himage : multiply A x = multiply A _ := hx.image_eq hA hnonneg hadvance.galerkin
            rw [himage] at hsmall
            have hnext := hadvance.residual
            rw [hnext] at hlarge
            exact absurd hsmall (not_le.mpr hlarge)
          · exact Or.inl ⟨j, hlt, by omega, x, hx, hsmall⟩
        · cases hleft
        · exact absurd hneg (not_le.mpr hcurv)

theorem solvePcg_iff {sys : LinearSystem K} (h : Square sys.A n) (hsymm : Symmetric sys.A n)
    (hnonneg : PositiveSemidefinite sys.A n) (hn : n < 2 ^ 32) (tol : K) {maxIterations : ℕ} (hmax : 0 < maxIterations) :
    ∃ it u, solvePcg sys.A (sys.load n) tol maxIterations = some (it, u) ∧
      (Converged sys n tol u ↔ ToleranceReachable sys n tol maxIterations) := by
  have hd : ∀ i : Fin n, 0 < minv sys.A i := fun i => minv_pos h hnonneg (i.isLt.trans hn)
  have hstart := invariant_pcgStart h (fun i : Fin n => minv sys.A i) (sys.load n)
  have hentries := image_eq_entries h
  have hzero : multiply sys.A (0 : Fin n → K) = 0 := map_zero h.image
  unfold solvePcg
  rw [minvAll_eq]
  by_cases hb : sys.load n = 0
  · have hbb : sys.load n ⬝ᵥ sys.load n = 0 := by rw [hb, zero_dotProduct]
    refine ⟨0, 0, if_pos hbb, iff_of_true ?_ (.noLoad hb)⟩
    unfold Converged
    rw [hzero, sub_zero, hbb, mul_zero]
  · have hbb : ¬sys.load n ⬝ᵥ sys.load n = 0 := fun hzero => hb (dotProduct_self_eq_zero.mp hzero)
    have htol2 : 0 ≤ tol * tol * (sys.load n ⬝ᵥ sys.load n) :=
      mul_nonneg (mul_self_nonneg tol) (Finset.sum_nonneg fun i _ => mul_self_nonneg _)
    obtain ⟨it, s, hrun, hresidual, hiff⟩ := pcgLoop_iff h hsymm hnonneg hd htol2 maxIterations hstart hb
    refine ⟨it, s.x, ?_, ?_⟩
    · refine (if_neg hbb).trans ?_
      change (pcgLoop sys.A _ _ maxIterations 0 _).bind _ = _
      rw [hrun]
      rfl
    · have hfirst : Converged sys n tol 0 ↔ sys.load n ⬝ᵥ sys.load n ≤ tol * tol * (sys.load n ⬝ᵥ sys.load n) := by
        unfold Converged
        rw [hzero, sub_zero]
      unfold Converged
      rw [← hresidual, hiff, hentries]
      constructor
      · rintro (⟨j, hj, hjmax, x, hx, hsmall⟩ | ⟨hsmall, hmax' | hcurv⟩)
        · exact .galerkin j ⟨hj, by omega⟩ x hx hsmall
        · omega
        · exact .atOnce (hfirst.mpr hsmall) hcurv
      · rintro (hload | ⟨j, ⟨hj, hjmax⟩, x, hx, hsmall⟩ | ⟨hsmall, hcurv⟩)
        · exact absurd hload hb
        · exact Or.inl ⟨j, hj, by omega, x, hx, hsmall⟩
        · exact Or.inr ⟨hfirst.mp hsmall, Or.inr hcurv⟩

/-! ## The eliminated matrix -/

omit [LinearOrder K] [IsStrictOrderedRing K] in
theorem multiply_array (h : Square A n) (f : ℕ → K) (r : Fin n) :
    A.multiply f r = multiply A (fun c : Fin n => f c) r := by
  have hr := h.row_lt r
  unfold multiply
  rw [h.hasRows.multiply_eq hr, h.hasRows.multiply_eq hr]
  congr 1
  apply List.map_congr_left
  intro c hc
  rw [toArray_of_lt _ (h.columns _ (List.getElem_mem hr) c hc).1]

/-- The vector without its fixed components. -/
def freePart {K : Type*} [Zero K] (P : Problem K) (x : Fin n → K) : Fin n → K := fun r =>
  if P.fixed r = true then 0 else x r

variable {P : Problem K} {sys : LinearSystem K}

omit [LinearOrder K] [IsStrictOrderedRing K] in
theorem multiply_freePart (h : Square P.A n) (hsys : Eliminated n P sys) {r : Fin n} (hfree : P.fixed r = false)
    (x : Fin n → K) : multiply sys.A x r = multiply P.A (freePart P x) r := by
  rw [multiply_free h hsys hfree, multiply_eq_sum h]
  apply Finset.sum_congr rfl
  intro c _
  unfold freePart
  split_ifs
  · rw [mul_zero]
  · rfl

theorem semidefinite_eliminated (h : Square P.A n) (hnonneg : PositiveSemidefinite P.A n) (hsys : Eliminated n P sys) :
    PositiveSemidefinite sys.A n := by
  intro x
  have hrow : ∀ r, x r * multiply sys.A x r =
      (if P.fixed r = true then sys.A.entry r r * (x r * x r) else 0) +
        freePart P x r * multiply P.A (freePart P x) r := by
    intro r
    cases hr : P.fixed r with
    | true =>
      have hzero : freePart P x r = 0 := if_pos hr
      rw [multiply_fixed h hsys hr, if_pos rfl, hzero]
      ring
    | false =>
      have hself : freePart P x r = x r := if_neg (by rw [hr]; decide)
      rw [multiply_freePart h hsys hr, if_neg (by decide), hself, zero_add]
  have hfixed : ∀ r ∈ (Finset.univ : Finset (Fin n)), 0 ≤ if P.fixed r = true then sys.A.entry r r * (x r * x r) else 0 := by
    intro r _
    split_ifs with hr
    · by_cases hdiag : HasDiagonal P.A r
      · rw [entry_diagonal h hsys hr hdiag, one_mul]
        exact mul_self_nonneg _
      · rw [entry_no_diagonal hsys hdiag, zero_mul]
    · exact le_refl 0
  unfold dotProduct
  rw [Finset.sum_congr rfl fun r _ => hrow r, Finset.sum_add_distrib]
  exact add_nonneg (Finset.sum_nonneg hfixed) (hnonneg (freePart P x))

omit [IsStrictOrderedRing K] in
theorem Assembled.semidefinite {mesh : ElasticMesh K} (h : Assembled mesh A) :
    PositiveSemidefinite A (3 * mesh.nodes.length) := by
  intro x
  have hquadratic := h.holds.quadratic (toArray x) (toArray x)
  rw [h.length_rows, Finset.sum_range] at hquadratic
  have hdot : x ⬝ᵥ multiply A x = Csr.form h.additions (toArray x) (toArray x) := by
    rw [← hquadratic]
    apply Finset.sum_congr rfl
    intro r _
    rw [toArray_of_lt x r.isLt]
    rfl
  rw [hdot]
  exact h.form.nonneg _

end

/-! ## The solve -/

section

theorem maxIterationsOf_pos {K : Type*} [Field K] [LinearOrder K] {ndof : ℕ} (hndof : 0 < ndof)
    (options : Option (SolverOptions K)) :
    0 < maxIterationsOf ndof options := by
  have hdefault : 0 < if 10 * ndof > 200000 then 200000 else 10 * ndof := by
    split_ifs
    · decide
    · omega
  unfold maxIterationsOf
  cases options with
  | none => exact hdefault
  | some o =>
    dsimp only
    by_cases hset : o.maxIterations > 0
    · rw [if_pos hset]
      omega
    · rw [if_neg hset]
      exact hdefault

variable {K : Type*} [Field K] [LinearOrder K] [FloorRing K]

/-- What is returned without an error meets the tolerance. -/
def ReportsConvergence (num : Numerics K) (mesh : FemMesh K) (inputs : Option (Value K))
    (options : Option (SolverOptions K)) : Prop :=
  ∀ result, femSolve num mesh inputs options = .ok result → ∃ P u, problem num mesh inputs = .ok P ∧ result = some u ∧
    Converged (eliminate (3 * mesh.nodes.length) P) (3 * mesh.nodes.length) (toleranceOf options) u

theorem femSolve_of_problem {num : Numerics K} {mesh : FemMesh K} {inputs : Option (Value K)} {P : Problem K}
    (h : problem num mesh inputs = .ok P) (options : Option (SolverOptions K)) :
    femSolve num mesh inputs options =
      .ok ((solvePcg (eliminate (3 * mesh.nodes.length) P).A
        ((eliminate (3 * mesh.nodes.length) P).load (3 * mesh.nodes.length)) (toleranceOf options)
        (maxIterationsOf (3 * mesh.nodes.length) options)).map Prod.snd) := by
  unfold femSolve
  rw [h]

variable [IsStrictOrderedRing K] {num : Numerics K} {mesh : FemMesh K} {inputs : Option (Value K)}

theorem solvePcg_eliminated {P : Problem K} (hsmall : 3 * mesh.nodes.length < 2 ^ 32)
    (h : problem num mesh inputs = .ok P) (options : Option (SolverOptions K)) :
    ∃ it u, solvePcg (eliminate (3 * mesh.nodes.length) P).A
        ((eliminate (3 * mesh.nodes.length) P).load (3 * mesh.nodes.length)) (toleranceOf options)
        (maxIterationsOf (3 * mesh.nodes.length) options) = some (it, u) ∧
      (Converged (eliminate (3 * mesh.nodes.length) P) (3 * mesh.nodes.length) (toleranceOf options) u ↔
        ToleranceReachable (eliminate (3 * mesh.nodes.length) P) (3 * mesh.nodes.length) (toleranceOf options)
          (maxIterationsOf (3 * mesh.nodes.length) options)) := by
  obtain ⟨hA⟩ := exists_assembled hsmall h
  obtain ⟨youngs, nu, hassembled, -, -, i, hi, -⟩ := problem_ok h
  obtain ⟨-, -, -, hsolvable⟩ := solvable_of_assembled hsmall hassembled
  have hsquare := hA.square hsolvable.inside
  have hsys : Eliminated (3 * mesh.nodes.length) P (eliminate (3 * mesh.nodes.length) P) := by
    have heliminated := eliminated_eliminate hsquare.hasRows
    rwa [hsquare.length] at heliminated
  exact solvePcg_iff (hsquare.same hsys.same) (symmetric_eliminated hsquare hA.symmetric hsys)
    (semidefinite_eliminated hsquare hA.semidefinite hsys) hsmall _ (maxIterationsOf_pos (by omega) options)

/-- The solve is a converged one exactly when the tolerance can be reached. -/
theorem reportsConvergence_iff (hsmall : 3 * mesh.nodes.length < 2 ^ 32) (options : Option (SolverOptions K)) :
    ReportsConvergence num mesh inputs options ↔ ∀ P, problem num mesh inputs = .ok P →
      ToleranceReachable (eliminate (3 * mesh.nodes.length) P) (3 * mesh.nodes.length) (toleranceOf options)
        (maxIterationsOf (3 * mesh.nodes.length) options) := by
  constructor
  · intro hreports P hP
    obtain ⟨it, u, hrun, hiff⟩ := solvePcg_eliminated hsmall hP options
    have hsolve := femSolve_of_problem hP options
    rw [hrun] at hsolve
    obtain ⟨P', u', hP', hu', hconverged⟩ := hreports _ hsolve
    obtain rfl : P = P' := Except.ok.inj (hP.symm.trans hP')
    obtain rfl : u = u' := Option.some.inj hu'
    exact hiff.mp hconverged
  · intro hreachable result hresult
    cases hP : problem num mesh inputs with
    | error status =>
      unfold femSolve at hresult
      rw [hP] at hresult
      cases hresult
    | ok P =>
      obtain ⟨it, u, hrun, hiff⟩ := solvePcg_eliminated hsmall hP options
      rw [femSolve_of_problem hP options, hrun] at hresult
      exact ⟨P, u, rfl, (Except.ok.inj hresult).symm, hiff.mpr (hreachable P hP)⟩

end

/-! ## A free rigid motion -/

theorem residual_of_free_motion {K : Type*} [Field K] [LinearOrder K] [IsStrictOrderedRing K] {n : ℕ}
    {sys : LinearSystem K} (h : Square sys.A n) (hsymm : Symmetric sys.A n) {m : Fin n → K} (hm : multiply sys.A m = 0)
    (u : Fin n → K) :
    (sys.load n ⬝ᵥ m) ^ 2 ≤
      (sys.load n - multiply sys.A u) ⬝ᵥ (sys.load n - multiply sys.A u) * (m ⬝ᵥ m) := by
  have hwork : (sys.load n - multiply sys.A u) ⬝ᵥ m = sys.load n ⬝ᵥ m := by
    have hzero : multiply sys.A u ⬝ᵥ m = 0 := by
      have hself := h.selfAdjoint hsymm u m
      change u ⬝ᵥ multiply sys.A m = multiply sys.A u ⬝ᵥ m at hself
      rw [← hself, hm, dotProduct_zero]
    rw [sub_dotProduct, hzero, sub_zero]
  have hsquares : ∀ v : Fin n → K, v ⬝ᵥ v = ∑ i, v i ^ 2 := fun v => Finset.sum_congr rfl fun i _ => (sq (v i)).symm
  rw [← hwork, hsquares, hsquares]
  exact Finset.sum_mul_sq_le_sq_mul_sq _ _ _

/-- A tetrahedron. -/
def slidingTet : FemMesh ℚ where
  nodes := [![0, 0, 0], ![1, 0, 0], ![0, 2, 0], ![0, 0, 2]]
  cells := [⟨.tet4, [0, 1, 2, 3], 0⟩]
  faceTag _ _ := -1

/-- It slides along the plane that pulls it. -/
def slidingInputs : Option (Value ℚ) :=
  some (.map
    [("fix", .list [.map [("components", .string "x"), ("plane", .string "x"), ("tol", .number (1 / 10))]]),
      ("traction", .list [.map [("plane", .string "x"), ("tol", .number (1 / 10)),
        ("vector", .list [.number 0, .number 1, .number 0])]])])

theorem slidingTet_solvable : slidingTet.toElasticMesh.Solvable (1 / 2) :=
  solvable_tet4 _ rfl (by decide) (by decide) (by
    simp [PositiveJacobian, invert3, jacobian, shapeDerivatives, elementCoords, slidingTet, Finset.sum_range_succ])

def slidingSupports : Supports ℚ :=
  applyFix slidingTet { Selector.initial with tol := 1 / 10, comp := ![true, false, false] } ⟨fun _ => false, fun _ => 0⟩

def slidingLoads : ℕ → ℚ :=
  applyTraction Rat.sqrt (1 / 2) slidingTet { Selector.initial with tol := 1 / 10, traction := ![0, 1, 0] } fun _ => 0

def slidingLoad : Fin (3 * slidingTet.nodes.length) → ℚ := fun r =>
  if (r : ℕ) = 1 ∨ (r : ℕ) = 7 ∨ (r : ℕ) = 10 then 2 / 3 else 0

theorem sliding_at : ∀ r : Fin (3 * slidingTet.nodes.length),
    slidingSupports.fixed r = decide ((r : ℕ) = 0 ∨ (r : ℕ) = 6 ∨ (r : ℕ) = 9) ∧ slidingSupports.prescribed r = 0 ∧
      slidingLoads r = slidingLoad r := by
  decide +kernel

theorem slidingTet_problem :
    ∃ A, problem rationalNumerics slidingTet slidingInputs = .ok ⟨slidingSupports, A, slidingLoads⟩ := by
  have hE : (0 : ℚ) < 210000000000 := by norm_num
  have hlow : (-1 : ℚ) < 3 / 10 := by norm_num
  have hhigh : (3 / 10 : ℚ) < 1 / 2 := by norm_num
  obtain ⟨A, adj, additions, hA, -⟩ := assembleStiffness_holds hE hlow hhigh slidingTet_solvable
  have hrhs : tractionLoads rationalNumerics slidingTet slidingInputs = .ok slidingLoads := rfl
  have hs : supports rationalNumerics slidingTet slidingInputs = .ok slidingSupports := rfl
  exact ⟨A, problem_of_stages hA hrhs hs ⟨0, by decide, (sliding_at ⟨0, by decide⟩).1⟩⟩

/-- The translation along the plane. -/
def slide : Fin (3 * slidingTet.nodes.length) → ℚ := fun r => if (r : ℕ) % 3 = 1 then 1 else 0

theorem slide_fixed : ∀ r : Fin (3 * slidingTet.nodes.length), slidingSupports.fixed r = true → slide r = 0 := by
  intro r hr
  rw [(sliding_at r).1, decide_eq_true_eq] at hr
  unfold slide
  rw [if_neg (by omega)]

theorem multiply_slide {A : Csr ℚ} (hA : Assembled slidingTet.toElasticMesh A) {sys : LinearSystem ℚ}
    (hsys : Eliminated (3 * slidingTet.nodes.length) ⟨slidingSupports, A, slidingLoads⟩ sys) :
    multiply sys.A slide = 0 := by
  have hsquare := hA.square slidingTet_solvable.inside
  funext r
  cases hr : slidingSupports.fixed r with
  | true =>
    rw [multiply_fixed hsquare hsys hr, slide_fixed r hr, mul_zero]
    rfl
  | false =>
    have hpart : freePart ⟨slidingSupports, A, slidingLoads⟩ slide = slide := by
      funext c
      unfold freePart
      split_ifs with hc
      · exact (slide_fixed c hc).symm
      · rfl
    have hrigid : (fun c : Fin (3 * slidingTet.nodes.length) => slidingTet.rigid ![0, 1, 0] 0 c) = slide := by
      have hmotion : ∀ (k : ℕ) (hk : k < 3) (x : Vec3 ℚ), rigidMotion ![0, 1, 0] 0 x ⟨k, hk⟩ = if k = 1 then 1 else 0 := by
        intro k hk x
        unfold rigidMotion
        interval_cases k <;> simp
      funext c
      exact hmotion _ _ _
    have hlt : (r : ℕ) < (patternRows (hA.adj.map sortUnique)).length := by
      rw [hA.length_rows]
      exact r.isLt
    rw [multiply_freePart hsquare hsys hr, hpart, ← hrigid, ← multiply_array hsquare, hA.holds.multiply_eq hlt,
      hA.form.rigid]
    rfl

theorem load_sliding {A : Csr ℚ} (hA : Assembled slidingTet.toElasticMesh A) {sys : LinearSystem ℚ}
    (hsys : Eliminated (3 * slidingTet.nodes.length) ⟨slidingSupports, A, slidingLoads⟩ sys) :
    sys.load (3 * slidingTet.nodes.length) = slidingLoad := by
  have hsquare := hA.square slidingTet_solvable.inside
  have hprescribed : ∀ r : Fin (3 * slidingTet.nodes.length), slidingSupports.prescribed r = 0 := fun r =>
    (sliding_at r).2.1
  have hfixed : ∀ r : Fin (3 * slidingTet.nodes.length), slidingSupports.fixed r = true → slidingLoad r = 0 := by
    intro r hr
    rw [(sliding_at r).1, decide_eq_true_eq] at hr
    unfold slidingLoad
    rw [if_neg (by omega)]
  funext r
  change sys.rhs r = _
  cases hr : slidingSupports.fixed r with
  | true =>
    rw [hsys.fixedLoad r r.isLt hr, hfixed r hr]
    exact hprescribed r
  | false =>
    have hpart : fixedPart ⟨slidingSupports, A, slidingLoads⟩ = (0 : Fin (3 * slidingTet.nodes.length) → ℚ) := by
      funext c
      unfold fixedPart
      rw [hprescribed c]
      exact ite_self _
    have hzero : multiply A (0 : Fin (3 * slidingTet.nodes.length) → ℚ) = 0 := map_zero hsquare.image
    rw [hsys.freeLoad r r.isLt hr, movedLoad_eq hsquare r, hpart, hzero, Pi.zero_apply, sub_zero]
    exact (sliding_at r).2.2

/-- The supports leave a translation free, the load pulls along it, and the solve reports success. -/
theorem sliding_not_reported : ¬ReportsConvergence rationalNumerics slidingTet slidingInputs none := by
  intro hreports
  obtain ⟨A, hP⟩ := slidingTet_problem
  have hsmall : 3 * slidingTet.nodes.length < 2 ^ 32 := by decide
  obtain ⟨hA⟩ := exists_assembled hsmall hP
  have hsquare := hA.square slidingTet_solvable.inside
  obtain ⟨P, u, hP', -, hconverged⟩ := hreports _ (femSolve_of_problem hP none)
  obtain rfl := Except.ok.inj (hP.symm.trans hP')
  have hsys : Eliminated (3 * slidingTet.nodes.length) ⟨slidingSupports, A, slidingLoads⟩
      (eliminate (3 * slidingTet.nodes.length) ⟨slidingSupports, A, slidingLoads⟩) := by
    have heliminated := eliminated_eliminate hsquare.hasRows
    rwa [hsquare.length] at heliminated
  have hresidual := residual_of_free_motion (hsquare.same hsys.same)
    (symmetric_eliminated hsquare hA.symmetric hsys) (multiply_slide hA hsys) u
  unfold Converged at hconverged
  rw [load_sliding hA hsys] at hresidual hconverged
  have hwork : slidingLoad ⬝ᵥ slide = 2 := by
    change ∑ r : Fin 12, slidingLoad r * slide r = 2
    simp [Fin.sum_univ_succ, slidingLoad, slide]
    norm_num
  have hslide : slide ⬝ᵥ slide = 4 := by
    change ∑ r : Fin 12, slide r * slide r = 4
    simp [Fin.sum_univ_succ, slide]
    norm_num
  have hload : slidingLoad ⬝ᵥ slidingLoad = 4 / 3 := by
    change ∑ r : Fin 12, slidingLoad r * slidingLoad r = 4 / 3
    simp [Fin.sum_univ_succ, slidingLoad]
    norm_num
  have htol : toleranceOf (none : Option (SolverOptions ℚ)) = 1 / 1000000000000 := rfl
  rw [hwork, hslide] at hresidual
  rw [hload, htol] at hconverged
  linarith

theorem reportsConvergence_iff_sliding :
    ReportsConvergence rationalNumerics slidingTet slidingInputs none ↔
      ∀ P, problem rationalNumerics slidingTet slidingInputs = .ok P →
        ToleranceReachable (eliminate (3 * slidingTet.nodes.length) P) (3 * slidingTet.nodes.length)
          (toleranceOf none) (maxIterationsOf (3 * slidingTet.nodes.length) (none : Option (SolverOptions ℚ))) :=
  reportsConvergence_iff (by decide) none

end Souxmar.Fem
