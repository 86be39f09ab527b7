import Mathlib.LinearAlgebra.CrossProduct
import Mathlib.Tactic.FieldSimp
import Mathlib.Tactic.Linarith
import Mathlib.Tactic.LinearCombination
import Mathlib.Tactic.Positivity
import Souxmar.Fem.Element

/-!
# The stiffness of an element

An element's stiffness is a symmetric form that is not negative and has the rigid motions in its kernel: a point of
the quadrature adds the material's form on strains, and the strain of a rigid motion is zero.
-/

namespace Souxmar.Fem

open Souxmar.Core Matrix

variable {K : Type*} [Field K]

/-! ## Material -/

theorem makeMaterial_symm (youngs nu : K) (i j : Fin 6) : makeMaterial youngs nu i j = makeMaterial youngs nu j i := by
  unfold makeMaterial
  by_cases hij : i = j
  · rw [hij]
  · simp only [if_neg hij, if_neg (Ne.symm hij)]
    split_ifs <;> rfl

theorem energy_makeMaterial (youngs nu : K) (e : Fin 6 → K) :
    e ⬝ᵥ makeMaterial youngs nu *ᵥ e =
      youngs * nu / ((1 + nu) * (1 - 2 * nu)) * (e 0 + e 1 + e 2) ^ 2 +
        youngs / (2 * (1 + nu)) * (2 * (e 0 ^ 2 + e 1 ^ 2 + e 2 ^ 2) + (e 3 ^ 2 + e 4 ^ 2 + e 5 ^ 2)) := by
  unfold makeMaterial
  dsimp only
  generalize youngs * nu / ((1 + nu) * (1 - 2 * nu)) = lambda
  generalize youngs / (2 * (1 + nu)) = mu
  simp only [dotProduct, mulVec, Fin.sum_univ_six]
  simp +decide only [if_true, if_false]
  ring

section

variable [LinearOrder K] [IsStrictOrderedRing K]

theorem energy_nonneg {youngs nu : K} (hE : 0 < youngs) (hlow : -1 < nu) (hhigh : nu < 1 / 2) (e : Fin 6 → K) :
    0 ≤ e ⬝ᵥ makeMaterial youngs nu *ᵥ e := by
  rw [energy_makeMaterial]
  have hplus : 0 < 1 + nu := by linarith
  have hminus : 0 < 1 - 2 * nu := by linarith
  have hmu : 0 < youngs / (2 * (1 + nu)) := by positivity
  have hbulk : 0 < 3 * (youngs * nu / ((1 + nu) * (1 - 2 * nu))) + 2 * (youngs / (2 * (1 + nu))) := by
    have heq : 3 * (youngs * nu / ((1 + nu) * (1 - 2 * nu))) + 2 * (youngs / (2 * (1 + nu))) =
        youngs / (1 - 2 * nu) := by
      have hplus' := hplus.ne'
      have hminus' := hminus.ne'
      rw [← mul_div_assoc, ← mul_div_assoc, div_add_div _ _ (mul_ne_zero hplus' hminus')
        (mul_ne_zero two_ne_zero hplus'), div_eq_div_iff
          (mul_ne_zero (mul_ne_zero hplus' hminus') (mul_ne_zero two_ne_zero hplus')) hminus']
      ring
    rw [heq]
    positivity
  generalize youngs * nu / ((1 + nu) * (1 - 2 * nu)) = lambda at hbulk
  generalize youngs / (2 * (1 + nu)) = mu at hmu hbulk
  -- the stretches split into their trace and their differences
  have hsplit : 3 * (lambda * (e 0 + e 1 + e 2) ^ 2 +
      mu * (2 * (e 0 ^ 2 + e 1 ^ 2 + e 2 ^ 2) + (e 3 ^ 2 + e 4 ^ 2 + e 5 ^ 2))) =
        (3 * lambda + 2 * mu) * (e 0 + e 1 + e 2) ^ 2 +
          mu * (2 * ((e 0 - e 1) ^ 2 + (e 1 - e 2) ^ 2 + (e 2 - e 0) ^ 2) + 3 * (e 3 ^ 2 + e 4 ^ 2 + e 5 ^ 2)) := by
    ring
  have hnonneg : 0 ≤ (3 * lambda + 2 * mu) * (e 0 + e 1 + e 2) ^ 2 +
      mu * (2 * ((e 0 - e 1) ^ 2 + (e 1 - e 2) ^ 2 + (e 2 - e 0) ^ 2) + 3 * (e 3 ^ 2 + e 4 ^ 2 + e 5 ^ 2)) := by
    positivity
  linarith

end

/-! ## Kinematics -/

theorem invert3_mul [DecidableEq K] {J : Matrix (Fin 3) (Fin 3) K} (h : (invert3 J).1 ≠ 0) : (invert3 J).2 * J = 1 := by
  unfold invert3 at h ⊢
  dsimp only at h ⊢
  split_ifs at h ⊢ with hdet
  · exact absurd rfl h
  · have hr := div_mul_cancel₀ (1 : K) hdet
    generalize 1 / (J 0 0 * (J 1 1 * J 2 2 - J 1 2 * J 2 1) + J 0 1 * (J 1 2 * J 2 0 - J 1 0 * J 2 2) +
      J 0 2 * (J 1 0 * J 2 1 - J 1 1 * J 2 0)) = r at hr
    ext i j
    rw [mul_apply, Fin.sum_univ_three]
    fin_cases i <;> fin_cases j <;> simp [one_apply] <;> first | linear_combination hr | ring

theorem sum_shapeDerivatives (type : ElementType) (p : Vec3 K) (r : Fin 3) :
    ∑ i ∈ Finset.range (shapeDerivatives type p).1, (shapeDerivatives type p).2 i r = 0 := by
  cases type
  all_goals try exact Finset.sum_range_zero _
  · fin_cases r <;> simp [shapeDerivatives, Finset.sum_range_succ]
  · fin_cases r
    all_goals simp [shapeDerivatives, kHexSign, Finset.sum_range_succ]
    all_goals ring

/-- The derivatives add up to zero, and differentiate the coordinates. -/
structure Consistent (n : ℕ) (dNdx coords : ℕ → Vec3 K) : Prop where
  unity : ∀ d, ∑ i ∈ Finset.range n, dNdx i d = 0
  coordinates : ∀ d c, ∑ i ∈ Finset.range n, dNdx i d * coords i c = if d = c then 1 else 0

theorem consistent_spatialDerivatives [DecidableEq K] {n : ℕ} {dN coords : ℕ → Vec3 K}
    (hunity : ∀ r, ∑ i ∈ Finset.range n, dN i r = 0) (hdet : (invert3 (jacobian n dN coords)).1 ≠ 0) :
    Consistent n (spatialDerivatives (invert3 (jacobian n dN coords)).2 dN) coords := by
  have hinverse := invert3_mul hdet
  generalize (invert3 (jacobian n dN coords)).2 = Jinv at hinverse
  refine ⟨fun d => ?_, fun d c => ?_⟩
  · unfold spatialDerivatives
    rw [Finset.sum_add_distrib, Finset.sum_add_distrib, ← Finset.mul_sum, ← Finset.mul_sum, ← Finset.mul_sum, hunity,
      hunity, hunity, mul_zero, mul_zero, mul_zero, add_zero, add_zero]
  · have hentry := congrFun (congrFun hinverse d) c
    rw [mul_apply, Fin.sum_univ_three, one_apply] at hentry
    rw [← hentry]
    unfold spatialDerivatives jacobian
    rw [Finset.mul_sum, Finset.mul_sum, Finset.mul_sum, ← Finset.sum_add_distrib, ← Finset.sum_add_distrib]
    apply Finset.sum_congr rfl
    intro i _
    ring

/-! ## Strains -/

/-- The nodes' components. -/
def dofs (n : ℕ) : Finset (ℕ × Fin 3) := Finset.range n ×ˢ Finset.univ

/-- `B u`. -/
def strain (n : ℕ) (dNdx u : ℕ → Vec3 K) : Fin 6 → K :=
  fun r => ∑ q ∈ dofs n, strainBlock (dNdx q.1) q.2 r * u q.1 q.2

def gradient (n : ℕ) (dNdx u : ℕ → Vec3 K) (d c : Fin 3) : K := ∑ j ∈ Finset.range n, dNdx j d * u j c

theorem strain_eq (n : ℕ) (dNdx u : ℕ → Vec3 K) :
    strain n dNdx u = ![gradient n dNdx u 0 0, gradient n dNdx u 1 1, gradient n dNdx u 2 2,
      gradient n dNdx u 1 0 + gradient n dNdx u 0 1, gradient n dNdx u 2 1 + gradient n dNdx u 1 2,
      gradient n dNdx u 2 0 + gradient n dNdx u 0 2] := by
  funext r
  unfold strain dofs gradient
  rw [Finset.sum_product]
  fin_cases r <;> simp [strainBlock, Fin.sum_univ_three, Finset.sum_add_distrib]

/-- `t + w × x`. -/
def rigidMotion (t w x : Vec3 K) : Vec3 K := t + crossProduct w x

theorem gradient_rigidMotion {n : ℕ} {dNdx coords : ℕ → Vec3 K} (h : Consistent n dNdx coords) (t w : Vec3 K)
    (d : Fin 3) : gradient n dNdx (fun i => rigidMotion t w (coords i)) d =
      ![if d = 2 then w 1 else if d = 1 then -w 2 else 0, if d = 0 then w 2 else if d = 2 then -w 0 else 0,
        if d = 1 then w 0 else if d = 0 then -w 1 else 0] := by
  have hlinear : ∀ (a b e : K) (c c' : Fin 3), ∑ j ∈ Finset.range n, dNdx j d * (a + (b * coords j c - e * coords j c')) =
      b * (if d = c then 1 else 0) - e * if d = c' then 1 else 0 := by
    intro a b e c c'
    have hsplit : ∀ j, dNdx j d * (a + (b * coords j c - e * coords j c')) =
        a * dNdx j d + (b * (dNdx j d * coords j c) - e * (dNdx j d * coords j c')) := by
      intro j
      ring
    rw [Finset.sum_congr rfl fun j _ => hsplit j, Finset.sum_add_distrib, Finset.sum_sub_distrib, ← Finset.mul_sum,
      ← Finset.mul_sum, ← Finset.mul_sum, h.unity, h.coordinates, h.coordinates, mul_zero, zero_add]
  funext c
  unfold gradient rigidMotion
  simp only [Pi.add_apply, cross_apply]
  fin_cases c <;> simp only [Fin.zero_eta, Fin.mk_one, Fin.reduceFinMk, cons_val] <;> rw [hlinear] <;>
    fin_cases d <;> simp

theorem strain_rigidMotion {n : ℕ} {dNdx coords : ℕ → Vec3 K} (h : Consistent n dNdx coords) (t w : Vec3 K) :
    strain n dNdx (fun i => rigidMotion t w (coords i)) = 0 := by
  rw [strain_eq]
  simp only [gradient_rigidMotion h]
  funext r
  fin_cases r <;> simp

/-! ## The form of an element -/

/-- `vᵀ ke u`. -/
def elementForm (n : ℕ) (ke : Stiffness K) (v u : ℕ → Vec3 K) : K :=
  ∑ p ∈ dofs n, ∑ q ∈ dofs n, v p.1 p.2 * ke p.1 p.2 q.1 q.2 * u q.1 q.2

theorem elementForm_zero (n : ℕ) (v u : ℕ → Vec3 K) : elementForm n (0 : Stiffness K) v u = 0 := by
  apply Finset.sum_eq_zero
  intro p _
  apply Finset.sum_eq_zero
  intro q _
  rw [Pi.zero_apply, Pi.zero_apply, Pi.zero_apply, Pi.zero_apply, mul_zero, zero_mul]

theorem elementForm_comm {n : ℕ} {ke : Stiffness K} (h : ∀ i a j c, ke i a j c = ke j c i a) (v u : ℕ → Vec3 K) :
    elementForm n ke v u = elementForm n ke u v := by
  unfold elementForm
  rw [Finset.sum_comm]
  apply Finset.sum_congr rfl
  intro p _
  apply Finset.sum_congr rfl
  intro q _
  rw [h]
  ring

theorem sum_contract {ι κ : Type*} [Fintype κ] (s : Finset ι) (v : ι → K) (B : ι → κ → K) (g : κ → K) :
    ∑ p ∈ s, v p * ∑ r, B p r * g r = ∑ r, (∑ p ∈ s, B p r * v p) * g r := by
  have hterm : ∀ p, v p * ∑ r, B p r * g r = ∑ r, B p r * v p * g r := by
    intro p
    rw [Finset.mul_sum]
    apply Finset.sum_congr rfl
    intro r _
    ring
  rw [Finset.sum_congr rfl fun p _ => hterm p, Finset.sum_comm]
  apply Finset.sum_congr rfl
  intro r _
  rw [Finset.sum_mul]

theorem elementForm_accumulate (mat : Matrix (Fin 6) (Fin 6) K) (dNdx : ℕ → Vec3 K) (weight : K) (ke : Stiffness K)
    (n : ℕ) (v u : ℕ → Vec3 K) : elementForm n (accumulateGaussPoint mat dNdx weight ke) v u =
      elementForm n ke v u + weight * (strain n dNdx v ⬝ᵥ mat *ᵥ strain n dNdx u) := by
  have hcolumn : ∀ r, ∑ q ∈ dofs n, u q.1 q.2 * ∑ k, strainBlock (dNdx q.1) q.2 k * mat r k =
      (mat *ᵥ strain n dNdx u) r := by
    intro r
    rw [sum_contract, mulVec, dotProduct]
    apply Finset.sum_congr rfl
    intro k _
    exact mul_comm _ _
  have hrow : ∀ p : ℕ × Fin 3, ∑ q ∈ dofs n, v p.1 p.2 * accumulateGaussPoint mat dNdx weight ke p.1 p.2 q.1 q.2 * u q.1 q.2 =
      ∑ q ∈ dofs n, v p.1 p.2 * ke p.1 p.2 q.1 q.2 * u q.1 q.2 +
        weight * (v p.1 p.2 * ∑ r, strainBlock (dNdx p.1) p.2 r * (mat *ᵥ strain n dNdx u) r) := by
    intro p
    have hterm : ∀ q : ℕ × Fin 3, v p.1 p.2 * accumulateGaussPoint mat dNdx weight ke p.1 p.2 q.1 q.2 * u q.1 q.2 =
        v p.1 p.2 * ke p.1 p.2 q.1 q.2 * u q.1 q.2 + weight * v p.1 p.2 * (u q.1 q.2 *
          ∑ r, (∑ k, strainBlock (dNdx q.1) q.2 k * mat r k) * strainBlock (dNdx p.1) p.2 r) := by
      intro q
      have hsame : ∑ r, (∑ k, strainBlock (dNdx q.1) q.2 k * mat r k) * strainBlock (dNdx p.1) p.2 r =
          ∑ r, strainBlock (dNdx p.1) p.2 r * ∑ k, mat r k * strainBlock (dNdx q.1) q.2 k := by
        apply Finset.sum_congr rfl
        intro r _
        rw [mul_comm]
        congr 1
        exact Finset.sum_congr rfl fun k _ => mul_comm _ _
      rw [hsame, accumulateGaussPoint]
      ring
    rw [Finset.sum_congr rfl fun q _ => hterm q, Finset.sum_add_distrib, ← Finset.mul_sum, sum_contract, mul_assoc]
    congr 3
    apply Finset.sum_congr rfl
    intro r _
    rw [← hcolumn r, mul_comm]
    congr 1
    exact Finset.sum_congr rfl fun q _ => mul_comm _ _
  unfold elementForm
  rw [Finset.sum_congr rfl fun p _ => hrow p, Finset.sum_add_distrib, ← Finset.mul_sum, sum_contract]
  rfl

/-! ## Admissible elements -/

/-- The types that the solver takes. -/
def femTypes : List ElementType := [.tet4, .hex8]

theorem count_shapeDerivatives {type : ElementType} (h : type ∈ femTypes) (p : Vec3 K) :
    (shapeDerivatives type p).1 = type.numNodes := by
  simp only [femTypes, List.mem_cons, List.not_mem_nil, or_false] at h
  rcases h with rfl | rfl <;> rfl

theorem gaussPoints_isSome {type : ElementType} (h : type ∈ femTypes) (kGauss2 : K) :
    ∃ points, gaussPoints kGauss2 type = some points := by
  simp only [femTypes, List.mem_cons, List.not_mem_nil, or_false] at h
  rcases h with rfl | rfl
  · exact ⟨_, rfl⟩
  · exact ⟨_, rfl⟩

section

variable [LinearOrder K]

structure ElementAdmissible (n : ℕ) (coords : ℕ → Vec3 K) (ke : Stiffness K) : Prop where
  symm : ∀ i a j c, ke i a j c = ke j c i a
  nonneg : ∀ u, 0 ≤ elementForm n ke u u
  rigid : ∀ t w v, elementForm n ke v (fun i => rigidMotion t w (coords i)) = 0

theorem elementAdmissible_zero (n : ℕ) (coords : ℕ → Vec3 K) : ElementAdmissible n coords (0 : Stiffness K) where
  symm _ _ _ _ := rfl
  nonneg u := (elementForm_zero n u u).ge
  rigid _ _ v := elementForm_zero n v _

variable [IsStrictOrderedRing K]

theorem ElementAdmissible.accumulate {n : ℕ} {coords : ℕ → Vec3 K} {ke : Stiffness K}
    (h : ElementAdmissible n coords ke) {youngs nu : K} (hE : 0 < youngs) (hlow : -1 < nu) (hhigh : nu < 1 / 2)
    {dNdx : ℕ → Vec3 K} (hconsistent : Consistent n dNdx coords) {weight : K} (hweight : 0 ≤ weight) :
    ElementAdmissible n coords (accumulateGaussPoint (makeMaterial youngs nu) dNdx weight ke) where
  symm i a j c := by
    unfold accumulateGaussPoint
    rw [h.symm i a j c]
    congr 2
    simp only [Finset.mul_sum]
    rw [Finset.sum_comm]
    apply Finset.sum_congr rfl
    intro k _
    apply Finset.sum_congr rfl
    intro r _
    rw [makeMaterial_symm]
    ring
  nonneg u := by
    rw [elementForm_accumulate]
    exact add_nonneg (h.nonneg u) (mul_nonneg hweight (energy_nonneg hE hlow hhigh _))
  rigid t w v := by
    rw [elementForm_accumulate, h.rigid, strain_rigidMotion hconsistent, mulVec_zero, dotProduct_zero, mul_zero,
      add_zero]

/-- The Jacobian is positive at a point of the quadrature. -/
def PositiveJacobian (type : ElementType) (coords : ℕ → Vec3 K) (point : Vec3 K × K) : Prop :=
  0 < (invert3 (jacobian (shapeDerivatives type point.1).1 (shapeDerivatives type point.1).2 coords)).1

/-- It is at every point. -/
def PassesJacobianCheck (kGauss2 : K) (type : ElementType) (coords : ℕ → Vec3 K) : Prop :=
  ∀ points, gaussPoints kGauss2 type = some points → ∀ point ∈ points, PositiveJacobian type coords point

theorem weight_gaussPoints {kGauss2 : K} {type : ElementType} {points : List (Vec3 K × K)}
    (h : gaussPoints kGauss2 type = some points) : ∀ point ∈ points, 0 ≤ point.2 := by
  intro point hpoint
  cases type
  all_goals try cases h
  · rw [List.mem_singleton.mp hpoint]
    positivity
  · obtain ⟨a, -, hb⟩ := List.mem_flatMap.mp hpoint
    obtain ⟨b, -, hc⟩ := List.mem_flatMap.mp hb
    obtain ⟨c, -, rfl⟩ := List.mem_map.mp hc
    exact zero_le_one

section

variable {youngs nu : K} {type : ElementType} {coords : ℕ → Vec3 K}

/-- A point with a positive Jacobian keeps the stiffness admissible. -/
theorem ElementAdmissible.gaussStep (hE : 0 < youngs) (hlow : -1 < nu) (hhigh : nu < 1 / 2) (htype : type ∈ femTypes)
    {ke : Stiffness K} (hke : ElementAdmissible type.numNodes coords ke) {point : Vec3 K × K} (hweight : 0 ≤ point.2)
    (hpoint : PositiveJacobian type coords point) :
    ∃ ke', gaussStep type coords (makeMaterial youngs nu) type.numNodes ke point = some ke' ∧
      ElementAdmissible type.numNodes coords ke' := by
  have hcount := count_shapeDerivatives htype point.1
  have hunity := sum_shapeDerivatives type point.1
  unfold PositiveJacobian at hpoint
  rw [hcount] at hpoint hunity
  have hconsistent := consistent_spatialDerivatives hunity hpoint.ne'
  refine ⟨_, ?_, hke.accumulate hE hlow hhigh hconsistent (mul_nonneg hweight hpoint.le)⟩
  unfold Fem.gaussStep
  dsimp only
  rw [hcount, if_neg (not_not.mpr rfl), if_neg (not_not.mpr hpoint)]

theorem ElementAdmissible.gaussSteps (hE : 0 < youngs) (hlow : -1 < nu) (hhigh : nu < 1 / 2)
    (htype : type ∈ femTypes) {points : List (Vec3 K × K)}
    (hpoints : ∀ point ∈ points, 0 ≤ point.2 ∧ PositiveJacobian type coords point) {ke : Stiffness K}
    (hke : ElementAdmissible type.numNodes coords ke) :
    ∃ ke', points.foldlM (Fem.gaussStep type coords (makeMaterial youngs nu) type.numNodes) ke = some ke' ∧
      ElementAdmissible type.numNodes coords ke' := by
  induction points generalizing ke with
  | nil => exact ⟨ke, rfl, hke⟩
  | cons point points ih =>
    obtain ⟨⟨hweight, hpoint⟩, hrest⟩ := List.forall_mem_cons.mp hpoints
    obtain ⟨next, hstep, hnext⟩ := hke.gaussStep hE hlow hhigh htype hweight hpoint
    obtain ⟨ke', hrun, hke'⟩ := ih hrest hnext
    refine ⟨ke', ?_, hke'⟩
    rw [List.foldlM_cons, hstep]
    exact hrun

theorem elementStiffness_admissible (hE : 0 < youngs) (hlow : -1 < nu) (hhigh : nu < 1 / 2) (htype : type ∈ femTypes)
    {kGauss2 : K} (hpasses : PassesJacobianCheck kGauss2 type coords) :
    ∃ ke, elementStiffness kGauss2 type coords (makeMaterial youngs nu) type.numNodes = some ke ∧
      ElementAdmissible type.numNodes coords ke := by
  obtain ⟨points, hpoints⟩ := gaussPoints_isSome htype kGauss2
  unfold elementStiffness
  rw [hpoints]
  exact (elementAdmissible_zero _ _).gaussSteps hE hlow hhigh htype fun point hpoint =>
    ⟨weight_gaussPoints hpoints point hpoint, hpasses points hpoints point hpoint⟩

end

end

end Souxmar.Fem
