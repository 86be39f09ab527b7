import Mathlib.LinearAlgebra.Dimension.StrongRankCondition
import Mathlib.LinearAlgebra.FiniteDimensional.Lemmas
import Mathlib.LinearAlgebra.Matrix.DotProduct
import Mathlib.Tactic.Linarith
import Mathlib.Tactic.FieldSimp

/-!
# Preconditioned conjugate gradients

The recurrence of the method for a symmetric matrix `A` and a symmetric preconditioner `M`, and its invariant: after
`k` steps the iterate is the Galerkin solution in the `k`-th Krylov space. A step asks for positive curvature only, so
that the matrix may be singular.
-/

namespace Souxmar.Lib.ConjugateGradient

variable {K ι : Type*} [Field K] [Fintype ι]

/-- The iterate, its residual, the direction and the product of the residual with its preconditioned self. -/
structure State (K ι : Type*) where
  x : ι → K
  r : ι → K
  p : ι → K
  rz : K

def start (M : (ι → K) →ₗ[K] (ι → K)) (b : ι → K) : State K ι := ⟨0, b, M b, b ⬝ᵥ M b⟩

/-- One step, when the curvature and the product are not zero. -/
def advance (A M : (ι → K) →ₗ[K] (ι → K)) (s : State K ι) : State K ι :=
  let alpha := s.rz / (s.p ⬝ᵥ A s.p)
  let r := s.r - alpha • A s.p
  ⟨s.x + alpha • s.p, r, M r + (r ⬝ᵥ M r / s.rz) • s.p, r ⬝ᵥ M r⟩

def SelfAdjoint (A : (ι → K) →ₗ[K] (ι → K)) : Prop := ∀ x y, x ⬝ᵥ A y = A x ⬝ᵥ y

/-- The span of `M b`, `(M A) M b`, … `(M A)^(k-1) M b`. -/
def krylov (A M : (ι → K) →ₗ[K] (ι → K)) (b : ι → K) : ℕ → Submodule K (ι → K)
  | 0 => ⊥
  | k + 1 => K ∙ M b ⊔ (krylov A M b k).map (M ∘ₗ A)

/-- A vector of the space whose residual is orthogonal to the space. -/
structure Galerkin (A : (ι → K) →ₗ[K] (ι → K)) (b : ι → K) (W : Submodule K (ι → K)) (x : ι → K) : Prop where
  mem : x ∈ W
  orthogonal : ∀ w ∈ W, (b - A x) ⬝ᵥ w = 0

variable {A M : (ι → K) →ₗ[K] (ι → K)} {b : ι → K}

section

omit [Fintype ι]

theorem mem_krylov_succ {k : ℕ} {w : ι → K} (h : w ∈ krylov A M b k) : M (A w) ∈ krylov A M b (k + 1) :=
  Submodule.mem_sup_right ⟨w, h, rfl⟩

theorem krylov_le_succ (k : ℕ) : krylov A M b k ≤ krylov A M b (k + 1) := by
  induction k with
  | zero => exact bot_le
  | succ k ih => exact sup_le_sup_left (Submodule.map_mono ih) _

theorem krylov_mono {j k : ℕ} (h : j ≤ k) : krylov A M b j ≤ krylov A M b k :=
  monotone_nat_of_le_succ krylov_le_succ h

end

/-! ## The invariant -/

/-- What holds after `k` steps. -/
structure Invariant (A M : (ι → K) →ₗ[K] (ι → K)) (b : ι → K) (k : ℕ) (s : State K ι) : Prop where
  mem : s.x ∈ krylov A M b k
  residual : s.r = b - A s.x
  orthogonal : ∀ w ∈ krylov A M b k, s.r ⬝ᵥ w = 0
  conjugate : ∀ w ∈ krylov A M b k, s.p ⬝ᵥ A w = 0
  direction : s.p - M s.r ∈ krylov A M b k
  product : s.rz = s.r ⬝ᵥ M s.r
  next : krylov A M b (k + 1) = krylov A M b k ⊔ K ∙ s.p
  rank : Module.finrank K (krylov A M b k) = k

theorem Invariant.galerkin {k : ℕ} {s : State K ι} (h : Invariant A M b k s) : Galerkin A b (krylov A M b k) s.x :=
  ⟨h.mem, fun w hw => h.residual ▸ h.orthogonal w hw⟩

theorem invariant_start (A M : (ι → K) →ₗ[K] (ι → K)) (b : ι → K) : Invariant A M b 0 (start M b) where
  mem := Submodule.zero_mem _
  residual := by
    change b = b - A 0
    rw [map_zero, sub_zero]
  orthogonal w hw := by rw [(Submodule.mem_bot K).mp hw, dotProduct_zero]
  conjugate w hw := by rw [(Submodule.mem_bot K).mp hw, map_zero, dotProduct_zero]
  direction := by
    change M b - M b ∈ _
    rw [sub_self]
    exact Submodule.zero_mem _
  product := rfl
  next := by
    change K ∙ M b ⊔ (⊥ : Submodule K (ι → K)).map (M ∘ₗ A) = ⊥ ⊔ K ∙ M b
    rw [Submodule.map_bot, sup_bot_eq, bot_sup_eq]
  rank := finrank_bot K (ι → K)

namespace Invariant

variable {k : ℕ} {s : State K ι}

theorem direction_mem (h : Invariant A M b k s) : s.p ∈ krylov A M b (k + 1) := by
  rw [h.next]
  exact Submodule.mem_sup_right (Submodule.mem_span_singleton_self s.p)

theorem preconditioned_mem (h : Invariant A M b k s) : M s.r ∈ krylov A M b (k + 1) := by
  have hsub : s.p - (s.p - M s.r) = M s.r := sub_sub_cancel _ _
  rw [← hsub]
  exact Submodule.sub_mem _ h.direction_mem (krylov_le_succ k h.direction)

theorem residual_dot_direction (h : Invariant A M b k s) : s.r ⬝ᵥ s.p = s.rz := by
  have hsplit : s.p = M s.r + (s.p - M s.r) := by rw [add_sub_cancel]
  rw [hsplit, dotProduct_add, h.orthogonal _ h.direction, add_zero, h.product]

theorem mem_next (h : Invariant A M b k s) {w : ι → K} (hw : w ∈ krylov A M b (k + 1)) :
    ∃ v ∈ krylov A M b k, ∃ c : K, w = v + c • s.p := by
  rw [h.next, Submodule.mem_sup] at hw
  obtain ⟨v, hv, q, hq, rfl⟩ := hw
  obtain ⟨c, rfl⟩ := Submodule.mem_span_singleton.mp hq
  exact ⟨v, hv, c, rfl⟩

section

variable (hA : SelfAdjoint A) (hM : SelfAdjoint M) (h : Invariant A M b k s) (hcurv : s.p ⬝ᵥ A s.p ≠ 0)
include h hcurv

theorem direction_not_mem : s.p ∉ krylov A M b k := fun hmem => hcurv (h.conjugate _ hmem)

theorem rank_next : Module.finrank K (krylov A M b (k + 1)) = k + 1 := by
  rw [h.next, Submodule.finrank_sup_span_singleton (h.direction_not_mem hcurv), h.rank]

include hA in
theorem orthogonal_next : ∀ w ∈ krylov A M b (k + 1), (advance A M s).r ⬝ᵥ w = 0 := by
  intro w hw
  obtain ⟨v, hv, c, rfl⟩ := h.mem_next hw
  have hresidual : (advance A M s).r = s.r - (s.rz / (s.p ⬝ᵥ A s.p)) • A s.p := rfl
  have hspace : (advance A M s).r ⬝ᵥ v = 0 := by
    rw [hresidual, sub_dotProduct, smul_dotProduct, h.orthogonal v hv, ← hA, h.conjugate v hv, smul_zero, sub_zero]
  have hdirection : (advance A M s).r ⬝ᵥ s.p = 0 := by
    rw [hresidual, sub_dotProduct, smul_dotProduct, h.residual_dot_direction, dotProduct_comm (A s.p), smul_eq_mul,
      div_mul_cancel₀ _ hcurv, sub_self]
  rw [dotProduct_add, dotProduct_smul, hspace, hdirection, smul_zero, add_zero]

variable (hrz : s.rz ≠ 0)
include hrz

omit h in
theorem image_direction : A s.p = ((s.p ⬝ᵥ A s.p) / s.rz) • (s.r - (advance A M s).r) := by
  have hresidual : s.r - (advance A M s).r = (s.rz / (s.p ⬝ᵥ A s.p)) • A s.p := by
    change s.r - (s.r - _) = _
    rw [sub_sub_cancel]
  rw [hresidual, smul_smul, div_mul_div_cancel₀ hrz, div_self hcurv, one_smul]

include hA hM in
theorem conjugate_next : ∀ w ∈ krylov A M b (k + 1), (advance A M s).p ⬝ᵥ A w = 0 := by
  intro w hw
  obtain ⟨v, hv, c, rfl⟩ := h.mem_next hw
  have horthogonal := h.orthogonal_next hA hcurv
  have hdirection : (advance A M s).p = M (advance A M s).r + ((advance A M s).rz / s.rz) • s.p := rfl
  have hspace : (advance A M s).p ⬝ᵥ A v = 0 := by
    rw [hdirection, add_dotProduct, smul_dotProduct, h.conjugate v hv, ← hM, horthogonal _ (mem_krylov_succ hv),
      smul_zero, add_zero]
  have hself : (advance A M s).p ⬝ᵥ A s.p = 0 := by
    have hold : M (advance A M s).r ⬝ᵥ s.r = 0 := by
      rw [← hM]
      exact horthogonal _ h.preconditioned_mem
    have hnew : M (advance A M s).r ⬝ᵥ (advance A M s).r = (advance A M s).rz := dotProduct_comm _ _
    have himage : M (advance A M s).r ⬝ᵥ A s.p = -((s.p ⬝ᵥ A s.p) / s.rz * (advance A M s).rz) := by
      rw [image_direction hcurv hrz, dotProduct_smul, dotProduct_sub, hold, hnew, zero_sub, smul_neg, smul_eq_mul,
        ← image_direction hcurv hrz]
    rw [hdirection, add_dotProduct, smul_dotProduct, himage, smul_eq_mul, div_mul_eq_mul_div, div_mul_eq_mul_div,
      mul_comm (advance A M s).rz, neg_add_cancel]
  rw [map_add, map_smul, dotProduct_add, dotProduct_smul, hspace, hself, smul_zero, add_zero]

theorem next_next : krylov A M b (k + 2) = krylov A M b (k + 1) ⊔ K ∙ (advance A M s).p := by
  have hdirection : (advance A M s).p = M (advance A M s).r + ((advance A M s).rz / s.rz) • s.p := rfl
  have hfactor : (s.p ⬝ᵥ A s.p) / s.rz ≠ 0 := div_ne_zero hcurv hrz
  have himage : M (A s.p) = ((s.p ⬝ᵥ A s.p) / s.rz) • (M s.r - M (advance A M s).r) := by
    rw [← map_sub, ← map_smul, ← image_direction hcurv hrz]
  apply le_antisymm
  · have hstart : K ∙ M b ≤ krylov A M b (k + 1) := le_sup_left
    refine sup_le (hstart.trans le_sup_left) ?_
    rintro _ ⟨w, hw, rfl⟩
    obtain ⟨v, hv, c, rfl⟩ := h.mem_next hw
    have hpre : M (advance A M s).r ∈ krylov A M b (k + 1) ⊔ K ∙ (advance A M s).p := by
      have hsub : (advance A M s).p - ((advance A M s).rz / s.rz) • s.p = M (advance A M s).r := by
        rw [hdirection, add_sub_cancel_right]
      rw [← hsub]
      exact Submodule.sub_mem _ (Submodule.mem_sup_right (Submodule.mem_span_singleton_self _))
        (Submodule.mem_sup_left (Submodule.smul_mem _ _ h.direction_mem))
    rw [map_add, map_smul]
    refine Submodule.add_mem _ (Submodule.mem_sup_left (mem_krylov_succ hv)) (Submodule.smul_mem _ _ ?_)
    rw [LinearMap.comp_apply, himage]
    exact Submodule.smul_mem _ _ (Submodule.sub_mem _ (Submodule.mem_sup_left h.preconditioned_mem) hpre)
  · refine sup_le (krylov_le_succ _) ?_
    rw [Submodule.span_singleton_le_iff_mem, hdirection]
    have hpre : M (advance A M s).r = M s.r - ((s.p ⬝ᵥ A s.p) / s.rz)⁻¹ • M (A s.p) := by
      rw [himage, inv_smul_smul₀ hfactor, sub_sub_cancel]
    rw [hpre]
    refine Submodule.add_mem _ (Submodule.sub_mem _ (krylov_le_succ _ h.preconditioned_mem) ?_)
      (Submodule.smul_mem _ _ (krylov_le_succ _ h.direction_mem))
    exact Submodule.smul_mem _ _ (mem_krylov_succ h.direction_mem)

include hA hM in
/-- A step keeps the invariant. -/
theorem advance : Invariant A M b (k + 1) (advance A M s) where
  mem := Submodule.add_mem _ (krylov_le_succ k h.mem) (Submodule.smul_mem _ _ h.direction_mem)
  residual := by
    change s.r - (s.rz / (s.p ⬝ᵥ A s.p)) • A s.p = b - A (s.x + (s.rz / (s.p ⬝ᵥ A s.p)) • s.p)
    rw [h.residual, map_add, map_smul, sub_sub]
  orthogonal := h.orthogonal_next hA hcurv
  conjugate := h.conjugate_next hA hM hcurv hrz
  direction := by
    have hsub : (ConjugateGradient.advance A M s).p - M (ConjugateGradient.advance A M s).r =
        ((ConjugateGradient.advance A M s).rz / s.rz) • s.p := add_sub_cancel_left _ _
    rw [hsub]
    exact Submodule.smul_mem _ _ h.direction_mem
  product := rfl
  next := h.next_next hcurv hrz
  rank := h.rank_next hcurv

end

/-! ## The end -/

theorem le_card (h : Invariant A M b k s) : k ≤ Fintype.card ι := by
  rw [← h.rank, ← Module.finrank_fintype_fun_eq_card (R := K)]
  exact Submodule.finrank_le _

theorem residual_eq_zero (h : Invariant A M b (Fintype.card ι) s) : s.r = 0 := by
  have htop : krylov A M b (Fintype.card ι) = ⊤ :=
    Submodule.eq_top_of_finrank_eq (h.rank.trans (Module.finrank_fintype_fun_eq_card (R := K)).symm)
  exact dotProduct_eq_zero s.r fun w => h.orthogonal w (htop ▸ Submodule.mem_top)

theorem not_galerkin (h : Invariant A M b k s) (hA : SelfAdjoint A) (himage : A s.p = 0) (hrz : s.rz ≠ 0) {j : ℕ}
    (hkj : k < j) (x : ι → K) : ¬Galerkin A b (krylov A M b j) x := by
  intro hx
  have hmem : s.p ∈ krylov A M b j := krylov_mono hkj h.direction_mem
  have horthogonal := hx.orthogonal s.p hmem
  have hload : b ⬝ᵥ s.p = s.rz := by
    have hb : b = s.r + A s.x := by rw [h.residual, sub_add_cancel]
    rw [hb, add_dotProduct, h.residual_dot_direction, ← hA, himage, dotProduct_zero, add_zero]
  rw [sub_dotProduct, hload, ← hA, himage, dotProduct_zero, sub_zero] at horthogonal
  exact hrz horthogonal

end Invariant

/-! ## Definiteness -/

section

variable [LinearOrder K] [IsStrictOrderedRing K]

theorem image_eq_zero (hA : SelfAdjoint A) (hnonneg : ∀ x, 0 ≤ x ⬝ᵥ A x) {d : ι → K} (hd : d ⬝ᵥ A d ≤ 0) : A d = 0 := by
  have hzero : d ⬝ᵥ A d = 0 := le_antisymm hd (hnonneg d)
  by_contra hne
  have hpos : 0 < A d ⬝ᵥ A d :=
    lt_of_le_of_ne (Finset.sum_nonneg fun i _ => mul_self_nonneg _) fun h => hne (dotProduct_self_eq_zero.mp h.symm)
  have henergy : ∀ t : K, (A d + t • d) ⬝ᵥ A (A d + t • d) = A d ⬝ᵥ A (A d) + 2 * t * (A d ⬝ᵥ A d) := by
    intro t
    rw [map_add, map_smul, add_dotProduct, dotProduct_add, dotProduct_add, dotProduct_smul, smul_dotProduct,
      smul_dotProduct, dotProduct_smul, hzero, hA d (A d), smul_zero, smul_zero, add_zero, smul_eq_mul, add_assoc,
      ← two_mul, mul_assoc]
  have hnegative := hnonneg (A d + (-(A d ⬝ᵥ A (A d) + 1) / (2 * (A d ⬝ᵥ A d))) • d)
  have hcancel : 2 * (-(A d ⬝ᵥ A (A d) + 1) / (2 * (A d ⬝ᵥ A d))) * (A d ⬝ᵥ A d) = -(A d ⬝ᵥ A (A d) + 1) := by
    field_simp
  rw [henergy, hcancel] at hnegative
  linarith

theorem Galerkin.image_eq (hA : SelfAdjoint A) (hnonneg : ∀ x, 0 ≤ x ⬝ᵥ A x) {W : Submodule K (ι → K)} {x y : ι → K}
    (hx : Galerkin A b W x) (hy : Galerkin A b W y) : A x = A y := by
  have hmem : x - y ∈ W := Submodule.sub_mem _ hx.mem hy.mem
  have henergy : (x - y) ⬝ᵥ A (x - y) = 0 := by
    have hdiff : A (x - y) = (b - A y) - (b - A x) := by rw [map_sub, sub_sub_sub_cancel_left]
    rw [hdiff, dotProduct_comm, sub_dotProduct, hy.orthogonal _ hmem, hx.orthogonal _ hmem, sub_zero]
  have hzero := image_eq_zero hA hnonneg henergy.le
  rwa [map_sub, sub_eq_zero] at hzero

omit [IsStrictOrderedRing K] in
theorem Invariant.product_pos {k : ℕ} {s : State K ι} (h : Invariant A M b k s) (hM : ∀ x, x ≠ 0 → 0 < x ⬝ᵥ M x)
    (hr : s.r ≠ 0) : 0 < s.rz := by
  rw [h.product]
  exact hM s.r hr

omit [IsStrictOrderedRing K] in
theorem Invariant.direction_ne_zero {k : ℕ} {s : State K ι} (h : Invariant A M b k s)
    (hM : ∀ x, x ≠ 0 → 0 < x ⬝ᵥ M x) (hr : s.r ≠ 0) : s.p ≠ 0 := by
  intro hp
  have hpos := h.product_pos hM hr
  rw [← h.residual_dot_direction, hp, dotProduct_zero] at hpos
  exact lt_irrefl 0 hpos

/-! ## The Jacobi preconditioner -/

omit [Fintype ι] [LinearOrder K] [IsStrictOrderedRing K] in
/-- The product with a diagonal matrix. -/
def jacobi (d : ι → K) : (ι → K) →ₗ[K] (ι → K) where
  toFun x := d * x
  map_add' := mul_add d
  map_smul' c x := mul_smul_comm c d x

omit [LinearOrder K] [IsStrictOrderedRing K] in
theorem selfAdjoint_jacobi (d : ι → K) : SelfAdjoint (jacobi d) := by
  intro x y
  apply Finset.sum_congr rfl
  intro i _
  change x i * (d i * y i) = d i * x i * y i
  ring

theorem jacobi_pos {d : ι → K} (hd : ∀ i, 0 < d i) {x : ι → K} (hx : x ≠ 0) : 0 < x ⬝ᵥ jacobi d x := by
  obtain ⟨i, hi⟩ := Function.ne_iff.mp hx
  have hterm : ∀ j, x j * (jacobi d x) j = d j * (x j * x j) := by
    intro j
    change x j * (d j * x j) = _
    ring
  unfold dotProduct
  rw [Finset.sum_congr rfl fun j _ => hterm j]
  refine Finset.sum_pos' (fun j _ => mul_nonneg (hd j).le (mul_self_nonneg _)) ⟨i, Finset.mem_univ i, ?_⟩
  exact mul_pos (hd i) (mul_self_pos.mpr hi)

end

end Souxmar.Lib.ConjugateGradient
