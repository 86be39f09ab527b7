import Souxmar.Fem.Solve
import Souxmar.Fem.Stiffness

/-!
# What the solve accepts

A mesh that `fem_solve` assembles has supported cells with their node counts, node ids in range and positive Jacobians,
so that the problem in front of the elimination has an admissible matrix.
-/

namespace Souxmar.Fem

open Souxmar.Core Souxmar.Lib

section

variable {ε σ α : Type*}

/-- A fold that ends well has made every step well. -/
theorem foldlM_ok {f : σ → α → Except ε σ} {l : List α} {s t : σ} (h : l.foldlM f s = .ok t) :
    ∀ a ∈ l, ∃ before after, f before a = .ok after := by
  induction l generalizing s with
  | nil => exact fun a ha => absurd ha List.not_mem_nil
  | cons a l ih =>
    rw [List.foldlM_cons] at h
    cases hstep : f s a with
    | error e =>
      rw [hstep] at h
      cases h
    | ok next =>
      rw [hstep] at h
      rintro a' ha'
      rcases List.mem_cons.mp ha' with rfl | ha'
      · exact ⟨s, next, hstep⟩
      · exact ih h a' ha'

theorem foldlM_some {f : σ → α → Option σ} {l : List α} {s t : σ} (h : l.foldlM f s = some t) :
    ∀ a ∈ l, ∃ before after, f before a = some after := by
  induction l generalizing s with
  | nil => exact fun a ha => absurd ha List.not_mem_nil
  | cons a l ih =>
    rw [List.foldlM_cons] at h
    cases hstep : f s a with
    | none =>
      rw [hstep] at h
      cases h
    | some next =>
      rw [hstep] at h
      rintro a' ha'
      rcases List.mem_cons.mp ha' with rfl | ha'
      · exact ⟨s, next, hstep⟩
      · exact ih h a' ha'

end

theorem addCell_ok {numNodes : ℕ} {adj adj' : List (List ℕ)} {cell : Cell} (h : addCell numNodes adj cell = .ok adj') :
    cell.type ∈ femTypes ∧ ∀ i ∈ cell.nodes, i < numNodes := by
  unfold addCell at h
  split_ifs at h with htype hcount
  refine ⟨?_, fun i hi => ?_⟩
  · rw [not_and_or, not_not, not_not] at htype
    rcases htype with htype | htype
    · rw [htype]
      decide
    · rw [htype]
      decide
  · obtain ⟨before, after, hstep⟩ := foldlM_ok h i hi
    split_ifs at hstep with hlarge
    exact not_le.mp hlarge

section

variable {K : Type*} [Field K] [LinearOrder K] {kGauss2 : K} {type : ElementType} {coords : ℕ → Vec3 K}
  {mat : Matrix (Fin 6) (Fin 6) K}

theorem gaussStep_some {n : ℕ} {point : Vec3 K × K} {ke ke' : Stiffness K}
    (h : gaussStep type coords mat n ke point = some ke') :
    (shapeDerivatives type point.1).1 = n ∧ PositiveJacobian type coords point := by
  unfold gaussStep at h
  dsimp only at h
  split_ifs at h with hcount hdet
  rw [not_not] at hcount
  refine ⟨hcount, ?_⟩
  unfold PositiveJacobian
  rwa [hcount]

theorem elementStiffness_some {n : ℕ} {ke : Stiffness K} (htype : type ∈ femTypes)
    (h : elementStiffness kGauss2 type coords mat n = some ke) :
    n = type.numNodes ∧ PassesJacobianCheck kGauss2 type coords := by
  obtain ⟨points, hpoints⟩ := gaussPoints_isSome htype kGauss2
  unfold elementStiffness at h
  rw [hpoints] at h
  refine ⟨?_, fun points' hpoints' point hpoint => ?_⟩
  · obtain ⟨point, hpoint⟩ : ∃ point, point ∈ points := by
      rw [femTypes, List.mem_cons, List.mem_singleton] at htype
      rcases htype with rfl | rfl
      · obtain rfl := Option.some.inj hpoints
        exact ⟨_, List.mem_cons_self⟩
      · obtain rfl := Option.some.inj hpoints
        exact ⟨(![-kGauss2, -kGauss2, -kGauss2], 1), List.mem_cons_self⟩
    obtain ⟨before, after, hstep⟩ := foldlM_some h point hpoint
    rw [← (gaussStep_some hstep).1, count_shapeDerivatives htype]
  · rw [hpoints] at hpoints'
    obtain rfl := Option.some.inj hpoints'
    obtain ⟨before, after, hstep⟩ := foldlM_some h point hpoint
    exact (gaussStep_some hstep).2

theorem assembleCell_types {mesh : ElasticMesh K} {A A' : Csr K} {cell : Cell} (htype : cell.type ∈ femTypes)
    (h : assembleCell kGauss2 mat mesh A cell = .ok A') :
    cell.nodes.length = cell.type.numNodes ∧ PassesJacobianCheck kGauss2 cell.type (elementCoords mesh cell) := by
  unfold assembleCell at h
  cases hke : elementStiffness kGauss2 cell.type (elementCoords mesh cell) mat cell.nodes.length with
  | none =>
    rw [hke] at h
    cases h
  | some ke => exact elementStiffness_some htype hke

/-- What is assembled is a solvable mesh of an elastic material. -/
theorem solvable_of_assembled {mesh : ElasticMesh K} {youngs nu : K} {A : Csr K}
    (hsmall : 3 * mesh.nodes.length < 2 ^ 32) (h : assembleStiffness kGauss2 mesh youngs nu = .ok A) :
    0 < youngs ∧ -1 < nu ∧ nu < 1 / 2 ∧ mesh.Solvable kGauss2 := by
  unfold assembleStiffness at h
  split_ifs at h with hempty hE hrange
  rw [not_or] at hempty
  cases hadj : mesh.cells.foldlM (addCell mesh.nodes.length) (List.replicate mesh.nodes.length []) with
  | error status =>
    rw [hadj] at h
    cases h
  | ok adj =>
    rw [hadj] at h
    have hadd : ∀ cell ∈ mesh.cells, cell.type ∈ femTypes ∧ ∀ i ∈ cell.nodes, i < mesh.nodes.length := by
      intro cell hcell
      obtain ⟨before, after, hstep⟩ := foldlM_ok hadj cell hcell
      exact addCell_ok hstep
    have hassemble : ∀ cell ∈ mesh.cells, cell.nodes.length = cell.type.numNodes ∧
        PassesJacobianCheck kGauss2 cell.type (elementCoords mesh cell) := by
      intro cell hcell
      obtain ⟨before, after, hstep⟩ := foldlM_ok h cell hcell
      exact assembleCell_types (hadd cell hcell).1 hstep
    exact ⟨hE, hrange.1, hrange.2,
      { nonempty := fun hnil => hempty.2 (by rw [hnil]; rfl)
        types := fun cell hcell => (hadd cell hcell).1
        arity := fun cell hcell => (hassemble cell hcell).1
        inside := fun cell hcell => (hadd cell hcell).2
        passes := fun cell hcell => (hassemble cell hcell).2
        small := hsmall }⟩

/-! ## The problem -/

/-- The rows of the assembled matrix. -/
structure Assembled (mesh : ElasticMesh K) (A : Csr K) where
  adj : List (List ℕ)
  additions : List (ℕ × ℕ × K)
  adjacent : AdjacentIn mesh.nodes.length mesh.cells adj
  holds : Csr.Holds A (patternRows (adj.map sortUnique)) additions
  form : FormAdmissible mesh additions
  small : 3 * mesh.nodes.length < 2 ^ 32

variable [FloorRing K]

/-- The stages of the problem. -/
theorem problem_ok {num : Numerics K} {mesh : FemMesh K} {inputs : Option (Value K)} {P : Problem K}
    (h : problem num mesh inputs = .ok P) :
    ∃ youngs nu, assembleStiffness num.kGauss2 mesh.toElasticMesh youngs nu = .ok P.A ∧
      tractionLoads num mesh inputs = .ok P.rhs ∧ supports num mesh inputs = .ok P.toSupports ∧
        ∃ i < 3 * mesh.nodes.length, P.fixed i = true := by
  unfold problem at h
  dsimp only at h
  cases hA : assembleStiffness num.kGauss2 mesh.toElasticMesh (readNumber inputs "youngs_modulus" 210000000000)
      (readNumber inputs "poisson_ratio" (3 / 10)) with
  | error status =>
    rw [hA] at h
    cases h
  | ok A =>
    cases hrhs : tractionLoads num mesh inputs with
    | error status =>
      rw [hA, hrhs] at h
      cases h
    | ok rhs =>
      cases hs : supports num mesh inputs with
      | error status =>
        rw [hA, hrhs, hs] at h
        cases h
      | ok s =>
        rw [hA, hrhs, hs] at h
        dsimp only at h
        split_ifs at h with hnone
        obtain rfl := Except.ok.inj h
        refine ⟨_, _, hA, rfl, rfl, ?_⟩
        push Not at hnone
        obtain ⟨i, hi, hfixed⟩ := hnone
        exact ⟨i, hi, Bool.eq_true_of_not_eq_false hfixed⟩

theorem problem_of_stages {num : Numerics K} {mesh : FemMesh K} {inputs : Option (Value K)} {A : Csr K} {rhs : ℕ → K}
    {s : Supports K}
    (hA : assembleStiffness num.kGauss2 mesh.toElasticMesh (readNumber inputs "youngs_modulus" 210000000000)
      (readNumber inputs "poisson_ratio" (3 / 10)) = .ok A)
    (hrhs : tractionLoads num mesh inputs = .ok rhs) (hs : supports num mesh inputs = .ok s)
    (hfixed : ∃ i < 3 * mesh.nodes.length, s.fixed i = true) : problem num mesh inputs = .ok ⟨s, A, rhs⟩ := by
  obtain ⟨i, hi, hfixed⟩ := hfixed
  have hsome : ¬∀ i < 3 * mesh.nodes.length, s.fixed i = false := by
    intro hnone
    rw [hnone i hi] at hfixed
    cases hfixed
  unfold problem
  dsimp only
  rw [hA, hrhs, hs]
  exact if_neg hsome

variable [IsStrictOrderedRing K]

theorem exists_assembled {num : Numerics K} {mesh : FemMesh K} {inputs : Option (Value K)} {P : Problem K}
    (hsmall : 3 * mesh.nodes.length < 2 ^ 32) (h : problem num mesh inputs = .ok P) :
    Nonempty (Assembled mesh.toElasticMesh P.A) := by
  obtain ⟨youngs, nu, hA, -⟩ := problem_ok h
  obtain ⟨hE, hlow, hhigh, hsolvable⟩ := solvable_of_assembled hsmall hA
  obtain ⟨A, adj, additions, hrun, hadj, hholds, hform⟩ := assembleStiffness_holds hE hlow hhigh hsolvable
  obtain rfl : A = P.A := Except.ok.inj (hrun.symm.trans hA)
  exact ⟨⟨adj, additions, hadj, hholds, hform, hsmall⟩⟩

end

end Souxmar.Fem
