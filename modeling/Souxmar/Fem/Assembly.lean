import Mathlib.Data.List.Destutter
import Mathlib.Data.List.Sort
import Souxmar.Fem.Element
import Souxmar.Lib.Csr

/-!
# Assembly

The part of `fem_solve` in front of the boundary conditions: the checks, the sparsity pattern from the node adjacency,
and the scatter of the element matrices. Node ids are 32 bits wide in the pattern.
-/

namespace Souxmar.Fem

open Souxmar.Core Souxmar.Lib

/-- A mesh with coordinates in the field. -/
structure ElasticMesh (K : Type*) where
  nodes : List (Vec3 K)
  cells : List Cell

inductive Status
  | noNodesOrCells
  | youngsModulus
  | poissonRatio
  | unsupportedType
  | impossibleNodeCount
  | nodeOutOfRange
  | nonPositiveJacobian
  | outsidePattern
deriving DecidableEq

/-- The code and the message of the `souxmar_status_t`. -/
def Status.report : Status → ℕ × String
  | noNodesOrCells => (1, "mesh has no nodes or no cells")
  | youngsModulus => (1, "youngs_modulus must be positive")
  | poissonRatio => (1, "poisson_ratio must lie in (-1, 0.5)")
  | unsupportedType => (5, "solver.elasticity.fem handles Tet4 and Hex8 cells only; this mesh contains another " ++
      "element type")
  | impossibleNodeCount => (4, "cell reports an impossible node count")
  | nodeOutOfRange => (4, "cell references a node out of range")
  | nonPositiveJacobian => (1, "element has a non-positive Jacobian — the mesh contains an inverted or degenerate cell")
  | outsidePattern => (4, "assembly targeted an entry outside the pattern")

/-! ## The sparsity pattern -/

def kMaxElementNodes : ℕ := 8

/-- The neighbours of the cell's nodes. -/
def addCell (numNodes : ℕ) (adj : List (List ℕ)) (cell : Cell) : Except Status (List (List ℕ)) :=
  if cell.type ≠ .tet4 ∧ cell.type ≠ .hex8 then .error .unsupportedType
  else if cell.nodes.length = 0 ∨ cell.nodes.length > kMaxElementNodes then .error .impossibleNodeCount
  else
    cell.nodes.foldlM (fun adj i =>
      if i ≥ numNodes then .error .nodeOutOfRange
      else .ok (adj.modify i (· ++ cell.nodes.map (· % 2 ^ 32)))) adj

/-- `std::sort`, `std::unique` and `erase`. -/
def sortUnique (a : List ℕ) : List ℕ := (a.insertionSort (· ≤ ·)).destutter (· ≠ ·)

/-- The columns of a row: three for each neighbour. -/
def blockRow (a : List ℕ) : List ℕ := a.flatMap fun j => (List.range 3).map fun b => (3 * j + b) % 2 ^ 32

/-- The starts of the rows, three for each node, and the number of entries. -/
def rowStarts : ℕ → List (List ℕ) → List ℕ
  | nnz, [] => [nnz]
  | nnz, a :: adj =>
    nnz :: (nnz + 3 * a.length) :: (nnz + 2 * (3 * a.length)) :: rowStarts (nnz + 3 * (3 * a.length)) adj

def columns (adj : List (List ℕ)) : List ℕ := adj.flatMap fun a => (List.range 3).flatMap fun _ => blockRow a

def pattern {K : Type*} [Zero K] (adj : List (List ℕ)) : Csr K :=
  ⟨rowStarts 0 adj, columns adj, List.replicate (columns adj).length 0⟩

/-! ## Assembly -/

section

variable {K : Type*} [Field K] [LinearOrder K]

/-- `xe`. -/
def elementCoords (mesh : ElasticMesh K) (cell : Cell) : ℕ → Vec3 K :=
  fun i => mesh.nodes.getD (cell.nodes.getD i 0) 0

/-- What an element adds: rows, columns and values. -/
def contributions (nodes : List ℕ) (ke : Stiffness K) : List (ℕ × ℕ × K) :=
  (List.range nodes.length).flatMap fun i => (List.finRange 3).flatMap fun (a : Fin 3) =>
    (List.range nodes.length).flatMap fun j => (List.finRange 3).map fun (b : Fin 3) =>
      (3 * nodes.getD i 0 + a, (3 * nodes.getD j 0 + b) % 2 ^ 32, ke i a j b)

def assembleCell (kGauss2 : K) (mat : Matrix (Fin 6) (Fin 6) K) (mesh : ElasticMesh K) (A : Csr K) (cell : Cell) :
    Except Status (Csr K) :=
  match elementStiffness kGauss2 cell.type (elementCoords mesh cell) mat cell.nodes.length with
  | none => .error .nonPositiveJacobian
  | some ke =>
    match A.addAll (contributions cell.nodes ke) with
    | none => .error .outsidePattern
    | some A => .ok A

/-- The stiffness matrix that `fem_solve` assembles. -/
def assembleStiffness (kGauss2 : K) (mesh : ElasticMesh K) (youngs nu : K) : Except Status (Csr K) :=
  if mesh.nodes.length = 0 ∨ mesh.cells.length = 0 then .error .noNodesOrCells
  else if ¬youngs > 0 then .error .youngsModulus
  else if ¬(nu > -1 ∧ nu < kIncompressible) then .error .poissonRatio
  else
    match mesh.cells.foldlM (addCell mesh.nodes.length) (List.replicate mesh.nodes.length []) with
    | .error status => .error status
    | .ok adj => mesh.cells.foldlM (assembleCell kGauss2 (makeMaterial youngs nu) mesh) (pattern (adj.map sortUnique))

end

end Souxmar.Fem
