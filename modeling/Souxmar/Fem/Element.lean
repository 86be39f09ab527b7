import Mathlib.Algebra.BigOperators.Fin
import Mathlib.LinearAlgebra.Matrix.Notation
import Souxmar.Core.Mesh

/-!
# The elements of the elasticity solver

Material, kinematics and element stiffness of `fem_elasticity.cpp`, in exact arithmetic over an ordered field. A local
array is a function of its indices; only the indices below the node count are read. `kGauss2` is a parameter.
-/

namespace Souxmar.Fem

open Souxmar.Core

abbrev Vec3 (K : Type*) := Fin 3 → K

/-- The axis that a plane is named after. -/
def axisOf (plane : String) : Option (Fin 3) :=
  if plane = "x" then some 0
  else if plane = "y" then some 1
  else if plane = "z" then some 2
  else none

def kAxisX : Fin 3 := 0

section

variable {K : Type*} [Field K]

def dot3 (u v : Vec3 K) : K := u 0 * v 0 + u 1 * v 1 + u 2 * v 2

def cross3 (u v : Vec3 K) : Vec3 K := ![u 1 * v 2 - u 2 * v 1, u 2 * v 0 - u 0 * v 2, u 0 * v 1 - u 1 * v 0]

/-! ## Material -/

/-- Voigt order (xx, yy, zz, xy, yz, zx) with engineering shear strain. -/
def makeMaterial (youngs nu : K) : Matrix (Fin 6) (Fin 6) K :=
  let lambda := youngs * nu / ((1 + nu) * (1 - 2 * nu))
  let mu := youngs / (2 * (1 + nu))
  fun i j =>
    if i < 3 then
      if j < 3 then (if i = j then lambda + 2 * mu else lambda) else 0
    else if i = j then mu else 0

def kHalf : K := 1 / 2

def kQuarter : K := 1 / 4

/-- The Poisson ratio of an exactly incompressible material. -/
def kIncompressible : K := kHalf

/-! ## Kinematics -/

/-- The determinant and the inverse, which is only valid when the determinant is not zero. -/
def invert3 [DecidableEq K] (J : Matrix (Fin 3) (Fin 3) K) : K × Matrix (Fin 3) (Fin 3) K :=
  let c00 := J 1 1 * J 2 2 - J 1 2 * J 2 1
  let c01 := J 1 2 * J 2 0 - J 1 0 * J 2 2
  let c02 := J 1 0 * J 2 1 - J 1 1 * J 2 0
  let det := J 0 0 * c00 + J 0 1 * c01 + J 0 2 * c02
  if det = 0 then (0, 0)
  else
    let r := 1 / det
    (det,
      !![c00 * r, (J 0 2 * J 2 1 - J 0 1 * J 2 2) * r, (J 0 1 * J 1 2 - J 0 2 * J 1 1) * r;
        c01 * r, (J 0 0 * J 2 2 - J 0 2 * J 2 0) * r, (J 0 2 * J 1 0 - J 0 0 * J 1 2) * r;
        c02 * r, (J 0 1 * J 2 0 - J 0 0 * J 2 1) * r, (J 0 0 * J 1 1 - J 0 1 * J 1 0) * r])

def kHexSign : List (Vec3 K) :=
  [![-1, -1, -1], ![1, -1, -1], ![1, 1, -1], ![-1, 1, -1], ![-1, -1, 1], ![1, -1, 1], ![1, 1, 1], ![-1, 1, 1]]

/-- The node count, 0 for other types, and the derivatives of the shape functions of the nodes. -/
def shapeDerivatives (type : ElementType) (p : Vec3 K) : ℕ × (ℕ → Vec3 K) :=
  match type with
  | .tet4 => (4, fun i => [![-1, -1, -1], ![1, 0, 0], ![0, 1, 0], ![0, 0, 1]].getD i 0)
  | .hex8 =>
    (8, fun i =>
      let s := kHexSign.getD i 0
      ![1 / 8 * s 0 * (1 + p 1 * s 1) * (1 + p 2 * s 2), 1 / 8 * (1 + p 0 * s 0) * s 1 * (1 + p 2 * s 2),
        1 / 8 * (1 + p 0 * s 0) * (1 + p 1 * s 1) * s 2])
  | _ => (0, 0)

/-- The columns of `B` for a node. -/
def strainBlock (b : Vec3 K) : Matrix (Fin 3) (Fin 6) K :=
  !![b 0, 0, 0, b 1, 0, b 2;
    0, b 1, 0, b 0, b 2, 0;
    0, 0, b 2, 0, b 1, b 0]

/-- `ke`: the entry of component `a` of node `i` and component `c` of node `j`. -/
abbrev Stiffness (K : Type*) := ℕ → Fin 3 → ℕ → Fin 3 → K

def accumulateGaussPoint (mat : Matrix (Fin 6) (Fin 6) K) (dNdx : ℕ → Vec3 K) (weight : K) (ke : Stiffness K) :
    Stiffness K :=
  fun i a j c => ke i a j c + weight * ∑ r, strainBlock (dNdx i) a r * ∑ k, mat r k * strainBlock (dNdx j) c k

/-- The points of the quadrature with their weights, when the type has one. -/
def gaussPoints (kGauss2 : K) : ElementType → Option (List (Vec3 K × K))
  | .tet4 => some [(![1 / 4, 1 / 4, 1 / 4], 1 / 6)]
  | .hex8 =>
    some <|
      [-kGauss2, kGauss2].flatMap fun a => [-kGauss2, kGauss2].flatMap fun b =>
        [-kGauss2, kGauss2].map fun c => (![a, b, c], 1)
  | _ => none

/-- `J[r][c]` is the derivative of coordinate `c` by reference coordinate `r`. -/
def jacobian (n : ℕ) (dN coords : ℕ → Vec3 K) : Matrix (Fin 3) (Fin 3) K :=
  fun r c => ∑ i ∈ Finset.range n, dN i r * coords i c

def spatialDerivatives (Jinv : Matrix (Fin 3) (Fin 3) K) (dN : ℕ → Vec3 K) : ℕ → Vec3 K :=
  fun i c => Jinv c 0 * dN i 0 + Jinv c 1 * dN i 1 + Jinv c 2 * dN i 2

/-! ## Element stiffness -/

variable [LinearOrder K]

/-- One point of the quadrature, unless the element is degenerate there. -/
def gaussStep (type : ElementType) (coords : ℕ → Vec3 K) (mat : Matrix (Fin 6) (Fin 6) K) (n : ℕ) (ke : Stiffness K)
    (point : Vec3 K × K) : Option (Stiffness K) :=
  let (count, dN) := shapeDerivatives type point.1
  if count ≠ n then none
  else
    let (detJ, Jinv) := invert3 (jacobian n dN coords)
    if ¬0 < detJ then none
    else some (accumulateGaussPoint mat (spatialDerivatives Jinv dN) (point.2 * detJ) ke)

/-- None when the element is degenerate or its type is not supported. -/
def elementStiffness (kGauss2 : K) (type : ElementType) (coords : ℕ → Vec3 K) (mat : Matrix (Fin 6) (Fin 6) K)
    (n : ℕ) : Option (Stiffness K) :=
  match gaussPoints kGauss2 type with
  | none => none
  | some points => points.foldlM (gaussStep type coords mat n) 0

end

end Souxmar.Fem
