import Mathlib.Algebra.Order.Floor.Defs
import Souxmar.Core.SurfaceStream
import Souxmar.Fem.Assembly
import Souxmar.Fem.Solver

/-!
# The solve

`fem_solve` behind the assembly: the selectors of the input bag, tractions, supports, the elimination of the fixed
degrees of freedom, and the solver call. `sqrt` is a parameter. An array is a function of its indices.
-/

namespace Souxmar.Fem

open Souxmar.Core Souxmar.Lib

/-! ## The input bag -/

/-- A `souxmar_value_t`; what has no kind that the solver reads is `other`. -/
inductive Value (K : Type*)
  | number (x : K)
  | string (s : String)
  | list (items : List (Value K))
  | map (fields : List (String × Value K))
  | other

inductive SelectorKind
  | plane
  | faceTag
deriving DecidableEq

structure Selector (K : Type*) where
  kind : SelectorKind
  axis : Fin 3
  coordinate : K
  tol : K
  faceTag : ℤ
  comp : Fin 3 → Bool
  value : Vec3 K
  traction : Vec3 K

section

variable {K : Type*}

def mapGet (v : Option (Value K)) (key : String) : Option (Value K) :=
  match v with
  | some (.map fields) => fields.lookup key
  | _ => none

def readNumber (v : Option (Value K)) (key : String) (dv : K) : K :=
  match mapGet v key with
  | some (.number x) => x
  | _ => dv

def readString (v : Option (Value K)) (key dv : String) : String :=
  match mapGet v key with
  | some (.string s) => s
  | _ => dv

/-- The loop of `read_vec3`: what is written in front of an item that is no number stays. -/
def readComponents : List (Value K) → ℕ → Vec3 K → Bool × Vec3 K
  | [], _, out => (true, out)
  | .number x :: items, i, out => readComponents items (i + 1) fun j => if (j : ℕ) = i then x else out j
  | _ :: _, _, out => (false, out)

def readVec3 (v : Option (Value K)) (key : String) (out : Vec3 K) : Bool × Vec3 K :=
  match mapGet v key with
  | some (.list items) => if items.length ≠ 3 then (false, out) else readComponents items 0 out
  | _ => (false, out)

def parseComponents (e : Option (Value K)) (sel : Selector K) : Selector K :=
  let comps := (readString e "components" "xyz").toList
  { sel with comp := ![decide ('x' ∈ comps), decide ('y' ∈ comps), decide ('z' ∈ comps)] }

end

/-! ## Selectors -/

section

variable {K : Type*} [Field K] [LinearOrder K]

/-- A selector without entries. -/
def Selector.initial : Selector K := ⟨.plane, kAxisX, 0, 0, 0, fun _ => true, fun _ => 0, fun _ => 0⟩

def nodeOnPlane (s : Selector K) (p : Vec3 K) : Bool :=
  let d := p s.axis - s.coordinate
  decide (d ≤ s.tol ∧ d ≥ -s.tol)

/-- The least and the greatest coordinates. -/
def boundingBox (nodes : List (Vec3 K)) : Vec3 K × Vec3 K :=
  nodes.tail.foldl
    (fun bbox p => (fun c => if p c < bbox.1 c then p c else bbox.1 c, fun c => if p c > bbox.2 c then p c else bbox.2 c))
    (nodes.getD 0 fun _ => 0, nodes.getD 0 fun _ => 0)

def defaultTol (sqrt : K → K) (bbox : Vec3 K × Vec3 K) : K :=
  let diag := sqrt (dot3 (bbox.2 - bbox.1) (bbox.2 - bbox.1))
  if diag > 0 then 1 / 1000000000 * diag else 1 / 1000000000000

/-- The cast of a double to `std::int32_t` drops the fraction. -/
def toInt32 [FloorRing K] (x : K) : ℤ := if 0 ≤ x then ⌊x⌋ else ⌈x⌉

def parseSelectorGeometry [FloorRing K] (e : Option (Value K)) (bbox : Vec3 K × Vec3 K) (diagTol : K) :
    Option (Selector K) :=
  match mapGet e "face_tag" with
  | some (.number x) => some { Selector.initial with kind := .faceTag, faceTag := toInt32 x }
  | _ =>
    (axisOf (readString e "plane" "")).map fun axis =>
      { Selector.initial with
        axis := axis
        coordinate := match mapGet e "at" with
          | some (.number x) => x
          | _ => if readString e "at" "min" = "max" then bbox.2 axis else bbox.1 axis
        tol := readNumber e "tol" diagTol }

/-! ## Faces -/

def kTet4Faces : List LocalFace :=
  [⟨3, [1, 2, 3, 0]⟩, ⟨3, [0, 3, 2, 0]⟩, ⟨3, [0, 1, 3, 0]⟩, ⟨3, [0, 2, 1, 0]⟩]

def kHex8Faces : List LocalFace :=
  [⟨4, [0, 3, 2, 1]⟩, ⟨4, [4, 5, 6, 7]⟩, ⟨4, [0, 1, 5, 4]⟩, ⟨4, [3, 7, 6, 2]⟩, ⟨4, [0, 4, 7, 3]⟩,
    ⟨4, [1, 2, 6, 5]⟩]

def faceTable : ElementType → List LocalFace
  | .tet4 => kTet4Faces
  | .hex8 => kHex8Faces
  | _ => []

/-- A mesh with the tags of its faces. -/
structure FemMesh (K : Type*) extends ElasticMesh K where
  faceTag : ℕ → ℕ → ℤ

/-- Face `f` of cell `c`. -/
def faceSelected (mesh : FemMesh K) (sel : Selector K) (c : ℕ) (cell : Cell) (f : ℕ) (lf : LocalFace) : Bool :=
  match sel.kind with
  | .faceTag => decide (mesh.faceTag c f = sel.faceTag)
  | .plane => (faceVerts cell lf).all fun i => nodeOnPlane sel (mesh.nodes.getD i 0)

/-! ## Tractions -/

/-- The corners of the bilinear quad. -/
def qs : List (K × K) := [(-1, -1), (1, -1), (1, 1), (-1, 1)]

def quadShape (xi eta : K) (i : ℕ) : K :=
  let q := qs.getD i (0, 0)
  kQuarter * (1 + xi * q.1) * (1 + eta * q.2)

/-- The lengths of the surface element at a point of the bilinear quad. -/
def quadJacobian (sqrt : K → K) (fx : ℕ → Vec3 K) (xi eta : K) : K :=
  let t1 : Vec3 K := fun d => ∑ i ∈ Finset.range 4, kQuarter * (qs.getD i (0, 0)).1 * (1 + eta * (qs.getD i (0, 0)).2) * fx i d
  let t2 : Vec3 K := fun d => ∑ i ∈ Finset.range 4, kQuarter * (1 + xi * (qs.getD i (0, 0)).1) * (qs.getD i (0, 0)).2 * fx i d
  let cr := cross3 t1 t2
  sqrt (dot3 cr cr)

def quadPoints (kGauss2 : K) : List (K × K) :=
  [-kGauss2, kGauss2].flatMap fun xi => [-kGauss2, kGauss2].map fun eta => (xi, eta)

def triArea (sqrt : K → K) (fx : ℕ → Vec3 K) : K :=
  let cr := cross3 (fx 1 - fx 0) (fx 2 - fx 0)
  kHalf * sqrt (dot3 cr cr)

/-- The integrals of the shape functions over a face. -/
def faceWeights (sqrt : K → K) (kGauss2 : K) (count : ℕ) (fx : ℕ → Vec3 K) : ℕ → K :=
  if count = 3 then fun v => if v < 3 then triArea sqrt fx / 3 else 0
  else
    (quadPoints kGauss2).foldl (fun w q i => w i + quadShape q.1 q.2 i * quadJacobian sqrt fx q.1 q.2) fun _ => 0

def addAt (rhs : ℕ → K) (i : ℕ) (v : K) : ℕ → K := Function.update rhs i (rhs i + v)

/-- The consistent loads of one face. -/
def addFaceLoad (sqrt : K → K) (kGauss2 : K) (mesh : FemMesh K) (sel : Selector K) (cell : Cell) (rhs : ℕ → K)
    (lf : LocalFace) : ℕ → K :=
  let verts := faceVerts cell lf
  let w := faceWeights sqrt kGauss2 lf.vertexCount fun v => mesh.nodes.getD (verts.getD v 0) 0
  verts.zipIdx.foldl
    (fun rhs t => (List.finRange 3).foldl (fun rhs (d : Fin 3) => addAt rhs (t.1 * 3 + d) (w t.2 * sel.traction d)) rhs) rhs

/-- The faces of the mesh that the selector selects, cell by cell and face by face. -/
def selectedFaces (mesh : FemMesh K) (sel : Selector K) : List (Cell × LocalFace) :=
  mesh.cells.zipIdx.flatMap fun t =>
    ((faceTable t.1.type).zipIdx.filter fun g => faceSelected mesh sel t.2 t.1 g.2 g.1).map fun g => (t.1, g.1)

/-- One traction selector. -/
def applyTraction (sqrt : K → K) (kGauss2 : K) (mesh : FemMesh K) (sel : Selector K) (rhs : ℕ → K) : ℕ → K :=
  (selectedFaces mesh sel).foldl (fun rhs t => addFaceLoad sqrt kGauss2 mesh sel t.1 rhs t.2) rhs

inductive SolveStatus
  | assembly (status : Status)
  | tractionSelector
  | tractionVector
  | noFix
  | fixSelector
  | nothingFixed
deriving DecidableEq

/-- The code and the message of the `souxmar_status_t`. -/
def SolveStatus.report : SolveStatus → ℕ × String
  | assembly status => status.report
  | tractionSelector => (1, "traction selector needs either `plane: x|y|z` or `face_tag: <int>`")
  | tractionVector => (1, "traction selector needs `vector: [tx, ty, tz]`")
  | noFix => (1, "solver.elasticity.fem requires at least one `fix:` selector — with no Dirichlet constraint the " ++
      "stiffness matrix is singular (six rigid-body modes) and any answer would be arbitrary")
  | fixSelector => (1, "fix selector needs either `plane: x|y|z` or `face_tag: <int>`")
  | nothingFixed => (1, "the `fix:` selectors matched no nodes — check `plane`/`at`/`tol` against the mesh extent, or " ++
      "`face_tag` against what the mesher stamped")

/-- The numbers that are not part of the inputs. -/
structure Numerics (K : Type*) where
  sqrt : K → K
  kGauss2 : K

variable [FloorRing K]

def tractionStep (num : Numerics K) (mesh : FemMesh K) (rhs : ℕ → K) (e : Value K) : Except SolveStatus (ℕ → K) :=
  let bbox := boundingBox mesh.nodes
  match parseSelectorGeometry (some e) bbox (defaultTol num.sqrt bbox) with
  | none => .error .tractionSelector
  | some sel =>
    let vector := readVec3 (some e) "vector" sel.traction
    if vector.1 = false then .error .tractionVector
    else .ok (applyTraction num.sqrt num.kGauss2 mesh { sel with traction := vector.2 } rhs)

def tractionLoads (num : Numerics K) (mesh : FemMesh K) (inputs : Option (Value K)) : Except SolveStatus (ℕ → K) :=
  match mapGet inputs "traction" with
  | some (.list items) => items.foldlM (tractionStep num mesh) fun _ => 0
  | _ => .ok fun _ => 0

/-! ## Supports -/

/-- The fixed degrees of freedom and their values. -/
structure Supports (K : Type*) where
  fixed : ℕ → Bool
  prescribed : ℕ → K

def fixNode (sel : Selector K) (s : Supports K) (nid : ℕ) : Supports K :=
  (List.finRange 3).foldl
    (fun s d =>
      if sel.comp d then
        ⟨Function.update s.fixed (nid * 3 + d) true, Function.update s.prescribed (nid * 3 + d) (sel.value d)⟩
      else s) s

/-- One support selector. -/
def applyFix (mesh : FemMesh K) (sel : Selector K) (s : Supports K) : Supports K :=
  match sel.kind with
  | .plane =>
    (List.range mesh.nodes.length).foldl
      (fun s i => if nodeOnPlane sel (mesh.nodes.getD i 0) then fixNode sel s i else s) s
  | .faceTag => (selectedFaces mesh sel).foldl (fun s t => (faceVerts t.1 t.2).foldl (fixNode sel) s) s

def fixStep (num : Numerics K) (mesh : FemMesh K) (s : Supports K) (e : Value K) : Except SolveStatus (Supports K) :=
  let bbox := boundingBox mesh.nodes
  match parseSelectorGeometry (some e) bbox (defaultTol num.sqrt bbox) with
  | none => .error .fixSelector
  | some sel =>
    let sel := parseComponents (some e) sel
    .ok (applyFix mesh { sel with value := (readVec3 (some e) "value" sel.value).2 } s)

def supports (num : Numerics K) (mesh : FemMesh K) (inputs : Option (Value K)) : Except SolveStatus (Supports K) :=
  match mapGet inputs "fix" with
  | some (.list (e :: items)) => (e :: items).foldlM (fixStep num mesh) ⟨fun _ => false, fun _ => 0⟩
  | _ => .error .noFix

/-! ## The problem and its elimination -/

/-- The system as it is assembled, with its supports. -/
structure Problem (K : Type*) extends Supports K where
  A : Csr K
  rhs : ℕ → K

/-- `fem_solve` in front of the elimination. -/
def problem (num : Numerics K) (mesh : FemMesh K) (inputs : Option (Value K)) : Except SolveStatus (Problem K) :=
  let youngs := readNumber inputs "youngs_modulus" 210000000000
  let nu := readNumber inputs "poisson_ratio" (3 / 10)
  match assembleStiffness num.kGauss2 mesh.toElasticMesh youngs nu with
  | .error status => .error (.assembly status)
  | .ok A =>
    match tractionLoads num mesh inputs with
    | .error status => .error status
    | .ok rhs =>
      match supports num mesh inputs with
      | .error status => .error status
      | .ok s =>
        if ∀ i < 3 * mesh.nodes.length, s.fixed i = false then .error .nothingFixed
        else .ok ⟨s, A, rhs⟩

end

/-- A matrix and a right-hand side. -/
structure LinearSystem (K : Type*) where
  A : Csr K
  rhs : ℕ → K

section

variable {K : Type*} [Field K]

/-- The places of a row. -/
def rowPlaces (A : Csr K) (r : ℕ) : List ℕ :=
  let lo := A.rowStart.getD r 0
  List.range' lo (A.rowStart.getD (r + 1) 0 - lo)

/-- Moves an entry of a free row to the right-hand side when its column is fixed. -/
def moveColumn (s : Supports K) (r : ℕ) (sys : LinearSystem K) (k : ℕ) : LinearSystem K :=
  let c := sys.A.col.getD k 0
  if s.fixed c = false then sys
  else
    ⟨{ sys.A with val := sys.A.val.set k 0 },
      Function.update sys.rhs r (sys.rhs r - sys.A.val.getD k 0 * s.prescribed c)⟩

def moveColumns (s : Supports K) (sys : LinearSystem K) (r : ℕ) : LinearSystem K :=
  if s.fixed r = true then sys else (rowPlaces sys.A r).foldl (moveColumn s r) sys

def writeEntry (r : ℕ) (A : Csr K) (k : ℕ) : Csr K :=
  { A with val := A.val.set k (if A.col.getD k 0 = r then 1 else 0) }

/-- Writes a fixed row: 1 on the diagonal and the prescribed value. -/
def writeRow (s : Supports K) (sys : LinearSystem K) (r : ℕ) : LinearSystem K :=
  if s.fixed r = false then sys
  else ⟨(rowPlaces sys.A r).foldl (writeEntry r) sys.A, Function.update sys.rhs r (s.prescribed r)⟩

/-- The symmetric elimination. -/
def eliminate (ndof : ℕ) (problem : Problem K) : LinearSystem K :=
  let s := problem.toSupports
  (List.range ndof).foldl (writeRow s) ((List.range ndof).foldl (moveColumns s) ⟨problem.A, problem.rhs⟩)

end

/-! ## The call of the solver -/

structure SolverOptions (K : Type*) where
  tolerance : K
  maxIterations : ℤ

section

variable {K : Type*} [Field K] [LinearOrder K] [FloorRing K]

def toleranceOf (options : Option (SolverOptions K)) : K :=
  match options with
  | some o => if o.tolerance > 0 then o.tolerance else 1 / 1000000000000
  | none => 1 / 1000000000000

def maxIterationsOf (ndof : ℕ) (options : Option (SolverOptions K)) : ℕ :=
  let maxIt := if 10 * ndof > 200000 then 200000 else 10 * ndof
  match options with
  | some o => if o.maxIterations > 0 then o.maxIterations.toNat else maxIt
  | none => maxIt

def LinearSystem.load {K : Type*} (sys : LinearSystem K) (ndof : ℕ) : Fin ndof → K := fun i => sys.rhs i

/-- The displacements, unless the solver divides by zero. -/
def femSolve (num : Numerics K) (mesh : FemMesh K) (inputs : Option (Value K)) (options : Option (SolverOptions K)) :
    Except SolveStatus (Option (Fin (3 * mesh.nodes.length) → K)) :=
  match problem num mesh inputs with
  | .error status => .error status
  | .ok problem =>
    let ndof := 3 * mesh.nodes.length
    let sys := eliminate ndof problem
    .ok ((solvePcg sys.A (sys.load ndof) (toleranceOf options) (maxIterationsOf ndof options)).map Prod.snd)

end

end Souxmar.Fem
