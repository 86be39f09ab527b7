import Mathlib.Algebra.Field.Basic
import Mathlib.Algebra.Order.Floor.Defs
import Mathlib.Algebra.Ring.Prod
import Souxmar.Core.MeshRepresentation
import Souxmar.Lib.Grid

/-!
# The grid mesher

`grid_mesh` of `grid_mesher.cpp`: nodes on a grid over the bounding box of the geometry and six tetrahedra in each cube.
Extents and positions are exact, `bits` is the pattern of a double. All memory is found.
-/

namespace Souxmar.Plugins.GridMesher

open Souxmar.Core Souxmar.Lib

structure Box (K : Type*) where
  lo : K × K × K
  hi : K × K × K

/-- A refusal, always with `SOUXMAR_E_INVALID_ARGUMENT`. -/
structure Refusal where
  message : String
deriving DecidableEq

/-- Kuhn's subdivision of a cube. The corners are numbered by bits, x first. -/
def kHexToTets : List (List ℕ) :=
  [[0, 1, 3, 7], [0, 1, 7, 5], [0, 2, 7, 3], [0, 2, 6, 7], [0, 4, 5, 7], [0, 4, 7, 6]]

/-- A box and its number of nodes per axis. -/
structure Grid (K : Type*) [Field K] [LinearOrder K] where
  box : Box K
  nN : ℕ
  two_le : 2 ≤ nN
  wide : box.lo.1 < box.hi.1 ∧ box.lo.2.1 < box.hi.2.1 ∧ box.lo.2.2 < box.hi.2.2

section

variable {K : Type*} [Field K] [LinearOrder K]

/-! ## The plan -/

omit [Field K] in
def Box.include (box : Box K) (v : K × K × K) : Box K where
  lo := (min box.lo.1 v.1, min box.lo.2.1 v.2.1, min box.lo.2.2 v.2.2)
  hi := (max box.hi.1 v.1, max box.hi.2.1 v.2.1, max box.hi.2.2 v.2.2)

/-- `Geometry::bounding_box`. The infinite box that the fold starts from is gone with the first vertex. -/
def boundingBox : List (K × K × K) → Box K
  | [] => ⟨0, 0⟩
  | v :: vertices => vertices.foldl Box.include ⟨v, v⟩

/-- `static_cast<int>` of a double without a fraction. Out of range it gives the least `int`, as on x86. -/
def castInt (x : ℤ) : Int32 := if -2147483648 ≤ x ∧ x ≤ 2147483647 then Int32.ofInt x else Int32.minValue

/-- The nodes per axis for the target size in the options, when there is one, and the longest span. -/
def nodesPerAxis [FloorRing K] (targetSize : Option K) (L : K) : ℕ :=
  match targetSize with
  | some t =>
    if t > 0 then
      let N := castInt ⌈L / t⌉ + 1
      (if N < 2 then 2 else N).toInt.toNat
    else 4
  | none => 4

theorem two_le_nodesPerAxis [FloorRing K] (targetSize : Option K) (L : K) : 2 ≤ nodesPerAxis targetSize L := by
  have htwo : (2 : Int32).toInt = 2 := by decide
  have hclamp : ∀ N : Int32, 2 ≤ (if N < 2 then 2 else N).toInt.toNat := by
    intro N
    split_ifs with hN
    · decide
    · have hle := Int32.le_iff_toInt_le.mp (Int32.not_lt.mp hN)
      omega
  unfold nodesPerAxis
  split
  · rename_i t
    by_cases ht : t > 0
    · rw [if_pos ht]
      exact hclamp _
    · rw [if_neg ht]
      decide
  · decide

/-- As long as the number of nodes is an `int`. -/
theorem nodesPerAxis_eq [FloorRing K] {t L : K} (ht : 0 < t) (hL : 0 ≤ ⌈L / t⌉ ∧ ⌈L / t⌉ < 2147483647) :
    (nodesPerAxis (some t) L : ℤ) = max 2 (⌈L / t⌉ + 1) := by
  have hone : (1 : Int32).toInt = 1 := by decide
  have htwo : (2 : Int32).toInt = 2 := by decide
  have hN : (castInt ⌈L / t⌉ + 1).toInt = ⌈L / t⌉ + 1 := by
    rw [castInt, if_pos (by omega), Int32.toInt_add, Int32.toInt_ofInt_of_le (by omega) (by omega), hone]
    exact Int.bmod_eq_of_le (by omega) (by omega)
  have hlt : castInt ⌈L / t⌉ + 1 < 2 ↔ ⌈L / t⌉ + 1 < 2 := by
    rw [Int32.lt_iff_toInt_lt, hN, htwo]
  unfold nodesPerAxis
  dsimp only
  rw [if_pos ht]
  split_ifs with h
  · rw [htwo]
    have := hlt.mp h
    omega
  · rw [hN]
    have := hlt.not.mp h
    omega

theorem wide_of_spans [IsStrictOrderedRing K] {box : Box K}
    (h : ¬¬(box.hi.1 - box.lo.1 > 0 ∧ box.hi.2.1 - box.lo.2.1 > 0 ∧ box.hi.2.2 - box.lo.2.2 > 0)) :
    box.lo.1 < box.hi.1 ∧ box.lo.2.1 < box.hi.2.1 ∧ box.lo.2.2 < box.hi.2.2 := by
  obtain ⟨hx, hy, hz⟩ := not_not.mp h
  exact ⟨sub_pos.mp hx, sub_pos.mp hy, sub_pos.mp hz⟩

/-- The checks, and the grid. A geometry is given by its vertices. -/
def plan [IsStrictOrderedRing K] [FloorRing K] (outMesh : Bool) (geometry : Option (List (K × K × K)))
    (targetSize : Option K) : Except Refusal (Grid K) :=
  if ¬outMesh then .error ⟨"out_mesh is NULL"⟩
  else
    match geometry with
    | none => .error ⟨"grid mesher requires a Geometry input — wire it through mesher.tetra.grid:input.geometry = " ++
        "\x7bfrom: <reader_stage>\x7d"⟩
    | some vertices =>
      let bbox := boundingBox vertices
      if hwide : ¬(bbox.hi.1 - bbox.lo.1 > 0 ∧ bbox.hi.2.1 - bbox.lo.2.1 > 0 ∧ bbox.hi.2.2 - bbox.lo.2.2 > 0) then
        .error ⟨"grid mesher: geometry bounding box is degenerate (zero span on one or more axes)"⟩
      else
        let L := max (max (bbox.hi.1 - bbox.lo.1) (bbox.hi.2.1 - bbox.lo.2.1)) (bbox.hi.2.2 - bbox.lo.2.2)
        .ok ⟨bbox, nodesPerAxis targetSize L, two_le_nodesPerAxis _ _, wide_of_spans hwide⟩

section

variable [IsStrictOrderedRing K] [FloorRing K] {vertices : List (K × K × K)} {targetSize : Option K}

/-- The longest span of a box. -/
def Box.longest (box : Box K) : K :=
  max (max (box.hi.1 - box.lo.1) (box.hi.2.1 - box.lo.2.1)) (box.hi.2.2 - box.lo.2.2)

theorem plan_ok {outMesh : Bool} {geometry : Option (List (K × K × K))} {g : Grid K}
    (h : plan outMesh geometry targetSize = .ok g) : ∃ vertices, geometry = some vertices ∧
      g.box = boundingBox vertices ∧ g.nN = nodesPerAxis targetSize g.box.longest := by
  unfold plan at h
  split_ifs at h with hout
  cases geometry with
  | none => cases h
  | some vertices =>
    dsimp only at h
    split_ifs at h with hwide
    cases h
    exact ⟨vertices, rfl, rfl, rfl⟩

theorem exists_plan (hwide : (boundingBox vertices).hi.1 - (boundingBox vertices).lo.1 > 0 ∧
      (boundingBox vertices).hi.2.1 - (boundingBox vertices).lo.2.1 > 0 ∧
      (boundingBox vertices).hi.2.2 - (boundingBox vertices).lo.2.2 > 0) :
    ∃ g, plan true (some vertices) targetSize = .ok g ∧
      g.nN = nodesPerAxis targetSize (boundingBox vertices).longest := by
  have hout : ¬¬true = true := not_not.mpr rfl
  refine ⟨⟨boundingBox vertices, _, two_le_nodesPerAxis _ _, wide_of_spans (not_not.mpr hwide)⟩, ?_, rfl⟩
  unfold plan
  rw [if_neg hout]
  exact dif_neg (not_not.mpr hwide)

end

namespace Grid

variable (g : Grid K)

/-! ## Nodes and cells -/

def cellsPerAxis : ℕ := g.nN - 1

/-- The distances of the nodes. -/
def spacing : K × K × K :=
  ((g.box.hi.1 - g.box.lo.1) / g.cellsPerAxis, (g.box.hi.2.1 - g.box.lo.2.1) / g.cellsPerAxis,
    (g.box.hi.2.2 - g.box.lo.2.2) / g.cellsPerAxis)

/-- The position of the node `(i, j, k)`. -/
def position (p : ℕ × ℕ × ℕ) : K × K × K :=
  (g.box.lo.1 + g.spacing.1 * p.1, g.box.lo.2.1 + g.spacing.2.1 * p.2.1, g.box.lo.2.2 + g.spacing.2.2 * p.2.2)

/-- The nodes. What `add_node` returns is not looked at. -/
def addNodes (bits : K → UInt64) : MeshImpl :=
  (Lib.Grid.points g.nN g.nN g.nN).foldl
    (fun m p =>
      let q := g.position p
      (m.addNode (fun _ => true) (bits q.1, bits q.2.1, bits q.2.2)).2) {}

def nodeAt (i j k : ℕ) : UInt64 := UInt64.ofNat ((k * g.nN + j) * g.nN + i)

def cornerOffsets : List UInt64 :=
  [0, 1, UInt64.ofNat g.nN, UInt64.ofNat (g.nN + 1), UInt64.ofNat (g.nN * g.nN), UInt64.ofNat (g.nN * g.nN + 1),
    UInt64.ofNat (g.nN * g.nN + g.nN), UInt64.ofNat (g.nN * g.nN + g.nN + 1)]

/-- The nodes of a tetrahedron in the cube whose corner 0 is `base`. -/
def tetNodes (base : UInt64) (tet : List ℕ) : List UInt64 := tet.map fun c => base + g.cornerOffsets.getD c 0

/-- The tetrahedra of a cube. What `add_cell` returns is not looked at. -/
def meshCube (m : MeshImpl) (p : ℕ × ℕ × ℕ) : MeshImpl :=
  kHexToTets.foldl
    (fun m tet => (m.addCell (fun _ => true) .tet4 (g.tetNodes (g.nodeAt p.1 p.2.1 p.2.2) tet) untagged).2) m

def build (bits : K → UInt64) : MeshImpl :=
  (Lib.Grid.points g.cellsPerAxis g.cellsPerAxis g.cellsPerAxis).foldl g.meshCube (g.addNodes bits)

end Grid

def gridMesh [IsStrictOrderedRing K] [FloorRing K] (bits : K → UInt64) (outMesh : Bool)
    (geometry : Option (List (K × K × K))) (targetSize : Option K) : Except Refusal MeshImpl :=
  (plan outMesh geometry targetSize).map fun g => g.build bits

end

end Souxmar.Plugins.GridMesher
