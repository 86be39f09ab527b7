import Mathlib.Algebra.Field.Basic
import Mathlib.Algebra.Order.Floor.Defs
import Mathlib.Data.Rat.Cast.Defs
import Souxmar.Core.SurfaceStream
import Souxmar.Lib.Grid

/-!
# The layered mesher

`am_layered_mesh`: a grid of Hex8 cells over the extent box, the layer of a cell as its tag and tags on the faces of
the boundary. Extents and positions are exact, `bits` is the pattern of a double. All memory is found.
-/

namespace Souxmar.Am.LayeredMesher

open Souxmar.Core Souxmar.Lib

structure Position (K : Type*) where
  x : K
  y : K
  z : K

structure Box (K : Type*) where
  lo : Position K
  hi : Position K

/-- What is read of `souxmar_mesher_options_t`. -/
structure Options (K : Type*) where
  targetSize : K
  elementOrder : ℤ

inductive Refusal
  | invalidArgument
  | notImplemented
  | internal
  | addCell (e : Core.Exception)
  | setFaceTag (e : Core.Exception)

/-- The code and the message of the `souxmar_status_t`; those of a call are what `c_abi_mesh.cpp` makes of its
exception. -/
def Refusal.report : Refusal → ℕ × String
  | invalidArgument => (1, "mesher.am.layered: requested voxel count exceeds the 200000-cell cap — raise target_size " ++
      "or mesh a smaller extent")
  | notImplemented => (5, "mesher.am.layered emits linear Hex8 only — set element_order: 1 (quadratic voxel output is " ++
      "not implemented)")
  | internal => (4, "mesher.am.layered: extent box is degenerate (should be unreachable — both the geometry box and " ++
      "the demo box are validated above)")
  | addCell .invalidArgument => (1, "node count does not match element type")
  | addCell .outOfRange => (1, "node index references missing node")
  | setFaceTag .outOfRange => (3, "cell index out of range")
  | setFaceTag .invalidArgument => (1, "local face index exceeds cell's face count")
  | addCell .badAlloc | setFaceTag .badAlloc => (2, "out of memory")
  | addCell .lengthError | setFaceTag .lengthError => (4, "internal error")

def kMaxCells : ℤ := 200000

inductive Side
  | minusX
  | plusX
  | minusY
  | plusY
  | minusZ
  | plusZ
deriving DecidableEq

namespace Side

/-- `kTagMinusX` and its like. -/
def tag : Side → UInt32
  | minusX => 10
  | plusX => 11
  | minusY => 12
  | plusY => 13
  | minusZ => 14
  | plusZ => 15

/-- `kFaceMinusX` and its like. -/
def localFace : Side → UInt8
  | minusX => 4
  | plusX => 5
  | minusY => 2
  | plusY => 3
  | minusZ => 0
  | plusZ => 1

end Side

/-- A box and its numbers of cells. -/
structure Grid (K : Type*) [Field K] [LinearOrder K] where
  box : Box K
  nx : ℕ
  ny : ℕ
  nz : ℕ
  nx_pos : 0 < nx
  ny_pos : 0 < ny
  nz_pos : 0 < nz
  capped : nx * ny * nz ≤ 200000
  wide : box.lo.x < box.hi.x ∧ box.lo.y < box.hi.y ∧ box.lo.z < box.hi.z

section

variable {K : Type*} [Field K] [LinearOrder K]

/-! ## The grid -/

def kDefaultVoxelEdge : K := 0.005

def kMinVoxelEdge : K := 1e-5

def kMaxVoxelEdge : K := 1.0

def kDemoBox : Box K := ⟨⟨0, 0, 0⟩, ⟨0.06, 0.02, 0.02⟩⟩

def voxelEdge (options : Option (Options K)) : K :=
  let h := match options with
    | some o => if o.targetSize > 0 then o.targetSize else kDefaultVoxelEdge
    | none => kDefaultVoxelEdge
  if h < kMinVoxelEdge then kMinVoxelEdge else if kMaxVoxelEdge < h then kMaxVoxelEdge else h

/-- The bounding box of the geometry when it has one, and the demo box. -/
def extent (geometry : Option (Option (Box K))) : Box K :=
  match geometry with
  | some (some gbox) =>
    if gbox.hi.x > gbox.lo.x ∧ gbox.hi.y > gbox.lo.y ∧ gbox.hi.z > gbox.lo.z then gbox else kDemoBox
  | _ => kDemoBox

theorem wide_of_lengths [IsStrictOrderedRing K] {box : Box K}
    (h : ¬¬(box.hi.x - box.lo.x > 0 ∧ box.hi.y - box.lo.y > 0 ∧ box.hi.z - box.lo.z > 0)) :
    box.lo.x < box.hi.x ∧ box.lo.y < box.hi.y ∧ box.lo.z < box.hi.z := by
  obtain ⟨hx, hy, hz⟩ := not_not.mp h
  exact ⟨sub_pos.mp hx, sub_pos.mp hy, sub_pos.mp hz⟩

theorem toNat_pos (n : ℤ) : 0 < (max 1 n).toNat := by
  have hone := le_max_left 1 n
  omega

theorem capped_of_counts {x y z : ℤ} (h : ¬¬max 1 x * max 1 y * max 1 z ≤ kMaxCells) :
    (max 1 x).toNat * (max 1 y).toNat * (max 1 z).toNat ≤ 200000 := by
  have hx : ((max 1 x).toNat : ℤ) = max 1 x := Int.toNat_of_nonneg (by omega)
  have hy : ((max 1 y).toNat : ℤ) = max 1 y := Int.toNat_of_nonneg (by omega)
  have hz : ((max 1 z).toNat : ℤ) = max 1 z := Int.toNat_of_nonneg (by omega)
  have hcast : (((max 1 x).toNat * (max 1 y).toNat * (max 1 z).toNat : ℕ) : ℤ) ≤ 200000 := by
    rw [Nat.cast_mul, Nat.cast_mul, hx, hy, hz]
    exact not_not.mp h
  exact_mod_cast hcast

/-- The checks in front of the mesh, and the numbers of voxels. -/
def plan [IsStrictOrderedRing K] [FloorRing K] (geometry : Option (Option (Box K))) (options : Option (Options K)) :
    Except Refusal (Grid K) :=
  if options.any fun o => decide (o.elementOrder > 1) then .error .notImplemented
  else
    let h := voxelEdge options
    let box := extent geometry
    if hwide : ¬(box.hi.x - box.lo.x > 0 ∧ box.hi.y - box.lo.y > 0 ∧ box.hi.z - box.lo.z > 0) then .error .internal
    else if hcap : ¬max 1 ⌈(box.hi.x - box.lo.x) / h⌉ * max 1 ⌈(box.hi.y - box.lo.y) / h⌉ *
        max 1 ⌈(box.hi.z - box.lo.z) / h⌉ ≤ kMaxCells then .error .invalidArgument
    else
      .ok ⟨box, (max 1 ⌈(box.hi.x - box.lo.x) / h⌉).toNat, (max 1 ⌈(box.hi.y - box.lo.y) / h⌉).toNat,
        (max 1 ⌈(box.hi.z - box.lo.z) / h⌉).toNat, toNat_pos _, toNat_pos _, toNat_pos _, capped_of_counts hcap,
        wide_of_lengths hwide⟩

namespace Grid

variable (g : Grid K)

/-! ## Nodes and cells -/

/-- The position of the node `(i, j, k)`. -/
def position (p : ℕ × ℕ × ℕ) : Position K :=
  let dx := (g.box.hi.x - g.box.lo.x) / g.nx
  let dy := (g.box.hi.y - g.box.lo.y) / g.ny
  let dz := (g.box.hi.z - g.box.lo.z) / g.nz
  ⟨g.box.lo.x + dx * p.1, g.box.lo.y + dy * p.2.1, g.box.lo.z + dz * p.2.2⟩

/-- The nodes. What `add_node` returns is not looked at. -/
def addNodes (bits : K → UInt64) : MeshImpl :=
  (Lib.Grid.points (g.nx + 1) (g.ny + 1) (g.nz + 1)).foldl
    (fun m p =>
      let q := g.position p
      (m.addNode (fun _ => true) (bits q.x, bits q.y, bits q.z)).2) {}

def nodeAt (i j k : ℕ) : UInt64 := UInt64.ofNat ((k * (g.ny + 1) + j) * (g.nx + 1) + i)

def cellNodes (i j k : ℕ) : List UInt64 :=
  [g.nodeAt i j k, g.nodeAt (i + 1) j k, g.nodeAt (i + 1) (j + 1) k, g.nodeAt i (j + 1) k, g.nodeAt i j (k + 1),
    g.nodeAt (i + 1) j (k + 1), g.nodeAt (i + 1) (j + 1) (k + 1), g.nodeAt i (j + 1) (k + 1)]

/-- The sides of the box, and whether the cell is at them. -/
def sides (i j k : ℕ) : List (Bool × Side) :=
  [(decide (i = 0), .minusX), (decide (i + 1 = g.nx), .plusX), (decide (j = 0), .minusY),
    (decide (j + 1 = g.ny), .plusY), (decide (k = 0), .minusZ), (decide (k + 1 = g.nz), .plusZ)]

omit [LinearOrder K] in
def setSide (cell : UInt64) (m : MeshImpl) (s : Bool × Side) : Except Refusal MeshImpl :=
  if s.1 then
    match m.setFaceTag (fun _ => true) cell s.2.localFace s.2.tag with
    | (.error e, _) => .error (.setFaceTag e)
    | (.ok _, m) => .ok m
  else .ok m

def meshCell (m : MeshImpl) (p : ℕ × ℕ × ℕ) : Except Refusal MeshImpl :=
  match m.addCell (fun _ => true) .hex8 (g.cellNodes p.1 p.2.1 p.2.2) (UInt32.ofNat p.2.2) with
  | (.error e, _) => .error (.addCell e)
  | (.ok cell, m) => (g.sides p.1 p.2.1 p.2.2).foldlM (setSide cell) m

def build (bits : K → UInt64) : Except Refusal MeshImpl :=
  (Lib.Grid.points g.nx g.ny g.nz).foldlM g.meshCell (g.addNodes bits)

end Grid

def amLayeredMesh [IsStrictOrderedRing K] [FloorRing K] (bits : K → UInt64) (geometry : Option (Option (Box K)))
    (options : Option (Options K)) : Except Refusal MeshImpl :=
  match plan geometry options with
  | .error e => .error e
  | .ok g => g.build bits

end

end Souxmar.Am.LayeredMesher
