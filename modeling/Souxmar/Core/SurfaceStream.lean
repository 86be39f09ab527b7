import Mathlib.Data.List.Sort
import Souxmar.Core.MeshRepresentation
import Souxmar.Lib.Circulation
import Souxmar.Lib.Dict

/-!
# The surface of a mesh

The face tables of `face_topology.cpp` and the part of `surface_stream.cpp` that finds the boundary faces,
numbers their nodes and cuts them into triangles. An array with a count of used slots is a list of the used
ones. Positions, normals and bounds are floating point and left out; no index depends on them.
-/

namespace Souxmar.Core

open Souxmar.Lib

/-! ## Face tables -/

structure LocalFace where
  vertexCount : ℕ
  cellLocalIdx : List ℕ

/-- The used slots. -/
def LocalFace.corners (lf : LocalFace) : List ℕ := lf.cellLocalIdx.take lf.vertexCount

def tet4Faces : List LocalFace :=
  [⟨3, [1, 2, 3, 0]⟩, ⟨3, [0, 3, 2, 0]⟩, ⟨3, [0, 1, 3, 0]⟩, ⟨3, [0, 2, 1, 0]⟩]

def hex8Faces : List LocalFace :=
  [⟨4, [0, 3, 2, 1]⟩, ⟨4, [4, 5, 6, 7]⟩, ⟨4, [0, 1, 5, 4]⟩, ⟨4, [3, 7, 6, 2]⟩, ⟨4, [0, 4, 7, 3]⟩,
    ⟨4, [1, 2, 6, 5]⟩]

def prism6Faces : List LocalFace :=
  [⟨3, [0, 2, 1, 0]⟩, ⟨3, [3, 4, 5, 0]⟩, ⟨4, [0, 1, 4, 3]⟩, ⟨4, [1, 2, 5, 4]⟩, ⟨4, [2, 0, 3, 5]⟩]

def pyramid5Faces : List LocalFace :=
  [⟨4, [0, 3, 2, 1]⟩, ⟨3, [0, 1, 4, 0]⟩, ⟨3, [1, 2, 4, 0]⟩, ⟨3, [2, 3, 4, 0]⟩, ⟨3, [3, 0, 4, 0]⟩]

def tri3Faces : List LocalFace := [⟨3, [0, 1, 2, 0]⟩]

def quad4Faces : List LocalFace := [⟨4, [0, 1, 2, 3]⟩]

def faceNodeTable : ElementType → List LocalFace
  | .tet4 => tet4Faces
  | .hex8 => hex8Faces
  | .prism6 => prism6Faces
  | .pyramid5 => pyramid5Faces
  | .tri3 => tri3Faces
  | .quad4 => quad4Faces
  | _ => []

/-! ## The boundary faces -/

/-- The nodes of a face, in the order of the table. A cell has a node for every index of its table. -/
def faceVerts (cell : Cell) (lf : LocalFace) : List ℕ := lf.corners.map fun i => cell.nodes.getD i 0

/-- `FaceKey`: the size and the sorted nodes. -/
def faceKey (verts : List ℕ) : List ℕ := verts.insertionSort (· ≤ ·)

structure FaceEntry where
  vertsOwner : List ℕ
  neighbour : ℤ := -1
deriving DecidableEq

abbrev FaceMap := Dict (List ℕ) FaceEntry

/-- The walk through an `unordered_map`, whose order the hash function decides. -/
structure WalkOrder where
  walk : FaceMap → List FaceEntry
  perm : ∀ m, (walk m).Perm (m.entries.map fun e => e.2)

def visitFace (c : ℕ) (faceMap : FaceMap) (verts : List ℕ) : FaceMap :=
  match faceMap.lookup (faceKey verts) with
  | none => faceMap.insert (faceKey verts) { vertsOwner := verts }
  | some e => faceMap.insert (faceKey verts) { e with neighbour := c }

structure Extraction where
  faceMap : FaceMap := ∅
  out : List (List ℕ) := []

def visitCell (c : ℕ) (cell : Cell) (x : Extraction) : Extraction :=
  if cell.type = .tri3 then
    if cell.nodes.length ≥ 3 then { x with out := x.out ++ [cell.nodes.take 3] } else x
  else if cell.type = .quad4 then
    if cell.nodes.length ≥ 4 then { x with out := x.out ++ [cell.nodes.take 4] } else x
  else { x with faceMap := ((faceNodeTable cell.type).map (faceVerts cell)).foldl (visitFace c) x.faceMap }

def visitCells : ℕ → List Cell → Extraction → Extraction
  | _, [], x => x
  | c, cell :: cells, x => visitCells (c + 1) cells (visitCell c cell x)

def extractBoundaryFaces (order : WalkOrder) (mesh : Mesh) : List (List ℕ) :=
  let x := visitCells 0 mesh.cells {}
  x.out ++ ((order.walk x.faceMap).filter fun fe => fe.neighbour < 0).map FaceEntry.vertsOwner

/-! ## The stream -/

structure SurfaceStream where
  indices : List UInt32 := []
  faceIds : List UInt32 := []
  vertexIds : List ℕ := []
deriving DecidableEq

structure CompactIds where
  nodeToCompact : Dict ℕ UInt32 := ∅
  vertexIds : List ℕ := []

/-- `try_emplace` with the next compact number, cut to 32 bits. -/
def addVertex (ids : CompactIds) (node : ℕ) : CompactIds :=
  if node ∈ ids.nodeToCompact then ids
  else
    { nodeToCompact := ids.nodeToCompact.insert node (UInt32.ofNat ids.vertexIds.length)
      vertexIds := ids.vertexIds ++ [node] }

def compactIds (boundary : List (List ℕ)) : CompactIds := boundary.flatten.foldl addVertex {}

/-- `node_to_compact.at`. -/
def CompactIds.at (ids : CompactIds) (node : ℕ) : Except Exception UInt32 :=
  match ids.nodeToCompact.lookup node with
  | some v => .ok v
  | none => .error .outOfRange

def SurfaceStream.emitTriangle (s : SurfaceStream) (a b c fid : UInt32) : SurfaceStream :=
  { s with indices := s.indices ++ [a, b, c], faceIds := s.faceIds ++ [fid] }

/-- A quadrilateral is cut along its first diagonal. -/
def emitFace (faceIdx : ℕ) (ci : List UInt32) (s : SurfaceStream) : SurfaceStream :=
  let fid := UInt32.ofNat (faceIdx + 1)
  match ci with
  | [a, b, c] => s.emitTriangle a b c fid
  | [a, b, c, d] => (s.emitTriangle a b c fid).emitTriangle a c d fid
  | _ => s

def emitFaces (ids : CompactIds) : ℕ → List (List ℕ) → SurfaceStream → Except Exception SurfaceStream
  | _, [], s => .ok s
  | faceIdx, bf :: boundary, s => do
    let ci ← bf.mapM ids.at
    emitFaces ids (faceIdx + 1) boundary (emitFace faceIdx ci s)

def SurfaceStream.build (order : WalkOrder) (mesh : Mesh) : Except Exception SurfaceStream :=
  let boundary := extractBoundaryFaces order mesh
  if boundary = [] then .ok {}
  else
    let ids := compactIds boundary
    emitFaces ids 0 boundary { vertexIds := ids.vertexIds }

/-! ## Reading the stream -/

/-- The mesh node of the `i`-th index. -/
def SurfaceStream.corner (s : SurfaceStream) (i : ℕ) : Option ℕ :=
  s.indices[i]?.bind fun v => s.vertexIds[v.toNat]?

def SurfaceStream.triangle (s : SurfaceStream) (t : ℕ) : List (Option ℕ) :=
  [s.corner (3 * t), s.corner (3 * t + 1), s.corner (3 * t + 2)]

def SurfaceStream.triangles (s : SurfaceStream) : List (List (Option ℕ)) :=
  (List.range s.faceIds.length).map s.triangle

/-- The triangle runs along the edge from `a` to `b`. -/
def Traverses (a b : ℕ) (triangle : List (Option ℕ)) : Prop := (some a, some b) ∈ sides triangle

instance (a b : ℕ) : DecidablePred (Traverses a b) := fun _ => inferInstanceAs (Decidable (_ ∈ _))

end Souxmar.Core
