import Souxmar.Core.SurfaceStream
import Souxmar.Lib.Double

/-!
# The boundary extractors of the additive-manufacturing plugins

`extract_boundary` of `slicer.cpp` and `build_mesh_geometry` of `boundary_faces.cpp`, each with its own face tables
and its own face keys. Projections, areas, normals and volumes are floating point and left out; a triangle is
given by its nodes.
-/

namespace Souxmar.Am

open Souxmar.Core Souxmar.Lib

inductive StatusCode
  | invalidArgument
  | internal
deriving DecidableEq

structure Status where
  code : StatusCode
  message : String
deriving DecidableEq

/-- `UINT64_MAX`, in the slots of a key that no node fills. -/
def unusedSlot : ℕ := 2 ^ 64 - 1

/-- The widest element has this many nodes. -/
def kMaxCellNodes : ℕ := 27

/-! ## The slicer -/

namespace Slicer

def kTet4Faces : List LocalFace :=
  [⟨3, [1, 2, 3, 0]⟩, ⟨3, [0, 3, 2, 0]⟩, ⟨3, [0, 1, 3, 0]⟩, ⟨3, [0, 2, 1, 0]⟩]

def kHex8Faces : List LocalFace :=
  [⟨4, [0, 3, 2, 1]⟩, ⟨4, [4, 5, 6, 7]⟩, ⟨4, [0, 1, 5, 4]⟩, ⟨4, [3, 7, 6, 2]⟩, ⟨4, [0, 4, 7, 3]⟩,
    ⟨4, [1, 2, 6, 5]⟩]

def kPrism6Faces : List LocalFace :=
  [⟨3, [0, 2, 1, 0]⟩, ⟨3, [3, 4, 5, 0]⟩, ⟨4, [0, 1, 4, 3]⟩, ⟨4, [1, 2, 5, 4]⟩, ⟨4, [2, 0, 3, 5]⟩]

def kPyramid5Faces : List LocalFace :=
  [⟨4, [0, 3, 2, 1]⟩, ⟨3, [0, 1, 4, 0]⟩, ⟨3, [1, 2, 4, 0]⟩, ⟨3, [2, 3, 4, 0]⟩, ⟨3, [3, 0, 4, 0]⟩]

def kTri3Faces : List LocalFace := [⟨3, [0, 1, 2, 0]⟩]

def kQuad4Faces : List LocalFace := [⟨4, [0, 1, 2, 3]⟩]

structure ElemTopo where
  corners : ℕ := 0
  faces : List LocalFace := []
  volume : Bool := false
  shell : Bool := false

/-- A quadratic element is its linear corners. -/
def topoFor : ElementType → ElemTopo
  | .tet4 | .tet10 => ⟨4, kTet4Faces, true, false⟩
  | .hex8 | .hex20 | .hex27 => ⟨8, kHex8Faces, true, false⟩
  | .prism6 | .prism15 => ⟨6, kPrism6Faces, true, false⟩
  | .pyramid5 | .pyramid13 => ⟨5, kPyramid5Faces, true, false⟩
  | .tri3 | .tri6 => ⟨3, kTri3Faces, false, true⟩
  | .quad4 | .quad8 | .quad9 => ⟨4, kQuad4Faces, false, true⟩
  | _ => {}

def nodesOf (cn : List ℕ) (f : LocalFace) : List ℕ := f.corners.map fun i => cn.getD i 0

/-- `face_key`: the used slots are sorted. -/
def faceKey (verts : List ℕ) : List ℕ :=
  verts.insertionSort (· ≤ ·) ++ List.replicate (4 - verts.length) unusedSlot

inductive Manifold
  | unknown
  | closed
  | opened

/-- What is extracted. `facets` are the faces that were handed to `emit_face`. -/
structure BoundaryMesh where
  facets : List (List ℕ) := []
  triangles : List (List ℕ) := []
  fromShell : Bool := false
  quadsSplit : ℕ := 0
  interiorFaces : ℕ := 0
  unsupportedCells : ℕ := 0
  manifold : Manifold := .unknown

/-- A quadrilateral is cut along its first diagonal. -/
def emitFace (verts : List ℕ) (bm : BoundaryMesh) : BoundaryMesh :=
  match verts with
  | [a, b, c] => { bm with facets := bm.facets ++ [verts], triangles := bm.triangles ++ [[a, b, c]] }
  | [a, b, c, d] =>
    { bm with
      facets := bm.facets ++ [verts]
      triangles := bm.triangles ++ [[a, b, c], [a, c, d]]
      quadsSplit := bm.quadsSplit + 1 }
  | _ => bm

/-- The nodes of a cell; none if the cell is to be skipped. -/
def loadCell (numNodes : ℕ) (cell : Cell) (topo : ElemTopo) : Except Status (Option (List ℕ)) :=
  if cell.nodes.length < topo.corners || cell.nodes.length > kMaxCellNodes then .ok none
  else if (cell.nodes.take topo.corners).any fun n => n ≥ numNodes then
    .error ⟨.internal, "cell references out-of-range node id"⟩
  else .ok (some cell.nodes)

/-- `++count[k]`, in 32 bits. -/
def increment (count : Dict (List ℕ) UInt32) (k : List ℕ) : Dict (List ℕ) UInt32 :=
  count.insert k ((count.lookup k).getD 0 + 1)

/-- One cell of the first pass. -/
def countCell (numNodes : ℕ) (faceCount : Dict (List ℕ) UInt32) (cell : Cell) :
    Except Status (Dict (List ℕ) UInt32) := do
  let topo := topoFor cell.type
  if !topo.volume then return faceCount
  match ← loadCell numNodes cell topo with
  | none => return faceCount
  | some cn => return (topo.faces.map fun f => faceKey (nodesOf cn f)).foldl increment faceCount

def emitIfOnce (faceCount : Dict (List ℕ) UInt32) (bm : BoundaryMesh) (verts : List ℕ) : BoundaryMesh :=
  if faceCount.lookup (faceKey verts) = some 1 then emitFace verts bm else bm

/-- One cell of the second pass. -/
def emitCell (numNodes : ℕ) (faceCount : Dict (List ℕ) UInt32) (bm : BoundaryMesh) (cell : Cell) :
    Except Status BoundaryMesh := do
  let topo := topoFor cell.type
  if !topo.volume then return { bm with unsupportedCells := bm.unsupportedCells + 1 }
  match ← loadCell numNodes cell topo with
  | none => return { bm with unsupportedCells := bm.unsupportedCells + 1 }
  | some cn => return (topo.faces.map (nodesOf cn)).foldl (emitIfOnce faceCount) bm

def kMaxShellAuditFacets : ℕ := 500000

structure ShellAudit where
  bm : BoundaryMesh
  edgeCount : Dict (List ℕ) UInt32 := ∅
  audit : Bool := true

/-- The edges of a facet, the smaller node first. -/
def edgesOf (verts : List ℕ) : List (List ℕ) := (sides verts).map fun e => [min e.1 e.2, max e.1 e.2]

/-- One cell of a shell. -/
def shellCell (numNodes : ℕ) (st : ShellAudit) (cell : Cell) : Except Status ShellAudit := do
  let topo := topoFor cell.type
  let skipped := { st with bm := { st.bm with unsupportedCells := st.bm.unsupportedCells + 1 } }
  if !topo.shell then return skipped
  match ← loadCell numNodes cell topo with
  | none => return skipped
  | some cn =>
    let verts := (topo.faces.map (nodesOf cn)).headD []
    let bm := emitFace verts st.bm
    let audit := st.audit && bm.triangles.length ≤ kMaxShellAuditFacets
    return { bm, edgeCount := if audit then (edgesOf verts).foldl increment st.edgeCount else st.edgeCount, audit }

def finitePoint (p : UInt64 × UInt64 × UInt64) : Prop :=
  Double.Finite p.1 ∧ Double.Finite p.2.1 ∧ Double.Finite p.2.2

instance : DecidablePred finitePoint := fun _ => inferInstanceAs (Decidable (_ ∧ _ ∧ _))

/-- The mesh of solid cells: faces that are counted once. -/
def extractVolume (mesh : Mesh) : Except Status BoundaryMesh := do
  let faceCount ← mesh.cells.foldlM (countCell mesh.nodes.length) ∅
  let interior := (faceCount.entries.filter fun e => e.2 > 1).length
  let bm ← mesh.cells.foldlM (emitCell mesh.nodes.length faceCount) { interiorFaces := interior }
  return { bm with manifold := if bm.triangles = [] then .unknown else .closed }

def extractShell (mesh : Mesh) : Except Status BoundaryMesh := do
  let st ← mesh.cells.foldlM (shellCell mesh.nodes.length) { bm := { fromShell := true } }
  let manifold : Manifold :=
    if !st.audit || st.bm.triangles = [] then .unknown
    else if st.edgeCount.entries.all fun e => e.2 = 2 then .closed
    else .opened
  return { st.bm with manifold }

def extractBoundary (mesh : Mesh) : Except Status BoundaryMesh :=
  if mesh.nodes = [] then .error ⟨.invalidArgument, "mesh has no nodes"⟩
  else if ∃ p ∈ mesh.nodes, ¬finitePoint p then
    .error ⟨.invalidArgument, "mesh has a non-finite node coordinate"⟩
  else if mesh.cells.any fun cell => (topoFor cell.type).volume then extractVolume mesh
  else extractShell mesh

end Slicer

/-! ## The manufacturability checker -/

namespace Manufacturability

def kTet4Faces : List LocalFace :=
  [⟨3, [1, 2, 3, 0]⟩, ⟨3, [0, 3, 2, 0]⟩, ⟨3, [0, 1, 3, 0]⟩, ⟨3, [0, 2, 1, 0]⟩]

def kHex8Faces : List LocalFace :=
  [⟨4, [0, 3, 2, 1]⟩, ⟨4, [4, 5, 6, 7]⟩, ⟨4, [0, 1, 5, 4]⟩, ⟨4, [3, 7, 6, 2]⟩, ⟨4, [0, 4, 7, 3]⟩,
    ⟨4, [1, 2, 6, 5]⟩]

def kPrism6Faces : List LocalFace :=
  [⟨3, [0, 2, 1, 0]⟩, ⟨3, [3, 4, 5, 0]⟩, ⟨4, [0, 1, 4, 3]⟩, ⟨4, [1, 2, 5, 4]⟩, ⟨4, [2, 0, 3, 5]⟩]

def kPyramid5Faces : List LocalFace :=
  [⟨4, [0, 3, 2, 1]⟩, ⟨3, [0, 1, 4, 0]⟩, ⟨3, [1, 2, 4, 0]⟩, ⟨3, [2, 3, 4, 0]⟩, ⟨3, [3, 0, 4, 0]⟩]

def kTri3Faces : List LocalFace := [⟨3, [0, 1, 2, 0]⟩]

def kQuad4Faces : List LocalFace := [⟨4, [0, 1, 2, 3]⟩]

structure LocalFaceTable where
  faces : List LocalFace := []
  cornerNodeCount : ℕ := 0
  isSurfaceElement : Bool := false

def localFaceTable : ElementType → LocalFaceTable
  | .tet4 | .tet10 => ⟨kTet4Faces, 4, false⟩
  | .hex8 | .hex20 | .hex27 => ⟨kHex8Faces, 8, false⟩
  | .prism6 | .prism15 => ⟨kPrism6Faces, 6, false⟩
  | .pyramid5 | .pyramid13 => ⟨kPyramid5Faces, 5, false⟩
  | .tri3 | .tri6 => ⟨kTri3Faces, 3, true⟩
  | .quad4 | .quad8 | .quad9 => ⟨kQuad4Faces, 4, true⟩
  | _ => {}

/-- The key of a face: all four slots are sorted. -/
def faceKey (verts : List ℕ) : List ℕ :=
  (verts ++ List.replicate (4 - verts.length) unusedSlot).insertionSort (· ≤ ·)

structure BoundaryFace where
  cell : ℕ
  localFace : ℕ
deriving DecidableEq

structure CandidateFace where
  key : List ℕ
  face : BoundaryFace

structure MeshGeometry where
  numNodes : ℕ
  numCells : ℕ
  boundaryFaces : List BoundaryFace := []
  numVolumeCells : ℕ := 0
  numSurfaceCells : ℕ := 0
  numUnsupportedCells : ℕ := 0

/-- The candidates so far, and for each key its first candidate and how many have it. -/
structure Collected where
  candidates : List CandidateFace := []
  faceIndex : Dict (List ℕ) (ℕ × ℕ) := ∅
  geometry : MeshGeometry

def addCandidate (x : Collected) (cf : CandidateFace) : Collected :=
  { x with
    candidates := x.candidates ++ [cf]
    faceIndex := match x.faceIndex.lookup cf.key with
      | none => x.faceIndex.insert cf.key (x.candidates.length, 1)
      | some e => x.faceIndex.insert cf.key (e.1, e.2 + 1) }

/-- The faces of a cell, with their keys. -/
def candidatesOf (c : ℕ) (cell : Cell) (table : LocalFaceTable) : List CandidateFace :=
  table.faces.zipIdx.map fun f => ⟨faceKey (f.1.corners.map fun i => cell.nodes.getD i 0), ⟨c, f.2⟩⟩

def visitCell (numNodes c : ℕ) (cell : Cell) (x : Collected) : Except Status Collected :=
  let table := localFaceTable cell.type
  if cell.nodes = [] || cell.nodes.length > kMaxCellNodes || table.faces.isEmpty ||
      table.cornerNodeCount > cell.nodes.length then
    .ok { x with geometry.numUnsupportedCells := x.geometry.numUnsupportedCells + 1 }
  else if (cell.nodes.take table.cornerNodeCount).any fun n => n ≥ numNodes then
    .error ⟨.internal, "cell references out-of-range node id"⟩
  else
    let x := if table.isSurfaceElement then
        { x with geometry.numSurfaceCells := x.geometry.numSurfaceCells + 1 }
      else { x with geometry.numVolumeCells := x.geometry.numVolumeCells + 1 }
    .ok ((candidatesOf c cell table).foldl addCandidate x)

def visitCells (numNodes : ℕ) : ℕ → List Cell → Collected → Except Status Collected
  | _, [], x => .ok x
  | c, cell :: cells, x => do
    let x ← visitCell numNodes c cell x
    visitCells numNodes (c + 1) cells x

/-- A candidate whose key one cell has. -/
def claimedOnce (faceIndex : Dict (List ℕ) (ℕ × ℕ)) (cf : CandidateFace) : Bool :=
  (faceIndex.lookup cf.key).any fun e => e.2 = 1

def buildMeshGeometry (mesh : Mesh) : Except Status MeshGeometry :=
  if mesh.nodes = [] then .error ⟨.invalidArgument, "mesh has no nodes"⟩
  else if mesh.cells = [] then .error ⟨.invalidArgument, "mesh has no cells"⟩
  else do
    let x ← visitCells mesh.nodes.length 0 mesh.cells
      { geometry := { numNodes := mesh.nodes.length, numCells := mesh.cells.length } }
    return { x.geometry with
      boundaryFaces := (x.candidates.filter (claimedOnce x.faceIndex)).map CandidateFace.face }

/-- The nodes of a boundary face. -/
def BoundaryFace.nodes (mesh : Mesh) (bf : BoundaryFace) : List ℕ :=
  match mesh.cells[bf.cell]? with
  | none => []
  | some cell =>
    match (localFaceTable cell.type).faces[bf.localFace]? with
    | none => []
    | some lf => lf.corners.map fun i => cell.nodes.getD i 0

/-- The nodes of the faces that the checker takes for the boundary. -/
def MeshGeometry.faces (mesh : Mesh) (g : MeshGeometry) : List (List ℕ) :=
  g.boundaryFaces.map (BoundaryFace.nodes mesh)

end Manufacturability

end Souxmar.Am
