import Mathlib.Data.Prod.Lex
import Souxmar.Core.SurfaceStream
import Souxmar.Lib.Sorter

/-!
# The mesh translator of the OpenFOAM plugin

`write_polymesh_from_mesh` of `openfoam_solver.cpp`. A file is the list of its records: the points, the faces, the
labels of `owner` and `neighbour`, the lines of `boundary`. The order of the hash maps and of elements that
compare equal when they are sorted is a parameter (`Choices`).
-/

namespace Souxmar.OpenFoam

open Souxmar.Core Souxmar.Lib

/-! ## Inputs -/

/-- `SOUXMAR_FACE_UNTAGGED`. -/
def faceUntagged : ℤ := -1

/-- A mesh with the tags of its cells' faces. -/
structure TaggedMesh extends Mesh where
  faceTag : ℕ → ℕ → ℤ

/-- A boundary condition, as far as the mesh depends on it. -/
structure ParsedBC where
  tagId : Option ℤ := none
  tagName : String := ""
  bcType : String := ""
deriving DecidableEq

/-! ## Face tables -/

def kTet4Faces : List LocalFace :=
  [⟨3, [1, 2, 3, 0]⟩, ⟨3, [0, 3, 2, 0]⟩, ⟨3, [0, 1, 3, 0]⟩, ⟨3, [0, 2, 1, 0]⟩]

def kHex8Faces : List LocalFace :=
  [⟨4, [0, 3, 2, 1]⟩, ⟨4, [4, 5, 6, 7]⟩, ⟨4, [0, 1, 5, 4]⟩, ⟨4, [3, 7, 6, 2]⟩, ⟨4, [0, 4, 7, 3]⟩,
    ⟨4, [1, 2, 6, 5]⟩]

def kPrism6Faces : List LocalFace :=
  [⟨3, [0, 2, 1, 0]⟩, ⟨3, [3, 4, 5, 0]⟩, ⟨4, [0, 1, 4, 3]⟩, ⟨4, [1, 2, 5, 4]⟩, ⟨4, [2, 0, 3, 5]⟩]

def kPyramid5Faces : List LocalFace :=
  [⟨4, [0, 3, 2, 1]⟩, ⟨3, [0, 1, 4, 0]⟩, ⟨3, [1, 2, 4, 0]⟩, ⟨3, [2, 3, 4, 0]⟩, ⟨3, [3, 0, 4, 0]⟩]

/-- Other types have no table. -/
def faceTableFor : ElementType → Option (List LocalFace)
  | .tet4 => some kTet4Faces
  | .hex8 => some kHex8Faces
  | .prism6 => some kPrism6Faces
  | .pyramid5 => some kPyramid5Faces
  | _ => none

/-! ## The faces of the mesh -/

structure FaceEntry where
  vertsOwner : List ℕ
  owner : ℤ := -1
  neighbour : ℤ := -1
  ownerLocalFace : ℕ := 0
deriving DecidableEq

/-- By the size and the sorted nodes of a face. -/
abbrev FaceMap := Dict (List ℕ) FaceEntry

/-- A face of a cell with its local index. -/
def visitFace (c : ℕ) (faceMap : FaceMap) (f : List ℕ × ℕ) : FaceMap :=
  match faceMap.lookup (faceKey f.1) with
  | none => faceMap.insert (faceKey f.1) { vertsOwner := f.1, owner := c, ownerLocalFace := f.2 }
  | some e =>
    faceMap.insert (faceKey f.1) <|
      if e.owner > c then { vertsOwner := f.1, owner := c, neighbour := e.owner, ownerLocalFace := f.2 }
      else { e with neighbour := c }

/-- The faces of a cell, with their local indices. -/
def facesOf (cell : Cell) : List (List ℕ × ℕ) :=
  (((faceTableFor cell.type).getD []).map (faceVerts cell)).zipIdx

def visitCells : ℕ → List Cell → FaceMap → FaceMap
  | _, [], m => m
  | c, cell :: cells, m => visitCells (c + 1) cells ((facesOf cell).foldl (visitFace c) m)

/-! ## Patches -/

/-- The bytes of a character that is not allowed become an underscore each. -/
def sanitiseChar (c : Char) : List Char :=
  if c.isAlphanum || c = '_' then [c] else List.replicate c.utf8Size '_'

/-- Empty when the name does not start with a letter. -/
def sanitisePatchName (name : String) : String :=
  let out := name.toList.flatMap sanitiseChar
  if out.head?.any Char.isAlpha then String.ofList out else ""

def openfoamTypeForBc (t : String) : String :=
  if t = "wall" then "wall"
  else if t = "inlet" || t = "outlet" then "patch"
  else "wall"

structure BoundaryPatch where
  name : String
  openfoamType : String
  souxmarBcType : String
  bc : Option ParsedBC
  faceLocalIdx : List ℕ
deriving DecidableEq

/-- The faces of each tag, and the untagged ones. -/
structure Grouped where
  facesByTag : Dict ℤ (List ℕ) := ∅
  untaggedFaces : List ℕ := []

def groupFace (g : Grouped) (face : ℤ × ℕ) : Grouped :=
  if face.1 = faceUntagged then { g with untaggedFaces := g.untaggedFaces ++ [face.2] }
  else { g with
    facesByTag := g.facesByTag.insert face.1 ((g.facesByTag.lookup face.1).getD [] ++ [face.2]) }

/-- The name of the patch of a boundary condition whose tag has this number. -/
def patchName (bc : ParsedBC) (tag : ℤ) : String :=
  let preferred := sanitisePatchName bc.tagName
  if preferred = "" then (if bc.bcType = "" then "tag" else bc.bcType) ++ "_" ++ toString tag else preferred

structure Patches where
  patches : List BoundaryPatch := []
  tagToPatch : Dict ℤ ℕ := ∅

/-- One boundary condition: a patch of its own, unless it has no faces or its tag has a patch. -/
def addBcPatch (facesByTag : Dict ℤ (List ℕ)) (st : Patches) (bc : ParsedBC) : Patches :=
  match bc.tagId with
  | none => st
  | some tag =>
    match facesByTag.lookup tag with
    | none => st
    | some faces =>
      if tag ∈ st.tagToPatch then st
      else
        { patches := st.patches ++
            [⟨patchName bc tag, openfoamTypeForBc bc.bcType, bc.bcType, some bc, faces⟩]
          tagToPatch := st.tagToPatch.insert tag st.patches.length }

def tagPatch (facesByTag : Dict ℤ (List ℕ)) (tag : ℤ) : BoundaryPatch :=
  ⟨"tag_" ++ toString tag, "wall", "", none, (facesByTag.lookup tag).getD []⟩

def wallsPatch (untaggedFaces : List ℕ) : BoundaryPatch := ⟨"walls", "wall", "wall", none, untaggedFaces⟩

/-! ## Choices -/

/-- Internal faces are sorted by owner and neighbour. -/
def internalLt (a b : FaceEntry) : Prop := a.owner < b.owner ∨ a.owner = b.owner ∧ a.neighbour < b.neighbour

/-- Boundary faces are sorted by owner. -/
def boundaryLt (a b : FaceEntry) : Prop := a.owner < b.owner

/-- What the standard library decides: the order of the two hash maps, and of faces that compare equal. -/
structure Choices where
  walk : FaceMap → List FaceEntry
  walk_perm : ∀ m, (walk m).Perm (m.entries.map fun e => e.2)
  tags : Dict ℤ (List ℕ) → List ℤ
  tags_perm : ∀ m, (tags m).Perm m.keys
  internal : Sorter internalLt
  boundary : Sorter boundaryLt

/-- Maps in the order of their entries, and sorts by insertion. -/
def plainChoices : Choices where
  walk m := m.entries.map fun e => e.2
  walk_perm _ := List.Perm.refl _
  tags m := m.keys
  tags_perm _ := List.Perm.refl _
  internal := .byKey (fun fe => toLex (fe.owner, fe.neighbour)) fun a b =>
    (Prod.Lex.toLex_lt_toLex (x := (a.owner, a.neighbour)) (y := (b.owner, b.neighbour))).symm
  boundary := .byKey FaceEntry.owner fun _ _ => Iff.rfl

/-! ## The files -/

structure BoundaryLine where
  name : String
  type : String
  nFaces : ℕ
  startFace : ℕ
deriving DecidableEq

structure PolyMesh where
  points : List (UInt64 × UInt64 × UInt64)
  faces : List (List ℕ)
  owner : List ℤ
  neighbour : List ℤ
  boundary : List BoundaryLine
  patches : List BoundaryPatch
deriving DecidableEq

/-- The lines of `boundary`, from a running start. -/
def boundaryLines : ℕ → List BoundaryPatch → List BoundaryLine
  | _, [] => []
  | start, p :: patches =>
    ⟨p.name, p.openfoamType, p.faceLocalIdx.length, start⟩ :: boundaryLines (start + p.faceLocalIdx.length) patches

/-- The patches of grouped faces: of boundary conditions in their order, of the other tags by number, of the untagged
faces. Equal numbers cannot be told apart, so that any sort of them is this one. -/
def buildPatches (choices : Choices) (g : Grouped) (bcs : List ParsedBC) : List BoundaryPatch :=
  let st := bcs.foldl (addBcPatch g.facesByTag) {}
  let unmatched := ((choices.tags g.facesByTag).filter fun tag => tag ∉ st.tagToPatch).insertionSort (· ≤ ·)
  st.patches ++ unmatched.map (tagPatch g.facesByTag) ++
    if g.untaggedFaces = [] then [] else [wallsPatch g.untaggedFaces]

inductive Status
  | noNodesOrCells
  | unsupportedType (cell : ℕ) (type : ElementType)
deriving DecidableEq

/-- `SOUXMAR_ET_VERTEX` and its like. -/
def elementCode : ElementType → ℕ
  | .unknown => 0
  | .vertex => 1
  | .edge2 => 2
  | .edge3 => 3
  | .tri3 => 4
  | .tri6 => 5
  | .quad4 => 6
  | .quad8 => 7
  | .quad9 => 8
  | .tet4 => 9
  | .tet10 => 10
  | .hex8 => 11
  | .hex20 => 12
  | .hex27 => 13
  | .prism6 => 14
  | .prism15 => 15
  | .pyramid5 => 16
  | .pyramid13 => 17

example (type : ElementType) : ElementType.ofCode (elementCode type) = type := by
  cases type <;> rfl

/-- The message of the `souxmar_status_t`, always with `SOUXMAR_E_INVALID_ARGUMENT`. -/
def Status.message : Status → String
  | noNodesOrCells => "openfoam-solver: mesh has zero nodes or zero cells"
  | unsupportedType cell type => "openfoam-solver: cell #" ++ toString cell ++ " has unsupported element type " ++
      toString (elementCode type) ++ "; v1 translator handles Tet4 / Hex8 / Prism6 / Pyramid5 only (linear 3D " ++
      "elements). Higher-order variants (Tet10, Hex20, Hex27, Prism15, Pyramid13) are deferred to a future minor."

/-- The first cell without a face table. -/
def unsupported : ℕ → List Cell → Option (ℕ × ElementType)
  | _, [] => none
  | c, cell :: cells => if (faceTableFor cell.type).isNone then some (c, cell.type) else unsupported (c + 1) cells

def writePolymeshFromMesh (choices : Choices) (mesh : TaggedMesh) (bcs : List ParsedBC) : Except Status PolyMesh :=
  if mesh.nodes = [] || mesh.cells = [] then .error .noNodesOrCells
  else
    match unsupported 0 mesh.cells with
    | some (c, type) => .error (.unsupportedType c type)
    | none =>
      let all := choices.walk (visitCells 0 mesh.cells ∅)
      let internalFaces := choices.internal.sort (all.filter fun fe => fe.neighbour ≥ 0)
      let boundaryFaces := choices.boundary.sort (all.filter fun fe => fe.neighbour < 0)
      let tagOf (fe : FaceEntry) : ℤ := mesh.faceTag fe.owner.toNat fe.ownerLocalFace
      let grouped := (boundaryFaces.map tagOf).zipIdx.foldl groupFace {}
      let patches := buildPatches choices grouped bcs
      let reordered := (patches.flatMap fun p => p.faceLocalIdx).filterMap fun i => boundaryFaces[i]?
      let faces := internalFaces ++ reordered
      .ok
        { points := mesh.nodes
          faces := faces.map FaceEntry.vertsOwner
          owner := faces.map FaceEntry.owner
          neighbour := internalFaces.map FaceEntry.neighbour
          boundary := boundaryLines internalFaces.length patches
          patches }

end Souxmar.OpenFoam
