import Souxmar.Core.MeshImpl
import Souxmar.Lib.Intern
import Souxmar.Lib.Stream

/-!
# The OBJ reader

`obj_reader.cpp`: the parser of OBJ, and how a mesh is made of what it found. Vertices are referred to by numbers, from
the front or from the last vertex read back; a face of more than three vertices becomes a fan of triangles, and each
triangle is tagged with the material in use.
-/

namespace Souxmar.Plugins.Obj

open Souxmar.Lib Souxmar.Lib.Stream Souxmar.Core

inductive Failure
  /-- `SOUXMAR_E_IO`, with the message. -/
  | io (message : String)
  /-- `std::length_error` of a vector. -/
  | tooLong
deriving DecidableEq, Repr

/-- `max_size()` of a vector of doubles. -/
def maxDoubles : ℕ := 2 ^ 60 - 1

structure Parser where
  flatCoords : List UInt64 := []
  triNodes : List UInt64 := []
  triTags : List Int32 := []
  numFaces : ℕ := 0
  materialTag : Dict (List Char) Int32 := ∅
  currentTag : Int32 := -1

/-! ## Faces -/

/-- The part before the first slash. -/
def fieldHead (tok : List Char) : List Char := tok.takeWhile fun c => decide (c ≠ '/')

/-- 0 for what is no number. At most 63 characters are looked at. -/
def parseFaceField (tok : List Char) : Int64 :=
  let head := fieldHead tok
  if head.isEmpty then 0 else (strtoll (head.take 63)).getD 0

/-- The index from 0 of what is numbered from 1, or from the last one back, and -1 out of range. -/
def resolveIndex (objIdx : Int64) (numVerts : ℕ) : Int64 :=
  if objIdx > 0 then
    let zeroBased := objIdx - 1
    if zeroBased ≥ Int64.ofNat numVerts then -1 else zeroBased
  else if objIdx < 0 then
    let zeroBased := Int64.ofNat numVerts + objIdx
    if zeroBased < 0 then -1 else zeroBased
  else -1

/-- One reference of a face. -/
def pushIndex (numVerts : ℕ) (faceIndices : List Int64) (tok : List Char) : Except Failure (List Int64) :=
  let vObj := parseFaceField tok
  if vObj = 0 then .error (.io "face line has malformed vertex reference")
  else
    let zeroBased := resolveIndex vObj numVerts
    if zeroBased < 0 then
      .error (.io ("face references vertex " ++ toString vObj.toInt ++ " before it is defined"))
    else .ok (faceIndices ++ [zeroBased])

/-- The triangles around the first vertex: `for (i = 1; i + 1 < size; ++i)`. -/
def fanNodes (faceIndices : List Int64) : List UInt64 :=
  (List.range' 1 (faceIndices.length - 2)).flatMap fun i =>
    [(faceIndices.getD 0 0).toUInt64, (faceIndices.getD i 0).toUInt64, (faceIndices.getD (i + 1) 0).toUInt64]

/-! ## Lines -/

def stripCr (line : List Char) : List Char := if line.getLast? = some '\r' then line.dropLast else line

/-- The first token of a line and the rest, unless the line is empty or a comment. -/
def statement (line : List Char) : Option (List Char × List Char) :=
  let line := (stripCr line).dropWhile fun c => c = ' ' || c = '\t'
  if line.head? = some '#' then none else token line

/-- Lines with another keyword are passed over. -/
inductive Keyword
  | vertex
  | face
  | usemtl
deriving DecidableEq, Repr

def keywordOf (head : List Char) : Option Keyword :=
  if head = "v".toList then some .vertex
  else if head = "vn".toList ∨ head = "vt".toList ∨ head = "vp".toList then none
  else if head = "f".toList then some .face
  else if ieq head "usemtl".toList then some .usemtl
  else none

section

variable (readCoords : List Char → Option (UInt64 × UInt64 × UInt64))

def Parser.addFace (s : Parser) (faceIndices : List Int64) : Parser :=
  { s with
    triNodes := s.triNodes ++ fanNodes faceIndices
    triTags := s.triTags ++ List.replicate (faceIndices.length - 2) s.currentTag
    numFaces := s.numFaces + 1 }

/-- Materials are tagged 1, 2, 3, … in the order in which they come up. -/
def Parser.useMaterial (s : Parser) (name : List Char) : Parser :=
  match s.materialTag.lookup name with
  | none =>
    let nextTag := Int32.ofNat (s.materialTag.entries.length + 1)
    { s with materialTag := s.materialTag.emplace name nextTag, currentTag := nextTag }
  | some tag => { s with currentTag := tag }

/-- One line. `readCoords` is `iss >> x >> y >> z` on the rest of a line, with the bit patterns of the coordinates. -/
def parseLine (s : Parser) (line : List Char) : Except Failure Parser :=
  match statement line with
  | none => .ok s
  | some (head, iss) =>
    match keywordOf head with
    | some .vertex =>
      match readCoords iss with
      | none => .error (.io "vertex line missing x y z")
      | some p =>
        if s.flatCoords.length + 3 > maxDoubles then .error .tooLong
        else .ok { s with flatCoords := s.flatCoords ++ [p.1, p.2.1, p.2.2] }
    | some .face => do
      let faceIndices ← (tokens iss).foldlM (pushIndex (s.flatCoords.length / 3)) []
      if faceIndices.length < 3 then .error (.io "face has fewer than 3 vertices") else .ok (s.addFace faceIndices)
    | some .usemtl =>
      match token iss with
      | none => .ok { s with currentTag := -1 }
      | some (name, _) => .ok (s.useMaterial name)
    | none => .ok s

def parseObj (text : List Char) : Except Failure Parser := do
  let s ← (getLines text).foldlM (parseLine readCoords) {}
  if s.flatCoords.isEmpty then .error (.io "OBJ file contained no `v` (vertex) lines")
  else if s.numFaces = 0 then .error (.io "OBJ file contained no `f` (face) lines")
  else if s.triNodes.isEmpty then .error (.io "OBJ triangulation produced zero cells")
  else .ok s

end

/-! ## The mesh -/

/-- The memory is there. -/
def addNodeAt (s : Parser) (mesh : MeshImpl) (i : ℕ) : MeshImpl :=
  (mesh.addNode (fun _ => true)
    (s.flatCoords.getD (i * 3) 0, s.flatCoords.getD (i * 3 + 1) 0, s.flatCoords.getD (i * 3 + 2) 0)).2

/-- The call of `add_cell` for a triangle. -/
def addTriangle (s : Parser) (mesh : MeshImpl) (i : ℕ) : Except Exception UInt64 × MeshImpl :=
  mesh.addCell (fun _ => true) .tri3
    [s.triNodes.getD (i * 3) 0, s.triNodes.getD (i * 3 + 1) 0, s.triNodes.getD (i * 3 + 2) 0]
    (s.triTags.getD i 0).toUInt32

/-- The mesh so far, and what the calls of `add_cell` answered. -/
def addCellAt (s : Parser) (state : MeshImpl × List (Except Exception UInt64)) (i : ℕ) :
    MeshImpl × List (Except Exception UInt64) :=
  let (answer, mesh) := addTriangle s state.1 i
  (mesh, state.2 ++ [answer])

def addNodes (s : Parser) : MeshImpl := (List.range (s.flatCoords.length / 3)).foldl (addNodeAt s) {}

/-- The loops of `obj_read`. -/
def objRead (s : Parser) : MeshImpl × List (Except Exception UInt64) :=
  (List.range (s.triNodes.length / 3)).foldl (addCellAt s) (addNodes s, [])

end Souxmar.Plugins.Obj
