import Souxmar.Core.MeshRepresentation
import Souxmar.Lib.Ragged
import Souxmar.Lib.Stream
import Souxmar.Lib.XmlText
import Souxmar.Pipeline.Value

/-!
# The VTU writer

`vtu_writer.cpp`: the mesh and a field as the XML of an unstructured grid. The text is put together in memory, and goes
to the file in one write. Below it is what such a file has to say.
-/

namespace Souxmar.Plugins.Vtu

open Souxmar.Core Souxmar.Pipeline Souxmar.Lib

/-! ## Fields -/

inductive FieldLocation
  | nodal
  | cell
  | face
  | gaussPoint
deriving DecidableEq, Repr

inductive FieldKind
  | scalar
  | vector
  | tensor
deriving DecidableEq, Repr

def FieldKind.components : FieldKind → ℕ
  | scalar => 1
  | vector => 3
  | tensor => 9

/-- A field as its constructor leaves it: there is a time step, and the sizes are 64-bit numbers that wrap. A value is
the pattern of a double. -/
structure Field where
  name : List Char
  location : FieldLocation
  kind : FieldKind
  count : ℕ
  numTimeSteps : ℕ
  data : List UInt64
  count_lt : count < 2 ^ 64
  numTimeSteps_lt : numTimeSteps < 2 ^ 64
  numTimeSteps_pos : 1 ≤ numTimeSteps
  allocated : data.length = count * kind.components * numTimeSteps % 2 ^ 64

namespace Field

def components (field : Field) : ℕ := field.kind.components

/-- The values of one time step. -/
def step (field : Field) (t : ℕ) : List UInt64 :=
  (field.data.drop (t * (field.count * field.components))).take (field.count * field.components)

end Field

/-- The characters of a C string. -/
def cString (s : List Char) : List Char := s.takeWhile fun c => decide (c ≠ '\x00')

/-- `souxmar_field_name`. -/
def fieldName (field : Field) : List Char := cString field.name

/-! ## The writer -/

inductive Halt
  | invalidArgument (message : String)
  | io (message : String)
  | outOfBounds
deriving DecidableEq, Repr

/-- 0 for a type without an equivalent. -/
def souxmarToVtkCellType : ElementType → ℕ
  | .vertex => 1
  | .edge2 => 3
  | .edge3 => 21
  | .tri3 => 5
  | .tri6 => 22
  | .quad4 => 9
  | .quad8 => 23
  | .quad9 => 28
  | .tet4 => 10
  | .tet10 => 24
  | .hex8 => 12
  | .hex20 => 25
  | .hex27 => 29
  | .prism6 => 13
  | .prism15 => 26
  | .pyramid5 => 14
  | .pyramid13 => 27
  | .unknown => 0

def decimal (n : ℕ) : List Char := Nat.toDigits 10 n

/-- The characters that the output of a double consists of, infinities and NaN included. -/
def isNumeral (c : Char) : Bool := c.isAlphanum || c = '+' || c = '-' || c = '.'

section

/-! `format` is the output of a double with a given precision. -/

variable (format : ℕ → UInt64 → List Char)

/-- Numbers with a line break behind every `width` of them. -/
def numbers (width : ℕ) (texts : List (List Char)) : List Char :=
  texts.zipIdx.flatMap fun x => x.1 ++ (if (x.2 + 1) % width = 0 then "\n          " else " ").toList

/-- `data[base + i]` -/
def readValue (field : Field) (base i : ℕ) : Except Halt UInt64 :=
  match field.data[(base + i) % 2 ^ 64]? with
  | some x => .ok x
  | none => .error .outOfBounds

def suffix (t : ℕ) : List Char := if t > 0 then "_t".toList ++ decimal t else []

/-- The array of one time step. -/
def emitFieldArray (field : Field) (t : ℕ) : Except Halt (List Char) := do
  let size := field.count * field.components % 2 ^ 64
  let base := t * field.count % 2 ^ 64 * field.components % 2 ^ 64
  let values ← (List.range size).mapM (readValue field base)
  return "        <DataArray type=\"Float64\" Name=\"".toList ++ fieldName field ++ suffix t ++
    "\" NumberOfComponents=\"".toList ++ decimal field.components ++ "\" format=\"ascii\">\n".toList ++
    "          ".toList ++ numbers 6 (values.map (format 17)) ++ (if size = 0 then "\n          " else "").toList ++
    "\n        </DataArray>\n".toList

def emitFieldArrays (field : Field) : Except Halt (List Char) := do
  let arrays ← (List.range field.numTimeSteps).mapM (emitFieldArray format field)
  return arrays.flatten

def emitPoints (mesh : Mesh) : List Char :=
  let coords := mesh.nodes.flatMap fun p => [p.1, p.2.1, p.2.2]
  "      <Points>\n".toList ++
    "        <DataArray type=\"Float64\" NumberOfComponents=\"3\" format=\"ascii\">\n".toList ++
    "          ".toList ++ numbers 9 (coords.map (format 6)) ++
    (if coords.length = 0 then "\n          " else "").toList ++
    "\n        </DataArray>\n".toList ++ "      </Points>\n".toList

/-- The loop over the cells: the connectivity that is written, and the offsets for the next array. -/
structure Cells where
  connectivity : List Char := []
  offsets : List ℕ := []
  runningOffset : ℕ := 0

/-- A cell without nodes is skipped. -/
def Cells.add (s : Cells) (cell : Cell) : Cells :=
  if cell.nodes.length = 0 then s
  else
    { connectivity := s.connectivity ++ cell.nodes.flatMap fun i => decimal i ++ [' ']
      offsets := s.offsets ++ [s.runningOffset + cell.nodes.length]
      runningOffset := s.runningOffset + cell.nodes.length }

def emitType (cell : Cell) : Except Halt (List Char) :=
  let vtkType := souxmarToVtkCellType cell.type
  if vtkType = 0 then .error (.invalidArgument "writer.vtu: mesh contains a cell type with no VTK equivalent")
  else .ok (decimal vtkType ++ [' '])

def emitCells (mesh : Mesh) : Except Halt (List Char) := do
  let cells := mesh.cells.foldl Cells.add {}
  let types ← mesh.cells.mapM emitType
  return "      <Cells>\n".toList ++
    "        <DataArray type=\"Int64\" Name=\"connectivity\" format=\"ascii\">\n".toList ++ "          ".toList ++
    cells.connectivity ++ "\n        </DataArray>\n".toList ++
    "        <DataArray type=\"Int64\" Name=\"offsets\" format=\"ascii\">\n".toList ++ "          ".toList ++
    (cells.offsets.flatMap fun o => decimal o ++ [' ']) ++ "\n        </DataArray>\n".toList ++
    "        <DataArray type=\"UInt8\" Name=\"types\" format=\"ascii\">\n".toList ++ "          ".toList ++
    types.flatten ++ "\n        </DataArray>\n".toList ++ "      </Cells>\n".toList

/-- A field on faces or at Gauss points is dropped. -/
def emitField (mesh : Mesh) : Option Field → Except Halt (List Char)
  | none => .ok []
  | some field =>
    match field.location with
    | .nodal =>
      if field.count ≠ mesh.nodes.length then
        .error (.invalidArgument "writer.vtu: nodal field length does not match the mesh node count")
      else (emitFieldArrays format field).map fun arrays =>
        "      <PointData>\n".toList ++ arrays ++ "      </PointData>\n".toList
    | .cell =>
      if field.count ≠ mesh.cells.length then
        .error (.invalidArgument "writer.vtu: cell field length does not match the mesh cell count")
      else (emitFieldArrays format field).map fun arrays =>
        "      <CellData>\n".toList ++ arrays ++ "      </CellData>\n".toList
    | .face => .ok []
    | .gaussPoint => .ok []

/-- The whole file. -/
def blob (mesh : Mesh) (field : Option Field) : Except Halt (List Char) := do
  let cells ← emitCells mesh
  let arrays ← emitField format mesh field
  return "<?xml version=\"1.0\"?>\n".toList ++
    "<VTKFile type=\"UnstructuredGrid\" version=\"1.0\" byte_order=\"LittleEndian\">\n".toList ++
    "  <UnstructuredGrid>\n".toList ++ "    <Piece NumberOfPoints=\"".toList ++ decimal mesh.nodes.length ++
    "\" NumberOfCells=\"".toList ++ decimal mesh.cells.length ++ "\">\n".toList ++ emitPoints format mesh ++ cells ++
    arrays ++ "    </Piece>\n".toList ++ "  </UnstructuredGrid>\n".toList ++ "</VTKFile>\n".toList

/-- What the file system answers when the file at `path` is opened, and when it is written. -/
structure Sink where
  isOpen : List Char → Bool
  good : List Char → Bool

/-- The path and what the file there then holds. A write that is lost when the stream is destroyed, after it was found
good, is not modelled. -/
def vtuWrite (sink : Sink) (mesh : Option Mesh) (field : Option Field) (inputs : Option Value) :
    Except Halt (List Char × List Char) :=
  match mesh with
  | none => .error (.invalidArgument "mesh is NULL")
  | some mesh =>
    match inputs with
    | some (.map fields) =>
      match fields.lookup "path" with
      | some (.string path) =>
        if cString path.toList = [] then .error (.invalidArgument "`path` must not be empty")
        else do
          let text ← blob format mesh field
          if !sink.isOpen (cString path.toList) then .error (.io "could not open `path` for writing")
          else if !sink.good (cString path.toList) then .error (.io "write to `path` failed")
          else return (cString path.toList, text)
      | _ => .error (.invalidArgument "writer.vtu requires `path: <string>`")
    | _ => .error (.invalidArgument "writer inputs must be a map")

end

/-! ## What a file says -/

/-- The data arrays of a group in the piece. -/
def arrays (group : Xml.Name) (elements : List Xml.Element) : List Xml.Element :=
  elements.filter fun e => decide (e.path =
    ["DataArray".toList, group, "Piece".toList, "UnstructuredGrid".toList, "VTKFile".toList])

def nameOf (e : Xml.Element) : Option (List Char) := e.attributes.lookup "Name".toList

/-- An array with this name and these numbers in it. -/
structure Lists (n : String) (values : List ℕ) (e : Xml.Element) : Prop where
  name : nameOf e = some n.toList
  values : Stream.tokens e.text = values.map decimal

/-- The arrays of the cells give the cells of the mesh. -/
def CellsSaid (mesh : Mesh) (elements : List Xml.Element) : Prop :=
  ∃ connectivity offsets types, offsets.length = mesh.cells.length ∧ types.length = mesh.cells.length ∧
    Ragged.split offsets connectivity = mesh.cells.map Cell.nodes ∧
    List.Forall₂ (fun a e => Lists a.1 a.2 e)
      [("connectivity", connectivity), ("offsets", offsets), ("types", types)] (arrays "Cells".toList elements)

section

variable (format : ℕ → UInt64 → List Char)

/-- The array of one time step of a field. -/
structure StepSaid (field : Field) (t : ℕ) (e : Xml.Element) : Prop where
  name : nameOf e = some (field.name ++ suffix t)
  count : (Stream.tokens e.text).length = field.count * field.components
  values : Stream.tokens e.text = (field.step t).map (format 17)

/-- There is one array for each time step, in their order. -/
def StepsSaid (field : Field) (arrays : List Xml.Element) : Prop :=
  List.Forall₂ (StepSaid format field) (List.range field.numTimeSteps) arrays

def FieldSaid (field : Field) (elements : List Xml.Element) : Prop :=
  match field.location with
  | .nodal => StepsSaid format field (arrays "PointData".toList elements)
  | .cell => StepsSaid format field (arrays "CellData".toList elements)
  | .face => True
  | .gaussPoint => True

/-- The text is well-formed, and says what the mesh and the field say. -/
def Said (mesh : Mesh) (field : Option Field) (text : List Char) : Prop :=
  ∃ items, Xml.read text = some items ∧ CellsSaid mesh (Xml.elements items) ∧
    ∀ f ∈ field, FieldSaid format f (Xml.elements items)

end

/-- The field is written, on nodes or on cells. -/
def Field.Written (field : Field) : Prop := field.location = .nodal ∨ field.location = .cell

end Souxmar.Plugins.Vtu
