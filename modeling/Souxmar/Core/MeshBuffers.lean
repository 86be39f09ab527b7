import Mathlib.Data.UInt
import Souxmar.Core.Mesh
import Souxmar.Lib.Loop

/-!
# A mesh from buffers

`souxmar_mesh_from_buffers`. A buffer is its bytes, and a read beyond its end is an outcome of its own
(`outOfBounds`), after which nothing is said. The counts are 64-bit numbers, and the sizes computed from
them wrap as they do in the code. A call halts with a status, outside a buffer, or with an exception in
flight; one that is still in flight at the end leaves the C boundary.

The two allocations of a fixed size, of the empty mesh and of room for 27 nodes, are taken to succeed.
-/

namespace Souxmar.Core

open Souxmar.Lib

/-! ### Buffers -/

structure Buffer where
  bytes : List UInt8
deriving DecidableEq, Repr

/-- `souxmar_buffer_size`. -/
def Buffer.size (b : Buffer) : ℕ := b.bytes.length

inductive StatusCode
  | invalidArgument
  | outOfMemory
  | internal
deriving DecidableEq, Repr

inductive Halt
  | status (code : StatusCode) (message : String)
  | outOfBounds
  | threw (e : Exception)
deriving DecidableEq, Repr

/-- How many whole elements of some width a buffer holds. -/
def Buffer.entries (width : ℕ) (b : Buffer) : ℕ := b.size / width

/-- The element at an index, little-endian; zero behind the end. -/
def Buffer.entry (width : ℕ) (b : Buffer) (i : ℕ) : UInt64 :=
  ((b.bytes.drop (i * width)).take width).foldr (fun byte rest => rest * 256 + byte.toUInt64) 0

/-- Reading `data[i]`. -/
def Buffer.read (width : ℕ) (b : Buffer) (i : ℕ) : Except Halt UInt64 :=
  if i < b.entries width then .ok (b.entry width i) else .error .outOfBounds

structure MeshBuffers where
  nodeCoords : Option Buffer
  numNodes : UInt64
  cellTypes : Option Buffer
  cellConnectivity : Option Buffer
  cellOffsets : Option Buffer
  numCells : UInt64
  cellTags : Option Buffer := none
deriving DecidableEq, Repr

/-- The buffers once none that is required is missing. -/
structure Given where
  coords : Buffer
  numNodes : UInt64
  types : Buffer
  connectivity : Buffer
  offsets : Buffer
  numCells : UInt64
  tags : Option Buffer
deriving DecidableEq, Repr

/-- The allocations whose size comes from the buffers. -/
inductive AllocSite
  | nodes
  | cellTypes
  | cellTags
  | cellNodeOffsets
  | cellNodeIndices
  | nodeLookup
  | scratch (cell : ℕ)
  | insert (cell : ℕ)
deriving DecidableEq, Repr

def writeErr {α : Type} (code : StatusCode) (message : String) : Except Halt α :=
  .error (.status code ("souxmar_mesh_from_buffers: " ++ message))

/-- `if (c) return write_err(...)`. -/
def refuseIf (c : Prop) [Decidable c] (message : String) : Except Halt PUnit :=
  if c then writeErr .invalidArgument message else .ok ⟨⟩

/-- `catch (const std::bad_alloc&)`; any other exception stays in flight. -/
def catchBadAlloc {α : Type} (message : String) (x : Except Halt α) : Except Halt α :=
  match x with
  | .error (.threw .badAlloc) => writeErr .outOfMemory message
  | x => x

/-- A library call inside a function that may halt. -/
def call {α : Type} (x : Except Exception α) : Except Halt α := x.mapError .threw

namespace Given

variable (b : Given)

/-! ### The checks -/

/-- Each buffer has the size that its count asks for, as computed. -/
def checkSizes : Except Halt PUnit := do
  refuseIf (b.coords.size ≠ (b.numNodes * 3 * 8).toNat)
    "node_coords size != 3*num_nodes*sizeof(double)"
  refuseIf (b.types.size ≠ (b.numCells * 2).toNat)
    "cell_types size != num_cells*sizeof(uint16_t)"
  refuseIf (b.offsets.size ≠ ((b.numCells + 1) * 8).toNat)
    "cell_offsets size != (num_cells+1)*sizeof(uint64_t)"
  refuseIf (∃ tags ∈ b.tags, tags.size ≠ (b.numCells * 4).toNat)
    "cell_tags size != num_cells*sizeof(int32_t)"

def checkFirstOffset : Except Halt PUnit :=
  if b.numCells > 0 then do
    let first ← b.offsets.read 8 0
    refuseIf (first ≠ 0) "cell_offsets[0] must be 0"
  else .ok ⟨⟩

def checkOffset (i : ℕ) (_ : PUnit) : Except Halt PUnit := do
  let next ← b.offsets.read 8 (i + 1)
  let this ← b.offsets.read 8 i
  refuseIf (next < this)
    "cell_offsets is not monotonically non-decreasing"

def readTotalNodeRefs : Except Halt UInt64 :=
  if b.numCells = 0 then .ok 0 else b.offsets.read 8 b.numCells.toNat

def checkConnectivitySize : Except Halt PUnit := do
  let totalNodeRefs ← b.readTotalNodeRefs
  refuseIf (b.connectivity.size ≠ (totalNodeRefs * 8).toNat)
    "cell_connectivity size != offsets[num_cells]*sizeof(uint64_t)"

def checkNode (j : ℕ) (_ : PUnit) : Except Halt PUnit := do
  let node ← b.connectivity.read 8 j
  refuseIf (node ≥ b.numNodes)
    "cell connectivity references an out-of-range node"

def checkCell (i : ℕ) (_ : PUnit) : Except Halt PUnit := do
  let code ← b.types.read 2 i
  let et := ElementType.ofCode code.toNat
  refuseIf (et.numNodes = 0 ∨ et = .unknown)
    "cell_types[i] is not a known SOUXMAR_ET_*"
  let next ← b.offsets.read 8 (i + 1)
  let this ← b.offsets.read 8 i
  refuseIf ((next - this).toNat ≠ et.numNodes)
    "a cell's node count doesn't match its element type"
  forRange b.checkNode (next.toNat - this.toNat) this.toNat ⟨⟩

/-! ### Building the mesh -/

variable (lim : ℕ) (granted : AllocSite → Bool)

/-- `reserve_nodes` and `reserve_cells`. -/
def reserveMesh : Except Halt PUnit :=
  catchBadAlloc "Mesh allocation failed" <| call do
    reserve lim (granted .nodes) 8 (3 * b.numNodes).toNat
    reserve lim (granted .cellTypes) 2 b.numCells.toNat
    reserve lim (granted .cellTags) 4 b.numCells.toNat
    reserve lim (granted .cellNodeOffsets) 8 (b.numCells + 1).toNat
    reserve lim (granted .cellNodeIndices) 8 (8 * b.numCells).toNat

/-- One node: the mesh, and the lookup table from the buffer's node numbers to the mesh's. -/
def addNode (i : ℕ) (s : Mesh × List ℕ) : Except Halt (Mesh × List ℕ) := do
  let x ← b.coords.read 8 (i * 3 + 0)
  let y ← b.coords.read 8 (i * 3 + 1)
  let z ← b.coords.read 8 (i * 3 + 2)
  let (idx, mesh) := s.1.addNode (x, y, z)
  .ok (mesh, s.2 ++ [idx])

def addNodes : Except Halt (Mesh × List ℕ) :=
  catchBadAlloc "node insertion failed" do
    call (reserve lim (granted .nodeLookup) 8 b.numNodes.toNat)
    forRange b.addNode b.numNodes.toNat 0 ({}, [])

/-- `cell_nodes.push_back(node_lookup[connectivity[j]])`. -/
def gatherNode (lookup : List ℕ) (j : ℕ) (cellNodes : List ℕ) : Except Halt (List ℕ) := do
  let node ← b.connectivity.read 8 j
  match lookup[node.toNat]? with
  | some idx => .ok (cellNodes ++ [idx])
  | none => .error .outOfBounds

/-- `tags ? tags[i] : -1`. -/
def readTag (i : ℕ) : Except Halt UInt32 :=
  match b.tags with
  | some tags => do
    let tag ← tags.read 4 i
    .ok tag.toUInt32
  | none => .ok 0xFFFFFFFF

/-- The two handlers around `add_cell`. -/
def insertCell (i : ℕ) (type : ElementType) (cellNodes : List ℕ) (tag : UInt32) (mesh : Mesh) :
    Except Halt Mesh :=
  match mesh.addCell (granted (.insert i)) type cellNodes tag with
  | .ok mesh => .ok mesh
  | .error .badAlloc => writeErr .outOfMemory "cell insertion failed"
  | .error _ => writeErr .invalidArgument "Mesh::add_cell rejected a cell"

/-- `cell_nodes.reserve(end - begin)` on a vector with room for 27 nodes. -/
def reserveScratch (i n : ℕ) : Except Halt PUnit :=
  if n ≤ 27 then .ok ⟨⟩ else call (reserve lim (granted (.scratch i)) 8 n)

def addCell (lookup : List ℕ) (i : ℕ) (mesh : Mesh) : Except Halt Mesh := do
  let code ← b.types.read 2 i
  let this ← b.offsets.read 8 i
  let next ← b.offsets.read 8 (i + 1)
  reserveScratch lim granted i (next - this).toNat
  let cellNodes ← forRange (b.gatherNode lookup) (next.toNat - this.toNat) this.toNat []
  let tag ← b.readTag i
  insertCell granted i (.ofCode code.toNat) cellNodes tag mesh

def build : Except Halt Mesh := do
  b.checkSizes
  b.checkFirstOffset
  forRange b.checkOffset b.numCells.toNat 0 ⟨⟩
  b.checkConnectivitySize
  forRange b.checkCell b.numCells.toNat 0 ⟨⟩
  b.reserveMesh lim granted
  let (mesh, lookup) ← b.addNodes lim granted
  forRange (b.addCell lim granted lookup) b.numCells.toNat 0 mesh

end Given

/-- The test that no required buffer is NULL. -/
def MeshBuffers.given (d : MeshBuffers) : Option Given := do
  let coords ← d.nodeCoords
  let types ← d.cellTypes
  let connectivity ← d.cellConnectivity
  let offsets ← d.cellOffsets
  some ⟨coords, d.numNodes, types, connectivity, offsets, d.numCells, d.cellTags⟩

def souxmarMeshFromBuffers (lim : ℕ) (granted : AllocSite → Bool) (buffers : Option MeshBuffers) :
    Except Halt Mesh :=
  match buffers with
  | none => writeErr .invalidArgument "buffers is NULL"
  | some d =>
    match d.given with
    | none => writeErr .invalidArgument "a required buffer is NULL"
    | some b => b.build lim granted

end Souxmar.Core
