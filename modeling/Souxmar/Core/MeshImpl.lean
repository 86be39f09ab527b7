import Mathlib.Data.Nat.Bitwise
import Souxmar.Core.Mesh
import Souxmar.Lib.Dict
import Souxmar.Lib.Ragged
import Souxmar.Lib.Run

/-!
# The columns of a mesh

`Mesh::Impl` of `mesh.cpp`: the arrays that hold a mesh, and the tags of its faces under packed keys. A
vector that has to grow may find no memory, in the middle of a call; which of them do is part of the call.
-/

namespace Souxmar.Core

open Souxmar.Lib

/-- `info(t).num_faces`. -/
def ElementType.numFaces : ElementType → ℕ
  | unknown | vertex | edge2 | edge3 => 0
  | tri3 | tri6 => 3
  | quad4 | quad8 | quad9 => 4
  | tet4 | tet10 => 4
  | hex8 | hex20 | hex27 => 6
  | prism6 | prism15 => 5
  | pyramid5 | pyramid13 => 5

/-- The value `-1` of an `EntityTag`. -/
def untagged : UInt32 := 0xFFFFFFFF

def packFaceKey (cell : UInt64) (localFace : UInt8) : UInt64 := (cell <<< 8) ||| localFace.toUInt64

structure MeshImpl where
  nodes : List UInt64 := []
  cellTypes : List ElementType := []
  cellTags : List UInt32 := []
  cellNodeOffsets : List UInt64 := [0]
  cellNodeIndices : List UInt64 := []
  faceTags : Dict UInt64 UInt32 := ∅

/-- Vectors that grow one after the other; the first that finds no memory throws. -/
def grow {σ : Type} (granted : ℕ → Bool) : ℕ → List (σ → σ) → σ → Except Exception Unit × σ
  | _, [], s => (.ok (), s)
  | k, push :: pushes, s => if granted k then grow granted (k + 1) pushes (push s) else (.error .badAlloc, s)

namespace MeshImpl

def numNodes (m : MeshImpl) : ℕ := m.nodes.length / 3

def numCells (m : MeshImpl) : ℕ := m.cellTypes.length

def pushNode (x : UInt64) (m : MeshImpl) : MeshImpl := { m with nodes := m.nodes ++ [x] }

def addNode (granted : ℕ → Bool) (position : UInt64 × UInt64 × UInt64) (m : MeshImpl) :
    Except Exception UInt64 × MeshImpl :=
  let idx := m.nodes.length / 3
  let (done, m) := grow granted 0 [pushNode position.1, pushNode position.2.1, pushNode position.2.2] m
  (done.map fun _ => UInt64.ofNat idx, m)

def addCell (granted : ℕ → Bool) (type : ElementType) (nodeIndices : List UInt64) (tag : UInt32)
    (m : MeshImpl) : Except Exception UInt64 × MeshImpl :=
  if nodeIndices.length ≠ type.numNodes then (.error .invalidArgument, m)
  else if ∃ idx ∈ nodeIndices, idx.toNat ≥ m.nodes.length / 3 then (.error .outOfRange, m)
  else
    let cellIdx := m.cellTypes.length
    let (done, m) := grow granted 0
      [fun m => { m with cellTypes := m.cellTypes ++ [type] },
        fun m => { m with cellTags := m.cellTags ++ [tag] },
        fun m => { m with cellNodeIndices := m.cellNodeIndices ++ nodeIndices },
        fun m => { m with
          cellNodeOffsets := m.cellNodeOffsets ++ [UInt64.ofNat m.cellNodeIndices.length] }] m
    (done.map fun _ => UInt64.ofNat cellIdx, m)

def faceTag (cell : UInt64) (localFace : UInt8) (m : MeshImpl) : UInt32 :=
  match m.cellTypes[cell.toNat]? with
  | none => untagged
  | some type =>
    if localFace.toNat ≥ type.numFaces then untagged
    else (m.faceTags.lookup (packFaceKey cell localFace)).getD untagged

def setFaceTag (granted : ℕ → Bool) (cell : UInt64) (localFace : UInt8) (tag : UInt32) (m : MeshImpl) :
    Except Exception Unit × MeshImpl :=
  match m.cellTypes[cell.toNat]? with
  | none => (.error .outOfRange, m)
  | some type =>
    if localFace.toNat ≥ type.numFaces then (.error .invalidArgument, m)
    else
      let key := packFaceKey cell localFace
      if tag = untagged then (.ok (), { m with faceTags := m.faceTags.erase key })
      else grow granted 0 [fun m => { m with faceTags := m.faceTags.insert key tag }] m

end MeshImpl

/-! ## Keys -/

theorem toNat_packFaceKey {cell : UInt64} (h : cell.toNat < 2 ^ 56) (localFace : UInt8) :
    (packFaceKey cell localFace).toNat = cell.toNat * 256 + localFace.toNat := by
  have hface : localFace.toNat < 2 ^ 8 := localFace.toNat_lt
  have hshift : (cell <<< 8).toNat = cell.toNat <<< 8 := by
    rw [UInt64.toNat_shiftLeft]
    have height : (8 : UInt64).toNat % 64 = 8 := rfl
    rw [height, Nat.shiftLeft_eq]
    omega
  unfold packFaceKey
  rw [UInt64.toNat_or, hshift, UInt8.toNat_toUInt64, ← Nat.shiftLeft_add_eq_or_of_lt hface,
    Nat.shiftLeft_eq]

theorem packFaceKey_cell {cell : UInt64} (h : cell.toNat < 2 ^ 56) (localFace : UInt8) :
    packFaceKey cell localFace >>> 8 = cell := by
  have hface : localFace.toNat < 2 ^ 8 := localFace.toNat_lt
  apply UInt64.toNat_inj.mp
  rw [UInt64.toNat_shiftRight, toNat_packFaceKey h, Nat.shiftRight_eq_div_pow]
  have height : (8 : UInt64).toNat % 64 = 8 := rfl
  rw [height]
  omega

theorem packFaceKey_localFace {cell : UInt64} (h : cell.toNat < 2 ^ 56) (localFace : UInt8) :
    (packFaceKey cell localFace &&& 0xFF).toUInt8 = localFace := by
  have hface : localFace.toNat < 2 ^ 8 := localFace.toNat_lt
  apply UInt8.toNat_inj.mp
  have hmask : (0xFF : UInt64).toNat = 2 ^ 8 - 1 := rfl
  rw [UInt64.toNat_toUInt8, UInt64.toNat_and, toNat_packFaceKey h, hmask, Nat.and_two_pow_sub_one_eq_mod]
  omega

end Souxmar.Core
