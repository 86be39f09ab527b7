import Mathlib.Data.Nat.Notation

/-!
# Meshes

The element types of `element_type.h` and the part of `mesh.cpp` that builds a mesh. A coordinate is its
64-bit pattern. The vectors of the standard library are lists; what can go wrong with them, a size above
`max_size()` or memory that is not there, is decided where they are asked to grow.
-/

namespace Souxmar.Core

inductive ElementType
  | unknown | vertex | edge2 | edge3 | tri3 | tri6 | quad4 | quad8 | quad9 | tet4 | tet10
  | hex8 | hex20 | hex27 | prism6 | prism15 | pyramid5 | pyramid13
deriving DecidableEq, Repr

namespace ElementType

/-- The cast of a stored number; a number without a name is as good as `unknown`. -/
def ofCode : ℕ → ElementType
  | 1 => vertex
  | 2 => edge2
  | 3 => edge3
  | 4 => tri3
  | 5 => tri6
  | 6 => quad4
  | 7 => quad8
  | 8 => quad9
  | 9 => tet4
  | 10 => tet10
  | 11 => hex8
  | 12 => hex20
  | 13 => hex27
  | 14 => prism6
  | 15 => prism15
  | 16 => pyramid5
  | 17 => pyramid13
  | _ => unknown

/-- `info(t).num_nodes`. -/
def numNodes : ElementType → ℕ
  | unknown => 0
  | vertex => 1
  | edge2 => 2
  | edge3 => 3
  | tri3 => 3
  | tri6 => 6
  | quad4 => 4
  | quad8 => 8
  | quad9 => 9
  | tet4 => 4
  | tet10 => 10
  | hex8 => 8
  | hex20 => 20
  | hex27 => 27
  | prism6 => 6
  | prism15 => 15
  | pyramid5 => 5
  | pyramid13 => 13

theorem numNodes_le (t : ElementType) : t.numNodes ≤ 27 := by
  cases t <;> decide

end ElementType

/-- The exceptions that building a mesh can raise. -/
inductive Exception
  | badAlloc
  | lengthError
  | invalidArgument
  | outOfRange
deriving DecidableEq, Repr

/-- `reserve` and `resize` of a vector whose elements have `width` bytes. No vector is larger than `lim`
bytes, a constant of the standard library; `granted` tells whether the memory is there. -/
def reserve (lim : ℕ) (granted : Bool) (width n : ℕ) : Except Exception PUnit :=
  if n > lim / width then .error .lengthError
  else if granted then .ok ⟨⟩
  else .error .badAlloc

structure Cell where
  type : ElementType
  nodes : List ℕ
  tag : UInt32
deriving DecidableEq, Repr

structure Mesh where
  nodes : List (UInt64 × UInt64 × UInt64) := []
  cells : List Cell := []
deriving DecidableEq, Repr

namespace Mesh

/-- The new node and its index; `reserve_nodes` has made room for it. -/
def addNode (position : UInt64 × UInt64 × UInt64) (m : Mesh) : ℕ × Mesh :=
  (m.nodes.length, { m with nodes := m.nodes ++ [position] })

def addCell (granted : Bool) (type : ElementType) (nodeIndices : List ℕ) (tag : UInt32) (m : Mesh) :
    Except Exception Mesh :=
  if nodeIndices.length ≠ type.numNodes then .error .invalidArgument
  else if ∃ idx ∈ nodeIndices, idx ≥ m.nodes.length then .error .outOfRange
  else if granted then .ok { m with cells := m.cells ++ [⟨type, nodeIndices, tag⟩] }
  else .error .badAlloc

end Mesh

end Souxmar.Core
