import Souxmar.Core.BufferSafety
import Souxmar.Lib.Ragged

/-!
# The bulk and the incremental constructor

One mesh, built in two ways: call by call with `souxmar_mesh_add_node` and `souxmar_mesh_add_cell`, and at once
with `souxmar_mesh_from_buffers` on buffers that hold the same nodes and cells.
-/

namespace Souxmar.Core

open Souxmar.Lib

/-! ## Call by call -/

/-- A cell as a caller gives it. -/
structure CellSpec where
  type : UInt16
  nodes : List UInt64
  tag : UInt32
deriving DecidableEq, Repr

def CellSpec.elementType (c : CellSpec) : ElementType := .ofCode c.type.toNat

def souxmarMeshAddNode (position : UInt64 × UInt64 × UInt64) (mesh : Mesh) : UInt64 × Mesh :=
  let (idx, mesh) := mesh.addNode position
  (UInt64.ofNat idx, mesh)

def souxmarMeshAddCell (granted : Bool) (c : CellSpec) (mesh : Mesh) : Except Halt Mesh :=
  match mesh.addCell granted (.ofCode c.type.toNat) (c.nodes.map UInt64.toNat) c.tag with
  | .ok mesh => .ok mesh
  | .error .invalidArgument => .error (.status .invalidArgument "node count does not match element type")
  | .error .outOfRange => .error (.status .invalidArgument "node index references missing node")
  | .error .badAlloc => .error (.status .outOfMemory "out of memory")
  | .error _ => .error (.status .internal "internal error")

def addNodes (nodes : List (UInt64 × UInt64 × UInt64)) : Mesh :=
  nodes.foldl (fun mesh position => (souxmarMeshAddNode position mesh).2) {}

def addCells (cells : List CellSpec) (mesh : Mesh) : Except Halt Mesh :=
  cells.foldlM (fun mesh c => souxmarMeshAddCell true c mesh) mesh

/-! ## At once -/

/-- `sizeof(BufferHeader)`. -/
def bufferHeaderSize : ℕ := 48

def kAlignment : ℕ := 16

def souxmarBufferNew (granted : Bool) (sizeBytes : ℕ) : Option Buffer :=
  if sizeBytes = 0 then none
  else if sizeBytes > 2 ^ 64 - 1 - bufferHeaderSize - kAlignment then none
  else if granted then some ⟨List.replicate sizeBytes 0⟩
  else none

/-- The low bytes of a number, the lowest first. -/
def leBytes : ℕ → UInt64 → List UInt8
  | 0, _ => []
  | width + 1, x => x.toUInt8 :: leBytes width (x / 256)

def encode (width : ℕ) (entries : List UInt64) : List UInt8 := (entries.map (leBytes width)).flatten

/-- A new buffer, filled by its owner. -/
def filled (bytes : List UInt8) : Option Buffer := (souxmarBufferNew true bytes.length).map fun _ => ⟨bytes⟩

def coordinates (nodes : List (UInt64 × UInt64 × UInt64)) : List UInt64 :=
  (nodes.map fun p => [p.1, p.2.1, p.2.2]).flatten

def nodeRows (cells : List CellSpec) : List (List UInt64) := cells.map CellSpec.nodes

def buffersOf (nodes : List (UInt64 × UInt64 × UInt64)) (cells : List CellSpec) : MeshBuffers where
  nodeCoords := filled (encode 8 (coordinates nodes))
  numNodes := UInt64.ofNat nodes.length
  cellTypes := filled (encode 2 (cells.map fun c => c.type.toUInt64))
  cellConnectivity := filled (encode 8 (nodeRows cells).flatten)
  cellOffsets := filled (encode 8 ((Ragged.offsets (nodeRows cells)).map UInt64.ofNat))
  numCells := UInt64.ofNat cells.length
  cellTags := filled (encode 4 (cells.map fun c => c.tag.toUInt64))

/-! ## What the buffers hold -/

@[simp] theorem length_leBytes (width : ℕ) (x : UInt64) : (leBytes width x).length = width := by
  induction width generalizing x with
  | zero => rfl
  | succ width ih => rw [leBytes, List.length_cons, ih]

theorem foldr_leBytes {width : ℕ} (hwidth : width ≤ 8) (x : UInt64) :
    ((leBytes width x).foldr (fun (byte : UInt8) (rest : UInt64) => rest * 256 + byte.toUInt64) 0).toNat =
      x.toNat % 256 ^ width := by
  induction width generalizing x with
  | zero => simp [leBytes, Nat.mod_one]
  | succ width ih =>
    have hrest := ih (by omega) (x / 256)
    have hlow : x.toUInt8.toUInt64.toNat = x.toNat % 256 := by
      rw [UInt8.toNat_toUInt64, UInt64.toNat_toUInt8]
    have hhigh : (x / 256).toNat = x.toNat / 256 := UInt64.toNat_div x 256
    have hsmall : x.toNat / 256 % 256 ^ width < 256 ^ 7 :=
      Nat.lt_of_lt_of_le (Nat.mod_lt _ (Nat.pow_pos (by omega))) (Nat.pow_le_pow_right (by omega) (by omega))
    have hsplit : x.toNat % 256 ^ (width + 1) = x.toNat % 256 + 256 * (x.toNat / 256 % 256 ^ width) := by
      rw [Nat.pow_succ', Nat.mod_mul]
    have hbase : (256 : UInt64).toNat = 256 := rfl
    rw [leBytes, List.foldr_cons, UInt64.toNat_add, UInt64.toNat_mul, hrest, hlow, hhigh, hsplit, hbase]
    omega

@[simp] theorem length_encode (width : ℕ) (entries : List UInt64) :
    (encode width entries).length = entries.length * width := by
  unfold encode
  rw [List.length_flatten, List.map_map]
  have hall : (List.length ∘ leBytes width) = fun _ => width := funext fun x => length_leBytes width x
  rw [hall]
  simp

theorem entries_encode {width : ℕ} (hwidth : 0 < width) (entries : List UInt64) :
    Buffer.entries width ⟨encode width entries⟩ = entries.length := by
  unfold Buffer.entries Buffer.size
  rw [length_encode, Nat.mul_div_cancel _ hwidth]

theorem entry_encode {width : ℕ} (hwidth : width ≤ 8) {entries : List UInt64} {i : ℕ} {x : UInt64}
    (hi : entries[i]? = some x) (hx : x.toNat < 256 ^ width) :
    Buffer.entry width ⟨encode width entries⟩ i = x := by
  obtain ⟨hlt, rfl⟩ := List.getElem?_eq_some_iff.mp hi
  have hi : i < (entries.map (leBytes width)).length := by rw [List.length_map]; exact hlt
  have hrows : ∀ row ∈ entries.map (leBytes width), row.length = width := by
    intro row hrow
    obtain ⟨x, -, rfl⟩ := List.mem_map.mp hrow
    exact length_leBytes width x
  have hbefore := Ragged.length_take_flatten hrows (Nat.le_of_lt hi)
  have hslice := Ragged.slice hi
  rw [hbefore, List.getElem_map, length_leBytes] at hslice
  unfold Buffer.entry
  dsimp only
  rw [encode, hslice]
  apply UInt64.toNat_inj.mp
  rw [foldr_leBytes hwidth, Nat.mod_eq_of_lt hx]

/-! ## The mesh to be built -/

def CellSpec.cell (c : CellSpec) : Cell := ⟨c.elementType, c.nodes.map UInt64.toNat, c.tag⟩

/-- The cell has the nodes of its type, and they exist. -/
def CellSpec.Accepted (numNodes : ℕ) (c : CellSpec) : Prop :=
  c.nodes.length = c.elementType.numNodes ∧ ∀ idx ∈ c.nodes, idx.toNat < numNodes

theorem addNodes_eq (nodes : List (UInt64 × UInt64 × UInt64)) : addNodes nodes = ⟨nodes, []⟩ := by
  have hfold : ∀ before : List (UInt64 × UInt64 × UInt64),
      nodes.foldl (fun mesh position => (souxmarMeshAddNode position mesh).2) ⟨before, []⟩ =
        ⟨before ++ nodes, []⟩ := by
    induction nodes with
    | nil =>
      intro before
      rw [List.append_nil]
      rfl
    | cons position nodes ih =>
      intro before
      rw [List.foldl_cons, List.append_cons]
      exact ih (before ++ [position])
  exact hfold []

theorem CellSpec.Accepted.addCell {c : CellSpec} {mesh : Mesh} (h : c.Accepted mesh.nodes.length) :
    mesh.addCell true c.elementType (c.nodes.map UInt64.toNat) c.tag =
      .ok { mesh with cells := mesh.cells ++ [c.cell] } := by
  have harity : ¬(c.nodes.map UInt64.toNat).length ≠ c.elementType.numNodes := by
    rw [List.length_map]
    exact not_not.mpr h.1
  have hrange : ¬∃ idx ∈ c.nodes.map UInt64.toNat, idx ≥ mesh.nodes.length := by
    rintro ⟨idx, hidx, hlarge⟩
    obtain ⟨node, hnode, rfl⟩ := List.mem_map.mp hidx
    have hsmall := h.2 node hnode
    omega
  unfold Mesh.addCell
  rw [if_neg harity, if_neg hrange]
  rfl

theorem souxmarMeshAddCell_ok {c : CellSpec} {mesh : Mesh} (h : c.Accepted mesh.nodes.length) :
    souxmarMeshAddCell true c mesh = .ok { mesh with cells := mesh.cells ++ [c.cell] } := by
  unfold souxmarMeshAddCell
  rw [← CellSpec.elementType, h.addCell]

theorem souxmarMeshAddCell_error {c : CellSpec} {mesh : Mesh} (h : ¬c.Accepted mesh.nodes.length) :
    ∃ e, souxmarMeshAddCell true c mesh = .error e := by
  unfold souxmarMeshAddCell Mesh.addCell
  rw [List.length_map, ← CellSpec.elementType]
  by_cases harity : c.nodes.length ≠ c.elementType.numNodes
  · rw [if_pos harity]
    exact ⟨_, rfl⟩
  · have hrange : ∃ idx ∈ c.nodes.map UInt64.toNat, idx ≥ mesh.nodes.length := by
      by_contra hnone
      refine h ⟨not_not.mp harity, fun idx hidx => ?_⟩
      by_contra hlarge
      exact hnone ⟨idx.toNat, List.mem_map_of_mem hidx, Nat.not_lt.mp hlarge⟩
    rw [if_neg harity, if_pos hrange]
    exact ⟨_, rfl⟩

theorem addCells_ok_iff (cells : List CellSpec) (mesh built : Mesh) : addCells cells mesh = .ok built ↔
    (∀ c ∈ cells, c.Accepted mesh.nodes.length) ∧
      built = { mesh with cells := mesh.cells ++ cells.map CellSpec.cell } := by
  induction cells generalizing mesh with
  | nil =>
    constructor
    · intro h
      obtain rfl := Except.ok.inj h
      exact ⟨(fun c hc => nomatch hc), by rw [List.map_nil, List.append_nil]⟩
    · rintro ⟨-, rfl⟩
      rw [List.map_nil, List.append_nil]
      rfl
  | cons c cells ih =>
    have hcons : addCells (c :: cells) mesh = (souxmarMeshAddCell true c mesh).bind (addCells cells) := rfl
    rw [hcons, List.forall_mem_cons]
    by_cases hc : c.Accepted mesh.nodes.length
    · rw [souxmarMeshAddCell_ok hc]
      show addCells cells _ = _ ↔ _
      rw [ih, List.map_cons]
      simp only [hc, true_and, List.append_assoc, List.singleton_append]
    · obtain ⟨e, he⟩ := souxmarMeshAddCell_error hc
      rw [he]
      exact ⟨(fun h => nomatch h), fun h => absurd h.1.1 hc⟩

/-! ## The buffers -/

/-- Every size stays below what a vector can hold; no product of bytes wraps. -/
structure Sized (lim : ℕ) (nodes : List (UInt64 × UInt64 × UInt64)) (cells : List CellSpec) : Prop where
  limit : lim + bufferHeaderSize + kAlignment < 2 ^ 64
  numNodes : 3 * nodes.length ≤ lim / 8
  numCells : 8 * cells.length ≤ lim / 8
  numRefs : (nodeRows cells).flatten.length ≤ lim / 8

/-- The buffers, when none of them is empty. -/
def givenOf (nodes : List (UInt64 × UInt64 × UInt64)) (cells : List CellSpec) : Given where
  coords := ⟨encode 8 (coordinates nodes)⟩
  numNodes := UInt64.ofNat nodes.length
  types := ⟨encode 2 (cells.map fun c => c.type.toUInt64)⟩
  connectivity := ⟨encode 8 (nodeRows cells).flatten⟩
  offsets := ⟨encode 8 ((Ragged.offsets (nodeRows cells)).map UInt64.ofNat)⟩
  numCells := UInt64.ofNat cells.length
  tags := some ⟨encode 4 (cells.map fun c => c.tag.toUInt64)⟩

theorem filled_eq {bytes : List UInt8} {lim : ℕ} (hne : bytes.length ≠ 0) (hle : bytes.length ≤ lim)
    (hlim : lim + bufferHeaderSize + kAlignment < 2 ^ 64) : filled bytes = some ⟨bytes⟩ := by
  unfold filled souxmarBufferNew
  rw [if_neg hne, if_neg (by omega)]
  rfl

theorem length_coordinates (nodes : List (UInt64 × UInt64 × UInt64)) :
    (coordinates nodes).length = nodes.length * 3 := by
  unfold coordinates
  rw [List.length_flatten, List.map_map]
  have hall : (List.length ∘ fun p : UInt64 × UInt64 × UInt64 => [p.1, p.2.1, p.2.2]) = fun _ => 3 := rfl
  rw [hall]
  simp

section

variable {lim : ℕ} {nodes : List (UInt64 × UInt64 × UInt64)} {cells : List CellSpec}
  (h : Sized lim nodes cells)

include h

theorem Sized.numNodes_toNat : (givenOf nodes cells).numNodes.toNat = nodes.length := by
  have hnodes := h.numNodes
  have hlimit := h.limit
  exact UInt64.toNat_ofNat_of_lt' (show nodes.length < 2 ^ 64 by omega)

theorem Sized.numCells_toNat : (givenOf nodes cells).numCells.toNat = cells.length := by
  have hcells := h.numCells
  have hlimit := h.limit
  exact UInt64.toNat_ofNat_of_lt' (show cells.length < 2 ^ 64 by omega)

theorem Sized.given (hnodes : nodes ≠ []) (hcells : cells ≠ []) (hrefs : (nodeRows cells).flatten ≠ []) :
    (buffersOf nodes cells).given = some (givenOf nodes cells) := by
  have hlimit := h.limit
  have hnodes' := h.numNodes
  have hcells' := h.numCells
  have hrefs' := h.numRefs
  have hnodesPos := List.length_pos_iff.mpr hnodes
  have hcellsPos := List.length_pos_iff.mpr hcells
  have hrefsPos := List.length_pos_iff.mpr hrefs
  have hrows : (nodeRows cells).length = cells.length := List.length_map ..
  have hcoords : filled (encode 8 (coordinates nodes)) = some (givenOf nodes cells).coords := by
    have hlength := length_encode 8 (coordinates nodes)
    rw [length_coordinates] at hlength
    exact filled_eq (by omega) (show _ ≤ lim by omega) hlimit
  have htypes : filled (encode 2 (cells.map fun c => c.type.toUInt64)) = some (givenOf nodes cells).types := by
    have hlength := length_encode 2 (cells.map fun c => c.type.toUInt64)
    rw [List.length_map] at hlength
    exact filled_eq (by omega) (show _ ≤ lim by omega) hlimit
  have hconnectivity : filled (encode 8 (nodeRows cells).flatten) =
      some (givenOf nodes cells).connectivity := by
    have hlength := length_encode 8 (nodeRows cells).flatten
    exact filled_eq (by omega) (show _ ≤ lim by omega) hlimit
  have hoffsets : filled (encode 8 ((Ragged.offsets (nodeRows cells)).map UInt64.ofNat)) =
      some (givenOf nodes cells).offsets := by
    have hlength := length_encode 8 ((Ragged.offsets (nodeRows cells)).map UInt64.ofNat)
    rw [List.length_map, Ragged.length_offsets, hrows] at hlength
    exact filled_eq (by omega) (show _ ≤ lim by omega) hlimit
  have htags : filled (encode 4 (cells.map fun c => c.tag.toUInt64)) = (givenOf nodes cells).tags := by
    have hlength := length_encode 4 (cells.map fun c => c.tag.toUInt64)
    rw [List.length_map] at hlength
    exact filled_eq (by omega) (show _ ≤ lim by omega) hlimit
  unfold buffersOf MeshBuffers.given
  rw [hcoords, htypes, hconnectivity, hoffsets, htags]
  rfl

theorem Sized.sizes : (givenOf nodes cells).SizesMatch := by
  have hlimit := h.limit
  have hnodes' := h.numNodes
  have hcells' := h.numCells
  have hn := h.numNodes_toNat
  have hc := h.numCells_toNat
  refine ⟨?_, ?_, ?_, ?_⟩
  · rw [UInt64.toNat_mul, UInt64.toNat_mul, hn]
    show (encode 8 (coordinates nodes)).length = _
    rw [length_encode, length_coordinates]
    simp
    omega
  · rw [UInt64.toNat_mul, hc]
    show (encode 2 _).length = _
    rw [length_encode, List.length_map]
    simp
    omega
  · rw [UInt64.toNat_mul, UInt64.toNat_add, hc]
    show (encode 8 _).length = _
    rw [length_encode, List.length_map, Ragged.length_offsets, nodeRows, List.length_map]
    simp
    omega
  · rintro tags hmem
    obtain rfl := Option.some.inj hmem
    rw [UInt64.toNat_mul, hc]
    show (encode 4 _).length = _
    rw [length_encode, List.length_map]
    simp
    omega

omit h in
theorem offsets_entries : (givenOf nodes cells).offsets.entries 8 = cells.length + 1 := by
  show Buffer.entries 8 ⟨encode 8 _⟩ = _
  rw [entries_encode (by omega), List.length_map, Ragged.length_offsets, nodeRows, List.length_map]

theorem Sized.offset_eq {i : ℕ} (hi : i ≤ cells.length) :
    (givenOf nodes cells).offset i = ((nodeRows cells).take i).flatten.length := by
  have hlimit := h.limit
  have hrefs' := h.numRefs
  have hrows : (nodeRows cells).length = cells.length := List.length_map ..
  have hle : ((nodeRows cells).take i).flatten.length ≤ (nodeRows cells).flatten.length :=
    Ragged.length_flatten_le (List.take_prefix i _)
  have hget : ((Ragged.offsets (nodeRows cells)).map UInt64.ofNat)[i]? =
      some (UInt64.ofNat ((nodeRows cells).take i).flatten.length) := by
    have hlt : i < (Ragged.offsets (nodeRows cells)).length := by
      rw [Ragged.length_offsets]
      omega
    rw [List.getElem?_map, List.getElem?_eq_getElem hlt, Ragged.getElem_offsets]
    rfl
  have hentry := entry_encode (by omega : 8 ≤ 8) hget (UInt64.toNat_lt _)
  unfold Given.offset
  show (Buffer.entry 8 ⟨encode 8 _⟩ i).toNat = _
  rw [hentry]
  exact UInt64.toNat_ofNat_of_lt' (show _ < 2 ^ 64 by omega)

theorem Sized.ordered : (givenOf nodes cells).OffsetsOrdered := by
  refine ⟨fun _ _ => ?_, fun i hi => ?_⟩
  · rw [h.offset_eq (Nat.zero_le _)]
    rfl
  · rw [offsets_entries] at hi
    rw [h.offset_eq (by omega), h.offset_eq (by omega)]
    exact Ragged.length_flatten_le (List.take_prefix_take_left (by omega))

omit h in
theorem connectivity_entries :
    (givenOf nodes cells).connectivity.entries 8 = (nodeRows cells).flatten.length := by
  show Buffer.entries 8 ⟨encode 8 _⟩ = _
  rw [entries_encode (by omega)]

theorem Sized.totalNodeRefs_eq : (givenOf nodes cells).totalNodeRefs = (nodeRows cells).flatten.length := by
  unfold Given.totalNodeRefs
  rw [h.numCells_toNat, h.offset_eq (Nat.le_refl _)]
  have hall : (nodeRows cells).take cells.length = nodeRows cells :=
    List.take_of_length_le (by rw [nodeRows, List.length_map])
  rw [hall]
  split_ifs with hzero
  · rw [List.eq_nil_of_length_eq_zero hzero]
    rfl
  · rfl

theorem Sized.connectivitySize : (givenOf nodes cells).connectivity.size =
    (UInt64.ofNat (givenOf nodes cells).totalNodeRefs * 8).toNat := by
  have hlimit := h.limit
  have hrefs' := h.numRefs
  rw [h.totalNodeRefs_eq, UInt64.toNat_mul,
    UInt64.toNat_ofNat_of_lt' (show (nodeRows cells).flatten.length < 2 ^ 64 by omega)]
  have height : (8 : UInt64).toNat = 8 := rfl
  show (encode 8 _).length = _
  rw [length_encode, height]
  omega

/-! ## Checking and building -/

omit h in
theorem entry_connectivity {i k : ℕ} {c : CellSpec} {node : UInt64} (hi : cells[i]? = some c)
    (hk : c.nodes[k]? = some node) :
    (givenOf nodes cells).connectivity.entry 8 (((nodeRows cells).take i).flatten.length + k) = node := by
  have hrow : (nodeRows cells)[i]? = some c.nodes := by rw [nodeRows, List.getElem?_map, hi]; rfl
  have hlt := (List.getElem?_eq_some_iff.mp hk).1
  exact entry_encode (by omega) ((Ragged.getElem?_row hrow hlt).trans hk) (UInt64.toNat_lt _)

omit h in
theorem elementType_eq {i : ℕ} {c : CellSpec} (hi : cells[i]? = some c) :
    (givenOf nodes cells).elementType i = c.elementType := by
  have hget : (cells.map fun c => c.type.toUInt64)[i]? = some c.type.toUInt64 := by
    rw [List.getElem?_map, hi]
    rfl
  have hsmall : c.type.toUInt64.toNat < 256 ^ 2 := by
    rw [UInt16.toNat_toUInt64]
    exact UInt16.toNat_lt _
  have hentry := entry_encode (by omega : 2 ≤ 8) hget hsmall
  unfold Given.elementType
  show ElementType.ofCode (Buffer.entry 2 ⟨encode 2 _⟩ i).toNat = _
  rw [hentry, UInt16.toNat_toUInt64]
  rfl

omit h in
theorem readTag_eq {i : ℕ} {c : CellSpec} (hi : cells[i]? = some c) :
    (givenOf nodes cells).readTag i = .ok c.tag := by
  have hget : (cells.map fun c => c.tag.toUInt64)[i]? = some c.tag.toUInt64 := by
    rw [List.getElem?_map, hi]
    rfl
  have hsmall : c.tag.toUInt64.toNat < 256 ^ 4 := by
    rw [UInt32.toNat_toUInt64]
    exact UInt32.toNat_lt _
  have hlt := (List.getElem?_eq_some_iff.mp hi).1
  have hentries : i < Buffer.entries 4 ⟨encode 4 (cells.map fun c => c.tag.toUInt64)⟩ := by
    rw [entries_encode (by omega), List.length_map]
    exact hlt
  have hentry := entry_encode (by omega : 4 ≤ 8) hget hsmall
  unfold Given.readTag
  show (Buffer.read 4 ⟨encode 4 _⟩ i >>= fun tag => .ok tag.toUInt32) = _
  rw [Buffer.read_ok hentries, hentry]
  exact congrArg Except.ok (UInt32.toUInt32_toUInt64 c.tag)

theorem Sized.offset_next {i : ℕ} {c : CellSpec} (hi : cells[i]? = some c) :
    (givenOf nodes cells).offset (i + 1) = (givenOf nodes cells).offset i + c.nodes.length := by
  obtain ⟨hlt, rfl⟩ := List.getElem?_eq_some_iff.mp hi
  have hrows : i < (nodeRows cells).length := by rw [nodeRows, List.length_map]; exact hlt
  rw [h.offset_eq (by omega), h.offset_eq (by omega), Ragged.length_take_succ hrows]
  simp [nodeRows]

/-- The type of the cell is a known one. -/
def CellSpec.Known (c : CellSpec) : Prop := c.elementType.numNodes ≠ 0

instance (c : CellSpec) : Decidable c.Known := inferInstanceAs (Decidable (_ ≠ _))

theorem Sized.not_badCell {i : ℕ} {c : CellSpec} (hi : cells[i]? = some c) (hknown : c.Known)
    (haccepted : c.Accepted nodes.length) : ¬(givenOf nodes cells).BadCell i := by
  have hnext := h.offset_next hi
  have hlt := (List.getElem?_eq_some_iff.mp hi).1
  rintro (hbad | hbad | ⟨j, hlo, hhi, -, hnode⟩)
  · rw [elementType_eq hi] at hbad
    exact hknown hbad
  · rw [elementType_eq hi, hnext, Nat.add_sub_cancel_left] at hbad
    exact hbad haccepted.1
  · obtain ⟨k, rfl⟩ := Nat.exists_eq_add_of_le hlo
    have hk : k < c.nodes.length := by omega
    rw [h.numNodes_toNat, h.offset_eq (by omega),
      entry_connectivity hi (List.getElem?_eq_getElem hk)] at hnode
    have hsmall := haccepted.2 _ (List.getElem_mem hk)
    omega

theorem Sized.accepted_of_good {i : ℕ} {c : CellSpec} (hi : cells[i]? = some c)
    (hgood : (givenOf nodes cells).GoodCell i) : c.Accepted nodes.length := by
  have hnext := h.offset_next hi
  have hlt := (List.getElem?_eq_some_iff.mp hi).1
  refine ⟨?_, fun idx hidx => ?_⟩
  · have hsize := hgood.size
    rw [elementType_eq hi, hnext, Nat.add_sub_cancel_left] at hsize
    exact hsize
  · obtain ⟨k, hk, rfl⟩ := List.getElem_of_mem hidx
    have hnode := hgood.nodes ((givenOf nodes cells).offset i + k) (by omega) (by omega)
    rw [h.numNodes_toNat, h.offset_eq (by omega),
      entry_connectivity hi (List.getElem?_eq_getElem hk)] at hnode
    exact hnode

omit h in
theorem reserve_ok {width n : ℕ} (hn : n ≤ lim / width) : reserve lim true width n = .ok ⟨⟩ := by
  rw [reserve, if_neg (by omega)]
  rfl

theorem Sized.reserveMesh_ok (hpos : 0 < cells.length) :
    (givenOf nodes cells).reserveMesh lim (fun _ => true) = .ok ⟨⟩ := by
  have hlimit := h.limit
  have hnodes := h.numNodes
  have hcells := h.numCells
  have hthree : (3 * (givenOf nodes cells).numNodes).toNat = 3 * nodes.length := by
    have hbase : (3 : UInt64).toNat = 3 := rfl
    rw [UInt64.toNat_mul, h.numNodes_toNat, hbase]
    omega
  have height : (8 * (givenOf nodes cells).numCells).toNat = 8 * cells.length := by
    have hbase : (8 : UInt64).toNat = 8 := rfl
    rw [UInt64.toNat_mul, h.numCells_toNat, hbase]
    omega
  have hnext : ((givenOf nodes cells).numCells + 1).toNat = cells.length + 1 := by
    have hbase : (1 : UInt64).toNat = 1 := rfl
    rw [UInt64.toNat_add, h.numCells_toNat, hbase]
    omega
  unfold Given.reserveMesh
  rw [hthree, height, hnext, h.numCells_toNat, reserve_ok hnodes, reserve_ok (by omega),
    reserve_ok (by omega), reserve_ok (by omega), reserve_ok hcells]
  rfl

omit h in
theorem read_coords {i k : ℕ} {p : UInt64 × UInt64 × UInt64} {x : UInt64} (hi : nodes[i]? = some p)
    (hk : [p.1, p.2.1, p.2.2][k]? = some x) :
    (givenOf nodes cells).coords.read 8 (i * 3 + k) = .ok x := by
  have hlt := (List.getElem?_eq_some_iff.mp hi).1
  have hrow : (nodes.map fun p => [p.1, p.2.1, p.2.2])[i]? = some [p.1, p.2.1, p.2.2] := by
    rw [List.getElem?_map, hi]
    rfl
  have hthree : ∀ row ∈ nodes.map fun p => [p.1, p.2.1, p.2.2], row.length = 3 := by
    intro row hrow
    obtain ⟨p, -, rfl⟩ := List.mem_map.mp hrow
    rfl
  have hstart := Ragged.length_take_flatten hthree (i := i) (by rw [List.length_map]; omega)
  have hk' : k < 3 := (List.getElem?_eq_some_iff.mp hk).1
  have hget : (coordinates nodes)[i * 3 + k]? = some x := by
    rw [← hstart]
    exact (Ragged.getElem?_row hrow hk').trans hk
  have hentries : i * 3 + k < Buffer.entries 8 ⟨encode 8 (coordinates nodes)⟩ := by
    rw [entries_encode (by omega), length_coordinates]
    omega
  exact (Buffer.read_ok hentries).trans
    (congrArg Except.ok (entry_encode (by omega) hget (UInt64.toNat_lt _)))

theorem Sized.addNodes_ok : (givenOf nodes cells).addNodes lim (fun _ => true) =
    .ok (⟨nodes, []⟩, List.range nodes.length) := by
  have hnodes := h.numNodes
  have hloop : Ends (forRange (givenOf nodes cells).addNode nodes.length 0 ({}, [])) (fun _ => False)
      (fun s => s = (⟨nodes.take (0 + nodes.length), []⟩, List.range (0 + nodes.length))) := by
    refine Ends.forRange
      (I := fun i (s : Mesh × List ℕ) => s = (⟨nodes.take i, []⟩, List.range i)) ?_ rfl
    rintro i s - hi rfl
    have hi : i < nodes.length := by omega
    have hget := List.getElem?_eq_getElem hi
    unfold Given.addNode
    rw [read_coords hget rfl, read_coords hget rfl, read_coords hget rfl]
    refine Ends.ok (Prod.ext ?_ ?_)
    · show Mesh.mk (nodes.take i ++ [nodes[i]]) [] = _
      rw [List.take_succ_eq_append_getElem hi]
    · show List.range i ++ [(nodes.take i).length] = _
      rw [List.length_take, Nat.min_eq_left (by omega), List.range_succ]
  rw [Nat.zero_add, List.take_length] at hloop
  unfold Given.addNodes
  rw [h.numNodes_toNat, reserve_ok (by omega)]
  show catchBadAlloc _ (forRange (givenOf nodes cells).addNode nodes.length 0 ({}, [])) = _
  rw [hloop.eq_ok]
  rfl

theorem Sized.gather_ok {i : ℕ} {c : CellSpec} (hi : cells[i]? = some c) (hc : c.Accepted nodes.length) :
    forRange ((givenOf nodes cells).gatherNode (List.range nodes.length)) c.nodes.length
      ((givenOf nodes cells).offset i) [] = .ok (c.nodes.map UInt64.toNat) := by
  have hlt := (List.getElem?_eq_some_iff.mp hi).1
  have hstart := h.offset_eq (Nat.le_of_lt hlt)
  have hreach : (givenOf nodes cells).offset (i + 1) ≤ (givenOf nodes cells).connectivity.entries 8 := by
    rw [h.offset_eq hlt, connectivity_entries]
    exact Ragged.length_flatten_le (List.take_prefix _ _)
  have hnext := h.offset_next hi
  set start := (givenOf nodes cells).offset i
  have hloop : Ends (forRange ((givenOf nodes cells).gatherNode (List.range nodes.length)) c.nodes.length
      start []) (fun _ => False)
      (fun got => got = (c.nodes.take (start + c.nodes.length - start)).map UInt64.toNat) := by
    refine Ends.forRange (I := fun j got => got = (c.nodes.take (j - start)).map UInt64.toNat) ?_
      (by rw [Nat.sub_self]; rfl)
    rintro j got hlo hhi rfl
    obtain ⟨k, rfl⟩ := Nat.exists_eq_add_of_le hlo
    have hk : k < c.nodes.length := by omega
    have hentry := @entry_connectivity nodes cells i k c _ hi (List.getElem?_eq_getElem hk)
    rw [← hstart] at hentry
    have hsmall := hc.2 _ (List.getElem_mem hk)
    unfold Given.gatherNode
    rw [Buffer.read_ok (by omega), hentry]
    simp only [bind, Except.bind, List.getElem?_range hsmall]
    refine Ends.ok ?_
    rw [Nat.add_sub_cancel_left, show start + k + 1 - start = k + 1 by omega,
      List.take_succ_eq_append_getElem hk, List.map_append]
    rfl
  rw [Nat.add_sub_cancel_left, List.take_length] at hloop
  exact hloop.eq_ok

theorem Sized.addCell_ok {i : ℕ} {c : CellSpec} (hi : cells[i]? = some c) {mesh : Mesh}
    (hmesh : mesh.nodes = nodes) (hc : c.Accepted nodes.length) :
    (givenOf nodes cells).addCell lim (fun _ => true) (List.range nodes.length) i mesh =
      .ok { mesh with cells := mesh.cells ++ [c.cell] } := by
  have hlt := (List.getElem?_eq_some_iff.mp hi).1
  have hentries : (givenOf nodes cells).offsets.entries 8 = cells.length + 1 := offsets_entries
  have htypes : i < (givenOf nodes cells).types.entries 2 := by
    show i < Buffer.entries 2 ⟨encode 2 _⟩
    rw [entries_encode (by omega), List.length_map]
    exact hlt
  have hordered := h.ordered
  have hnext := h.offset_next hi
  have hcount : (givenOf nodes cells).offset (i + 1) - (givenOf nodes cells).offset i = c.nodes.length := by
    omega
  have hroom := c.elementType.numNodes_le
  have harity := hc.1
  have hbuilt : mesh.addCell true c.elementType (c.nodes.map UInt64.toNat) c.tag =
      .ok { mesh with cells := mesh.cells ++ [c.cell] } := CellSpec.Accepted.addCell (hmesh ▸ hc)
  unfold Given.addCell
  rw [Buffer.read_ok htypes, Buffer.read_ok (by omega), Buffer.read_ok (by omega)]
  show (Given.reserveScratch lim _ i ((givenOf nodes cells).offsets.entry 8 (i + 1) -
    (givenOf nodes cells).offsets.entry 8 i).toNat >>= fun _ => forRange
      ((givenOf nodes cells).gatherNode (List.range nodes.length))
      ((givenOf nodes cells).offset (i + 1) - (givenOf nodes cells).offset i)
      ((givenOf nodes cells).offset i) [] >>= fun cellNodes =>
    (givenOf nodes cells).readTag i >>= fun tag =>
    Given.insertCell _ i ((givenOf nodes cells).elementType i) cellNodes tag mesh) = _
  rw [Given.toNat_sub_offset (hordered.mono i (by omega)), hcount, Given.reserveScratch, if_pos (by omega),
    h.gather_ok hi hc, readTag_eq hi, elementType_eq hi]
  show Given.insertCell (fun _ => true) i c.elementType (c.nodes.map UInt64.toNat) c.tag mesh = _
  unfold Given.insertCell
  rw [hbuilt]

theorem Sized.fits : (givenOf nodes cells).Fits lim := by
  intro _ _
  refine ⟨by rw [offsets_entries, h.numCells_toNat], fun _ => Or.inr ⟨?_, ?_, ?_⟩⟩
  · rw [h.totalNodeRefs_eq, connectivity_entries]
  · rw [h.numNodes_toNat]
    exact h.numNodes
  · rw [h.numCells_toNat]
    exact h.numCells

theorem Sized.build_ok_iff (hpos : 0 < cells.length) (built : Mesh) :
    (givenOf nodes cells).build lim (fun _ => true) = .ok built ↔
      (∀ c ∈ cells, c.Known ∧ c.Accepted nodes.length) ∧ built = ⟨nodes, cells.map CellSpec.cell⟩ := by
  have hm : (givenOf nodes cells).numCells.toNat + 1 = (givenOf nodes cells).offsets.entries 8 := by
    rw [offsets_entries, h.numCells_toNat]
  obtain ⟨-, htypes, -⟩ := h.sizes.whole hm
  have htotal : (givenOf nodes cells).totalNodeRefs ≤ (givenOf nodes cells).connectivity.entries 8 := by
    rw [h.totalNodeRefs_eq, connectivity_entries]
  rw [Given.build_eq h.sizes h.ordered hm h.connectivitySize]
  by_cases hgood : ∀ c ∈ cells, c.Known ∧ c.Accepted nodes.length
  · have hchecks : forRange (givenOf nodes cells).checkCell (givenOf nodes cells).numCells.toNat 0 ⟨⟩ =
        .ok ⟨⟩ := by
      refine Given.checkCells_pass h.ordered hm htypes htotal fun i hi => ?_
      rw [h.numCells_toNat] at hi
      obtain ⟨hknown, haccepted⟩ := hgood _ (List.getElem_mem hi)
      exact h.not_badCell (List.getElem?_eq_getElem hi) hknown haccepted
    have hloop : Ends (forRange ((givenOf nodes cells).addCell lim (fun _ => true)
        (List.range nodes.length)) cells.length 0 ⟨nodes, []⟩) (fun _ => False)
        (fun mesh => mesh = Mesh.mk nodes ((cells.take (0 + cells.length)).map CellSpec.cell)) := by
      refine Ends.forRange (I := fun i mesh => mesh = Mesh.mk nodes ((cells.take i).map CellSpec.cell)) ?_ rfl
      rintro i mesh - hi rfl
      have hi : i < cells.length := by omega
      have hget := List.getElem?_eq_getElem hi
      rw [h.addCell_ok hget rfl (hgood _ (List.getElem_mem hi)).2]
      refine Ends.ok ?_
      rw [List.take_succ_eq_append_getElem hi, List.map_append]
      rfl
    rw [Nat.zero_add, List.take_length] at hloop
    rw [hchecks, h.reserveMesh_ok hpos, h.addNodes_ok, h.numCells_toNat]
    show forRange _ cells.length 0 (Mesh.mk nodes []) = _ ↔ _
    rw [hloop.eq_ok]
    constructor
    · intro hbuilt
      exact ⟨hgood, (Except.ok.inj hbuilt).symm⟩
    · rintro ⟨-, rfl⟩
      rfl
  · have hchecks := Given.checkCells_answered h.fits h.sizes h.ordered h.connectivitySize
    cases hcheck : forRange (givenOf nodes cells).checkCell (givenOf nodes cells).numCells.toNat 0 ⟨⟩ with
    | error e => exact ⟨(fun hbuilt => nomatch hbuilt), fun hbuilt => absurd hbuilt.1 hgood⟩
    | ok _ =>
      rw [hcheck] at hchecks
      refine absurd (fun c hc => ?_) hgood
      obtain ⟨i, hi, rfl⟩ := List.getElem_of_mem hc
      obtain ⟨hcell, hknown⟩ := hchecks.1 i (by rw [h.numCells_toNat]; exact hi)
      rw [elementType_eq (List.getElem?_eq_getElem hi)] at hknown
      exact ⟨hknown, h.accepted_of_good (List.getElem?_eq_getElem hi) hcell⟩

end

/-- The bulk constructor builds the mesh of the incremental one, when there is a node and a cell and every type is
known; otherwise it refuses. -/
theorem bulk_agrees {lim : ℕ} {nodes : List (UInt64 × UInt64 × UInt64)} {cells : List CellSpec}
    (h : Sized lim nodes cells) (built : Mesh) :
    souxmarMeshFromBuffers lim (fun _ => true) (some (buffersOf nodes cells)) = .ok built ↔
      nodes ≠ [] ∧ cells ≠ [] ∧ (∀ c ∈ cells, c.Known) ∧ addCells cells (addNodes nodes) = .ok built := by
  rw [addNodes_eq, addCells_ok_iff]
  have hrefused : (buffersOf nodes cells).given = none →
      ¬souxmarMeshFromBuffers lim (fun _ => true) (some (buffersOf nodes cells)) = .ok built := by
    intro hnone hbuilt
    rw [souxmarMeshFromBuffers] at hbuilt
    rw [hnone] at hbuilt
    exact nomatch hbuilt
  by_cases hnodes : nodes = []
  · refine iff_of_false (hrefused ?_) fun hbuilt => hbuilt.1 hnodes
    rw [hnodes]
    rfl
  by_cases hcells : cells = []
  · refine iff_of_false (hrefused ?_) fun hbuilt => hbuilt.2.1 hcells
    rw [hcells]
    unfold buffersOf MeshBuffers.given
    cases filled (encode 8 (coordinates nodes)) <;> rfl
  by_cases hrefs : (nodeRows cells).flatten = []
  · -- no cell has a node, so none has one of the known types
    refine iff_of_false (hrefused ?_) ?_
    · unfold buffersOf MeshBuffers.given
      rw [hrefs]
      cases filled (encode 8 (coordinates nodes)) <;>
        cases filled (encode 2 (cells.map fun c => c.type.toUInt64)) <;> rfl
    · rintro ⟨-, -, hknown, haccepted, -⟩
      obtain ⟨c, cells', rfl⟩ := List.exists_cons_of_ne_nil hcells
      have hnone : c.nodes = [] := List.append_eq_nil_iff.mp hrefs |>.1
      have harity := (haccepted c List.mem_cons_self).1
      rw [hnone] at harity
      exact hknown c List.mem_cons_self harity.symm
  · unfold souxmarMeshFromBuffers
    dsimp only
    rw [h.given hnodes hcells hrefs]
    show (givenOf nodes cells).build lim (fun _ => true) = _ ↔ _
    rw [h.build_ok_iff (List.length_pos_iff.mpr hcells)]
    constructor
    · rintro ⟨hgood, rfl⟩
      exact ⟨hnodes, hcells, fun c hc => (hgood c hc).1, fun c hc => (hgood c hc).2, rfl⟩
    · rintro ⟨-, -, hknown, haccepted, rfl⟩
      exact ⟨fun c hc => ⟨hknown c hc, haccepted c hc⟩, rfl⟩

theorem bulk_agrees_triangle : souxmarMeshFromBuffers (2 ^ 63 - 1) (fun _ => true)
    (some (buffersOf [(0, 0, 0), (1, 0, 0), (0, 1, 0)] [⟨4, [0, 1, 2], 7⟩])) =
      .ok ⟨[(0, 0, 0), (1, 0, 0), (0, 1, 0)], [⟨.tri3, [0, 1, 2], 7⟩]⟩ :=
  (bulk_agrees ⟨by decide, by decide, by decide, by decide⟩ _).mpr
    ⟨List.cons_ne_nil _ _, List.cons_ne_nil _ _, by decide, rfl⟩

/-- A mesh without cells, and a cell of no type, are built call by call only. -/
theorem bulk_refuses_empty :
    (addCells [] (addNodes [(0, 0, 0)]) = .ok ⟨[(0, 0, 0)], []⟩ ∧
      souxmarMeshFromBuffers (2 ^ 63 - 1) (fun _ => true) (some (buffersOf [(0, 0, 0)] [])) =
        writeErr .invalidArgument "a required buffer is NULL") ∧
    (addCells [⟨1, [0], 7⟩, ⟨0, [], 7⟩] (addNodes [(0, 0, 0)]) =
        .ok ⟨[(0, 0, 0)], [⟨.vertex, [0], 7⟩, ⟨.unknown, [], 7⟩]⟩ ∧
      souxmarMeshFromBuffers (2 ^ 63 - 1) (fun _ => true)
        (some (buffersOf [(0, 0, 0)] [⟨1, [0], 7⟩, ⟨0, [], 7⟩])) =
        writeErr .invalidArgument "cell_types[i] is not a known SOUXMAR_ET_*") := by
  decide

end Souxmar.Core
