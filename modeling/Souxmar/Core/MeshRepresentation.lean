import Souxmar.Core.MeshImpl

/-!
# The representation invariant of a mesh

The columns of a mesh stand for a list of nodes and a list of cells (`Represents`), and the packed keys for
pairs of a cell and a face of it, as long as there are at most `2 ^ 56` cells.
-/

namespace Souxmar.Core

open Souxmar.Lib

/-! ## Calls -/

inductive MeshCall
  | addNode (granted : ℕ → Bool) (position : UInt64 × UInt64 × UInt64)
  | addCell (granted : ℕ → Bool) (type : ElementType) (nodeIndices : List UInt64) (tag : UInt32)
  | setFaceTag (granted : ℕ → Bool) (cell : UInt64) (localFace : UInt8) (tag : UInt32)

def MeshCall.granted : MeshCall → ℕ → Bool
  | addNode granted _ => granted
  | addCell granted _ _ _ => granted
  | setFaceTag granted _ _ _ => granted

def MeshCall.perform : MeshCall → MeshImpl → Except Exception Unit × MeshImpl
  | addNode granted position, m =>
    let (result, m) := m.addNode granted position
    (result.map fun _ => (), m)
  | addCell granted type nodeIndices tag, m =>
    let (result, m) := m.addCell granted type nodeIndices tag
    (result.map fun _ => (), m)
  | setFaceTag granted cell localFace tag, m => m.setFaceTag granted cell localFace tag

/-- A mesh, and for each face the tag that was last set for it with success. -/
structure Meshing where
  mesh : MeshImpl := {}
  lastSet : UInt64 → UInt8 → UInt32 := fun _ _ => untagged

def meshStep (s : Meshing) (call : MeshCall) : Meshing :=
  let (result, mesh) := call.perform s.mesh
  ⟨mesh, match call, result with
    | .setFaceTag _ cell localFace tag, .ok _ =>
      fun c f => if c = cell ∧ f = localFace then tag else s.lastSet c f
    | _, _ => s.lastSet⟩

/-- The call throws. -/
def Refused (s : Meshing) (call : MeshCall) : Prop := ∃ e, (call.perform s.mesh).1 = .error e

/-- Every vector finds the memory it asks for, and the keys have room for the cells. -/
def HasRoom (s : Meshing) (call : MeshCall) : Prop :=
  (∀ k, call.granted k = true) ∧ (meshStep s call).mesh.numCells ≤ 2 ^ 56

/-- The representation invariant. -/
structure WellFormed (m : MeshImpl) : Prop where
  first : m.cellNodeOffsets.head? = some 0
  ascending : m.cellNodeOffsets.Pairwise (· ≤ ·)
  count : m.cellNodeOffsets.length = m.numCells + 1
  tags : m.cellTags.length = m.numCells
  last : m.cellNodeOffsets.getLast?.map UInt64.toNat = some m.cellNodeIndices.length
  arity : ∀ i start stop type, m.cellNodeOffsets[i]? = some start → m.cellNodeOffsets[i + 1]? = some stop →
    m.cellTypes[i]? = some type → stop.toNat - start.toNat = type.numNodes
  inRange : ∀ idx ∈ m.cellNodeIndices, idx.toNat < m.numNodes
  faces : ∀ key ∈ m.faceTags, ∃ type, m.cellTypes[(key >>> 8).toNat]? = some type ∧
    (key &&& 0xFF).toUInt8.toNat < type.numFaces

/-! ## What the columns stand for -/

def rows (mesh : Mesh) : List (List ℕ) := mesh.cells.map Cell.nodes

structure Represents (m : MeshImpl) (mesh : Mesh) : Prop where
  nodes : m.nodes = mesh.nodes.flatMap fun p => [p.1, p.2.1, p.2.2]
  types : m.cellTypes = mesh.cells.map Cell.type
  tags : m.cellTags = mesh.cells.map Cell.tag
  indices : m.cellNodeIndices.map UInt64.toNat = (rows mesh).flatten
  offsets : m.cellNodeOffsets = (Ragged.offsets (rows mesh)).map UInt64.ofNat

/-- Every cell has the nodes of its type, and they exist. -/
def Mesh.Valid (mesh : Mesh) : Prop :=
  ∀ cell ∈ mesh.cells, cell.nodes.length = cell.type.numNodes ∧ ∀ idx ∈ cell.nodes, idx < mesh.nodes.length

section

variable {m : MeshImpl} {mesh : Mesh}

theorem Represents.numNodes (h : Represents m mesh) : m.numNodes = mesh.nodes.length := by
  unfold MeshImpl.numNodes
  rw [h.nodes, List.length_flatMap]
  simp

theorem Represents.numCells (h : Represents m mesh) : m.numCells = mesh.cells.length := by
  unfold MeshImpl.numCells
  rw [h.types, List.length_map]

/-- No cell has more than 27 nodes. -/
theorem Mesh.Valid.length_rows (h : mesh.Valid) : (rows mesh).flatten.length ≤ 27 * mesh.cells.length := by
  have hcells : ∀ cells : List Cell, (∀ cell ∈ cells, cell.nodes.length ≤ 27) →
      (cells.map Cell.nodes).flatten.length ≤ 27 * cells.length := by
    intro cells hcells
    induction cells with
    | nil => exact Nat.le_refl _
    | cons cell cells ih =>
      have hhead := hcells cell List.mem_cons_self
      have htail := ih fun c hc => hcells c (List.mem_cons_of_mem _ hc)
      rw [List.map_cons, List.flatten_cons, List.length_append, List.length_cons]
      omega
  exact hcells mesh.cells fun cell hcell => (h cell hcell).1 ▸ cell.type.numNodes_le

theorem Represents.addNode (h : Represents m mesh) (position : UInt64 × UInt64 × UInt64) :
    Represents { m with nodes := m.nodes ++ [position.1] ++ [position.2.1] ++ [position.2.2] }
      (mesh.addNode position).2 where
  nodes := by
    show m.nodes ++ _ ++ _ ++ _ = (mesh.nodes ++ [position]).flatMap _
    rw [List.flatMap_append, ← h.nodes]
    simp
  types := h.types
  tags := h.tags
  indices := h.indices
  offsets := h.offsets

theorem Represents.addCell (h : Represents m mesh) (type : ElementType) (nodeIndices : List UInt64)
    (tag : UInt32) :
    Represents { m with
        cellTypes := m.cellTypes ++ [type]
        cellTags := m.cellTags ++ [tag]
        cellNodeIndices := m.cellNodeIndices ++ nodeIndices
        cellNodeOffsets := m.cellNodeOffsets ++
          [UInt64.ofNat (m.cellNodeIndices ++ nodeIndices).length] }
      { mesh with cells := mesh.cells ++ [⟨type, nodeIndices.map UInt64.toNat, tag⟩] } := by
  have hrows : rows { mesh with cells := mesh.cells ++ [⟨type, nodeIndices.map UInt64.toNat, tag⟩] } =
      rows mesh ++ [nodeIndices.map UInt64.toNat] := by
    unfold rows
    rw [List.map_append]
    rfl
  have hlength : m.cellNodeIndices.length = (rows mesh).flatten.length := by
    rw [← h.indices, List.length_map]
  refine ⟨h.nodes, ?_, ?_, ?_, ?_⟩
  · rw [List.map_append, h.types]
    rfl
  · rw [List.map_append, h.tags]
    rfl
  · rw [hrows, List.map_append, h.indices, List.flatten_append, List.flatten_singleton]
  · rw [hrows, Ragged.offsets_concat, List.map_append, h.offsets, List.length_append, hlength,
      List.length_map]
    rfl

theorem Mesh.Valid.addNode (h : mesh.Valid) (position : UInt64 × UInt64 × UInt64) :
    (mesh.addNode position).2.Valid := by
  intro cell hcell
  obtain ⟨harity, hnodes⟩ := h cell hcell
  refine ⟨harity, fun idx hidx => ?_⟩
  have hlt := hnodes idx hidx
  show idx < (mesh.nodes ++ [position]).length
  rw [List.length_append]
  omega

theorem Mesh.Valid.addCell (h : mesh.Valid) {cell : Cell} (harity : cell.nodes.length = cell.type.numNodes)
    (hnodes : ∀ idx ∈ cell.nodes, idx < mesh.nodes.length) :
    Mesh.Valid { mesh with cells := mesh.cells ++ [cell] } := by
  intro c hc
  rcases List.mem_append.mp hc with hc | hc
  · exact h c hc
  · rw [List.mem_singleton.mp hc]
    exact ⟨harity, hnodes⟩

theorem Represents.wellFormed (h : Represents m mesh) (hvalid : mesh.Valid)
    (hcells : m.numCells ≤ 2 ^ 56) (hfaces : ∀ key ∈ m.faceTags, ∃ type,
      m.cellTypes[(key >>> 8).toNat]? = some type ∧ (key &&& 0xFF).toUInt8.toNat < type.numFaces) :
    WellFormed m := by
  have hnumCells := h.numCells
  have hlength : m.cellNodeIndices.length = (rows mesh).flatten.length := by
    rw [← h.indices, List.length_map]
  have hrows : (rows mesh).length = mesh.cells.length := List.length_map ..
  have hsmall : (rows mesh).flatten.length < 2 ^ 64 := by
    have hmost := hvalid.length_rows
    omega
  have htoNat : ∀ n ∈ Ragged.offsets (rows mesh), (UInt64.ofNat n).toNat = n := by
    intro n hn
    have hle := Ragged.le_of_mem_offsets hn
    exact UInt64.toNat_ofNat_of_lt' (Nat.lt_of_le_of_lt hle hsmall)
  refine ⟨?_, ?_, ?_, ?_, ?_, ?_, ?_, hfaces⟩
  · rw [h.offsets, List.head?_map, Ragged.head_offsets]
    rfl
  · rw [h.offsets, List.pairwise_map]
    refine (Ragged.offsets_ascend (rows mesh)).imp_of_mem fun ha hb hle => ?_
    rw [UInt64.le_iff_toNat_le, htoNat _ ha, htoNat _ hb]
    exact hle
  · rw [h.offsets, List.length_map, Ragged.length_offsets, hrows, hnumCells]
  · rw [h.tags, List.length_map, hnumCells]
  · rw [h.offsets, List.getLast?_map, Ragged.getLast_offsets, hlength]
    simpa using UInt64.toNat_ofNat_of_lt' hsmall
  · intro i start stop type hstart hstop htype
    rw [h.offsets, List.getElem?_map] at hstart hstop
    obtain ⟨a, ha, rfl⟩ := Option.map_eq_some_iff.mp hstart
    obtain ⟨b, hb, rfl⟩ := Option.map_eq_some_iff.mp hstop
    rw [htoNat a (List.mem_of_getElem? ha), htoNat b (List.mem_of_getElem? hb)]
    rw [h.types, List.getElem?_map] at htype
    obtain ⟨cell, hcell, rfl⟩ := Option.map_eq_some_iff.mp htype
    obtain ⟨hi, hcelli⟩ := List.getElem?_eq_some_iff.mp hcell
    obtain ⟨hia, ha⟩ := List.getElem?_eq_some_iff.mp ha
    obtain ⟨hib, hb⟩ := List.getElem?_eq_some_iff.mp hb
    rw [Ragged.getElem_offsets] at ha hb
    have hrow : (rows mesh)[i] = cell.nodes := by
      unfold rows
      rw [List.getElem_map, hcelli]
    have hnext := Ragged.length_take_succ (show i < (rows mesh).length by omega)
    rw [hrow] at hnext
    have harity := (hvalid cell (List.mem_of_getElem? hcell)).1
    omega
  · intro idx hidx
    have hmem : idx.toNat ∈ (rows mesh).flatten := h.indices ▸ List.mem_map_of_mem hidx
    obtain ⟨row, hrow, hidx⟩ := List.mem_flatten.mp hmem
    obtain ⟨cell, hcell, rfl⟩ := List.mem_map.mp hrow
    rw [h.numNodes]
    exact (hvalid cell hcell).2 idx.toNat hidx

end

/-! ## The tags of the faces -/

/-- The keys are those of the faces that have a tag. -/
structure FacesHeld (m : MeshImpl) (lastSet : UInt64 → UInt8 → UInt32) : Prop where
  lookup : ∀ cell localFace, cell.toNat < 2 ^ 56 → m.faceTags.lookup (packFaceKey cell localFace) =
    if lastSet cell localFace = untagged then none else some (lastSet cell localFace)
  real : ∀ cell localFace, lastSet cell localFace ≠ untagged →
    ∃ type, m.cellTypes[cell.toNat]? = some type ∧ localFace.toNat < type.numFaces
  keys : ∀ key ∈ m.faceTags, ∃ type, m.cellTypes[(key >>> 8).toNat]? = some type ∧
    (key &&& 0xFF).toUInt8.toNat < type.numFaces

theorem packFaceKey_inj {cell cell' : UInt64} (h : cell.toNat < 2 ^ 56) (h' : cell'.toNat < 2 ^ 56)
    {localFace localFace' : UInt8} (heq : packFaceKey cell localFace = packFaceKey cell' localFace') :
    cell = cell' ∧ localFace = localFace' :=
  ⟨by rw [← packFaceKey_cell h localFace, heq, packFaceKey_cell h'],
    by rw [← packFaceKey_localFace h localFace, heq, packFaceKey_localFace h']⟩

section

variable {m m' : MeshImpl} {lastSet : UInt64 → UInt8 → UInt32}

theorem FacesHeld.mono (h : FacesHeld m lastSet) (htags : m'.faceTags = m.faceTags)
    (htypes : m.cellTypes <+: m'.cellTypes) : FacesHeld m' lastSet := by
  have hlater : ∀ {i : ℕ} {type : ElementType}, m.cellTypes[i]? = some type →
      m'.cellTypes[i]? = some type := by
    intro i type hi
    obtain ⟨rest, hrest⟩ := htypes
    obtain ⟨hlt, -⟩ := List.getElem?_eq_some_iff.mp hi
    rw [← hrest, List.getElem?_append_left hlt, hi]
  refine ⟨by rw [htags]; exact h.lookup, fun cell localFace hset => ?_, fun key hkey => ?_⟩
  · obtain ⟨type, htype, hface⟩ := h.real cell localFace hset
    exact ⟨type, hlater htype, hface⟩
  · rw [htags] at hkey
    obtain ⟨type, htype, hface⟩ := h.keys key hkey
    exact ⟨type, hlater htype, hface⟩

theorem FacesHeld.faceTag (h : FacesHeld m lastSet) (hcells : m.numCells ≤ 2 ^ 56) (cell : UInt64)
    (localFace : UInt8) : m.faceTag cell localFace = lastSet cell localFace := by
  have hreal := h.real cell localFace
  unfold MeshImpl.faceTag
  cases htype : m.cellTypes[cell.toNat]? with
  | none =>
    by_contra hne
    obtain ⟨type, htype', -⟩ := hreal (Ne.symm hne)
    rw [htype] at htype'
    exact nomatch htype'
  | some type =>
    dsimp only
    split_ifs with hface
    · by_contra hne
      obtain ⟨type', htype', hface'⟩ := hreal (Ne.symm hne)
      obtain rfl := Option.some.inj (htype.symm.trans htype')
      omega
    · obtain ⟨hlt, -⟩ := List.getElem?_eq_some_iff.mp htype
      have hcell : cell.toNat < 2 ^ 56 := Nat.lt_of_lt_of_le hlt hcells
      rw [h.lookup cell localFace hcell]
      split_ifs with hset
      · exact hset.symm
      · rfl

theorem FacesHeld.set (h : FacesHeld m lastSet) {cell : UInt64} {localFace : UInt8} {type : ElementType}
    (hcell : cell.toNat < 2 ^ 56) (htype : m.cellTypes[cell.toNat]? = some type)
    (hface : localFace.toNat < type.numFaces) (tag : UInt32) :
    FacesHeld { m with faceTags :=
        if tag = untagged then m.faceTags.erase (packFaceKey cell localFace)
        else m.faceTags.insert (packFaceKey cell localFace) tag }
      (fun c f => if c = cell ∧ f = localFace then tag else lastSet c f) := by
  have hupdated : ∀ c f, c = cell ∧ f = localFace →
      (if c = cell ∧ f = localFace then tag else lastSet c f) = tag := fun c f hsame => if_pos hsame
  have hother : ∀ c f, ¬(c = cell ∧ f = localFace) →
      (if c = cell ∧ f = localFace then tag else lastSet c f) = lastSet c f := fun c f hne => if_neg hne
  refine ⟨fun c f hc => ?_, fun c f hset => ?_, fun key hkey => ?_⟩
  · by_cases hsame : c = cell ∧ f = localFace
    · dsimp only
      rw [hupdated c f hsame, hsame.1, hsame.2]
      by_cases htag : tag = untagged
      · rw [if_pos htag, if_pos htag, AList.lookup_erase]
      · rw [if_neg htag, if_neg htag, AList.lookup_insert]
    · have hkey : packFaceKey c f ≠ packFaceKey cell localFace := fun heq =>
        hsame (packFaceKey_inj hc hcell heq)
      dsimp only
      rw [hother c f hsame, ← h.lookup c f hc]
      by_cases htag : tag = untagged
      · rw [if_pos htag, AList.lookup_erase_ne hkey]
      · rw [if_neg htag, AList.lookup_insert_ne hkey]
  · by_cases hsame : c = cell ∧ f = localFace
    · rw [hsame.1, hsame.2]
      exact ⟨type, htype, hface⟩
    · rw [hother c f hsame] at hset
      exact h.real c f hset
  · by_cases hsame : key = packFaceKey cell localFace
    · rw [hsame, packFaceKey_cell hcell, packFaceKey_localFace hcell]
      exact ⟨type, htype, hface⟩
    · refine h.keys key ?_
      by_cases htag : tag = untagged
      · rw [if_pos htag] at hkey
        exact (AList.mem_erase.mp hkey).2
      · rw [if_neg htag] at hkey
        exact (AList.mem_insert _).mp hkey |>.resolve_left hsame

end

/-! ## One call -/

theorem grow_all {σ : Type} {granted : ℕ → Bool} (h : ∀ k, granted k = true) (k : ℕ)
    (pushes : List (σ → σ)) (s : σ) :
    grow granted k pushes s = (.ok (), pushes.foldl (fun s push => push s) s) := by
  induction pushes generalizing k s with
  | nil => rfl
  | cons push pushes ih => rw [grow, if_pos (h k), ih, List.foldl_cons]

theorem perform_addCell {m : MeshImpl} {granted : ℕ → Bool} {type : ElementType} {nodeIndices : List UInt64}
    (hgranted : ∀ k, granted k = true) (harity : nodeIndices.length = type.numNodes)
    (hrange : ¬∃ idx ∈ nodeIndices, idx.toNat ≥ m.nodes.length / 3) (tag : UInt32) :
    MeshCall.perform (.addCell granted type nodeIndices tag) m = (.ok (),
      { m with
        cellTypes := m.cellTypes ++ [type]
        cellTags := m.cellTags ++ [tag]
        cellNodeIndices := m.cellNodeIndices ++ nodeIndices
        cellNodeOffsets := m.cellNodeOffsets ++
          [UInt64.ofNat (m.cellNodeIndices ++ nodeIndices).length] }) := by
  rw [MeshCall.perform, MeshImpl.addCell, if_neg (not_not.mpr harity), if_neg hrange, grow_all hgranted]
  rfl

/-- The state of a mesh between calls. -/
structure Sound (s : Meshing) : Prop where
  represents : ∃ mesh, Represents s.mesh mesh ∧ mesh.Valid
  faces : FacesHeld s.mesh s.lastSet
  cells : s.mesh.numCells ≤ 2 ^ 56

theorem sound_start : Sound {} := by
  refine ⟨⟨{}, ⟨rfl, rfl, rfl, rfl, rfl⟩, fun cell hcell => nomatch hcell⟩, ⟨?_, ?_, ?_⟩, by decide⟩
  · intro cell localFace _
    rfl
  · intro cell localFace hset
    exact absurd rfl hset
  · intro key hkey
    exact nomatch hkey

theorem Sound.addNode {s : Meshing} (h : Sound s) {granted : ℕ → Bool} (position : UInt64 × UInt64 × UInt64)
    (hgranted : ∀ k, granted k = true) (hcells : (meshStep s (.addNode granted position)).mesh.numCells ≤ 2 ^ 56) :
    Sound (meshStep s (.addNode granted position)) ∧
      (Refused s (.addNode granted position) → (meshStep s (.addNode granted position)).mesh = s.mesh) := by
  obtain ⟨mesh, hmesh, hvalid⟩ := h.represents
  have hresult : MeshCall.perform (.addNode granted position) s.mesh = (.ok (),
      { s.mesh with nodes := s.mesh.nodes ++ [position.1] ++ [position.2.1] ++ [position.2.2] }) := by
    rw [MeshCall.perform, MeshImpl.addNode, grow_all hgranted]
    rfl
  unfold Refused
  rw [meshStep, hresult] at hcells ⊢
  exact ⟨⟨⟨_, hmesh.addNode position, hvalid.addNode position⟩,
    h.faces.mono rfl (List.prefix_refl _), hcells⟩, fun ⟨e, he⟩ => nomatch he⟩

theorem Sound.addCell {s : Meshing} (h : Sound s) {granted : ℕ → Bool}
    (type : ElementType) (nodeIndices : List UInt64) (tag : UInt32)
    (hgranted : ∀ k, granted k = true)
    (hcells : (meshStep s (.addCell granted type nodeIndices tag)).mesh.numCells ≤ 2 ^ 56) :
    Sound (meshStep s (.addCell granted type nodeIndices tag)) ∧
      (Refused s (.addCell granted type nodeIndices tag) →
        (meshStep s (.addCell granted type nodeIndices tag)).mesh = s.mesh) := by
  obtain ⟨mesh, hmesh, hvalid⟩ := h.represents
  by_cases harity : nodeIndices.length = type.numNodes
  · by_cases hrange : ∃ idx ∈ nodeIndices, idx.toNat ≥ s.mesh.nodes.length / 3
    · have hresult : MeshCall.perform (.addCell granted type nodeIndices tag) s.mesh =
          (.error .outOfRange, s.mesh) := by
        rw [MeshCall.perform, MeshImpl.addCell, if_neg (not_not.mpr harity), if_pos hrange]
        rfl
      rw [meshStep, hresult]
      exact ⟨h, fun _ => rfl⟩
    · have hresult := perform_addCell hgranted harity hrange tag
      have hnodes : ∀ idx ∈ nodeIndices.map UInt64.toNat, idx < mesh.nodes.length := by
        intro idx hidx
        obtain ⟨node, hnode, rfl⟩ := List.mem_map.mp hidx
        by_contra hlarge
        have hcount := hmesh.numNodes
        unfold MeshImpl.numNodes at hcount
        exact hrange ⟨node, hnode, by omega⟩
      unfold Refused
      rw [meshStep, hresult] at hcells ⊢
      exact ⟨⟨⟨_, hmesh.addCell type nodeIndices tag,
        hvalid.addCell (by simpa using harity) hnodes⟩,
        h.faces.mono rfl (List.prefix_append _ _), hcells⟩, fun ⟨e, he⟩ => nomatch he⟩
  · have hresult : MeshCall.perform (.addCell granted type nodeIndices tag) s.mesh =
        (.error .invalidArgument, s.mesh) := by
      rw [MeshCall.perform, MeshImpl.addCell, if_pos harity]
      rfl
    rw [meshStep, hresult]
    exact ⟨h, fun _ => rfl⟩

theorem Sound.setFaceTag {s : Meshing} (h : Sound s) {granted : ℕ → Bool}
    (cell : UInt64) (localFace : UInt8) (tag : UInt32)
    (hgranted : ∀ k, granted k = true)
    (hcells : (meshStep s (.setFaceTag granted cell localFace tag)).mesh.numCells ≤ 2 ^ 56) :
    Sound (meshStep s (.setFaceTag granted cell localFace tag)) ∧
      (Refused s (.setFaceTag granted cell localFace tag) →
        (meshStep s (.setFaceTag granted cell localFace tag)).mesh = s.mesh) := by
  obtain ⟨mesh, hmesh, hvalid⟩ := h.represents
  cases htype : s.mesh.cellTypes[cell.toNat]? with
  | none =>
    have hresult : MeshCall.perform (.setFaceTag granted cell localFace tag) s.mesh =
        (.error .outOfRange, s.mesh) := by
      rw [MeshCall.perform, MeshImpl.setFaceTag, htype]
    rw [meshStep, hresult]
    exact ⟨h, fun _ => rfl⟩
  | some type =>
    by_cases hface : localFace.toNat ≥ type.numFaces
    · have hresult : MeshCall.perform (.setFaceTag granted cell localFace tag) s.mesh =
          (.error .invalidArgument, s.mesh) := by
        rw [MeshCall.perform, MeshImpl.setFaceTag, htype]
        exact if_pos hface
      rw [meshStep, hresult]
      exact ⟨h, fun _ => rfl⟩
    · have hresult : MeshCall.perform (.setFaceTag granted cell localFace tag) s.mesh = (.ok (),
          { s.mesh with faceTags :=
              if tag = untagged then s.mesh.faceTags.erase (packFaceKey cell localFace)
              else s.mesh.faceTags.insert (packFaceKey cell localFace) tag }) := by
        rw [MeshCall.perform, MeshImpl.setFaceTag, htype]
        dsimp only
        rw [if_neg hface]
        by_cases htag : tag = untagged
        · rw [if_pos htag, if_pos htag]
        · rw [if_neg htag, if_neg htag, grow_all hgranted]
          rfl
      have hlt : cell.toNat < s.mesh.cellTypes.length := (List.getElem?_eq_some_iff.mp htype).1
      have hcell : cell.toNat < 2 ^ 56 := Nat.lt_of_lt_of_le hlt h.cells
      unfold Refused
      rw [meshStep, hresult] at hcells ⊢
      refine ⟨⟨⟨mesh, ⟨hmesh.nodes, hmesh.types, hmesh.tags, hmesh.indices, hmesh.offsets⟩, hvalid⟩,
        ?_, hcells⟩, fun ⟨e, he⟩ => nomatch he⟩
      exact h.faces.set hcell htype (Nat.lt_of_not_le hface) tag

theorem Sound.step {s : Meshing} (h : Sound s) {call : MeshCall} (hfits : HasRoom s call) :
    Sound (meshStep s call) ∧ (Refused s call → (meshStep s call).mesh = s.mesh) := by
  obtain ⟨hgranted, hcells⟩ := hfits
  cases call with
  | addNode granted position => exact h.addNode position hgranted hcells
  | addCell granted type nodeIndices tag => exact h.addCell type nodeIndices tag hgranted hcells
  | setFaceTag granted cell localFace tag => exact h.setFaceTag cell localFace tag hgranted hcells

/-! ## Runs -/

theorem Sound.run {calls : List MeshCall}
    (h : Along meshStep (fun _ s call => HasRoom s call) [] {} calls) :
    Sound (run meshStep {} calls) ∧
    Along meshStep (fun _ s call => Refused s call → (meshStep s call).mesh = s.mesh) [] {} calls := by
  have hkeep : ∀ (past : List (Meshing × MeshCall)) (s : Meshing) (call : MeshCall),
      Sound s → HasRoom s call → Sound (meshStep s call) := fun _ s call hsound hfits =>
    (hsound.step hfits).1
  have hsafe : ∀ (past : List (Meshing × MeshCall)) (s : Meshing) (call : MeshCall),
      Sound s → HasRoom s call → Refused s call → (meshStep s call).mesh = s.mesh :=
    fun _ s call hsound hfits => (hsound.step hfits).2
  exact ⟨Along.invariant hkeep sound_start h, Along.of_invariant hkeep hsafe sound_start h⟩

/-- As long as memory is found and there are at most `2 ^ 56` cells, the mesh keeps its representation
invariant, a face has the tag last set for it, and a call that throws changes nothing. -/
theorem mesh_representation {calls : List MeshCall}
    (h : Along meshStep (fun _ s call => HasRoom s call) [] {} calls) :
    WellFormed (run meshStep {} calls).mesh ∧
    (∀ cell localFace, (run meshStep {} calls).mesh.faceTag cell localFace =
      (run meshStep {} calls).lastSet cell localFace) ∧
    Along meshStep (fun _ s call => Refused s call → (meshStep s call).mesh = s.mesh) [] {} calls := by
  obtain ⟨hsound, hrefused⟩ := Sound.run h
  obtain ⟨mesh, hmesh, hvalid⟩ := hsound.represents
  exact ⟨hmesh.wellFormed hvalid hsound.cells hsound.faces.keys,
    hsound.faces.faceTag hsound.cells, hrefused⟩

/-- A node, a vertex cell, a cell that is refused, and a face of a triangle that is set and unset. -/
def sampleCalls : List MeshCall :=
  [.addNode (fun _ => true) (0, 0, 0), .addCell (fun _ => true) .vertex [0] 7,
    .addCell (fun _ => true) .edge2 [0, 5] 7, .addCell (fun _ => true) .tri3 [0, 0, 0] untagged,
    .setFaceTag (fun _ => true) 1 2 4, .setFaceTag (fun _ => true) 0 0 4,
    .setFaceTag (fun _ => true) 1 2 untagged]

theorem mesh_representation_sample : WellFormed (run meshStep {} sampleCalls).mesh ∧
    (∀ cell localFace, (run meshStep {} sampleCalls).mesh.faceTag cell localFace =
      (run meshStep {} sampleCalls).lastSet cell localFace) ∧
    Along meshStep (fun _ s call => Refused s call → (meshStep s call).mesh = s.mesh) [] {} sampleCalls :=
  mesh_representation ⟨⟨fun _ => rfl, by decide⟩, ⟨fun _ => rfl, by decide⟩, ⟨fun _ => rfl, by decide⟩,
    ⟨fun _ => rfl, by decide⟩, ⟨fun _ => rfl, by decide⟩, ⟨fun _ => rfl, by decide⟩,
    ⟨fun _ => rfl, by decide⟩, trivial⟩

/-! ## Without the two conditions -/

/-- Triangles on one node. -/
def triangles (n : ℕ) : MeshImpl where
  nodes := [0, 0, 0]
  cellTypes := List.replicate n .tri3
  cellTags := List.replicate n untagged
  cellNodeOffsets := (List.range (n + 1)).map fun k => UInt64.ofNat (3 * k)
  cellNodeIndices := List.replicate (3 * n) 0

def addTriangle : MeshCall := .addCell (fun _ => true) .tri3 [0, 0, 0] untagged

theorem addTriangle_step (n : ℕ) :
    meshStep { mesh := triangles n } addTriangle = { mesh := triangles (n + 1) } := by
  have hrange : ¬∃ idx ∈ ([0, 0, 0] : List UInt64), idx.toNat ≥ (triangles n).nodes.length / 3 := by
    rintro ⟨idx, hidx, hlarge⟩
    rw [show idx = 0 by simpa using hidx] at hlarge
    have hlength : (triangles n).nodes.length = 3 := rfl
    rw [hlength] at hlarge
    exact absurd hlarge (by decide)
  have hresult := @perform_addCell (triangles n) (fun _ => true) .tri3 [0, 0, 0] (fun _ => rfl) rfl hrange
    untagged
  have hmesh : (triangles (n + 1)) = { triangles n with
        cellTypes := (triangles n).cellTypes ++ [.tri3]
        cellTags := (triangles n).cellTags ++ [untagged]
        cellNodeIndices := (triangles n).cellNodeIndices ++ [0, 0, 0]
        cellNodeOffsets := (triangles n).cellNodeOffsets ++
          [UInt64.ofNat ((triangles n).cellNodeIndices ++ [0, 0, 0]).length] } := by
    have hlength : ((triangles n).cellNodeIndices ++ [0, 0, 0]).length = 3 * (n + 1) := by
      rw [List.length_append, triangles, List.length_replicate]
      rfl
    have hindices : List.replicate (3 * (n + 1)) (0 : UInt64) = List.replicate (3 * n) 0 ++ [0, 0, 0] := by
      rw [show 3 * (n + 1) = 3 * n + 3 by omega, List.replicate_add]
      rfl
    rw [hlength]
    unfold triangles
    rw [hindices, List.range_succ (n := n + 1), List.map_append, List.replicate_succ', List.replicate_succ']
    rfl
  rw [meshStep, addTriangle, hresult, hmesh]

theorem run_addTriangle (n k : ℕ) :
    run meshStep { mesh := triangles n } (List.replicate k addTriangle) =
      { mesh := triangles (n + k) } := by
  induction k generalizing n with
  | zero => rfl
  | succ k ih =>
    rw [List.replicate_succ, run_cons, addTriangle_step, ih]
    congr 2
    omega

/-- After these calls the face 0 of the cell 0 has a tag that was set for another cell. -/
def aliasedCalls (n : ℕ) : List MeshCall :=
  .addNode (fun _ => true) (0, 0, 0) :: (List.replicate n addTriangle ++
    [.setFaceTag (fun _ => true) (UInt64.ofNat (2 ^ 56)) 0 7])

theorem run_aliasedCalls (n : ℕ) : run meshStep {} (aliasedCalls n) =
    meshStep { mesh := triangles n } (.setFaceTag (fun _ => true) (UInt64.ofNat (2 ^ 56)) 0 7) := by
  have hstart : meshStep {} (.addNode (fun _ => true) (0, 0, 0)) = { mesh := triangles 0 } := rfl
  unfold aliasedCalls
  rw [run_cons, hstart, run_append, run_addTriangle, Nat.zero_add, run_cons, run_nil]

theorem setFaceTag_triangles {n : ℕ} {cell : UInt64} (h : cell.toNat < n) :
    MeshCall.perform (.setFaceTag (fun _ => true) cell 0 7) (triangles n) =
      (.ok (), { triangles n with faceTags := AList.insert (packFaceKey cell 0) 7 ∅ }) := by
  have htype : (triangles n).cellTypes[cell.toNat]? = some .tri3 := by
    unfold triangles
    rw [List.getElem?_replicate, if_pos h]
  rw [MeshCall.perform, MeshImpl.setFaceTag, htype]
  rfl

theorem faceTag_triangles {n : ℕ} (h : 0 < n) (faceTags : Dict UInt64 UInt32) :
    MeshImpl.faceTag 0 0 { triangles n with faceTags } =
      (faceTags.lookup (packFaceKey 0 0)).getD untagged := by
  have htype : (triangles n).cellTypes[(0 : UInt64).toNat]? = some .tri3 := by
    unfold triangles
    rw [List.getElem?_replicate]
    exact if_pos h
  unfold MeshImpl.faceTag
  dsimp only
  rw [htype]
  rfl

theorem aliased_face {n : ℕ} (h : 2 ^ 56 < n) :
    (run meshStep {} (aliasedCalls n)).mesh.faceTag 0 0 = 7 ∧
    (run meshStep {} (aliasedCalls n)).lastSet 0 0 = untagged := by
  have hbound : (UInt64.ofNat (2 ^ 56)).toNat < n := h
  have hresult := setFaceTag_triangles hbound
  rw [run_aliasedCalls, meshStep, hresult]
  refine ⟨?_, ?_⟩
  · have hkey : packFaceKey 0 0 = packFaceKey (UInt64.ofNat (2 ^ 56)) 0 := by decide
    rw [faceTag_triangles (by omega), hkey, AList.lookup_insert]
    rfl
  · have hother : ¬((0 : UInt64) = UInt64.ofNat (2 ^ 56) ∧ (0 : UInt8) = 0) := by decide
    show (if (0 : UInt64) = UInt64.ofNat (2 ^ 56) ∧ (0 : UInt8) = 0 then 7 else untagged) = untagged
    exact if_neg hother

/-- With more cells two faces share a key; without memory a cell is added in part. -/
theorem mesh_not_represented :
    ((run meshStep {} (aliasedCalls (2 ^ 56 + 1))).mesh.faceTag 0 0 = 7 ∧
      (run meshStep {} (aliasedCalls (2 ^ 56 + 1))).lastSet 0 0 = untagged) ∧
    (¬WellFormed (run meshStep {} [.addNode (fun _ => true) (0, 0, 0),
        .addCell (fun k => k == 0) .vertex [0] 7]).mesh ∧
      Refused (run meshStep {} [.addNode (fun _ => true) (0, 0, 0)])
        (.addCell (fun k => k == 0) .vertex [0] 7)) := by
  refine ⟨aliased_face (Nat.lt_succ_self _), ?_, ⟨.badAlloc, rfl⟩⟩
  intro h
  exact absurd h.tags (by decide)

end Souxmar.Core
