import Souxmar.Am.LayeredSides

/-!
# What the layered mesher builds

Every call on the mesh succeeds. The cells are those of the numbered grid, and the tags those that the list of sides
leaves for each cell.
-/

namespace Souxmar.Am.LayeredMesher

open Souxmar.Core Souxmar.Lib

section

variable {K : Type*} [Field K] [LinearOrder K]

/-! ## What the calls do -/

/-- What a list of sides leaves as the tag of a face. -/
def tagAfter (f : UInt8) (ss : List (Bool × Side)) (t : UInt32) : UInt32 :=
  ss.foldl (fun t s => if s.1 = true ∧ f = s.2.localFace then s.2.tag else t) t

/-- The tags with those of the list set at the cell. -/
def tagsAfter (cell : UInt64) (ss : List (Bool × Side)) (lastSet : UInt64 → UInt8 → UInt32) (c : UInt64) (f : UInt8) :
    UInt32 :=
  if c = cell then tagAfter f ss (lastSet c f) else lastSet c f

theorem tagsAfter_set {cell : UInt64} {s : Bool × Side} (hs : s.1 = true) {ss : List (Bool × Side)}
    {lastSet : UInt64 → UInt8 → UInt32} :
    tagsAfter cell (s :: ss) lastSet =
      tagsAfter cell ss fun c f => if c = cell ∧ f = s.2.localFace then s.2.tag else lastSet c f := by
  funext c f
  unfold tagsAfter tagAfter
  rw [List.foldl_cons]
  dsimp only
  by_cases hc : c = cell
  · rw [if_pos hc, if_pos hc]
    by_cases hf : f = s.2.localFace
    · rw [if_pos ⟨hs, hf⟩, if_pos ⟨hc, hf⟩]
    · rw [if_neg fun h => hf h.2, if_neg fun h => hf h.2]
  · rw [if_neg hc, if_neg hc, if_neg fun h => hc h.1]

theorem tagsAfter_skip {cell : UInt64} {s : Bool × Side} (hs : ¬s.1 = true) {ss : List (Bool × Side)}
    {lastSet : UInt64 → UInt8 → UInt32} : tagsAfter cell (s :: ss) lastSet = tagsAfter cell ss lastSet := by
  funext c f
  unfold tagsAfter tagAfter
  have hskip : ¬(s.1 = true ∧ f = s.2.localFace) := fun h => hs h.1
  rw [List.foldl_cons, if_neg hskip]

theorem setFaceTag_hex {m : MeshImpl} {cell : UInt64} (htype : m.cellTypes[cell.toNat]? = some .hex8) (s : Side) :
    m.setFaceTag (fun _ => true) cell s.localFace s.tag =
      (.ok (), { m with faceTags := m.faceTags.insert (packFaceKey cell s.localFace) s.tag }) := by
  have hface : ¬s.localFace.toNat ≥ ElementType.hex8.numFaces := Nat.not_le.mpr s.localFace_lt
  unfold MeshImpl.setFaceTag
  rw [htype]
  dsimp only
  rw [if_neg hface, if_neg s.tag_ne_untagged, grow_all fun _ => rfl]
  rfl

theorem foldlM_setSide {cell : UInt64} (hcell : cell.toNat < 2 ^ 56) (ss : List (Bool × Side)) {m : MeshImpl}
    {mesh : Mesh} {lastSet : UInt64 → UInt8 → UInt32} (hmesh : Represents m mesh)
    (htype : m.cellTypes[cell.toNat]? = some .hex8) (hfaces : FacesHeld m lastSet) :
    ∃ m', ss.foldlM (Grid.setSide cell) m = .ok m' ∧ Represents m' mesh ∧ FacesHeld m' (tagsAfter cell ss lastSet) := by
  induction ss generalizing m lastSet with
  | nil =>
    have hsame : tagsAfter cell [] lastSet = lastSet := by
      funext c f
      exact ite_self _
    rw [hsame]
    exact ⟨m, rfl, hmesh, hfaces⟩
  | cons s ss ih =>
    rw [List.foldlM_cons]
    by_cases hs : s.1 = true
    · have hstep : Grid.setSide cell m s =
          .ok { m with faceTags := m.faceTags.insert (packFaceKey cell s.2.localFace) s.2.tag } := by
        unfold Grid.setSide
        rw [if_pos hs, setFaceTag_hex htype]
      have hset := hfaces.set hcell htype s.2.localFace_lt s.2.tag
      rw [if_neg s.2.tag_ne_untagged] at hset
      obtain ⟨m', hrun, hmesh', hfaces'⟩ :=
        ih (m := { m with faceTags := m.faceTags.insert (packFaceKey cell s.2.localFace) s.2.tag })
          ⟨hmesh.nodes, hmesh.types, hmesh.tags, hmesh.indices, hmesh.offsets⟩ htype hset
      refine ⟨m', ?_, hmesh', ?_⟩
      · rw [hstep]
        exact hrun
      · rw [tagsAfter_set hs]
        exact hfaces'
    · have hstep : Grid.setSide cell m s = .ok m := if_neg hs
      obtain ⟨m', hrun, hmesh', hfaces'⟩ := ih hmesh htype hfaces
      refine ⟨m', ?_, hmesh', ?_⟩
      · rw [hstep]
        exact hrun
      · rw [tagsAfter_skip hs]
        exact hfaces'

theorem addCell_ok {m : MeshImpl} {nodeIndices : List UInt64} (harity : nodeIndices.length = 8)
    (hrange : ∀ idx ∈ nodeIndices, idx.toNat < m.nodes.length / 3) (tag : UInt32) :
    m.addCell (fun _ => true) .hex8 nodeIndices tag = (.ok (UInt64.ofNat m.cellTypes.length),
      { m with
        cellTypes := m.cellTypes ++ [.hex8]
        cellTags := m.cellTags ++ [tag]
        cellNodeIndices := m.cellNodeIndices ++ nodeIndices
        cellNodeOffsets := m.cellNodeOffsets ++
          [UInt64.ofNat (m.cellNodeIndices ++ nodeIndices).length] }) := by
  have hcount : nodeIndices.length = ElementType.hex8.numNodes := harity
  have hnone : ¬∃ idx ∈ nodeIndices, idx.toNat ≥ m.nodes.length / 3 := by
    rintro ⟨idx, hidx, hge⟩
    exact Nat.not_lt.mpr hge (hrange idx hidx)
  unfold MeshImpl.addCell
  rw [if_neg (not_not.mpr hcount), if_neg hnone, grow_all fun _ => rfl]
  rfl

namespace Grid

variable (g : Grid K) (bits : K → UInt64)

/-! ## Nodes -/

def numNodes : ℕ := (g.nx + 1) * (g.ny + 1) * (g.nz + 1)

/-- The position of a node by its number. -/
def nodePosition (v : ℕ) : Position K := g.position (Lib.Grid.point (g.nx + 1) (g.ny + 1) v)

def nodeBits (v : ℕ) : UInt64 × UInt64 × UInt64 :=
  (bits (g.nodePosition v).x, bits (g.nodePosition v).y, bits (g.nodePosition v).z)

theorem bounds : g.nx ≤ 200000 ∧ g.ny ≤ 200000 ∧ g.nz ≤ 200000 := by
  have hxy : 0 < g.nx * g.ny := Nat.mul_pos g.nx_pos g.ny_pos
  have hz := Nat.le_mul_of_pos_left g.nz hxy
  have hxyz := Nat.le_mul_of_pos_right (g.nx * g.ny) g.nz_pos
  have hx := Nat.le_mul_of_pos_right g.nx g.ny_pos
  have hy := Nat.le_mul_of_pos_left g.ny g.nx_pos
  have hcap := g.capped
  omega

theorem numNodes_lt : g.numNodes < 2 ^ 64 := by
  obtain ⟨hx, hy, hz⟩ := g.bounds
  calc g.numNodes ≤ 200001 * 200001 * 200001 :=
        Nat.mul_le_mul (Nat.mul_le_mul (Nat.succ_le_succ hx) (Nat.succ_le_succ hy)) (Nat.succ_le_succ hz)
    _ < 2 ^ 64 := by decide

theorem nodeAt_toNat {i j k : ℕ} (h : Lib.Grid.Inside (g.nx + 1) (g.ny + 1) (g.nz + 1) (i, j, k)) :
    (g.nodeAt i j k).toNat = Lib.Grid.index (g.nx + 1) (g.ny + 1) (i, j, k) :=
  UInt64.toNat_ofNat_of_lt' (Nat.lt_trans (Lib.Grid.index_lt h) g.numNodes_lt)

theorem addNodes_spec :
    Represents (g.addNodes bits) ⟨(List.range g.numNodes).map (g.nodeBits bits), []⟩ ∧
      FacesHeld (g.addNodes bits) fun _ _ => untagged := by
  have hfold : ∀ (ps : List (ℕ × ℕ × ℕ)) {m : MeshImpl} {mesh : Mesh}, Represents m mesh →
      FacesHeld m (fun _ _ => untagged) →
      Represents
          (ps.foldl (fun m p =>
            (m.addNode (fun _ => true) (bits (g.position p).x, bits (g.position p).y, bits (g.position p).z)).2) m)
          ⟨mesh.nodes ++ ps.map fun p => (bits (g.position p).x, bits (g.position p).y, bits (g.position p).z),
            mesh.cells⟩ ∧
        FacesHeld (ps.foldl (fun m p =>
            (m.addNode (fun _ => true) (bits (g.position p).x, bits (g.position p).y, bits (g.position p).z)).2) m)
          fun _ _ => untagged := by
    intro ps
    induction ps with
    | nil =>
      intro m mesh hmesh hfaces
      rw [List.map_nil, List.append_nil]
      exact ⟨hmesh, hfaces⟩
    | cons p ps ih =>
      intro m mesh hmesh hfaces
      have hadd : (m.addNode (fun _ => true) (bits (g.position p).x, bits (g.position p).y, bits (g.position p).z)).2 =
          { m with nodes := m.nodes ++ [bits (g.position p).x] ++ [bits (g.position p).y] ++ [bits (g.position p).z] } := by
        unfold MeshImpl.addNode
        rw [grow_all fun _ => rfl]
        rfl
      rw [List.foldl_cons, hadd, List.map_cons, List.append_cons mesh.nodes]
      exact ih (hmesh.addNode (bits (g.position p).x, bits (g.position p).y, bits (g.position p).z))
        (hfaces.mono rfl (List.prefix_refl _))
  have hstart : Represents {} {} := ⟨rfl, rfl, rfl, rfl, rfl⟩
  obtain ⟨hnodes, hfaces⟩ := hfold (Lib.Grid.points (g.nx + 1) (g.ny + 1) (g.nz + 1)) hstart sound_start.faces
  refine ⟨?_, hfaces⟩
  have hlist : (Lib.Grid.points (g.nx + 1) (g.ny + 1) (g.nz + 1)).map
      (fun p => (bits (g.position p).x, bits (g.position p).y, bits (g.position p).z)) =
        (List.range g.numNodes).map (g.nodeBits bits) := by
    rw [Lib.Grid.points_eq, List.map_map]
    rfl
  rw [hlist] at hnodes
  exact hnodes

/-! ## Cells -/

/-- The corners of the unit cube, in the order of a Hex8. -/
def hexCorners : List (ℕ × ℕ × ℕ) :=
  [(0, 0, 0), (1, 0, 0), (1, 1, 0), (0, 1, 0), (0, 0, 1), (1, 0, 1), (1, 1, 1), (0, 1, 1)]

def nodeIndex (p : ℕ × ℕ × ℕ) : ℕ := Lib.Grid.index (g.nx + 1) (g.ny + 1) p

/-- The cell at a point. -/
def hexCell (p : ℕ × ℕ × ℕ) : Cell where
  type := .hex8
  nodes := hexCorners.map fun d => g.nodeIndex (p + d)
  tag := UInt32.ofNat p.2.2

def cellPoint (c : ℕ) : ℕ × ℕ × ℕ := Lib.Grid.point g.nx g.ny c

def numCells : ℕ := g.nx * g.ny * g.nz

def CellInside (p : ℕ × ℕ × ℕ) : Prop := Lib.Grid.Inside g.nx g.ny g.nz p

def NodeInside (q : ℕ × ℕ × ℕ) : Prop := Lib.Grid.Inside (g.nx + 1) (g.ny + 1) (g.nz + 1) q

theorem nodeInside_corner {p d : ℕ × ℕ × ℕ} (hp : g.CellInside p) (hd : d ∈ hexCorners) : g.NodeInside (p + d) := by
  obtain ⟨hi, hj, hk⟩ := hp
  have hle : d.1 ≤ 1 ∧ d.2.1 ≤ 1 ∧ d.2.2 ≤ 1 := by
    have hall : ∀ d ∈ hexCorners, d.1 ≤ 1 ∧ d.2.1 ≤ 1 ∧ d.2.2 ≤ 1 := by decide
    exact hall d hd
  refine ⟨?_, ?_, ?_⟩
  · show p.1 + d.1 < _
    omega
  · show p.2.1 + d.2.1 < _
    omega
  · show p.2.2 + d.2.2 < _
    omega

theorem cellNodes_toNat {p : ℕ × ℕ × ℕ} (hp : g.CellInside p) :
    (g.cellNodes p.1 p.2.1 p.2.2).map UInt64.toNat = (g.hexCell p).nodes := by
  have hlist : g.cellNodes p.1 p.2.1 p.2.2 =
      hexCorners.map fun d => g.nodeAt (p + d).1 (p + d).2.1 (p + d).2.2 := rfl
  unfold hexCell
  rw [hlist, List.map_map]
  dsimp only
  apply List.map_congr_left
  intro d hd
  exact g.nodeAt_toNat (g.nodeInside_corner hp hd)

/-- The tags after the first `n` cells. -/
def tagsBelow (n : ℕ) (c : UInt64) (f : UInt8) : UInt32 :=
  if c.toNat < n then
    tagAfter f (g.sides (g.cellPoint c.toNat).1 (g.cellPoint c.toNat).2.1 (g.cellPoint c.toNat).2.2) untagged
  else untagged

/-- The mesh after the first `n` cells. -/
structure Built (n : ℕ) (m : MeshImpl) : Prop where
  represents : Represents m
    ⟨(List.range g.numNodes).map (g.nodeBits bits), (List.range n).map fun c => g.hexCell (g.cellPoint c)⟩
  faces : FacesHeld m (g.tagsBelow n)

theorem built_start : g.Built bits 0 (g.addNodes bits) := by
  obtain ⟨hnodes, hfaces⟩ := g.addNodes_spec bits
  exact ⟨hnodes, hfaces⟩

theorem numCells_lt : g.numCells < 2 ^ 56 := Nat.lt_of_le_of_lt g.capped (by decide)

variable {g bits}

/-- One cell: none of its calls fails. -/
theorem Built.meshCell {n : ℕ} {m : MeshImpl} (h : g.Built bits n m) (hn : n < g.numCells) :
    ∃ m', g.meshCell m (g.cellPoint n) = .ok m' ∧ g.Built bits (n + 1) m' := by
  have hp : g.CellInside (g.cellPoint n) := Lib.Grid.inside_point hn
  have hnodes := g.cellNodes_toNat hp
  have hcount : m.nodes.length / 3 = g.numNodes := by
    have hnum := h.represents.numNodes
    rw [List.length_map, List.length_range] at hnum
    exact hnum
  have hrange : ∀ idx ∈ g.cellNodes (g.cellPoint n).1 (g.cellPoint n).2.1 (g.cellPoint n).2.2,
      idx.toNat < m.nodes.length / 3 := by
    intro idx hidx
    have hmem := List.mem_map_of_mem (f := UInt64.toNat) hidx
    rw [hnodes] at hmem
    obtain ⟨d, hd, hindex⟩ := List.mem_map.mp hmem
    rw [hcount, ← hindex]
    exact Lib.Grid.index_lt (g.nodeInside_corner hp hd)
  have hlength : m.cellTypes.length = n := by
    rw [h.represents.types, List.length_map, List.length_map, List.length_range]
  have hsmall := g.numCells_lt
  have hcell : (UInt64.ofNat n).toNat = n := UInt64.toNat_ofNat_of_lt' (hn.trans (hsmall.trans (by decide)))
  have hadd := addCell_ok rfl hrange (UInt32.ofNat (g.cellPoint n).2.2)
  rw [hlength] at hadd
  have hadded := h.represents.addCell .hex8 (g.cellNodes (g.cellPoint n).1 (g.cellPoint n).2.1 (g.cellPoint n).2.2)
    (UInt32.ofNat (g.cellPoint n).2.2)
  have hcells : ((List.range n).map fun c => g.hexCell (g.cellPoint c)) ++ [g.hexCell (g.cellPoint n)] =
      (List.range (n + 1)).map fun c => g.hexCell (g.cellPoint c) := by
    rw [List.range_succ, List.map_append, List.map_singleton]
  rw [hnodes] at hadded
  have hbits : (UInt64.ofNat n).toNat < 2 ^ 56 := by omega
  obtain ⟨m', hrun, hmesh, hfaces⟩ := foldlM_setSide hbits
    (g.sides (g.cellPoint n).1 (g.cellPoint n).2.1 (g.cellPoint n).2.2) hadded
    (by rw [hcell, ← hlength]; exact List.getElem?_concat_length)
    (h.faces.mono rfl (List.prefix_append _ _))
  refine ⟨m', ?_, ?_, ?_⟩
  · unfold Grid.meshCell
    rw [hadd]
    exact hrun
  · rw [← hcells]
    exact hmesh
  · convert hfaces using 1
    funext c f
    unfold tagsAfter tagsBelow
    by_cases hc : c = UInt64.ofNat n
    · have hcn : c.toNat = n := by rw [hc, hcell]
      rw [if_pos hc, hcn, if_pos (Nat.lt_succ_self n), if_neg (Nat.lt_irrefl n)]
    · have hcn : c.toNat ≠ n := fun h => hc (UInt64.toNat_inj.mp (h.trans hcell.symm))
      rw [if_neg hc]
      by_cases hlt : c.toNat < n
      · rw [if_pos hlt, if_pos (Nat.lt_succ_of_lt hlt)]
      · rw [if_neg hlt, if_neg (by omega)]

theorem exists_built : ∃ m, g.build bits = .ok m ∧ g.Built bits g.numCells m := by
  have hrounds : ∀ n ≤ g.numCells, ∃ m,
      ((List.range n).map g.cellPoint).foldlM g.meshCell (g.addNodes bits) = .ok m ∧ g.Built bits n m := by
    intro n
    induction n with
    | zero => exact fun _ => ⟨_, rfl, g.built_start bits⟩
    | succ n ih =>
      intro hn
      obtain ⟨m, hrun, hbuilt⟩ := ih (Nat.le_of_succ_le hn)
      obtain ⟨m', hstep, hbuilt'⟩ := hbuilt.meshCell hn
      refine ⟨m', ?_, hbuilt'⟩
      rw [List.range_succ, List.map_append, List.map_singleton, List.foldlM_append, hrun]
      show (g.meshCell m (g.cellPoint n)).bind pure = _
      rw [hstep]
      rfl
  unfold Grid.build
  rw [Lib.Grid.points_eq]
  exact hrounds g.numCells (Nat.le_refl _)

end Grid

end

end Souxmar.Am.LayeredMesher
