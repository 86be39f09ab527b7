import Mathlib.Algebra.Order.Field.Basic
import Mathlib.Data.Rat.Floor
import Souxmar.Am.LayeredBuild

/-!
# The tags of the layered mesher are the boundary
-/

namespace Souxmar.Am.LayeredMesher

open Souxmar.Core Souxmar.Lib

/-! ## Faces of a mesh -/

/-- A face by its cell and its index in the face table. -/
def IsFace (mesh : Mesh) (a : ℕ × ℕ) : Prop :=
  ∃ cell, mesh.cells[a.1]? = some cell ∧ a.2 < (faceNodeTable cell.type).length

/-- The vertices of a face under the face table. -/
def verts (mesh : Mesh) (a : ℕ × ℕ) : List ℕ :=
  (mesh.cells[a.1]?.map fun cell => faceVerts cell ((faceNodeTable cell.type).getD a.2 ⟨0, []⟩)).getD []

def SameVertices (u v : List ℕ) : Prop := ∀ n, n ∈ u ↔ n ∈ v

def faceTagOf (m : MeshImpl) (a : ℕ × ℕ) : UInt32 := m.faceTag (UInt64.ofNat a.1) (UInt8.ofNat a.2)

section

variable {K : Type*} [Field K] [LinearOrder K]

omit [LinearOrder K] in
/-- In exact arithmetic the position lies on the side of the box. -/
def Side.Contains (box : Box K) (q : Position K) : Side → Prop
  | minusX => q.x = box.lo.x
  | plusX => q.x = box.hi.x
  | minusY => q.y = box.lo.y
  | plusY => q.y = box.hi.y
  | minusZ => q.z = box.lo.z
  | plusZ => q.z = box.hi.z

/-- A grid of Hex8 cells whose tags are the layers of the cells and the boundary of the box. -/
structure TagsAreBoundary (g : Grid K) (bits : K → UInt64) (m : MeshImpl) (mesh : Mesh) : Prop where
  represents : Represents m mesh
  nodes : mesh.nodes = (List.range g.numNodes).map (g.nodeBits bits)
  count : mesh.cells.length = g.nx * g.ny * g.nz
  hex : ∀ cell ∈ mesh.cells, cell.type = .hex8
  layer : ∀ cell ∈ mesh.cells, ∃ k < g.nz, cell.tag = UInt32.ofNat k ∧ ∀ v ∈ cell.nodes,
    (g.nodePosition v).z = (g.position (0, 0, k)).z ∨ (g.nodePosition v).z = (g.position (0, 0, k + 1)).z
  tagged : ∀ a, IsFace mesh a → (faceTagOf m a ≠ untagged ↔
    ∀ b, IsFace mesh b → b.1 ≠ a.1 → ¬SameVertices (verts mesh a) (verts mesh b))
  named : ∀ a, IsFace mesh a → faceTagOf m a ≠ untagged → ∃ s : Side, faceTagOf m a = s.tag
  side : ∀ a, IsFace mesh a → ∀ s : Side,
    faceTagOf m a = s.tag ↔ ∀ v ∈ verts mesh a, s.Contains g.box (g.nodePosition v)
  shared : ∀ a, IsFace mesh a → faceTagOf m a = untagged → ∃ b, IsFace mesh b ∧ b.1 ≠ a.1 ∧
    (verts mesh b).IsRotated (verts mesh a).reverse ∧
    ∀ c, IsFace mesh c → SameVertices (verts mesh a) (verts mesh c) → c = a ∨ c = b

namespace Grid

variable (g : Grid K)

theorem tagAfter_sides (s : Side) (p : ℕ × ℕ × ℕ) :
    (g.AtSide s p → tagAfter s.localFace (g.sides p.1 p.2.1 p.2.2) untagged = s.tag) ∧
      (¬g.AtSide s p → tagAfter s.localFace (g.sides p.1 p.2.1 p.2.2) untagged = untagged) := by
  unfold tagAfter sides
  cases s <;> simp [Side.localFace, Side.tag, AtSide] <;> tauto

theorem faceVerts_hexCell (s : Side) (p : ℕ × ℕ × ℕ) :
    faceVerts (g.hexCell p) ((faceNodeTable .hex8).getD s.localFace.toNat ⟨0, []⟩) =
      (facePoints s p).map g.nodeIndex := by
  cases s <;> rfl

theorem nodeInside_facePoints {s : Side} {p q : ℕ × ℕ × ℕ} (hp : g.CellInside p) (hq : q ∈ facePoints s p) :
    g.NodeInside q := by
  obtain ⟨d, hd, rfl⟩ := List.mem_map.mp hq
  have hcorner : d ∈ hexCorners := by
    have hall : ∀ s : Side, ∀ d ∈ s.corners, d ∈ hexCorners := by
      intro s
      cases s <;> decide
    exact hall s d hd
  exact g.nodeInside_corner hp hcorner

/-! ## Coordinates -/

variable [IsStrictOrderedRing K]

omit g in
theorem coordinate_eq {lo hi : K} (h : lo < hi) {n : ℕ} (hn : 0 < n) (i : ℕ) :
    (lo + (hi - lo) / n * i = lo ↔ i = 0) ∧ (lo + (hi - lo) / n * i = hi ↔ i = n) := by
  have hn' : (n : K) ≠ 0 := Nat.cast_ne_zero.mpr hn.ne'
  have hstep : (hi - lo) / n ≠ 0 := div_ne_zero (sub_pos.mpr h).ne' hn'
  constructor
  · rw [add_eq_left, mul_eq_zero, or_iff_right hstep, Nat.cast_eq_zero]
  · have hlast : hi = lo + (hi - lo) / n * n := by
      rw [div_mul_cancel₀ _ hn', add_sub_cancel]
    constructor
    · intro heq
      have hmul : (hi - lo) / n * (i : K) = (hi - lo) / n * n := add_left_cancel (heq.trans hlast)
      exact Nat.cast_injective (mul_left_cancel₀ hstep hmul)
    · rintro rfl
      exact hlast.symm

theorem contains_iff {s : Side} {q : ℕ × ℕ × ℕ} : s.Contains g.box (g.position q) ↔ g.OnSide s q := by
  obtain ⟨hx, hy, hz⟩ := g.wide
  have hcx := coordinate_eq hx g.nx_pos q.1
  have hcy := coordinate_eq hy g.ny_pos q.2.1
  have hcz := coordinate_eq hz g.nz_pos q.2.2
  cases s with
  | minusX => exact hcx.1
  | plusX => exact hcx.2
  | minusY => exact hcy.1
  | plusY => exact hcy.2
  | minusZ => exact hcz.1
  | plusZ => exact hcz.2

omit [IsStrictOrderedRing K] in
theorem nodePosition_index {q : ℕ × ℕ × ℕ} (hq : g.NodeInside q) : g.nodePosition (g.nodeIndex q) = g.position q := by
  unfold nodePosition nodeIndex
  rw [Lib.Grid.point_index hq]

/-! ## The faces of the built mesh -/

/-- The built mesh. -/
def mesh (bits : K → UInt64) : Mesh :=
  ⟨(List.range g.numNodes).map (g.nodeBits bits), (List.range g.numCells).map fun c => g.hexCell (g.cellPoint c)⟩

variable {g} {bits : K → UInt64} {m : MeshImpl}

omit [IsStrictOrderedRing K]

theorem mesh_cell {c : ℕ} (hc : c < g.numCells) : (g.mesh bits).cells[c]? = some (g.hexCell (g.cellPoint c)) := by
  unfold mesh
  dsimp only
  rw [List.getElem?_map, List.getElem?_range hc]
  rfl

/-- The face at a side of a cell. -/
def faceAt (c : ℕ) (s : Side) : ℕ × ℕ := (c, s.localFace.toNat)

theorem isFace_faceAt {c : ℕ} (hc : c < g.numCells) (s : Side) : IsFace (g.mesh bits) (faceAt c s) :=
  ⟨_, mesh_cell hc, s.localFace_lt⟩

theorem exists_faceAt {a : ℕ × ℕ} (h : IsFace (g.mesh bits) a) : ∃ c < g.numCells, ∃ s, a = faceAt c s := by
  obtain ⟨cell, hcell, hlt⟩ := h
  obtain ⟨hc, -⟩ := List.getElem?_eq_some_iff.mp hcell
  have hc' : a.1 < g.numCells := by
    unfold mesh at hc
    rwa [List.length_map, List.length_range] at hc
  obtain rfl := Option.some.inj (hcell.symm.trans (mesh_cell hc'))
  have hsix : a.2 < 6 := hlt
  obtain ⟨s, hs⟩ := Side.exists_localFace hsix
  refine ⟨a.1, hc', s, Prod.ext rfl ?_⟩
  show a.2 = s.localFace.toNat
  rw [hs, UInt8.toNat_ofNat_of_lt' (hsix.trans (by decide))]

theorem verts_faceAt {c : ℕ} (hc : c < g.numCells) (s : Side) :
    verts (g.mesh bits) (faceAt c s) = (facePoints s (g.cellPoint c)).map g.nodeIndex := by
  unfold verts faceAt
  rw [mesh_cell hc]
  exact g.faceVerts_hexCell s _

theorem cellInside {c : ℕ} (hc : c < g.numCells) : g.CellInside (g.cellPoint c) := Lib.Grid.inside_point hc

theorem faceAt_injective {c c' : ℕ} {s s' : Side} : faceAt c s = faceAt c' s' ↔ c = c' ∧ s = s' := by
  unfold faceAt
  rw [Prod.mk.injEq, UInt8.toNat_inj]
  exact and_congr_right fun _ => ⟨Side.localFace_injective, fun h => h ▸ rfl⟩

theorem cellPoint_injective {c c' : ℕ} (h : g.cellPoint c = g.cellPoint c') : c = c' := by
  rw [← Lib.Grid.index_point (a := g.nx) (b := g.ny) c, ← Lib.Grid.index_point (a := g.nx) (b := g.ny) c']
  exact congrArg _ h

theorem sameVertices_iff {c c' : ℕ} (hc : c < g.numCells) (hc' : c' < g.numCells) (s s' : Side) :
    SameVertices (verts (g.mesh bits) (faceAt c s)) (verts (g.mesh bits) (faceAt c' s')) ↔
      (s' = s ∧ c' = c) ∨ (s' = s.opposite ∧ Next s (g.cellPoint c) (g.cellPoint c')) := by
  rw [verts_faceAt hc, verts_faceAt hc']
  constructor
  · intro h
    have hpoints : ∀ q, q ∈ facePoints s (g.cellPoint c) ↔ q ∈ facePoints s' (g.cellPoint c') := by
      intro q
      constructor
      · intro hq
        obtain ⟨q', hq', hindex⟩ := List.mem_map.mp ((h _).mp (List.mem_map_of_mem hq))
        exact Lib.Grid.index_inj (g.nodeInside_facePoints (cellInside hc') hq')
          (g.nodeInside_facePoints (cellInside hc) hq) hindex ▸ hq'
      · intro hq
        obtain ⟨q', hq', hindex⟩ := List.mem_map.mp ((h _).mpr (List.mem_map_of_mem hq))
        exact Lib.Grid.index_inj (g.nodeInside_facePoints (cellInside hc) hq')
          (g.nodeInside_facePoints (cellInside hc') hq) hindex ▸ hq'
    rcases same_points hpoints with ⟨hs, hp⟩ | hnext
    · exact Or.inl ⟨hs, cellPoint_injective hp⟩
    · exact Or.inr hnext
  · rintro (⟨rfl, rfl⟩ | ⟨rfl, hnext⟩) n
    · exact Iff.rfl
    · have hperm := ((facePoints_opposite hnext).perm.trans (List.reverse_perm _)).map g.nodeIndex
      exact hperm.symm.mem_iff

theorem next_ne {s : Side} {p p' : ℕ × ℕ × ℕ} (h : Next s p p') : p' ≠ p := by
  rintro rfl
  obtain ⟨i, j, k⟩ := p'
  unfold Next at h
  cases s <;> simp only [Side.low, Side.opposite, Prod.mk_add_mk, Prod.mk.injEq] at h <;> omega

theorem next_unique {s : Side} {p p₁ p₂ : ℕ × ℕ × ℕ} (h₁ : Next s p p₁) (h₂ : Next s p p₂) : p₁ = p₂ := by
  have hsum : p₁ + s.opposite.low = p₂ + s.opposite.low := Eq.trans h₁ (Eq.symm h₂)
  obtain ⟨i, j, k⟩ := p₁
  obtain ⟨i', j', k'⟩ := p₂
  obtain ⟨hi, hrest⟩ := Prod.mk.inj hsum
  obtain ⟨hj, hk⟩ := Prod.mk.inj hrest
  exact Prod.ext (Nat.add_right_cancel hi) (Prod.ext (Nat.add_right_cancel hj) (Nat.add_right_cancel hk))

theorem exists_neighbour {c : ℕ} (hc : c < g.numCells) {s : Side} (hat : ¬g.AtSide s (g.cellPoint c)) :
    ∃ c' < g.numCells, c' ≠ c ∧ Next s (g.cellPoint c) (g.cellPoint c') := by
  obtain ⟨p', hp', hnext⟩ := (g.exists_next_iff (cellInside hc)).mpr hat
  have hpoint : g.cellPoint (Lib.Grid.index g.nx g.ny p') = p' := Lib.Grid.point_index hp'
  refine ⟨Lib.Grid.index g.nx g.ny p', Lib.Grid.index_lt hp', ?_, ?_⟩
  · intro heq
    apply next_ne hnext
    rw [← hpoint, heq]
  · rwa [hpoint]

/-! ## The tags -/

theorem faceTag_faceAt (h : g.Built bits g.numCells m) {c : ℕ} (hc : c < g.numCells) (s : Side) :
    (g.AtSide s (g.cellPoint c) → faceTagOf m (faceAt c s) = s.tag) ∧
      (¬g.AtSide s (g.cellPoint c) → faceTagOf m (faceAt c s) = untagged) := by
  have hsmall := g.numCells_lt
  have hcell : (UInt64.ofNat c).toNat = c := UInt64.toNat_ofNat_of_lt' (hc.trans (hsmall.trans (by decide)))
  have hface : UInt8.ofNat s.localFace.toNat = s.localFace := UInt8.ofNat_toNat
  have hcount : m.numCells ≤ 2 ^ 56 := by
    rw [h.represents.numCells, List.length_map, List.length_range]
    exact hsmall.le
  have htag : faceTagOf m (faceAt c s) = tagAfter s.localFace
      (g.sides (g.cellPoint c).1 (g.cellPoint c).2.1 (g.cellPoint c).2.2) untagged := by
    unfold faceTagOf faceAt
    rw [h.faces.faceTag hcount, hface]
    unfold tagsBelow
    rw [hcell, if_pos hc]
  rw [htag]
  exact g.tagAfter_sides s _

theorem faceTag_ne_iff (h : g.Built bits g.numCells m) {c : ℕ} (hc : c < g.numCells) (s : Side) :
    faceTagOf m (faceAt c s) ≠ untagged ↔ g.AtSide s (g.cellPoint c) := by
  obtain ⟨hat, hnot⟩ := faceTag_faceAt h hc s
  constructor
  · intro hne
    by_contra hout
    exact hne (hnot hout)
  · intro hside
    rw [hat hside]
    exact s.tag_ne_untagged

theorem hexCell_layer {c : ℕ} (hc : c < g.numCells) : ∃ k < g.nz, (g.hexCell (g.cellPoint c)).tag = UInt32.ofNat k ∧
    ∀ v ∈ (g.hexCell (g.cellPoint c)).nodes,
      (g.nodePosition v).z = (g.position (0, 0, k)).z ∨ (g.nodePosition v).z = (g.position (0, 0, k + 1)).z := by
  have hp := cellInside hc
  refine ⟨(g.cellPoint c).2.2, hp.2.2, rfl, fun v hv => ?_⟩
  obtain ⟨d, hd, rfl⟩ := List.mem_map.mp hv
  rw [g.nodePosition_index (g.nodeInside_corner hp hd)]
  have hheight : ∀ d ∈ hexCorners, d.2.2 = 0 ∨ d.2.2 = 1 := by decide
  unfold position
  dsimp only [Prod.snd_add]
  rcases hheight d hd with h | h
  · exact Or.inl (by rw [h, Nat.add_zero])
  · exact Or.inr (by rw [h])

variable [IsStrictOrderedRing K]

theorem Built.tagsAreBoundary (h : g.Built bits g.numCells m) : TagsAreBoundary g bits m (g.mesh bits) where
  represents := h.represents
  nodes := rfl
  count := by
    unfold mesh
    rw [List.length_map, List.length_range]
    rfl
  hex cell hcell := by
    obtain ⟨c, -, rfl⟩ := List.mem_map.mp hcell
    rfl
  layer cell hcell := by
    obtain ⟨c, hc, rfl⟩ := List.mem_map.mp hcell
    exact hexCell_layer (List.mem_range.mp hc)
  tagged a ha := by
    obtain ⟨c, hc, s, rfl⟩ := exists_faceAt ha
    rw [faceTag_ne_iff h hc]
    constructor
    · intro hat b hb hne hsame
      obtain ⟨c', hc', s', rfl⟩ := exists_faceAt hb
      rcases (sameVertices_iff hc hc' s s').mp hsame with ⟨-, hcc⟩ | ⟨-, hnext⟩
      · exact hne hcc
      · exact (g.exists_next_iff (cellInside hc)).mp ⟨_, cellInside hc', hnext⟩ hat
    · intro hlone
      by_contra hat
      obtain ⟨c', hc', hne, hnext⟩ := exists_neighbour hc hat
      exact hlone _ (isFace_faceAt hc' s.opposite) hne ((sameVertices_iff hc hc' s s.opposite).mpr (Or.inr ⟨rfl, hnext⟩))
  named a ha hne := by
    obtain ⟨c, hc, s, rfl⟩ := exists_faceAt ha
    exact ⟨s, (faceTag_faceAt h hc s).1 ((faceTag_ne_iff h hc s).mp hne)⟩
  side a ha t := by
    obtain ⟨c, hc, s, rfl⟩ := exists_faceAt ha
    have hp := cellInside hc
    have hverts : (∀ v ∈ verts (g.mesh bits) (faceAt c s), t.Contains g.box (g.nodePosition v)) ↔
        ∀ q ∈ facePoints s (g.cellPoint c), g.OnSide t q := by
      rw [verts_faceAt hc, List.forall_mem_map]
      refine forall₂_congr fun q hq => ?_
      rw [g.nodePosition_index (g.nodeInside_facePoints hp hq), g.contains_iff]
    rw [hverts, g.onSide_iff hp]
    obtain ⟨hat, hnot⟩ := faceTag_faceAt h hc s
    by_cases hside : g.AtSide s (g.cellPoint c)
    · rw [hat hside, and_iff_left hside]
      exact ⟨Side.tag_injective, fun heq => heq ▸ rfl⟩
    · rw [hnot hside]
      exact iff_of_false t.tag_ne_untagged.symm fun hboth => hside hboth.2
  shared a ha hnone := by
    obtain ⟨c, hc, s, rfl⟩ := exists_faceAt ha
    have hat : ¬g.AtSide s (g.cellPoint c) := fun hside => (faceTag_ne_iff h hc s).mpr hside hnone
    obtain ⟨c', hc', hne, hnext⟩ := exists_neighbour hc hat
    refine ⟨faceAt c' s.opposite, isFace_faceAt hc' _, hne, ?_, ?_⟩
    · rw [verts_faceAt hc, verts_faceAt hc', ← List.map_reverse]
      exact (facePoints_opposite hnext).map g.nodeIndex
    · intro d hd hsame
      obtain ⟨c'', hc'', s'', rfl⟩ := exists_faceAt hd
      rw [faceAt_injective, faceAt_injective]
      rcases (sameVertices_iff hc hc'' s s'').mp hsame with ⟨hs, hcc⟩ | ⟨hs, hnext'⟩
      · exact Or.inl ⟨hcc, hs⟩
      · exact Or.inr ⟨cellPoint_injective (next_unique hnext' hnext), hs⟩

end Grid

variable [IsStrictOrderedRing K] [FloorRing K]

/-- On every grid no call fails, and the tags are the layers and the boundary. -/
theorem tags_are_boundary (g : Grid K) (bits : K → UInt64) :
    ∃ m mesh, g.build bits = .ok m ∧ TagsAreBoundary g bits m mesh ∧
      ∀ geometry options, plan geometry options = .ok g → amLayeredMesh bits geometry options = .ok m := by
  have hexists : ∃ m, g.build bits = .ok m ∧ g.Built bits g.numCells m := Grid.exists_built
  obtain ⟨m, hbuild, hbuilt⟩ := hexists
  refine ⟨m, g.mesh bits, hbuild, hbuilt.tagsAreBoundary, fun geometry options hplan => ?_⟩
  unfold amLayeredMesh
  rw [hplan]
  exact hbuild

end

/-- A plate that is one cell thick. -/
def plate : Grid ℚ where
  box := ⟨⟨0, 0, 0⟩, ⟨2, 1, 1⟩⟩
  nx := 2
  ny := 1
  nz := 1
  nx_pos := by decide
  ny_pos := by decide
  nz_pos := by decide
  capped := by decide
  wide := by decide

theorem tags_are_boundary_plate :
    ∃ m mesh, plate.build (fun _ => 0) = .ok m ∧ TagsAreBoundary plate (fun _ => 0) m mesh := by
  obtain ⟨m, mesh, hbuild, htags, -⟩ := tags_are_boundary plate fun _ => 0
  exact ⟨m, mesh, hbuild, htags⟩

end Souxmar.Am.LayeredMesher
