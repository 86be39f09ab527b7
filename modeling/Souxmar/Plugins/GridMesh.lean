import Mathlib.Data.List.ProdSigma
import Mathlib.Tactic.IntervalCases
import Souxmar.Am.LayeredTags
import Souxmar.Core.Watertight
import Souxmar.Lib.Kuhn
import Souxmar.Plugins.GridMesher

/-!
# The mesh of the grid mesher
-/

namespace Souxmar.Plugins.GridMesher

open Souxmar.Core Souxmar.Lib Souxmar.Lib.Kuhn

/-! ## What the calls do -/

theorem represents_addNodes {m : MeshImpl} {mesh : Mesh} (h : Represents m mesh)
    (positions : List (UInt64 × UInt64 × UInt64)) :
    Represents (positions.foldl (fun m p => (m.addNode (fun _ => true) p).2) m)
      { mesh with nodes := mesh.nodes ++ positions } := by
  induction positions generalizing m mesh with
  | nil => rwa [List.append_nil]
  | cons p positions ih =>
    have hadd : (m.addNode (fun _ => true) p).2 =
        { m with nodes := m.nodes ++ [p.1] ++ [p.2.1] ++ [p.2.2] } := by
      unfold MeshImpl.addNode
      rw [grow_all fun _ => rfl]
      rfl
    rw [List.foldl_cons, hadd, List.append_cons mesh.nodes]
    exact ih (h.addNode p)

theorem represents_addCells {m : MeshImpl} {mesh : Mesh} (h : Represents m mesh) (tets : List (List UInt64))
    (hfour : ∀ t ∈ tets, t.length = 4) (hrange : ∀ t ∈ tets, ∀ idx ∈ t, idx.toNat < mesh.nodes.length) :
    Represents (tets.foldl (fun m t => (m.addCell (fun _ => true) .tet4 t untagged).2) m)
      { mesh with cells := mesh.cells ++ tets.map fun t => ⟨.tet4, t.map UInt64.toNat, untagged⟩ } := by
  induction tets generalizing m mesh with
  | nil =>
    rw [List.map_nil, List.append_nil]
    exact h
  | cons t tets ih =>
    have harity : t.length = ElementType.tet4.numNodes := hfour t List.mem_cons_self
    have hnone : ¬∃ idx ∈ t, idx.toNat ≥ m.nodes.length / 3 := by
      rintro ⟨idx, hidx, hge⟩
      have hlt := hrange t List.mem_cons_self idx hidx
      rw [← h.numNodes] at hlt
      exact Nat.not_lt.mpr hge hlt
    have hadd : (m.addCell (fun _ => true) .tet4 t untagged).2 =
        { m with
          cellTypes := m.cellTypes ++ [.tet4]
          cellTags := m.cellTags ++ [untagged]
          cellNodeIndices := m.cellNodeIndices ++ t
          cellNodeOffsets := m.cellNodeOffsets ++ [UInt64.ofNat (m.cellNodeIndices ++ t).length] } := by
      unfold MeshImpl.addCell
      rw [if_neg (not_not.mpr harity), if_neg hnone, grow_all fun _ => rfl]
      rfl
    rw [List.foldl_cons, hadd, List.map_cons, List.append_cons mesh.cells]
    exact ih (h.addCell .tet4 t untagged) (fun t' ht' => hfour t' (List.mem_cons_of_mem t ht'))
      fun t' ht' => hrange t' (List.mem_cons_of_mem t ht')

/-! ## Counting -/

theorem countP_le_length {α : Type*} {p : α → Bool} {l : List α} (l' : List α) (hnodup : l.Nodup)
    (h : ∀ a ∈ l, p a = true → a ∈ l') : l.countP p ≤ l'.length := by
  rw [List.countP_eq_length_filter]
  refine ((hnodup.filter p).subperm fun a ha => ?_).length_le
  obtain ⟨hin, hp⟩ := List.mem_filter.mp ha
  exact h a hin hp

theorem length_le_countP {α : Type*} {p : α → Bool} {l : List α} (l' : List α) (hnodup : l'.Nodup)
    (h : ∀ a ∈ l', a ∈ l ∧ p a = true) : l'.length ≤ l.countP p := by
  rw [List.countP_eq_length_filter]
  exact (hnodup.subperm fun a ha => List.mem_filter.mpr (h a ha)).length_le

/-! ## Numbers -/

/-- The bits of a corner. -/
def cornerNumber (d : Point) : ℕ := d.1 + 2 * d.2.1 + 4 * d.2.2

theorem kHexToTets_eq : kHexToTets = Path.all.map fun p => p.tet.map cornerNumber := rfl

section

variable {K : Type*} [Field K] [LinearOrder K]

namespace Grid

variable (g : Grid K)

def number (p : Point) : ℕ := Lib.Grid.index g.nN g.nN p

def numNodes : ℕ := g.nN * g.nN * g.nN

def nodePoint (v : ℕ) : Point := Lib.Grid.point g.nN g.nN v

/-- The position of a node by its number. -/
def nodePosition (v : ℕ) : K × K × K := g.position (g.nodePoint v)

def NodeInside (p : Point) : Prop := Lib.Grid.Inside g.nN g.nN g.nN p

def CubeInside (p : Point) : Prop := Lib.Grid.Inside g.cellsPerAxis g.cellsPerAxis g.cellsPerAxis p

theorem cellsPerAxis_succ : g.cellsPerAxis + 1 = g.nN := Nat.sub_add_cancel (Nat.le_of_succ_le g.two_le)

theorem number_add (p d : Point) : g.number (p + d) = g.number p + g.number d := by
  unfold number Lib.Grid.index
  dsimp only [Prod.fst_add, Prod.snd_add]
  ring

theorem nodeInside_add {b d : Point} (hb : g.CubeInside b) (hd : d ≤ (1, 1, 1)) : g.NodeInside (b + d) := by
  obtain ⟨hi, hj, hk⟩ := hb
  obtain ⟨hx, hy, hz⟩ := hd
  have hsucc := g.cellsPerAxis_succ
  refine ⟨?_, ?_, ?_⟩
  · show b.1 + d.1 < g.nN
    have hx' : d.1 ≤ 1 := hx
    omega
  · show b.2.1 + d.2.1 < g.nN
    have hy' : d.2.1 ≤ 1 := hy
    omega
  · show b.2.2 + d.2.2 < g.nN
    have hz' : d.2.2 ≤ 1 := hz
    omega

theorem number_lt {p : Point} (h : g.NodeInside p) : g.number p < g.numNodes := Lib.Grid.index_lt h

theorem nodePoint_number {p : Point} (h : g.NodeInside p) : g.nodePoint (g.number p) = p := Lib.Grid.point_index h

theorem number_inj {p q : Point} (hp : g.NodeInside p) (hq : g.NodeInside q) (h : g.number p = g.number q) : p = q :=
  Lib.Grid.index_inj hp hq h

theorem cornerOffsets_eq {d : Point} (hd : d ≤ (1, 1, 1)) :
    g.cornerOffsets.getD (cornerNumber d) 0 = UInt64.ofNat (g.number d) := by
  obtain ⟨x, y, z⟩ := d
  obtain ⟨hx, hy, hz⟩ := hd
  dsimp only at hx hy hz
  unfold number Lib.Grid.index cornerOffsets cornerNumber
  interval_cases x <;> interval_cases y <;> interval_cases z <;> simp [Nat.add_mul]

variable {g}

theorem tetNodes_toNat (hsmall : g.numNodes < 2 ^ 64) {b : Point} (hb : g.CubeInside b) (p : Path) :
    (g.tetNodes (g.nodeAt b.1 b.2.1 b.2.2) (p.tet.map cornerNumber)).map UInt64.toNat =
      p.tet.map fun d => g.number (b + d) := by
  unfold tetNodes
  rw [List.map_map, List.map_map]
  apply List.map_congr_left
  intro d hd
  have hle := p.tet_le d hd
  have hlt := Nat.lt_trans (g.number_lt (g.nodeInside_add hb hle)) hsmall
  have hbase : g.nodeAt b.1 b.2.1 b.2.2 = UInt64.ofNat (g.number b) := rfl
  show (g.nodeAt b.1 b.2.1 b.2.2 + g.cornerOffsets.getD (cornerNumber d) 0).toNat = g.number (b + d)
  rw [g.cornerOffsets_eq hle, hbase, ← UInt64.ofNat_add, ← g.number_add, UInt64.toNat_ofNat_of_lt' hlt]

/-! ## The mesh -/

variable (g)

def nodeBits (bits : K → UInt64) (v : ℕ) : UInt64 × UInt64 × UInt64 :=
  (bits (g.nodePosition v).1, bits (g.nodePosition v).2.1, bits (g.nodePosition v).2.2)

/-- The tetrahedron of a path in the cube at `b`. -/
def tetCell (b : Point) (p : Path) : Cell := ⟨.tet4, p.tet.map fun d => g.number (b + d), untagged⟩

def cubes : List Point := Lib.Grid.points g.cellsPerAxis g.cellsPerAxis g.cellsPerAxis

def mesh (bits : K → UInt64) : Mesh :=
  ⟨(List.range g.numNodes).map (g.nodeBits bits), g.cubes.flatMap fun b => Path.all.map (g.tetCell b)⟩

theorem mem_cubes {b : Point} : b ∈ g.cubes ↔ g.CubeInside b := by
  obtain ⟨i, j, k⟩ := b
  unfold cubes Lib.Grid.points CubeInside Lib.Grid.Inside
  simp only [List.mem_flatMap, List.mem_map, List.mem_range, Prod.mk.injEq]
  constructor
  · rintro ⟨k', hk, j', hj, i', hi, rfl, rfl, rfl⟩
    exact ⟨hi, hj, hk⟩
  · rintro ⟨hi, hj, hk⟩
    exact ⟨k, hk, j, hj, i, hi, rfl, rfl, rfl⟩

theorem addNodes_represents (bits : K → UInt64) :
    Represents (g.addNodes bits) ⟨(List.range g.numNodes).map (g.nodeBits bits), []⟩ := by
  have hstart : Represents {} {} := ⟨rfl, rfl, rfl, rfl, rfl⟩
  have hnodes := represents_addNodes hstart ((Lib.Grid.points g.nN g.nN g.nN).map fun p =>
    (bits (g.position p).1, bits (g.position p).2.1, bits (g.position p).2.2))
  rw [List.foldl_map, Lib.Grid.points_eq, List.map_map] at hnodes
  unfold addNodes
  rw [Lib.Grid.points_eq]
  exact hnodes

variable {g} {bits : K → UInt64}

theorem meshCube_represents (hsmall : g.numNodes < 2 ^ 64) {m : MeshImpl} {mesh : Mesh} (h : Represents m mesh)
    (hcount : mesh.nodes.length = g.numNodes) {b : Point} (hb : g.CubeInside b) :
    Represents (g.meshCube m b) { mesh with cells := mesh.cells ++ Path.all.map (g.tetCell b) } := by
  have hrange : ∀ t ∈ kHexToTets.map (g.tetNodes (g.nodeAt b.1 b.2.1 b.2.2)), ∀ idx ∈ t,
      idx.toNat < mesh.nodes.length := by
    intro t ht idx hidx
    rw [kHexToTets_eq, List.map_map] at ht
    obtain ⟨p, -, rfl⟩ := List.mem_map.mp ht
    have hmem := List.mem_map_of_mem (f := UInt64.toNat) hidx
    rw [Function.comp_apply, tetNodes_toNat hsmall hb p] at hmem
    obtain ⟨d, hd, hnumber⟩ := List.mem_map.mp hmem
    rw [hcount, ← hnumber]
    exact g.number_lt (g.nodeInside_add hb (p.tet_le d hd))
  have hfour : ∀ t ∈ kHexToTets.map (g.tetNodes (g.nodeAt b.1 b.2.1 b.2.2)), t.length = 4 := by
    intro t ht
    obtain ⟨tet, htet, rfl⟩ := List.mem_map.mp ht
    unfold tetNodes
    rw [List.length_map]
    exact (by decide : ∀ tet ∈ kHexToTets, tet.length = 4) tet htet
  have hadded := represents_addCells h _ hfour hrange
  rw [List.foldl_map, List.map_map, kHexToTets_eq, List.map_map] at hadded
  have hcells : Path.all.map (g.tetCell b) = Path.all.map fun p =>
      ⟨.tet4, (g.tetNodes (g.nodeAt b.1 b.2.1 b.2.2) (p.tet.map cornerNumber)).map UInt64.toNat, untagged⟩ := by
    apply List.map_congr_left
    intro p _
    rw [tetNodes_toNat hsmall hb p]
    rfl
  unfold meshCube
  rw [hcells, kHexToTets_eq]
  exact hadded

theorem build_represents (hsmall : g.numNodes < 2 ^ 64) : Represents (g.build bits) (g.mesh bits) := by
  have hfold : ∀ (bs : List Point), (∀ b ∈ bs, g.CubeInside b) → ∀ {m : MeshImpl} {mesh : Mesh}, Represents m mesh →
      mesh.nodes.length = g.numNodes → Represents (bs.foldl g.meshCube m)
        { mesh with cells := mesh.cells ++ bs.flatMap fun b => Path.all.map (g.tetCell b) } := by
    intro bs
    induction bs with
    | nil =>
      intro _ m mesh h _
      rw [List.flatMap_nil, List.append_nil]
      exact h
    | cons b bs ih =>
      intro hinside m mesh h hcount
      have hcube := meshCube_represents hsmall h hcount (hinside b List.mem_cons_self)
      rw [List.foldl_cons, List.flatMap_cons, ← List.append_assoc]
      exact ih (fun b' hb' => hinside b' (List.mem_cons_of_mem b hb')) hcube hcount
  have hcount : ((List.range g.numNodes).map (g.nodeBits bits)).length = g.numNodes := by
    rw [List.length_map, List.length_range]
  exact hfold g.cubes (fun b hb => g.mem_cubes.mp hb) (g.addNodes_represents bits) hcount

/-! ## The faces -/

variable (g)

/-- The nodes of a facet of a cube. -/
def face (a : Point × Facet) : List ℕ := (a.2.pointsAt a.1).map g.number

theorem faces_tetCell (b : Point) (p : Path) : (g.tetCell b p).faces = p.facets.map fun f => g.face (b, f) := by
  cases p <;> rfl

theorem mesh_faces (bits : K → UInt64) : (g.mesh bits).faces = (g.cubes ×ˢ facets).map g.face := by
  show (g.cubes.flatMap fun b => Path.all.map (g.tetCell b)).flatMap Cell.faces =
    (g.cubes.flatMap fun b => (Path.all.flatMap Path.facets).map (Prod.mk b)).map g.face
  rw [List.flatMap_assoc, List.map_flatMap]
  apply List.flatMap_congr
  intro b _
  rw [List.flatMap_map, List.map_map, List.map_flatMap]
  apply List.flatMap_congr
  intro p _
  exact g.faces_tetCell b p

theorem mem_facetsOf {a : Point × Facet} : a ∈ g.cubes ×ˢ facets ↔ g.CubeInside a.1 := by
  obtain ⟨b, f⟩ := a
  rw [List.mem_product, mem_cubes, and_iff_left (mem_facets f)]

theorem nodup_cubes : g.cubes.Nodup := by
  unfold cubes
  rw [Lib.Grid.points_eq]
  refine List.nodup_range.map_on fun v _ w _ h => ?_
  rw [← Lib.Grid.index_point (a := g.cellsPerAxis) (b := g.cellsPerAxis) v, h, Lib.Grid.index_point]

theorem nodup_facetsOf : (g.cubes ×ˢ facets).Nodup := g.nodup_cubes.product nodup_facets

variable {g} {a a' : Point × Facet}

theorem nodeInside_pointsAt (ha : g.CubeInside a.1) {q : Point} (hq : q ∈ a.2.pointsAt a.1) : g.NodeInside q := by
  obtain ⟨d, hd, rfl⟩ := List.mem_map.mp hq
  exact g.nodeInside_add ha (a.2.points_le d hd)

theorem mem_face_iff (ha : g.CubeInside a.1) {q : Point} (hq : g.NodeInside q) :
    g.number q ∈ g.face a ↔ q ∈ a.2.pointsAt a.1 := by
  refine ⟨fun h => ?_, fun h => List.mem_map_of_mem h⟩
  obtain ⟨q', hq', heq⟩ := List.mem_map.mp h
  exact g.number_inj (nodeInside_pointsAt ha hq') hq heq ▸ hq'

/-- The two sides of a facet. -/
def Partners (a a' : Point × Facet) : Prop := a'.2 = a.2.partner ∧ a'.1 + a'.2.low = a.1 + a.2.low

theorem partner_face (h : Partners a a') : (g.face a').IsRotated (g.face a).reverse := by
  obtain ⟨b, f⟩ := a
  obtain ⟨c, f'⟩ := a'
  obtain ⟨rfl, hlow⟩ := h
  unfold face
  rw [← List.map_reverse]
  exact (Facet.pointsAt_partner hlow).map g.number

theorem same_face (ha : g.CubeInside a.1) (ha' : g.CubeInside a'.1) :
    (g.face a').toFinset = (g.face a).toFinset ↔ a' = a ∨ Partners a a' := by
  constructor
  · intro h
    have hmem : ∀ v, v ∈ g.face a ↔ v ∈ g.face a' := by
      intro v
      rw [← List.mem_toFinset, ← h, List.mem_toFinset]
    have hpoints : ∀ q, q ∈ a.2.pointsAt a.1 ↔ q ∈ a'.2.pointsAt a'.1 := by
      intro q
      constructor
      · intro hq
        have hin := nodeInside_pointsAt ha hq
        exact (mem_face_iff ha' hin).mp ((hmem _).mp ((mem_face_iff ha hin).mpr hq))
      · intro hq
        have hin := nodeInside_pointsAt ha' hq
        exact (mem_face_iff ha hin).mp ((hmem _).mpr ((mem_face_iff ha' hin).mpr hq))
    rcases Facet.same_points hpoints with ⟨hf, hb⟩ | hpartner
    · exact Or.inl (Prod.ext hb hf)
    · exact Or.inr hpartner
  · rintro (rfl | h)
    · rfl
    · have hperm := (partner_face h).perm.trans (List.reverse_perm (g.face a))
      exact List.toFinset_eq_of_perm _ _ hperm

theorem Partners.unique {a₁ a₂ : Point × Facet} (h₁ : Partners a a₁) (h₂ : Partners a a₂) : a₁ = a₂ := by
  obtain ⟨b₁, f₁⟩ := a₁
  obtain ⟨b₂, f₂⟩ := a₂
  obtain ⟨rfl, hlow₁⟩ := h₁
  obtain ⟨rfl, hlow₂⟩ := h₂
  exact Prod.ext (add_right_cancel (hlow₁.trans hlow₂.symm)) rfl

theorem Partners.ne (h : Partners a a') : a' ≠ a := by
  rintro rfl
  exact a'.2.partner_ne h.1.symm

theorem countP_faces (bits : K → UInt64) (a : Point × Facet) :
    (g.mesh bits).faces.countP (fun f => f.toFinset = (g.face a).toFinset) =
      (g.cubes ×ˢ facets).countP fun a' => (g.face a').toFinset = (g.face a).toFinset := by
  rw [mesh_faces, List.countP_map]
  rfl

theorem countP_eq_one_iff (bits : K → UInt64) (ha : g.CubeInside a.1) :
    (g.mesh bits).faces.countP (fun f => f.toFinset = (g.face a).toFinset) = 1 ↔
      ¬∃ a', g.CubeInside a'.1 ∧ Partners a a' := by
  rw [countP_faces]
  have hself : 1 ≤ (g.cubes ×ˢ facets).countP fun a' => (g.face a').toFinset = (g.face a).toFinset := by
    refine length_le_countP [a] (List.nodup_singleton a) fun a' ha' => ?_
    rw [List.mem_singleton.mp ha']
    exact ⟨g.mem_facetsOf.mpr ha, decide_eq_true rfl⟩
  constructor
  · rintro hone ⟨a', ha', hpartner⟩
    have htwo : [a, a'].length ≤ (g.cubes ×ˢ facets).countP fun a' => (g.face a').toFinset = (g.face a).toFinset := by
      refine length_le_countP [a, a'] (List.nodup_cons.mpr ⟨?_, List.nodup_singleton a'⟩) fun a'' ha'' => ?_
      · exact fun hmem => hpartner.ne (List.mem_singleton.mp hmem).symm
      · rcases List.mem_cons.mp ha'' with rfl | ha''
        · exact ⟨g.mem_facetsOf.mpr ha, decide_eq_true rfl⟩
        · rw [List.mem_singleton.mp ha'']
          exact ⟨g.mem_facetsOf.mpr ha', decide_eq_true ((same_face ha ha').mpr (Or.inr hpartner))⟩
    rw [hone] at htwo
    exact Nat.not_succ_le_self 1 htwo
  · intro hnone
    refine Nat.le_antisymm (countP_le_length [a] g.nodup_facetsOf fun a' ha' hsame => ?_) hself
    have hin := g.mem_facetsOf.mp ha'
    rcases (same_face ha hin).mp (of_decide_eq_true hsame) with rfl | hpartner
    · exact List.mem_singleton.mpr rfl
    · exact absurd ⟨a', hin, hpartner⟩ hnone

theorem mesh_solid (bits : K → UInt64) : Solid (g.mesh bits) where
  valid cell hcell := by
    obtain ⟨b, hb, hmem⟩ := List.mem_flatMap.mp hcell
    obtain ⟨p, -, rfl⟩ := List.mem_map.mp hmem
    refine ⟨?_, fun v hv => ?_⟩
    · cases p <;> rfl
    · obtain ⟨d, hd, rfl⟩ := List.mem_map.mp hv
      show g.number (b + d) < ((List.range g.numNodes).map (g.nodeBits bits)).length
      rw [List.length_map, List.length_range]
      exact g.number_lt (g.nodeInside_add (g.mem_cubes.mp hb) (p.tet_le d hd))
  linear cell hcell := by
    obtain ⟨b, -, hmem⟩ := List.mem_flatMap.mp hcell
    obtain ⟨p, -, rfl⟩ := List.mem_map.mp hmem
    exact List.mem_cons_self
  distinct cell hcell := by
    obtain ⟨b, hb, hmem⟩ := List.mem_flatMap.mp hcell
    obtain ⟨p, -, rfl⟩ := List.mem_map.mp hmem
    have hin := fun d hd => g.nodeInside_add (g.mem_cubes.mp hb) (p.tet_le d hd)
    refine p.tet_nodup.map_on fun d hd d' hd' h => ?_
    exact add_left_cancel (g.number_inj (hin d hd) (hin d' hd') h)
  twice f hf := by
    rw [mesh_faces] at hf
    obtain ⟨a, ha, rfl⟩ := List.mem_map.mp hf
    have hin := g.mem_facetsOf.mp ha
    rw [countP_faces]
    refine countP_le_length [a, (a.1 + a.2.low - a.2.partner.low, a.2.partner)] g.nodup_facetsOf
      fun a' ha' hsame => ?_
    rcases (same_face hin (g.mem_facetsOf.mp ha')).mp (of_decide_eq_true hsame) with rfl | ⟨hf, hlow⟩
    · exact List.mem_cons_self
    · refine List.mem_cons_of_mem _ (List.mem_singleton.mpr (Prod.ext ?_ hf))
      rw [hf] at hlow
      rw [← hlow, add_tsub_cancel_right]
  opposed := by
    rw [mesh_faces, List.pairwise_map]
    refine g.nodup_facetsOf.imp_of_mem fun {a a'} ha ha' hne hsame => ?_
    have hin := g.mem_facetsOf.mp ha
    have hin' := g.mem_facetsOf.mp ha'
    rcases (same_face hin hin').mp hsame.symm with rfl | hpartner
    · exact absurd rfl hne
    · exact partner_face hpartner

/-! ## The sides of the box -/

variable (g)

theorem wide_of (a : Axis) : a.of g.box.lo < a.of g.box.hi := by
  obtain ⟨hx, hy, hz⟩ := g.wide
  cases a <;> assumption

theorem of_spacing (a : Axis) : a.of g.spacing = (a.of g.box.hi - a.of g.box.lo) / g.cellsPerAxis := by
  cases a <;> rfl

theorem of_position (a : Axis) (p : Point) :
    a.of (g.position p) = a.of g.box.lo + a.of g.spacing * (a.of p : ℕ) := by
  cases a <;> rfl

theorem cellsPerAxis_pos : 0 < g.cellsPerAxis := Nat.sub_pos_of_lt g.two_le

variable {g}

theorem nodePosition_number {p : Point} (h : g.NodeInside p) : g.nodePosition (g.number p) = g.position p := by
  unfold nodePosition
  rw [g.nodePoint_number h]

end Grid

/-- In exact arithmetic the position lies on a side of the box, at the end of an axis or at its beginning. -/
def Box.OnSide (box : Box K) (a : Axis) (e : Bool) (q : K × K × K) : Prop :=
  a.of q = a.of (if e then box.hi else box.lo)

/-- A mesh of tetrahedra whose faces are shared by two cells or lie on a side of the box. -/
structure Conforming (g : Grid K) (bits : K → UInt64) (m : MeshImpl) (mesh : Mesh) : Prop where
  represents : Represents m mesh
  nodes : mesh.nodes = (List.range (g.nN ^ 3)).map (g.nodeBits bits)
  count : mesh.cells.length = 6 * (g.nN - 1) ^ 3
  tets : ∀ cell ∈ mesh.cells, cell.type = .tet4 ∧ cell.tag = untagged
  solid : Solid mesh
  boundary : ∀ f ∈ mesh.faces, mesh.faces.countP (fun f' => f'.toFinset = f.toFinset) = 1 ↔
    ∃ a e, ∀ v ∈ f, g.box.OnSide a e (g.nodePosition v)

namespace Grid

variable {g : Grid K} [IsStrictOrderedRing K]

theorem onSide_position (a : Axis) (e : Bool) (p : Point) :
    g.box.OnSide a e (g.position p) ↔ a.of p = if e then g.cellsPerAxis else 0 := by
  obtain ⟨hlo, hhi⟩ := Am.LayeredMesher.Grid.coordinate_eq (g.wide_of a) g.cellsPerAxis_pos (a.of p)
  unfold Box.OnSide
  rw [of_position, of_spacing]
  cases e with
  | true => exact hhi
  | false => exact hlo

theorem mesh_boundary (bits : K → UInt64) {f : List ℕ} (hf : f ∈ (g.mesh bits).faces) :
    (g.mesh bits).faces.countP (fun f' => f'.toFinset = f.toFinset) = 1 ↔
      ∃ a e, ∀ v ∈ f, g.box.OnSide a e (g.nodePosition v) := by
  rw [mesh_faces] at hf
  obtain ⟨⟨b, f⟩, ha, rfl⟩ := List.mem_map.mp hf
  have hin : g.CubeInside b := g.mem_facetsOf.mp ha
  have hbelow : ∀ b : Point, g.CubeInside b ↔ ∀ a : Axis, a.of b < g.cellsPerAxis := by
    intro b
    exact ⟨fun ⟨hx, hy, hz⟩ a => by cases a <;> assumption, fun h => ⟨h .x, h .y, h .z⟩⟩
  have hpartner : (∃ a', g.CubeInside a'.1 ∧ Partners (b, f) a') ↔
      ∃ c, (∀ a : Axis, a.of c < g.cellsPerAxis) ∧ c + f.partner.low = b + f.low := by
    constructor
    · rintro ⟨⟨c, -⟩, hc, rfl, hlow⟩
      exact ⟨c, (hbelow c).mp hc, hlow⟩
    · rintro ⟨c, hc, hlow⟩
      exact ⟨(c, f.partner), (hbelow c).mpr hc, rfl, hlow⟩
  rw [countP_eq_one_iff bits hin, hpartner, Facet.exists_partner_iff ((hbelow b).mp hin), not_not]
  refine exists_congr fun a => exists_congr fun e => ?_
  rw [← Facet.outer_iff ((hbelow b).mp hin)]
  unfold face
  rw [List.forall_mem_map]
  refine forall₂_congr fun q hq => ?_
  rw [nodePosition_number (nodeInside_pointsAt (a := (b, f)) hin hq), onSide_position]

theorem mesh_conforming (hsmall : g.numNodes < 2 ^ 64) (bits : K → UInt64) :
    Conforming g bits (g.build bits) (g.mesh bits) where
  represents := build_represents hsmall
  nodes := by
    have hcube : g.nN ^ 3 = g.numNodes := by
      unfold numNodes
      ring
    rw [hcube]
    rfl
  count := by
    have hcubes : g.cubes.length = g.cellsPerAxis ^ 3 := by
      unfold cubes
      rw [Lib.Grid.points_eq, List.length_map, List.length_range]
      ring
    show (g.cubes.flatMap fun b => Path.all.map (g.tetCell b)).length = 6 * g.cellsPerAxis ^ 3
    have hsix : ∀ b ∈ g.cubes, (Path.all.map (g.tetCell b)).length = 6 := fun _ _ => rfl
    rw [List.length_flatMap, List.map_congr_left hsix, List.map_const', List.sum_replicate, hcubes, smul_eq_mul,
      Nat.mul_comm]
  tets cell hcell := by
    obtain ⟨b, -, hmem⟩ := List.mem_flatMap.mp hcell
    obtain ⟨p, -, rfl⟩ := List.mem_map.mp hmem
    exact ⟨rfl, rfl⟩
  solid := mesh_solid bits
  boundary _ hf := mesh_boundary bits hf

end Grid

variable [IsStrictOrderedRing K] [FloorRing K]

/-- The mesh is the nodes of the grid and tetrahedra that fit together: a face belongs to two cells, which run around
it in opposite order, unless it lies on a side of the box. -/
theorem grid_mesh_conforming (bits : K → UInt64) {outMesh : Bool} {geometry : Option (List (K × K × K))}
    {targetSize : Option K} {g : Grid K} (hplan : plan outMesh geometry targetSize = .ok g)
    (hsmall : g.nN ^ 3 < 2 ^ 64) :
    ∃ m mesh, gridMesh bits outMesh geometry targetSize = .ok m ∧ Conforming g bits m mesh := by
  have hcount : g.numNodes < 2 ^ 64 := by
    unfold Grid.numNodes
    rwa [← pow_three']
  refine ⟨g.build bits, g.mesh bits, ?_, Grid.mesh_conforming hcount bits⟩
  unfold gridMesh
  rw [hplan]
  rfl

end

/-- The ends of a diagonal of a plate. -/
def plate : List (ℚ × ℚ × ℚ) := [(0, 0, 0), (2, 1, 1)]

theorem exists_plan_plate : ∃ g, plan true (some plate) (some (1 / 2)) = .ok g ∧ g.nN = 5 ∧
    g.box.longest = 2 := by
  have hbox : boundingBox plate = ⟨(0, 0, 0), (2, 1, 1)⟩ := by
    norm_num [boundingBox, plate, Box.include]
  have hlongest : (boundingBox plate).longest = 2 := by
    rw [hbox]
    norm_num [Box.longest]
  have hN : nodesPerAxis (some (1 / 2)) (2 : ℚ) = 5 := by
    have hceil : ⌈(2 : ℚ) / (1 / 2)⌉ = 4 := by norm_num
    have hnodes := nodesPerAxis_eq (K := ℚ) (t := 1 / 2) (L := 2) (by norm_num) (by omega)
    omega
  have hwide : (boundingBox plate).hi.1 - (boundingBox plate).lo.1 > 0 ∧
      (boundingBox plate).hi.2.1 - (boundingBox plate).lo.2.1 > 0 ∧
      (boundingBox plate).hi.2.2 - (boundingBox plate).lo.2.2 > 0 := by
    norm_num [hbox]
  obtain ⟨g, hplan, hnodes⟩ := exists_plan hwide
  rw [hlongest, hN] at hnodes
  obtain ⟨vertices, hvertices, hbox', -⟩ := plan_ok hplan
  obtain rfl := Option.some.inj hvertices
  exact ⟨g, hplan, hnodes, by rw [hbox', hlongest]⟩

theorem grid_mesh_conforming_plate : ∃ (g : Grid ℚ) (m : MeshImpl) (mesh : Mesh),
    gridMesh (fun _ => 0) true (some plate) (some (1 / 2)) = .ok m ∧ Conforming g (fun _ => 0) m mesh ∧
      mesh.cells.length = 384 := by
  obtain ⟨g, hplan, hN, -⟩ := exists_plan_plate
  obtain ⟨m, mesh, hrun, hmesh⟩ := grid_mesh_conforming (fun _ => 0) hplan (by rw [hN]; decide)
  refine ⟨g, m, mesh, hrun, hmesh, ?_⟩
  rw [hmesh.count, hN]
  rfl

end Souxmar.Plugins.GridMesher
