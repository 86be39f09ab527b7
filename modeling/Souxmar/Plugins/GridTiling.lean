import Mathlib.Algebra.Order.Floor.Semiring
import Souxmar.Plugins.GridMesh

/-!
# The tetrahedra tile the box
-/

namespace Souxmar.Plugins.GridMesher

open Souxmar.Core Souxmar.Lib Souxmar.Lib.Kuhn

section

variable {K : Type*} [Field K] [LinearOrder K]

/-! ## Points in cells -/

/-- `q` is the mean of the nodes with these weights. -/
structure Mean (pos : ℕ → K × K × K) (nodes : List ℕ) (w : List K) (q : K × K × K) : Prop where
  length : w.length = nodes.length
  one : w.sum = 1
  mean : ∀ a : Axis, (List.zipWith (fun v x => x * a.of (pos v)) nodes w).sum = a.of q

def triple (u v w : K × K × K) : K :=
  u.1 * (v.2.1 * w.2.2 - v.2.2 * w.2.1) + u.2.1 * (v.2.2 * w.1 - v.1 * w.2.2) + u.2.2 * (v.1 * w.2.1 - v.2.1 * w.1)

/-- Six times the volume of a tetrahedron, positive when the first three nodes turn to the right-hand side as seen
from the fourth. -/
def sixVolumes (pos : ℕ → K × K × K) (nodes : List ℕ) : K :=
  triple (pos (nodes.getD 1 0) - pos (nodes.getD 0 0)) (pos (nodes.getD 2 0) - pos (nodes.getD 0 0))
    (pos (nodes.getD 3 0) - pos (nodes.getD 0 0))

def Box.volume (box : Box K) : K := (box.hi.1 - box.lo.1) * (box.hi.2.1 - box.lo.2.1) * (box.hi.2.2 - box.lo.2.2)

def Box.Contains (box : Box K) (q : K × K × K) : Prop := ∀ a : Axis, a.of box.lo ≤ a.of q ∧ a.of q ≤ a.of box.hi

/-- The cells of a mesh fill the box and do not overlap. -/
structure Tiles (box : Box K) (pos : ℕ → K × K × K) (mesh : Mesh) : Prop where
  positive : ∀ cell ∈ mesh.cells, 0 < sixVolumes pos cell.nodes
  volume : (mesh.cells.map fun cell => sixVolumes pos cell.nodes).sum = 6 * box.volume
  covers : ∀ q, box.Contains q → ∃ cell ∈ mesh.cells, ∃ w, (∀ x ∈ w, 0 ≤ x) ∧ Mean pos cell.nodes w q
  apart : ∀ (c c' : ℕ) (cell cell' : Cell) (w w' : List K) (q : K × K × K),
    mesh.cells[c]? = some cell → mesh.cells[c']? = some cell' → (∀ x ∈ w, 0 < x) → Mean pos cell.nodes w q →
      (∀ x ∈ w', 0 < x) → Mean pos cell'.nodes w' q → c = c'

namespace Grid

variable (g : Grid K)

/-- The place of a position in the cube at `b`, with the cube as the unit. -/
def within (b : Point) (q : K × K × K) : K × K × K :=
  ((q.1 - g.box.lo.1) / g.spacing.1 - b.1, (q.2.1 - g.box.lo.2.1) / g.spacing.2.1 - b.2.1,
    (q.2.2 - g.box.lo.2.2) / g.spacing.2.2 - b.2.2)

theorem of_within (a : Axis) (b : Point) (q : K × K × K) :
    a.of (g.within b q) = (a.of q - a.of g.box.lo) / a.of g.spacing - (a.of b : ℕ) := by
  cases a <;> rfl

variable {g} {b : Point} {p : Path}

theorem nodePosition_tetCell (hb : g.CubeInside b) (p : Path) (t : Stop) :
    g.nodePosition (g.number (b + p.corner t)) = g.position (b + p.corner t) := by
  have hmem : p.corner t ∈ p.tet := List.mem_map_of_mem (p.mem_stops t)
  exact nodePosition_number (g.nodeInside_add hb (p.tet_le _ hmem))

theorem nodes_tetCell (b : Point) (p : Path) :
    (g.tetCell b p).nodes = p.stops.map fun t => g.number (b + p.corner t) := by
  unfold tetCell Path.tet
  rw [List.map_map]
  rfl

variable [IsStrictOrderedRing K]

theorem spacing_pos (a : Axis) : 0 < a.of g.spacing := by
  rw [of_spacing]
  exact div_pos (sub_pos.mpr (g.wide_of a)) (Nat.cast_pos.mpr g.cellsPerAxis_pos)

theorem mean_tetCell_iff (hb : g.CubeInside b) {w : Stop → K} {q : K × K × K} :
    Mean g.nodePosition (g.tetCell b p).nodes (p.stops.map w) q ↔ p.Mean w (g.within b q) := by
  have hmean : ∀ a : Axis, total w = 1 →
      ((List.zipWith (fun v x => x * a.of (g.nodePosition v)) (g.tetCell b p).nodes (p.stops.map w)).sum = a.of q ↔
        total (fun t => w t * (a.of (p.corner t) : ℕ)) = a.of (g.within b q)) := by
    intro a hone
    have hzip : List.zipWith (fun v x => x * a.of (g.nodePosition v)) (g.tetCell b p).nodes (p.stops.map w) =
        p.stops.map fun t => w t * a.of (g.position (b + p.corner t)) := by
      rw [nodes_tetCell, List.zipWith_map, List.zipWith_self]
      apply List.map_congr_left
      intro t _
      rw [nodePosition_tetCell hb]
    have hsum : total (fun t => w t * a.of (g.position (b + p.corner t))) =
        a.of g.box.lo + a.of g.spacing * ((a.of b : ℕ) + total fun t => w t * (a.of (p.corner t) : ℕ)) := by
      unfold total at hone ⊢
      simp only [of_position, Axis.of_add, Nat.cast_add]
      linear_combination (a.of g.box.lo + a.of g.spacing * (a.of b : ℕ)) * hone
    have hne := (g.spacing_pos a).ne'
    rw [hzip, p.sum_stops, hsum, of_within, eq_sub_iff_add_eq, eq_div_iff hne, eq_sub_iff_add_eq]
    constructor
    · intro h
      rw [← h]
      ring
    · intro h
      rw [← h]
      ring
  constructor
  · rintro ⟨-, hone, h⟩
    rw [p.sum_stops] at hone
    exact ⟨hone, fun a => (hmean a hone).mp (h a)⟩
  · rintro ⟨hone, h⟩
    refine ⟨?_, ?_, fun a => (hmean a hone).mpr (h a)⟩
    · rw [nodes_tetCell, List.length_map, List.length_map]
    · rw [p.sum_stops]
      exact hone

/-! ## Volumes -/

omit [LinearOrder K] [IsStrictOrderedRing K] in
theorem triple_path (p : Path) (s : K × K × K) {u : Stop → K × K × K}
    (hu : ∀ t, ∀ a : Axis, a.of (u t) = a.of s * (a.of (p.corner t) : ℕ)) :
    (if p.even then triple (u .one) (u .two) (u .opposite) else triple (u .one) (u .opposite) (u .two)) =
      s.1 * s.2.1 * s.2.2 := by
  have hx := fun t => hu t .x
  have hy := fun t => hu t .y
  have hz := fun t => hu t .z
  simp only [Axis.of] at hx hy hz
  unfold triple
  rw [hx, hx, hx, hy, hy, hy, hz, hz, hz]
  cases p <;> simp [Path.even, Path.corner, Path.first, Path.second, Axis.step] <;> ring

omit [IsStrictOrderedRing K] in
theorem sixVolumes_tetCell (hb : g.CubeInside b) (p : Path) :
    sixVolumes g.nodePosition (g.tetCell b p).nodes = g.spacing.1 * g.spacing.2.1 * g.spacing.2.2 := by
  have hdiff : ∀ t, ∀ a : Axis, a.of (g.position (b + p.corner t) - g.position (b + p.corner .origin)) =
      a.of g.spacing * (a.of (p.corner t) : ℕ) := by
    intro t a
    have hsub : ∀ u v : K × K × K, a.of (u - v) = a.of u - a.of v := by
      intro u v
      cases a <;> rfl
    have horigin : a.of (p.corner .origin) = 0 := by
      cases a <;> rfl
    rw [hsub, of_position, of_position, Axis.of_add, Axis.of_add, horigin]
    push_cast
    ring
  rw [← triple_path p g.spacing hdiff, nodes_tetCell]
  have hnode := fun t => nodePosition_tetCell hb p t
  unfold sixVolumes Path.stops
  split_ifs
  · simp only [List.map_cons, List.map_nil, List.getD_cons_zero, List.getD_cons_succ, hnode]
  · simp only [List.map_cons, List.map_nil, List.getD_cons_zero, List.getD_cons_succ, hnode]

omit [IsStrictOrderedRing K] in
theorem cells_eq (g : Grid K) (bits : K → UInt64) :
    (g.mesh bits).cells = (g.cubes ×ˢ Path.all).map fun c => g.tetCell c.1 c.2 := by
  show g.cubes.flatMap (fun b => Path.all.map (g.tetCell b)) =
    (g.cubes.flatMap fun b => Path.all.map (Prod.mk b)).map fun c => g.tetCell c.1 c.2
  rw [List.map_flatMap]
  apply List.flatMap_congr
  intro b _
  rw [List.map_map]
  rfl

omit [IsStrictOrderedRing K] in
theorem mem_cells {bits : K → UInt64} {cell : Cell} (h : cell ∈ (g.mesh bits).cells) :
    ∃ b p, g.CubeInside b ∧ cell = g.tetCell b p := by
  obtain ⟨b, hb, hmem⟩ := List.mem_flatMap.mp h
  obtain ⟨p, -, rfl⟩ := List.mem_map.mp hmem
  exact ⟨b, p, g.mem_cubes.mp hb, rfl⟩

theorem sum_volumes (bits : K → UInt64) (hcount : (g.mesh bits).cells.length = 6 * (g.nN - 1) ^ 3) :
    ((g.mesh bits).cells.map fun cell => sixVolumes g.nodePosition cell.nodes).sum = 6 * g.box.volume := by
  have hsame : ∀ cell ∈ (g.mesh bits).cells, sixVolumes g.nodePosition cell.nodes =
      g.spacing.1 * g.spacing.2.1 * g.spacing.2.2 := by
    intro cell hcell
    obtain ⟨b, p, hb, rfl⟩ := mem_cells hcell
    exact sixVolumes_tetCell hb p
  have hne : (g.cellsPerAxis : K) ≠ 0 := Nat.cast_ne_zero.mpr g.cellsPerAxis_pos.ne'
  have hcells : g.nN - 1 = g.cellsPerAxis := rfl
  rw [List.map_congr_left hsame, List.map_const', List.sum_replicate, hcount, hcells, nsmul_eq_mul]
  unfold Box.volume spacing
  push_cast
  field_simp

/-! ## Every point lies in a cell -/

variable [FloorRing K]

theorem exists_step {n : ℕ} (hn : 0 < n) {u : K} (h0 : 0 ≤ u) (hu : u ≤ n) :
    ∃ i < n, 0 ≤ u - (i : ℕ) ∧ u - (i : ℕ) ≤ 1 := by
  by_cases hlast : u < n
  · refine ⟨⌊u⌋₊, (Nat.floor_lt h0).mpr hlast, sub_nonneg.mpr (Nat.floor_le h0), ?_⟩
    have hlt := (Nat.lt_floor_add_one u).le
    linarith
  · have heq : u = n := le_antisymm hu (not_lt.mp hlast)
    refine ⟨n - 1, Nat.sub_lt hn Nat.one_pos, ?_, ?_⟩
    · rw [heq, Nat.cast_sub hn, Nat.cast_one]
      linarith
    · rw [heq, Nat.cast_sub hn, Nat.cast_one]
      linarith

theorem covers (bits : K → UInt64) {q : K × K × K} (hq : g.box.Contains q) :
    ∃ cell ∈ (g.mesh bits).cells, ∃ w, (∀ x ∈ w, 0 ≤ x) ∧ Mean g.nodePosition cell.nodes w q := by
  have hcube : ∀ a : Axis, ∃ i < g.cellsPerAxis, 0 ≤ (a.of q - a.of g.box.lo) / a.of g.spacing - (i : ℕ) ∧
      (a.of q - a.of g.box.lo) / a.of g.spacing - (i : ℕ) ≤ 1 := by
    intro a
    obtain ⟨hlo, hhi⟩ := hq a
    have hpos := g.spacing_pos a
    refine exists_step g.cellsPerAxis_pos (div_nonneg (sub_nonneg.mpr hlo) hpos.le) ?_
    rw [div_le_iff₀ hpos, of_spacing, mul_div_cancel₀ _ (Nat.cast_ne_zero.mpr g.cellsPerAxis_pos.ne')]
    linarith
  obtain ⟨i, hi, hx⟩ := hcube .x
  obtain ⟨j, hj, hy⟩ := hcube .y
  obtain ⟨k, hk, hz⟩ := hcube .z
  have hb : g.CubeInside (i, j, k) := ⟨hi, hj, hk⟩
  have hunit : ∀ a : Axis, 0 ≤ a.of (g.within (i, j, k) q) ∧ a.of (g.within (i, j, k) q) ≤ 1 := by
    intro a
    cases a <;> assumption
  obtain ⟨p, hp⟩ := Path.exists_weight hunit
  refine ⟨g.tetCell (i, j, k) p, ?_, p.stops.map (p.weight (g.within (i, j, k) q)), ?_, ?_⟩
  · exact List.mem_flatMap.mpr ⟨_, g.mem_cubes.mpr hb, List.mem_map_of_mem p.mem_all⟩
  · intro x hx
    obtain ⟨t, -, rfl⟩ := List.mem_map.mp hx
    exact hp t
  · exact (mean_tetCell_iff hb).mpr (p.mean_weight _)

/-! ## No point lies inside two cells -/

omit [FloorRing K] in
theorem weight_of_mean (hb : g.CubeInside b) {w : List K} {q : K × K × K} (hpos : ∀ x ∈ w, 0 < x)
    (h : Mean g.nodePosition (g.tetCell b p).nodes w q) : ∀ t, 0 < p.weight (g.within b q) t := by
  have hlength : w.length = 4 := by
    rw [h.length]
    cases p <;> rfl
  obtain ⟨w', rfl⟩ := p.exists_weights hlength
  intro t
  rw [← ((mean_tetCell_iff hb).mp h).weight_eq]
  exact hpos _ (List.mem_map_of_mem (p.mem_stops t))

omit [FloorRing K] in
theorem same_cell {b' : Point} {p' : Path} {q : K × K × K} (h : ∀ t, 0 < p.weight (g.within b q) t)
    (h' : ∀ t, 0 < p'.weight (g.within b' q) t) : (b, p) = (b', p') := by
  have hcoord : ∀ a : Axis, a.of b = a.of b' := by
    intro a
    obtain ⟨h0, h1⟩ := Path.inner_of_pos h a
    obtain ⟨h0', h1'⟩ := Path.inner_of_pos h' a
    rw [of_within] at h0 h1 h0' h1'
    have hlt : ((a.of b : ℕ) : K) < (a.of b' + 1 : ℕ) := by
      push_cast
      linarith
    have hlt' : ((a.of b' : ℕ) : K) < (a.of b + 1 : ℕ) := by
      push_cast
      linarith
    have hle := Nat.cast_lt.mp hlt
    have hle' := Nat.cast_lt.mp hlt'
    omega
  obtain rfl : b = b' := Prod.ext (hcoord .x) (Prod.ext (hcoord .y) (hcoord .z))
  rw [Path.eq_of_pos h h']

omit [FloorRing K] in
theorem apart (bits : K → UInt64) {c c' : ℕ} {cell cell' : Cell} {w w' : List K} {q : K × K × K}
    (hc : (g.mesh bits).cells[c]? = some cell) (hc' : (g.mesh bits).cells[c']? = some cell')
    (hpos : ∀ x ∈ w, 0 < x) (h : Mean g.nodePosition cell.nodes w q) (hpos' : ∀ x ∈ w', 0 < x)
    (h' : Mean g.nodePosition cell'.nodes w' q) : c = c' := by
  rw [cells_eq, List.getElem?_map, Option.map_eq_some_iff] at hc hc'
  obtain ⟨⟨b, p⟩, hget, rfl⟩ := hc
  obtain ⟨⟨b', p'⟩, hget', rfl⟩ := hc'
  have hin : ∀ {c : ℕ} {x : Point × Path}, (g.cubes ×ˢ Path.all)[c]? = some x → g.CubeInside x.1 := by
    rintro c ⟨b, p⟩ hx
    exact g.mem_cubes.mp (List.mem_product.mp (List.mem_of_getElem? hx)).1
  have hsame := same_cell (weight_of_mean (hin hget) hpos h) (weight_of_mean (hin hget') hpos' h')
  rw [← hsame] at hget'
  have hnodup : (g.cubes ×ˢ Path.all).Nodup := g.nodup_cubes.product (by decide)
  obtain ⟨hlt, -⟩ := List.getElem?_eq_some_iff.mp hget
  exact (List.getElem?_inj hlt hnodup).mp (hget.trans hget'.symm)

theorem mesh_tiles (bits : K → UInt64) (hcount : (g.mesh bits).cells.length = 6 * (g.nN - 1) ^ 3) :
    Tiles g.box g.nodePosition (g.mesh bits) where
  positive cell hcell := by
    obtain ⟨b, p, hb, rfl⟩ := mem_cells hcell
    rw [sixVolumes_tetCell hb]
    exact mul_pos (mul_pos (g.spacing_pos .x) (g.spacing_pos .y)) (g.spacing_pos .z)
  volume := sum_volumes bits hcount
  covers q hq := covers bits hq
  apart c c' cell cell' w w' q hc hc' hpos h hpos' h' := apart bits hc hc' hpos h hpos' h'

end Grid

/-! ## The bounding box -/

/-- The least box with these vertices. -/
structure Bounds (vertices : List (K × K × K)) (box : Box K) : Prop where
  contains : ∀ v ∈ vertices, box.Contains v
  lo : ∀ a : Axis, ∃ v ∈ vertices, a.of v = a.of box.lo
  hi : ∀ a : Axis, ∃ v ∈ vertices, a.of v = a.of box.hi

omit [Field K] in
theorem Bounds.include {vertices : List (K × K × K)} {box : Box K} (h : Bounds vertices box) (v : K × K × K) :
    Bounds (vertices ++ [v]) (box.include v) := by
  have hlo : ∀ a : Axis, a.of (box.include v).lo = min (a.of box.lo) (a.of v) := by
    intro a
    cases a <;> rfl
  have hhi : ∀ a : Axis, a.of (box.include v).hi = max (a.of box.hi) (a.of v) := by
    intro a
    cases a <;> rfl
  have hlast : v ∈ vertices ++ [v] := List.mem_append_right _ (List.mem_singleton.mpr rfl)
  refine ⟨fun u hu a => ?_, fun a => ?_, fun a => ?_⟩
  · rw [hlo, hhi]
    rcases List.mem_append.mp hu with hu | hu
    · obtain ⟨h0, h1⟩ := h.contains u hu a
      exact ⟨min_le_of_left_le h0, le_max_of_le_left h1⟩
    · rw [List.mem_singleton.mp hu]
      exact ⟨min_le_right _ _, le_max_right _ _⟩
  · rw [hlo]
    rcases min_choice (a.of box.lo) (a.of v) with heq | heq
    · obtain ⟨u, hu, hlow⟩ := h.lo a
      exact ⟨u, List.mem_append_left _ hu, hlow.trans heq.symm⟩
    · exact ⟨v, hlast, heq.symm⟩
  · rw [hhi]
    rcases max_choice (a.of box.hi) (a.of v) with heq | heq
    · obtain ⟨u, hu, hhigh⟩ := h.hi a
      exact ⟨u, List.mem_append_left _ hu, hhigh.trans heq.symm⟩
    · exact ⟨v, hlast, heq.symm⟩

theorem boundingBox_bounds {vertices : List (K × K × K)} (h : vertices ≠ []) :
    Bounds vertices (boundingBox vertices) := by
  have hfold : ∀ (more seen : List (K × K × K)) {box : Box K}, Bounds seen box →
      Bounds (seen ++ more) (more.foldl Box.include box) := by
    intro more
    induction more with
    | nil =>
      intro seen box hbox
      rwa [List.append_nil]
    | cons v more ih =>
      intro seen box hbox
      rw [List.append_cons]
      exact ih (seen ++ [v]) (hbox.include v)
  cases vertices with
  | nil => exact absurd rfl h
  | cons v vertices =>
    refine hfold vertices [v] ⟨fun u hu a => ?_, fun a => ⟨v, List.mem_cons_self, rfl⟩,
      fun a => ⟨v, List.mem_cons_self, rfl⟩⟩
    rw [List.mem_singleton.mp hu]
    exact ⟨le_refl _, le_refl _⟩

/-! ## The target size -/

variable [IsStrictOrderedRing K] [FloorRing K]

theorem length_div_le {t L : K} (ht : 0 < t) (hL : 0 ≤ L) (hint : L ≤ 2147483646 * t) :
    L / t ≤ ((nodesPerAxis (some t) L - 1 : ℕ) : K) := by
  have hceil : (⌈L / t⌉ : K) ≤ ((nodesPerAxis (some t) L - 1 : ℕ) : K) := by
    have hnonneg : 0 ≤ ⌈L / t⌉ := Int.ceil_nonneg (div_nonneg hL ht.le)
    have hsmall : ⌈L / t⌉ ≤ 2147483646 := by
      refine Int.ceil_le.mpr ?_
      rw [div_le_iff₀ ht]
      exact_mod_cast hint
    have hN := nodesPerAxis_eq ht ⟨hnonneg, by omega⟩
    have hcells : ⌈L / t⌉ ≤ ((nodesPerAxis (some t) L - 1 : ℕ) : ℤ) := by omega
    exact_mod_cast hcells
  exact (Int.le_ceil (L / t)).trans hceil

theorem spacing_le {g : Grid K} {t : K} (ht : 0 < t) (hint : g.box.longest ≤ 2147483646 * t)
    (hN : g.nN = nodesPerAxis (some t) g.box.longest) (a : Axis) : a.of g.spacing ≤ t := by
  have hpos : (0 : K) < g.cellsPerAxis := Nat.cast_pos.mpr g.cellsPerAxis_pos
  have hspan : a.of g.box.hi - a.of g.box.lo ≤ g.box.longest := by
    unfold Box.longest
    cases a with
    | x => exact le_max_of_le_left (le_max_left _ _)
    | y => exact le_max_of_le_left (le_max_right _ _)
    | z => exact le_max_right _ _
  have hcells : g.box.longest / t ≤ g.cellsPerAxis := by
    have hlongest : 0 ≤ g.box.longest :=
      le_max_of_le_right (sub_nonneg.mpr g.wide.2.2.le)
    have hle := length_div_le ht hlongest hint
    rw [← hN] at hle
    exact hle
  rw [Grid.of_spacing, div_le_iff₀ hpos]
  calc a.of g.box.hi - a.of g.box.lo ≤ g.box.longest := hspan
    _ ≤ g.cellsPerAxis * t := (div_le_iff₀ ht).mp hcells
    _ = t * g.cellsPerAxis := mul_comm _ _

/-- The tetrahedra tile the least box around the vertices of the geometry, each with the orientation of a Tet4. -/
theorem grid_mesh_tiles (bits : K → UInt64) {outMesh : Bool} {vertices : List (K × K × K)} {targetSize : Option K}
    {g : Grid K} (hplan : plan outMesh (some vertices) targetSize = .ok g) (hsmall : g.nN ^ 3 < 2 ^ 64) :
    ∃ m mesh, gridMesh bits outMesh (some vertices) targetSize = .ok m ∧ Represents m mesh ∧
      mesh.nodes = (List.range (g.nN ^ 3)).map (g.nodeBits bits) ∧ Tiles g.box g.nodePosition mesh ∧
      Bounds vertices g.box ∧ ∀ t, targetSize = some t → 0 < t → g.box.longest ≤ 2147483646 * t →
        ∀ a : Axis, a.of g.spacing ≤ t := by
  have hcount : g.numNodes < 2 ^ 64 := by
    unfold Grid.numNodes
    rwa [← pow_three']
  have hmesh := g.mesh_conforming hcount bits
  obtain ⟨vertices', hsome, hbox, hN⟩ := plan_ok hplan
  obtain rfl := Option.some.inj hsome
  refine ⟨g.build bits, g.mesh bits, ?_, hmesh.represents, hmesh.nodes, Grid.mesh_tiles bits hmesh.count, ?_, ?_⟩
  · unfold gridMesh
    rw [hplan]
    rfl
  · rw [hbox]
    refine boundingBox_bounds fun hnil => ?_
    have hwide := g.wide.1
    rw [hbox, hnil] at hwide
    exact lt_irrefl _ hwide
  · rintro t rfl ht hint a
    exact spacing_le ht hint hN a

end

theorem grid_mesh_tiles_plate : ∃ (g : Grid ℚ) (m : MeshImpl) (mesh : Mesh),
    gridMesh (fun _ => 0) true (some plate) (some (1 / 2)) = .ok m ∧ Represents m mesh ∧
      Tiles g.box g.nodePosition mesh ∧ Bounds plate g.box ∧ ∀ a : Axis, a.of g.spacing ≤ 1 / 2 := by
  obtain ⟨g, hplan, hN, hlongest⟩ := exists_plan_plate
  obtain ⟨m, mesh, hrun, hmesh, -, htiles, hbounds, hspacing⟩ :=
    grid_mesh_tiles (fun _ => 0) hplan (by rw [hN]; decide)
  exact ⟨g, m, mesh, hrun, hmesh, htiles, hbounds, hspacing _ rfl (by norm_num) (by norm_num [hlongest])⟩

end Souxmar.Plugins.GridMesher
