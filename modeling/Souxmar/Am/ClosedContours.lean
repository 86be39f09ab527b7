import Mathlib.Analysis.Real.Sqrt
import Mathlib.Data.Rat.Sqrt
import Souxmar.Am.ClosedSurface
import Souxmar.Am.Welding

/-!
# Closed surfaces slice into closed contours

The segments of a closed surface in general position are numbered without a loss, each node is on two of them, so that
the walk closes every chain. Turning a contour and starting it elsewhere keeps its sides.
-/

namespace Souxmar.Am.Slicer

open Souxmar.Lib

section

variable {K : Type*} [Field K] [LinearOrder K]

/-! ## The sides of a contour -/

def Contour.sides (c : Contour K) : List (Sym2 (Point2 K)) :=
  if c.closed then Polygon.sides c.points else List.zipWith (fun a b => s(a, b)) c.points c.points.tail

/-- The points at the ends of a segment. -/
def segmentAt (points : List (Point2 K)) (ids : ℕ × ℕ) : Sym2 (Point2 K) :=
  s(points.getD ids.1 ⟨0, 0⟩, points.getD ids.2 ⟨0, 0⟩)

omit [LinearOrder K] in
theorem segmentAt_key (points : List (Point2 K)) (seg : WeldedSeg) :
    segmentAt points seg.key = segmentAt points (seg.a, seg.b) := by
  unfold segmentAt WeldedSeg.key
  dsimp only
  rcases le_total seg.a seg.b with h | h
  · rw [min_eq_left h, max_eq_right h]
  · rw [min_eq_right h, max_eq_left h]
    exact Sym2.eq_swap

theorem chain_sides {c : Chain} (hclosed : c.closed = true) :
    (c.sides.map fun seg => s(seg.a, seg.b)) = Polygon.sides c.nodes := by
  unfold Chain.sides Chain.ring
  rw [if_pos hclosed, List.map_map, List.map_zip_eq_zipWith]
  cases c.nodes with
  | nil => rfl
  | cons v vs =>
    rw [Polygon.sides_cons]
    rfl

omit [LinearOrder K] in
theorem contourAt_sides (sqrt : K → K) (points : List (Point2 K)) {c : Chain} (hclosed : c.closed = true) :
    (contourAt sqrt points c).sides = (c.sides.map WeldedSeg.key).map (segmentAt points) := by
  have hsides : (contourAt sqrt points c).sides = Polygon.sides (c.nodes.map fun id => points.getD id ⟨0, 0⟩) :=
    if_pos hclosed
  rw [hsides, Polygon.sides_map, ← chain_sides hclosed, List.map_map, List.map_map]
  apply List.map_congr_left
  intro seg _
  exact (segmentAt_key points seg).symm

/-! ## Classification -/

omit [Field K] [LinearOrder K] in
theorem sides_turned {c c' : Contour K} (hclosed : c.closed = true) (hclosed' : c'.closed = true) {turned : List (Point2 K)}
    (hturned : turned = c.points ∨ turned = c.points.reverse) {n : ℕ} (hpoints : c'.points = turned.rotate n) :
    c'.sides.Perm c.sides := by
  unfold Contour.sides
  rw [if_pos hclosed, if_pos hclosed', hpoints, Polygon.sides_rotate]
  refine (List.rotate_perm _ n).trans ?_
  rcases hturned with rfl | rfl
  · exact List.Perm.refl _
  · exact Polygon.sides_reverse _

omit [Field K] [LinearOrder K] in
theorem set_sides {cs : List (Contour K)} {i : ℕ} {c c' : Contour K} (hget : cs[i]? = some c)
    (hsides : c'.sides.Perm c.sides) : ((cs.set i c').flatMap Contour.sides).Perm (cs.flatMap Contour.sides) := by
  obtain ⟨hi, rfl⟩ := List.getElem?_eq_some_iff.mp hget
  have hsplit : cs.flatMap Contour.sides =
      (cs.take i).flatMap Contour.sides ++ (cs[i].sides ++ (cs.drop (i + 1)).flatMap Contour.sides) := by
    rw [← List.flatMap_cons, ← List.flatMap_append, ← List.drop_eq_getElem_cons hi, List.take_append_drop]
  rw [List.set_eq_take_append_cons_drop, if_pos hi, List.flatMap_append, List.flatMap_cons, hsplit]
  exact (hsides.append_right _).append_left _

theorem classifyAt_sides {cs : List (Contour K)} (hclosed : ∀ c ∈ cs, c.closed = true) (i : ℕ) :
    ((classifyAt cs i).flatMap Contour.sides).Perm (cs.flatMap Contour.sides) ∧
      ∀ c ∈ classifyAt cs i, c.closed = true := by
  unfold classifyAt
  cases hget : cs[i]? with
  | none => exact ⟨List.Perm.refl _, hclosed⟩
  | some ci =>
    have hci := hclosed ci (List.mem_of_getElem? hget)
    dsimp only
    rw [if_neg (Bool.eq_false_iff.not.mpr (not_not.mpr hci))]
    constructor
    · apply set_sides hget
      refine sides_turned hci hci ?_ rfl
      split_ifs
      · exact Or.inr rfl
      · exact Or.inl rfl
    · intro c hc
      rcases List.mem_or_eq_of_mem_set hc with hc | rfl
      · exact hclosed c hc
      · exact hci

theorem classify_sides {cs : List (Contour K)} (hclosed : ∀ c ∈ cs, c.closed = true) :
    ((classify cs).flatMap Contour.sides).Perm (cs.flatMap Contour.sides) ∧ ∀ c ∈ classify cs, c.closed = true := by
  have hfold : ∀ indices : List ℕ, ((indices.foldl classifyAt cs).flatMap Contour.sides).Perm (cs.flatMap Contour.sides) ∧
      ∀ c ∈ indices.foldl classifyAt cs, c.closed = true := by
    intro indices
    induction indices using List.reverseRecOn with
    | nil => exact ⟨List.Perm.refl _, hclosed⟩
    | append_singleton indices i ih =>
      obtain ⟨hperm, hall⟩ := ih
      rw [List.foldl_append, List.foldl_cons, List.foldl_nil]
      obtain ⟨hperm', hall'⟩ := classifyAt_sides hall i
      exact ⟨hperm'.trans hperm, hall'⟩
  obtain ⟨hperm, hall⟩ := hfold (List.range cs.length)
  have hsort := List.perm_insertionSort (fun a b : Contour K => contourLess b a = false)
    ((List.range cs.length).foldl classifyAt cs)
  exact ⟨(hsort.flatMap_right _).trans hperm, fun c hc => hall c (hsort.mem_iff.mp hc)⟩

/-! ## Degrees -/

omit [Field K] in
theorem oddNodes_numbered {raw : List (Point2 K × Point2 K)} {points : List (Point2 K)} (hnodup : points.Nodup)
    (hpoints : ∀ p, p ∈ points ↔ p ∈ Intern.ends raw)
    (htwice : ∀ p ∈ Intern.ends raw, (raw.countP fun r => decide (p = r.1 ∨ p = r.2)) = 2) :
    oddNodes (raw.map (numbered points)) = ∅ := by
  apply Finset.eq_empty_of_forall_notMem
  intro node hnode
  unfold oddNodes at hnode
  rw [Trail.mem_oddNodes, degree_range, List.countP_map] at hnode
  by_cases hlt : node < points.length
  · -- the node is the number of a point, and its degree is two
    have hpoint : ∀ p ∈ points, node = points.idxOf p ↔ points[node] = p := fun p hp => Intern.eq_idxOf_iff hnodup hlt hp
    have hcount : raw.countP ((fun seg : WeldedSeg => decide (node = seg.a ∨ node = seg.b)) ∘ numbered points) =
        raw.countP fun r => decide (points[node] = r.1 ∨ points[node] = r.2) := by
      apply List.countP_congr
      intro r hr
      have h₁ := hpoint r.1 ((hpoints _).mpr (Intern.mem_ends.mpr ⟨r, hr, Or.inl rfl⟩))
      have h₂ := hpoint r.2 ((hpoints _).mpr (Intern.mem_ends.mpr ⟨r, hr, Or.inr rfl⟩))
      rw [Function.comp_apply, decide_eq_true_iff, decide_eq_true_iff]
      exact or_congr h₁ h₂
    rw [hcount, htwice _ ((hpoints _).mp (List.getElem_mem hlt))] at hnode
    exact absurd hnode (by decide)
  · -- no segment is there
    have hcount : raw.countP ((fun seg : WeldedSeg => decide (node = seg.a ∨ node = seg.b)) ∘ numbered points) = 0 := by
      apply List.countP_eq_zero.mpr
      intro r hr
      have h₁ := List.idxOf_lt_length_of_mem ((hpoints r.1).mpr (Intern.mem_ends.mpr ⟨r, hr, Or.inl rfl⟩))
      have h₂ := List.idxOf_lt_length_of_mem ((hpoints r.2).mpr (Intern.mem_ends.mpr ⟨r, hr, Or.inr rfl⟩))
      rw [Function.comp_apply, decide_eq_true_iff]
      unfold numbered
      dsimp only
      omega
    rw [hcount] at hnode
    exact absurd hnode (by decide)

/-! ## The layer -/

theorem traceAll_numbered (sqrt : K → K) {raw : List (Point2 K × Point2 K)} {points : List (Point2 K)}
    (hdistinct : points.Nodup) (hpoints : ∀ p, p ∈ points ↔ p ∈ Intern.ends raw)
    (htwice : ∀ p ∈ Intern.ends raw, (raw.countP fun r => decide (p = r.1 ∨ p = r.2)) = 2)
    (hwelded : Welded (raw.map (numbered points))) (hsmall : raw.length < 2 ^ 32) :
    ∃ chains, traceAll (raw.map (numbered points)) = some chains ∧ (∀ c ∈ chains, c.degenerate = false) ∧
      openChains chains = 0 ∧ (∀ c ∈ chains.map (contourAt sqrt points), c.closed = true) ∧
      ((chains.map (contourAt sqrt points)).flatMap Contour.sides).Perm (raw.map fun r => s(r.1, r.2)) := by
  have hlength : (raw.map (numbered points)).length < 2 ^ 32 := by
    rw [List.length_map]
    exact hsmall
  obtain ⟨chains, hrun, hperm, hkept, -, hodd⟩ := traceAll_spec hwelded hlength
  rw [oddNodes_numbered hdistinct hpoints htwice, Finset.card_empty] at hodd
  have hopen : openChains chains = 0 := by omega
  have hclosed : ∀ c ∈ chains, c.closed = true := by
    intro c hc
    have hc' := List.countP_eq_zero.mp hopen c hc
    rwa [Bool.not_eq_true', Bool.not_eq_false] at hc'
  refine ⟨chains, hrun, hkept, hopen, ?_, ?_⟩
  · intro c hc
    obtain ⟨chain, hchain, rfl⟩ := List.mem_map.mp hc
    exact hclosed chain hchain
  · have hsides : (chains.map (contourAt sqrt points)).flatMap Contour.sides =
        ((chains.flatMap Chain.sides).map WeldedSeg.key).map (segmentAt points) := by
      rw [List.flatMap_map, List.map_flatMap, List.map_flatMap]
      exact List.flatMap_congr fun c hc => contourAt_sides sqrt points (hclosed c hc)
    have hends : ((raw.map (numbered points)).map WeldedSeg.key).map (segmentAt points) = raw.map fun r => s(r.1, r.2) := by
      rw [List.map_map, List.map_map]
      apply List.map_congr_left
      intro r hr
      have h₁ := (hpoints r.1).mpr (Intern.mem_ends.mpr ⟨r, hr, Or.inl rfl⟩)
      have h₂ := (hpoints r.2).mpr (Intern.mem_ends.mpr ⟨r, hr, Or.inr rfl⟩)
      rw [Function.comp_apply, Function.comp_apply, segmentAt_key]
      unfold segmentAt numbered
      rw [Intern.getD_idxOf h₁, Intern.getD_idxOf h₂]
    rw [hsides, ← hends]
    exact hperm.map _

variable [FloorRing K] [IsStrictOrderedRing K]

theorem chainLayer_closed (sqrt : K → K) {raw : List (Point2 K × Point2 K)} {tol : K}
    (hspread : Spread tol (Intern.ends raw)) (hloop : ∀ r ∈ raw, r.1 ≠ r.2)
    (hnodup : (raw.map fun r => s(r.1, r.2)).Nodup)
    (htwice : ∀ p ∈ Intern.ends raw, (raw.countP fun r => decide (p = r.1 ∨ p = r.2)) = 2) (hsmall : raw.length < 2 ^ 32)
    {ls : LayerSlice K} (hls : ls.contours = []) :
    ∃ out, chainLayer sqrt raw tol ls = some out ∧ out.openContours = ls.openContours ∧
      (∀ c ∈ out.contours, c.closed = true) ∧
      (out.contours.flatMap Contour.sides).Perm (raw.map fun r => s(r.1, r.2)) := by
  have hnumerable : Numerable (Intern.ends raw) := by
    intro l hl hsub
    have hle := Intern.length_le_of_twice hloop htwice hl hsub
    unfold kNoNode
    omega
  have hwelds := weldAll_numbered hspread hnumerable hloop hnodup ls
  have hwelded := weldAll_welded raw tol ls
  unfold chainLayer
  dsimp only
  rw [hwelds.ls, hwelds.segs]
  rw [hwelds.segs] at hwelded
  obtain ⟨chains, hrun, hkept, hopen, hclosed, hperm⟩ :=
    traceAll_numbered sqrt hwelds.sound.nodup hwelds.points htwice hwelded hsmall
  by_cases hnone : raw = []
  · rw [hnone, List.map_nil, if_pos rfl]
    refine ⟨ls, rfl, rfl, fun c hc => ?_, ?_⟩
    · rw [hls] at hc
      cases hc
    · rw [hls, List.map_nil]
      exact List.Perm.refl _
  · obtain ⟨hsides, hall⟩ := classify_sides hclosed
    rw [if_neg fun h => hnone (List.map_eq_nil_iff.mp h), hrun, Option.map_some, foldl_addChain sqrt _ hkept ls, hls,
      hopen]
    exact ⟨_, rfl, rfl, hall, hsides.trans hperm⟩

theorem countP_mem_eq_one {α β : Type*} [DecidableEq β] {f : α → List β} {b : β} {l : List α}
    (h : (l.flatMap f).count b = 1) : (l.countP fun a => decide (b ∈ f a)) = 1 := by
  induction l with
  | nil => exact absurd h Nat.zero_ne_one
  | cons a l ih =>
    rw [List.flatMap_cons, List.count_append] at h
    rw [List.countP_cons]
    by_cases ha : b ∈ f a
    · have hpos : 0 < (f a).count b := List.count_pos_iff.mpr ha
      have hrest : b ∉ l.flatMap f := List.count_eq_zero.mp (by omega)
      have hnone : (l.countP fun a => decide (b ∈ f a)) = 0 := by
        apply List.countP_eq_zero.mpr
        intro a' ha' hmem
        exact hrest (List.mem_flatMap.mpr ⟨a', ha', of_decide_eq_true hmem⟩)
      rw [hnone, if_pos (decide_eq_true ha)]
    · rw [List.count_eq_zero.mpr ha, Nat.zero_add] at h
      rw [ih h, if_neg fun hmem => ha (of_decide_eq_true hmem)]

/-! ## The plane -/

section

variable {sqrt : K → K} (hroot : IsRoot sqrt) {tol : Tolerances K} (heps : 0 ≤ tol.planeEps) (hweld : 0 ≤ tol.weldTol)
  {h : K} {ts : List (Triangle K)} (hposition : GeneralPosition sqrt tol h ts)

include heps hposition

omit [FloorRing K] in
theorem crossing_of_end {p : Point2 K} (hp : p ∈ Intern.ends (layerSegments h ts)) :
    ∃ t ∈ ts, ∃ e ∈ crossedEdges h t, p = crossing h e := by
  obtain ⟨r, hr, hend⟩ := Intern.mem_ends.mp hp
  obtain ⟨t, ht, hsegment⟩ := List.mem_filterMap.mp hr
  obtain ⟨e, e', hcut, rfl⟩ := cut_of_segmentOf heps hposition ht hsegment
  obtain ⟨he, he'⟩ := hcut.mem_crossedEdges
  rcases hend with rfl | rfl
  · exact ⟨t, ht, e, he, rfl⟩
  · exact ⟨t, ht, e', he', rfl⟩

include hroot hweld

omit [FloorRing K] in
theorem layerSegments_spread : Spread tol.weldTol (Intern.ends (layerSegments h ts)) := by
  intro p hp q hq hne
  obtain ⟨t, ht, e, he, rfl⟩ := crossing_of_end heps hposition hp
  obtain ⟨t', ht', e', he', rfl⟩ := crossing_of_end heps hposition hq
  refine lt_squares hroot hweld (hposition.apart t ht e he t' ht' e' he' fun hside => hne ?_)
  exact (crossing_of_side hside (mem_crossedEdges.mp he).2).symm

end

/-- A closed surface slices into closed contours, one segment for each crossed triangle. -/
theorem closed_surface_closed_contours {sqrt : K → K} (hroot : IsRoot sqrt) {ts : List (Triangle K)}
    (hdistinct : ∀ t ∈ ts, t.vertices.Nodup) (hsurface : ClosedSurface ts) {tol : Tolerances K}
    (heps : 0 ≤ tol.planeEps) (hweld : 0 ≤ tol.weldTol) {h : K} (hposition : GeneralPosition sqrt tol h ts)
    (hsmall : (ts.countP fun t => t.Crossed h) < 2 ^ 32) :
    ∃ layer, slicePlane sqrt tol h ts = some layer ∧ layer.openContours = 0 ∧
      (∀ c ∈ layer.contours, c.closed = true) ∧
      ∀ t ∈ ts, t.Crossed h → ∃ a b,
        (∀ ls, intersectTriangle sqrt t h tol.planeEps tol.weldTol ls = (ls, some (a, b))) ∧
        (layer.contours.countP fun c => decide (s(a, b) ∈ c.sides)) = 1 := by
  have hcontributes : ∀ t ∈ ts, ∀ ls, intersectTriangle sqrt t h tol.planeEps tol.weldTol ls = (ls, segmentOf h t) :=
    fun t ht ls => intersect_segmentOf hdistinct heps hposition ht ls
  have hspread := layerSegments_spread hroot heps hweld hposition
  have hloop : ∀ r ∈ layerSegments h ts, r.1 ≠ r.2 := fun r hr =>
    segment_ne hroot hweld hposition heps hdistinct hr
  have hnodup := segments_nodup hroot hweld hposition heps hdistinct hsurface
  have htwice : ∀ p ∈ Intern.ends (layerSegments h ts),
      ((layerSegments h ts).countP fun r => decide (p = r.1 ∨ p = r.2)) = 2 := by
    intro p hp
    obtain ⟨t, ht, e, he, rfl⟩ := crossing_of_end heps hposition hp
    exact countP_end hroot hweld hposition heps hsurface ht he
  rw [← length_layerSegments heps hposition] at hsmall
  obtain ⟨layer, hrun, hopen, hclosed, hsides⟩ :=
    chainLayer_closed sqrt hspread hloop hnodup htwice hsmall (rfl : ({ h := h } : LayerSlice K).contours = [])
  refine ⟨layer, ?_, hopen, hclosed, fun t ht hcrossed => ?_⟩
  · unfold slicePlane
    rw [intersectAll_eq hcontributes]
    exact hrun
  · obtain ⟨e, e', hcut⟩ := cut_of_crossed (height_ne (hposition.far t ht) heps) hcrossed
    have hsegment := hcut.segmentOf
    refine ⟨crossing h e, crossing h e', fun ls => ?_, countP_mem_eq_one ?_⟩
    · rw [hcontributes t ht, hsegment]
    · rw [hsides.count_eq]
      apply List.count_eq_one_of_mem hnodup
      exact List.mem_map.mpr ⟨_, List.mem_filterMap.mpr ⟨t, ht, hsegment⟩, rfl⟩

end

/-! ## Tetrahedra -/

section

/-- The faces of a tetrahedron. -/
def tetrahedron {K : Type*} (a b c d : Vertex K) : List (Triangle K) := [⟨a, b, c⟩, ⟨a, c, d⟩, ⟨a, d, b⟩, ⟨b, d, c⟩]

theorem tetrahedron_closed {K : Type*} [LinearOrder K] {a b c d : Vertex K} (hab : a ≠ b) (hac : a ≠ c) (had : a ≠ d)
    (hbc : b ≠ c) (hbd : b ≠ d) (hcd : c ≠ d) : ClosedSurface (tetrahedron a b c d) := by
  constructor
  · intro t ht s hs
    simp only [tetrahedron, List.mem_cons, List.not_mem_nil, or_false] at ht
    -- each side of each face
    rcases ht with rfl | rfl | rfl | rfl <;>
      simp only [Triangle.sides, Triangle.edges, side, List.map_cons, List.map_nil, List.mem_cons, List.not_mem_nil,
        or_false] at hs <;>
      rcases hs with rfl | rfl | rfl <;>
      simp [tetrahedron, Triangle.sides, Triangle.edges, side, hab, hac, had, hbc, hbd, hcd, hab.symm, hac.symm,
        had.symm, hbc.symm, hbd.symm, hcd.symm]
  · have hne : ∀ {l l' : List (Vertex K)} (v : Vertex K), v ∈ l → v ∉ l' → ¬l.Perm l' := fun v hv hv' hperm =>
      hv' (hperm.mem_iff.mp hv)
    unfold tetrahedron
    simp only [List.pairwise_cons, List.forall_mem_cons, List.not_mem_nil, IsEmpty.forall_iff, implies_true, and_true,
      List.Pairwise.nil]
    refine ⟨⟨hne b ?_ ?_, hne c ?_ ?_, hne a ?_ ?_⟩, ⟨hne c ?_ ?_, hne a ?_ ?_⟩, hne a ?_ ?_⟩ <;>
      simp [Triangle.vertices, hab, hac, had, hbc, hbd, hcd, hab.symm, hac.symm, hbc.symm]

/-- A tetrahedron with one vertex over the plane. -/
def spike (K : Type*) [Field K] : List (Triangle K) := tetrahedron ⟨0, 0, 1⟩ ⟨0, 0, -1⟩ ⟨1, 0, -1⟩ ⟨0, 1, -1⟩

theorem isRoot_sqrt : IsRoot Real.sqrt := fun x hx => ⟨Real.sqrt_nonneg x, Real.mul_self_sqrt hx⟩

theorem spike_closed : ClosedSurface (spike ℝ) := by
  apply tetrahedron_closed <;> simp
  norm_num

theorem spike_distinct : ∀ t ∈ spike ℝ, t.vertices.Nodup := by
  simp [spike, tetrahedron, Triangle.vertices]
  norm_num

theorem spike_crossing {t : Triangle ℝ} (ht : t ∈ spike ℝ) {e : Vertex ℝ × Vertex ℝ} (he : e ∈ crossedEdges 0 t) :
    ∃ v : Vertex ℝ, (v = ⟨0, 0, -1⟩ ∨ v = ⟨1, 0, -1⟩ ∨ v = ⟨0, 1, -1⟩) ∧ side e = s(⟨0, 0, 1⟩, v) ∧
      crossing 0 e = ⟨v.u / 2, v.v / 2⟩ := by
  obtain ⟨hedge, hcross⟩ := mem_crossedEdges.mp he
  simp only [spike, tetrahedron, List.mem_cons, List.not_mem_nil, or_false] at ht
  rcases ht with rfl | rfl | rfl | rfl <;>
    simp only [Triangle.edges, List.mem_cons, List.not_mem_nil, or_false] at hedge <;>
    rcases hedge with rfl | rfl | rfl <;>
    norm_num [Crosses] at hcross <;>
    simp [side, crossing, edgePoint] <;>
    norm_num

theorem spike_position : GeneralPosition Real.sqrt ⟨0, 0⟩ 0 (spike ℝ) := by
  constructor
  · simp [spike, tetrahedron, Triangle.vertices]
  · intro t ht e he t' ht' e' he' hne
    obtain ⟨v, hv, hside, hpoint⟩ := spike_crossing ht he
    obtain ⟨v', hv', hside', hpoint'⟩ := spike_crossing ht' he'
    have hdiffer : v ≠ v' := by
      rintro rfl
      exact hne (hside.trans hside'.symm)
    rw [hpoint, hpoint']
    unfold distance
    rw [Real.sqrt_pos]
    rcases hv with rfl | rfl | rfl <;> rcases hv' with rfl | rfl | rfl <;> first | exact absurd rfl hdiffer | norm_num

theorem closed_surface_closed_contours_spike :
    ∃ layer, slicePlane Real.sqrt ⟨0, 0⟩ 0 (spike ℝ) = some layer ∧ layer.openContours = 0 ∧
      ∀ t ∈ spike ℝ, t.Crossed 0 → ∃ a b, (layer.contours.countP fun c => decide (s(a, b) ∈ c.sides)) = 1 := by
  have hsmall : ((spike ℝ).countP fun t => t.Crossed 0) < 2 ^ 32 := List.countP_le_length.trans_lt (by decide)
  obtain ⟨layer, hrun, hopen, -, hsegments⟩ :=
    closed_surface_closed_contours isRoot_sqrt spike_distinct spike_closed le_rfl le_rfl spike_position hsmall
  refine ⟨layer, hrun, hopen, fun t ht hcrossed => ?_⟩
  obtain ⟨a, b, -, hcount⟩ := hsegments t ht hcrossed
  exact ⟨a, b, hcount⟩

/-- A tetrahedron with one face replaced by triangles that repeat a vertex. -/
def sliver {K : Type*} (a b c d : Vertex K) : List (Triangle K) :=
  [⟨a, c, d⟩, ⟨a, d, b⟩, ⟨b, d, c⟩, ⟨a, a, b⟩, ⟨b, b, c⟩, ⟨c, c, a⟩, ⟨a, a, a⟩, ⟨b, b, b⟩, ⟨c, c, c⟩]

/-- A contour stays open when triangles repeat a vertex, when the tolerance of the plane is negative and when the
welding tolerance is. The distances that come up are squares of rationals. -/
theorem contour_stays_open :
    (ClosedSurface (sliver (⟨0, 0, 1⟩ : Vertex ℚ) ⟨0, 0, -1⟩ ⟨6, 0, -1⟩ ⟨0, 8, -1⟩) ∧
      GeneralPosition Rat.sqrt ⟨0, 0⟩ 0 (sliver (⟨0, 0, 1⟩ : Vertex ℚ) ⟨0, 0, -1⟩ ⟨6, 0, -1⟩ ⟨0, 8, -1⟩) ∧
      (slicePlane Rat.sqrt ⟨0, 0⟩ 0 (sliver (⟨0, 0, 1⟩ : Vertex ℚ) ⟨0, 0, -1⟩ ⟨6, 0, -1⟩ ⟨0, 8, -1⟩)).map
        LayerSlice.openContours = some 1) ∧
    (ClosedSurface (tetrahedron (⟨0, 0, 0⟩ : Vertex ℚ) ⟨1, 0, 0⟩ ⟨0, 1, 1⟩ ⟨1, 1, 1⟩) ∧
      GeneralPosition Rat.sqrt ⟨-1, 0⟩ 0 (tetrahedron (⟨0, 0, 0⟩ : Vertex ℚ) ⟨1, 0, 0⟩ ⟨0, 1, 1⟩ ⟨1, 1, 1⟩) ∧
      (slicePlane Rat.sqrt ⟨-1, 0⟩ 0 (tetrahedron (⟨0, 0, 0⟩ : Vertex ℚ) ⟨1, 0, 0⟩ ⟨0, 1, 1⟩ ⟨1, 1, 1⟩)).map
        LayerSlice.openContours = some 1) ∧
    (ClosedSurface (tetrahedron (⟨0, 0, 1⟩ : Vertex ℚ) ⟨0, 0, -1⟩ ⟨0, 0, -3⟩ ⟨0, 2, -1⟩) ∧
      GeneralPosition Rat.sqrt ⟨0, -1⟩ 0 (tetrahedron (⟨0, 0, 1⟩ : Vertex ℚ) ⟨0, 0, -1⟩ ⟨0, 0, -3⟩ ⟨0, 2, -1⟩) ∧
      (slicePlane Rat.sqrt ⟨0, -1⟩ 0 (tetrahedron (⟨0, 0, 1⟩ : Vertex ℚ) ⟨0, 0, -1⟩ ⟨0, 0, -3⟩ ⟨0, 2, -1⟩)).map
        LayerSlice.openContours = some 1) := by
  refine ⟨⟨⟨?_, ?_⟩, ⟨?_, ?_⟩, ?_⟩, ⟨⟨?_, ?_⟩, ⟨?_, ?_⟩, ?_⟩, ⟨⟨?_, ?_⟩, ⟨?_, ?_⟩, ?_⟩⟩ <;> decide +kernel

end

end Souxmar.Am.Slicer
