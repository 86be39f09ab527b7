import Mathlib.Tactic.FieldSimp
import Mathlib.Tactic.Ring
import Souxmar.Am.Sweep
import Souxmar.Lib.Polygon

/-!
# A plane between the vertices

When no vertex lies within the tolerance of the plane, a triangle with vertices on both sides has two crossed edges, and
its segment joins their crossing points. An edge has the same crossing point from both of its triangles.
-/

namespace Souxmar.Am.Slicer

section

variable {K : Type*} [Field K] [LinearOrder K]

/-! ## Edges -/

/-- The ends of the edge are on the two sides of the plane. -/
def Crosses (h : K) (e : Vertex K × Vertex K) : Prop := (h < e.1.h ∧ e.2.h < h) ∨ (e.1.h < h ∧ h < e.2.h)

instance (h : K) (e : Vertex K × Vertex K) : Decidable (Crosses h e) := inferInstanceAs (Decidable (_ ∨ _))

/-- The point of the edge in the plane. -/
def crossing (h : K) (e : Vertex K × Vertex K) : Point2 K := edgePoint (fun p => p.h - h) e

/-- The undirected edge. -/
def side (e : Vertex K × Vertex K) : Sym2 (Vertex K) := s(e.1, e.2)

def Triangle.sides (t : Triangle K) : List (Sym2 (Vertex K)) := t.edges.map side

/-- The plane crosses the triangle. -/
def Triangle.Crossed (h : K) (t : Triangle K) : Prop := ∃ e ∈ t.edges, Crosses h e

instance (h : K) (t : Triangle K) : Decidable (t.Crossed h) := inferInstanceAs (Decidable (∃ e ∈ t.edges, Crosses h e))

def crossedEdges (h : K) (t : Triangle K) : List (Vertex K × Vertex K) := t.edges.filter fun e => Crosses h e

omit [Field K] in
theorem mem_crossedEdges {h : K} {t : Triangle K} {e : Vertex K × Vertex K} :
    e ∈ crossedEdges h t ↔ e ∈ t.edges ∧ Crosses h e := by
  unfold crossedEdges
  rw [List.mem_filter, decide_eq_true_iff]

omit [Field K] [LinearOrder K] in
theorem edge_eq_or_swap {e e' : Vertex K × Vertex K} (h : side e = side e') : e' = e ∨ e' = e.swap := by
  rcases Sym2.eq_iff.mp h with ⟨h₁, h₂⟩ | ⟨h₁, h₂⟩
  · exact Or.inl (Prod.ext h₁.symm h₂.symm)
  · exact Or.inr (Prod.ext h₂.symm h₁.symm)

omit [Field K] in
theorem crosses_swap {h : K} {e : Vertex K × Vertex K} : Crosses h e.swap ↔ Crosses h e := by
  unfold Crosses
  rw [Prod.fst_swap, Prod.snd_swap, and_comm, or_comm, and_comm]

omit [Field K] in
theorem crosses_of_side {h : K} {e e' : Vertex K × Vertex K} (hside : side e = side e') (he : Crosses h e) :
    Crosses h e' := by
  rcases edge_eq_or_swap hside with rfl | rfl
  · exact he
  · exact crosses_swap.mpr he

omit [Field K] in
theorem crosses_ne {h : K} {e : Vertex K × Vertex K} (he : Crosses h e) : e.1.h ≠ e.2.h := by
  rcases he with ⟨hup, hdown⟩ | ⟨hdown, hup⟩
  · exact (hdown.trans hup).ne'
  · exact (hdown.trans hup).ne

theorem crossing_swap {h : K} {e : Vertex K × Vertex K} (he : Crosses h e) : crossing h e.swap = crossing h e := by
  have hne : e.1.h - h - (e.2.h - h) ≠ 0 := by
    rw [sub_sub_sub_cancel_right]
    exact sub_ne_zero.mpr (crosses_ne he)
  have hne' : e.2.h - h - (e.1.h - h) ≠ 0 := by
    rw [sub_sub_sub_cancel_right]
    exact sub_ne_zero.mpr (crosses_ne he).symm
  have hcoordinate : ∀ x y : K, y + (e.2.h - h) / (e.2.h - h - (e.1.h - h)) * (x - y) =
      x + (e.1.h - h) / (e.1.h - h - (e.2.h - h)) * (y - x) := by
    intro x y
    field_simp
    ring
  unfold crossing edgePoint
  dsimp only [Prod.fst_swap, Prod.snd_swap]
  rw [hcoordinate, hcoordinate]

theorem crossing_of_side {h : K} {e e' : Vertex K × Vertex K} (hside : side e = side e') (he : Crosses h e) :
    crossing h e' = crossing h e := by
  rcases edge_eq_or_swap hside with rfl | rfl
  · rfl
  · exact crossing_swap he

/-! ## The two crossed edges -/

omit [Field K] [LinearOrder K] in
theorem edges_between (up : Vertex K → Bool) (t : Triangle K) :
    t.edges.filter (fun e => up e.1 != up e.2) = [] ∨
      ∃ p q r e e', t.vertices.Perm [p, q, r] ∧ t.edges.filter (fun e => up e.1 != up e.2) = [e, e'] ∧
        side e = s(p, q) ∧ side e' = s(p, r) := by
  have hparity : (up t.p2 != up t.p0) = ((up t.p0 != up t.p1) != (up t.p1 != up t.p2)) := by
    cases up t.p0 <;> cases up t.p1 <;> cases up t.p2 <;> rfl
  have hfilter : t.edges.filter (fun e => up e.1 != up e.2) =
      (if (up t.p0 != up t.p1) = true then [(t.p0, t.p1)] else []) ++
        ((if (up t.p1 != up t.p2) = true then [(t.p1, t.p2)] else []) ++
          if (up t.p2 != up t.p0) = true then [(t.p2, t.p0)] else []) := by
    unfold Triangle.edges
    rw [List.filter_cons, List.filter_cons, List.filter_cons, List.filter_nil]
    split_ifs <;> rfl
  rw [hfilter, hparity]
  unfold Triangle.vertices
  cases up t.p0 != up t.p1 with
  | false =>
    cases up t.p1 != up t.p2 with
    | false => exact Or.inl rfl
    | true =>
      exact Or.inr ⟨t.p2, t.p1, t.p0, (t.p1, t.p2), (t.p2, t.p0), (List.reverse_perm _).symm, rfl, Sym2.eq_swap, rfl⟩
  | true =>
    cases up t.p1 != up t.p2 with
    | false =>
      exact Or.inr ⟨t.p0, t.p1, t.p2, (t.p0, t.p1), (t.p2, t.p0), List.Perm.refl _, rfl, rfl, Sym2.eq_swap⟩
    | true =>
      exact Or.inr ⟨t.p1, t.p0, t.p2, (t.p0, t.p1), (t.p1, t.p2), List.Perm.swap _ _ _, rfl, Sym2.eq_swap, rfl⟩

/-- A triangle with two crossed edges that meet in a vertex. -/
structure Cut (h : K) (t : Triangle K) (e e' : Vertex K × Vertex K) : Prop where
  crossed : crossedEdges h t = [e, e']
  meets : ∃ p q r, t.vertices.Perm [p, q, r] ∧ side e = s(p, q) ∧ side e' = s(p, r)

omit [Field K] in
theorem cut_of_crossed {h : K} {t : Triangle K} (hoff : ∀ p ∈ t.vertices, p.h ≠ h) (ht : t.Crossed h) :
    ∃ e e', Cut h t e e' := by
  have hends := edges_ends t
  have hcrossed : crossedEdges h t = t.edges.filter fun e => decide (h < e.1.h) != decide (h < e.2.h) := by
    apply List.filter_congr
    intro e he
    have hbelow : ∀ p ∈ t.vertices, p.h < h ↔ ¬h < p.h := fun p hp =>
      ⟨fun hlt => hlt.not_gt, fun hge => (not_lt.mp hge).lt_of_ne (hoff p hp)⟩
    unfold Crosses
    simp only [hbelow _ (hends e he).1, hbelow _ (hends e he).2, Bool.decide_or, Bool.decide_and, decide_not]
    cases decide (h < e.1.h) <;> cases decide (h < e.2.h) <;> rfl
  rcases edges_between (fun p => decide (h < p.h)) t with hnone | ⟨p, q, r, e, e', hperm, hfilter, he, he'⟩
  · obtain ⟨e, he, hcross⟩ := ht
    have hmem : e ∈ crossedEdges h t := mem_crossedEdges.mpr ⟨he, hcross⟩
    rw [hcrossed, hnone] at hmem
    cases hmem
  · exact ⟨e, e', hcrossed.trans hfilter, p, q, r, hperm, he, he'⟩

/-! ## The segment -/

/-- The segment of a triangle with two crossed edges. -/
def segmentOf (h : K) (t : Triangle K) : Option (Point2 K × Point2 K) :=
  match crossedEdges h t with
  | [e, e'] => some (crossing h e, crossing h e')
  | _ => none

theorem Cut.segmentOf {h : K} {t : Triangle K} {e e' : Vertex K × Vertex K} (hcut : Cut h t e e') :
    segmentOf h t = some (crossing h e, crossing h e') := by
  unfold Slicer.segmentOf
  rw [hcut.crossed]

omit [Field K] in
theorem crossedEdges_eq_nil {h : K} {t : Triangle K} (ht : ¬t.Crossed h) : crossedEdges h t = [] := by
  apply List.eq_nil_iff_forall_not_mem.mpr
  intro e he
  exact ht ⟨e, mem_crossedEdges.mp he⟩

theorem segmentOf_uncrossed {h : K} {t : Triangle K} (ht : ¬t.Crossed h) : segmentOf h t = none := by
  unfold segmentOf
  rw [crossedEdges_eq_nil ht]

/-- A square root. -/
def IsRoot (sqrt : K → K) : Prop := ∀ x, 0 ≤ x → 0 ≤ sqrt x ∧ sqrt x * sqrt x = x

/-- No vertex lies within the tolerance of the plane, and crossing points of distinct edges are not welded. -/
structure GeneralPosition (sqrt : K → K) (tol : Tolerances K) (h : K) (ts : List (Triangle K)) : Prop where
  far : ∀ t ∈ ts, ∀ p ∈ t.vertices, tol.planeEps < |p.h - h|
  apart : ∀ t ∈ ts, ∀ e ∈ crossedEdges h t, ∀ t' ∈ ts, ∀ e' ∈ crossedEdges h t', side e ≠ side e' →
    tol.weldTol < distance sqrt (crossing h e) (crossing h e')

/-! ## One triangle -/

section

variable {h eps : K} {t : Triangle K} (hfar : ∀ p ∈ t.vertices, eps < |p.h - h|)

include hfar

theorem snapped_of_far {p : Vertex K} (hp : p ∈ t.vertices) : snapped h eps p = p.h - h := if_neg (hfar p hp).not_ge

variable [IsStrictOrderedRing K]

theorem edgePoints_of_far : edgePoints (snapped h eps) t = (crossedEdges h t).map (crossing h) := by
  have hpoint : ∀ e ∈ t.edges, (if (snapped h eps e.1 > 0 ∧ snapped h eps e.2 < 0) ∨
      (snapped h eps e.1 < 0 ∧ snapped h eps e.2 > 0) then some (edgePoint (snapped h eps) e) else none) =
      if Crosses h e then some (crossing h e) else none := by
    intro e he
    obtain ⟨h₁, h₂⟩ := edges_ends t e he
    unfold edgePoint
    rw [snapped_of_far hfar h₁, snapped_of_far hfar h₂]
    exact if_congr (or_congr (and_congr sub_pos sub_neg) (and_congr sub_neg sub_pos)) rfl rfl
  unfold edgePoints crossedEdges
  rw [List.filterMap_congr hpoint, ← List.filterMap_eq_map, List.filterMap_filter]
  apply List.filterMap_congr
  intro e _
  by_cases he : Crosses h e
  · rw [if_pos he, if_pos (decide_eq_true he)]
    rfl
  · rw [if_neg he, if_neg fun hd => he (of_decide_eq_true hd)]

theorem height_ne (heps : 0 ≤ eps) : ∀ p ∈ t.vertices, p.h ≠ h := by
  intro p hp heq
  have hlt := hfar p hp
  rw [heq, sub_self, abs_zero] at hlt
  exact hlt.not_ge heps

theorem points_of_far (heps : 0 ≤ eps) :
    (¬∀ p ∈ t.vertices, snapped h eps p = 0) ∧
      vertexPoints (snapped h eps) t ++ edgePoints (snapped h eps) t = (crossedEdges h t).map (crossing h) := by
  have hne : ∀ p ∈ t.vertices, snapped h eps p ≠ 0 := by
    intro p hp
    rw [snapped_of_far hfar hp]
    exact sub_ne_zero.mpr (height_ne hfar heps p hp)
  have hvertices : vertexPoints (snapped h eps) t = [] := by
    apply List.filterMap_eq_nil_iff.mpr
    intro p hp
    rw [if_neg (hne p hp)]
  have hmem : t.p0 ∈ t.vertices := List.mem_cons_self ..
  rw [hvertices, edgePoints_of_far hfar, List.nil_append]
  exact ⟨fun hall => hne _ hmem (hall _ hmem), rfl⟩

theorem intersect_cut {sqrt : K → K} {weldTol : K} (heps : 0 ≤ eps) {e e' : Vertex K × Vertex K} (hcut : Cut h t e e')
    (hapart : weldTol < distance sqrt (crossing h e) (crossing h e')) (ls : LayerSlice K) :
    intersectTriangle sqrt t h eps weldTol ls = (ls, some (crossing h e, crossing h e')) := by
  have hpoints : ((crossedEdges h t).map (crossing h)).foldl (pushPoint sqrt weldTol) [] =
      [crossing h e, crossing h e'] := by
    have hnew : ¬([crossing h e].any fun q => decide (distance sqrt q (crossing h e') ≤ weldTol)) = true := by
      rw [List.any_cons, List.any_nil, Bool.or_false, decide_eq_true_iff]
      exact hapart.not_ge
    have hpush : pushPoint sqrt weldTol [crossing h e] (crossing h e') = [crossing h e, crossing h e'] := if_neg hnew
    rw [hcut.crossed]
    exact hpush
  obtain ⟨hflat, hall⟩ := points_of_far hfar heps
  unfold intersectTriangle
  dsimp only
  rw [if_neg hflat, hall, hpoints]

theorem intersect_uncrossed {sqrt : K → K} {weldTol : K} (heps : 0 ≤ eps) (ht : ¬t.Crossed h) (ls : LayerSlice K) :
    intersectTriangle sqrt t h eps weldTol ls = (ls, none) := by
  obtain ⟨hflat, hall⟩ := points_of_far hfar heps
  unfold intersectTriangle
  dsimp only
  rw [if_neg hflat, hall, crossedEdges_eq_nil ht]
  rfl

end

section

variable {h : K} {t : Triangle K} {e e' : Vertex K × Vertex K}

omit [Field K] in
theorem Cut.mem_crossedEdges (hcut : Cut h t e e') : e ∈ crossedEdges h t ∧ e' ∈ crossedEdges h t := by
  rw [hcut.crossed]
  exact ⟨List.mem_cons_self .., List.mem_cons_of_mem _ (List.mem_cons_self ..)⟩

omit [Field K] in
theorem Cut.side_ne (hcut : Cut h t e e') (hdistinct : t.vertices.Nodup) : side e ≠ side e' := by
  obtain ⟨p, q, r, hperm, he, he'⟩ := hcut.meets
  have hqr : q ≠ r := by
    have hnodup := List.nodup_cons.mp (List.nodup_cons.mp (hperm.nodup_iff.mp hdistinct)).2
    rintro rfl
    exact hnodup.1 (List.mem_singleton_self q)
  rw [he, he']
  exact fun heq => hqr (Sym2.congr_right.mp heq)

omit [Field K] in
theorem Cut.mem_vertices (hcut : Cut h t e e') (v : Vertex K) : v ∈ t.vertices ↔ v ∈ side e ∨ v ∈ side e' := by
  obtain ⟨p, q, r, hperm, he, he'⟩ := hcut.meets
  rw [hperm.mem_iff, he, he', Sym2.mem_iff, Sym2.mem_iff, List.mem_cons, List.mem_cons, List.mem_singleton]
  tauto

end

/-! ## All triangles -/

/-- The segments of the crossed triangles. -/
def layerSegments (h : K) (ts : List (Triangle K)) : List (Point2 K × Point2 K) := ts.filterMap (segmentOf h)

theorem intersectAll_eq {sqrt : K → K} {tol : Tolerances K} {h : K} {ts : List (Triangle K)}
    (hall : ∀ t ∈ ts, ∀ ls, intersectTriangle sqrt t h tol.planeEps tol.weldTol ls = (ls, segmentOf h t)) :
    intersectAll sqrt tol h ts = ({ h := h }, layerSegments h ts) := by
  have hfold : ∀ (ls : LayerSlice K) (raw : List (Point2 K × Point2 K)), ts.foldl
      (fun st t =>
        let result := intersectTriangle sqrt t h tol.planeEps tol.weldTol st.1
        (result.1, st.2 ++ result.2.toList)) (ls, raw) = (ls, raw ++ layerSegments h ts) := by
    unfold layerSegments
    induction ts with
    | nil =>
      intro ls raw
      rw [List.filterMap_nil, List.append_nil]
      rfl
    | cons t ts ih =>
      intro ls raw
      obtain ⟨ht, hts⟩ := List.forall_mem_cons.mp hall
      rw [List.foldl_cons]
      dsimp only
      rw [ht, ih hts, List.append_assoc]
      cases hsegment : segmentOf h t with
      | none => rw [List.filterMap_cons_none hsegment, Option.toList_none, List.nil_append]
      | some r => rw [List.filterMap_cons_some hsegment, Option.toList_some, List.singleton_append]
  exact hfold _ []

section

variable [IsStrictOrderedRing K] {sqrt : K → K} {tol : Tolerances K} {h : K} {ts : List (Triangle K)}
  (hdistinct : ∀ t ∈ ts, t.vertices.Nodup) (heps : 0 ≤ tol.planeEps) (hposition : GeneralPosition sqrt tol h ts)

include heps hposition

include hdistinct in
theorem intersect_segmentOf {t : Triangle K} (ht : t ∈ ts) (ls : LayerSlice K) :
    intersectTriangle sqrt t h tol.planeEps tol.weldTol ls = (ls, segmentOf h t) := by
  have hfar := hposition.far t ht
  by_cases hcrossed : t.Crossed h
  · obtain ⟨e, e', hcut⟩ := cut_of_crossed (height_ne hfar heps) hcrossed
    obtain ⟨he, he'⟩ := hcut.mem_crossedEdges
    rw [hcut.segmentOf]
    exact intersect_cut hfar heps hcut (hposition.apart t ht e he t ht e' he' (hcut.side_ne (hdistinct t ht))) ls
  · rw [segmentOf_uncrossed hcrossed]
    exact intersect_uncrossed hfar heps hcrossed ls

/-- What a segment of the layer comes from. -/
theorem cut_of_segmentOf {t : Triangle K} (ht : t ∈ ts) {r : Point2 K × Point2 K} (hr : segmentOf h t = some r) :
    ∃ e e', Cut h t e e' ∧ r = (crossing h e, crossing h e') := by
  have hfar := hposition.far t ht
  by_cases hcrossed : t.Crossed h
  · obtain ⟨e, e', hcut⟩ := cut_of_crossed (height_ne hfar heps) hcrossed
    rw [hcut.segmentOf] at hr
    exact ⟨e, e', hcut, (Option.some.inj hr).symm⟩
  · rw [segmentOf_uncrossed hcrossed] at hr
    cases hr

theorem length_layerSegments : (layerSegments h ts).length = ts.countP fun t => t.Crossed h := by
  unfold layerSegments
  rw [List.length_filterMap_eq_countP]
  apply List.countP_congr
  intro t ht
  rw [decide_eq_true_iff]
  constructor
  · intro hsome
    by_contra hnot
    rw [segmentOf_uncrossed hnot] at hsome
    cases hsome
  · intro hcrossed
    obtain ⟨e, e', hcut⟩ := cut_of_crossed (height_ne (hposition.far t ht) heps) hcrossed
    rw [hcut.segmentOf]
    rfl

end

end

end Souxmar.Am.Slicer
