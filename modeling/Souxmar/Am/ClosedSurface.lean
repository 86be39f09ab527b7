import Souxmar.Am.Crossing
import Souxmar.Lib.Intern

/-!
# The segments of a closed surface

Each undirected edge is on two triangles, so that each crossing point is the end of two segments. Triangles that are not
the same have segments that are not the same.
-/

namespace Souxmar.Am.Slicer

open Souxmar.Lib

section

variable {K : Type*} [Field K] [LinearOrder K]

/-- Each undirected edge belongs to exactly two triangles, and no two triangles have the same vertices. -/
structure ClosedSurface (ts : List (Triangle K)) : Prop where
  shared : ∀ t ∈ ts, ∀ s ∈ t.sides, (ts.countP fun t' => decide (s ∈ t'.sides)) = 2
  apart : ts.Pairwise fun t t' => ¬t.vertices.Perm t'.vertices

theorem distance_self {sqrt : K → K} (hroot : IsRoot sqrt) (p : Point2 K) : distance sqrt p p = 0 := by
  unfold distance
  dsimp only
  rw [sub_self, sub_self, mul_zero, add_zero]
  exact mul_self_eq_zero.mp (hroot 0 le_rfl).2

variable [IsStrictOrderedRing K]

theorem lt_squares {sqrt : K → K} (hroot : IsRoot sqrt) {tol : K} (htol : 0 ≤ tol) {p q : Point2 K}
    (hlt : tol < distance sqrt p q) : tol * tol < (q.u - p.u) * (q.u - p.u) + (q.v - p.v) * (q.v - p.v) := by
  have hsum : 0 ≤ (q.u - p.u) * (q.u - p.u) + (q.v - p.v) * (q.v - p.v) :=
    add_nonneg (mul_self_nonneg _) (mul_self_nonneg _)
  calc
    tol * tol < distance sqrt p q * distance sqrt p q := mul_self_lt_mul_self htol hlt
    _ = (q.u - p.u) * (q.u - p.u) + (q.v - p.v) * (q.v - p.v) := (hroot _ hsum).2

variable {sqrt : K → K} (hroot : IsRoot sqrt) {tol : Tolerances K} (hweld : 0 ≤ tol.weldTol) {h : K}
  {ts : List (Triangle K)} (hposition : GeneralPosition sqrt tol h ts)

include hroot hweld hposition

omit [IsStrictOrderedRing K] in
theorem side_eq_of_crossing {t t' : Triangle K} (ht : t ∈ ts) (ht' : t' ∈ ts) {e e' : Vertex K × Vertex K}
    (he : e ∈ crossedEdges h t) (he' : e' ∈ crossedEdges h t') (hpoint : crossing h e = crossing h e') :
    side e = side e' := by
  by_contra hne
  have hlt := hposition.apart t ht e he t' ht' e' he' hne
  rw [hpoint, distance_self hroot] at hlt
  exact hlt.not_ge hweld

variable (heps : 0 ≤ tol.planeEps)

include heps

theorem end_iff_side {t t' : Triangle K} (ht : t ∈ ts) (ht' : t' ∈ ts) {e : Vertex K × Vertex K}
    (he : e ∈ crossedEdges h t) :
    ((segmentOf h t').map fun r => decide (crossing h e = r.1 ∨ crossing h e = r.2)).getD false = true ↔
      side e ∈ t'.sides := by
  have hcross := (mem_crossedEdges.mp he).2
  have hedge : side e ∈ t'.sides ↔ ∃ f ∈ crossedEdges h t', side f = side e := by
    unfold Triangle.sides
    rw [List.mem_map]
    constructor
    · rintro ⟨f, hf, hside⟩
      exact ⟨f, mem_crossedEdges.mpr ⟨hf, crosses_of_side hside.symm hcross⟩, hside⟩
    · rintro ⟨f, hf, hside⟩
      exact ⟨f, (mem_crossedEdges.mp hf).1, hside⟩
  have hpoint : ∀ f ∈ crossedEdges h t', crossing h e = crossing h f ↔ side f = side e := fun f hf =>
    ⟨fun heq => (side_eq_of_crossing hroot hweld hposition ht ht' he hf heq).symm,
      fun hside => crossing_of_side hside (mem_crossedEdges.mp hf).2⟩
  rw [hedge]
  by_cases hcrossed : t'.Crossed h
  · obtain ⟨g, g', hcut⟩ := cut_of_crossed (height_ne (hposition.far t' ht') heps) hcrossed
    obtain ⟨hg, hg'⟩ := hcut.mem_crossedEdges
    rw [hcut.segmentOf, Option.map_some, Option.getD_some, decide_eq_true_iff, hpoint g hg, hpoint g' hg', hcut.crossed,
      List.exists_mem_cons_iff, List.exists_mem_cons_iff]
    simp only [List.not_mem_nil, false_and, exists_false, or_false]
  · rw [segmentOf_uncrossed hcrossed, crossedEdges_eq_nil hcrossed]
    apply iff_of_false Bool.false_ne_true
    rintro ⟨f, hf, -⟩
    cases hf

theorem countP_end (hsurface : ClosedSurface ts) {t : Triangle K} (ht : t ∈ ts) {e : Vertex K × Vertex K}
    (he : e ∈ crossedEdges h t) :
    ((layerSegments h ts).countP fun r => decide (crossing h e = r.1 ∨ crossing h e = r.2)) = 2 := by
  have hside : side e ∈ t.sides := List.mem_map_of_mem (mem_crossedEdges.mp he).1
  unfold layerSegments
  rw [List.countP_filterMap, ← hsurface.shared t ht _ hside]
  apply List.countP_congr
  intro t' ht'
  rw [decide_eq_true_iff]
  exact end_iff_side hroot hweld hposition heps ht ht' he

variable (hdistinct : ∀ t ∈ ts, t.vertices.Nodup)

include hdistinct

theorem segments_nodup (hsurface : ClosedSurface ts) : ((layerSegments h ts).map fun r => s(r.1, r.2)).Nodup := by
  unfold layerSegments List.Nodup
  rw [List.pairwise_map, List.pairwise_filterMap]
  refine hsurface.apart.imp_of_mem fun {t t'} ht ht' hvertices r hr r' hr' hsame => hvertices ?_
  obtain ⟨e, e', hcut, rfl⟩ := cut_of_segmentOf heps hposition ht hr
  obtain ⟨g, g', hcut', rfl⟩ := cut_of_segmentOf heps hposition ht' hr'
  obtain ⟨he, he'⟩ := hcut.mem_crossedEdges
  obtain ⟨hg, hg'⟩ := hcut'.mem_crossedEdges
  apply (List.perm_ext_iff_of_nodup (hdistinct t ht) (hdistinct t' ht')).mpr
  intro v
  rw [hcut.mem_vertices, hcut'.mem_vertices]
  rcases Sym2.eq_iff.mp hsame with ⟨h₁, h₂⟩ | ⟨h₁, h₂⟩
  · rw [side_eq_of_crossing hroot hweld hposition ht ht' he hg h₁,
      side_eq_of_crossing hroot hweld hposition ht ht' he' hg' h₂]
  · rw [side_eq_of_crossing hroot hweld hposition ht ht' he hg' h₁,
      side_eq_of_crossing hroot hweld hposition ht ht' he' hg h₂, or_comm]

/-- No segment is a loop. -/
theorem segment_ne {r : Point2 K × Point2 K} (hr : r ∈ layerSegments h ts) : r.1 ≠ r.2 := by
  obtain ⟨t, ht, hsegment⟩ := List.mem_filterMap.mp hr
  obtain ⟨e, e', hcut, rfl⟩ := cut_of_segmentOf heps hposition ht hsegment
  obtain ⟨he, he'⟩ := hcut.mem_crossedEdges
  exact fun heq => hcut.side_ne (hdistinct t ht) (side_eq_of_crossing hroot hweld hposition ht ht he he' heq)

end

end Souxmar.Am.Slicer
