import Mathlib.Algebra.Order.Field.Basic
import Mathlib.Data.List.TakeWhile
import Mathlib.Data.Rat.Floor
import Mathlib.Tactic.Linarith
import Souxmar.Am.Slicing

/-!
# The sweep slices every plane

The sweep of `slice_uniform` hands every plane the triangles whose widened extents reach it. The others contribute
nothing, so that its layers are those of slicing each plane by itself.
-/

namespace Souxmar.Am.Slicer

section

variable {K : Type*} [Field K] [LinearOrder K]

/-! ## Slicing from scratch -/

/-- Lowest height, then index. -/
def lowerTriangle (a b : Triangle K × ℕ) : Prop :=
  lowestHeight a.1 < lowestHeight b.1 ∨ (lowestHeight a.1 = lowestHeight b.1 ∧ a.2 ≤ b.2)

instance : DecidableRel (lowerTriangle (K := K)) := fun _ _ => inferInstanceAs (Decidable (_ ∨ _))

/-- The triangles by lowest height and index. -/
def byHeight (triangles : List (Triangle K)) : List (Triangle K) :=
  (triangles.zipIdx.insertionSort lowerTriangle).map Prod.fst

/-- Every plane by itself, with all triangles. -/
def sliceFromScratch [FloorRing K] (sqrt : K → K) (triangles : List (Triangle K)) (h0 dh : K) (numLayers : ℕ)
    (tol : Tolerances K) : Option (SliceSet K) :=
  ((List.range numLayers).mapM fun k => slicePlane sqrt tol (planeHeight h0 dh k) (byHeight triangles)).map
    fun layers => layers.foldl addLayer { h0 := h0, dh := dh }

/-! ## Sorted lists -/

theorem takeWhile_eq_filter {α : Type*} {p : α → Bool} {l : List α}
    (h : l.Pairwise fun a b => p b = true → p a = true) : l.takeWhile p = l.filter p := by
  induction l with
  | nil => rfl
  | cons a l ih =>
    obtain ⟨ha, hl⟩ := List.pairwise_cons.mp h
    by_cases hp : p a = true
    · rw [List.takeWhile_cons_of_pos hp, List.filter_cons_of_pos hp, ih hl]
    · have hnone : l.filter p = [] := List.filter_eq_nil_iff.mpr fun b hb hpb => hp (ha b hb hpb)
      rw [List.takeWhile_cons_of_neg hp, List.filter_cons_of_neg hp, hnone]

theorem dropWhile_eq_filter {α : Type*} {p : α → Bool} {l : List α}
    (h : l.Pairwise fun a b => p b = true → p a = true) : l.dropWhile p = l.filter fun a => !p a := by
  induction l with
  | nil => rfl
  | cons a l ih =>
    obtain ⟨ha, hl⟩ := List.pairwise_cons.mp h
    by_cases hp : p a = true
    · rw [List.dropWhile_cons_of_pos hp, List.filter_cons_of_neg (by rw [hp]; exact Bool.false_ne_true), ih hl]
    · have hall : l.filter (fun a => !p a) = l := by
        apply List.filter_eq_self.mpr
        intro b hb
        rw [Bool.not_eq_true', ← Bool.not_eq_true]
        exact fun hpb => hp (ha b hb hpb)
      rw [List.dropWhile_cons_of_neg hp, List.filter_cons_of_pos (by rw [Bool.eq_false_iff.mpr hp]; rfl), hall]

/-! ## The sweep -/

section

variable {hLo hHi : ℕ → K} {order : List ℕ} (hsorted : order.Pairwise fun a b => hLo a ≤ hLo b)

/-- The triangles that reach the plane. -/
def reaches (hLo hHi : ℕ → K) (h : K) (i : ℕ) : Bool := decide (hLo i ≤ h) && decide (¬hHi i < h)

/-- A sweep that is ready for a plane: what is taken up lies at its front, and what was removed lies below the plane. -/
def Ready (hLo hHi : ℕ → K) (order : List ℕ) (h : K) (s : Sweep) : Prop :=
  ∃ taken kept : ℕ → Bool, order = order.filter taken ++ order.filter (fun i => !taken i) ∧
    s.pending = order.filter (fun i => !taken i) ∧ s.active = (order.filter taken).filter kept ∧
    (∀ i, taken i = true → hLo i ≤ h) ∧ ∀ i, kept i = false → hHi i < h

omit [Field K] in
theorem ready_start (h : K) : Ready hLo hHi order h ⟨order, []⟩ := by
  refine ⟨fun _ => false, fun _ => true, ?_, ?_, ?_, fun i hi => absurd hi Bool.false_ne_true,
    fun i hi => absurd hi.symm Bool.false_ne_true⟩
  · rw [List.filter_false]
    exact (List.filter_true order).symm
  · exact (List.filter_true order).symm
  · rw [List.filter_false]
    rfl

include hsorted in
omit [Field K] in
theorem Ready.moveTo {h : K} {s : Sweep} (hs : Ready hLo hHi order h s) :
    (s.moveTo hLo hHi h).active = order.filter (reaches hLo hHi h) ∧
      ∀ h', h ≤ h' → Ready hLo hHi order h' (s.moveTo hLo hHi h) := by
  obtain ⟨taken, kept, hsplit, hpending, hactive, htaken, hkept⟩ := hs
  have hfront : ∀ l : List ℕ, l.Sublist order →
      l.Pairwise fun a b => decide (hLo b ≤ h) = true → decide (hLo a ≤ h) = true := by
    intro l hl
    refine (hsorted.sublist hl).imp fun hab hb => ?_
    rw [decide_eq_true_iff] at hb ⊢
    exact hab.trans hb
  have hnew : (s.moveTo hLo hHi h).active = order.filter (reaches hLo hHi h) := by
    have hold : ((order.filter taken).filter kept).filter (fun i => decide (¬hHi i < h)) =
        (order.filter taken).filter (reaches hLo hHi h) := by
      rw [List.filter_filter]
      apply List.filter_congr
      intro i hi
      unfold reaches
      rw [decide_eq_true (htaken i (List.mem_filter.mp hi).2), Bool.true_and]
      cases hk : kept i with
      | false => rw [Bool.and_false, decide_eq_false (not_not.mpr (hkept i hk))]
      | true => rw [Bool.and_true]
    have hadded : ((order.filter fun i => !taken i).takeWhile fun i => decide (hLo i ≤ h)).filter
        (fun i => decide (¬hHi i < h)) = (order.filter fun i => !taken i).filter (reaches hLo hHi h) := by
      rw [takeWhile_eq_filter (hfront _ List.filter_sublist), List.filter_filter]
      apply List.filter_congr
      intro i _
      exact Bool.and_comm _ _
    show (s.active ++ s.pending.takeWhile fun i => decide (hLo i ≤ h)).filter (fun i => decide (¬hHi i < h)) = _
    rw [hactive, hpending, List.filter_append, hold, hadded, ← List.filter_append, ← hsplit]
  have hrest : (s.moveTo hLo hHi h).pending = order.filter fun i => !decide (hLo i ≤ h) := by
    show s.pending.dropWhile (fun i => decide (hLo i ≤ h)) = _
    rw [hpending, dropWhile_eq_filter (hfront _ List.filter_sublist), List.filter_filter]
    apply List.filter_congr
    intro i _
    cases ht : taken i with
    | false => rw [Bool.not_false, Bool.and_true]
    | true => rw [decide_eq_true (htaken i ht), Bool.not_true, Bool.and_false]
  refine ⟨hnew, fun h' hle => ⟨fun i => decide (hLo i ≤ h), fun i => decide (¬hHi i < h), ?_, hrest, ?_, ?_, ?_⟩⟩
  · rw [← takeWhile_eq_filter (hfront _ (List.Sublist.refl _)), ← dropWhile_eq_filter (hfront _ (List.Sublist.refl _)),
      List.takeWhile_append_dropWhile]
  · rw [hnew, List.filter_filter]
    apply List.filter_congr
    intro i _
    exact Bool.and_comm _ _
  · exact fun i hi => (of_decide_eq_true hi).trans hle
  · exact fun i hi => (not_not.mp (of_decide_eq_false hi)).trans_le hle

end

/-! ## Triangles off the plane -/

variable [IsStrictOrderedRing K]

theorem snapped_pos {h eps : K} {p : Vertex K} (heps : 0 ≤ eps) (hp : eps < p.h - h) : 0 < snapped h eps p := by
  have hpos : 0 < p.h - h := heps.trans_lt hp
  unfold snapped
  dsimp only
  rw [abs_of_pos hpos, if_neg hp.not_ge]
  exact hpos

theorem snapped_neg {h eps : K} {p : Vertex K} (heps : 0 ≤ eps) (hp : eps < h - p.h) : snapped h eps p < 0 := by
  have hneg : p.h - h < 0 := by linarith
  have hfar : ¬|p.h - h| ≤ eps := by
    rw [abs_of_neg hneg]
    intro hle
    linarith
  unfold snapped
  dsimp only
  rw [if_neg hfar]
  exact hneg

omit [Field K] [LinearOrder K] [IsStrictOrderedRing K] in
theorem edges_ends (t : Triangle K) : ∀ e ∈ t.edges, e.1 ∈ t.vertices ∧ e.2 ∈ t.vertices := by
  have hmem : t.p0 ∈ t.vertices := List.mem_cons_self ..
  have hmem₁ : t.p1 ∈ t.vertices := List.mem_cons_of_mem _ (List.mem_cons_self ..)
  have hmem₂ : t.p2 ∈ t.vertices := List.mem_cons_of_mem _ (List.mem_cons_of_mem _ (List.mem_cons_self ..))
  unfold Triangle.edges
  rw [List.forall_mem_cons, List.forall_mem_cons, List.forall_mem_singleton]
  exact ⟨⟨hmem, hmem₁⟩, ⟨hmem₁, hmem₂⟩, hmem₂, hmem⟩

omit [IsStrictOrderedRing K] in
theorem intersect_off {sqrt : K → K} {t : Triangle K} {h eps weldTol : K}
    (hoff : (∀ p ∈ t.vertices, 0 < snapped h eps p) ∨ ∀ p ∈ t.vertices, snapped h eps p < 0) (ls : LayerSlice K) :
    intersectTriangle sqrt t h eps weldTol ls = (ls, none) := by
  have hne : ∀ p ∈ t.vertices, snapped h eps p ≠ 0 := by
    intro p hp
    rcases hoff with hpos | hneg
    · exact (hpos p hp).ne'
    · exact (hneg p hp).ne
  have hvertices : vertexPoints (snapped h eps) t = [] := by
    apply List.filterMap_eq_nil_iff.mpr
    intro p hp
    rw [if_neg (hne p hp)]
  have hcrossings : edgePoints (snapped h eps) t = [] := by
    apply List.filterMap_eq_nil_iff.mpr
    intro e he
    obtain ⟨h₁, h₂⟩ := edges_ends t e he
    rw [if_neg]
    rintro (⟨hup, hdown⟩ | ⟨hdown, hup⟩)
    · rcases hoff with hpos | hneg
      · exact lt_asymm hdown (hpos _ h₂)
      · exact lt_asymm hup (hneg _ h₁)
    · rcases hoff with hpos | hneg
      · exact lt_asymm hdown (hpos _ h₁)
      · exact lt_asymm hup (hneg _ h₂)
  unfold intersectTriangle
  dsimp only
  rw [if_neg fun hall => hne _ (List.mem_cons_self ..) (hall _ (List.mem_cons_self ..)), hvertices, hcrossings]
  rfl

theorem intersect_unreached {sqrt : K → K} {t : Triangle K} {h eps weldTol : K} (heps : 0 ≤ eps)
    (hout : h < lowestHeight t - eps ∨ highestHeight t + eps < h) (ls : LayerSlice K) :
    intersectTriangle sqrt t h eps weldTol ls = (ls, none) := by
  apply intersect_off
  unfold Triangle.vertices
  simp only [List.forall_mem_cons, List.not_mem_nil, IsEmpty.forall_iff, implies_true, and_true]
  unfold lowestHeight highestHeight at hout
  rcases hout with hlow | hhigh
  · have h₀ := min_le_left t.p0.h (min t.p1.h t.p2.h)
    have h₁ := (min_le_right t.p0.h (min t.p1.h t.p2.h)).trans (min_le_left t.p1.h t.p2.h)
    have h₂ := (min_le_right t.p0.h (min t.p1.h t.p2.h)).trans (min_le_right t.p1.h t.p2.h)
    exact Or.inl ⟨snapped_pos heps (by linarith), snapped_pos heps (by linarith), snapped_pos heps (by linarith)⟩
  · have h₀ := le_max_left t.p0.h (max t.p1.h t.p2.h)
    have h₁ := (le_max_left t.p1.h t.p2.h).trans (le_max_right t.p0.h (max t.p1.h t.p2.h))
    have h₂ := (le_max_right t.p1.h t.p2.h).trans (le_max_right t.p0.h (max t.p1.h t.p2.h))
    exact Or.inr ⟨snapped_neg heps (by linarith), snapped_neg heps (by linarith), snapped_neg heps (by linarith)⟩

/-! ## The layers -/

omit [IsStrictOrderedRing K] in
theorem intersectAll_filter {sqrt : K → K} {tol : Tolerances K} {h : K} {tri : ℕ → Triangle K} {keep : ℕ → Bool}
    (hskip : ∀ i ls, keep i = false → intersectTriangle sqrt (tri i) h tol.planeEps tol.weldTol ls = (ls, none))
    (order : List ℕ) :
    intersectAll sqrt tol h ((order.filter keep).map tri) = intersectAll sqrt tol h (order.map tri) := by
  unfold intersectAll
  generalize (({ h := h }, []) : LayerSlice K × List (Point2 K × Point2 K)) = st
  induction order generalizing st with
  | nil => rfl
  | cons i order ih =>
    cases hi : keep i with
    | true =>
      rw [List.filter_cons_of_pos hi, List.map_cons, List.map_cons, List.foldl_cons, List.foldl_cons]
      exact ih _
    | false =>
      rw [List.filter_cons_of_neg (Bool.eq_false_iff.mp hi), List.map_cons, List.foldl_cons, hskip i _ hi, ih]
      congr 1
      exact Prod.ext rfl (List.append_nil _).symm

theorem planeHeight_le (h0 : K) {dh : K} (hdh : 0 < dh) {k k' : ℕ} (hk : k ≤ k') :
    planeHeight h0 dh k ≤ planeHeight h0 dh k' := by
  unfold planeHeight
  have hcast : (k : K) ≤ k' := Nat.cast_le.mpr hk
  have hmul := mul_le_mul_of_nonneg_right hcast hdh.le
  linarith

variable [FloorRing K]

theorem rounds_eq {sqrt : K → K} {tol : Tolerances K} (heps : 0 ≤ tol.planeEps) {h0 dh : K} (hdh : 0 < dh)
    {tri : ℕ → Triangle K} {order : List ℕ}
    (hsorted : order.Pairwise fun a b =>
      lowestHeight (tri a) - tol.planeEps ≤ lowestHeight (tri b) - tol.planeEps)
    {ks : List ℕ} (hks : ks.Pairwise (· < ·)) {s : Sweep} {out : SliceSet K}
    (hs : ∀ k ∈ ks, Ready (fun i => lowestHeight (tri i) - tol.planeEps)
      (fun i => highestHeight (tri i) + tol.planeEps) order (planeHeight h0 dh k) s) :
    (ks.foldlM
      (fun (st : Sweep × SliceSet K) k =>
        let h := planeHeight h0 dh k
        let sweep := st.1.moveTo (fun i => lowestHeight (tri i) - tol.planeEps)
          (fun i => highestHeight (tri i) + tol.planeEps) h
        (slicePlane sqrt tol h (sweep.active.map tri)).map fun ls => (sweep, addLayer st.2 ls)) (s, out)).map Prod.snd =
      (ks.mapM fun k => slicePlane sqrt tol (planeHeight h0 dh k) (order.map tri)).map
        fun layers => layers.foldl addLayer out := by
  induction ks generalizing s out with
  | nil => rfl
  | cons k ks ih =>
    obtain ⟨hk, hks⟩ := List.pairwise_cons.mp hks
    obtain ⟨hready, hrest⟩ := List.forall_mem_cons.mp hs
    obtain ⟨hactive, hnext⟩ := hready.moveTo hsorted
    have hskip : ∀ i ls, reaches (fun i => lowestHeight (tri i) - tol.planeEps)
        (fun i => highestHeight (tri i) + tol.planeEps) (planeHeight h0 dh k) i = false →
        intersectTriangle sqrt (tri i) (planeHeight h0 dh k) tol.planeEps tol.weldTol ls = (ls, none) := by
      intro i ls hi
      apply intersect_unreached heps
      unfold reaches at hi
      rw [Bool.and_eq_false_iff, decide_eq_false_iff_not, decide_eq_false_iff_not, not_le, not_not] at hi
      exact hi
    have hplane : slicePlane sqrt tol (planeHeight h0 dh k) ((s.moveTo (fun i => lowestHeight (tri i) - tol.planeEps)
        (fun i => highestHeight (tri i) + tol.planeEps) (planeHeight h0 dh k)).active.map tri) =
        slicePlane sqrt tol (planeHeight h0 dh k) (order.map tri) := by
      unfold slicePlane
      rw [hactive, intersectAll_filter hskip]
    rw [List.foldlM_cons, List.mapM_cons]
    dsimp only
    rw [hplane]
    cases slicePlane sqrt tol (planeHeight h0 dh k) (order.map tri) with
    | none => rfl
    | some ls =>
      refine Eq.trans (ih hks fun k' hk' => hnext _ (planeHeight_le h0 hdh (hk k' hk').le)) ?_
      cases ks.mapM fun k => slicePlane sqrt tol (planeHeight h0 dh k) (order.map tri) with
      | none => rfl
      | some layers => rfl

omit [Field K] [IsStrictOrderedRing K] [FloorRing K] in
theorem lowerTriangle_total : Std.Total (lowerTriangle (K := K)) := by
  refine ⟨fun a b => ?_⟩
  unfold lowerTriangle
  rcases lt_trichotomy (lowestHeight a.1) (lowestHeight b.1) with h | h | h
  · exact Or.inl (Or.inl h)
  · exact (le_total a.2 b.2).imp (fun hi => Or.inr ⟨h, hi⟩) fun hi => Or.inr ⟨h.symm, hi⟩
  · exact Or.inr (Or.inl h)

omit [Field K] [IsStrictOrderedRing K] [FloorRing K] in
theorem lowerTriangle_trans : IsTrans (Triangle K × ℕ) lowerTriangle := by
  refine ⟨fun a b c hab hbc => ?_⟩
  unfold lowerTriangle at *
  rcases hab with hab | ⟨hab, hab'⟩
  · rcases hbc with hbc | ⟨hbc, -⟩
    · exact Or.inl (hab.trans hbc)
    · exact Or.inl (hbc ▸ hab)
  · rcases hbc with hbc | ⟨hbc, hbc'⟩
    · exact Or.inl (hab ▸ hbc)
    · exact Or.inr ⟨hab.trans hbc, hab'.trans hbc'⟩

omit [FloorRing K] in
theorem sweepOrder_map {triangles : List (Triangle K)} (hsize : triangles.length ≤ 2 ^ 32) (eps : K) (zero : Triangle K) :
    (sweepOrder (fun i => lowestHeight (triangles.getD i zero) - eps) triangles.length).map
        (fun i => (triangles.getD i zero, i)) = triangles.zipIdx.insertionSort lowerTriangle := by
  have hindices : (List.range triangles.length).map (· % 2 ^ 32) = List.range triangles.length := by
    apply (List.map_congr_left fun i hi => ?_).trans (List.map_id _)
    exact Nat.mod_eq_of_lt (Nat.lt_of_lt_of_le (List.mem_range.mp hi) hsize)
  have hzip : triangles.zipIdx = (List.range triangles.length).map fun i => (triangles.getD i zero, i) := by
    apply List.ext_getElem
    · rw [List.length_zipIdx, List.length_map, List.length_range]
    · intro i h₁ h₂
      rw [List.length_zipIdx] at h₁
      rw [List.getElem_zipIdx, List.getElem_map, List.getElem_range, List.getD_eq_getElem?_getD,
        List.getElem?_eq_getElem h₁, Nat.zero_add]
      rfl
  unfold sweepOrder
  rw [hindices, hzip]
  apply List.map_insertionSort
  intro a _ b _
  unfold lowerTriangle
  dsimp only
  split_ifs with hne
  · rw [ne_eq, sub_left_inj] at hne
    rw [sub_lt_sub_iff_right, not_lt, or_iff_left fun h => hne h.1.symm]
    exact (lt_iff_le_and_ne.trans (and_iff_left (Ne.symm hne))).symm
  · rw [not_ne_iff, sub_left_inj] at hne
    rw [not_lt, hne, or_iff_right (lt_irrefl _), and_iff_right rfl]

omit [Field K] [LinearOrder K] [IsStrictOrderedRing K] [FloorRing K] in
theorem foldl_addLayer_empty (heights : List K) (out : SliceSet K) :
    (heights.map fun h => ({ h := h } : LayerSlice K)).foldl addLayer out =
      { out with layers := out.layers ++ heights.map fun h => { h := h } } := by
  induction heights generalizing out with
  | nil =>
    rw [List.map_nil, List.append_nil]
    rfl
  | cons h heights ih =>
    rw [List.map_cons, List.foldl_cons, ih, List.append_cons]
    rfl

/-- With a tolerance that is not negative and at most 2^32 triangles the sweep is slicing from scratch. -/
theorem sweep_eq_scratch (sqrt : K → K) {triangles : List (Triangle K)} (hsize : triangles.length ≤ 2 ^ 32) (h0 : K)
    {dh : K} (hdh : 0 < dh) (numLayers : ℕ) {tol : Tolerances K} (heps : 0 ≤ tol.planeEps) :
    sliceUniform sqrt triangles h0 dh numLayers tol = sliceFromScratch sqrt triangles h0 dh numLayers tol := by
  unfold sliceUniform sliceFromScratch
  by_cases hnone : numLayers = 0
  · rw [if_pos (Or.inl hnone), hnone]
    rfl
  · rw [if_neg (not_or.mpr ⟨hnone, not_not.mpr hdh⟩)]
    by_cases hempty : triangles = []
    · have hplane : (fun k => slicePlane sqrt tol (planeHeight h0 dh k) (byHeight ([] : List (Triangle K)))) =
          fun k => pure { h := planeHeight h0 dh k } := rfl
      have hlayers := foldl_addLayer_empty ((List.range numLayers).map (planeHeight h0 dh)) { h0 := h0, dh := dh }
      rw [List.map_map] at hlayers
      rw [if_pos hempty, hempty, hplane, List.mapM_pure]
      exact congrArg some hlayers.symm
    · rw [if_neg hempty]
      dsimp only
      have horder := sweepOrder_map hsize tol.planeEps ⟨⟨0, 0, 0⟩, ⟨0, 0, 0⟩, ⟨0, 0, 0⟩⟩
      have htriangles : (sweepOrder (fun i => lowestHeight (triangles.getD i ⟨⟨0, 0, 0⟩, ⟨0, 0, 0⟩, ⟨0, 0, 0⟩⟩) - tol.planeEps)
          triangles.length).map (fun i => triangles.getD i ⟨⟨0, 0, 0⟩, ⟨0, 0, 0⟩, ⟨0, 0, 0⟩⟩) = byHeight triangles := by
        unfold byHeight
        rw [← horder, List.map_map]
        rfl
      have hsorted : (sweepOrder (fun i => lowestHeight (triangles.getD i ⟨⟨0, 0, 0⟩, ⟨0, 0, 0⟩, ⟨0, 0, 0⟩⟩) - tol.planeEps)
          triangles.length).Pairwise fun a b =>
            lowestHeight (triangles.getD a ⟨⟨0, 0, 0⟩, ⟨0, 0, 0⟩, ⟨0, 0, 0⟩⟩) - tol.planeEps ≤
              lowestHeight (triangles.getD b ⟨⟨0, 0, 0⟩, ⟨0, 0, 0⟩, ⟨0, 0, 0⟩⟩) - tol.planeEps := by
        have := lowerTriangle_total (K := K)
        have := lowerTriangle_trans (K := K)
        have hpairs := List.pairwise_insertionSort lowerTriangle triangles.zipIdx
        rw [← horder, List.pairwise_map] at hpairs
        refine hpairs.imp fun hab => sub_le_sub_right ?_ _
        rcases hab with hab | hab
        · exact hab.le
        · exact hab.1.le
      rw [← htriangles]
      exact rounds_eq heps hdh hsorted List.pairwise_lt_range fun k _ => ready_start _

end

/-! ## Where the two part -/

section

/-- A triangle that stands on the heights zero and one. -/
def standing : Triangle ℚ := ⟨⟨0, 0, 0⟩, ⟨1 + 1, 0, 0⟩, ⟨0, 1, 1⟩⟩

/-- The distances that come up are zero or one, so that the identity is their root. -/
theorem sweep_eq_scratch_standing :
    sliceUniform id [standing, standing] (1 / 2) 1 2 ⟨0, 0⟩ = sliceFromScratch id [standing, standing] (1 / 2) 1 2 ⟨0, 0⟩ :=
  sweep_eq_scratch id (by decide) (1 / 2) one_pos 2 le_rfl

def lying : Triangle ℚ := ⟨⟨0, 0, 0⟩, ⟨1, 0, 0⟩, ⟨0, 1, 0⟩⟩

def hovering : Triangle ℚ := ⟨⟨0, 0, 1⟩, ⟨1, 0, 1⟩, ⟨0, 1, 1⟩⟩

theorem intersect_lying (ls : LayerSlice ℚ) :
    intersectTriangle id lying 0 0 0 ls = ({ ls with coplanarTriangles := ls.coplanarTriangles + 1 }, none) := by
  unfold intersectTriangle
  exact if_pos (by simp [lying, Triangle.vertices, snapped])

theorem intersect_hovering (ls : LayerSlice ℚ) : intersectTriangle id hovering 0 0 0 ls = (ls, none) :=
  intersect_unreached le_rfl (Or.inl (by simp [hovering, lowestHeight])) ls

theorem slicePlane_flat {ts : List (Triangle ℚ)} (hts : ∀ t ∈ ts, t = lying ∨ t = hovering) :
    slicePlane id ⟨0, 0⟩ 0 ts = some { h := 0, coplanarTriangles := ts.count lying } := by
  have hall : ∀ ls : LayerSlice ℚ, ts.foldl
      (fun st t =>
        let result := intersectTriangle id t 0 0 0 st.1
        (result.1, st.2 ++ result.2.toList)) (ls, []) =
      ({ ls with coplanarTriangles := ls.coplanarTriangles + ts.count lying }, []) := by
    induction ts with
    | nil => exact fun ls => rfl
    | cons t ts ih =>
      intro ls
      obtain ⟨ht, hrest⟩ := List.forall_mem_cons.mp hts
      rw [List.foldl_cons, List.count_cons]
      dsimp only
      rcases ht with rfl | rfl
      · rw [intersect_lying, if_pos (beq_self_eq_true _), ← Nat.add_assoc, Nat.add_right_comm]
        exact ih hrest { ls with coplanarTriangles := ls.coplanarTriangles + 1 }
      · rw [intersect_hovering, if_neg (by decide)]
        exact ih hrest _
  unfold slicePlane intersectAll
  dsimp only
  rw [hall, zero_add]
  rfl

theorem sweepOrder_lt {hLo : ℕ → ℚ} {count i : ℕ} (hi : i ∈ sweepOrder hLo count) : i < 2 ^ 32 := by
  unfold sweepOrder at hi
  rw [List.mem_insertionSort, List.mem_map] at hi
  obtain ⟨j, -, rfl⟩ := hi
  exact Nat.mod_lt _ (by decide)

theorem sweep_misses {n : ℕ} (hn : n = 2 ^ 32) :
    sliceUniform id (List.replicate n hovering ++ [lying]) 0 1 1 ⟨0, 0⟩ ≠
      sliceFromScratch id (List.replicate n hovering ++ [lying]) 0 1 1 ⟨0, 0⟩ := by
  set triangles := List.replicate n hovering ++ [lying] with htriangles
  have hkinds : ∀ t ∈ triangles, t = lying ∨ t = hovering := by
    intro t ht
    rcases List.mem_append.mp ht with ht | ht
    · exact Or.inr (List.eq_of_mem_replicate ht)
    · exact Or.inl (List.mem_singleton.mp ht)
  have hplane : planeHeight (0 : ℚ) 1 0 = 0 := by simp [planeHeight]
  have hscratch : (sliceFromScratch id triangles 0 1 1 ⟨0, 0⟩).map SliceSet.coplanarTriangles = some 1 := by
    have hperm : (byHeight triangles).Perm triangles := by
      have hsort := (List.perm_insertionSort lowerTriangle triangles.zipIdx).map Prod.fst
      rw [List.zipIdx_map_fst] at hsort
      exact hsort
    have hcount : (byHeight triangles).count lying = 1 := by
      rw [hperm.count_eq, htriangles, List.count_append, List.count_replicate, if_neg (by decide), zero_add]
      rfl
    unfold sliceFromScratch
    rw [List.range_one, List.mapM_cons, List.mapM_nil, hplane, slicePlane_flat fun t ht => hkinds t (hperm.mem_iff.mp ht),
      hcount]
    rfl
  have hsweep : (sliceUniform id triangles 0 1 1 ⟨0, 0⟩).map SliceSet.coplanarTriangles = some 0 := by
    have hne : triangles ≠ [] := List.append_ne_nil_of_right_ne_nil _ (List.cons_ne_nil _ _)
    have hidle : ∀ i ∈ sweepOrder
        (fun i => lowestHeight (triangles.getD i ⟨⟨0, 0, 0⟩, ⟨0, 0, 0⟩, ⟨0, 0, 0⟩⟩) - 0) triangles.length,
        ¬decide (lowestHeight (triangles.getD i ⟨⟨0, 0, 0⟩, ⟨0, 0, 0⟩, ⟨0, 0, 0⟩⟩) - 0 ≤ 0) = true := by
      intro i hi
      have hlt : i < (List.replicate n hovering).length := by
        rw [List.length_replicate, hn]
        exact sweepOrder_lt hi
      rw [htriangles, List.getD_eq_getElem?_getD, List.getElem?_append_left hlt, List.getElem?_eq_getElem hlt,
        List.getElem_replicate]
      simp [hovering, lowestHeight]
    unfold sliceUniform
    rw [if_neg (by simp), if_neg hne, List.range_one]
    dsimp only
    rw [List.foldlM_cons, hplane]
    unfold Sweep.moveTo
    dsimp only
    rw [List.takeWhile_eq_nil_iff.mpr fun hlen => hidle _ (List.get_mem _ _)]
    rfl
  intro heq
  rw [heq, hscratch] at hsweep
  exact absurd hsweep (by decide)

/-- With a negative tolerance the sweep leaves out a triangle that the plane crosses. -/
theorem sweep_not_scratch :
    sliceUniform id [standing] (1 / 2) 1 1 ⟨-1, 0⟩ ≠ sliceFromScratch id [standing] (1 / 2) 1 1 ⟨-1, 0⟩ ∧
      sliceUniform id (List.replicate (2 ^ 32) hovering ++ [lying]) 0 1 1 ⟨0, 0⟩ ≠
        sliceFromScratch id (List.replicate (2 ^ 32) hovering ++ [lying]) 0 1 1 ⟨0, 0⟩ := by
  refine ⟨fun heq => ?_, sweep_misses rfl⟩
  have hopen := congrArg (Option.map SliceSet.openContours) heq
  revert hopen
  decide +kernel

end

end Souxmar.Am.Slicer
