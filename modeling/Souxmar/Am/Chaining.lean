import Mathlib.Algebra.BigOperators.Ring.List
import Mathlib.Data.Rat.Sqrt
import Souxmar.Am.ContourCover

/-!
# Chaining a layer

What `chain_layer` makes of the welded segments of a layer, and the list of 2^32 segments that shows the bound.
-/

namespace Souxmar.Am.Slicer

open Souxmar.Lib

/-! ## Welding -/

section

variable {K : Type*} [Field K] [LinearOrder K] [FloorRing K]

theorem weldStep_welded {s : Welding K} (hseen : s.segs.map WeldedSeg.key = s.seen) (h : Welded s.segs)
    (raw : Point2 K × Point2 K) :
    (weldStep s raw).segs.map WeldedSeg.key = (weldStep s raw).seen ∧ Welded (weldStep s raw).segs := by
  unfold weldStep
  dsimp only
  split_ifs with hloop hmem
  · exact ⟨hseen, h⟩
  · exact ⟨hseen, h⟩
  · refine ⟨?_, ?_, ?_⟩
    · rw [List.map_append, hseen]
      rfl
    · intro seg hseg
      rcases List.mem_append.mp hseg with hseg | hseg
      · exact h.loop seg hseg
      · rw [List.mem_singleton.mp hseg]
        exact hloop
    · rw [← hseen] at hmem
      rw [List.map_append, List.map_singleton]
      exact (List.perm_append_singleton _ _).nodup_iff.mpr (List.nodup_cons.mpr ⟨hmem, h.nodup⟩)

theorem weldAll_welded (raw : List (Point2 K × Point2 K)) (weldTol : K) (ls : LayerSlice K) :
    Welded (weldAll raw weldTol ls).segs := by
  have hfold : ∀ s : Welding K, s.segs.map WeldedSeg.key = s.seen → Welded s.segs →
      Welded (raw.foldl weldStep s).segs := by
    induction raw with
    | nil => exact fun s _ h => h
    | cons r raw ih =>
      intro s hseen h
      obtain ⟨hseen', h'⟩ := weldStep_welded hseen h r
      exact ih _ hseen' h'
  exact hfold _ rfl ⟨fun seg hseg => absurd hseg List.not_mem_nil, List.nodup_nil⟩

end

/-! ## Contours -/

section

variable {K : Type*} [Field K] [LinearOrder K]

/-- The contour of a chain over the welded points. -/
def contourAt (sqrt : K → K) (points : List (Point2 K)) (c : Chain) : Contour K :=
  contourOf sqrt (c.nodes.map fun id => points.getD id ⟨0, 0⟩) c.closed

omit [LinearOrder K] in
theorem foldl_addChain (sqrt : K → K) (points : List (Point2 K)) {chains : List Chain}
    (h : ∀ c ∈ chains, c.degenerate = false) (ls : LayerSlice K) :
    chains.foldl (addChain sqrt points) ls =
      { ls with
        openContours := ls.openContours + openChains chains
        contours := ls.contours ++ chains.map (contourAt sqrt points) } := by
  induction chains generalizing ls with
  | nil =>
    rw [List.foldl_nil, List.map_nil, List.append_nil]
    rfl
  | cons c chains ih =>
    obtain ⟨hc, hchains⟩ := List.forall_mem_cons.mp h
    have hadd : addChain sqrt points ls c =
        { ls with
          openContours := ls.openContours + openChains [c]
          contours := ls.contours ++ [contourAt sqrt points c] } := by
      unfold addChain openChains
      rw [if_neg (Bool.eq_false_iff.mp hc), List.countP_singleton]
      cases hclosed : c.closed with
      | false =>
        unfold contourAt
        rw [hclosed]
        rfl
      | true =>
        unfold contourAt
        rw [hclosed]
        rfl
    have hopen : openChains (c :: chains) = openChains [c] + openChains chains := by
      rw [← List.singleton_append]
      exact List.countP_append
    rw [List.foldl_cons, hadd, ih hchains, hopen, List.map_cons, List.append_assoc, Nat.add_assoc]
    rfl

omit [LinearOrder K] in
/-- Below 2^32 segments the walk ends and loses nothing. -/
theorem chaining_loses_nothing (sqrt : K → K) (points : List (Point2 K)) (ls : LayerSlice K) {segs : List WeldedSeg}
    (hwelded : Welded segs) (hsmall : segs.length < 2 ^ 32) :
    ∃ chains, traceAll segs = some chains ∧
      ((chains.flatMap Chain.sides).map WeldedSeg.key).Perm (segs.map WeldedSeg.key) ∧
      (∀ c ∈ chains, c.closed = true → 3 ≤ c.nodes.length) ∧
      (chains.foldl (addChain sqrt points) ls).contours = ls.contours ++ chains.map (contourAt sqrt points) ∧
      (chains.foldl (addChain sqrt points) ls).degenerateDropped = ls.degenerateDropped ∧
      (chains.foldl (addChain sqrt points) ls).openContours = ls.openContours + (oddNodes segs).card / 2 ∧
      2 ∣ (oddNodes segs).card := by
  obtain ⟨chains, hrun, hperm, hkept, hthree, hodd⟩ := traceAll_spec hwelded hsmall
  have hlayer := foldl_addChain sqrt points hkept ls
  refine ⟨chains, hrun, hperm, hthree, ?_, ?_, ?_, ⟨_, hodd.symm⟩⟩
  · rw [hlayer]
  · rw [hlayer]
  · rw [hlayer]
    dsimp only
    omega

end

def triangleSegs : List WeldedSeg := [⟨0, 1⟩, ⟨1, 2⟩, ⟨2, 0⟩]

def trianglePoints : List (Point2 ℚ) := [⟨0, 0⟩, ⟨4, 0⟩, ⟨0, 3⟩]

theorem chaining_loses_nothing_triangle : Welded triangleSegs ∧
    ∃ chains, traceAll triangleSegs = some chains ∧
      ((chains.flatMap Chain.sides).map WeldedSeg.key).Perm (triangleSegs.map WeldedSeg.key) ∧
      (∀ c ∈ chains, c.closed = true → 3 ≤ c.nodes.length) ∧
      (chains.foldl (addChain Rat.sqrt trianglePoints) { h := 0 }).contours =
        chains.map (contourAt Rat.sqrt trianglePoints) ∧
      (chains.foldl (addChain Rat.sqrt trianglePoints) { h := 0 }).degenerateDropped = 0 ∧
      (chains.foldl (addChain Rat.sqrt trianglePoints) { h := 0 }).openContours = 0 := by
  have hwelded : Welded triangleSegs := ⟨by decide, by decide⟩
  obtain ⟨chains, hrun, hperm, hthree, hcontours, hdropped, hopen, -⟩ :=
    chaining_loses_nothing Rat.sqrt trianglePoints { h := 0 } hwelded (by decide)
  have heven : (oddNodes triangleSegs).card = 0 := by decide
  refine ⟨hwelded, chains, hrun, hperm, hthree, hcontours, hdropped, ?_⟩
  rw [hopen, heven]

/-! ## The last of 2^32 segments -/

section

variable {segs : List WeldedSeg}

/-- What every step of a walk keeps: `kNoSeg` as it was, and what was used. -/
def Keeps (used used' : ℕ → Bool) : Prop := used' kNoSeg = used kNoSeg ∧ ∀ s, used s = true → used' s = true

theorem Keeps.refl (used : ℕ → Bool) : Keeps used used := ⟨rfl, fun _ h => h⟩

theorem Keeps.trans {used used' used'' : ℕ → Bool} (h : Keeps used used') (h' : Keeps used' used'') :
    Keeps used used'' := ⟨h'.1.trans h.1, fun s hs => h'.2 s (h.2 s hs)⟩

theorem keeps_update {used : ℕ → Bool} {s : ℕ} (hs : s ≠ kNoSeg) : Keeps used (Function.update used s true) := by
  refine ⟨Function.update_of_ne hs.symm _ _, fun t ht => ?_⟩
  by_cases hts : t = s
  · rw [hts, Function.update_self]
  · rwa [Function.update_of_ne hts]

theorem walkForward_keeps {fuel : ℕ} {c c' : Chain} (h : walkForward segs fuel c = some c') : Keeps c.used c'.used := by
  induction fuel generalizing c with
  | zero => cases h
  | succ fuel ih =>
    unfold walkForward at h
    dsimp only at h
    split_ifs at h with hclosed hnone
    · obtain rfl := Option.some.inj h
      exact Keeps.refl _
    · obtain rfl := Option.some.inj h
      exact Keeps.refl _
    · exact (keeps_update hnone).trans (ih h)

theorem walkBackward_keeps {fuel : ℕ} {c c' : Chain} (h : walkBackward segs fuel c = some c') :
    Keeps c.used c'.used := by
  induction fuel generalizing c with
  | zero => cases h
  | succ fuel ih =>
    unfold walkBackward at h
    dsimp only at h
    split_ifs at h with hnone hclosed
    · obtain rfl := Option.some.inj h
      exact Keeps.refl _
    · obtain rfl := Option.some.inj h
      exact keeps_update hnone
    · exact (keeps_update hnone).trans (ih h)

theorem traceFrom_keeps {used : ℕ → Bool} {s0 : ℕ} {c : Chain} (hs0 : s0 ≠ kNoSeg)
    (h : traceFrom segs used s0 = some c) : Keeps used c.used ∧ c.used s0 = true := by
  unfold traceFrom at h
  dsimp only at h
  cases hforward : walkForward segs (segs.length + 1)
      ⟨Function.update used s0 true, [(segs.getD s0 ⟨0, 0⟩).a, (segs.getD s0 ⟨0, 0⟩).b], false⟩ with
  | none =>
    rw [hforward] at h
    cases h
  | some c₁ =>
    rw [hforward] at h
    dsimp only at h
    have hfirst := walkForward_keeps hforward
    have hboth : Keeps (Function.update used s0 true) c.used := by
      split_ifs at h with hclosed
      · obtain rfl := Option.some.inj h
        exact hfirst
      · exact hfirst.trans (walkBackward_keeps h)
    exact ⟨(keeps_update hs0).trans hboth, hboth.2 s0 (Function.update_self ..)⟩

theorem rounds_before_last {k : ℕ} (hk : k ≤ kNoSeg) {st : (ℕ → Bool) × List Chain}
    (h : (List.range k).foldlM (traceStep segs) (fun _ => false, []) = some st) :
    st.1 kNoSeg = false ∧ ∀ s < k, st.1 s = true := by
  induction k generalizing st with
  | zero =>
    obtain rfl := Option.some.inj h
    exact ⟨rfl, fun s hs => absurd hs (Nat.not_lt_zero s)⟩
  | succ k ih =>
    rw [List.range_succ, List.foldlM_append] at h
    cases hrun : (List.range k).foldlM (traceStep segs) (fun _ => false, []) with
    | none =>
      rw [hrun] at h
      cases h
    | some st₁ =>
      obtain ⟨hlast, hall⟩ := ih (Nat.le_of_succ_le hk) hrun
      rw [hrun] at h
      have hstep : traceStep segs st₁ k = some st := by
        simpa only [Option.bind_eq_bind, Option.bind_some, List.foldlM_cons, List.foldlM_nil, bind_pure] using h
      have hkeeps : Keeps st₁.1 st.1 ∧ st.1 k = true := by
        unfold traceStep at hstep
        split_ifs at hstep with hused
        · obtain rfl := Option.some.inj hstep
          exact ⟨Keeps.refl _, hused⟩
        · obtain ⟨c, htrace, rfl⟩ := Option.map_eq_some_iff.mp hstep
          exact traceFrom_keeps (Nat.ne_of_lt hk) htrace
      refine ⟨hkeeps.1.1.trans hlast, fun s hs => ?_⟩
      rcases Nat.lt_succ_iff_lt_or_eq.mp hs with hs | rfl
      · exact hkeeps.1.2 s (hall s hs)
      · exact hkeeps.2

theorem pick_of_all_used (hlength : segs.length ≤ 2 ^ 32) {used : ℕ → Bool} (hused : ∀ s < segs.length, used s = true)
    (node : ℕ) : pick segs used node = kNoSeg := by
  unfold pick
  have hnone : ((incident segs node).find? fun s => !used s) = none := by
    apply List.find?_eq_none.mpr
    intro s hs
    rw [hused s ((mem_incident hlength).mp hs).1]
    exact Bool.false_ne_true
  rw [hnone]
  rfl

theorem last_segment_open (hwelded : Welded segs) (hlength : segs.length = kNoSeg + 1) {chains : List Chain}
    (h : traceAll segs = some chains) : openChains chains ≠ 0 := by
  have hle : segs.length ≤ 2 ^ 32 := by
    rw [hlength]
    unfold kNoSeg
    omega
  unfold traceAll at h
  rw [hlength, List.range_succ, List.foldlM_append] at h
  cases hrun : (List.range kNoSeg).foldlM (traceStep segs) (fun _ => false, []) with
  | none =>
    rw [hrun] at h
    cases h
  | some st =>
    obtain ⟨hlast, hall⟩ := rounds_before_last (Nat.le_refl _) hrun
    have hused : ∀ s < segs.length, Function.update st.1 kNoSeg true s = true := by
      intro s hs
      by_cases hsk : s = kNoSeg
      · rw [hsk, Function.update_self]
      · rw [Function.update_of_ne hsk]
        exact hall s (by omega)
    have hnone := pick_of_all_used hle hused
    have hloop : (ends segs kNoSeg).1 ≠ (ends segs kNoSeg).2 := ends_ne hwelded (by omega)
    have htrace : traceFrom segs st.1 kNoSeg = some
        ⟨Function.update st.1 kNoSeg true, [(ends segs kNoSeg).1, (ends segs kNoSeg).2], false⟩ := by
      unfold traceFrom walkForward walkBackward
      dsimp only
      rw [if_neg, if_pos (hnone _)]
      · dsimp only
        rw [if_neg Bool.false_ne_true, if_pos (hnone _)]
        rfl
      · exact hloop.symm
    have hstep : traceStep segs st kNoSeg = some (Function.update st.1 kNoSeg true,
        st.2 ++ [⟨Function.update st.1 kNoSeg true, [(ends segs kNoSeg).1, (ends segs kNoSeg).2], false⟩]) := by
      unfold traceStep
      rw [if_neg (Bool.eq_false_iff.mp hlast), htrace]
      rfl
    simp only [hrun, hstep, Option.bind_eq_bind, Option.bind_some, List.foldlM_cons, List.foldlM_nil,
      Option.pure_def, Option.map_some] at h
    obtain rfl := Option.some.inj h
    unfold openChains
    rw [List.countP_append, List.countP_singleton, Bool.not_false, if_pos rfl]
    exact Nat.succ_ne_zero _

/-- All segments between two groups of `m` nodes. -/
def bipartite (m : ℕ) : List WeldedSeg := (List.range m ×ˢ List.range m).map fun t => ⟨t.1, m + t.2⟩

theorem bipartite_welded (m : ℕ) : Welded (bipartite m) := by
  constructor
  · intro seg hseg
    obtain ⟨t, ht, rfl⟩ := List.mem_map.mp hseg
    have hlt := List.mem_range.mp (List.mem_product.mp ht).1
    show t.1 ≠ m + t.2
    omega
  · unfold bipartite
    rw [List.map_map]
    refine List.Nodup.map_on ?_ (List.nodup_range.product List.nodup_range)
    intro t ht t' ht' hkey
    have hlt := List.mem_range.mp (List.mem_product.mp ht).1
    have hlt' := List.mem_range.mp (List.mem_product.mp ht').1
    obtain ⟨hmin, hmax⟩ := Prod.mk.inj hkey
    dsimp only at hmin hmax
    exact Prod.ext (by omega) (by omega)

theorem bipartite_length (m : ℕ) : (bipartite m).length = m * m := by
  unfold bipartite
  rw [List.length_map, List.length_product, List.length_range]

theorem degree_range (node : ℕ) :
    Trail.degree (ends segs) (List.range segs.length) node =
      segs.countP fun seg => decide (node = seg.a ∨ node = seg.b) := by
  have hcount := List.countP_map (p := fun seg : WeldedSeg => decide (node = seg.a ∨ node = seg.b))
    (f := fun s => segs.getD s ⟨0, 0⟩) (l := List.range segs.length)
  rw [map_getD_range] at hcount
  rw [hcount]
  rfl

theorem oddNodes_bipartite {m : ℕ} (hm : 2 ∣ m) : oddNodes (bipartite m) = ∅ := by
  apply Finset.eq_empty_of_forall_notMem
  intro node hnode
  unfold oddNodes at hnode
  rw [Trail.mem_oddNodes, degree_range] at hnode
  have hrows : (bipartite m).countP (fun seg => decide (node = seg.a ∨ node = seg.b)) =
      ((List.range m).map fun i => (List.range m).countP fun j => decide (node = i ∨ node = m + j)).sum := by
    unfold bipartite
    rw [List.countP_map]
    show ((List.range m).flatMap fun i => (List.range m).map (Prod.mk i)).countP _ = _
    rw [List.countP_flatMap]
    congr 1
    apply List.map_congr_left
    intro i _
    exact List.countP_map
  have heven : 2 ∣ ((List.range m).map fun i => (List.range m).countP fun j => decide (node = i ∨ node = m + j)).sum := by
    by_cases hlow : node < m
    · -- the row of the node counts all its `m` segments, the other rows none
      apply List.dvd_sum
      intro count hcount
      obtain ⟨i, -, rfl⟩ := List.mem_map.mp hcount
      by_cases hi : node = i
      · have hall : (List.range m).countP (fun j => decide (node = i ∨ node = m + j)) = (List.range m).length :=
          List.countP_eq_length.mpr fun j _ => decide_eq_true (Or.inl hi)
        rw [hall, List.length_range]
        exact hm
      · have hnone : (List.range m).countP (fun j => decide (node = i ∨ node = m + j)) = 0 := by
          apply List.countP_eq_zero.mpr
          intro j _
          rw [decide_eq_true_iff]
          omega
        rw [hnone]
        exact Nat.dvd_zero 2
    · -- every row counts the same
      have hconst : ((List.range m).map fun i => (List.range m).countP fun j => decide (node = i ∨ node = m + j)) =
          (List.range m).map fun _ => (List.range m).countP fun j => decide (node = m + j) := by
        apply List.map_congr_left
        intro i hi
        apply List.countP_congr
        intro j _
        have hlt := List.mem_range.mp hi
        rw [decide_eq_true_iff, decide_eq_true_iff]
        omega
      rw [hconst, List.map_const', List.sum_replicate_nat, List.length_range]
      exact Dvd.dvd.mul_right hm _
  rw [hrows] at hnode
  omega

/-- All degrees are even, but a contour stays open: the last segment has the index `kNoSeg`. -/
theorem last_segment_not_walked :
    Welded (bipartite 65536) ∧ oddNodes (bipartite 65536) = ∅ ∧
      ¬∃ chains, traceAll (bipartite 65536) = some chains ∧ openChains chains = 0 := by
  have hwelded := bipartite_welded 65536
  refine ⟨hwelded, oddNodes_bipartite (by decide), ?_⟩
  rintro ⟨chains, hrun, hopen⟩
  have hlength : (bipartite 65536).length = kNoSeg + 1 := bipartite_length 65536
  exact last_segment_open hwelded hlength hrun hopen

end

end Souxmar.Am.Slicer
