import Mathlib.Data.Sym.Sym2
import Souxmar.Am.Chaining
import Souxmar.Lib.Intern

/-!
# Welding

Where two points are the same or farther apart than the tolerance, the grid numbers the points in the order of their
first occurrence. Then no segment is dropped.
-/

namespace Souxmar.Am.Slicer

open Souxmar.Lib

section

variable {K : Type*} [Field K] [LinearOrder K]

/-- Points that are not the same are not within the tolerance. -/
def Spread (tol : K) (all : List (Point2 K)) : Prop :=
  ∀ p ∈ all, ∀ q ∈ all, p ≠ q → tol * tol < (q.u - p.u) * (q.u - p.u) + (q.v - p.v) * (q.v - p.v)

/-- No id reaches `kNoNode`. -/
def Numerable (all : List (Point2 K)) : Prop :=
  ∀ l : List (Point2 K), l.Nodup → (∀ p ∈ l, p ∈ all) → l.length ≤ kNoNode

variable [FloorRing K]

/-- Each bucket holds the ids of the points with its key. -/
structure Sound (tol : K) (all : List (Point2 K)) (g : WeldGrid K) : Prop where
  tol : g.tol = tol
  nodup : g.points.Nodup
  members : ∀ p ∈ g.points, p ∈ all
  buckets : ∀ key i, i ∈ g.buckets key ↔ i < g.points.length ∧ g.keyOf (g.points.getD i ⟨0, 0⟩) = key

/-! ## One point -/

theorem foldl_lowest {l : List ℕ} {i : ℕ} (hall : ∀ j ∈ l, j = i) (hi : i < kNoNode) :
    l.foldl (fun best idx => if idx < best then idx else best) kNoNode = if l = [] then kNoNode else i := by
  have hfixed : ∀ l : List ℕ, (∀ j ∈ l, j = i) → l.foldl (fun best idx => if idx < best then idx else best) i = i := by
    intro l hl
    induction l with
    | nil => rfl
    | cons j l ih =>
      obtain ⟨hj, hl⟩ := List.forall_mem_cons.mp hl
      rw [List.foldl_cons, hj, if_neg (lt_irrefl i)]
      exact ih hl
  cases l with
  | nil => rfl
  | cons j l =>
    obtain ⟨hj, hl⟩ := List.forall_mem_cons.mp hall
    rw [List.foldl_cons, hj, if_pos hi, if_neg (List.cons_ne_nil _ _)]
    exact hfixed l hl

theorem buckets_insert {g : WeldGrid K}
    (hs : ∀ key i, i ∈ g.buckets key ↔ i < g.points.length ∧ g.keyOf (g.points.getD i ⟨0, 0⟩) = key) (p : Point2 K)
    (key : ℤ × ℤ) (i : ℕ) :
    i ∈ Function.update g.buckets (g.keyOf p) (g.buckets (g.keyOf p) ++ [g.points.length]) key ↔
      i < (g.points ++ [p]).length ∧ g.keyOf ((g.points ++ [p]).getD i ⟨0, 0⟩) = key := by
  have hupdate : i ∈ Function.update g.buckets (g.keyOf p) (g.buckets (g.keyOf p) ++ [g.points.length]) key ↔
      i ∈ g.buckets key ∨ (g.keyOf p = key ∧ i = g.points.length) := by
    by_cases hkey : g.keyOf p = key
    · rw [hkey, Function.update_self, List.mem_append, List.mem_singleton, and_iff_right rfl]
    · rw [Function.update_of_ne (Ne.symm hkey), or_iff_left fun h => hkey h.1]
  rw [hupdate, hs, List.length_append, List.length_singleton, List.getD_eq_getElem?_getD, List.getD_eq_getElem?_getD]
  rcases Nat.lt_trichotomy i g.points.length with hlt | rfl | hgt
  · rw [List.getElem?_append_left hlt, or_iff_left fun h => hlt.ne h.2, and_iff_right hlt,
      and_iff_right (Nat.lt_succ_of_lt hlt)]
  · rw [List.getElem?_concat_length, or_iff_right fun h => lt_irrefl _ h.1, and_iff_left rfl,
      and_iff_right (Nat.lt_succ_self _)]
    rfl
  · rw [or_iff_left fun h => hgt.ne' h.2]
    exact iff_of_false (fun h => h.1.not_gt hgt) fun h => h.1.not_ge hgt

variable [IsStrictOrderedRing K] {tol : K} {all : List (Point2 K)} (hspread : Spread tol all)

include hspread

theorem mem_near {g : WeldGrid K} (hs : Sound tol all g) {p : Point2 K} (hp : p ∈ all) {i : ℕ} :
    i ∈ g.near p ↔ i < g.points.length ∧ g.points.getD i ⟨0, 0⟩ = p := by
  have hclose : ∀ i < g.points.length, g.close p i = true ↔ g.points.getD i ⟨0, 0⟩ = p := by
    intro i hi
    unfold WeldGrid.close
    dsimp only
    rw [decide_eq_true_iff, hs.tol]
    constructor
    · intro hle
      by_contra hne
      have hmem : g.points.getD i ⟨0, 0⟩ ∈ all := by
        rw [List.getD_eq_getElem?_getD, List.getElem?_eq_getElem hi]
        exact hs.members _ (List.getElem_mem hi)
      exact (hspread _ hp _ hmem (Ne.symm hne)).not_ge hle
    · rintro heq
      rw [heq, sub_self, sub_self, mul_zero, add_zero]
      exact mul_self_nonneg tol
  unfold WeldGrid.near
  dsimp only
  rw [List.mem_filter, List.mem_flatMap]
  constructor
  · rintro ⟨⟨di, -, hi⟩, hwithin⟩
    obtain ⟨dj, -, hi⟩ := List.mem_flatMap.mp hi
    obtain ⟨hlt, -⟩ := (hs.buckets _ i).mp hi
    exact ⟨hlt, (hclose i hlt).mp hwithin⟩
  · rintro ⟨hlt, heq⟩
    refine ⟨⟨0, by decide, List.mem_flatMap.mpr ⟨0, by decide, ?_⟩⟩, (hclose i hlt).mpr heq⟩
    rw [add_zero, add_zero]
    exact (hs.buckets _ i).mpr ⟨hlt, by rw [heq]⟩

theorem weld_spec (hnumerable : Numerable all) {g : WeldGrid K} (hs : Sound tol all g) {p : Point2 K} (hp : p ∈ all) :
    (g.weld p).1.points = Intern.intern g.points p ∧ (g.weld p).2 = (Intern.intern g.points p).idxOf p ∧
      Sound tol all (g.weld p).1 := by
  have hlength : g.points.length ≤ kNoNode := hnumerable _ hs.nodup hs.members
  unfold WeldGrid.weld
  dsimp only
  by_cases hmem : p ∈ g.points
  · have hlt : g.points.idxOf p < g.points.length := List.idxOf_lt_length_of_mem hmem
    have hthere : g.points.idxOf p ∈ g.near p :=
      (mem_near hspread hs hp).mpr ⟨hlt, Intern.getD_idxOf hmem _⟩
    have honly : ∀ j ∈ g.near p, j = g.points.idxOf p := by
      intro j hj
      obtain ⟨hjlt, hget⟩ := (mem_near hspread hs hp).mp hj
      rw [List.getD_eq_getElem?_getD, List.getElem?_eq_getElem hjlt] at hget
      exact (Intern.eq_idxOf_iff hs.nodup hjlt hmem).mpr hget
    have hid := hlt.trans_le hlength
    rw [foldl_lowest honly hid, if_neg (List.ne_nil_of_mem hthere), if_pos (Nat.ne_of_lt hid), Intern.intern_of_mem hmem]
    exact ⟨rfl, rfl, hs⟩
  · have hnone : g.near p = [] := by
      apply List.eq_nil_iff_forall_not_mem.mpr
      intro j hj
      obtain ⟨hjlt, rfl⟩ := (mem_near hspread hs hp).mp hj
      rw [List.getD_eq_getElem?_getD, List.getElem?_eq_getElem hjlt] at hmem
      exact hmem (List.getElem_mem hjlt)
    have hgrown := Intern.nodup_intern hs.nodup p
    have hmembers : ∀ q ∈ Intern.intern g.points p, q ∈ all := by
      intro q hq
      rcases Intern.mem_intern.mp hq with hq | rfl
      · exact hs.members q hq
      · exact hp
    have hroom := hnumerable _ hgrown hmembers
    rw [Intern.idxOf_intern_of_notMem hmem]
    rw [Intern.intern_of_notMem hmem] at hgrown hmembers hroom ⊢
    rw [List.length_append, List.length_singleton] at hroom
    have hid : g.points.length % 2 ^ 32 = g.points.length := by
      unfold kNoNode at hroom
      exact Nat.mod_eq_of_lt (by omega)
    rw [hnone, List.foldl_nil, if_neg fun h => h rfl, hid]
    exact ⟨rfl, rfl, hs.tol, hgrown, hmembers, buckets_insert hs.buckets p⟩

theorem weld_pair (hnumerable : Numerable all) {g : WeldGrid K} (hs : Sound tol all g) {p q : Point2 K} (hp : p ∈ all)
    (hq : q ∈ all) :
    ∃ grid, ((g.weld p).1.weld q).1 = grid ∧ Sound tol all grid ∧ g.points <+: grid.points ∧
      (∀ x, x ∈ grid.points ↔ x ∈ g.points ∨ x = p ∨ x = q) ∧ (g.weld p).2 = grid.points.idxOf p ∧
      ((g.weld p).1.weld q).2 = grid.points.idxOf q := by
  obtain ⟨hpoints₁, hid₁, hsound₁⟩ := weld_spec hspread hnumerable hs hp
  obtain ⟨hpoints₂, hid₂, hsound₂⟩ := weld_spec hspread hnumerable hsound₁ hq
  rw [hpoints₁] at hpoints₂ hid₂
  have hlater := Intern.prefix_intern (Intern.intern g.points p) q
  refine ⟨_, rfl, hsound₂, ?_, fun x => ?_, ?_, ?_⟩
  · rw [hpoints₂]
    exact (Intern.prefix_intern g.points p).trans hlater
  · rw [hpoints₂, Intern.mem_intern, Intern.mem_intern, or_assoc]
  · rw [hid₁, hpoints₂]
    exact hlater.idxOf_eq_of_mem (Intern.mem_intern_self _ _)
  · rw [hid₂, hpoints₂]

/-! ## All segments -/

/-- The segment between the numbers of its ends. -/
def numbered (points : List (Point2 K)) (r : Point2 K × Point2 K) : WeldedSeg := ⟨points.idxOf r.1, points.idxOf r.2⟩

omit [FloorRing K] [IsStrictOrderedRing K] hspread [Field K] in
theorem numbered_mono {points points' : List (Point2 K)} (hgrown : points <+: points') {r : Point2 K × Point2 K}
    (h₁ : r.1 ∈ points) (h₂ : r.2 ∈ points) : numbered points' r = numbered points r := by
  unfold numbered
  rw [hgrown.idxOf_eq_of_mem h₁, hgrown.idxOf_eq_of_mem h₂]

omit [FloorRing K] [IsStrictOrderedRing K] hspread [Field K] in
theorem ends_of_key {points : List (Point2 K)} {r r' : Point2 K × Point2 K} (h₁ : r.1 ∈ points) (h₂ : r.2 ∈ points)
    (hkey : (numbered points r).key = (numbered points r').key) : s(r.1, r.2) = s(r'.1, r'.2) := by
  obtain ⟨hmin, hmax⟩ := Prod.mk.inj hkey
  unfold numbered at hmin hmax
  dsimp only at hmin hmax
  have hsame : (points.idxOf r.1 = points.idxOf r'.1 ∧ points.idxOf r.2 = points.idxOf r'.2) ∨
      (points.idxOf r.1 = points.idxOf r'.2 ∧ points.idxOf r.2 = points.idxOf r'.1) := by
    omega
  apply Sym2.eq_iff.mpr
  rcases hsame with ⟨ha, hb⟩ | ⟨ha, hb⟩
  · exact Or.inl ⟨(List.idxOf_inj h₁).mp ha, (List.idxOf_inj h₂).mp hb⟩
  · exact Or.inr ⟨(List.idxOf_inj h₁).mp ha, (List.idxOf_inj h₂).mp hb⟩

/-- The welding after these segments. -/
structure Welds (tol : K) (all : List (Point2 K)) (ls : LayerSlice K) (done : List (Point2 K × Point2 K))
    (s : Welding K) : Prop where
  sound : Sound tol all s.grid
  points : ∀ p, p ∈ s.grid.points ↔ p ∈ Intern.ends done
  segs : s.segs = done.map (numbered s.grid.points)
  seen : s.seen = s.segs.map WeldedSeg.key
  ls : s.ls = ls

variable (hnumerable : Numerable all) {ls : LayerSlice K} {done : List (Point2 K × Point2 K)}

include hnumerable in
theorem Welds.step {s : Welding K} (hs : Welds tol all ls done s) {r : Point2 K × Point2 K} (h₁ : r.1 ∈ all)
    (h₂ : r.2 ∈ all) (hloop : r.1 ≠ r.2) (hfresh : s(r.1, r.2) ∉ done.map fun r => s(r.1, r.2)) :
    Welds tol all ls (done ++ [r]) (weldStep s r) := by
  obtain ⟨grid, hgrid, hsound, hgrown, hmem, ha, hb⟩ := weld_pair hspread hnumerable hs.sound h₁ h₂
  have hends : r.1 ∈ grid.points ∧ r.2 ∈ grid.points :=
    ⟨(hmem r.1).mpr (Or.inr (Or.inl rfl)), (hmem r.2).mpr (Or.inr (Or.inr rfl))⟩
  have hpoints : ∀ p, p ∈ grid.points ↔ p ∈ Intern.ends (done ++ [r]) := by
    intro p
    rw [hmem, hs.points, Intern.ends_concat, List.mem_append, List.mem_cons, List.mem_singleton]
  have hsegs : s.segs = done.map (numbered grid.points) := by
    rw [hs.segs]
    apply List.map_congr_left
    intro r' hr'
    have hr'₁ := (hs.points r'.1).mpr (Intern.mem_ends.mpr ⟨r', hr', Or.inl rfl⟩)
    have hr'₂ := (hs.points r'.2).mpr (Intern.mem_ends.mpr ⟨r', hr', Or.inr rfl⟩)
    exact (numbered_mono hgrown hr'₁ hr'₂).symm
  have hne : grid.points.idxOf r.1 ≠ grid.points.idxOf r.2 := fun heq => hloop ((List.idxOf_inj hends.1).mp heq)
  have hnew : (min (grid.points.idxOf r.1) (grid.points.idxOf r.2), max (grid.points.idxOf r.1) (grid.points.idxOf r.2)) ∉
      s.seen := by
    intro hold
    rw [hs.seen, hsegs, List.map_map] at hold
    obtain ⟨r', hr', hkey⟩ := List.mem_map.mp hold
    exact hfresh (List.mem_map.mpr ⟨r', hr', (ends_of_key hends.1 hends.2 hkey.symm).symm⟩)
  unfold weldStep
  dsimp only
  rw [ha, hb, hgrid, if_neg hne, if_neg hnew]
  refine ⟨hsound, hpoints, ?_, ?_, hs.ls⟩
  · dsimp only
    rw [hsegs, List.map_append, List.map_singleton]
    rfl
  · dsimp only
    rw [hs.seen, List.map_append, List.map_singleton]
    rfl

include hnumerable in
theorem Welds.run {s : Welding K} (hs : Welds tol all ls done s) {raw : List (Point2 K × Point2 K)}
    (hmem : ∀ r ∈ raw, r.1 ∈ all ∧ r.2 ∈ all) (hloop : ∀ r ∈ raw, r.1 ≠ r.2)
    (hnodup : ((done ++ raw).map fun r => s(r.1, r.2)).Nodup) :
    Welds tol all ls (done ++ raw) (raw.foldl weldStep s) := by
  induction raw generalizing s done with
  | nil =>
    rw [List.append_nil]
    exact hs
  | cons r raw ih =>
    obtain ⟨⟨h₁, h₂⟩, hmem⟩ := List.forall_mem_cons.mp hmem
    obtain ⟨hr, hloop⟩ := List.forall_mem_cons.mp hloop
    rw [List.append_cons] at hnodup ⊢
    have hfresh : s(r.1, r.2) ∉ done.map fun r => s(r.1, r.2) := by
      rw [List.map_append, List.map_append, List.map_singleton] at hnodup
      have hfront := hnodup.of_append_left
      exact fun hold => (List.disjoint_of_nodup_append hfront) hold (List.mem_singleton_self _)
    exact ih (hs.step hspread hnumerable h₁ h₂ hr hfresh) hmem hloop hnodup

omit hspread in
/-- Spread segments without loops and repetitions are numbered, and none is dropped. -/
theorem weldAll_numbered {raw : List (Point2 K × Point2 K)} (hspread : Spread tol (Intern.ends raw))
    (hnumerable : Numerable (Intern.ends raw)) (hloop : ∀ r ∈ raw, r.1 ≠ r.2)
    (hnodup : (raw.map fun r => s(r.1, r.2)).Nodup) (ls : LayerSlice K) :
    Welds tol (Intern.ends raw) ls raw (weldAll raw tol ls) := by
  have hstart : ∀ cell : K, Welds tol (Intern.ends raw) ls [] ⟨⟨cell, tol, fun _ => [], []⟩, [], [], ls⟩ := by
    intro cell
    refine ⟨⟨rfl, List.nodup_nil, fun p hp => absurd hp List.not_mem_nil, fun key i => ?_⟩, fun p => Iff.rfl, rfl, rfl,
      rfl⟩
    exact iff_of_false List.not_mem_nil fun h => Nat.not_lt_zero i h.1
  have hmem : ∀ r ∈ raw, r.1 ∈ Intern.ends raw ∧ r.2 ∈ Intern.ends raw := fun r hr =>
    ⟨Intern.mem_ends.mpr ⟨r, hr, Or.inl rfl⟩, Intern.mem_ends.mpr ⟨r, hr, Or.inr rfl⟩⟩
  exact (hstart _).run hspread hnumerable hmem hloop hnodup

end

end Souxmar.Am.Slicer
