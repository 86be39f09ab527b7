import Mathlib.Algebra.BigOperators.Ring.List
import Mathlib.Algebra.Order.Field.Basic
import Mathlib.Algebra.Order.Floor.Ring
import Mathlib.Data.Rat.Floor
import Mathlib.Tactic.LinearCombination
import Mathlib.Tactic.Linarith
import Mathlib.Tactic.Ring
import Souxmar.Am.Slicing
import Souxmar.Lib.EvenOdd

/-!
# Infill

`build_infill` fills the closed contours of a layer with the lines of the lattice `s = k * spacing`. In exact
arithmetic its lines cover the even-odd interior, but for slivers.
-/

namespace Souxmar.Am.Slicer

open Souxmar.Lib

variable {K : Type*} [Field K] [LinearOrder K]

structure ScanLine (K : Type*) where
  a : Point2 K
  b : Point2 K

/-- The scan direction. -/
structure Direction (K : Type*) where
  dx : K
  dy : K

def kMaxScanlinesPerLayer : ℤ := 100000

/-! ## The scan -/

def kPi : K := 3.14159265358979323846

section

variable (d : Direction K)

/-- The coordinate across the scan direction. -/
def Direction.across (p : Point2 K) : K := p.u * -d.dy + p.v * d.dx

/-- A point of a scanline. -/
def Direction.point (s t : K) : Point2 K := ⟨t * d.dx + s * -d.dy, t * d.dy + s * d.dx⟩

/-- The edges of the closed contours. -/
def infillEdges (ls : LayerSlice K) : List (Point2 K × Point2 K) :=
  (ls.contours.filter fun c => c.closed).flatMap fun c =>
    (List.range c.points.length).map fun i =>
      (c.points.getD i ⟨0, 0⟩, c.points.getD ((i + 1) % c.points.length) ⟨0, 0⟩)

/-- The half-open rule. -/
def scanHit (s s0 s1 : K) : Prop := (s0 ≤ s ∧ s < s1) ∨ (s1 ≤ s ∧ s < s0)

instance (s s0 s1 : K) : Decidable (scanHit s s0 s1) := inferInstanceAs (Decidable (_ ∨ _))

/-- Where an edge meets the scanline. -/
def crossingAt (s : K) (e : Point2 K × Point2 K) : K :=
  let t := (s - d.across e.1) / (d.across e.2 - d.across e.1)
  let pu := e.1.u + t * (e.2.u - e.1.u)
  let pv := e.1.v + t * (e.2.v - e.1.v)
  pu * d.dx + pv * d.dy

/-- Coordinate, then edge id. -/
def crossingLess (l r : K × ℕ) : Prop := if l.1 ≠ r.1 then l.1 < r.1 else l.2 < r.2

instance (l r : K × ℕ) : Decidable (crossingLess l r) :=
  inferInstanceAs (Decidable (if l.1 ≠ r.1 then l.1 < r.1 else l.2 < r.2))

/-- The crossings of a scanline, sorted. Edge ids are 32 bits wide. -/
def crossings (ls : LayerSlice K) (s : K) : List (K × ℕ) :=
  ((infillEdges ls).zipIdx.filterMap fun t =>
    if scanHit s (d.across t.1.1) (d.across t.1.2) then some (crossingAt d s t.1, t.2 % 2 ^ 32)
    else none).insertionSort fun l r => ¬crossingLess r l

/-- The segments of one scanline: a pair of crossings makes one, unless it is a sliver. -/
def scanLines (ls : LayerSlice K) (spacing : K) (k0 k : ℤ) : List (ScanLine K) :=
  let s := k * spacing
  ((EvenOdd.pairs (crossings d ls s)).filter fun c => ¬c.2.1 - c.1.1 < 1e-9).map fun c =>
    let a := d.point s c.1.1
    let b := d.point s c.2.1
    if (k - k0) % 2 ≠ 0 then ⟨b, a⟩ else ⟨a, b⟩

end

def scanDirection (cos sin : K → K) (angleDeg : K) : Direction K :=
  let a := angleDeg * kPi / 180.0
  ⟨cos a, sin a⟩

/-- `static_cast<long long>` of a double without a fraction. Out of range it gives the least `long long`, as on
x86. -/
def castLongLong (x : ℤ) : ℤ :=
  if -9223372036854775808 ≤ x ∧ x ≤ 9223372036854775807 then x else -9223372036854775808

/-- The lines, and whether the layer was over the cap. -/
def buildInfill [FloorRing K] (cos sin : K → K) (ls : LayerSlice K) (angleDeg spacing : K) : List (ScanLine K) × Bool :=
  if ¬spacing > 0 then ([], false)
  else
    let d := scanDirection cos sin angleDeg
    match ((ls.contours.filter fun c => c.closed).flatMap fun c => c.points).map d.across with
    | [] => ([], false)
    | s :: rest =>
      let k0d := ⌈rest.foldl min s / spacing⌉
      let k1d := ⌊rest.foldl max s / spacing⌋
      if ¬k1d ≥ k0d then ([], false)
      else if k1d - k0d + 1 > kMaxScanlinesPerLayer then ([], true)
      else
        let k0 := castLongLong k0d
        let k1 := castLongLong k1d
        ((List.range (k1 - k0 + 1).toNat).flatMap fun (i : ℕ) => scanLines d ls spacing k0 (k0 + i), false)

/-- The point lies on the line. -/
def ScanLine.Covers (l : ScanLine K) (p : Point2 K) : Prop :=
  ∃ r, 0 ≤ r ∧ r ≤ 1 ∧ p.u = l.a.u + r * (l.b.u - l.a.u) ∧ p.v = l.a.v + r * (l.b.v - l.a.v)

/-- The edges that the scanline hits. -/
def hitEdges (d : Direction K) (ls : LayerSlice K) (s : K) : List (Point2 K × Point2 K) :=
  (infillEdges ls).filter fun e => scanHit s (d.across e.1) (d.across e.2)

/-- The edge has one point on the scanline, the one at `t`. -/
def MeetsAt (d : Direction K) (s : K) (e : Point2 K × Point2 K) (t : K) : Prop :=
  ∀ t', ScanLine.Covers ⟨e.1, e.2⟩ (d.point s t') ↔ t' = t

/-- The numbers of the scanlines through the layer are `long long`s. -/
def Fits (d : Direction K) (ls : LayerSlice K) (spacing : K) : Prop :=
  ∀ p ∈ (ls.contours.filter fun c => c.closed).flatMap fun c => c.points,
    -9223372036854775808 ≤ d.across p / spacing ∧ d.across p / spacing < 9223372036854775807

/-! ## Crossings come in pairs -/

omit [Field K] in
theorem scanHit_iff {s s0 s1 : K} : scanHit s s0 s1 ↔ (decide (s0 ≤ s) != decide (s1 ≤ s)) = true := by
  unfold scanHit
  rw [bne_iff_ne, ne_eq, decide_eq_decide, ← not_le, ← not_le]
  tauto

section

variable (d : Direction K) (ls : LayerSlice K) (s : K)

theorem length_crossings :
    (crossings d ls s).length =
      (infillEdges ls).countP fun e => decide (scanHit s (d.across e.1) (d.across e.2)) := by
  unfold crossings
  rw [List.length_insertionSort, List.length_filterMap_eq_countP]
  have hcount := List.countP_map (p := fun e => decide (scanHit s (d.across e.1) (d.across e.2)))
    (f := Prod.fst) (l := (infillEdges ls).zipIdx)
  rw [List.zipIdx_map_fst] at hcount
  rw [hcount]
  apply List.countP_congr
  intro t _
  by_cases hhit : scanHit s (d.across t.1.1) (d.across t.1.2)
  · rw [if_pos hhit]
    exact iff_of_true rfl (decide_eq_true hhit)
  · rw [if_neg hhit]
    exact iff_of_false Bool.false_ne_true (by rw [Function.comp_apply, decide_eq_true_iff]; exact hhit)

theorem crossings_even : Even (crossings d ls s).length := by
  rw [length_crossings]
  unfold infillEdges
  rw [List.countP_flatMap, even_iff_two_dvd]
  apply List.dvd_sum
  intro count hcount
  obtain ⟨c, -, rfl⟩ := List.mem_map.mp hcount
  have hchanges := EvenOdd.changes_cycle (fun i => decide (d.across (c.points.getD i ⟨0, 0⟩) ≤ s)) c.points.length
  rw [Function.comp_apply, List.countP_map, ← even_iff_two_dvd]
  have hsame : (List.range c.points.length).countP
      ((fun e : Point2 K × Point2 K => decide (scanHit s (d.across e.1) (d.across e.2))) ∘ fun i =>
        (c.points.getD i ⟨0, 0⟩, c.points.getD ((i + 1) % c.points.length) ⟨0, 0⟩)) =
      (List.range c.points.length).countP fun i =>
        decide (d.across (c.points.getD i ⟨0, 0⟩) ≤ s) !=
          decide (d.across (c.points.getD ((i + 1) % c.points.length) ⟨0, 0⟩) ≤ s) := by
    apply List.countP_congr
    intro i _
    rw [Function.comp_apply, decide_eq_true_iff]
    exact scanHit_iff
  rw [hsame]
  exact hchanges

theorem crossings_sorted : ((crossings d ls s).map Prod.fst).Pairwise (· ≤ ·) := by
  have hle : ∀ l r : K × ℕ, ¬crossingLess r l ↔ l.1 < r.1 ∨ (l.1 = r.1 ∧ l.2 ≤ r.2) := by
    intro l r
    unfold crossingLess
    split_ifs with hne
    · rw [not_lt, or_iff_left (fun h => hne h.1.symm)]
      exact (lt_iff_le_and_ne.trans (and_iff_left (Ne.symm hne))).symm
    · rw [not_ne_iff] at hne
      rw [not_lt, hne, or_iff_right (lt_irrefl _), and_iff_right rfl]
  have htotal : Std.Total fun l r : K × ℕ => ¬crossingLess r l := by
    refine ⟨fun l r => ?_⟩
    rw [hle, hle]
    rcases lt_trichotomy l.1 r.1 with h | h | h
    · exact Or.inl (Or.inl h)
    · exact (le_total l.2 r.2).imp (fun hid => Or.inr ⟨h, hid⟩) fun hid => Or.inr ⟨h.symm, hid⟩
    · exact Or.inr (Or.inl h)
  have htrans : IsTrans (K × ℕ) fun l r => ¬crossingLess r l := by
    refine ⟨fun a b c hab hbc => ?_⟩
    rw [hle] at hab hbc ⊢
    rcases hab with hab | ⟨hab, hab'⟩
    · rcases hbc with hbc | ⟨hbc, -⟩
      · exact Or.inl (hab.trans hbc)
      · exact Or.inl (hbc ▸ hab)
    · rcases hbc with hbc | ⟨hbc, hbc'⟩
      · exact Or.inl (hab ▸ hbc)
      · exact Or.inr ⟨hab.trans hbc, hab'.trans hbc'⟩
  apply List.pairwise_map.mpr
  unfold crossings
  apply (List.pairwise_insertionSort _ _).imp
  intro l r hlr
  rcases (hle l r).mp hlr with h | h
  · exact h.le
  · exact h.1.le

end

/-! ## The lattice -/

omit [Field K] in
theorem foldl_min_le {s : K} {rest : List K} : ∀ x ∈ s :: rest, rest.foldl min s ≤ x := by
  induction rest generalizing s with
  | nil =>
    intro x hx
    rw [List.mem_singleton.mp hx]
    exact le_refl s
  | cons r rest ih =>
    have hacc := ih (s := min s r)
    rw [List.forall_mem_cons] at hacc
    rw [List.forall_mem_cons, List.forall_mem_cons]
    exact ⟨hacc.1.trans (min_le_left s r), hacc.1.trans (min_le_right s r), hacc.2⟩

omit [Field K] in
theorem le_foldl_max {s : K} {rest : List K} : ∀ x ∈ s :: rest, x ≤ rest.foldl max s := by
  induction rest generalizing s with
  | nil =>
    intro x hx
    rw [List.mem_singleton.mp hx]
    exact le_refl s
  | cons r rest ih =>
    have hacc := ih (s := max s r)
    rw [List.forall_mem_cons] at hacc
    rw [List.forall_mem_cons, List.forall_mem_cons]
    exact ⟨(le_max_left s r).trans hacc.1, (le_max_right s r).trans hacc.1, hacc.2⟩

omit [Field K] [LinearOrder K] in
theorem foldl_mem {f : K → K → K} (hf : ∀ a b, f a b = a ∨ f a b = b) (s : K) (rest : List K) :
    rest.foldl f s ∈ s :: rest := by
  induction rest generalizing s with
  | nil => exact List.mem_singleton_self s
  | cons r rest ih =>
    rw [List.foldl_cons]
    rcases List.mem_cons.mp (ih (f s r)) with hacc | hrest
    · rw [hacc]
      rcases hf s r with h | h
      · rw [h]
        exact List.mem_cons_self
      · rw [h]
        exact List.mem_cons_of_mem _ List.mem_cons_self
    · exact List.mem_cons_of_mem _ (List.mem_cons_of_mem _ hrest)

theorem mem_crossings {d : Direction K} {ls : LayerSlice K} {s : K} {c : K × ℕ} (hc : c ∈ crossings d ls s) :
    (∃ p ∈ (ls.contours.filter fun c => c.closed).flatMap fun c => c.points, d.across p ≤ s) ∧
      ∃ p ∈ (ls.contours.filter fun c => c.closed).flatMap fun c => c.points, s < d.across p := by
  unfold crossings at hc
  rw [List.mem_insertionSort, List.mem_filterMap] at hc
  obtain ⟨⟨e, id⟩, he, hsome⟩ := hc
  dsimp only at hsome
  split_ifs at hsome with hhit
  have hedge := List.fst_mem_of_mem_zipIdx he
  unfold infillEdges at hedge
  obtain ⟨contour, hcontour, hmem⟩ := List.mem_flatMap.mp hedge
  obtain ⟨i, hi, rfl⟩ := List.mem_map.mp hmem
  have hlt := List.mem_range.mp hi
  have hlt' : (i + 1) % contour.points.length < contour.points.length := Nat.mod_lt _ (Nat.zero_lt_of_lt hlt)
  have hends : ∀ j < contour.points.length, contour.points.getD j ⟨0, 0⟩ ∈
      (ls.contours.filter fun c => c.closed).flatMap fun c => c.points := by
    intro j hj
    rw [List.getD_eq_getElem?_getD, List.getElem?_eq_getElem hj]
    exact List.mem_flatMap.mpr ⟨contour, hcontour, List.getElem_mem hj⟩
  rcases hhit with ⟨hle, hgt⟩ | ⟨hle, hgt⟩
  · exact ⟨⟨_, hends i hlt, hle⟩, ⟨_, hends _ hlt', hgt⟩⟩
  · exact ⟨⟨_, hends _ hlt', hle⟩, ⟨_, hends i hlt, hgt⟩⟩

section

variable [IsStrictOrderedRing K]

theorem covers_iff {d : Direction K} (hunit : d.dx * d.dx + d.dy * d.dy = 1) {s s' t c0 c1 : K} (hlt : c0 < c1) :
    ScanLine.Covers ⟨d.point s' c0, d.point s' c1⟩ (d.point s t) ↔ s = s' ∧ c0 ≤ t ∧ t ≤ c1 := by
  unfold ScanLine.Covers Direction.point
  dsimp only
  constructor
  · rintro ⟨r, hr0, hr1, hu, hv⟩
    have hs : s = s' := by
      linear_combination (s' - s) * hunit - d.dy * hu + d.dx * hv
    have ht : t = c0 + r * (c1 - c0) := by
      linear_combination (c0 + r * (c1 - c0) - t) * hunit + d.dx * hu + d.dy * hv
    have hgap : 0 < c1 - c0 := sub_pos.mpr hlt
    have hlow : 0 ≤ r * (c1 - c0) := mul_nonneg hr0 hgap.le
    have hhigh : r * (c1 - c0) ≤ 1 * (c1 - c0) := mul_le_mul_of_nonneg_right hr1 hgap.le
    rw [one_mul] at hhigh
    refine ⟨hs, ?_, ?_⟩
    · rw [ht]
      exact le_add_of_nonneg_right hlow
    · rw [ht]
      linarith
  · rintro ⟨rfl, hlow, hhigh⟩
    have hgap : 0 < c1 - c0 := sub_pos.mpr hlt
    refine ⟨(t - c0) / (c1 - c0), div_nonneg (sub_nonneg.mpr hlow) hgap.le, ?_, ?_, ?_⟩
    · rw [div_le_one hgap]
      linarith
    · field_simp
      ring
    · field_simp
      ring

theorem covers_swap {a b p : Point2 K} (h : ScanLine.Covers ⟨a, b⟩ p) : ScanLine.Covers ⟨b, a⟩ p := by
  obtain ⟨r, hr0, hr1, hu, hv⟩ := h
  refine ⟨1 - r, sub_nonneg.mpr hr1, sub_le_self 1 hr0, ?_, ?_⟩
  · dsimp only at hu ⊢
    linear_combination hu
  · dsimp only at hv ⊢
    linear_combination hv

theorem covers_ite {c : Prop} [Decidable c] {a b p : Point2 K} :
    ScanLine.Covers (if c then ⟨b, a⟩ else ⟨a, b⟩) p ↔ ScanLine.Covers ⟨a, b⟩ p := by
  split_ifs
  · exact ⟨covers_swap, covers_swap⟩
  · exact Iff.rfl

theorem meetsAt_crossingAt {d : Direction K} (hunit : d.dx * d.dx + d.dy * d.dy = 1) {s : K}
    {e : Point2 K × Point2 K} (hhit : scanHit s (d.across e.1) (d.across e.2)) :
    MeetsAt d s e (crossingAt d s e) := by
  have hne : d.across e.2 - d.across e.1 ≠ 0 := by
    rcases hhit with ⟨hlow, hhigh⟩ | ⟨hlow, hhigh⟩
    · exact (sub_pos.mpr (hlow.trans_lt hhigh)).ne'
    · exact (sub_neg.mpr (hlow.trans_lt hhigh)).ne
  have hpart : 0 ≤ (s - d.across e.1) / (d.across e.2 - d.across e.1) ∧
      (s - d.across e.1) / (d.across e.2 - d.across e.1) ≤ 1 := by
    rcases hhit with ⟨hlow, hhigh⟩ | ⟨hlow, hhigh⟩
    · have hpos := sub_pos.mpr (hlow.trans_lt hhigh)
      exact ⟨div_nonneg (sub_nonneg.mpr hlow) hpos.le,
        (div_le_one hpos).mpr (sub_le_sub_right hhigh.le _)⟩
    · have hneg := sub_neg.mpr (hlow.trans_lt hhigh)
      exact ⟨div_nonneg_of_nonpos (sub_nonpos.mpr hhigh.le) hneg.le,
        (div_le_one_of_neg hneg).mpr (sub_le_sub_right hlow _)⟩
  intro t'
  unfold crossingAt ScanLine.Covers Direction.point
  dsimp only
  generalize hr : (s - d.across e.1) / (d.across e.2 - d.across e.1) = r at hpart ⊢
  have hs : s = d.across e.1 + r * (d.across e.2 - d.across e.1) := by
    rw [← hr]
    field_simp
    ring
  constructor
  · rintro ⟨r', -, -, hu, hv⟩
    have hsame : r' = r := by
      refine mul_right_cancel₀ hne ?_
      have hs' : s = d.across e.1 + r' * (d.across e.2 - d.across e.1) := by
        unfold Direction.across
        linear_combination -s * hunit - d.dy * hu + d.dx * hv
      linear_combination hs - hs'
    subst hsame
    linear_combination -t' * hunit + d.dx * hu + d.dy * hv
  · rintro rfl
    unfold Direction.across at hs
    refine ⟨r, hpart.1, hpart.2, ?_, ?_⟩
    · linear_combination (e.1.u + r * (e.2.u - e.1.u)) * hunit - d.dy * hs
    · linear_combination (e.1.v + r * (e.2.v - e.1.v)) * hunit + d.dx * hs

theorem crossings_points {d : Direction K} (hunit : d.dx * d.dx + d.dy * d.dy = 1) (ls : LayerSlice K) (s : K) :
    ∃ ts, List.Forall₂ (MeetsAt d s) (hitEdges d ls s) ts ∧ ts.Perm ((crossings d ls s).map Prod.fst) := by
  refine ⟨(hitEdges d ls s).map (crossingAt d s), ?_, ?_⟩
  · rw [List.forall₂_map_right_iff, List.forall₂_same]
    intro e he
    exact meetsAt_crossingAt hunit (of_decide_eq_true (List.mem_filter.mp he).2)
  · have hmap : (((infillEdges ls).zipIdx.filterMap fun t =>
        if scanHit s (d.across t.1.1) (d.across t.1.2) then some (crossingAt d s t.1, t.2 % 2 ^ 32)
        else none).map Prod.fst) = (hitEdges d ls s).map (crossingAt d s) := by
      generalize hedges : infillEdges ls = edges
      unfold hitEdges
      rw [hedges]
      clear hedges
      generalize 0 = start
      induction edges generalizing start with
      | nil => rfl
      | cons e edges ih =>
        rw [List.zipIdx_cons, List.filterMap_cons, List.filter_cons]
        by_cases hhit : scanHit s (d.across e.1) (d.across e.2)
        · rw [if_pos hhit, if_pos (decide_eq_true hhit), List.map_cons, List.map_cons, ih]
        · rw [if_neg hhit, if_neg (by simpa using hhit), ih]
    rw [← hmap]
    exact ((List.perm_insertionSort _ _).map Prod.fst).symm

/-- The gap around a point is no sliver. -/
def WideAround (cs : List (K × ℕ)) (t : K) : Prop := ∀ l ∈ cs, ∀ r ∈ cs, l.1 < t → t < r.1 → 1e-9 ≤ r.1 - l.1

theorem wide_lt {c : (K × ℕ) × K × ℕ} (h : decide (¬c.2.1 - c.1.1 < 1e-9) = true) :
    1e-9 ≤ c.2.1 - c.1.1 ∧ c.1.1 < c.2.1 := by
  have hsliver : (0 : K) < 1e-9 := by norm_num
  have hgap : 1e-9 ≤ c.2.1 - c.1.1 := not_lt.mp (of_decide_eq_true h)
  exact ⟨hgap, sub_pos.mp (hsliver.trans_le hgap)⟩

theorem scanLines_line {d : Direction K} (hunit : d.dx * d.dx + d.dy * d.dy = 1) {ls : LayerSlice K} {spacing s t : K}
    {k0 k : ℤ} {l : ScanLine K} (hl : l ∈ scanLines d ls spacing k0 k) (h : l.Covers (d.point s t)) :
    s = k * spacing := by
  obtain ⟨c, hc, rfl⟩ := List.mem_map.mp hl
  obtain ⟨-, hlt⟩ := wide_lt (List.mem_filter.mp hc).2
  exact ((covers_iff hunit hlt).mp (covers_ite.mp h)).1

theorem scanLines_cover {d : Direction K} (hunit : d.dx * d.dx + d.dy * d.dy = 1) {ls : LayerSlice K} {spacing s t : K}
    (k0 : ℤ) {k : ℤ} (ht : ∀ c ∈ crossings d ls (k * spacing), c.1 ≠ t) :
    (∃ l ∈ scanLines d ls spacing k0 k, l.Covers (d.point s t)) ↔
      s = k * spacing ∧ Odd ((crossings d ls (k * spacing)).countP fun c => decide (c.1 < t)) ∧
        WideAround (crossings d ls (k * spacing)) t := by
  have hsorted := crossings_sorted d ls (k * spacing)
  have heven := crossings_even d ls (k * spacing)
  unfold scanLines
  dsimp only
  generalize crossings d ls (k * spacing) = cs at ht hsorted heven ⊢
  rw [← List.length_map Prod.fst] at heven
  have ht' : t ∉ cs.map Prod.fst := by
    intro hmem
    obtain ⟨c, hc, hct⟩ := List.mem_map.mp hmem
    exact ht c hc hct
  have hodd := EvenOdd.between_iff hsorted heven ht'
  rw [EvenOdd.pairs_map, List.countP_map] at hodd
  constructor
  · rintro ⟨l, hl, hcovers⟩
    obtain ⟨c, hc, rfl⟩ := List.mem_map.mp hl
    obtain ⟨hpair, hwide⟩ := List.mem_filter.mp hc
    obtain ⟨hgap, hlt⟩ := wide_lt hwide
    obtain ⟨hs, hlow, hhigh⟩ := (covers_iff hunit hlt).mp (covers_ite.mp hcovers)
    have hmem : Prod.map Prod.fst Prod.fst c ∈ EvenOdd.pairs (cs.map Prod.fst) := by
      rw [EvenOdd.pairs_map]
      exact List.mem_map_of_mem hpair
    obtain ⟨-, h₁, h₂, hout⟩ := EvenOdd.pairs_le hsorted hmem
    have hlow' : c.1.1 < t := lt_of_le_of_ne hlow fun h => ht' (h ▸ h₁)
    have hhigh' : t < c.2.1 := lt_of_le_of_ne hhigh fun h => ht' (h ▸ h₂)
    refine ⟨hs, hodd.mp ⟨_, List.mem_map_of_mem hpair, hlow', hhigh'⟩, fun l hl r hr hlt hrt => ?_⟩
    -- no crossing lies inside the pair
    have hleft : l.1 ≤ c.1.1 :=
      (hout l.1 (List.mem_map_of_mem hl)).resolve_right fun h => (hhigh'.trans_le h).not_gt hlt
    have hright : c.2.1 ≤ r.1 :=
      (hout r.1 (List.mem_map_of_mem hr)).resolve_left fun h => (h.trans_lt hlow').not_gt hrt
    exact hgap.trans (sub_le_sub hright hleft)
  · rintro ⟨hs, hcount, hwide⟩
    obtain ⟨p, hp, hlow, hhigh⟩ := hodd.mpr hcount
    obtain ⟨c, hc, rfl⟩ := List.mem_map.mp hp
    rw [← EvenOdd.pairs_map] at hp
    obtain ⟨-, h₁, h₂, -⟩ := EvenOdd.pairs_le hsorted hp
    obtain ⟨l, hl, hleft⟩ := List.mem_map.mp h₁
    obtain ⟨r, hr, hright⟩ := List.mem_map.mp h₂
    have hgap := hwide l hl r hr (hleft ▸ hlow) (hright ▸ hhigh)
    rw [hleft, hright] at hgap
    refine ⟨_, List.mem_map_of_mem (List.mem_filter.mpr ⟨hc, decide_eq_true hgap.not_gt⟩), covers_ite.mpr ?_⟩
    exact (covers_iff hunit (hlow.trans hhigh)).mpr ⟨hs, hlow.le, hhigh.le⟩

variable [FloorRing K]

theorem castLongLong_ceil {x : K} (h : -9223372036854775808 ≤ x ∧ x < 9223372036854775807) :
    castLongLong ⌈x⌉ = ⌈x⌉ := by
  have hlow : -9223372036854775808 ≤ ⌈x⌉ := by
    have hcast : ((-9223372036854775808 : ℤ) : K) ≤ ⌈x⌉ := by
      push_cast
      exact h.1.trans (Int.le_ceil x)
    exact_mod_cast hcast
  have hhigh : ⌈x⌉ ≤ 9223372036854775807 := by
    refine Int.ceil_le.mpr ?_
    push_cast
    exact h.2.le
  rw [castLongLong, if_pos ⟨hlow, hhigh⟩]

omit [IsStrictOrderedRing K] in
theorem castLongLong_floor {x : K} (h : -9223372036854775808 ≤ x ∧ x < 9223372036854775807) :
    castLongLong ⌊x⌋ = ⌊x⌋ := by
  have hlow : -9223372036854775808 ≤ ⌊x⌋ := by
    refine Int.le_floor.mpr ?_
    push_cast
    exact h.1
  have hhigh : ⌊x⌋ < 9223372036854775807 := by
    refine Int.floor_lt.mpr ?_
    push_cast
    exact h.2
  rw [castLongLong, if_pos ⟨hlow, hhigh.le⟩]

theorem buildInfill_lines {cos sin : K → K} {ls : LayerSlice K} {angleDeg spacing : K} (hspacing : 0 < spacing)
    (hfits : Fits (scanDirection cos sin angleDeg) ls spacing)
    (hcap : (buildInfill cos sin ls angleDeg spacing).2 = false) :
    ∃ k0 : ℤ, ∀ l, l ∈ (buildInfill cos sin ls angleDeg spacing).1 ↔
      ∃ k : ℤ, l ∈ scanLines (scanDirection cos sin angleDeg) ls spacing k0 k := by
  unfold buildInfill at hcap ⊢
  rw [if_neg (not_not.mpr hspacing)] at hcap ⊢
  dsimp only at hcap ⊢
  generalize scanDirection cos sin angleDeg = d at hfits hcap ⊢
  have hmeets : ∀ (k0 k : ℤ) (l : ScanLine K), l ∈ scanLines d ls spacing k0 k →
      ∃ c, c ∈ crossings d ls (k * spacing) := by
    intro k0 k l hl
    obtain ⟨c, hc, -⟩ := List.mem_map.mp hl
    have hpair := List.mem_map_of_mem (f := Prod.map Prod.fst Prod.fst) (List.mem_of_mem_filter hc)
    rw [← EvenOdd.pairs_map] at hpair
    obtain ⟨c', hc', -⟩ := List.mem_map.mp (EvenOdd.pairs_le (crossings_sorted d ls _) hpair).2.1
    exact ⟨c', hc'⟩
  have hpoint : ∀ p ∈ (ls.contours.filter fun c => c.closed).flatMap fun c => c.points,
      d.across p ∈ ((ls.contours.filter fun c => c.closed).flatMap fun c => c.points).map d.across :=
    fun p hp => List.mem_map_of_mem hp
  have hcasts : ∀ x ∈ ((ls.contours.filter fun c => c.closed).flatMap fun c => c.points).map d.across,
      -9223372036854775808 ≤ x / spacing ∧ x / spacing < 9223372036854775807 := by
    intro x hx
    obtain ⟨p, hp, rfl⟩ := List.mem_map.mp hx
    exact hfits p hp
  generalize ((ls.contours.filter fun c => c.closed).flatMap fun c => c.points).map d.across = ss
    at hcap hpoint hcasts ⊢
  cases ss with
  | nil =>
    refine ⟨0, fun l => iff_of_false List.not_mem_nil ?_⟩
    rintro ⟨k, hl⟩
    obtain ⟨c, hc⟩ := hmeets 0 k l hl
    obtain ⟨⟨p, hp, -⟩, -⟩ := mem_crossings hc
    exact List.not_mem_nil (hpoint p hp)
  | cons s rest =>
    dsimp only at hcap ⊢
    rw [castLongLong_ceil (hcasts _ (foldl_mem (f := min) min_choice s rest)),
      castLongLong_floor (hcasts _ (foldl_mem (f := max) max_choice s rest))] at hcap ⊢
    have hrange : ∀ (k0 k : ℤ) (l : ScanLine K), l ∈ scanLines d ls spacing k0 k →
        ⌈rest.foldl min s / spacing⌉ ≤ k ∧ k ≤ ⌊rest.foldl max s / spacing⌋ := by
      intro k0 k l hl
      obtain ⟨c, hc⟩ := hmeets k0 k l hl
      obtain ⟨⟨p, hp, hlow⟩, ⟨q, hq, hhigh⟩⟩ := mem_crossings hc
      refine ⟨Int.ceil_le.mpr ?_, Int.le_floor.mpr ?_⟩
      · exact (div_le_iff₀ hspacing).mpr ((foldl_min_le _ (hpoint p hp)).trans hlow)
      · exact (le_div_iff₀ hspacing).mpr (hhigh.le.trans (le_foldl_max _ (hpoint q hq)))
    refine ⟨⌈rest.foldl min s / spacing⌉, fun l => ?_⟩
    by_cases hempty : ⌊rest.foldl max s / spacing⌋ ≥ ⌈rest.foldl min s / spacing⌉
    · rw [if_neg (not_not.mpr hempty)] at hcap ⊢
      split_ifs at hcap ⊢
      rw [List.mem_flatMap]
      constructor
      · rintro ⟨i, -, hl⟩
        exact ⟨_, hl⟩
      · rintro ⟨k, hl⟩
        obtain ⟨hlow, hhigh⟩ := hrange _ k l hl
        refine ⟨(k - ⌈rest.foldl min s / spacing⌉).toNat, List.mem_range.mpr (by omega), ?_⟩
        have hk : ⌈rest.foldl min s / spacing⌉ + ((k - ⌈rest.foldl min s / spacing⌉).toNat : ℤ) = k := by omega
        rwa [hk]
    · rw [if_pos hempty]
      refine iff_of_false List.not_mem_nil ?_
      rintro ⟨k, hl⟩
      obtain ⟨hlow, hhigh⟩ := hrange _ k l hl
      exact hempty (hlow.trans hhigh)

/-- The infill of a layer covers its even-odd interior, on every line of the lattice. -/
theorem infill_even_odd {cos sin : K → K} (hunit : ∀ x, cos x * cos x + sin x * sin x = 1) (ls : LayerSlice K)
    (angleDeg : K) {spacing : K} (hspacing : 0 < spacing) (hfits : Fits (scanDirection cos sin angleDeg) ls spacing)
    (hcap : (buildInfill cos sin ls angleDeg spacing).2 = false) (k : ℤ) :
    (∃ ts, List.Forall₂ (MeetsAt (scanDirection cos sin angleDeg) (k * spacing))
        (hitEdges (scanDirection cos sin angleDeg) ls (k * spacing)) ts ∧
      ts.Perm ((crossings (scanDirection cos sin angleDeg) ls (k * spacing)).map Prod.fst)) ∧
    Even (crossings (scanDirection cos sin angleDeg) ls (k * spacing)).length ∧
      ∀ t, (∀ c ∈ crossings (scanDirection cos sin angleDeg) ls (k * spacing), c.1 ≠ t) →
        ((∃ l ∈ (buildInfill cos sin ls angleDeg spacing).1,
            l.Covers ((scanDirection cos sin angleDeg).point (k * spacing) t)) ↔
          Odd ((crossings (scanDirection cos sin angleDeg) ls (k * spacing)).countP fun c => decide (c.1 < t)) ∧
            WideAround (crossings (scanDirection cos sin angleDeg) ls (k * spacing)) t) := by
  refine ⟨crossings_points (hunit _) _ _, crossings_even _ _ _, fun t ht => ?_⟩
  obtain ⟨k0, hlines⟩ := buildInfill_lines hspacing hfits hcap
  have hcover := scanLines_cover (s := k * spacing) (hunit (angleDeg * kPi / 180.0)) k0 ht
  constructor
  · rintro ⟨l, hl, hcovers⟩
    obtain ⟨k', hl'⟩ := (hlines l).mp hl
    have hs := scanLines_line (hunit _) hl' hcovers
    obtain rfl : k = k' := Int.cast_injective (mul_right_cancel₀ hspacing.ne' hs)
    exact (hcover.mp ⟨l, hl', hcovers⟩).2
  · intro h
    obtain ⟨l, hl, hcovers⟩ := hcover.mpr ⟨rfl, h⟩
    exact ⟨l, (hlines l).mpr ⟨k, hl⟩, hcovers⟩

end

def square (u v : ℚ) : LayerSlice ℚ where
  h := 0
  contours := [⟨[⟨u, v⟩, ⟨u + 1, v⟩, ⟨u + 1, v + 1⟩, ⟨u, v + 1⟩], true, false, 4, 1⟩]

theorem infill_even_odd_square :
    (∀ x, (fun _ : ℚ => (1 : ℚ)) x * (fun _ => 1) x + (fun _ => 0) x * (fun _ => 0) x = 1) ∧ (0 : ℚ) < 0.5 ∧
      Fits (scanDirection (fun _ => 1) (fun _ => 0) 0) (square 0 0) 0.5 ∧
      (buildInfill (fun _ => 1) (fun _ => 0) (square 0 0) 0 0.5).2 = false ∧
      ∃ l ∈ (buildInfill (fun _ => 1) (fun _ => 0) (square 0 0) 0 0.5).1,
        l.Covers ((scanDirection (fun _ => 1) (fun _ => 0) 0).point ((1 : ℤ) * 0.5) 0.5) := by
  have hunit : ∀ x, (fun _ : ℚ => (1 : ℚ)) x * (fun _ => 1) x + (fun _ => 0) x * (fun _ => 0) x = 1 := by
    intro x
    norm_num
  have hspacing : (0 : ℚ) < 0.5 := by norm_num
  have hfits : Fits (scanDirection (fun _ => 1) (fun _ => 0) 0) (square 0 0) 0.5 := by
    unfold Fits
    decide +kernel
  have hcap : (buildInfill (fun _ => 1) (fun _ => 0) (square 0 0) 0 0.5).2 = false := by decide +kernel
  have hcrossings : crossings (scanDirection (fun _ => 1) (fun _ => 0) 0) (square 0 0) ((1 : ℤ) * 0.5) =
      [(0, 3), (1, 1)] := by
    decide +kernel
  refine ⟨hunit, hspacing, hfits, hcap,
    ((infill_even_odd hunit (square 0 0) 0 hspacing hfits hcap 1).2.2 0.5 ?_).mpr ?_⟩
  · rw [hcrossings]
    decide +kernel
  · rw [hcrossings]
    refine ⟨by decide +kernel, ?_⟩
    unfold WideAround
    decide +kernel

/-- A square around scanlines with numbers above `2 ^ 63` stays empty. -/
theorem far_square_empty : ¬∀ (ls : LayerSlice ℚ) (spacing : ℚ), 0 < spacing →
    (buildInfill (fun _ => 1) (fun _ => 0) ls 0 spacing).2 = false → ∀ (k : ℤ) (t : ℚ),
      (∀ c ∈ crossings (scanDirection (fun _ => 1) (fun _ => 0) 0) ls (k * spacing), c.1 ≠ t) →
        Odd ((crossings (scanDirection (fun _ => 1) (fun _ => 0) 0) ls (k * spacing)).countP
          fun c => decide (c.1 < t)) →
        WideAround (crossings (scanDirection (fun _ => 1) (fun _ => 0) 0) ls (k * spacing)) t →
        ∃ l ∈ (buildInfill (fun _ => 1) (fun _ => 0) ls 0 spacing).1,
          l.Covers ((scanDirection (fun _ => 1) (fun _ => 0) 0).point (k * spacing) t) := by
  intro h
  have hcrossings : crossings (scanDirection (fun _ => 1) (fun _ => 0) 0) (square 0 (2 ^ 63))
      (((2 ^ 64 + 1 : ℤ) : ℚ) * 0.5) = [(0, 3), (1, 1)] := by
    decide +kernel
  have hnone : (buildInfill (fun _ => 1) (fun _ => 0) (square 0 (2 ^ 63)) 0 0.5).1.length = 0 := by
    decide +kernel
  obtain ⟨l, hl, -⟩ := h (square 0 (2 ^ 63)) 0.5 (by norm_num) (by decide +kernel) (2 ^ 64 + 1) 0.5
    (by rw [hcrossings]; decide +kernel) (by rw [hcrossings]; decide +kernel)
    (by rw [hcrossings]; unfold WideAround; decide +kernel)
  rw [List.length_eq_zero_iff.mp hnone] at hl
  exact List.not_mem_nil hl

end Souxmar.Am.Slicer
