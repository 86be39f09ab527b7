import Mathlib.Algebra.Order.Field.Basic
import Mathlib.Algebra.Order.Monoid.Prod
import Mathlib.Algebra.Order.Sub.Prod
import Mathlib.Algebra.Ring.Prod
import Mathlib.Data.List.Rotate
import Mathlib.Tactic.LinearCombination
import Mathlib.Tactic.Ring

/-!
# The six tetrahedra of a cube

The paths along the edges of the unit cube from the origin to the opposite corner, one for each order of the axes, are
the tetrahedra of the cube. A facet is a path without one of its corners. Facets on the same points are the same, or two
that lie against each other in opposite order: in one cube, or in the two cubes at a side.
-/

namespace Souxmar.Lib.Kuhn

abbrev Point := ℕ × ℕ × ℕ

inductive Axis
  | x
  | y
  | z
deriving DecidableEq

/-- The step along an axis. -/
def Axis.step : Axis → Point
  | x => (1, 0, 0)
  | y => (0, 1, 0)
  | z => (0, 0, 1)

/-- The entry of a triple at an axis. -/
def Axis.of {α : Type*} : Axis → α × α × α → α
  | x, p => p.1
  | y, p => p.2.1
  | z, p => p.2.2

namespace Axis

def all : List Axis := [x, y, z]

theorem mem_all (a : Axis) : a ∈ all := by
  cases a <;> decide

theorem of_add (a : Axis) (p q : Point) : a.of (p + q) = a.of p + a.of q := by
  cases a <;> rfl

theorem of_add_step (a a' : Axis) (p : Point) : a'.of (p + a.step) = if a' = a then a'.of p + 1 else a'.of p := by
  cases a <;> cases a' <;> rfl

theorem of_add_step_self (a : Axis) (p : Point) : a.of (p + a.step) = a.of p + 1 := by
  rw [of_add_step, if_pos rfl]

theorem of_sub_le (a : Axis) (p q : Point) : a.of (p - q) ≤ a.of p := by
  cases a <;> exact Nat.sub_le _ _

theorem step_le (a : Axis) {p : Point} (h : 0 < a.of p) : a.step ≤ p := by
  cases a with
  | x => exact ⟨h, Nat.zero_le _, Nat.zero_le _⟩
  | y => exact ⟨Nat.zero_le _, h, Nat.zero_le _⟩
  | z => exact ⟨Nat.zero_le _, Nat.zero_le _, h⟩

end Axis

inductive Path
  | xyz
  | xzy
  | yxz
  | yzx
  | zxy
  | zyx
deriving DecidableEq

namespace Path

def all : List Path := [xyz, xzy, yxz, yzx, zxy, zyx]

theorem mem_all (p : Path) : p ∈ all := by
  cases p <;> decide

def first : Path → Axis
  | xyz | xzy => .x
  | yxz | yzx => .y
  | zxy | zyx => .z

def second : Path → Axis
  | yxz | zxy => .x
  | xyz | zyx => .y
  | xzy | yzx => .z

def third : Path → Axis
  | yzx | zyx => .x
  | xzy | zxy => .y
  | xyz | yxz => .z

/-- The order of the axes is a rotation. -/
def even : Path → Bool
  | xyz | yzx | zxy => true
  | xzy | yxz | zyx => false

/-- The path that begins with the second axis and ends with the first. -/
def turn : Path → Path
  | xyz => yzx
  | yzx => zxy
  | zxy => xyz
  | xzy => zyx
  | zyx => yxz
  | yxz => xzy

def turnBack (p : Path) : Path := p.turn.turn

/-- The first two axes are exchanged. -/
def swapFirst : Path → Path
  | xyz => yxz
  | yxz => xyz
  | yzx => zyx
  | zyx => yzx
  | zxy => xzy
  | xzy => zxy

/-- The last two axes are exchanged. -/
def swapLast : Path → Path
  | xyz => xzy
  | xzy => xyz
  | yxz => yzx
  | yzx => yxz
  | zxy => zyx
  | zyx => zxy

end Path

/-- The corners of a path. -/
inductive Stop
  | origin
  | one
  | two
  | opposite
deriving DecidableEq

def Path.corner (p : Path) : Stop → Point
  | .origin => 0
  | .one => p.first.step
  | .two => p.first.step + p.second.step
  | .opposite => (1, 1, 1)

/-- The stops of a path in an order in which their corners turn to the right-hand side. -/
def Path.stops (p : Path) : List Stop :=
  if p.even then [.origin, .one, .two, .opposite] else [.origin, .one, .opposite, .two]

/-- The corners of the tetrahedron. -/
def Path.tet (p : Path) : List Point := p.stops.map p.corner

theorem Path.tet_le (p : Path) : ∀ d ∈ p.tet, d ≤ (1, 1, 1) := by
  cases p <;> decide

theorem Path.tet_nodup (p : Path) : p.tet.Nodup := by
  cases p <;> decide

/-! ## Facets -/

structure Facet where
  path : Path
  omitted : Stop
deriving DecidableEq

namespace Facet

/-- The corners that are left, seen from outside against the clock. -/
def points (f : Facet) : List Point :=
  match f.omitted, f.path.even with
  | .origin, true => [.one, .two, .opposite].map f.path.corner
  | .origin, false => [.one, .opposite, .two].map f.path.corner
  | .one, true => [.origin, .opposite, .two].map f.path.corner
  | .one, false => [.origin, .two, .opposite].map f.path.corner
  | .two, true => [.origin, .one, .opposite].map f.path.corner
  | .two, false => [.origin, .opposite, .one].map f.path.corner
  | .opposite, true => [.origin, .two, .one].map f.path.corner
  | .opposite, false => [.origin, .one, .two].map f.path.corner

/-- The corner below the others. -/
def low (f : Facet) : Point :=
  match f.omitted with
  | .origin => f.path.first.step
  | _ => 0

/-- The facet on the other side. -/
def partner (f : Facet) : Facet :=
  match f.omitted with
  | .origin => ⟨f.path.turn, .opposite⟩
  | .one => ⟨f.path.swapFirst, .one⟩
  | .two => ⟨f.path.swapLast, .two⟩
  | .opposite => ⟨f.path.turnBack, .origin⟩

/-- The side of the cube that the facet lies on, at the end of an axis or at its beginning. -/
def side (f : Facet) : Option (Axis × Bool) :=
  match f.omitted with
  | .origin => some (f.path.first, true)
  | .opposite => some (f.path.third, false)
  | _ => none

/-- The corners from the lowest one. -/
def shape (f : Facet) : List Point := f.points.map fun d => d - f.low

def all : List Facet := Path.all.flatMap fun p => [⟨p, .origin⟩, ⟨p, .one⟩, ⟨p, .two⟩, ⟨p, .opposite⟩]

theorem mem_all (f : Facet) : f ∈ all := by
  obtain ⟨p, s⟩ := f
  cases p <;> cases s <;> decide

theorem low_mem (f : Facet) : f.low ∈ f.points :=
  (by decide : ∀ f ∈ all, f.low ∈ f.points) f f.mem_all

theorem low_le (f : Facet) : ∀ d ∈ f.points, f.low ≤ d :=
  (by decide : ∀ f ∈ all, ∀ d ∈ f.points, f.low ≤ d) f f.mem_all

theorem points_le (f : Facet) : ∀ d ∈ f.points, d ≤ (1, 1, 1) :=
  (by decide : ∀ f ∈ all, ∀ d ∈ f.points, d ≤ (1, 1, 1)) f f.mem_all

theorem shape_inj {f g : Facet} (h : ∀ d ∈ f.shape, d ∈ g.shape) : g = f ∨ g = f.partner :=
  (by decide : ∀ f ∈ all, ∀ g ∈ all, (∀ d ∈ f.shape, d ∈ g.shape) → g = f ∨ g = f.partner) f f.mem_all g g.mem_all h

theorem partner_opposed (f : Facet) : f.partner.shape.IsRotated f.shape.reverse :=
  (by decide : ∀ f ∈ all, f.partner.shape.IsRotated f.shape.reverse) f f.mem_all

theorem partner_ne (f : Facet) : f.partner ≠ f :=
  (by decide : ∀ f ∈ all, f.partner ≠ f) f f.mem_all

/-- The points of the facet in the cube at a point. -/
def pointsAt (f : Facet) (b : Point) : List Point := f.points.map fun d => b + d

variable {f g : Facet} {b c : Point}

theorem pointsAt_eq (f : Facet) (b : Point) : f.pointsAt b = f.shape.map fun d => b + f.low + d := by
  unfold pointsAt shape
  rw [List.map_map]
  apply List.map_congr_left
  intro d hd
  rw [Function.comp_apply, add_assoc, add_tsub_cancel_of_le (f.low_le d hd)]

/-- Facets on the same points are the same, or the two sides of one. -/
theorem same_points (h : ∀ q, q ∈ f.pointsAt b ↔ q ∈ g.pointsAt c) :
    (g = f ∧ c = b) ∨ (g = f.partner ∧ c + g.low = b + f.low) := by
  have hbelow : ∀ {f g : Facet} {b c : Point}, (∀ q, q ∈ f.pointsAt b ↔ q ∈ g.pointsAt c) → c + g.low ≤ b + f.low := by
    intro f g b c h
    obtain ⟨d, hd, heq⟩ := List.mem_map.mp ((h _).mp (List.mem_map_of_mem f.low_mem))
    rw [← heq]
    exact add_le_add_right (g.low_le d hd) c
  have hlow : c + g.low = b + f.low := le_antisymm (hbelow h) (hbelow fun q => (h q).symm)
  have hshape : ∀ d ∈ f.shape, d ∈ g.shape := by
    intro d hd
    rw [pointsAt_eq, pointsAt_eq, hlow] at h
    obtain ⟨d', hd', heq⟩ := List.mem_map.mp ((h _).mp (List.mem_map_of_mem hd))
    rwa [← add_left_cancel heq]
  rcases shape_inj hshape with rfl | rfl
  · exact Or.inl ⟨rfl, add_right_cancel hlow⟩
  · exact Or.inr ⟨rfl, hlow⟩

theorem pointsAt_partner (h : c + f.partner.low = b + f.low) :
    (f.partner.pointsAt c).IsRotated (f.pointsAt b).reverse := by
  rw [pointsAt_eq, pointsAt_eq, h, ← List.map_reverse]
  exact f.partner_opposed.map _

theorem mem_side_iff {a : Axis} {e : Bool} : (∀ d ∈ f.points, a.of d = e.toNat) ↔ f.side = some (a, e) := by
  have hall : ∀ f ∈ all, (∀ d ∈ f.points, a.of d = e.toNat) ↔ f.side = some (a, e) := by
    cases a <;> cases e <;> decide
  exact hall f f.mem_all

theorem low_side (f : Facet) :
    (f.side = none → f.partner.low = f.low) ∧ (∀ a, f.side = some (a, true) → f.low = a.step ∧ f.partner.low = 0) ∧
      ∀ a, f.side = some (a, false) → f.low = 0 ∧ f.partner.low = a.step := by
  have hall : ∀ f ∈ all, (f.side = none → f.partner.low = f.low) ∧
      (∀ a ∈ Axis.all, f.side = some (a, true) → f.low = a.step ∧ f.partner.low = 0) ∧
      ∀ a ∈ Axis.all, f.side = some (a, false) → f.low = 0 ∧ f.partner.low = a.step := by decide
  obtain ⟨hnone, hend, hstart⟩ := hall f f.mem_all
  exact ⟨hnone, fun a => hend a a.mem_all, fun a => hstart a a.mem_all⟩

/-- The facet of the cube at `b` lies on a side of the block of `n` cubes along each axis. -/
def Outer (n : ℕ) (f : Facet) (b : Point) (a : Axis) (e : Bool) : Prop :=
  f.side = some (a, e) ∧ a.of b + e.toNat = if e then n else 0

theorem outer_iff {n : ℕ} (hb : ∀ a : Axis, a.of b < n) {a : Axis} {e : Bool} :
    (∀ q ∈ f.pointsAt b, a.of q = if e then n else 0) ↔ f.Outer n b a e := by
  have hle : ∀ d ∈ f.points, a.of d ≤ 1 := by
    intro d hd
    obtain ⟨hx, hy, hz⟩ := f.points_le d hd
    cases a <;> assumption
  have hbelow := hb a
  unfold Outer pointsAt
  rw [List.forall_mem_map, ← mem_side_iff]
  constructor
  · intro h
    have hone : ∀ d ∈ f.points, a.of d = e.toNat ∧ a.of b + e.toNat = if e then n else 0 := by
      intro d hd
      have heq := h d hd
      have hd' := hle d hd
      rw [Axis.of_add] at heq
      cases e with
      | true =>
        rw [if_pos rfl] at heq ⊢
        dsimp only [Bool.toNat]
        constructor <;> simp <;> omega
      | false =>
        rw [if_neg Bool.false_ne_true] at heq ⊢
        dsimp only [Bool.toNat]
        constructor <;> simp <;> omega
    exact ⟨fun d hd => (hone d hd).1, (hone _ f.low_mem).2⟩
  · rintro ⟨hside, hb'⟩ d hd
    rw [Axis.of_add, hside d hd, hb']

theorem exists_partner_iff {n : ℕ} (hb : ∀ a : Axis, a.of b < n) :
    (∃ c, (∀ a : Axis, a.of c < n) ∧ c + f.partner.low = b + f.low) ↔ ¬∃ a e, f.Outer n b a e := by
  obtain ⟨hnone, hend, hstart⟩ := f.low_side
  cases hside : f.side with
  | none =>
    refine iff_of_true ⟨b, hb, by rw [hnone hside]⟩ ?_
    rintro ⟨a, e, heq, -⟩
    cases hside.symm.trans heq
  | some s =>
    obtain ⟨a, e⟩ := s
    have honly : (∃ a' e', f.Outer n b a' e') ↔ a.of b + e.toNat = if e then n else 0 := by
      constructor
      · rintro ⟨a', e', heq, hat⟩
        cases hside.symm.trans heq
        exact hat
      · exact fun hat => ⟨a, e, hside, hat⟩
    have hba := hb a
    rw [honly]
    cases e with
    | true =>
      obtain ⟨hlow, hlow'⟩ := hend a hside
      rw [hlow, hlow']
      constructor
      · rintro ⟨c, hc, heq⟩
        rw [add_zero] at heq
        have hca := hc a
        rw [heq, a.of_add_step_self] at hca
        exact Nat.ne_of_lt hca
      · intro hne
        refine ⟨b + a.step, fun a' => ?_, add_zero _⟩
        rw [Axis.of_add_step]
        have hba' := hb a'
        have hne' : ¬a.of b + 1 = n := hne
        split_ifs with h
        · subst h
          omega
        · exact hba'
    | false =>
      obtain ⟨hlow, hlow'⟩ := hstart a hside
      rw [hlow, hlow']
      constructor
      · rintro ⟨c, hc, heq⟩ hzero
        rw [add_zero] at heq
        have hba0 : a.of b = 0 := hzero
        rw [← heq, a.of_add_step_self] at hba0
        exact Nat.succ_ne_zero _ hba0
      · intro hne
        have hpos : 0 < a.of b := Nat.pos_of_ne_zero hne
        refine ⟨b - a.step, fun a' => Nat.lt_of_le_of_lt (a'.of_sub_le b a.step) (hb a'), ?_⟩
        rw [add_zero]
        exact tsub_add_cancel_of_le (a.step_le hpos)

end Facet

/-- The facets of a tetrahedron, each across from the corner of its place. -/
def Path.facets (p : Path) : List Facet := p.stops.map fun t => ⟨p, t⟩

def facets : List Facet := Path.all.flatMap Path.facets

theorem mem_facets (f : Facet) : f ∈ facets :=
  (by decide : ∀ f ∈ Facet.all, f ∈ facets) f f.mem_all

theorem nodup_facets : facets.Nodup := by decide

/-! ## The tetrahedra fill the cube -/

section

variable {K : Type*} [Field K]

/-- The sum over the corners of a path. -/
def total (w : Stop → K) : K := w .origin + w .one + w .two + w .opposite

namespace Path

variable (p : Path)

/-- `s` is the mean of the corners with these weights. -/
structure Mean (w : Stop → K) (s : K × K × K) : Prop where
  total : total w = 1
  mean : ∀ a : Axis, Kuhn.total (fun t => w t * (a.of (p.corner t) : ℕ)) = a.of s

def weight (s : K × K × K) : Stop → K
  | .origin => 1 - p.first.of s
  | .one => p.first.of s - p.second.of s
  | .two => p.second.of s - p.third.of s
  | .opposite => p.third.of s

theorem axis_cases (a : Axis) : a = p.first ∨ a = p.second ∨ a = p.third := by
  cases p <;> cases a <;> decide

theorem total_corners (w : Stop → K) :
    Kuhn.total (fun t => w t * (p.first.of (p.corner t) : ℕ)) = w .one + w .two + w .opposite ∧
      Kuhn.total (fun t => w t * (p.second.of (p.corner t) : ℕ)) = w .two + w .opposite ∧
      Kuhn.total (fun t => w t * (p.third.of (p.corner t) : ℕ)) = w .opposite := by
  cases p <;> simp [Kuhn.total, corner, first, second, third, Axis.of, Axis.step]

theorem mean_weight (s : K × K × K) : p.Mean (p.weight s) s where
  total := by
    unfold Kuhn.total weight
    ring
  mean a := by
    obtain ⟨hfirst, hsecond, hthird⟩ := p.total_corners (p.weight s)
    rcases p.axis_cases a with rfl | rfl | rfl
    · rw [hfirst]
      unfold weight
      ring
    · rw [hsecond]
      unfold weight
      ring
    · exact hthird

theorem sum_stops (F : Stop → K) : (p.stops.map F).sum = Kuhn.total F := by
  have hsum : ∀ a b c d : K, [a, b, c, d].sum = a + b + c + d := by
    intro a b c d
    simp only [List.sum_cons, List.sum_nil, add_zero, add_assoc]
  unfold stops Kuhn.total
  split_ifs
  · exact hsum _ _ _ _
  · refine (hsum _ _ _ _).trans ?_
    ring

theorem mem_stops (t : Stop) : t ∈ p.stops := by
  cases p <;> cases t <;> decide

omit [Field K] in
theorem exists_weights {w : List K} (h : w.length = 4) : ∃ w' : Stop → K, w = p.stops.map w' := by
  obtain ⟨a, b, c, d, rfl⟩ := List.length_eq_four.mp h
  unfold stops
  split_ifs
  · exact ⟨fun t => Stop.rec a b c d t, rfl⟩
  · exact ⟨fun t => Stop.rec a b d c t, rfl⟩

variable {p} {w : Stop → K} {s : K × K × K}

theorem Mean.weight_eq (h : p.Mean w s) : w = p.weight s := by
  obtain ⟨hfirst, hsecond, hthird⟩ := p.total_corners w
  have htotal : w .origin + w .one + w .two + w .opposite = 1 := h.total
  funext t
  unfold weight
  rw [← h.mean, ← h.mean, ← h.mean, hfirst, hsecond, hthird]
  cases t with
  | origin => linear_combination htotal
  | one => ring
  | two => ring
  | opposite => rfl

variable [LinearOrder K] [IsStrictOrderedRing K]

theorem exists_weight (h : ∀ a : Axis, 0 ≤ a.of s ∧ a.of s ≤ 1) : ∃ p : Path, ∀ t, 0 ≤ p.weight s t := by
  have hchain : ∀ p : Path, p.second.of s ≤ p.first.of s → p.third.of s ≤ p.second.of s →
      ∃ p : Path, ∀ t, 0 ≤ p.weight s t := by
    intro p hfirst hsecond
    refine ⟨p, fun t => ?_⟩
    cases t with
    | origin => exact sub_nonneg.mpr (h _).2
    | one => exact sub_nonneg.mpr hfirst
    | two => exact sub_nonneg.mpr hsecond
    | opposite => exact (h _).1
  rcases le_total (Axis.x.of s) (Axis.y.of s) with hxy | hxy <;>
    rcases le_total (Axis.y.of s) (Axis.z.of s) with hyz | hyz <;>
    rcases le_total (Axis.x.of s) (Axis.z.of s) with hxz | hxz
  · exact hchain .zyx hyz hxy
  · exact hchain .zyx hyz hxy
  · exact hchain .yzx hyz hxz
  · exact hchain .yxz hxy hxz
  · exact hchain .zxy hxz hxy
  · exact hchain .xzy hxz hyz
  · exact hchain .xyz hxy hyz
  · exact hchain .xyz hxy hyz

theorem order_of_pos (h : ∀ t, 0 < p.weight s t) :
    0 < p.third.of s ∧ p.third.of s < p.second.of s ∧ p.second.of s < p.first.of s ∧ p.first.of s < 1 :=
  ⟨h .opposite, sub_pos.mp (h .two), sub_pos.mp (h .one), sub_pos.mp (h .origin)⟩

theorem inner_of_pos (h : ∀ t, 0 < p.weight s t) (a : Axis) : 0 < a.of s ∧ a.of s < 1 := by
  obtain ⟨h0, h1, h2, h3⟩ := order_of_pos h
  rcases p.axis_cases a with rfl | rfl | rfl
  · exact ⟨(h0.trans h1).trans h2, h3⟩
  · exact ⟨h0.trans h1, h2.trans h3⟩
  · exact ⟨h0, (h1.trans h2).trans h3⟩

theorem lt_first (h : ∀ t, 0 < p.weight s t) {a : Axis} (ha : a ≠ p.first) : a.of s < p.first.of s := by
  obtain ⟨-, h₁, h₂, -⟩ := order_of_pos h
  rcases p.axis_cases a with rfl | rfl | rfl
  · exact absurd rfl ha
  · exact h₂
  · exact h₁.trans h₂

theorem third_lt (h : ∀ t, 0 < p.weight s t) {a : Axis} (ha : a ≠ p.third) : p.third.of s < a.of s := by
  obtain ⟨-, h₁, h₂, -⟩ := order_of_pos h
  rcases p.axis_cases a with rfl | rfl | rfl
  · exact h₁.trans h₂
  · exact h₁
  · exact absurd rfl ha

theorem eq_of_axes {q : Path} (hfirst : p.first = q.first) (hthird : p.third = q.third) : p = q := by
  revert hfirst hthird
  cases p <;> cases q <;> decide

theorem eq_of_pos {q : Path} (hp : ∀ t, 0 < p.weight s t) (hq : ∀ t, 0 < q.weight s t) : p = q := by
  apply eq_of_axes
  · by_contra hne
    exact lt_asymm (lt_first hp (Ne.symm hne)) (lt_first hq hne)
  · by_contra hne
    exact lt_asymm (third_lt hp (Ne.symm hne)) (third_lt hq hne)

end Path

end

end Souxmar.Lib.Kuhn
