import Mathlib.Data.List.Range
import Mathlib.Data.Nat.Notation

/-!
# Numbered grids

The points of a grid of three dimensions in the order of three nested loops, the first coordinate in the innermost one,
and their numbers.
-/

namespace Souxmar.Lib.Grid

/-- The points with coordinates below `a`, `b` and `c`. -/
def points (a b c : ℕ) : List (ℕ × ℕ × ℕ) :=
  (List.range c).flatMap fun k => (List.range b).flatMap fun j => (List.range a).map fun i => (i, j, k)

def index (a b : ℕ) (p : ℕ × ℕ × ℕ) : ℕ := (p.2.2 * b + p.2.1) * a + p.1

def point (a b n : ℕ) : ℕ × ℕ × ℕ := (n % a, n / a % b, n / a / b)

/-- The point lies in the grid. -/
def Inside (a b c : ℕ) (p : ℕ × ℕ × ℕ) : Prop := p.1 < a ∧ p.2.1 < b ∧ p.2.2 < c

variable {a b c : ℕ}

theorem mul_add_lt {n m i j : ℕ} (hi : i < n) (hj : j < m) : j * n + i < n * m := by
  calc j * n + i < j * n + n := Nat.add_lt_add_left hi _
    _ = n * (j + 1) := by rw [Nat.mul_add, Nat.mul_one, Nat.mul_comm]
    _ ≤ n * m := Nat.mul_le_mul_left n hj

theorem mul_add_div {n i : ℕ} (hi : i < n) (j : ℕ) : (j * n + i) / n = j := by
  rw [Nat.mul_comm, Nat.mul_add_div (Nat.zero_lt_of_lt hi), Nat.div_eq_of_lt hi, Nat.add_zero]

theorem point_index {p : ℕ × ℕ × ℕ} (h : Inside a b c p) : point a b (index a b p) = p := by
  obtain ⟨hi, hj, -⟩ := h
  have hfirst : index a b p % a = p.1 := Nat.mul_add_mod_of_lt hi
  have hrow : index a b p / a = p.2.2 * b + p.2.1 := mul_add_div hi _
  unfold point
  rw [hfirst, hrow, Nat.mul_add_mod_of_lt hj, mul_add_div hj]

theorem index_inj {p q : ℕ × ℕ × ℕ} (hp : Inside a b c p) (hq : Inside a b c q) (h : index a b p = index a b q) :
    p = q := by
  rw [← point_index hp, ← point_index hq, h]

theorem index_lt {p : ℕ × ℕ × ℕ} (h : Inside a b c p) : index a b p < a * b * c := by
  obtain ⟨hi, hj, hk⟩ := h
  have hrow : p.2.2 * b + p.2.1 < b * c := mul_add_lt hj hk
  rw [Nat.mul_assoc]
  exact mul_add_lt hi hrow

theorem inside_point {n : ℕ} (h : n < a * b * c) : Inside a b c (point a b n) := by
  have ha : 0 < a := Nat.pos_of_ne_zero fun h0 => by
    rw [h0, Nat.zero_mul, Nat.zero_mul] at h
    exact Nat.not_lt_zero n h
  have hb : 0 < b := Nat.pos_of_ne_zero fun h0 => by
    rw [h0, Nat.mul_zero, Nat.zero_mul] at h
    exact Nat.not_lt_zero n h
  refine ⟨Nat.mod_lt _ ha, Nat.mod_lt _ hb, ?_⟩
  show n / a / b < c
  rw [Nat.div_div_eq_div_mul]
  exact Nat.div_lt_of_lt_mul h

theorem index_point (n : ℕ) : index a b (point a b n) = n := by
  unfold index point
  dsimp only
  rw [Nat.div_add_mod' (n / a) b, Nat.div_add_mod' n a]

theorem flatMap_range_mul {α : Type*} (m n : ℕ) (f : ℕ → List α) :
    ((List.range n).flatMap fun j => (List.range m).flatMap fun i => f (j * m + i)) = (List.range (n * m)).flatMap f := by
  induction n with
  | zero =>
    rw [Nat.zero_mul]
    rfl
  | succ n ih =>
    rw [List.range_succ, List.flatMap_append, ih, List.flatMap_singleton, Nat.succ_mul, List.range_add,
      List.flatMap_append, List.flatMap_map]

/-- The points come in the order of their numbers. -/
theorem points_eq : points a b c = (List.range (a * b * c)).map (point a b) := by
  have hinner : points a b c = (List.range c).flatMap fun k => (List.range b).flatMap fun j =>
      (List.range a).flatMap fun i => [point a b ((k * b + j) * a + i)] := by
    unfold points
    apply List.flatMap_congr
    intro k hk
    apply List.flatMap_congr
    intro j hj
    rw [List.map_eq_flatMap]
    apply List.flatMap_congr
    intro i hi
    rw [← point_index (p := (i, j, k)) ⟨List.mem_range.mp hi, List.mem_range.mp hj, List.mem_range.mp hk⟩]
    rfl
  rw [hinner, flatMap_range_mul b c fun j => (List.range a).flatMap fun i => [point a b (j * a + i)],
    flatMap_range_mul a (c * b) fun n => [point a b n], List.map_eq_flatMap]
  congr 2
  rw [Nat.mul_comm c, Nat.mul_comm, ← Nat.mul_assoc]

end Souxmar.Lib.Grid
