import Mathlib.Data.List.Rotate
import Mathlib.Data.Sym.Sym2

/-!
# Closed polygons

The sides of a closed polygon do not depend on where it starts and which way it runs.
-/

namespace Souxmar.Lib.Polygon

variable {α β : Type*}

/-- The sides, from each point to the next and back from the last to the first. -/
def sides (points : List α) : List (Sym2 α) := List.zipWith (fun a b => s(a, b)) points (points.rotate 1)

theorem sides_rotate (points : List α) (n : ℕ) : sides (points.rotate n) = (sides points).rotate n := by
  unfold sides
  rw [List.zipWith_rotate_distrib _ _ _ _ (List.length_rotate points 1).symm, List.rotate_rotate, List.rotate_rotate,
    Nat.add_comm]

/-- Backwards each side runs the other way, and the one back to the start comes first. -/
theorem sides_reverse (points : List α) : (sides points.reverse).Perm (sides points) := by
  have hback : (points.rotate 1).reverse.rotate 1 = points.reverse := by
    cases points with
    | nil => rfl
    | cons a points =>
      rw [List.rotate_cons_succ, List.rotate_zero, List.reverse_append, List.reverse_singleton, List.singleton_append,
        List.rotate_cons_succ, List.rotate_zero, List.reverse_cons]
  have hlength : points.reverse.length = (points.rotate 1).reverse.length := by
    rw [List.length_reverse, List.length_reverse, List.length_rotate]
  have hturn : (sides points).reverse.rotate 1 = sides points.reverse := by
    unfold sides
    rw [List.reverse_zipWith (List.length_rotate points 1).symm, List.zipWith_rotate_distrib _ _ _ _ hlength, hback]
    exact List.zipWith_comm_of_comm fun a b => Sym2.eq_swap
  rw [← hturn]
  exact (List.rotate_perm _ 1).trans (List.reverse_perm _)

theorem sides_map (f : α → β) (points : List α) : sides (points.map f) = (sides points).map (Sym2.map f) := by
  unfold sides
  rw [← List.map_rotate, List.zipWith_map, List.map_zipWith]
  rfl

theorem sides_cons (a : α) (points : List α) :
    sides (a :: points) = List.zipWith (fun b c => s(b, c)) (a :: points ++ [a]) (points ++ [a]) := by
  have hlength : (a :: points).length = (points ++ [a]).length := by
    rw [List.length_append, List.length_cons, List.length_singleton]
  unfold sides
  rw [List.rotate_cons_succ, List.rotate_zero, ← List.append_nil (points ++ [a]), List.zipWith_append hlength,
    List.append_nil, List.zipWith_nil_right, List.append_nil]

end Souxmar.Lib.Polygon
