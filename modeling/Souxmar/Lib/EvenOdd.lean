import Mathlib.Algebra.Ring.Parity
import Mathlib.Data.List.Sort

/-!
# The even-odd rule

A two-valued sequence changes an even number of times around a cycle. Taking a sorted list of even length by pairs, a
point that is not in it lies between two of a pair exactly when an odd number of its elements is below.
-/

namespace Souxmar.Lib.EvenOdd

/-! ## Changes around a cycle -/

theorem changes_mod_two (b : ℕ → Bool) (n : ℕ) :
    (List.range n).countP (fun i => b i != b (i + 1)) % 2 = if b 0 = b n then 0 else 1 := by
  induction n with
  | zero => exact (if_pos rfl).symm
  | succ n ih =>
    rw [List.range_succ, List.countP_append, List.countP_singleton, Nat.add_mod, ih]
    cases b 0 <;> cases b n <;> cases b (n + 1) <;> rfl

theorem changes_cycle (b : ℕ → Bool) (n : ℕ) : Even ((List.range n).countP fun i => b i != b ((i + 1) % n)) := by
  have hcycle : (List.range n).countP (fun i => b i != b ((i + 1) % n)) =
      (List.range n).countP fun i => b (i % n) != b ((i + 1) % n) := by
    apply List.countP_congr
    intro i hi
    rw [Nat.mod_eq_of_lt (List.mem_range.mp hi)]
  rw [Nat.even_iff, hcycle, changes_mod_two (fun i => b (i % n)), Nat.zero_mod, Nat.mod_self, if_pos rfl]

/-! ## Pairs of a list -/

variable {α β : Type*}

/-- First with second, third with fourth. -/
def pairs : List α → List (α × α)
  | x :: y :: rest => (x, y) :: pairs rest
  | _ => []

theorem pairs_map (f : α → β) (xs : List α) : pairs (xs.map f) = (pairs xs).map (Prod.map f f) := by
  fun_induction pairs xs with
  | case1 x y rest ih =>
    rw [List.map_cons, List.map_cons, pairs, ih, List.map_cons]
    rfl
  | case2 xs hshort =>
    rcases xs with _ | ⟨x, _ | ⟨y, rest⟩⟩
    · rfl
    · rfl
    · exact absurd rfl (hshort x y rest)

variable [LinearOrder α]

theorem pairs_le {xs : List α} (hsorted : xs.Pairwise (· ≤ ·)) {p : α × α} (hp : p ∈ pairs xs) :
    p.1 ≤ p.2 ∧ p.1 ∈ xs ∧ p.2 ∈ xs ∧ ∀ x ∈ xs, x ≤ p.1 ∨ p.2 ≤ x := by
  fun_induction pairs xs with
  | case1 x y rest ih =>
    obtain ⟨hx, hrest⟩ := List.pairwise_cons.mp hsorted
    obtain ⟨hy, hrest'⟩ := List.pairwise_cons.mp hrest
    have hxy := hx y (List.mem_cons_self ..)
    rcases List.mem_cons.mp hp with rfl | hp
    · refine ⟨hxy, List.mem_cons_self .., List.mem_cons_of_mem _ (List.mem_cons_self ..), ?_⟩
      rw [List.forall_mem_cons, List.forall_mem_cons]
      exact ⟨Or.inl (le_refl x), Or.inr (le_refl y), fun z hz => Or.inr (hy z hz)⟩
    · obtain ⟨hle, h₁, h₂, hout⟩ := ih hrest' hp
      refine ⟨hle, List.mem_cons_of_mem _ (List.mem_cons_of_mem _ h₁),
        List.mem_cons_of_mem _ (List.mem_cons_of_mem _ h₂), ?_⟩
      rw [List.forall_mem_cons, List.forall_mem_cons]
      exact ⟨Or.inl (hxy.trans (hy _ h₁)), Or.inl (hy _ h₁), hout⟩
  | case2 xs hshort => exact absurd hp List.not_mem_nil

/-- Inside a pair, an odd number of elements is below. -/
theorem between_iff {xs : List α} (hsorted : xs.Pairwise (· ≤ ·)) (heven : Even xs.length) {t : α} (ht : t ∉ xs) :
    (∃ p ∈ pairs xs, p.1 < t ∧ t < p.2) ↔ Odd (xs.countP fun x => decide (x < t)) := by
  fun_induction pairs xs with
  | case1 x y rest ih =>
    obtain ⟨hx, hrest⟩ := List.pairwise_cons.mp hsorted
    obtain ⟨hy, hrest'⟩ := List.pairwise_cons.mp hrest
    have hxy := hx y (List.mem_cons_self ..)
    rw [List.mem_cons, List.mem_cons, not_or, not_or] at ht
    obtain ⟨htx, hty, htrest⟩ := ht
    have heven' : Even rest.length := by
      rw [List.length_cons, List.length_cons] at heven
      rwa [Nat.even_add_one, Nat.even_add_one, not_not] at heven
    have hrests := ih hrest' heven' htrest
    have hexists : (∃ p ∈ (x, y) :: pairs rest, p.1 < t ∧ t < p.2) ↔
        (x < t ∧ t < y) ∨ ∃ p ∈ pairs rest, p.1 < t ∧ t < p.2 := List.exists_mem_cons_iff ..
    rw [hexists, hrests, List.countP_cons, List.countP_cons]
    rcases lt_or_gt_of_ne hty with hlow | hhigh
    · -- nothing beyond the first pair is below
      have hnone : rest.countP (fun z => decide (z < t)) = 0 := by
        apply List.countP_eq_zero.mpr
        intro z hz
        rw [decide_eq_true_iff, not_lt]
        exact hlow.le.trans (hy z hz)
      rw [hnone, if_neg (by rw [decide_eq_true_iff]; exact hlow.le.not_gt)]
      by_cases hxt : x < t
      · rw [if_pos (decide_eq_true hxt)]
        exact iff_of_true (Or.inl ⟨hxt, hlow⟩) odd_one
      · rw [if_neg (by rw [decide_eq_true_iff]; exact hxt)]
        refine iff_of_false ?_ (by decide)
        rintro (⟨hxt', -⟩ | hodd)
        · exact hxt hxt'
        · exact absurd hodd (by decide)
    · rw [if_pos (decide_eq_true hhigh), if_pos (decide_eq_true (hxy.trans_lt hhigh)), or_iff_right]
      · rw [Nat.odd_add_one, Nat.not_odd_iff_even, Nat.even_add_one, Nat.not_even_iff_odd]
      · exact fun h => hhigh.not_gt h.2
  | case2 xs hshort =>
    rcases xs with _ | ⟨x, _ | ⟨y, rest⟩⟩
    · refine iff_of_false ?_ Nat.not_odd_zero
      rintro ⟨p, hp, -⟩
      exact List.not_mem_nil hp
    · exact absurd heven Nat.not_even_one
    · exact absurd rfl (hshort x y rest)

end Souxmar.Lib.EvenOdd
