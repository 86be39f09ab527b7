import Mathlib.Data.List.Basic

/-!
# Binary search

`lowerBound` finds the first place of a range that is not before what is looked for.
-/

namespace Souxmar.Lib

/-- The first of `len` places from `first` on that is not before; the range is halved in each step. -/
def lowerBound (before : ℕ → Bool) (first : ℕ) : ℕ → ℕ
  | 0 => first
  | len + 1 =>
    let half := (len + 1) / 2
    if before (first + half) then lowerBound before (first + half + 1) (len - half)
    else lowerBound before first half
termination_by len => len
decreasing_by all_goals omega

/-- Everything in front of `k` is before, and nothing from there on. -/
structure IsLowerBound (before : ℕ → Bool) (lo hi k : ℕ) : Prop where
  low : lo ≤ k
  high : k ≤ hi
  below : ∀ i, lo ≤ i → i < k → before i = true
  above : ∀ i, k ≤ i → i < hi → before i = false

/-- Where what is before comes first, the search finds the border. -/
theorem isLowerBound_lowerBound {before : ℕ → Bool} {first len : ℕ}
    (hsorted : ∀ i j, first ≤ i → i ≤ j → j < first + len → before j = true → before i = true) :
    IsLowerBound before first (first + len) (lowerBound before first len) := by
  induction len using Nat.strongRecOn generalizing first with
  | _ len ih =>
    cases len with
    | zero =>
      rw [lowerBound]
      exact ⟨Nat.le_refl _, Nat.le_refl _, fun i hlow hhigh => by omega, fun i hlow hhigh => by omega⟩
    | succ len =>
      rw [lowerBound]
      generalize hhalf : (len + 1) / 2 = half
      have hlt : half < len + 1 := by omega
      split_ifs with hmid
      · have hrest : IsLowerBound before (first + half + 1) (first + half + 1 + (len - half)) _ :=
          ih (len - half) (by omega) fun i j hi hij hj => hsorted i j (by omega) hij (by omega)
        refine ⟨?_, ?_, fun i hlow hhigh => ?_, fun i hlow hhigh => ?_⟩
        · have hlow := hrest.low
          omega
        · have hhigh := hrest.high
          omega
        · by_cases hi : i ≤ first + half
          · exact hsorted i (first + half) hlow hi (by omega) hmid
          · exact hrest.below i (by omega) hhigh
        · exact hrest.above i hlow (by omega)
      · have hrest : IsLowerBound before first (first + half) _ :=
          ih half hlt fun i j hi hij hj => hsorted i j hi hij (by omega)
        refine ⟨hrest.low, Nat.le_trans hrest.high (by omega), hrest.below, fun i hlow hhigh => ?_⟩
        by_cases hi : i < first + half
        · exact hrest.above i hlow hi
        · by_contra hbefore
          rw [Bool.not_eq_false] at hbefore
          exact hmid (hsorted (first + half) i (by omega) (by omega) hhigh hbefore)

end Souxmar.Lib
