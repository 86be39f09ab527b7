import Mathlib.Data.Nat.Bitwise
import Mathlib.Data.Nat.Notation

/-!
# Alignment

Rounding an address up to a multiple of a power of two: add one less than the power and clear the low bits.
-/

namespace Souxmar.Lib.Align

theorem and_high_bits {x w k : ℕ} (hk : k ≤ w) (hx : x < 2 ^ w) : x &&& (2 ^ w - 2 ^ k) = x / 2 ^ k * 2 ^ k := by
  have hmask : 2 ^ w - 2 ^ k = (2 ^ (w - k) - 1) <<< k := by
    rw [Nat.shiftLeft_eq, Nat.sub_mul, ← Nat.pow_add, Nat.sub_add_cancel hk, Nat.one_mul]
  rw [hmask, ← Nat.shiftLeft_eq, ← Nat.shiftRight_eq_div_pow]
  apply Nat.eq_of_testBit_eq
  intro i
  rw [Nat.testBit_and, Nat.testBit_shiftLeft, Nat.testBit_shiftLeft, Nat.testBit_two_pow_sub_one, Nat.testBit_shiftRight]
  by_cases hi : i < k
  · rw [decide_eq_false (Nat.not_le.mpr hi), Bool.false_and, Bool.false_and, Bool.and_false]
  · rw [Nat.add_sub_cancel' (Nat.not_lt.mp hi), decide_eq_true (Nat.not_lt.mp hi), Bool.true_and, Bool.true_and]
    by_cases hw : i < w
    · rw [decide_eq_true (by omega), Bool.and_true]
    · rw [Nat.testBit_lt_two_pow (hx.trans_le (Nat.pow_le_pow_right Nat.two_pos (Nat.not_lt.mp hw))), Bool.false_and]

/-- The next multiple of a power of two. -/
def alignUp (x a : UInt64) : UInt64 := (x + (a - 1)) &&& ~~~(a - 1)

/-- Without overflow the next multiple lies less than the power away. -/
theorem alignUp_spec {x a : UInt64} {k : ℕ} (ha : a.toNat = 2 ^ k) (hx : x.toNat + 2 ^ k ≤ 2 ^ 64) :
    x.toNat ≤ (alignUp x a).toNat ∧ (alignUp x a).toNat < x.toNat + 2 ^ k ∧ 2 ^ k ∣ (alignUp x a).toNat := by
  have hpow : 0 < 2 ^ k := Nat.two_pow_pos k
  have hle : 2 ^ k ≤ 2 ^ 64 := (Nat.le_add_left ..).trans hx
  have hk : k ≤ 64 := (Nat.pow_le_pow_iff_right Nat.one_lt_two).mp hle
  have hone : (1 : UInt64) ≤ a := by rw [UInt64.le_iff_toNat_le, ha]; exact hpow
  have hlow : (a - 1).toNat = 2 ^ k - 1 := by rw [UInt64.toNat_sub_of_le _ _ hone, ha]; rfl
  have hmask : (~~~(a - 1)).toNat = 2 ^ 64 - 2 ^ k := by
    rw [UInt64.toNat_not, hlow, UInt64.size]
    omega
  have hsum : (x + (a - 1)).toNat = x.toNat + (2 ^ k - 1) := by
    rw [UInt64.toNat_add, hlow, Nat.mod_eq_of_lt (by omega)]
  have hround : (alignUp x a).toNat = (x.toNat + (2 ^ k - 1)) / 2 ^ k * 2 ^ k := by
    rw [alignUp, UInt64.toNat_and, hmask, hsum, and_high_bits hk (by omega)]
  rw [hround]
  have hsplit := Nat.div_add_mod (x.toNat + (2 ^ k - 1)) (2 ^ k)
  rw [Nat.mul_comm] at hsplit
  have hrem := Nat.mod_lt (x.toNat + (2 ^ k - 1)) hpow
  exact ⟨by omega, by omega, Nat.dvd_mul_left ..⟩

end Souxmar.Lib.Align
