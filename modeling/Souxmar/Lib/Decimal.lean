import Mathlib.Data.Int.Notation
import Mathlib.Data.Nat.Notation

/-!
# Decimal numbers

The text of an integer: its digits, with a sign in front when it is negative.
-/

namespace Souxmar.Lib

theorem toList_toString_ofNat (k : ℕ) : (toString (Int.ofNat k)).toList = Nat.toDigits 10 k := Nat.toList_repr

theorem toList_toString_negSucc (k : ℕ) : (toString (Int.negSucc k)).toList = '-' :: Nat.toDigits 10 (k + 1) := by
  change ("-" ++ Nat.repr (k + 1)).toList = _
  rw [String.toList_append, Nat.toList_repr]
  rfl

theorem isDigit_of_mem_toDigits {k : ℕ} {c : Char} (hc : c ∈ Nat.toDigits 10 k) : c.isDigit = true :=
  Nat.isDigit_of_mem_toDigits (by omega) (by omega) hc

theorem minus_notMem_toDigits (k : ℕ) : '-' ∉ Nat.toDigits 10 k := fun h =>
  absurd (isDigit_of_mem_toDigits h) (by decide)

theorem toDigits_inj {m n : ℕ} (h : Nat.toDigits 10 m = Nat.toDigits 10 n) : m = n := by
  rw [← Nat.ofDigitChars_ten_toDigits (n := m), h, Nat.ofDigitChars_ten_toDigits]

theorem toList_toString_int (n : ℤ) : ∃ digits : List Char, digits ≠ [] ∧ (∀ c ∈ digits, c.isDigit = true) ∧
    ((toString n).toList = digits ∨ (toString n).toList = '-' :: digits) := by
  cases n with
  | ofNat k =>
    exact ⟨Nat.toDigits 10 k, Nat.toDigits_ne_nil, fun c => isDigit_of_mem_toDigits, Or.inl (toList_toString_ofNat k)⟩
  | negSucc k =>
    exact ⟨Nat.toDigits 10 (k + 1), Nat.toDigits_ne_nil, fun c => isDigit_of_mem_toDigits,
      Or.inr (toList_toString_negSucc k)⟩

theorem toString_natCast (n : ℕ) : toString (n : ℤ) = toString n := rfl

/-- There is a sign exactly in front of a negative number. -/
theorem minus_mem_toString {n : ℤ} : '-' ∈ (toString n).toList ↔ n < 0 := by
  cases n with
  | ofNat k =>
    rw [toList_toString_ofNat]
    exact iff_of_false (minus_notMem_toDigits k) (Int.not_lt.mpr (Int.natCast_nonneg k))
  | negSucc k =>
    rw [toList_toString_negSucc]
    exact iff_of_true List.mem_cons_self (Int.negSucc_lt_zero k)

theorem isDigit_of_mem_toString {n : ℤ} {c : Char} (hc : c ∈ (toString n).toList) : c.isDigit = true ∨ c = '-' := by
  obtain ⟨digits, -, hdigits, htext | htext⟩ := toList_toString_int n
  · exact Or.inl (hdigits c (htext ▸ hc))
  · rw [htext] at hc
    exact (List.mem_cons.mp hc).symm.imp (hdigits c) id

theorem toString_int_inj {m n : ℤ} (h : toString m = toString n) : m = n := by
  have htext : (toString m).toList = (toString n).toList := congrArg String.toList h
  cases m with
  | ofNat j =>
    cases n with
    | ofNat k =>
      rw [toList_toString_ofNat, toList_toString_ofNat] at htext
      rw [toDigits_inj htext]
    | negSucc k =>
      rw [toList_toString_ofNat, toList_toString_negSucc] at htext
      exact absurd (htext ▸ List.mem_cons_self) (minus_notMem_toDigits j)
  | negSucc j =>
    cases n with
    | ofNat k =>
      rw [toList_toString_ofNat, toList_toString_negSucc] at htext
      exact absurd (htext ▸ List.mem_cons_self) (minus_notMem_toDigits k)
    | negSucc k =>
      rw [toList_toString_negSucc, toList_toString_negSucc] at htext
      rw [Nat.succ.inj (toDigits_inj (List.cons.inj htext).2)]

end Souxmar.Lib
