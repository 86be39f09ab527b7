import Mathlib.Algebra.Group.Int.Defs
import Mathlib.Algebra.Group.Nat.Defs
import Mathlib.Data.Int.Notation
import Mathlib.Data.Nat.Notation

/-!
# Doubles

The 64-bit pattern of an IEEE double: sign, exponent and fraction, and the absolute value in units of
`2 ^ (-1074)`, of which every finite double is a whole number.
-/

namespace Souxmar.Lib.Double

def negative (bits : UInt64) : Bool := bits.toNat / 2 ^ 63 = 1

def exponent (bits : UInt64) : ℕ := bits.toNat / 2 ^ 52 % 2 ^ 11

def fraction (bits : UInt64) : ℕ := bits.toNat % 2 ^ 52

/-- Neither an infinity nor a NaN. -/
def Finite (bits : UInt64) : Prop := exponent bits ≠ 2 ^ 11 - 1

instance (bits : UInt64) : Decidable (Finite bits) := inferInstanceAs (Decidable (_ ≠ _))

/-- The absolute value of a finite double, in units of `2 ^ (-1074)`. -/
def units (bits : UInt64) : ℕ :=
  (if exponent bits = 0 then fraction bits else fraction bits + 2 ^ 52) * 2 ^ (exponent bits - 1)

/-- The integer that a finite double is, if it is one. -/
def integer (bits : UInt64) : Option ℤ :=
  if units bits % 2 ^ 1074 = 0 then
    some (if negative bits then -(units bits / 2 ^ 1074 : ℕ) else (units bits / 2 ^ 1074 : ℕ))
  else none

/-- The double is finite, and below `2 ^ 63` in absolute value. -/
def InRange (bits : UInt64) : Prop := Finite bits ∧ units bits < 2 ^ 63 * 2 ^ 1074

instance (bits : UInt64) : Decidable (InRange bits) := inferInstanceAs (Decidable (_ ∧ _))

def isNaN (bits : UInt64) : Bool := exponent bits = 2 ^ 11 - 1 && fraction bits ≠ 0

/-- The comparison of doubles: a NaN is equal to nothing, and the zeros are equal. -/
def equal (a b : UInt64) : Bool :=
  !isNaN a && !isNaN b && (a = b || (exponent a = 0 && fraction a = 0 && exponent b = 0 && fraction b = 0))

/-! ## Counts -/

/-- The conversion of a count below `2 ^ 64`: to the nearest double, and of two to the one with an even fraction. -/
def ofNat (n : ℕ) : UInt64 :=
  if n = 0 then 0
  else
    let e := n.log2
    if e ≤ 52 then UInt64.ofNat ((1023 + e) * 2 ^ 52 + (n - 2 ^ e) * 2 ^ (52 - e))
    else
      let q := n / 2 ^ (e - 52)
      let r := n % 2 ^ (e - 52)
      let q := if r * 2 > 2 ^ (e - 52) ∨ (r * 2 = 2 ^ (e - 52) ∧ q % 2 = 1) then q + 1 else q
      UInt64.ofNat ((1023 + e) * 2 ^ 52 + (q - 2 ^ 52))

end Souxmar.Lib.Double
