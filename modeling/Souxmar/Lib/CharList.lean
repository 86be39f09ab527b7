import Mathlib.Data.Nat.Notation

/-!
# Deciding over the characters of a list

A statement about the characters of a list is decided by going through the list, not through all characters, and lists of
characters are compared by their characters.
-/

namespace Souxmar.Lib

instance decidableForallChar (p : Char → Prop) [DecidablePred p] (l : List Char) : Decidable (∀ c ∈ l, p c) :=
  List.decidableBAll p l

instance lawfulBEqChars : LawfulBEq (List Char) := inferInstance

end Souxmar.Lib
