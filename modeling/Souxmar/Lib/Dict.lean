import Mathlib.Data.List.AList

/-!
# Dictionaries

`Dict α β` is the library's association list with distinct keys, at a constant value type. What is
added here is filtering by a predicate on the entries and the lookup rules that go with it.
-/

namespace Souxmar.Lib

/-- A finite map from `α` to `β`. -/
abbrev Dict (α : Type*) (β : Type*) := AList (fun _ : α => β)

namespace Dict

variable {α β : Type*}

/-- The entries that satisfy `p`. -/
def filter (p : α → β → Bool) (d : Dict α β) : Dict α β where
  entries := d.entries.filter fun e => p e.1 e.2
  nodupKeys := List.NodupKeys.sublist List.filter_sublist d.nodupKeys

variable [DecidableEq α]

theorem lookup_filter (p : α → β → Bool) (d : Dict α β) (a : α) :
    (d.filter p).lookup a = (d.lookup a).filter (p a) := by
  ext b
  rw [← Option.mem_def, AList.mem_lookup_iff, Option.filter_eq_some_iff, ← Option.mem_def,
    AList.mem_lookup_iff]
  simp [filter]

/-- What is found after an insertion is the new entry or an old one. -/
theorem of_lookup_insert {d : Dict α β} {a a' : α} {b b' : β} (h : (d.insert a b).lookup a' = some b') :
    a' = a ∧ b' = b ∨ a' ≠ a ∧ d.lookup a' = some b' := by
  by_cases heq : a' = a
  · subst heq
    rw [AList.lookup_insert] at h
    exact Or.inl ⟨rfl, (Option.some.inj h).symm⟩
  · rw [AList.lookup_insert_ne heq] at h
    exact Or.inr ⟨heq, h⟩

/-- `emplace`: the first value stored under a key stays. -/
def emplace (a : α) (b : β) (d : Dict α β) : Dict α β :=
  if a ∈ d then d else d.insert a b

theorem lookup_emplace (a a' : α) (b : β) (d : Dict α β) :
    (d.emplace a b).lookup a' =
      if a' = a then some ((d.lookup a).getD b) else d.lookup a' := by
  unfold emplace
  split_ifs with hmem heq heq
  · subst heq
    obtain ⟨v, hv⟩ := Option.isSome_iff_exists.mp (AList.lookup_isSome.mpr hmem)
    simp [hv]
  · rfl
  · subst heq
    rw [AList.lookup_insert, AList.lookup_eq_none.mpr hmem, Option.getD_none]
  · rw [AList.lookup_insert_ne heq]

theorem mem_emplace (a a' : α) (b : β) (d : Dict α β) :
    a' ∈ d.emplace a b ↔ a' = a ∨ a' ∈ d := by
  rw [← AList.lookup_isSome, ← AList.lookup_isSome, lookup_emplace]
  by_cases heq : a' = a <;> simp [heq]

theorem lookup_erase_insert {a : α} {d : Dict α β} (h : a ∉ d) (b : β) (a' : α) :
    ((d.insert a b).erase a).lookup a' = d.lookup a' := by
  by_cases heq : a' = a
  · rw [heq, AList.lookup_erase, AList.lookup_eq_none.mpr h]
  · rw [AList.lookup_erase_ne heq, AList.lookup_insert_ne heq]

end Dict

end Souxmar.Lib
