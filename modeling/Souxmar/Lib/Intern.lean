import Mathlib.Algebra.BigOperators.Group.List.Lemmas
import Mathlib.Data.List.Dedup

/-!
# Interning

Values numbered in the order of their first occurrence: the number of a value is its place in the list of those seen so
far. What is numbered keeps its number.
-/

namespace Souxmar.Lib.Intern

variable {α : Type*} [DecidableEq α]

/-- Adds a value unless it is there. -/
def intern (seen : List α) (a : α) : List α := if a ∈ seen then seen else seen ++ [a]

theorem intern_of_mem {seen : List α} {a : α} (h : a ∈ seen) : intern seen a = seen := if_pos h

theorem intern_of_notMem {seen : List α} {a : α} (h : a ∉ seen) : intern seen a = seen ++ [a] := if_neg h

theorem prefix_intern (seen : List α) (a : α) : seen <+: intern seen a := by
  unfold intern
  split_ifs with h
  · exact List.prefix_refl seen
  · exact List.prefix_append seen [a]

theorem mem_intern {seen : List α} {a b : α} : b ∈ intern seen a ↔ b ∈ seen ∨ b = a := by
  unfold intern
  split_ifs with h
  · exact ⟨Or.inl, fun hb => hb.elim id fun hba => hba ▸ h⟩
  · rw [List.mem_append, List.mem_singleton]

theorem mem_intern_self (seen : List α) (a : α) : a ∈ intern seen a := mem_intern.mpr (Or.inr rfl)

theorem nodup_intern {seen : List α} (h : seen.Nodup) (a : α) : (intern seen a).Nodup := by
  unfold intern
  split_ifs with ha
  · exact h
  · exact List.nodup_append.mpr ⟨h, List.nodup_singleton a, fun b hb c hc hbc => ha (List.mem_singleton.mp hc ▸ hbc ▸ hb)⟩

theorem idxOf_intern_of_notMem {seen : List α} {a : α} (h : a ∉ seen) : (intern seen a).idxOf a = seen.length := by
  rw [intern_of_notMem h, List.idxOf_append_of_notMem h, List.idxOf_cons_self, Nat.add_zero]

theorem idxOf_intern_of_mem {seen : List α} {a b : α} (h : b ∈ seen) : (intern seen a).idxOf b = seen.idxOf b := by
  unfold intern
  split_ifs
  · rfl
  · exact List.idxOf_append_of_mem h

/-- The values of a list in the order of their first occurrence. -/
def interned (l : List α) : List α := l.foldl intern []

theorem interned_concat (l : List α) (a : α) : interned (l ++ [a]) = intern (interned l) a := by
  rw [interned, List.foldl_append]
  rfl

theorem mem_interned {l : List α} {a : α} : a ∈ interned l ↔ a ∈ l := by
  induction l using List.reverseRecOn with
  | nil => rfl
  | append_singleton l b ih => rw [interned_concat, mem_intern, ih, List.mem_append, List.mem_singleton]

theorem interned_concat_of_mem {l : List α} {a : α} (h : a ∈ l) : interned (l ++ [a]) = interned l := by
  rw [interned_concat, intern_of_mem (mem_interned.mpr h)]

theorem length_interned_concat {l : List α} {a : α} (h : a ∉ l) : (interned (l ++ [a])).length = (interned l).length + 1 := by
  rw [interned_concat, intern_of_notMem fun hin => h (mem_interned.mp hin), List.length_append, List.length_singleton]

theorem interned_of_nodup {l : List α} (h : l.Nodup) : interned l = l := by
  induction l using List.reverseRecOn with
  | nil => rfl
  | append_singleton l a ih =>
    obtain ⟨hl, -, hdisjoint⟩ := List.nodup_append.mp h
    have ha : a ∉ l := fun hin => hdisjoint a hin a (List.mem_singleton.mpr rfl) rfl
    rw [interned_concat, intern_of_notMem fun hin => ha (mem_interned.mp hin), ih hl]

/-- The number of a value of a list. -/
def number (l : List α) (a : α) : ℕ := (interned l).idxOf a

theorem number_lt {l : List α} {a : α} (h : a ∈ l) : number l a < (interned l).length :=
  List.idxOf_lt_length_of_mem (mem_interned.mpr h)

theorem number_inj {l : List α} {a b : α} (ha : a ∈ l) : number l a = number l b ↔ a = b :=
  List.idxOf_inj (mem_interned.mpr ha)

/-- A longer list leaves the numbers of a shorter one as they are. -/
theorem number_append {l : List α} {a : α} (h : a ∈ l) (more : List α) : number (l ++ more) a = number l a := by
  unfold number
  induction more using List.reverseRecOn with
  | nil => rw [List.append_nil]
  | append_singleton more b ih =>
    rw [← List.append_assoc, interned_concat, idxOf_intern_of_mem (mem_interned.mpr (List.mem_append_left _ h)), ih]

theorem number_concat_of_mem {l : List α} {a : α} (h : a ∈ l) (b : α) : number (l ++ [a]) b = number l b := by
  rw [number, number, interned_concat_of_mem h]

theorem number_concat {l : List α} {a : α} (h : a ∉ l) : number (l ++ [a]) a = (interned l).length := by
  rw [number, interned_concat, idxOf_intern_of_notMem fun hin => h (mem_interned.mp hin)]

/-- A number in use is the one of the value there. -/
theorem eq_idxOf_iff {seen : List α} (hnodup : seen.Nodup) {i : ℕ} (hi : i < seen.length) {a : α} (ha : a ∈ seen) :
    i = seen.idxOf a ↔ seen[i] = a := by
  constructor
  · rintro rfl
    exact List.getElem_idxOf hi
  · rintro rfl
    exact (hnodup.idxOf_getElem i hi).symm

theorem getD_idxOf {seen : List α} {a : α} (ha : a ∈ seen) (d : α) : seen.getD (seen.idxOf a) d = a := by
  rw [List.getD_eq_getElem?_getD, List.getElem?_eq_getElem (List.idxOf_lt_length_of_mem ha), List.getElem_idxOf]
  rfl

theorem two_mul_length_le {seen l : List α} (hnodup : seen.Nodup) (hsub : ∀ a ∈ seen, a ∈ l)
    (htwice : ∀ a ∈ l, l.count a = 2) : 2 * seen.length ≤ l.length := by
  have hle : seen.length ≤ l.dedup.length :=
    (List.subperm_of_subset hnodup fun a ha => List.mem_dedup.mpr (hsub a ha)).length_le
  have hcount := List.sum_map_count_dedup_eq_length l
  have hconst : (l.dedup.map fun a => l.count a) = l.dedup.map fun _ => 2 :=
    List.map_congr_left fun a ha => htwice a (List.mem_dedup.mp ha)
  rw [hconst, List.map_const', List.sum_replicate_nat] at hcount
  omega

/-! ## Pairs -/

/-- Both members of every pair. -/
def ends (raw : List (α × α)) : List α := raw.flatMap fun r => [r.1, r.2]

omit [DecidableEq α] in
theorem ends_cons (r : α × α) (raw : List (α × α)) : ends (r :: raw) = r.1 :: r.2 :: ends raw := rfl

omit [DecidableEq α] in
theorem ends_concat (raw : List (α × α)) (r : α × α) : ends (raw ++ [r]) = ends raw ++ [r.1, r.2] := by
  unfold ends
  rw [List.flatMap_append, List.flatMap_singleton]

omit [DecidableEq α] in
theorem mem_ends {raw : List (α × α)} {a : α} : a ∈ ends raw ↔ ∃ r ∈ raw, a = r.1 ∨ a = r.2 := by
  unfold ends
  rw [List.mem_flatMap]
  simp only [List.mem_cons, List.not_mem_nil, or_false]

omit [DecidableEq α] in
theorem length_ends (raw : List (α × α)) : (ends raw).length = 2 * raw.length := by
  induction raw with
  | nil => rfl
  | cons r raw ih =>
    rw [ends_cons, List.length_cons, List.length_cons, List.length_cons, ih]
    omega

theorem count_ends {raw : List (α × α)} (hloop : ∀ r ∈ raw, r.1 ≠ r.2) (a : α) :
    (ends raw).count a = raw.countP fun r => decide (a = r.1 ∨ a = r.2) := by
  induction raw with
  | nil => rfl
  | cons r raw ih =>
    obtain ⟨hr, hraw⟩ := List.forall_mem_cons.mp hloop
    rw [ends_cons, List.count_cons, List.count_cons, List.countP_cons, ih hraw]
    simp only [beq_iff_eq, decide_eq_true_iff]
    by_cases h₁ : a = r.1
    · rw [if_pos h₁.symm, if_pos (Or.inl h₁), if_neg fun h₂ => hr (h₁.symm.trans h₂.symm), Nat.add_zero]
    · by_cases h₂ : a = r.2
      · rw [if_pos h₂.symm, if_pos (Or.inr h₂), if_neg fun h => h₁ h.symm, Nat.add_zero]
      · rw [if_neg fun h => h₂ h.symm, if_neg fun h => h₁ h.symm, if_neg (not_or.mpr ⟨h₁, h₂⟩)]

theorem length_le_of_twice {raw : List (α × α)} (hloop : ∀ r ∈ raw, r.1 ≠ r.2)
    (htwice : ∀ a ∈ ends raw, (raw.countP fun r => decide (a = r.1 ∨ a = r.2)) = 2) {seen : List α}
    (hnodup : seen.Nodup) (hsub : ∀ a ∈ seen, a ∈ ends raw) : seen.length ≤ raw.length := by
  have hle := two_mul_length_le hnodup hsub fun a ha => (count_ends hloop a).trans (htwice a ha)
  rw [length_ends] at hle
  omega

end Souxmar.Lib.Intern
