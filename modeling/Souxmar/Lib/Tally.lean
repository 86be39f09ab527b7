import Mathlib.Data.List.Count
import Mathlib.Data.List.Dedup
import Mathlib.Data.List.Nodup
import Mathlib.Data.List.Perm.Basic

/-!
# Counting by key

How often a key occurs in a list, and the elements whose key occurs once. Such elements are told apart by their
keys, so a list without repeated keys that has the same elements is the same up to order.
-/

namespace Souxmar.Lib

variable {α κ : Type*} [DecidableEq κ] (key : α → κ)

/-- How often a key occurs. -/
def tally (k : κ) (l : List α) : ℕ := l.countP fun a => key a = k

/-- The elements whose key occurs once. -/
def once (l : List α) : List α := l.filter fun a => tally key (key a) l = 1

theorem tally_append (k : κ) (l l' : List α) : tally key k (l ++ l') = tally key k l + tally key k l' :=
  List.countP_append

theorem tally_singleton (k : κ) (a : α) : tally key k [a] = if key a = k then 1 else 0 := by
  rw [tally, List.countP_singleton]
  simp only [decide_eq_true_eq]

variable {key}

theorem tally_pos_iff {k : κ} {l : List α} : 0 < tally key k l ↔ ∃ a ∈ l, key a = k := by
  rw [tally, List.countP_pos_iff]
  simp only [decide_eq_true_eq]

theorem tally_eq_zero_iff {k : κ} {l : List α} : tally key k l = 0 ↔ ∀ a ∈ l, key a ≠ k := by
  rw [tally, List.countP_eq_zero]
  simp only [decide_eq_true_eq]

/-- Counting the keys. -/
theorem count_map [BEq κ] [LawfulBEq κ] (k : κ) (l : List α) : (l.map key).count k = tally key k l := by
  rw [List.count_eq_countP, List.countP_map]
  apply List.countP_congr
  intro a _
  rw [Function.comp_apply, beq_iff_eq, decide_eq_true_eq]

theorem mem_once {a : α} {l : List α} : a ∈ once key l ↔ a ∈ l ∧ tally key (key a) l = 1 := by
  rw [once, List.mem_filter, decide_eq_true_eq]

theorem eq_of_tally_one {l : List α} {a b : α} (ha : a ∈ l) (hb : b ∈ l) (hkey : key a = key b)
    (hone : tally key (key b) l = 1) : a = b := by
  obtain ⟨l₁, l₂, rfl⟩ := List.append_of_mem hb
  rw [← List.singleton_append, tally_append, tally_append, tally_singleton, if_pos rfl] at hone
  have h₁ : tally key (key b) l₁ = 0 := by omega
  have h₂ : tally key (key b) l₂ = 0 := by omega
  rw [tally_eq_zero_iff] at h₁ h₂
  rcases List.mem_append.mp ha with ha | ha
  · exact absurd hkey (h₁ a ha)
  rcases List.mem_cons.mp ha with ha | ha
  · exact ha
  · exact absurd hkey (h₂ a ha)

theorem once_keys_nodup (l : List α) : ((once key l).map key).Nodup := by
  rw [List.nodup_iff_count_le_one]
  intro k
  rw [List.count_eq_countP, List.countP_map]
  by_cases hk : ∃ a ∈ once key l, key a = k
  · obtain ⟨a, ha, rfl⟩ := hk
    have hone := (mem_once.mp ha).2
    have hle : tally key (key a) (once key l) ≤ tally key (key a) l := List.Sublist.countP_le List.filter_sublist
    simp only [tally] at hle hone
    simp only [Function.comp_def, beq_eq_decide]
    omega
  · have hzero : tally key k (once key l) = 0 := tally_eq_zero_iff.mpr fun a ha hkey => hk ⟨a, ha, hkey⟩
    simp only [tally] at hzero
    simp only [Function.comp_def, beq_eq_decide, hzero, Nat.zero_le]

theorem perm_once {l l' : List α} (hkeys : (l'.map key).Nodup)
    (hmem : ∀ a, a ∈ l' ↔ a ∈ l ∧ tally key (key a) l = 1) : l'.Perm (once key l) := by
  apply (List.perm_ext_iff_of_nodup (List.Nodup.of_map key hkeys) (List.Nodup.of_map key (once_keys_nodup l))).mpr
  intro a
  rw [hmem, mem_once]

theorem perm_groups {keys : List κ} (hkeys : keys.Nodup) {l : List α} (hall : ∀ a ∈ l, key a ∈ keys) :
    (keys.flatMap fun k => l.filter fun a => key a = k).Perm l := by
  induction keys generalizing l with
  | nil =>
    have hnil : l = [] := List.eq_nil_iff_forall_not_mem.mpr fun a ha => List.not_mem_nil (hall a ha)
    rw [hnil]
    exact List.Perm.refl _
  | cons k keys ih =>
    obtain ⟨hk, hkeys'⟩ := List.nodup_cons.mp hkeys
    -- the others are found among those that do not have this key
    have hothers : (keys.flatMap fun k' => l.filter fun a => key a = k') =
        keys.flatMap fun k' => (l.filter fun a => !decide (key a = k)).filter fun a => key a = k' := by
      apply List.flatMap_congr
      intro k' hk'
      rw [List.filter_filter]
      apply List.filter_congr
      intro a _
      by_cases ha : key a = k'
      · have hne : key a ≠ k := fun h => hk (h ▸ ha ▸ hk')
        rw [decide_eq_true ha, decide_eq_false hne]
        rfl
      · rw [decide_eq_false ha, Bool.false_and]
    have hrest : ∀ a ∈ l.filter fun a => !decide (key a = k), key a ∈ keys := by
      intro a ha
      obtain ⟨hin, hne⟩ := List.mem_filter.mp ha
      refine (List.mem_cons.mp (hall a hin)).resolve_left fun h => ?_
      rw [decide_eq_true h] at hne
      cases hne
    rw [List.flatMap_cons, hothers]
    exact ((ih hkeys' hrest).append_left _).trans (List.filter_append_perm _ l)

end Souxmar.Lib
