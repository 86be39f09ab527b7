import Mathlib.Data.List.Sort
import Mathlib.Data.List.Perm.Subperm
import Mathlib.Logic.Equiv.Basic

/-!
# Sorting without stability

A `Sorter` is a sort that may leave elements that compare equal in any order. What it makes of a list is determined
exactly when no two elements of the list compare equal.
-/

namespace Souxmar.Lib

variable {α : Type*}

/-- A sort by `lt`. -/
structure Sorter (lt : α → α → Prop) where
  sort : List α → List α
  perm : ∀ l, (sort l).Perm l
  sorted : ∀ l, (sort l).Pairwise fun a b => ¬lt b a

namespace Sorter

variable {lt : α → α → Prop}

theorem mem_sort (s : Sorter lt) {l : List α} {a : α} : a ∈ s.sort l ↔ a ∈ l := (s.perm l).mem_iff

/-- Where no two elements compare equal, lists with the same elements are sorted the same. -/
theorem sort_eq (s s' : Sorter lt) {l l' : List α} (hperm : l.Perm l')
    (htotal : ∀ a ∈ l, ∀ b ∈ l, ¬lt a b → ¬lt b a → a = b) : s.sort l = s'.sort l' := by
  apply ((s.perm l).trans (hperm.trans (s'.perm l').symm)).eq_of_pairwise _ (s.sorted l) (s'.sorted l')
  intro a b ha hb hba hab
  exact htotal a (s.mem_sort.mp ha) b (hperm.mem_iff.mpr (s'.mem_sort.mp hb)) hab hba

/-- Sorting by a key. -/
def byKey {β : Type*} [LinearOrder β] (key : α → β) (h : ∀ a b, lt a b ↔ key a < key b) : Sorter lt where
  sort := List.insertionSort fun a b => key a ≤ key b
  perm := List.perm_insertionSort _
  sorted l := by
    have htotal : Std.Total fun a b => key a ≤ key b := ⟨fun a b => le_total (key a) (key b)⟩
    have htrans : IsTrans α fun a b => key a ≤ key b := ⟨fun a b c => le_trans⟩
    apply (List.pairwise_insertionSort _ l).imp
    intro a b hab
    rw [h]
    exact hab.not_gt

/-- A sort that makes this of one list, and elsewhere what another sort does. -/
def override [DecidableEq α] (s : Sorter lt) {l l' : List α} (hperm : l'.Perm l)
    (hsorted : l'.Pairwise fun a b => ¬lt b a) : Sorter lt where
  sort x := if x = l then l' else s.sort x
  perm x := by
    split_ifs with h
    · rwa [h]
    · exact s.perm x
  sorted x := by
    split_ifs with h
    · exact hsorted
    · exact s.sorted x

theorem override_sort [DecidableEq α] (s : Sorter lt) {l l' : List α} (hperm : l'.Perm l)
    (hsorted : l'.Pairwise fun a b => ¬lt b a) : (s.override hperm hsorted).sort l = l' := if_pos rfl

/-! ## Elements in either order -/

/-- Elements that the order does not tell apart. -/
def Tied (lt : α → α → Prop) (a b : α) : Prop := ∀ x, (lt a x ↔ lt b x) ∧ (lt x a ↔ lt x b)

theorem Tied.swap [DecidableEq α] {a b : α} (h : Tied lt a b) (x y : α) :
    lt (Equiv.swap a b x) (Equiv.swap a b y) ↔ lt x y := by
  have hleft : ∀ x z, lt (Equiv.swap a b x) z ↔ lt x z := by
    intro x z
    rw [Equiv.swap_apply_def]
    split_ifs with ha hb
    · rw [ha]
      exact (h z).1.symm
    · rw [hb]
      exact (h z).1
    · exact Iff.rfl
  have hright : ∀ x y, lt x (Equiv.swap a b y) ↔ lt x y := by
    intro x y
    rw [Equiv.swap_apply_def]
    split_ifs with ha hb
    · rw [ha]
      exact (h x).2.symm
    · rw [hb]
      exact (h x).2
    · exact Iff.rfl
  exact (hleft x _).trans (hright x y)

theorem perm_map_swap [DecidableEq α] {l : List α} (h : l.Nodup) {a b : α} (ha : a ∈ l) (hb : b ∈ l) :
    (l.map (Equiv.swap a b)).Perm l := by
  rw [List.perm_ext_iff_of_nodup (h.map (Equiv.swap a b).injective) h]
  have hstay : ∀ x ∈ l, Equiv.swap a b x ∈ l := by
    intro x hx
    rw [Equiv.swap_apply_def]
    split_ifs
    · exact hb
    · exact ha
    · exact hx
  intro x
  rw [List.mem_map]
  constructor
  · rintro ⟨y, hy, rfl⟩
    exact hstay y hy
  · intro hx
    exact ⟨Equiv.swap a b x, hstay x hx, Equiv.swap_apply_self a b x⟩

section

variable [DecidableEq α] (s : Sorter lt) {a b : α} (htied : Tied lt a b) {l : List α} (hnodup : l.Nodup) (ha : a ∈ l)
  (hb : b ∈ l)

include hnodup ha hb in
theorem perm_exchange : ((s.sort l).map (Equiv.swap a b)).Perm l :=
  (perm_map_swap ((s.perm l).nodup_iff.mpr hnodup) (s.mem_sort.mpr ha) (s.mem_sort.mpr hb)).trans (s.perm l)

include htied in
theorem sorted_exchange (l : List α) : ((s.sort l).map (Equiv.swap a b)).Pairwise fun x y => ¬lt y x :=
  List.pairwise_map.mpr ((s.sorted l).imp fun hnot hlt => hnot ((htied.swap _ _).mp hlt))

/-- A sort that exchanges two tied elements of a list. -/
def exchange : Sorter lt := s.override (s.perm_exchange hnodup ha hb) (s.sorted_exchange htied l)

theorem exchange_sort : (s.exchange htied hnodup ha hb).sort l = (s.sort l).map (Equiv.swap a b) :=
  s.override_sort _ _

end

end Sorter

end Souxmar.Lib
