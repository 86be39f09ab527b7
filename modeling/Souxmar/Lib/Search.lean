import Mathlib.Data.List.Basic
import Mathlib.Data.Nat.Notation

/-!
# Searching a text

`std::string_view::find`: the first place of a text, from a position on, where a word begins.
-/

namespace Souxmar.Lib.Search

variable {α : Type*} [DecidableEq α] {s word : List α} {pos i : ℕ}

def find (s word : List α) (pos : ℕ) : Option ℕ :=
  (List.range' pos (s.length + 1 - pos)).find? fun i => decide (word <+: s.drop i)

omit [DecidableEq α] in
theorem add_length_le (h : word <+: s.drop i) (hword : word ≠ []) : i + word.length ≤ s.length := by
  have hlen := h.length_le
  have hpos := List.length_pos_iff.mpr hword
  rw [List.length_drop] at hlen
  omega

theorem find_eq_some (hword : word ≠ []) : find s word pos = some i ↔
    pos ≤ i ∧ word <+: s.drop i ∧ ∀ j, pos ≤ j → j < i → ¬word <+: s.drop j := by
  unfold find
  rw [List.find?_range'_eq_some]
  constructor
  · rintro ⟨hi, hmem, hbefore⟩
    have hbounds := List.mem_range'_1.mp hmem
    exact ⟨hbounds.1, of_decide_eq_true hi, fun j hj hji => by simpa using hbefore j hj hji⟩
  · rintro ⟨hpos, hi, hbefore⟩
    have hlen := add_length_le hi hword
    refine ⟨decide_eq_true hi, List.mem_range'_1.mpr ⟨hpos, by omega⟩, fun j hj hji => ?_⟩
    simpa using hbefore j hj hji

theorem find_eq_none (hword : word ≠ []) : find s word pos = none ↔ ∀ j, pos ≤ j → ¬word <+: s.drop j := by
  unfold find
  rw [List.find?_range'_eq_none]
  constructor
  · intro h j hj hat
    have hlen := add_length_le hat hword
    have hnot := h j hj (by omega)
    simp [hat] at hnot
  · intro h j hj _
    simpa using h j hj

theorem find_char {c : α} {front rest : List α} (h : s.drop pos = front ++ c :: rest) (hfront : c ∉ front) :
    find s [c] pos = some (pos + front.length) := by
  have hdrop : ∀ k, s.drop (pos + k) = (front ++ c :: rest).drop k := fun k => by rw [← h, List.drop_drop]
  refine (find_eq_some (List.cons_ne_nil _ _)).mpr ⟨Nat.le_add_right .., ?_, fun j hj hji hat => hfront ?_⟩
  · rw [hdrop, List.drop_left]
    exact ⟨rest, rfl⟩
  · obtain ⟨k, rfl⟩ := Nat.exists_eq_add_of_le hj
    have hk : k < front.length := Nat.lt_of_add_lt_add_left hji
    obtain ⟨more, hmore⟩ := hat
    rw [hdrop, List.drop_append_of_le_length (Nat.le_of_lt hk), List.drop_eq_getElem_cons hk] at hmore
    rw [(List.cons.inj hmore).1]
    exact List.getElem_mem hk

theorem front_unique {c : α} {front front' rest rest' : List α} (h : front ++ c :: rest = front' ++ c :: rest')
    (hfront : c ∉ front) (hfront' : c ∉ front') : front = front' := by
  have hfind : find (front ++ c :: rest) [c] 0 = some (0 + front.length) := find_char rfl hfront
  have hfind' : find (front ++ c :: rest) [c] 0 = some (0 + front'.length) := find_char h hfront'
  rw [hfind] at hfind'
  exact List.append_inj_left h (by simpa using hfind')

theorem find_char_none {c : α} (h : c ∉ s.drop pos) : find s [c] pos = none := by
  refine (find_eq_none (List.cons_ne_nil _ _)).mpr fun j hj hat => h ?_
  obtain ⟨k, rfl⟩ := Nat.exists_eq_add_of_le hj
  rw [← List.drop_drop] at hat
  exact List.mem_of_mem_drop (hat.subset List.mem_cons_self)

/-- A search from a position sees what is behind it only. -/
theorem find_append (front : List α) (hword : word ≠ []) (k : ℕ) :
    find (front ++ s) word (front.length + k) = (find s word k).map (front.length + ·) := by
  have hdrop : ∀ j, (front ++ s).drop (front.length + j) = s.drop j := fun j => by
    rw [List.drop_append, List.drop_eq_nil_of_le (Nat.le_add_right ..), Nat.add_sub_cancel_left, List.nil_append]
  cases hfind : find s word k with
  | none =>
    refine (find_eq_none hword).mpr fun j hj hat => ?_
    obtain ⟨j, rfl⟩ := Nat.exists_eq_add_of_le (Nat.le_trans (Nat.le_add_right ..) hj)
    rw [hdrop] at hat
    exact (find_eq_none hword).mp hfind j (by omega) hat
  | some i =>
    obtain ⟨hk, hi, hbefore⟩ := (find_eq_some hword).mp hfind
    refine (find_eq_some hword).mpr ⟨Nat.add_le_add_left hk _, (hdrop i).symm ▸ hi, fun j hj hji hat => ?_⟩
    obtain ⟨j, rfl⟩ := Nat.exists_eq_add_of_le (Nat.le_trans (Nat.le_add_right ..) hj)
    rw [hdrop] at hat
    exact hbefore j (Nat.le_of_add_le_add_left hj) (Nat.lt_of_add_lt_add_left hji) hat

end Souxmar.Lib.Search
