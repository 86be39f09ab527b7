import Mathlib.Data.List.Basic
import Mathlib.Data.Nat.Notation

/-!
# Ragged arrays

Rows of different lengths stored one after the other, with the offsets where they start: `offsets rows` has
one entry for each row and one for the end.
-/

namespace Souxmar.Lib.Ragged

variable {α : Type*}

/-- Where the rows start, and where the last one ends. -/
def offsets (rows : List (List α)) : List ℕ :=
  (List.range (rows.length + 1)).map fun i => (rows.take i).flatten.length

@[simp] theorem offsets_nil : offsets ([] : List (List α)) = [0] := rfl

@[simp] theorem length_offsets (rows : List (List α)) : (offsets rows).length = rows.length + 1 := by
  simp [offsets]

theorem offsets_concat (rows : List (List α)) (row : List α) :
    offsets (rows ++ [row]) = offsets rows ++ [rows.flatten.length + row.length] := by
  have hlast : ((rows ++ [row]).take (rows.length + 1)).flatten.length =
      rows.flatten.length + row.length := by
    rw [List.take_of_length_le (by simp), List.flatten_append, List.length_append]
    simp
  have hbefore : ∀ i ∈ List.range (rows.length + 1),
      ((rows ++ [row]).take i).flatten.length = (rows.take i).flatten.length := by
    intro i hi
    rw [List.mem_range] at hi
    rw [List.take_append_of_le_length (by omega)]
  unfold offsets
  rw [List.length_append, List.length_singleton, List.range_succ, List.map_append, List.map_singleton,
    hlast, List.map_congr_left hbefore]

theorem offsets_cons (row : List α) (rows : List (List α)) :
    offsets (row :: rows) = 0 :: (offsets rows).map (row.length + ·) := by
  unfold offsets
  rw [List.length_cons, List.range_succ_eq_map, List.map_cons, List.map_map, List.map_map]
  congr 1
  apply List.map_congr_left
  intro i _
  rw [Function.comp_apply, Function.comp_apply, List.take_succ_cons, List.flatten_cons, List.length_append]

theorem getElem_offsets {rows : List (List α)} {i : ℕ} (hi : i < (offsets rows).length) :
    (offsets rows)[i] = (rows.take i).flatten.length := by
  simp [offsets]

theorem head_offsets (rows : List (List α)) : (offsets rows).head? = some 0 := by
  rw [List.head?_eq_getElem?, List.getElem?_eq_getElem (by simp), getElem_offsets]
  simp

theorem getLast_offsets (rows : List (List α)) :
    (offsets rows).getLast? = some rows.flatten.length := by
  rw [List.getLast?_eq_getElem?, length_offsets, List.getElem?_eq_getElem (by simp), getElem_offsets]
  simp

/-- One row on. -/
theorem length_take_succ {rows : List (List α)} {i : ℕ} (hi : i < rows.length) :
    (rows.take (i + 1)).flatten.length = (rows.take i).flatten.length + rows[i].length := by
  rw [List.take_succ_eq_append_getElem hi, List.flatten_append, List.length_append]
  simp

theorem length_flatten_le {rows more : List (List α)} (h : rows <+: more) :
    rows.flatten.length ≤ more.flatten.length := by
  obtain ⟨rest, rfl⟩ := h
  rw [List.flatten_append, List.length_append]
  omega

theorem offsets_ascend (rows : List (List α)) : (offsets rows).Pairwise (· ≤ ·) := by
  rw [List.pairwise_iff_getElem]
  intro i j hi hj hij
  rw [getElem_offsets, getElem_offsets]
  obtain ⟨k, rfl⟩ := Nat.exists_eq_add_of_lt hij
  have htake : rows.take i <+: rows.take (i + k + 1) := List.take_prefix_take_left (by omega)
  exact length_flatten_le htake

theorem le_of_mem_offsets {rows : List (List α)} {n : ℕ} (h : n ∈ offsets rows) :
    n ≤ rows.flatten.length := by
  obtain ⟨i, -, rfl⟩ := List.mem_map.mp h
  exact length_flatten_le (List.take_prefix i rows)

theorem slice {rows : List (List α)} {i : ℕ} (hi : i < rows.length) :
    (rows.flatten.drop (rows.take i).flatten.length).take rows[i].length = rows[i] := by
  have hsplit : rows.flatten = (rows.take i).flatten ++ (rows[i] ++ (rows.drop (i + 1)).flatten) := by
    have hrows : rows = rows.take i ++ rows[i] :: rows.drop (i + 1) := by
      rw [← List.drop_eq_getElem_cons hi, List.take_append_drop]
    conv_lhs => rw [hrows]
    rw [List.flatten_append, List.flatten_cons]
  rw [hsplit, List.drop_left, List.take_left]

/-- An entry of a row, counted from the start of the row. -/
theorem getElem?_row {rows : List (List α)} {i k : ℕ} {row : List α} (hi : rows[i]? = some row)
    (hk : k < row.length) : rows.flatten[(rows.take i).flatten.length + k]? = row[k]? := by
  obtain ⟨hlt, rfl⟩ := List.getElem?_eq_some_iff.mp hi
  have hslice := slice hlt
  conv_rhs => rw [← hslice, List.getElem?_take_of_lt hk, List.getElem?_drop]

theorem length_take_flatten {rows : List (List α)} {width i : ℕ} (hrows : ∀ row ∈ rows, row.length = width)
    (hi : i ≤ rows.length) : (rows.take i).flatten.length = i * width := by
  induction i with
  | zero => simp
  | succ i ih =>
    rw [length_take_succ (by omega), ih (by omega), hrows _ (List.getElem_mem _), Nat.succ_mul]

/-- What lies between each of the offsets and the one before it, from 0 on. -/
def split (offsets : List ℕ) (l : List α) : List (List α) :=
  ((0 :: offsets).zip offsets).map fun o => (l.take o.2).drop o.1

theorem split_offsets (rows : List (List α)) : split (offsets rows).tail rows.flatten = rows := by
  have hcons : 0 :: (offsets rows).tail = offsets rows := List.cons_head?_tail (head_offsets rows)
  have hlength := length_offsets rows
  unfold split
  rw [hcons]
  apply List.ext_getElem
  · rw [List.length_map, List.length_zip, List.length_tail, hlength]
    omega
  · intro i hi hi'
    rw [List.getElem_map, List.getElem_zip, getElem_offsets, List.getElem_tail, getElem_offsets, length_take_succ hi',
      List.drop_take, Nat.add_sub_cancel_left, slice hi']

end Souxmar.Lib.Ragged
