import Mathlib.Algebra.BigOperators.Ring.Finset
import Souxmar.Lib.BinarySearch
import Souxmar.Lib.Ragged

/-!
# Compressed sparse rows

The columns and the values of a sparse matrix row by row, with the places where the rows start. Values are added at
places of the pattern; a list of additions is a bilinear form, and what the matrix does is what the form does.
-/

namespace Souxmar.Lib

structure Csr (K : Type*) where
  rowStart : List ℕ
  col : List ℕ
  val : List K

namespace Csr

variable {K : Type*}

/-! ## Operations -/

/-- The place of an entry; the columns of a row are sorted. -/
def find (A : Csr K) (r c : ℕ) : Option ℕ :=
  let lo := A.rowStart.getD r 0
  let hi := A.rowStart.getD (r + 1) 0
  let it := lowerBound (fun i => A.col.getD i 0 < c) lo (hi - lo)
  if it = hi ∨ A.col.getD it 0 ≠ c then none else some it

section

variable [CommRing K]

/-- One entry of the product with a vector. -/
def multiply (A : Csr K) (x : ℕ → K) (r : ℕ) : K :=
  let lo := A.rowStart.getD r 0
  let hi := A.rowStart.getD (r + 1) 0
  ((List.range' lo (hi - lo)).map fun k => A.val.getD k 0 * x (A.col.getD k 0)).sum

/-- An entry of the matrix. -/
def entry (A : Csr K) (r c : ℕ) : K :=
  match A.find r c with
  | some k => A.val.getD k 0
  | none => 0

def add (A : Csr K) (k : ℕ) (v : K) : Csr K := { A with val := A.val.modify k (· + v) }

/-- Values added to entries one after the other, as long as they are found. -/
def addAll (A : Csr K) (additions : List (ℕ × ℕ × K)) : Option (Csr K) :=
  additions.foldlM (fun A t => (A.find t.1 t.2.1).map fun k => A.add k t.2.2) A

end

/-! ## Patterns -/

/-- The matrix has these rows of columns. -/
structure HasRows (A : Csr K) (rows : List (List ℕ)) : Prop where
  rowStart : A.rowStart = Ragged.offsets rows
  col : A.col = rows.flatten
  val : A.val.length = rows.flatten.length
  sorted : ∀ row ∈ rows, row.Pairwise (· < ·)

section

variable {A : Csr K} {rows : List (List ℕ)}

/-- Where a row starts. -/
def start (rows : List (List ℕ)) (r : ℕ) : ℕ := (rows.take r).flatten.length

theorem start_succ {r : ℕ} (hr : r < rows.length) : start rows (r + 1) = start rows r + rows[r].length :=
  Ragged.length_take_succ hr

theorem start_mono (rows : List (List ℕ)) {r r' : ℕ} (h : r ≤ r') : start rows r ≤ start rows r' :=
  Ragged.length_flatten_le (List.take_prefix_take_left h)

theorem HasRows.getD_rowStart (h : HasRows A rows) {r : ℕ} (hr : r ≤ rows.length) :
    A.rowStart.getD r 0 = start rows r := by
  have hlt : r < (Ragged.offsets rows).length := by
    rw [Ragged.length_offsets]
    omega
  rw [h.rowStart, List.getD_eq_getElem?_getD, List.getElem?_eq_getElem hlt, Ragged.getElem_offsets]
  rfl

theorem HasRows.getD_col (h : HasRows A rows) {r j : ℕ} (hr : r < rows.length) (hj : j < rows[r].length) :
    A.col.getD (start rows r + j) 0 = rows[r][j] := by
  rw [h.col, List.getD_eq_getElem?_getD, start, Ragged.getElem?_row (List.getElem?_eq_getElem hr) hj,
    List.getElem?_eq_getElem hj]
  rfl

theorem HasRows.place_lt (h : HasRows A rows) {r j : ℕ} (hr : r < rows.length) (hj : j < rows[r].length) :
    start rows r + j < A.val.length := by
  have hnext := start_succ hr
  have hle : start rows (r + 1) ≤ rows.flatten.length := Ragged.length_flatten_le (List.take_prefix _ _)
  rw [h.val]
  omega

/-- The search finds the columns of a row, at their places. -/
theorem HasRows.find_iff (h : HasRows A rows) {r : ℕ} (hr : r < rows.length) {c k : ℕ} :
    A.find r c = some k ↔ ∃ j, rows[r][j]? = some c ∧ k = start rows r + j := by
  have hlo := h.getD_rowStart hr.le
  have hhi := h.getD_rowStart (Nat.add_one_le_of_lt hr)
  have hnext := start_succ hr
  have hsorted := List.pairwise_iff_getElem.mp (h.sorted _ (List.getElem_mem hr))
  have hlen : start rows (r + 1) - start rows r = rows[r].length := by omega
  have hbound : IsLowerBound (fun i => decide (A.col.getD i 0 < c)) (start rows r)
      (start rows r + rows[r].length)
      (lowerBound (fun i => decide (A.col.getD i 0 < c)) (start rows r) rows[r].length) := by
    apply isLowerBound_lowerBound
    intro i j hi hij hj hbefore
    obtain ⟨i', rfl⟩ := Nat.exists_eq_add_of_le hi
    obtain ⟨j', rfl⟩ := Nat.exists_eq_add_of_le (hi.trans hij)
    have hj' : j' < rows[r].length := by omega
    have hi' : i' < rows[r].length := by omega
    rw [decide_eq_true_eq] at hbefore ⊢
    rw [h.getD_col hr hj'] at hbefore
    rw [h.getD_col hr hi']
    rcases Nat.lt_or_ge i' j' with hlt | hge
    · exact (hsorted i' j' hi' hj' hlt).trans hbefore
    · obtain rfl : i' = j' := by omega
      exact hbefore
  unfold find
  dsimp only
  rw [hlo, hhi, hlen]
  generalize lowerBound (fun i => decide (A.col.getD i 0 < c)) (start rows r) rows[r].length = it at hbound
  constructor
  · intro hfind
    split_ifs at hfind with hmiss
    rw [not_or, not_not] at hmiss
    obtain rfl := Option.some.inj hfind
    obtain ⟨j, rfl⟩ := Nat.exists_eq_add_of_le hbound.low
    have hj : j < rows[r].length := by
      have hhigh := hbound.high
      have hne := hmiss.1
      omega
    refine ⟨j, ?_, rfl⟩
    rw [List.getElem?_eq_getElem hj, ← h.getD_col hr hj, hmiss.2]
  · rintro ⟨j, hget, rfl⟩
    obtain ⟨hj, hc⟩ := List.getElem?_eq_some_iff.mp hget
    have hit : it = start rows r + j := by
      rcases Nat.lt_trichotomy it (start rows r + j) with hlt | heq | hgt
      · have habove := hbound.above it le_rfl (by omega)
        obtain ⟨i, rfl⟩ := Nat.exists_eq_add_of_le hbound.low
        have hij : i < j := by omega
        rw [h.getD_col hr (hij.trans hj), decide_eq_false_iff_not] at habove
        exact absurd (hc ▸ hsorted i j (hij.trans hj) hj hij) habove
      · exact heq
      · have hbelow := hbound.below (start rows r + j) (Nat.le_add_right _ _) hgt
        rw [h.getD_col hr hj, hc, decide_eq_true_eq] at hbelow
        exact absurd hbelow (Nat.lt_irrefl c)
    have hmiss : ¬(it = start rows (r + 1) ∨ A.col.getD it 0 ≠ c) := by
      rw [not_or, not_not, hit, h.getD_col hr hj]
      exact ⟨by omega, hc⟩
    rw [if_neg hmiss, hit]

theorem HasRows.find_of_mem (h : HasRows A rows) {r : ℕ} (hr : r < rows.length) {c : ℕ} (hc : c ∈ rows[r]) :
    ∃ k, A.find r c = some k := by
  obtain ⟨j, hj⟩ := List.mem_iff_getElem?.mp hc
  exact ⟨start rows r + j, (h.find_iff hr).mpr ⟨j, hj, rfl⟩⟩

theorem HasRows.find_inj (h : HasRows A rows) {r r' c c' k : ℕ} (hr : r < rows.length) (hr' : r' < rows.length)
    (hfind : A.find r c = some k) (hfind' : A.find r' c' = some k) : r = r' ∧ c = c' := by
  obtain ⟨j, hget, hk⟩ := (h.find_iff hr).mp hfind
  obtain ⟨j', hget', hk'⟩ := (h.find_iff hr').mp hfind'
  obtain ⟨hj, -⟩ := List.getElem?_eq_some_iff.mp hget
  obtain ⟨hj', -⟩ := List.getElem?_eq_some_iff.mp hget'
  have hnext := start_succ hr
  have hnext' := start_succ hr'
  have hrow : r = r' := by
    rcases Nat.lt_trichotomy r r' with hlt | heq | hgt
    · have hmono := start_mono rows (Nat.add_one_le_of_lt hlt)
      omega
    · exact heq
    · have hmono := start_mono rows (Nat.add_one_le_of_lt hgt)
      omega
  subst hrow
  have hcol : j = j' := by omega
  subst hcol
  exact ⟨rfl, Option.some.inj (hget.symm.trans hget')⟩

end

/-! ## Additions -/

section

variable [CommRing K] {A : Csr K} {rows : List (List ℕ)}

theorem find_add (A : Csr K) (k : ℕ) (v : K) (r c : ℕ) : (A.add k v).find r c = A.find r c := rfl

theorem HasRows.add (h : HasRows A rows) (k : ℕ) (v : K) : HasRows (A.add k v) rows :=
  ⟨h.rowStart, h.col, (List.length_modify _ _ _).trans h.val, h.sorted⟩

theorem HasRows.entry_add (h : HasRows A rows) {r c k : ℕ} (hr : r < rows.length) (hfind : A.find r c = some k) (v : K)
    {r' : ℕ} (hr' : r' < rows.length) (c' : ℕ) :
    (A.add k v).entry r' c' = A.entry r' c' + if r = r' ∧ c = c' then v else 0 := by
  unfold entry
  rw [find_add]
  cases hfind' : A.find r' c' with
  | none =>
    have hne : ¬(r = r' ∧ c = c') := by
      rintro ⟨rfl, rfl⟩
      rw [hfind] at hfind'
      cases hfind'
    rw [if_neg hne, add_zero]
  | some k' =>
    obtain ⟨j, hget, hk⟩ := (h.find_iff hr).mp hfind
    obtain ⟨hj, -⟩ := List.getElem?_eq_some_iff.mp hget
    have hlt := h.place_lt hr hj
    rw [← hk] at hlt
    have hval : (A.add k v).val = A.val.modify k (· + v) := rfl
    dsimp only
    rw [hval]
    by_cases heq : k = k'
    · subst heq
      rw [if_pos (h.find_inj hr hr' hfind hfind'), List.getD_eq_getElem?_getD, List.getElem?_modify_eq,
        List.getD_eq_getElem?_getD, List.getElem?_eq_getElem hlt]
      rfl
    · have hne : ¬(r = r' ∧ c = c') := by
        rintro ⟨rfl, rfl⟩
        exact heq (Option.some.inj (hfind.symm.trans hfind'))
      rw [if_neg hne, add_zero, List.getD_eq_getElem?_getD, List.getElem?_modify_ne _ _ heq,
        List.getD_eq_getElem?_getD]

/-- The additions as a bilinear form. -/
def form (additions : List (ℕ × ℕ × K)) (y x : ℕ → K) : K := (additions.map fun t => y t.1 * t.2.2 * x t.2.1).sum

theorem form_append (l l' : List (ℕ × ℕ × K)) (y x : ℕ → K) : form (l ++ l') y x = form l y x + form l' y x := by
  rw [form, List.map_append, List.sum_append]
  rfl

/-- The vector with a one at this place. -/
def unit (i : ℕ) : ℕ → K := fun j => if j = i then 1 else 0

/-- What the matrix has after these additions. -/
structure Holds (A : Csr K) (rows : List (List ℕ)) (additions : List (ℕ × ℕ × K)) : Prop where
  pattern : HasRows A rows
  inside : ∀ t ∈ additions, ∃ h : t.1 < rows.length, t.2.1 ∈ rows[t.1]
  entries : ∀ r < rows.length, ∀ c, A.entry r c = form additions (unit r) (unit c)

theorem holds_start {rows : List (List ℕ)} (h : ∀ row ∈ rows, row.Pairwise (· < ·)) :
    Holds (⟨Ragged.offsets rows, rows.flatten, List.replicate rows.flatten.length (0 : K)⟩ : Csr K) rows [] where
  pattern := ⟨rfl, rfl, List.length_replicate, h⟩
  inside t ht := absurd ht List.not_mem_nil
  entries r hr c := by
    unfold entry
    split
    · rename_i k hk
      rw [List.getD_eq_getElem?_getD, List.getElem?_replicate]
      split_ifs
      · rfl
      · rfl
    · rfl

theorem Holds.add {additions : List (ℕ × ℕ × K)} (h : Holds A rows additions) {t : ℕ × ℕ × K}
    (ht : ∃ hlt : t.1 < rows.length, t.2.1 ∈ rows[t.1]) :
    ∃ k, A.find t.1 t.2.1 = some k ∧ Holds (A.add k t.2.2) rows (additions ++ [t]) := by
  obtain ⟨hlt, hc⟩ := ht
  obtain ⟨k, hk⟩ := h.pattern.find_of_mem hlt hc
  refine ⟨k, hk, h.pattern.add k t.2.2, fun t' ht' => ?_, fun r hr c => ?_⟩
  · rcases List.mem_append.mp ht' with ht' | ht'
    · exact h.inside t' ht'
    · rw [List.mem_singleton.mp ht']
      exact ⟨hlt, hc⟩
  · rw [h.pattern.entry_add hlt hk t.2.2 hr c, h.entries r hr c, form_append]
    congr 1
    rw [form, List.map_singleton, List.sum_singleton, unit, unit]
    by_cases hrow : t.1 = r
    · by_cases hcol : t.2.1 = c
      · rw [if_pos ⟨hrow, hcol⟩, if_pos hrow, if_pos hcol, one_mul, mul_one]
      · rw [if_neg fun hboth => hcol hboth.2, if_neg hcol, mul_zero]
    · rw [if_neg fun hboth => hrow hboth.1, if_neg hrow, zero_mul, zero_mul]

theorem Holds.addAll {additions : List (ℕ × ℕ × K)} (h : Holds A rows additions) {more : List (ℕ × ℕ × K)}
    (hmore : ∀ t ∈ more, ∃ hlt : t.1 < rows.length, t.2.1 ∈ rows[t.1]) :
    ∃ A', A.addAll more = some A' ∧ Holds A' rows (additions ++ more) := by
  induction more generalizing A additions with
  | nil => exact ⟨A, rfl, by rwa [List.append_nil]⟩
  | cons t more ih =>
    obtain ⟨ht, hrest⟩ := List.forall_mem_cons.mp hmore
    obtain ⟨k, hk, hadd⟩ := h.add ht
    obtain ⟨A', hrun, hholds⟩ := ih hadd hrest
    refine ⟨A', ?_, ?_⟩
    · unfold Csr.addAll
      rw [List.foldlM_cons, hk]
      exact hrun
    · rwa [List.append_cons]

/-! ## Products -/

theorem HasRows.multiply_eq (h : HasRows A rows) {r : ℕ} (hr : r < rows.length) (x : ℕ → K) :
    A.multiply x r = (rows[r].map fun c => A.entry r c * x c).sum := by
  have hnext := start_succ hr
  have hlen : start rows (r + 1) - start rows r = rows[r].length := by omega
  unfold multiply
  dsimp only
  rw [h.getD_rowStart hr.le, h.getD_rowStart (Nat.add_one_le_of_lt hr), hlen]
  congr 1
  apply List.ext_getElem
  · rw [List.length_map, List.length_map, List.length_range']
  · intro j hj hj'
    rw [List.length_map] at hj'
    rw [List.getElem_map, List.getElem_map, List.getElem_range', one_mul, h.getD_col hr hj']
    have hfind : A.find r rows[r][j] = some (start rows r + j) :=
      (h.find_iff hr).mpr ⟨j, List.getElem?_eq_getElem hj', rfl⟩
    unfold entry
    rw [hfind]

theorem sum_unit {row : List ℕ} (hnodup : row.Nodup) (r : ℕ) (x : ℕ → K) {additions : List (ℕ × ℕ × K)}
    (h : ∀ t ∈ additions, t.1 = r → t.2.1 ∈ row) :
    (row.map fun c => form additions (unit r) (unit c) * x c).sum = form additions (unit r) x := by
  induction additions with
  | nil =>
    have hzero : (row.map fun c => form ([] : List (ℕ × ℕ × K)) (unit r) (unit c) * x c) = row.map fun _ => 0 :=
      List.map_congr_left fun c _ => zero_mul (x c)
    rw [hzero, List.map_const', List.sum_replicate, nsmul_zero]
    rfl
  | cons t additions ih =>
    obtain ⟨ht, hrest⟩ := List.forall_mem_cons.mp h
    have hcons : ∀ y x : ℕ → K, form (t :: additions) y x = y t.1 * t.2.2 * x t.2.1 + form additions y x :=
      fun y x => List.sum_cons
    have hsplit : (row.map fun c => form (t :: additions) (unit r) (unit c) * x c).sum =
        (row.map fun c => unit r t.1 * t.2.2 * unit c t.2.1 * x c).sum +
          (row.map fun c => form additions (unit r) (unit c) * x c).sum := by
      rw [← List.sum_map_add]
      congr 1
      apply List.map_congr_left
      intro c _
      rw [hcons, add_mul]
    rw [hsplit, ih hrest, hcons]
    congr 1
    have hterm : ∀ c, unit r t.1 * t.2.2 * unit c t.2.1 * x c =
        if t.2.1 = c then unit r t.1 * t.2.2 * x c else 0 := by
      intro c
      by_cases hcol : t.2.1 = c
      · have hone : unit c t.2.1 = (1 : K) := if_pos hcol
        rw [hone, if_pos hcol, mul_one]
      · have hzero : unit c t.2.1 = (0 : K) := if_neg hcol
        rw [hzero, if_neg hcol, mul_zero, zero_mul]
    rw [List.map_congr_left fun c _ => hterm c, ← List.sum_toFinset _ hnodup, Finset.sum_ite_eq]
    by_cases hrow : t.1 = r
    · rw [if_pos (List.mem_toFinset.mpr (ht hrow))]
    · have hzero : unit r t.1 = (0 : K) := if_neg hrow
      rw [hzero, zero_mul, zero_mul, ite_self]

/-- The product with a vector is a row of the form. -/
theorem Holds.multiply_eq {additions : List (ℕ × ℕ × K)} (h : Holds A rows additions) {r : ℕ} (hr : r < rows.length)
    (x : ℕ → K) : A.multiply x r = form additions (unit r) x := by
  have hnodup : rows[r].Nodup := (h.pattern.sorted _ (List.getElem_mem hr)).imp Nat.ne_of_lt
  have hentries : (rows[r].map fun c => A.entry r c * x c) =
      rows[r].map fun c => form additions (unit r) (unit c) * x c :=
    List.map_congr_left fun c _ => by rw [h.entries r hr c]
  rw [h.pattern.multiply_eq hr, hentries]
  apply sum_unit hnodup
  rintro t ht rfl
  exact (h.inside t ht).2

theorem sum_form_unit {n : ℕ} (y x : ℕ → K) {additions : List (ℕ × ℕ × K)} (h : ∀ t ∈ additions, t.1 < n) :
    ∑ r ∈ Finset.range n, y r * form additions (unit r) x = form additions y x := by
  induction additions with
  | nil => exact Finset.sum_eq_zero fun r _ => mul_zero (y r)
  | cons t additions ih =>
    obtain ⟨ht, hrest⟩ := List.forall_mem_cons.mp h
    have hcons : ∀ y x : ℕ → K, form (t :: additions) y x = y t.1 * t.2.2 * x t.2.1 + form additions y x :=
      fun y x => List.sum_cons
    have hterm : ∀ r, y r * (unit r t.1 * t.2.2 * x t.2.1) =
        if t.1 = r then y r * t.2.2 * x t.2.1 else 0 := by
      intro r
      unfold unit
      split_ifs
      · rw [one_mul, mul_assoc]
      · rw [zero_mul, zero_mul, mul_zero]
    have hsplit : ∀ r, y r * form (t :: additions) (unit r) x =
        (if t.1 = r then y r * t.2.2 * x t.2.1 else 0) + y r * form additions (unit r) x := by
      intro r
      rw [hcons, mul_add, hterm]
    rw [Finset.sum_congr rfl fun r _ => hsplit r, Finset.sum_add_distrib, ih hrest, hcons, Finset.sum_ite_eq,
      if_pos (Finset.mem_range.mpr ht)]

theorem Holds.quadratic {additions : List (ℕ × ℕ × K)} (h : Holds A rows additions) (y x : ℕ → K) :
    ∑ r ∈ Finset.range rows.length, y r * A.multiply x r = form additions y x := by
  have hrows : ∀ r ∈ Finset.range rows.length, y r * A.multiply x r = y r * form additions (unit r) x := by
    intro r hr
    rw [h.multiply_eq (Finset.mem_range.mp hr)]
  rw [Finset.sum_congr rfl hrows]
  apply sum_form_unit
  intro t ht
  exact (h.inside t ht).1

end

end Csr

end Souxmar.Lib
