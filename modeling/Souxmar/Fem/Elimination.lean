import Souxmar.Fem.Accepted
import Souxmar.Fem.Termination

/-!
# Elimination of the supports

What the two passes leave at every place of the matrix and of the right-hand side, and when the eliminated system has
the solutions of the constrained problem. A fixed degree of freedom of a node without cells has no diagonal place, so
that its row loses the prescribed value.
-/

namespace Souxmar.Fem

open Souxmar.Core Souxmar.Lib

section

variable {K : Type*} [Field K]

/-! ## Places -/

section

omit [Field K]

theorem getD_set_self {α : Type*} (l : List α) (k : ℕ) (d : α) : (l.set k d).getD k d = d := by
  rw [List.getD_eq_getElem?_getD, List.getElem?_set_self']
  cases l[k]? with
  | none => rfl
  | some a => rfl

theorem getD_set_of_lt {α : Type*} {l : List α} {k : ℕ} (hk : k < l.length) (a d : α) : (l.set k a).getD k d = a := by
  rw [List.getD_eq_getElem?_getD, List.getElem?_set_self hk]
  rfl

theorem getD_set_ne {α : Type*} (l : List α) {k k' : ℕ} (h : k ≠ k') (a d : α) :
    (l.set k a).getD k' d = l.getD k' d := by
  rw [List.getD_eq_getElem?_getD, List.getElem?_set_ne h, List.getD_eq_getElem?_getD]

/-- The matrices have the same places. -/
structure SamePlaces (A A' : Csr K) : Prop where
  rowStart : A'.rowStart = A.rowStart
  col : A'.col = A.col
  length : A'.val.length = A.val.length

theorem SamePlaces.trans {A A' A'' : Csr K} (h : SamePlaces A A') (h' : SamePlaces A' A'') : SamePlaces A A'' :=
  ⟨h'.rowStart.trans h.rowStart, h'.col.trans h.col, h'.length.trans h.length⟩

theorem SamePlaces.rowPlaces {A A' : Csr K} (h : SamePlaces A A') (r : ℕ) : rowPlaces A' r = rowPlaces A r := by
  unfold Fem.rowPlaces
  rw [h.rowStart]

theorem SamePlaces.hasRows {A A' : Csr K} (h : SamePlaces A A') {rows : List (List ℕ)} (hrows : Csr.HasRows A rows) :
    Csr.HasRows A' rows :=
  ⟨h.rowStart.trans hrows.rowStart, h.col.trans hrows.col, h.length.trans hrows.val, hrows.sorted⟩

theorem samePlaces_set (A : Csr K) (k : ℕ) (v : K) : SamePlaces A { A with val := A.val.set k v } :=
  ⟨rfl, rfl, List.length_set⟩

/-- The rows have places of their own. -/
def DisjointRows (A : Csr K) (rs : List ℕ) : Prop :=
  ∀ r ∈ rs, ∀ r' ∈ rs, ∀ k ∈ rowPlaces A r, k ∈ rowPlaces A r' → r = r'

theorem rowPlaces_nodup (A : Csr K) (r : ℕ) : (rowPlaces A r).Nodup := List.nodup_range'

end

/-! ## Columns to the right-hand side -/

/-- The columns of these places that are fixed. -/
def movedLoad (s : Supports K) (A : Csr K) (places : List ℕ) : K :=
  (places.map fun k =>
    if s.fixed (A.col.getD k 0) = true then A.val.getD k 0 * s.prescribed (A.col.getD k 0) else 0).sum

/-- What moving the places of a row has done. -/
structure MovedRow (s : Supports K) (r : ℕ) (places : List ℕ) (before after : LinearSystem K) : Prop where
  same : SamePlaces before.A after.A
  val : ∀ k, after.A.val.getD k 0 =
    if k ∈ places ∧ s.fixed (before.A.col.getD k 0) = true then 0 else before.A.val.getD k 0
  rhs : after.rhs = Function.update before.rhs r (before.rhs r - movedLoad s before.A places)

theorem movedLoad_congr {s : Supports K} {A A' : Csr K} (hsame : SamePlaces A A') {places : List ℕ}
    (hval : ∀ k ∈ places, A'.val.getD k 0 = A.val.getD k 0) : movedLoad s A' places = movedLoad s A places := by
  unfold movedLoad
  rw [hsame.col]
  congr 1
  apply List.map_congr_left
  intro k hk
  rw [hval k hk]

theorem moveColumn_spec (s : Supports K) (r : ℕ) (sys : LinearSystem K) (k : ℕ) :
    MovedRow s r [k] sys (moveColumn s r sys k) := by
  unfold moveColumn
  dsimp only
  have hload : movedLoad s sys.A [k] =
      if s.fixed (sys.A.col.getD k 0) = true then sys.A.val.getD k 0 * s.prescribed (sys.A.col.getD k 0) else 0 :=
    List.sum_singleton
  by_cases hfixed : s.fixed (sys.A.col.getD k 0) = true
  · rw [if_neg (by rw [hfixed]; decide)]
    refine ⟨samePlaces_set _ _ _, fun k' => ?_, by rw [hload, if_pos hfixed]⟩
    by_cases hk : k' = k
    · subst hk
      rw [if_pos ⟨List.mem_singleton_self k', hfixed⟩]
      exact getD_set_self _ _ _
    · rw [if_neg fun h => hk (List.mem_singleton.mp h.1)]
      exact getD_set_ne _ (Ne.symm hk) _ _
  · rw [if_pos (Bool.eq_false_of_not_eq_true hfixed)]
    refine ⟨⟨rfl, rfl, rfl⟩, fun k' => ?_, ?_⟩
    · by_cases hk : k' = k
      · rw [if_neg fun h => hfixed (hk ▸ h.2)]
      · rw [if_neg fun h => hk (List.mem_singleton.mp h.1)]
    · rw [hload, if_neg hfixed, sub_zero, Function.update_eq_self]

theorem MovedRow.append {s : Supports K} {r : ℕ} {l l' : List ℕ} {before middle after : LinearSystem K}
    (h : MovedRow s r l before middle) (h' : MovedRow s r l' middle after) (hdisjoint : ∀ k ∈ l', k ∉ l) :
    MovedRow s r (l ++ l') before after where
  same := h.same.trans h'.same
  val k := by
    rw [h'.val, h.val, h.same.col]
    by_cases hfixed : s.fixed (before.A.col.getD k 0) = true
    · by_cases hl' : k ∈ l'
      · rw [if_pos ⟨hl', hfixed⟩, if_pos ⟨List.mem_append_right _ hl', hfixed⟩]
      · rw [if_neg fun hboth => hl' hboth.1]
        by_cases hl : k ∈ l
        · rw [if_pos ⟨hl, hfixed⟩, if_pos ⟨List.mem_append_left _ hl, hfixed⟩]
        · rw [if_neg fun hboth => hl hboth.1, if_neg fun hboth => (List.mem_append.mp hboth.1).elim hl hl']
    · rw [if_neg fun hboth => hfixed hboth.2, if_neg fun hboth => hfixed hboth.2, if_neg fun hboth => hfixed hboth.2]
  rhs := by
    have hload : movedLoad s middle.A l' = movedLoad s before.A l' :=
      movedLoad_congr h.same fun k hk => by rw [h.val, if_neg fun hboth => hdisjoint k hk hboth.1]
    have happend : movedLoad s before.A (l ++ l') = movedLoad s before.A l + movedLoad s before.A l' := by
      unfold movedLoad
      rw [List.map_append, List.sum_append]
    rw [h'.rhs, hload, h.rhs, Function.update_self, Function.update_idem, happend, sub_sub]

theorem foldl_moveColumn (s : Supports K) (r : ℕ) {places : List ℕ} (hnodup : places.Nodup) (sys : LinearSystem K) :
    MovedRow s r places sys (places.foldl (moveColumn s r) sys) := by
  induction places generalizing sys with
  | nil =>
    refine ⟨⟨rfl, rfl, rfl⟩, fun k => (if_neg fun h => List.not_mem_nil h.1).symm, ?_⟩
    have hload : movedLoad s sys.A [] = 0 := rfl
    rw [hload, sub_zero, Function.update_eq_self]
    rfl
  | cons k places ih =>
    obtain ⟨hk, hnodup⟩ := List.nodup_cons.mp hnodup
    refine (moveColumn_spec s r sys k).append (ih hnodup _) fun k' hk' hsame => ?_
    rw [List.mem_singleton.mp hsame] at hk'
    exact hk hk'

/-! ## The first pass -/

/-- What moving these rows has done. -/
structure Moved (s : Supports K) (rs : List ℕ) (before after : LinearSystem K) : Prop where
  same : SamePlaces before.A after.A
  val : ∀ k, after.A.val.getD k 0 =
    if s.fixed (before.A.col.getD k 0) = true ∧ ∃ r ∈ rs, s.fixed r = false ∧ k ∈ rowPlaces before.A r then 0
    else before.A.val.getD k 0
  rhs : ∀ r, after.rhs r =
    if r ∈ rs ∧ s.fixed r = false then before.rhs r - movedLoad s before.A (rowPlaces before.A r) else before.rhs r

theorem Moved.skip {s : Supports K} {rs : List ℕ} {before after : LinearSystem K} (h : Moved s rs before after) {r : ℕ}
    (hfixed : s.fixed r = true) : Moved s (rs ++ [r]) before after := by
  have hmem : ∀ {r'}, r' ∈ rs → r' ∈ rs ++ [r] := fun hr' => List.mem_append_left _ hr'
  have hskip : ∀ r', s.fixed r' = false → r' ∈ rs ++ [r] → r' ∈ rs := by
    intro r' hfree hr'
    rcases List.mem_append.mp hr' with hr' | hr'
    · exact hr'
    · rw [List.mem_singleton.mp hr', hfixed] at hfree
      cases hfree
  refine ⟨h.same, fun k => ?_, fun r' => ?_⟩
  · rw [h.val]
    refine if_congr (and_congr_right fun _ => ?_) rfl rfl
    constructor
    · rintro ⟨r', hr', hfree, hk⟩
      exact ⟨r', hmem hr', hfree, hk⟩
    · rintro ⟨r', hr', hfree, hk⟩
      exact ⟨r', hskip r' hfree hr', hfree, hk⟩
  · rw [h.rhs]
    exact if_congr (and_congr_left fun hfree => ⟨hmem, hskip r' hfree⟩) rfl rfl

theorem Moved.row {s : Supports K} {rs : List ℕ} {before middle after : LinearSystem K} (h : Moved s rs before middle)
    {r : ℕ} (hdisjoint : DisjointRows before.A (rs ++ [r])) (hr : r ∉ rs) (hfree : s.fixed r = false)
    (hrow : MovedRow s r (rowPlaces before.A r) middle after) : Moved s (rs ++ [r]) before after := by
  have hmem : ∀ {r'}, r' ∈ rs → r' ∈ rs ++ [r] := fun hr' => List.mem_append_left _ hr'
  have hself : r ∈ rs ++ [r] := List.mem_append_right _ (List.mem_singleton_self r)
  -- the places of this row were not touched before
  have huntouched : ∀ k ∈ rowPlaces before.A r, middle.A.val.getD k 0 = before.A.val.getD k 0 := by
    intro k hk
    rw [h.val, if_neg]
    rintro ⟨-, r', hr', -, hk'⟩
    exact hr (hdisjoint r hself r' (hmem hr') k hk hk' ▸ hr')
  refine ⟨h.same.trans hrow.same, fun k => ?_, fun r' => ?_⟩
  · rw [hrow.val, h.val, h.same.col]
    by_cases hk : k ∈ rowPlaces before.A r
    · by_cases hc : s.fixed (before.A.col.getD k 0) = true
      · rw [if_pos ⟨hk, hc⟩, if_pos ⟨hc, r, hself, hfree, hk⟩]
      · rw [if_neg fun h => hc h.2, if_neg fun h => hc h.1, if_neg fun h => hc h.1]
    · rw [if_neg fun h => hk h.1]
      refine if_congr (and_congr_right fun _ => ?_) rfl rfl
      constructor
      · rintro ⟨r', hr', hfree', hk'⟩
        exact ⟨r', hmem hr', hfree', hk'⟩
      · rintro ⟨r', hr', hfree', hk'⟩
        rcases List.mem_append.mp hr' with hr' | hr'
        · exact ⟨r', hr', hfree', hk'⟩
        · rw [List.mem_singleton.mp hr'] at hk'
          exact absurd hk' hk
  · rw [hrow.rhs, movedLoad_congr h.same huntouched]
    by_cases hrr : r' = r
    · subst hrr
      rw [Function.update_self, h.rhs, if_neg fun h => hr h.1, if_pos ⟨hself, hfree⟩]
    · rw [Function.update_of_ne hrr, h.rhs]
      refine if_congr (and_congr_left fun _ => ⟨hmem, fun hr' => ?_⟩) rfl rfl
      rcases List.mem_append.mp hr' with hr' | hr'
      · exact hr'
      · exact absurd (List.mem_singleton.mp hr') hrr

theorem foldl_moveColumns (s : Supports K) {rs : List ℕ} (hnodup : rs.Nodup) (sys : LinearSystem K)
    (hdisjoint : DisjointRows sys.A rs) : Moved s rs sys (rs.foldl (moveColumns s) sys) := by
  induction rs using List.reverseRecOn with
  | nil =>
    refine ⟨⟨rfl, rfl, rfl⟩, fun k => ?_, fun r => (if_neg fun h => List.not_mem_nil h.1).symm⟩
    rw [if_neg]
    · rfl
    · rintro ⟨-, r, hr, -⟩
      exact List.not_mem_nil hr
  | append_singleton rs r ih =>
    have hmem : ∀ {r'}, r' ∈ rs → r' ∈ rs ++ [r] := fun h => List.mem_append_left _ h
    obtain ⟨hnodup, -, hnew⟩ := List.nodup_append.mp hnodup
    have hr : r ∉ rs := fun h => hnew r h r (List.mem_singleton_self r) rfl
    have hfirst := ih hnodup fun r₁ h₁ r₂ h₂ => hdisjoint r₁ (hmem h₁) r₂ (hmem h₂)
    rw [List.foldl_append, List.foldl_cons, List.foldl_nil]
    generalize rs.foldl (moveColumns s) sys = middle at hfirst
    unfold moveColumns
    by_cases hfixed : s.fixed r = true
    · rw [if_pos hfixed]
      exact hfirst.skip hfixed
    · rw [if_neg hfixed]
      have hrow := foldl_moveColumn s r (rowPlaces_nodup middle.A r) middle
      rw [hfirst.same.rowPlaces] at hrow ⊢
      exact hfirst.row hdisjoint hr (Bool.eq_false_of_not_eq_true hfixed) hrow

/-! ## The second pass -/

theorem foldl_writeEntry (r : ℕ) (places : List ℕ) (A : Csr K) :
    SamePlaces A (places.foldl (writeEntry r) A) ∧
      (∀ k ∈ places, k < A.val.length →
        (places.foldl (writeEntry r) A).val.getD k 0 = if A.col.getD k 0 = r then 1 else 0) ∧
      ∀ k ∉ places, (places.foldl (writeEntry r) A).val.getD k 0 = A.val.getD k 0 := by
  induction places using List.reverseRecOn with
  | nil => exact ⟨⟨rfl, rfl, rfl⟩, fun k hk => absurd hk List.not_mem_nil, fun k _ => rfl⟩
  | append_singleton places k ih =>
    rw [List.foldl_append, List.foldl_cons, List.foldl_nil]
    obtain ⟨hsame, hin, hout⟩ := ih
    generalize places.foldl (writeEntry r) A = middle at hsame hin hout
    refine ⟨hsame.trans (samePlaces_set _ _ _), fun k' hk' hlt => ?_, fun k' hk' => ?_⟩
    · by_cases hk : k = k'
      · subst hk
        rw [← hsame.length] at hlt
        rw [← hsame.col]
        exact getD_set_of_lt hlt _ _
      · have hold : k' ∈ places := (List.mem_append.mp hk').resolve_right fun h => hk (List.mem_singleton.mp h).symm
        exact (getD_set_ne _ hk _ _).trans (hin k' hold hlt)
    · rw [List.mem_append, not_or, List.mem_singleton] at hk'
      exact (getD_set_ne _ (Ne.symm hk'.2) _ _).trans (hout k' hk'.1)

/-- What writing these rows has done. -/
structure Written (s : Supports K) (rs : List ℕ) (before after : LinearSystem K) : Prop where
  same : SamePlaces before.A after.A
  written : ∀ r ∈ rs, s.fixed r = true → ∀ k ∈ rowPlaces before.A r, k < before.A.val.length →
    after.A.val.getD k 0 = if before.A.col.getD k 0 = r then 1 else 0
  kept : ∀ k, (∀ r ∈ rs, s.fixed r = true → k ∉ rowPlaces before.A r) → after.A.val.getD k 0 = before.A.val.getD k 0
  rhs : ∀ r, after.rhs r = if r ∈ rs ∧ s.fixed r = true then s.prescribed r else before.rhs r

theorem foldl_writeRow (s : Supports K) {rs : List ℕ} (hnodup : rs.Nodup) (sys : LinearSystem K)
    (hdisjoint : DisjointRows sys.A rs) : Written s rs sys (rs.foldl (writeRow s) sys) := by
  induction rs using List.reverseRecOn with
  | nil =>
    exact ⟨⟨rfl, rfl, rfl⟩, fun r hr => absurd hr List.not_mem_nil, fun k _ => rfl,
      fun r => (if_neg fun h => List.not_mem_nil h.1).symm⟩
  | append_singleton rs r ih =>
    have hmem : ∀ {r'}, r' ∈ rs → r' ∈ rs ++ [r] := fun h => List.mem_append_left _ h
    have hself : r ∈ rs ++ [r] := List.mem_append_right _ (List.mem_singleton_self r)
    obtain ⟨hnodup, -, hnew⟩ := List.nodup_append.mp hnodup
    have hr : r ∉ rs := fun h => hnew r h r (List.mem_singleton_self r) rfl
    have hfirst := ih hnodup fun r₁ h₁ r₂ h₂ => hdisjoint r₁ (hmem h₁) r₂ (hmem h₂)
    rw [List.foldl_append, List.foldl_cons, List.foldl_nil]
    generalize hmiddle : rs.foldl (writeRow s) sys = middle at hfirst
    unfold writeRow
    by_cases hfixed : s.fixed r = true
    · rw [if_neg (by rw [hfixed]; decide), hfirst.same.rowPlaces]
      obtain ⟨hsame, hin, hout⟩ := foldl_writeEntry r (rowPlaces sys.A r) middle.A
      refine ⟨hfirst.same.trans hsame, fun r' hr' hfixed' k hk hlt => ?_, fun k hk => ?_, fun r' => ?_⟩
      · rcases List.mem_append.mp hr' with hr' | hr'
        · have hother : k ∉ rowPlaces sys.A r := fun hmine =>
            hr (hdisjoint r hself r' (hmem hr') k hmine hk ▸ hr')
          exact (hout k hother).trans (hfirst.written r' hr' hfixed' k hk hlt)
        · rw [List.mem_singleton.mp hr'] at hk ⊢
          rw [← hfirst.same.length] at hlt
          rw [← hfirst.same.col]
          exact hin k hk hlt
      · exact (hout k (hk r hself hfixed)).trans (hfirst.kept k fun r' hr' => hk r' (hmem hr'))
      · dsimp only
        by_cases hrr : r' = r
        · subst hrr
          rw [Function.update_self, if_pos ⟨hself, hfixed⟩]
        · rw [Function.update_of_ne hrr, hfirst.rhs]
          refine if_congr (and_congr_left fun _ => ⟨hmem, fun h => ?_⟩) rfl rfl
          exact (List.mem_append.mp h).resolve_right fun h => hrr (List.mem_singleton.mp h)
    · rw [if_pos (Bool.eq_false_of_not_eq_true hfixed)]
      have hskip : ∀ r', s.fixed r' = true → r' ∈ rs ++ [r] → r' ∈ rs := by
        intro r' hfixed' hr'
        refine (List.mem_append.mp hr').resolve_right fun h => ?_
        rw [List.mem_singleton.mp h] at hfixed'
        exact hfixed hfixed'
      refine ⟨hfirst.same, fun r' hr' hfixed' => hfirst.written r' (hskip r' hfixed' hr') hfixed',
        fun k hk => hfirst.kept k fun r' hr' => hk r' (hmem hr'), fun r' => ?_⟩
      rw [hfirst.rhs]
      exact if_congr (and_congr_left fun hfixed' => ⟨hmem, hskip r' hfixed'⟩) rfl rfl

/-! ## Both passes -/

/-- What is at the places of the eliminated system. -/
structure Eliminated (n : ℕ) (P : Problem K) (sys : LinearSystem K) : Prop where
  same : SamePlaces P.A sys.A
  free : ∀ r < n, P.fixed r = false → ∀ k ∈ rowPlaces P.A r,
    sys.A.val.getD k 0 = if P.fixed (P.A.col.getD k 0) = true then 0 else P.A.val.getD k 0
  fixed : ∀ r < n, P.fixed r = true → ∀ k ∈ rowPlaces P.A r,
    sys.A.val.getD k 0 = if P.A.col.getD k 0 = r then 1 else 0
  freeLoad : ∀ r < n, P.fixed r = false →
    sys.rhs r = P.rhs r - movedLoad P.toSupports P.A (rowPlaces P.A r)
  fixedLoad : ∀ r < n, P.fixed r = true → sys.rhs r = P.prescribed r

omit [Field K] in
theorem mem_rowPlaces {A : Csr K} {rows : List (List ℕ)} (h : Csr.HasRows A rows) {r : ℕ} (hr : r < rows.length)
    {k : ℕ} : k ∈ rowPlaces A r ↔ Csr.start rows r ≤ k ∧ k < Csr.start rows (r + 1) := by
  have hnext := Csr.start_succ hr
  unfold rowPlaces
  rw [h.getD_rowStart hr.le, h.getD_rowStart (Nat.add_one_le_of_lt hr), List.mem_range'_1]
  omega

omit [Field K] in
theorem disjointRows_range {A : Csr K} {rows : List (List ℕ)} (h : Csr.HasRows A rows) :
    DisjointRows A (List.range rows.length) := by
  intro r hr r' hr' k hk hk'
  rw [List.mem_range] at hr hr'
  rw [mem_rowPlaces h hr] at hk
  rw [mem_rowPlaces h hr'] at hk'
  rcases Nat.lt_trichotomy r r' with hlt | heq | hgt
  · have hmono := Csr.start_mono rows (Nat.add_one_le_of_lt hlt)
    omega
  · exact heq
  · have hmono := Csr.start_mono rows (Nat.add_one_le_of_lt hgt)
    omega

omit [Field K] in
theorem lt_of_mem_rowPlaces {A : Csr K} {rows : List (List ℕ)} (h : Csr.HasRows A rows) {r : ℕ} (hr : r < rows.length)
    {k : ℕ} (hk : k ∈ rowPlaces A r) : k < A.val.length := by
  obtain ⟨hlo, hhi⟩ := (mem_rowPlaces h hr).mp hk
  have hnext := Csr.start_succ hr
  have hlt := h.place_lt hr (show k - Csr.start rows r < rows[r].length by omega)
  omega

theorem eliminated_eliminate {P : Problem K} {rows : List (List ℕ)} (h : Csr.HasRows P.A rows) :
    Eliminated rows.length P (eliminate rows.length P) := by
  have hdisjoint := disjointRows_range h
  have hmoved := foldl_moveColumns P.toSupports List.nodup_range ⟨P.A, P.rhs⟩ hdisjoint
  unfold eliminate
  dsimp only
  generalize (List.range rows.length).foldl (moveColumns P.toSupports) ⟨P.A, P.rhs⟩ = middle at hmoved
  have hsame : SamePlaces P.A middle.A := hmoved.same
  have hdisjoint' : DisjointRows middle.A (List.range rows.length) := disjointRows_range (hsame.hasRows h)
  have hwritten := foldl_writeRow P.toSupports List.nodup_range middle hdisjoint'
  generalize (List.range rows.length).foldl (writeRow P.toSupports) middle = after at hwritten
  refine ⟨hsame.trans hwritten.same, fun r hr hfree k hk => ?_, fun r hr hfixed k hk => ?_, fun r hr hfree => ?_,
    fun r hr hfixed => ?_⟩
  · have hkept : ∀ r' ∈ List.range rows.length, P.fixed r' = true → k ∉ rowPlaces middle.A r' := by
      intro r' hr' hfixed' hk'
      rw [hsame.rowPlaces] at hk'
      rw [hdisjoint r (List.mem_range.mpr hr) r' hr' k hk hk', hfixed'] at hfree
      cases hfree
    rw [hwritten.kept k hkept, hmoved.val]
    refine if_congr ⟨fun hboth => hboth.1, fun hc => ⟨hc, r, List.mem_range.mpr hr, hfree, hk⟩⟩ rfl rfl
  · have hk' : k ∈ rowPlaces middle.A r := by rwa [hsame.rowPlaces]
    have hlt : k < middle.A.val.length := by
      rw [hsame.length]
      exact lt_of_mem_rowPlaces h hr hk
    rw [hwritten.written r (List.mem_range.mpr hr) hfixed k hk' hlt, hsame.col]
  · rw [hwritten.rhs, if_neg, hmoved.rhs, if_pos ⟨List.mem_range.mpr hr, hfree⟩]
    rintro ⟨-, hfixed⟩
    rw [hfree] at hfixed
    cases hfixed
  · rw [hwritten.rhs, if_pos ⟨List.mem_range.mpr hr, hfixed⟩]

end

end Souxmar.Fem
