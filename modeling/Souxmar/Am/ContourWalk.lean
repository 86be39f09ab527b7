import Mathlib.Data.List.Nodup
import Souxmar.Am.Slicing
import Souxmar.Lib.Trail

/-!
# The contour walk

The chains of `chain_layer` are trails that take out the segments one after the other. Below 2^32 segments every index
fits its 32 bits and differs from `kNoSeg`, so that a walk stops only where nothing is left.
-/

namespace Souxmar.Am.Slicer

open Souxmar.Lib

/-! ## Segments -/

def ends (segs : List WeldedSeg) (s : ℕ) : ℕ × ℕ := ((segs.getD s ⟨0, 0⟩).a, (segs.getD s ⟨0, 0⟩).b)

def WeldedSeg.key (seg : WeldedSeg) : ℕ × ℕ := (min seg.a seg.b, max seg.a seg.b)

/-- Segments without loops and without repetition. -/
structure Welded (segs : List WeldedSeg) : Prop where
  loop : ∀ seg ∈ segs, seg.a ≠ seg.b
  nodup : (segs.map WeldedSeg.key).Nodup

/-- The unused segments. -/
def remaining (segs : List WeldedSeg) (used : ℕ → Bool) : List ℕ :=
  (List.range segs.length).filter fun s => !used s

theorem mem_remaining {segs : List WeldedSeg} {used : ℕ → Bool} {s : ℕ} :
    s ∈ remaining segs used ↔ s < segs.length ∧ used s = false := by
  unfold remaining
  rw [List.mem_filter, List.mem_range, Bool.not_eq_true']

section

variable {segs : List WeldedSeg}

theorem ends_ne (h : Welded segs) {s : ℕ} (hs : s < segs.length) : (ends segs s).1 ≠ (ends segs s).2 := by
  unfold ends
  rw [List.getD_eq_getElem?_getD, List.getElem?_eq_getElem hs]
  exact h.loop _ (List.getElem_mem hs)

theorem mem_incident (hsmall : segs.length ≤ 2 ^ 32) {node s : ℕ} :
    s ∈ incident segs node ↔ s < segs.length ∧ Trail.touches (ends segs) node s = true := by
  unfold incident Trail.touches ends
  rw [List.mem_flatMap, decide_eq_true_iff]
  constructor
  · rintro ⟨⟨seg, i⟩, hi, hs⟩
    rw [List.mk_mem_zipIdx_iff_getElem?] at hi
    obtain ⟨hlt, hseg⟩ := List.getElem?_eq_some_iff.mp hi
    have hmod : i % 2 ^ 32 = i := Nat.mod_eq_of_lt (Nat.lt_of_lt_of_le hlt hsmall)
    dsimp only at hs
    rw [hmod, List.mem_append] at hs
    have hget : segs.getD i ⟨0, 0⟩ = seg := by
      rw [List.getD_eq_getElem?_getD, hi]
      rfl
    rcases hs with hs | hs
    · split_ifs at hs with hnode
      · obtain rfl := List.mem_singleton.mp hs
        exact ⟨hlt, Or.inl (by rw [hget, hnode])⟩
      · exact absurd hs List.not_mem_nil
    · split_ifs at hs with hnode
      · obtain rfl := List.mem_singleton.mp hs
        exact ⟨hlt, Or.inr (by rw [hget, hnode])⟩
      · exact absurd hs List.not_mem_nil
  · rintro ⟨hlt, hnode⟩
    have hmod : s % 2 ^ 32 = s := Nat.mod_eq_of_lt (Nat.lt_of_lt_of_le hlt hsmall)
    rw [List.getD_eq_getElem?_getD, List.getElem?_eq_getElem hlt, Option.getD_some] at hnode
    refine ⟨(segs[s], s), List.mk_mem_zipIdx_iff_getElem?.mpr (List.getElem?_eq_getElem hlt), ?_⟩
    dsimp only
    rw [hmod, List.mem_append]
    rcases hnode with hnode | hnode
    · exact Or.inl (by rw [if_pos hnode.symm]; exact List.mem_singleton_self s)
    · exact Or.inr (by rw [if_pos hnode.symm]; exact List.mem_singleton_self s)

theorem pick_cases (hsmall : segs.length < 2 ^ 32) (used : ℕ → Bool) (node : ℕ) :
    (pick segs used node = kNoSeg ∧ Trail.degree (ends segs) (remaining segs used) node = 0) ∨
      pick segs used node ≠ kNoSeg ∧ pick segs used node ∈ remaining segs used ∧
        Trail.touches (ends segs) node (pick segs used node) = true := by
  unfold pick
  cases hfind : (incident segs node).find? fun s => !used s with
  | none =>
    refine Or.inl ⟨rfl, ?_⟩
    unfold Trail.degree
    rw [List.countP_eq_zero]
    intro s hs htouches
    obtain ⟨hlt, hfree⟩ := mem_remaining.mp hs
    have hused := List.find?_eq_none.mp hfind s ((mem_incident hsmall.le).mpr ⟨hlt, htouches⟩)
    rw [hfree] at hused
    exact hused rfl
  | some s =>
    have hfree := List.find?_some hfind
    obtain ⟨hlt, htouches⟩ := (mem_incident hsmall.le).mp (List.mem_of_find?_eq_some hfind)
    rw [Bool.not_eq_true'] at hfree
    refine Or.inr ⟨?_, mem_remaining.mpr ⟨hlt, hfree⟩, htouches⟩
    unfold kNoSeg
    rw [Option.getD_some]
    omega

theorem joins_other {s node : ℕ} (h : Trail.touches (ends segs) node s = true) :
    Trail.Joins (ends segs) s node (other segs s node) := by
  unfold Trail.touches at h
  rw [decide_eq_true_iff] at h
  unfold other ends at *
  dsimp only at *
  rcases h with h | h
  · rw [if_pos h.symm]
    exact Or.inl (by rw [h])
  · split_ifs with hnode
    · exact Or.inl (Prod.ext hnode rfl)
    · exact Or.inr (Prod.ext rfl h.symm)

end

/-! ## The invariant of a walk -/

/-- A chain that is being traced, with the segments it has taken. -/
structure Tracing (segs : List WeldedSeg) (before : ℕ → Bool) (c : Chain) (es : List ℕ) : Prop where
  walk : Trail.Walk (ends segs) c.nodes es
  nodup : es.Nodup
  fresh : ∀ e ∈ es, e ∈ remaining segs before
  used : ∀ e, c.used e = (before e || decide (e ∈ es))

/-- A closed chain: its walk returns to its first node. -/
structure TracedClosed (segs : List WeldedSeg) (before : ℕ → Bool) (c : Chain) (es : List ℕ) : Prop where
  closed : c.closed = true
  walk : Trail.Walk (ends segs) (c.nodes ++ [c.nodes.headD 0]) es
  nodup : es.Nodup
  fresh : ∀ e ∈ es, e ∈ remaining segs before
  used : ∀ e, c.used e = (before e || decide (e ∈ es))

/-- An open chain: nothing is left at its back. -/
structure StuckBehind (segs : List WeldedSeg) (before : ℕ → Bool) (c : Chain) (es : List ℕ) : Prop
    extends Tracing segs before c es where
  opened : c.closed = false
  apart : c.nodes.headD 0 ≠ c.nodes.getLastD 0
  back : Trail.degree (ends segs) (remaining segs c.used) (c.nodes.getLastD 0) = 0

/-- Nothing is left at its front either. -/
structure TracedOpen (segs : List WeldedSeg) (before : ℕ → Bool) (c : Chain) (es : List ℕ) : Prop
    extends StuckBehind segs before c es where
  front : Trail.degree (ends segs) (remaining segs c.used) (c.nodes.headD 0) = 0

section

variable {segs : List WeldedSeg} {before : ℕ → Bool}

theorem Tracing.mem_remaining_iff {c : Chain} {es : List ℕ} (h : Tracing segs before c es) {e : ℕ} :
    e ∈ remaining segs c.used ↔ e ∈ remaining segs before ∧ e ∉ es := by
  rw [mem_remaining, mem_remaining, h.used, Bool.or_eq_false_iff, decide_eq_false_iff_not, and_assoc]

theorem head?_eq {l : List ℕ} (h : l ≠ []) : l.head? = some (l.headD 0) := by
  cases l with
  | nil => exact absurd rfl h
  | cons a l => rfl

theorem getLast?_eq {l : List ℕ} (h : l ≠ []) : l.getLast? = some (l.getLastD 0) := by
  rw [List.getLastD_eq_getLast?, List.getLast?_eq_getLast_of_ne_nil h]
  rfl

theorem Tracing.take {c : Chain} {es : List ℕ} (h : Tracing segs before c es) {e : ℕ} (he : e ∈ remaining segs c.used) :
    (es ++ [e]).Nodup ∧ (e :: es).Nodup ∧ e ∈ remaining segs before ∧
      ∀ e', Function.update c.used e true e' = (before e' || decide (e' ∈ es ++ [e])) := by
  obtain ⟨hbefore, hnew⟩ := h.mem_remaining_iff.mp he
  have hcons : (e :: es).Nodup := List.nodup_cons.mpr ⟨hnew, h.nodup⟩
  refine ⟨(List.perm_append_singleton e es).nodup_iff.mpr hcons, hcons, hbefore, fun e' => ?_⟩
  by_cases hee : e' = e
  · subst hee
    rw [Function.update_self, decide_eq_true (List.mem_append_right _ (List.mem_singleton_self e')), Bool.or_true]
  · rw [Function.update_of_ne hee, h.used]
    congr 1
    apply decide_eq_decide.mpr
    rw [List.mem_append, List.mem_singleton, or_iff_left hee]

theorem length_remaining_update {used : ℕ → Bool} {e : ℕ} (he : e ∈ remaining segs used) :
    (remaining segs (Function.update used e true)).length < (remaining segs used).length := by
  have hsublist : (remaining segs (Function.update used e true)).Sublist (remaining segs used) := by
    apply List.monotone_filter_right
    intro s hs
    rw [Bool.not_eq_true'] at hs ⊢
    by_cases hse : s = e
    · rw [hse, Function.update_self] at hs
      cases hs
    · rwa [Function.update_of_ne hse] at hs
  apply lt_of_le_of_ne hsublist.length_le
  intro hlength
  rw [← hsublist.eq_of_length hlength, mem_remaining, Function.update_self] at he
  cases he.2

theorem walkForward_spec (hsmall : segs.length < 2 ^ 32) {fuel : ℕ} {c : Chain} {es : List ℕ}
    (h : Tracing segs before c es) (hopen : c.closed = false) (hes : es ≠ [])
    (hfuel : (remaining segs c.used).length < fuel) :
    ∃ c' more, walkForward segs fuel c = some c' ∧
      (TracedClosed segs before c' (es ++ more) ∨ StuckBehind segs before c' (es ++ more)) := by
  induction fuel generalizing c es with
  | zero => exact absurd hfuel (Nat.not_lt_zero _)
  | succ fuel ih =>
    unfold walkForward
    dsimp only
    by_cases hclosed : c.nodes.getLastD 0 = c.nodes.headD 0
    · rw [if_pos hclosed]
      refine ⟨_, [], rfl, Or.inl ⟨rfl, ?_, ?_, ?_, ?_⟩⟩
      · -- the last node is popped: it is the first one
        have hlength := h.walk.length
        have hpos : 0 < es.length := List.length_pos_of_ne_nil hes
        have hhead : c.nodes.dropLast.headD 0 = c.nodes.headD 0 := by
          rcases hnodes : c.nodes with _ | ⟨v, _ | ⟨w, vs⟩⟩
          · rfl
          · rw [hnodes] at hlength
            exact absurd hlength (by rw [List.length_singleton]; omega)
          · rfl
        have hlast := getLast?_eq h.walk.ne_nil
        rw [List.append_nil, hhead, ← hclosed, List.dropLast_append_getLast? _ hlast]
        exact h.walk
      · rw [List.append_nil]
        exact h.nodup
      · rw [List.append_nil]
        exact h.fresh
      · rw [List.append_nil]
        exact h.used
    · rw [if_neg hclosed]
      rcases pick_cases hsmall c.used (c.nodes.getLastD 0) with ⟨hnone, hdegree⟩ | ⟨hsome, hpick, htouches⟩
      · rw [if_pos hnone]
        refine ⟨c, [], rfl, Or.inr ?_⟩
        rw [List.append_nil]
        exact ⟨h, hopen, Ne.symm hclosed, hdegree⟩
      · rw [if_neg hsome]
        obtain ⟨hnodup, -, hbefore, hused⟩ := h.take hpick
        have hstep := h.walk.snoc (getLast?_eq h.walk.ne_nil) (joins_other htouches)
        have hless := length_remaining_update hpick
        have hfresh : ∀ e ∈ es ++ [pick segs c.used (c.nodes.getLastD 0)], e ∈ remaining segs before := by
          intro e he
          rcases List.mem_append.mp he with he | he
          · exact h.fresh e he
          · rwa [List.mem_singleton.mp he]
        have htracing : Tracing segs before
            ⟨Function.update c.used (pick segs c.used (c.nodes.getLastD 0)) true,
              c.nodes ++ [other segs (pick segs c.used (c.nodes.getLastD 0)) (c.nodes.getLastD 0)], false⟩
            (es ++ [pick segs c.used (c.nodes.getLastD 0)]) := ⟨hstep, hnodup, hfresh, hused⟩
        obtain ⟨c', more, hrun, hspec⟩ := ih htracing rfl (List.append_ne_nil_of_left_ne_nil hes _)
          (Nat.lt_of_lt_of_le hless (Nat.le_of_lt_succ hfuel))
        refine ⟨c', pick segs c.used (c.nodes.getLastD 0) :: more, hrun, ?_⟩
        rwa [List.append_assoc, List.singleton_append] at hspec

/-- The walk from the front never meets the back, where nothing is left. -/
theorem walkBackward_spec (hsmall : segs.length < 2 ^ 32) {fuel : ℕ} {c : Chain} {es : List ℕ}
    (h : StuckBehind segs before c es) (hfuel : (remaining segs c.used).length < fuel) :
    ∃ c' more, walkBackward segs fuel c = some c' ∧ TracedOpen segs before c' (more ++ es) := by
  induction fuel generalizing c es with
  | zero => exact absurd hfuel (Nat.not_lt_zero _)
  | succ fuel ih =>
    unfold walkBackward
    dsimp only
    rcases pick_cases hsmall c.used (c.nodes.headD 0) with ⟨hnone, hdegree⟩ | ⟨hsome, hpick, htouches⟩
    · rw [if_pos hnone]
      exact ⟨c, [], rfl, h, hdegree⟩
    · rw [if_neg hsome]
      have hjoins := joins_other htouches
      have hback : other segs (pick segs c.used (c.nodes.headD 0)) (c.nodes.headD 0) ≠ c.nodes.getLastD 0 := by
        intro hmeets
        have htouchesBack := (hjoins.touches_iff (c.nodes.getLastD 0)).mpr (Or.inr hmeets.symm)
        have hpos := Trail.degree_pos_iff.mpr ⟨_, hpick, htouchesBack⟩
        rw [h.back] at hpos
        exact Nat.lt_irrefl 0 hpos
      rw [if_neg hback]
      obtain ⟨-, hnodup, hbefore, hused⟩ := h.toTracing.take hpick
      have hne := h.walk.ne_nil
      have hstep := h.walk.extend (head?_eq hne) hjoins.symm
      have hless := length_remaining_update hpick
      have hlast : (other segs (pick segs c.used (c.nodes.headD 0)) (c.nodes.headD 0) :: c.nodes).getLastD 0 =
          c.nodes.getLastD 0 := by
        rw [List.getLastD_eq_getLast?, List.getLastD_eq_getLast?]
        rcases hnodes : c.nodes with _ | ⟨v, vs⟩
        · exact absurd hnodes hne
        · rw [List.getLast?_cons_cons]
      have hsub : ∀ e ∈ remaining segs (Function.update c.used (pick segs c.used (c.nodes.headD 0)) true),
          e ∈ remaining segs c.used := by
        intro e he
        obtain ⟨hlt, hfree⟩ := mem_remaining.mp he
        refine mem_remaining.mpr ⟨hlt, ?_⟩
        by_cases hee : e = pick segs c.used (c.nodes.headD 0)
        · rw [hee, Function.update_self] at hfree
          cases hfree
        · rwa [Function.update_of_ne hee] at hfree
      have hstuck : StuckBehind segs before
          ⟨Function.update c.used (pick segs c.used (c.nodes.headD 0)) true,
            other segs (pick segs c.used (c.nodes.headD 0)) (c.nodes.headD 0) :: c.nodes, false⟩
          (pick segs c.used (c.nodes.headD 0) :: es) := by
        refine ⟨⟨hstep, hnodup, ?_, fun e => ?_⟩, rfl, ?_, ?_⟩
        · exact List.forall_mem_cons.mpr ⟨hbefore, h.fresh⟩
        · dsimp only
          rw [hused e]
          congr 1
          apply decide_eq_decide.mpr
          rw [List.mem_append, List.mem_singleton, List.mem_cons, or_comm]
        · rw [hlast]
          exact hback
        · rw [hlast]
          unfold Trail.degree
          rw [List.countP_eq_zero]
          intro e he htouch
          have hpos := Trail.degree_pos_iff.mpr ⟨e, hsub e he, htouch⟩
          rw [h.back] at hpos
          exact Nat.lt_irrefl 0 hpos
      obtain ⟨c', more, hrun, hspec⟩ := ih hstuck (Nat.lt_of_lt_of_le hless (Nat.le_of_lt_succ hfuel))
      refine ⟨c', more ++ [pick segs c.used (c.nodes.headD 0)], hrun, ?_⟩
      rwa [List.append_assoc, List.singleton_append]

end

end Souxmar.Am.Slicer
