import Mathlib.Data.List.ProdSigma
import Souxmar.Am.ContourWalk

/-!
# Chaining loses nothing

The loop of `chain_layer` takes out one trail after the other, closed or stuck at both ends, until no segment is left.
With 2^32 segments the last one has the index `kNoSeg` and no walk can take it.
-/

namespace Souxmar.Am.Slicer

open Souxmar.Lib

/-! ## The sides of a chain -/

/-- The nodes in walking order, back to the first one when closed. -/
def Chain.ring (c : Chain) : List ℕ := if c.closed then c.nodes ++ [c.nodes.headD 0] else c.nodes

/-- What the chain runs through. -/
def Chain.sides (c : Chain) : List WeldedSeg := (c.ring.zip c.ring.tail).map fun t => ⟨t.1, t.2⟩

/-- The chain runs through exactly these segments. -/
structure RunsThrough (segs : List WeldedSeg) (c : Chain) (es : List ℕ) : Prop where
  walk : Trail.Walk (ends segs) c.ring es
  nodup : es.Nodup
  small : ∀ e ∈ es, e < segs.length
  nonempty : es ≠ []

section

variable {segs : List WeldedSeg}

theorem key_of_joins {s v w : ℕ} (h : Trail.Joins (ends segs) s v w) :
    WeldedSeg.key ⟨v, w⟩ = (segs.getD s ⟨0, 0⟩).key := by
  unfold Trail.Joins ends at h
  unfold WeldedSeg.key
  rcases h with h | h
  · obtain ⟨rfl, rfl⟩ := Prod.mk.inj h
    rfl
  · obtain ⟨rfl, rfl⟩ := Prod.mk.inj h
    rw [min_comm, max_comm]

theorem walk_keys {vs : List ℕ} {es : List ℕ} (h : Trail.Walk (ends segs) vs es) :
    ((vs.zip vs.tail).map fun t => WeldedSeg.key ⟨t.1, t.2⟩) = es.map fun s => (segs.getD s ⟨0, 0⟩).key := by
  induction h with
  | single v => rfl
  | cons hjoins hwalk ih =>
    rw [List.tail_cons, List.zip_cons_cons, List.map_cons, List.map_cons, ← ih, key_of_joins hjoins]
    rfl

theorem RunsThrough.keys {c : Chain} {es : List ℕ} (h : RunsThrough segs c es) :
    c.sides.map WeldedSeg.key = es.map fun s => (segs.getD s ⟨0, 0⟩).key := by
  unfold Chain.sides
  rw [List.map_map]
  exact walk_keys h.walk

theorem getD_eq {s : ℕ} (hs : s < segs.length) : segs.getD s ⟨0, 0⟩ = segs[s] := by
  rw [List.getD_eq_getElem?_getD, List.getElem?_eq_getElem hs]
  rfl

theorem key_injective (h : Welded segs) {s t : ℕ} (hs : s < segs.length) (ht : t < segs.length)
    (hkey : (segs.getD s ⟨0, 0⟩).key = (segs.getD t ⟨0, 0⟩).key) : s = t := by
  rw [getD_eq hs, getD_eq ht] at hkey
  have hseg := List.inj_on_of_nodup_map h.nodup (List.getElem_mem hs) (List.getElem_mem ht) hkey
  exact (List.Nodup.of_map _ h.nodup).getElem_inj_iff.mp hseg

theorem RunsThrough.three_le (hwelded : Welded segs) {c : Chain} {es : List ℕ} (h : RunsThrough segs c es)
    (hclosed : c.closed = true) : 3 ≤ c.nodes.length := by
  have hwalk := h.walk
  have hring : c.ring = c.nodes ++ [c.nodes.headD 0] := by
    unfold Chain.ring
    rw [if_pos hclosed]
  rw [hring] at hwalk
  rcases hnodes : c.nodes with _ | ⟨v, _ | ⟨w, _ | ⟨x, vs⟩⟩⟩
  · rw [hnodes] at hwalk
    cases hwalk
    exact absurd rfl h.nonempty
  · rw [hnodes] at hwalk
    -- one side would be a loop
    cases hwalk with
    | @cons _ _ _ e es hjoins hrest =>
      have he := ends_ne hwelded (h.small e (List.mem_cons_self ..))
      rcases hjoins with hjoins | hjoins
      · rw [hjoins] at he
        exact absurd rfl he
      · rw [hjoins] at he
        exact absurd rfl he
  · rw [hnodes] at hwalk
    -- two sides would be one segment
    cases hwalk with
    | @cons _ _ _ e es hjoins hrest =>
      cases hrest with
      | @cons _ _ _ f es hjoins' hrest =>
        have he := h.small e (List.mem_cons_self ..)
        have hf := h.small f (List.mem_cons_of_mem _ (List.mem_cons_self ..))
        have hsame := key_injective hwelded he hf ((key_of_joins hjoins).symm.trans (key_of_joins hjoins'.symm))
        subst hsame
        exact absurd (List.mem_cons_self ..) (List.nodup_cons.mp h.nodup).1
  · rw [List.length_cons, List.length_cons, List.length_cons]
    omega

theorem RunsThrough.not_degenerate (hwelded : Welded segs) {c : Chain} {es : List ℕ} (h : RunsThrough segs c es) :
    c.degenerate = false := by
  unfold Chain.degenerate
  rw [Bool.or_eq_false_iff, Bool.and_eq_false_iff, decide_eq_false_iff_not, decide_eq_false_iff_not]
  by_cases hclosed : c.closed = true
  · have hthree := h.three_le hwelded hclosed
    exact ⟨Or.inr (Nat.not_lt.mpr hthree), by omega⟩
  · have hlength := h.walk.length
    have hpos : 0 < es.length := List.length_pos_of_ne_nil h.nonempty
    unfold Chain.ring at hlength
    rw [if_neg hclosed] at hlength
    exact ⟨Or.inl (Bool.eq_false_iff.mpr hclosed), by omega⟩

/-! ## One chain -/

variable {before : ℕ → Bool}

theorem TracedClosed.runsThrough {c : Chain} {es : List ℕ} (h : TracedClosed segs before c es) (hes : es ≠ []) :
    RunsThrough segs c es := by
  refine ⟨?_, h.nodup, fun e he => (mem_remaining.mp (h.fresh e he)).1, hes⟩
  unfold Chain.ring
  rw [if_pos h.closed]
  exact h.walk

theorem StuckBehind.runsThrough {c : Chain} {es : List ℕ} (h : StuckBehind segs before c es) (hes : es ≠ []) :
    RunsThrough segs c es := by
  refine ⟨?_, h.nodup, fun e he => (mem_remaining.mp (h.fresh e he)).1, hes⟩
  unfold Chain.ring
  rw [h.opened]
  exact h.walk

theorem nodup_remaining (used : ℕ → Bool) : (remaining segs used).Nodup := List.nodup_range.filter _

theorem remaining_perm {c : Chain} {es : List ℕ} (hnodup : es.Nodup) (hfresh : ∀ e ∈ es, e ∈ remaining segs before)
    (hused : ∀ e, c.used e = (before e || decide (e ∈ es))) :
    (remaining segs before).Perm (es ++ remaining segs c.used) := by
  have hiff : ∀ e, e ∈ remaining segs c.used ↔ e ∈ remaining segs before ∧ e ∉ es := by
    intro e
    rw [mem_remaining, mem_remaining, hused, Bool.or_eq_false_iff, decide_eq_false_iff_not, and_assoc]
  have hdisjoint : es.Disjoint (remaining segs c.used) := fun e he hrest => ((hiff e).mp hrest).2 he
  apply (List.perm_ext_iff_of_nodup (nodup_remaining before) (hnodup.append (nodup_remaining _) hdisjoint)).mpr
  intro e
  rw [List.mem_append, hiff]
  by_cases he : e ∈ es
  · exact iff_of_true (hfresh e he) (Or.inl he)
  · rw [or_iff_right he, and_iff_left he]

/-- The chain of an unused segment: a trail through unused segments that contains it. -/
structure Traced (segs : List WeldedSeg) (before : ℕ → Bool) (s0 : ℕ) (c : Chain) (es : List ℕ) : Prop
    extends RunsThrough segs c es where
  start : s0 ∈ es
  fresh : ∀ e ∈ es, e ∈ remaining segs before
  used : ∀ e, c.used e = (before e || decide (e ∈ es))
  odd : (Trail.oddNodes (ends segs) (remaining segs before)).card =
    (Trail.oddNodes (ends segs) (remaining segs c.used)).card + if c.closed then 0 else 2

theorem TracedClosed.traced (hwelded : Welded segs) {s0 : ℕ} {c : Chain} {es : List ℕ}
    (h : TracedClosed segs before c es) (hs0 : s0 ∈ es) : Traced segs before s0 c es := by
  have hruns := h.runsThrough (List.ne_nil_of_mem hs0)
  refine ⟨hruns, hs0, h.fresh, h.used, ?_⟩
  rw [if_pos h.closed, Nat.add_zero]
  have hloop : ∀ e ∈ es, (ends segs e).1 ≠ (ends segs e).2 := fun e he => ends_ne hwelded (hruns.small e he)
  have hhead : (c.nodes ++ [c.nodes.headD 0]).head? = some (c.nodes.headD 0) := by
    rcases c.nodes with _ | ⟨v, vs⟩
    · rfl
    · rfl
  exact Trail.card_oddNodes_closed (remaining_perm h.nodup h.fresh h.used) hloop h.walk hhead List.getLast?_concat

theorem TracedOpen.traced (hwelded : Welded segs) {s0 : ℕ} {c : Chain} {es : List ℕ}
    (h : TracedOpen segs before c es) (hs0 : s0 ∈ es) : Traced segs before s0 c es := by
  have hruns := h.toStuckBehind.runsThrough (List.ne_nil_of_mem hs0)
  refine ⟨hruns, hs0, h.fresh, h.used, ?_⟩
  rw [if_neg (Bool.eq_false_iff.mp h.opened)]
  have hloop : ∀ e ∈ es, (ends segs e).1 ≠ (ends segs e).2 := fun e he => ends_ne hwelded (hruns.small e he)
  have hne := h.walk.ne_nil
  exact Trail.card_oddNodes_open (remaining_perm h.nodup h.fresh h.used) hloop h.walk (head?_eq hne)
    (getLast?_eq hne) h.apart h.front h.back

theorem length_remaining_lt (used : ℕ → Bool) : (remaining segs used).length < segs.length + 1 := by
  have hle := List.length_filter_le (fun s => !used s) (List.range segs.length)
  rw [List.length_range] at hle
  exact Nat.lt_succ_of_le hle

theorem tracing_start {s0 : ℕ} (hs0 : s0 ∈ remaining segs before) :
    Tracing segs before
      ⟨Function.update before s0 true, [(segs.getD s0 ⟨0, 0⟩).a, (segs.getD s0 ⟨0, 0⟩).b], false⟩ [s0] := by
  refine ⟨.cons (Or.inl rfl) (.single _), List.nodup_singleton s0, ?_, fun e => ?_⟩
  · intro e he
    rwa [List.mem_singleton.mp he]
  · dsimp only
    by_cases he : e = s0
    · subst he
      rw [Function.update_self, decide_eq_true (List.mem_singleton_self e), Bool.or_true]
    · rw [Function.update_of_ne he, decide_eq_false (mt List.mem_singleton.mp he), Bool.or_false]

theorem traceFrom_spec (hwelded : Welded segs) (hsmall : segs.length < 2 ^ 32) {s0 : ℕ}
    (hs0 : s0 ∈ remaining segs before) : ∃ c es, traceFrom segs before s0 = some c ∧ Traced segs before s0 c es := by
  obtain ⟨c, more, hrun, hforward⟩ := walkForward_spec hsmall (tracing_start hs0) rfl (List.cons_ne_nil _ _)
    (length_remaining_lt _)
  have hmem : s0 ∈ [s0] ++ more := List.mem_append_left _ (List.mem_singleton_self s0)
  unfold traceFrom
  dsimp only
  rw [hrun]
  dsimp only
  rcases hforward with hclosed | hstuck
  · rw [if_pos hclosed.closed]
    exact ⟨c, _, rfl, hclosed.traced hwelded hmem⟩
  · rw [if_neg (Bool.eq_false_iff.mp hstuck.opened)]
    obtain ⟨c', front, hrun', hopen⟩ := walkBackward_spec hsmall hstuck (length_remaining_lt _)
    exact ⟨c', _, hrun', hopen.traced hwelded (List.mem_append_right _ hmem)⟩

/-! ## All chains -/

/-- Number of open chains. -/
def openChains (chains : List Chain) : ℕ := chains.countP fun c => !c.closed

def oddNodes (segs : List WeldedSeg) : Finset ℕ := Trail.oddNodes (ends segs) (List.range segs.length)

/-- The chains so far run through all segments but the unused ones. -/
structure Progress (segs : List WeldedSeg) (used : ℕ → Bool) (chains : List Chain) : Prop where
  trails : ∃ ess, List.Forall₂ (RunsThrough segs) chains ess ∧
    (List.range segs.length).Perm (ess.flatten ++ remaining segs used)
  odd : (oddNodes segs).card = (Trail.oddNodes (ends segs) (remaining segs used)).card + 2 * openChains chains

theorem progress_start : Progress segs (fun _ => false) [] := by
  have hall : remaining segs (fun _ => false) = List.range segs.length := List.filter_true _
  refine ⟨⟨[], .nil, ?_⟩, ?_⟩
  · rw [hall]
    exact List.Perm.refl _
  · rw [hall]
    rfl

theorem Progress.take {used : ℕ → Bool} {chains : List Chain} (h : Progress segs used chains) {s0 : ℕ} {c : Chain}
    {es : List ℕ} (hc : Traced segs used s0 c es) : Progress segs c.used (chains ++ [c]) := by
  obtain ⟨ess, hruns, hperm⟩ := h.trails
  have hrest := remaining_perm hc.nodup hc.fresh hc.used
  refine ⟨⟨ess ++ [es], ?_, ?_⟩, ?_⟩
  · exact List.rel_append hruns (.cons hc.toRunsThrough .nil)
  · rw [List.flatten_append, List.append_assoc]
    apply hperm.trans
    have hflat : [es].flatten = es := List.append_nil es
    rw [hflat]
    exact hrest.append_left _
  · have hodd := h.odd
    rw [hc.odd] at hodd
    unfold openChains at hodd ⊢
    rw [List.countP_append, List.countP_singleton, hodd]
    cases c.closed with
    | false =>
      rw [if_neg Bool.false_ne_true, Bool.not_false, if_pos rfl]
      omega
    | true => rfl

theorem rounds_spec (hwelded : Welded segs) (hsmall : segs.length < 2 ^ 32) {k : ℕ} (hk : k ≤ segs.length) :
    ∃ used chains, (List.range k).foldlM (traceStep segs) (fun _ => false, []) = some (used, chains) ∧
      Progress segs used chains ∧ ∀ s < k, used s = true := by
  induction k with
  | zero => exact ⟨_, _, rfl, progress_start, fun s hs => absurd hs (Nat.not_lt_zero s)⟩
  | succ k ih =>
    obtain ⟨used, chains, hrun, hprogress, hall⟩ := ih (Nat.le_of_succ_le hk)
    rw [List.range_succ, List.foldlM_append, hrun]
    by_cases hused : used k = true
    · refine ⟨used, chains, ?_, hprogress, ?_⟩
      · show (traceStep segs (used, chains) k).bind pure = _
        unfold traceStep
        rw [if_pos hused]
        rfl
      · intro s hs
        rcases Nat.lt_succ_iff_lt_or_eq.mp hs with hs | rfl
        · exact hall s hs
        · exact hused
    · have hk0 : k ∈ remaining segs used := mem_remaining.mpr ⟨hk, Bool.eq_false_iff.mpr hused⟩
      obtain ⟨c, es, htrace, hc⟩ := traceFrom_spec hwelded hsmall hk0
      refine ⟨c.used, chains ++ [c], ?_, hprogress.take hc, ?_⟩
      · show (traceStep segs (used, chains) k).bind pure = _
        unfold traceStep
        rw [if_neg hused, htrace]
        rfl
      · intro s hs
        rw [hc.used, Bool.or_eq_true, decide_eq_true_iff]
        rcases Nat.lt_succ_iff_lt_or_eq.mp hs with hs | rfl
        · exact Or.inl (hall s hs)
        · exact Or.inr hc.start

theorem map_getD_range : ((List.range segs.length).map fun s => segs.getD s ⟨0, 0⟩) = segs := by
  apply List.ext_getElem
  · rw [List.length_map, List.length_range]
  · intro s h₁ h₂
    rw [List.getElem_map, List.getElem_range, getD_eq h₂]

theorem keys_of_runs {chains : List Chain} {ess : List (List ℕ)} (h : List.Forall₂ (RunsThrough segs) chains ess) :
    (chains.flatMap Chain.sides).map WeldedSeg.key = ess.flatten.map fun s => (segs.getD s ⟨0, 0⟩).key := by
  induction h with
  | nil => rfl
  | cons hc _ ih => rw [List.flatMap_cons, List.map_append, ih, hc.keys, List.flatten_cons, List.map_append]

theorem exists_runsThrough {chains : List Chain} {ess : List (List ℕ)}
    (h : List.Forall₂ (RunsThrough segs) chains ess) : ∀ c ∈ chains, ∃ es, RunsThrough segs c es := by
  induction h with
  | nil => exact fun c hc => absurd hc List.not_mem_nil
  | cons hc _ ih => exact List.forall_mem_cons.mpr ⟨⟨_, hc⟩, ih⟩

/-- The chains of welded segments run through each segment once, and two odd nodes go with each open one. -/
theorem traceAll_spec (hwelded : Welded segs) (hsmall : segs.length < 2 ^ 32) :
    ∃ chains, traceAll segs = some chains ∧
      ((chains.flatMap Chain.sides).map WeldedSeg.key).Perm (segs.map WeldedSeg.key) ∧
      (∀ c ∈ chains, c.degenerate = false) ∧ (∀ c ∈ chains, c.closed = true → 3 ≤ c.nodes.length) ∧
      2 * openChains chains = (oddNodes segs).card := by
  obtain ⟨used, chains, hrun, hprogress, hall⟩ := rounds_spec hwelded hsmall (Nat.le_refl _)
  have hnone : remaining segs used = [] := by
    apply List.eq_nil_iff_forall_not_mem.mpr
    intro s hs
    obtain ⟨hlt, hfree⟩ := mem_remaining.mp hs
    rw [hall s hlt] at hfree
    cases hfree
  obtain ⟨ess, hruns, hperm⟩ := hprogress.trails
  have hthree : ∀ c ∈ chains, c.closed = true → 3 ≤ c.nodes.length := by
    intro c hc hclosed
    obtain ⟨es, hes⟩ := exists_runsThrough hruns c hc
    exact hes.three_le hwelded hclosed
  refine ⟨chains, ?_, ?_, ?_, hthree, ?_⟩
  · unfold traceAll
    rw [hrun]
    rfl
  · rw [hnone, List.append_nil] at hperm
    have hkeys := hperm.symm.map fun s => (segs.getD s ⟨0, 0⟩).key
    rw [keys_of_runs hruns]
    apply hkeys.trans
    rw [← Function.comp_def WeldedSeg.key, ← List.map_map, map_getD_range]
  · intro c hc
    obtain ⟨es, hes⟩ := exists_runsThrough hruns c hc
    exact hes.not_degenerate hwelded
  · rw [hprogress.odd, hnone, Trail.oddNodes_nil, Finset.card_empty, Nat.zero_add]

end

end Souxmar.Am.Slicer
