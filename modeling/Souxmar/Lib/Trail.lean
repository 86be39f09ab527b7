import Mathlib.Data.Finset.Card
import Mathlib.Data.List.Count

/-!
# Trails

Walks in a graph whose edges have names and two ends. A walk gives its two ends odd degrees when they differ, and even
degrees to all other nodes, so that taking a walk out of a graph changes the parity of its ends only.
-/

namespace Souxmar.Lib.Trail

variable {V E : Type*}

/-- The edge joins the nodes. -/
def Joins (ends : E → V × V) (e : E) (v w : V) : Prop := ends e = (v, w) ∨ ends e = (w, v)

/-- A walk by its nodes and its edges. -/
inductive Walk (ends : E → V × V) : List V → List E → Prop
  | single (v : V) : Walk ends [v] []
  | cons {v w : V} {vs : List V} {e : E} {es : List E} (hjoins : Joins ends e v w) (hwalk : Walk ends (w :: vs) es) :
      Walk ends (v :: w :: vs) (e :: es)

variable {ends : E → V × V}

theorem Joins.symm {e : E} {v w : V} (h : Joins ends e v w) : Joins ends e w v := Or.symm h

theorem Walk.ne_nil {vs : List V} {es : List E} (h : Walk ends vs es) : vs ≠ [] := by
  cases h with
  | single v => exact List.cons_ne_nil _ _
  | cons _ _ => exact List.cons_ne_nil _ _

theorem Walk.length {vs : List V} {es : List E} (h : Walk ends vs es) : vs.length = es.length + 1 := by
  induction h with
  | single v => rfl
  | cons _ _ ih => rw [List.length_cons, ih, List.length_cons]

theorem Walk.snoc {vs : List V} {es : List E} (h : Walk ends vs es) {v w : V} {e : E} (hlast : vs.getLast? = some v)
    (hjoins : Joins ends e v w) : Walk ends (vs ++ [w]) (es ++ [e]) := by
  induction h with
  | single v' =>
    obtain rfl : v' = v := Option.some.inj hlast
    exact .cons hjoins (.single w)
  | cons hjoins' hwalk ih =>
    rw [List.getLast?_cons_cons] at hlast
    exact .cons hjoins' (ih hlast)

theorem Walk.extend {vs : List V} {es : List E} (h : Walk ends vs es) {v w : V} {e : E} (hhead : vs.head? = some v)
    (hjoins : Joins ends e w v) : Walk ends (w :: vs) (e :: es) := by
  cases h with
  | single v' =>
    obtain rfl : v' = v := Option.some.inj hhead
    exact .cons hjoins (.single v')
  | cons hjoins' hwalk =>
    obtain rfl := Option.some.inj hhead
    exact .cons hjoins (.cons hjoins' hwalk)

variable [DecidableEq V]

def touches (ends : E → V × V) (v : V) (e : E) : Bool := decide (v = (ends e).1 ∨ v = (ends e).2)

/-- The edges at a node. -/
def degree (ends : E → V × V) (es : List E) (v : V) : ℕ := es.countP (touches ends v)

theorem Joins.touches_iff {e : E} {v w : V} (h : Joins ends e v w) (u : V) :
    touches ends u e = true ↔ u = v ∨ u = w := by
  unfold touches
  rw [decide_eq_true_iff]
  rcases h with h | h
  · rw [h]
  · rw [h, or_comm]

theorem degree_append (es es' : List E) (v : V) :
    degree ends (es ++ es') v = degree ends es v + degree ends es' v := List.countP_append

theorem degree_perm {es es' : List E} (h : es.Perm es') (v : V) : degree ends es v = degree ends es' v :=
  h.countP_eq _

theorem degree_pos_iff {es : List E} {v : V} : 0 < degree ends es v ↔ ∃ e ∈ es, touches ends v e = true :=
  List.countP_pos_iff

theorem Walk.parity {vs : List V} {es : List E} (h : Walk ends vs es) (hloop : ∀ e ∈ es, (ends e).1 ≠ (ends e).2)
    {x y : V} (hx : vs.head? = some x) (hy : vs.getLast? = some y) (v : V) :
    degree ends es v % 2 = ((if x = v then 1 else 0) + if y = v then 1 else 0) % 2 := by
  induction h generalizing x with
  | single v' =>
    obtain rfl : v' = x := Option.some.inj hx
    obtain rfl : v' = y := Option.some.inj hy
    have hnone : degree ends ([] : List E) v = 0 := rfl
    rw [hnone]
    split_ifs
    · decide
    · decide
  | @cons v' w vs e es hjoins hwalk ih =>
    obtain rfl := Option.some.inj hx
    rw [List.getLast?_cons_cons] at hy
    obtain ⟨he, hloop⟩ := List.forall_mem_cons.mp hloop
    have hrest := ih hloop rfl hy
    have hne : v' ≠ w := by
      rcases hjoins with h | h
      · rw [h] at he
        exact he
      · rw [h] at he
        exact he.symm
    have hcons : degree ends (e :: es) v = degree ends es v + if touches ends v e = true then 1 else 0 :=
      List.countP_cons
    have htouches := hjoins.touches_iff v
    rw [hcons]
    by_cases hv' : v' = v
    · have hw : ¬w = v := fun hw => hne (hv'.trans hw.symm)
      rw [if_pos (htouches.mpr (Or.inl hv'.symm)), if_pos hv']
      rw [if_neg hw] at hrest
      omega
    · by_cases hw : w = v
      · rw [if_pos (htouches.mpr (Or.inr hw.symm)), if_neg hv']
        rw [if_pos hw] at hrest
        omega
      · have hnot : ¬touches ends v e = true := fun h => (htouches.mp h).elim (fun h => hv' h.symm) fun h => hw h.symm
        rw [if_neg hnot, if_neg hv']
        rw [if_neg hw] at hrest
        exact hrest

/-! ## Nodes of odd degree -/

/-- The nodes of odd degree. -/
def oddNodes (ends : E → V × V) (es : List E) : Finset V :=
  (es.flatMap fun e => [(ends e).1, (ends e).2]).toFinset.filter fun v => degree ends es v % 2 = 1

theorem mem_oddNodes {es : List E} {v : V} : v ∈ oddNodes ends es ↔ degree ends es v % 2 = 1 := by
  unfold oddNodes
  rw [Finset.mem_filter, List.mem_toFinset, List.mem_flatMap]
  refine and_iff_right_of_imp fun hodd => ?_
  have hpos : 0 < degree ends es v := by omega
  obtain ⟨e, he, htouches⟩ := degree_pos_iff.mp hpos
  refine ⟨e, he, ?_⟩
  unfold touches at htouches
  rw [decide_eq_true_iff] at htouches
  rw [List.mem_cons, List.mem_singleton]
  exact htouches

theorem oddNodes_nil : oddNodes ends ([] : List E) = ∅ := rfl

section

variable {all es rest : List E} (hperm : all.Perm (es ++ rest)) (hloop : ∀ e ∈ es, (ends e).1 ≠ (ends e).2)
include hperm hloop

theorem card_oddNodes_closed {x : V} {vs : List V} (h : Walk ends vs es) (hx : vs.head? = some x)
    (hy : vs.getLast? = some x) : (oddNodes ends all).card = (oddNodes ends rest).card := by
  congr 1
  ext v
  have hparity := h.parity hloop hx hy v
  rw [mem_oddNodes, mem_oddNodes, degree_perm hperm, degree_append]
  split_ifs at hparity
  · omega
  · omega

/-- Taking out a walk that cannot go on at either end takes out two of them. -/
theorem card_oddNodes_open {x y : V} {vs : List V} (h : Walk ends vs es) (hx : vs.head? = some x)
    (hy : vs.getLast? = some y) (hxy : x ≠ y) (hx0 : degree ends rest x = 0) (hy0 : degree ends rest y = 0) :
    (oddNodes ends all).card = (oddNodes ends rest).card + 2 := by
  have hunion : oddNodes ends all = insert x (insert y (oddNodes ends rest)) := by
    ext v
    have hparity := h.parity hloop hx hy v
    rw [Finset.mem_insert, Finset.mem_insert, mem_oddNodes, mem_oddNodes, degree_perm hperm, degree_append]
    by_cases hv : v = x
    · subst hv
      rw [if_pos rfl, if_neg (Ne.symm hxy)] at hparity
      refine iff_of_true ?_ (Or.inl rfl)
      omega
    · by_cases hv' : v = y
      · subst hv'
        rw [if_neg hxy, if_pos rfl] at hparity
        refine iff_of_true ?_ (Or.inr (Or.inl rfl))
        omega
      · rw [if_neg (Ne.symm hv), if_neg (Ne.symm hv')] at hparity
        rw [or_iff_right hv, or_iff_right hv']
        omega
  have hx' : x ∉ insert y (oddNodes ends rest) := by
    rw [Finset.mem_insert, mem_oddNodes, hx0, not_or]
    exact ⟨hxy, by decide⟩
  have hy' : y ∉ oddNodes ends rest := by
    rw [mem_oddNodes, hy0]
    decide
  rw [hunion, Finset.card_insert_of_notMem hx', Finset.card_insert_of_notMem hy']

end

end Souxmar.Lib.Trail
