import Mathlib.Data.Finset.Card
import Mathlib.Data.Fintype.Pigeonhole
import Mathlib.Data.List.Perm.Basic
import Mathlib.Order.WellFoundedSet

/-!
# Working off a dependency graph

Nodes become ready when all their parents are done. A counter for each node, of the parents that are
not done, finds them: finishing a node counts its children down and pushes those that reach zero.
`Frontier` is the invariant that ties the counters and the ready list to the nodes started and done;
`Frontier.take` and `Frontier.finish` keep it. Kahn's algorithm is the schedule that finishes every
node it takes at once, in one order; several workers may take and finish in any order.
-/

namespace Souxmar.Lib

variable {α : Type*} [DecidableEq α]

/-- Count the children of a finished node down, and push those that are ready now. -/
def release (push : α → List α → List α) : List α → (α → ℕ) × List α → (α → ℕ) × List α
  | [], st => st
  | child :: children, (degree, ready) =>
    let left := degree child - 1
    release push children
      (Function.update degree child left, if left = 0 then push child ready else ready)

section

variable {push : α → List α → List α}

theorem release_degree {children : List α} (hnodup : children.Nodup) (degree : α → ℕ)
    (ready : List α) (x : α) :
    (release push children (degree, ready)).1 x =
      if x ∈ children then degree x - 1 else degree x := by
  induction children generalizing degree ready with
  | nil => simp [release]
  | cons c cs ih =>
    obtain ⟨hc, hcs⟩ := List.nodup_cons.mp hnodup
    rw [release, ih hcs]
    by_cases hx : x = c
    · subst hx
      simp [hc]
    · simp [hx]

theorem release_ready (hpush : ∀ x ready, (push x ready).Perm (x :: ready)) {children : List α}
    (hnodup : children.Nodup) (degree : α → ℕ) (ready : List α) :
    (release push children (degree, ready)).2.Perm
      (children.filter (fun c => degree c - 1 = 0) ++ ready) := by
  induction children generalizing degree ready with
  | nil => exact List.Perm.refl _
  | cons c cs ih =>
    obtain ⟨hc, hcs⟩ := List.nodup_cons.mp hnodup
    have hsame : cs.filter (fun c' => Function.update degree c (degree c - 1) c' - 1 = 0) =
        cs.filter (fun c' => degree c' - 1 = 0) := by
      refine List.filter_congr fun c' hc' => ?_
      have hne : c' ≠ c := fun heq => hc (heq ▸ hc')
      rw [Function.update_of_ne hne]
    rw [release]
    refine (ih hcs _ _).trans ?_
    rw [hsame, List.filter_cons]
    by_cases hzero : degree c - 1 = 0
    · rw [if_pos hzero, if_pos (decide_eq_true hzero)]
      exact (List.Perm.append_left _ (hpush c ready)).trans List.perm_middle
    · rw [if_neg hzero, if_neg (by simpa using hzero)]

end

/-- `p` is a parent of the node `x`. -/
def Feeds (nodes : Finset α) (parents : α → Finset α) (p x : α) : Prop := x ∈ nodes ∧ p ∈ parents x

/-- No node waits for itself, however indirectly. -/
def Acyclic (nodes : Finset α) (parents : α → Finset α) : Prop :=
  ∀ x, ¬Relation.TransGen (Feeds nodes parents) x x

/-- The counters and the ready list fit the nodes that are started and done. -/
structure Frontier (nodes : Finset α) (parents : α → Finset α) (started done : Finset α)
    (degree : α → ℕ) (ready : List α) : Prop where
  done_started : done ⊆ started
  started_nodes : started ⊆ nodes
  started_closed : ∀ x ∈ started, parents x ⊆ done
  degree_eq : ∀ x ∈ nodes, degree x = (parents x \ done).card
  nodup : ready.Nodup
  mem_ready : ∀ x, x ∈ ready ↔ x ∈ nodes ∧ x ∉ started ∧ parents x ⊆ done

namespace Frontier

variable {nodes : Finset α} {parents : α → Finset α} {started done : Finset α} {degree : α → ℕ}
  {ready : List α}

theorem init {degree : α → ℕ} {ready : List α} (hdegree : ∀ x ∈ nodes, degree x = (parents x).card)
    (hnodup : ready.Nodup) (hready : ∀ x, x ∈ ready ↔ x ∈ nodes ∧ degree x = 0) :
    Frontier nodes parents ∅ ∅ degree ready where
  done_started := Finset.Subset.refl _
  started_nodes := Finset.empty_subset _
  started_closed x hx := absurd hx (Finset.notMem_empty x)
  degree_eq x hx := by rw [hdegree x hx, Finset.sdiff_empty]
  nodup := hnodup
  mem_ready x := by
    rw [hready]
    constructor
    · rintro ⟨hx, hzero⟩
      rw [hdegree x hx, Finset.card_eq_zero] at hzero
      exact ⟨hx, Finset.notMem_empty x, by rw [hzero]⟩
    · rintro ⟨hx, _, hparents⟩
      exact ⟨hx, by rw [hdegree x hx, Finset.subset_empty.mp hparents, Finset.card_empty]⟩

/-- A ready node is started. -/
theorem take {x : α} (h : Frontier nodes parents started done degree (x :: ready)) :
    Frontier nodes parents (insert x started) done degree ready where
  done_started := h.done_started.trans (Finset.subset_insert _ _)
  started_nodes := by
    have hx := (h.mem_ready x).mp List.mem_cons_self
    exact Finset.insert_subset hx.1 h.started_nodes
  started_closed y hy := by
    rcases Finset.mem_insert.mp hy with rfl | hy
    · exact ((h.mem_ready y).mp List.mem_cons_self).2.2
    · exact h.started_closed y hy
  degree_eq := h.degree_eq
  nodup := (List.nodup_cons.mp h.nodup).2
  mem_ready y := by
    have hx := (List.nodup_cons.mp h.nodup).1
    have hy := h.mem_ready y
    rw [List.mem_cons] at hy
    rw [Finset.mem_insert, not_or]
    constructor
    · intro hmem
      obtain ⟨hnode, hstarted, hparents⟩ := hy.mp (.inr hmem)
      exact ⟨hnode, ⟨fun heq => hx (heq ▸ hmem), hstarted⟩, hparents⟩
    · rintro ⟨hnode, ⟨hne, hstarted⟩, hparents⟩
      exact (hy.mpr ⟨hnode, hstarted, hparents⟩).resolve_left hne

/-- A started node is done: its children are counted down. -/
theorem finish {push : α → List α → List α} (hpush : ∀ x ready, (push x ready).Perm (x :: ready))
    {x : α} (h : Frontier nodes parents started done degree ready) (hstarted : x ∈ started)
    (hdone : x ∉ done) {children : List α} (hnodup : children.Nodup)
    (hchildren : ∀ y, y ∈ children ↔ y ∈ nodes ∧ x ∈ parents y) :
    Frontier nodes parents started (insert x done) (release push children (degree, ready)).1
      (release push children (degree, ready)).2 := by
  have hcount : ∀ y ∈ nodes, (parents y \ insert x done).card =
      if y ∈ children then degree y - 1 else degree y := by
    intro y hy
    rw [Finset.sdiff_insert, h.degree_eq y hy]
    split_ifs with hchild
    · have hx : x ∈ parents y \ done := Finset.mem_sdiff.mpr ⟨((hchildren y).mp hchild).2, hdone⟩
      exact Finset.card_erase_of_mem hx
    · have hx : x ∉ parents y \ done := fun hx =>
        hchild ((hchildren y).mpr ⟨hy, (Finset.mem_sdiff.mp hx).1⟩)
      rw [Finset.erase_eq_of_notMem hx]
  -- a child that reaches zero was neither started nor ready before
  have hfresh : ∀ y ∈ children, y ∉ started := fun y hy hmem =>
    hdone (h.started_closed y hmem ((hchildren y).mp hy).2)
  have hzero : ∀ y ∈ children, degree y - 1 = 0 ↔ parents y ⊆ insert x done := by
    intro y hy
    have hcard := hcount y ((hchildren y).mp hy).1
    rw [if_pos hy] at hcard
    rw [← hcard, Finset.card_eq_zero, Finset.sdiff_eq_empty_iff_subset]
  have hperm := release_ready hpush hnodup degree ready
  refine ⟨Finset.insert_subset hstarted h.done_started, h.started_nodes,
    fun y hy => (h.started_closed y hy).trans (Finset.subset_insert _ _),
    fun y hy => by rw [release_degree hnodup, hcount y hy], ?_, fun y => ?_⟩
  · rw [hperm.nodup_iff, List.nodup_append]
    refine ⟨hnodup.filter _, h.nodup, fun y hy z hz heq => ?_⟩
    subst heq
    exact hdone (((h.mem_ready y).mp hz).2.2
      ((hchildren y).mp (List.mem_of_mem_filter hy)).2)
  · rw [hperm.mem_iff, List.mem_append, List.mem_filter, decide_eq_true_eq, h.mem_ready]
    constructor
    · rintro (⟨hy, hleft⟩ | ⟨hnode, hstart, hparents⟩)
      · exact ⟨((hchildren y).mp hy).1, hfresh y hy, (hzero y hy).mp hleft⟩
      · exact ⟨hnode, hstart, hparents.trans (Finset.subset_insert _ _)⟩
    · rintro ⟨hnode, hstart, hparents⟩
      by_cases hy : y ∈ children
      · exact .inl ⟨hy, (hzero y hy).mpr hparents⟩
      · refine .inr ⟨hnode, hstart, fun p hp => ?_⟩
        rcases Finset.mem_insert.mp (hparents hp) with rfl | hp'
        · exact absurd ((hchildren y).mpr ⟨hnode, hp⟩) hy
        · exact hp'

/-- When nothing is ready and nothing is under way, the counters tell what is done. -/
theorem degree_pos_iff (h : Frontier nodes parents done done degree []) {x : α} (hx : x ∈ nodes) :
    0 < degree x ↔ x ∉ done := by
  rw [h.degree_eq x hx, Finset.card_pos, Finset.sdiff_nonempty]
  constructor
  · intro hleft hdone
    exact hleft (h.started_closed x hdone)
  · intro hdone hsub
    exact nomatch (h.mem_ready x).mpr ⟨hx, hdone, hsub⟩

theorem all_done (h : Frontier nodes parents done done degree [])
    (hparents : ∀ x ∈ nodes, parents x ⊆ nodes) (hacyclic : Acyclic nodes parents) : done = nodes := by
  refine Finset.Subset.antisymm h.started_nodes fun x hx => ?_
  have : IsTrans α (Relation.TransGen (Feeds nodes parents)) := ⟨fun _ _ _ => Relation.TransGen.trans⟩
  have : Std.Irrefl (Relation.TransGen (Feeds nodes parents)) := ⟨hacyclic⟩
  have : IsStrictOrder α (Relation.TransGen (Feeds nodes parents)) := {}
  have hwf := nodes.finite_toSet.wellFoundedOn (r := Relation.TransGen (Feeds nodes parents))
  refine hwf.induction (Finset.mem_coe.mpr hx) fun y hy ih => ?_
  by_contra hdone
  have hsub : parents y ⊆ done := fun p hp =>
    ih p (hparents y hy hp) (.single ⟨hy, hp⟩)
  exact nomatch (h.mem_ready y).mpr ⟨hy, hdone, hsub⟩

end Frontier

/-! ## Kahn's algorithm -/

/-- Take the first ready node, finish it and go on, at most the given number of times. -/
def kahn (push : α → List α → List α) (children : α → List α) :
    ℕ → (α → ℕ) → List α → List α → List α × (α → ℕ)
  | 0, degree, _, order => (order, degree)
  | _ + 1, degree, [], order => (order, degree)
  | n + 1, degree, node :: ready, order =>
    let (degree, ready) := release push (children node) (degree, ready)
    kahn push children n degree ready (order ++ [node])

/-- Every node stands after its parents. -/
def Topological (parents : α → Finset α) (order : List α) : Prop :=
  ∀ before x after, order = before ++ x :: after → ∀ p ∈ parents x, p ∈ before

omit [DecidableEq α] in
theorem Topological.snoc {parents : α → Finset α} {order : List α} (h : Topological parents order)
    {x : α} (hx : ∀ p ∈ parents x, p ∈ order) : Topological parents (order ++ [x]) := by
  intro before y after heq
  rcases List.eq_nil_or_concat after with rfl | ⟨after, last, rfl⟩
  · obtain ⟨hbefore, hlast⟩ := List.append_inj' heq rfl
    obtain rfl := (List.cons.inj hlast).1
    exact hbefore ▸ hx
  · rw [List.concat_eq_append, ← List.cons_append, ← List.append_assoc] at heq
    exact h before y after (List.append_inj' heq rfl).1

section

variable {push : α → List α → List α} {nodes : Finset α} {parents : α → Finset α}
  {children : α → List α}

/-- A ready node is worked off: it joins the order. -/
theorem Frontier.advance (hpush : ∀ x ready, (push x ready).Perm (x :: ready))
    (hnodup : ∀ x, (children x).Nodup)
    (hchildren : ∀ x y, y ∈ children x ↔ y ∈ nodes ∧ x ∈ parents y) {degree : α → ℕ} {x : α}
    {ready order : List α}
    (h : Frontier nodes parents order.toFinset order.toFinset degree (x :: ready)) :
    x ∉ order ∧ Frontier nodes parents (order ++ [x]).toFinset (order ++ [x]).toFinset
      (release push (children x) (degree, ready)).1 (release push (children x) (degree, ready)).2 := by
  have hx := (h.mem_ready x).mp List.mem_cons_self
  have hxorder : x ∉ order := fun hmem => hx.2.1 (List.mem_toFinset.mpr hmem)
  have hstep := h.take.finish hpush (Finset.mem_insert_self x _)
    (fun hmem => hxorder (List.mem_toFinset.mp hmem)) (hnodup x) (hchildren x)
  have hset : (order ++ [x]).toFinset = insert x order.toFinset := by
    ext y
    simp
  rw [← hset] at hstep
  exact ⟨hxorder, hstep⟩

/-- The order is of distinct nodes, each after its parents. -/
theorem kahn_topological (hpush : ∀ x ready, (push x ready).Perm (x :: ready))
    (hnodup : ∀ x, (children x).Nodup)
    (hchildren : ∀ x y, y ∈ children x ↔ y ∈ nodes ∧ x ∈ parents y)
    (n : ℕ) {degree : α → ℕ} {ready order : List α}
    (h : Frontier nodes parents order.toFinset order.toFinset degree ready)
    (horder : order.Nodup) (htop : Topological parents order) :
    (kahn push children n degree ready order).1.Nodup ∧
      (kahn push children n degree ready order).1.toFinset ⊆ nodes ∧
      Topological parents (kahn push children n degree ready order).1 := by
  induction n generalizing degree ready order with
  | zero => exact ⟨horder, h.started_nodes, htop⟩
  | succ n ih =>
    cases ready with
    | nil => exact ⟨horder, h.started_nodes, htop⟩
    | cons x ready =>
      have hx := (h.mem_ready x).mp List.mem_cons_self
      obtain ⟨hxorder, hstep⟩ := h.advance hpush hnodup hchildren
      refine ih hstep (List.nodup_append.mpr ⟨horder, List.nodup_singleton x, ?_⟩) (htop.snoc ?_)
      · intro y hy z hz heq
        rw [List.mem_singleton.mp hz] at heq
        exact hxorder (heq ▸ hy)
      · intro p hp
        exact List.mem_toFinset.mp (hx.2.2 hp)

/-- A graph with a topological order has no cycle. -/
theorem Topological.acyclic {nodes : Finset α} {parents : α → Finset α} {order : List α}
    (h : Topological parents order) (hnodup : order.Nodup) (hnodes : ∀ x ∈ nodes, x ∈ order) :
    Acyclic nodes parents := by
  have hfeeds : ∀ p x, Feeds nodes parents p x → order.idxOf p < order.idxOf x := by
    rintro p x ⟨hx, hp⟩
    obtain ⟨before, after, horder⟩ := List.append_of_mem (hnodes x hx)
    have hpb := h before x after horder p hp
    have hxb : x ∉ before := by
      rw [horder, List.nodup_append] at hnodup
      exact fun hmem => hnodup.2.2 x hmem x List.mem_cons_self rfl
    rw [horder, List.idxOf_append_of_mem hpb, List.idxOf_append_of_notMem hxb, List.idxOf_cons_self]
    exact lt_of_lt_of_le (List.idxOf_lt_length_iff.mpr hpb) (Nat.le_add_right _ _)
  have hlt : ∀ p x, Relation.TransGen (Feeds nodes parents) p x → order.idxOf p < order.idxOf x := by
    intro p x hpath
    induction hpath with
    | single hpx => exact hfeeds p _ hpx
    | tail _ hxy ih => exact ih.trans (hfeeds _ _ hxy)
  exact fun x hpath => lt_irrefl _ (hlt x x hpath)

theorem kahn_rests (hpush : ∀ x ready, (push x ready).Perm (x :: ready))
    (hnodup : ∀ x, (children x).Nodup)
    (hchildren : ∀ x y, y ∈ children x ↔ y ∈ nodes ∧ x ∈ parents y) (n : ℕ)
    {degree : α → ℕ} {ready order : List α}
    (h : Frontier nodes parents order.toFinset order.toFinset degree ready)
    (hfuel : (nodes \ order.toFinset).card ≤ n) :
    Frontier nodes parents (kahn push children n degree ready order).1.toFinset
      (kahn push children n degree ready order).1.toFinset (kahn push children n degree ready order).2
      [] := by
  induction n generalizing degree ready order with
  | zero =>
    have hnone := Finset.sdiff_eq_empty_iff_subset.mp (Finset.card_eq_zero.mp (Nat.le_zero.mp hfuel))
    cases ready with
    | nil => exact h
    | cons x ready =>
      obtain ⟨hx, hstarted, -⟩ := (h.mem_ready x).mp List.mem_cons_self
      exact absurd (hnone hx) hstarted
  | succ n ih =>
    cases ready with
    | nil => exact h
    | cons x ready =>
      obtain ⟨hxorder, hstep⟩ := h.advance hpush hnodup hchildren
      refine ih hstep ?_
      have hx : x ∈ nodes \ order.toFinset := Finset.mem_sdiff.mpr
        ⟨((h.mem_ready x).mp List.mem_cons_self).1, fun hmem => hxorder (List.mem_toFinset.mp hmem)⟩
      have hset : nodes \ (order ++ [x]).toFinset = (nodes \ order.toFinset).erase x := by
        ext y
        simp only [Finset.mem_sdiff, List.mem_toFinset, List.mem_append, List.mem_singleton,
          Finset.mem_erase]
        tauto
      have hcard := Finset.card_erase_of_mem hx
      rw [hset]
      omega

theorem kahn_complete (hpush : ∀ x ready, (push x ready).Perm (x :: ready))
    (hnodup : ∀ x, (children x).Nodup)
    (hchildren : ∀ x y, y ∈ children x ↔ y ∈ nodes ∧ x ∈ parents y)
    (hparents : ∀ x ∈ nodes, parents x ⊆ nodes) (hacyclic : Acyclic nodes parents) (n : ℕ)
    {degree : α → ℕ} {ready order : List α}
    (h : Frontier nodes parents order.toFinset order.toFinset degree ready)
    (hfuel : (nodes \ order.toFinset).card ≤ n) :
    (kahn push children n degree ready order).1.toFinset = nodes :=
  (kahn_rests hpush hnodup hchildren n h hfuel).all_done hparents hacyclic

omit [DecidableEq α] in
theorem reaches_cycle {s : Finset α} {r : α → α → Prop} (h : ∀ x ∈ s, ∃ y ∈ s, r x y) {x : α}
    (hx : x ∈ s) : ∃ y, Relation.ReflTransGen r x y ∧ Relation.TransGen r y y := by
  choose next hnext hr using fun x : s => h x x.2
  let f : s → s := fun x => ⟨next x, hnext x⟩
  have hpath : ∀ m n, Relation.ReflTransGen r (f^[m] ⟨x, hx⟩ : s) (f^[m + n] ⟨x, hx⟩ : s) := by
    intro m n
    induction n with
    | zero => exact .refl
    | succ n ih =>
      rw [← Nat.add_assoc, Function.iterate_succ_apply']
      exact ih.tail (hr _)
  -- among the nodes met one comes twice
  obtain ⟨m, n, hne, heq⟩ := Finite.exists_ne_map_eq_of_infinite fun n : ℕ => f^[n] ⟨x, hx⟩
  wlog hlt : m < n generalizing m n
  · exact this n m hne.symm heq.symm (by omega)
  obtain ⟨k, rfl⟩ := Nat.exists_eq_add_of_lt hlt
  refine ⟨f^[m] ⟨x, hx⟩, ?_, ?_⟩
  · have hfrom := hpath 0 m
    rwa [Nat.zero_add] at hfrom
  · have hback := hpath (m + 1) k
    have hend : f^[m + 1 + k] ⟨x, hx⟩ = f^[m] ⟨x, hx⟩ := by
      rw [Nat.add_right_comm]
      exact heq.symm
    rw [hend] at hback
    refine Relation.TransGen.head' ?_ hback
    rw [Function.iterate_succ_apply']
    exact hr _

theorem left_over_iff {degree : α → ℕ} {order : List α}
    (h : Frontier nodes parents order.toFinset order.toFinset degree []) (hnodup : order.Nodup)
    (htop : Topological parents order) (hparents : ∀ x ∈ nodes, parents x ⊆ nodes) {x : α}
    (hx : x ∈ nodes) :
    x ∉ order ↔ ∃ y, Relation.TransGen (Feeds nodes parents) y y ∧
      Relation.ReflTransGen (Feeds nodes parents) y x := by
  have hclosed : ∀ p y, Feeds nodes parents p y → y ∈ order → p ∈ order := fun p y hp hy =>
    List.mem_toFinset.mp (h.started_closed y (List.mem_toFinset.mpr hy) hp.2)
  constructor
  · intro hleft
    have hwaits : ∀ y ∈ nodes \ order.toFinset, ∃ p ∈ nodes \ order.toFinset,
        Function.swap (Feeds nodes parents) y p := by
      intro y hy
      obtain ⟨hnode, hnew⟩ := Finset.mem_sdiff.mp hy
      have hsub : ¬parents y ⊆ order.toFinset := fun hsub => nomatch (h.mem_ready y).mpr ⟨hnode, hnew, hsub⟩
      obtain ⟨p, hp, hpnew⟩ := Finset.not_subset.mp hsub
      exact ⟨p, Finset.mem_sdiff.mpr ⟨hparents y hnode hp, hpnew⟩, hnode, hp⟩
    obtain ⟨y, hxy, hy⟩ := reaches_cycle hwaits
      (Finset.mem_sdiff.mpr ⟨hx, fun hmem => hleft (List.mem_toFinset.mp hmem)⟩)
    exact ⟨y, Relation.transGen_swap.mp hy, Relation.reflTransGen_swap.mp hxy⟩
  · rintro ⟨y, hcycle, hpath⟩ hmem
    have hback : ∀ a, Relation.ReflTransGen (Feeds nodes parents) a x → a ∈ order := by
      intro a hpath
      induction hpath using Relation.ReflTransGen.head_induction_on with
      | refl => exact hmem
      | head hp _ ih => exact hclosed _ _ hp ih
    have hinside : ∀ a b, Relation.TransGen (Feeds nodes parents) a b → b ∈ order →
        Relation.TransGen (Feeds order.toFinset parents) a b := by
      intro a b hab
      induction hab with
      | single hab => exact fun hb => .single ⟨List.mem_toFinset.mpr hb, hab.2⟩
      | tail _ hbc ih =>
        exact fun hc => (ih (hclosed _ _ hbc hc)).tail ⟨List.mem_toFinset.mpr hc, hbc.2⟩
    exact htop.acyclic hnodup (fun z hz => List.mem_toFinset.mp hz) y (hinside y y hcycle (hback y hpath))

theorem kahn_prefix (n : ℕ) (degree : α → ℕ) (ready order : List α) :
    order <+: (kahn push children n degree ready order).1 := by
  induction n generalizing degree ready order with
  | zero => exact List.prefix_rfl
  | succ n ih =>
    cases ready with
    | nil => exact List.prefix_rfl
    | cons x ready => exact (List.prefix_append order [x]).trans (ih _ _ _)

end

/-! ### Working off the least ready node -/

section

variable {β : Type*} [LinearOrder β] {nodes : Finset β} {parents : β → Finset β}
  {children : β → List β}

theorem release_sorted (children : List β) (degree : β → ℕ) {ready : List β}
    (h : ready.Pairwise (· ≤ ·)) :
    (release (List.orderedInsert (· ≤ ·)) children (degree, ready)).2.Pairwise (· ≤ ·) := by
  induction children generalizing degree ready with
  | nil => exact h
  | cons c cs ih =>
    rw [release]
    refine ih _ ?_
    split_ifs
    · exact h.orderedInsert c ready
    · exact h

theorem lex_append (order rest : List β) :
    order = order ++ rest ∨ List.Lex (· < ·) order (order ++ rest) := by
  cases rest with
  | nil => exact .inl (List.append_nil order).symm
  | cons y rest =>
    have hlex := List.Lex.append_left (· < ·) (List.Lex.nil (a := y) (l := rest)) order
    rw [List.append_nil] at hlex
    exact .inr hlex

theorem kahn_least (hnodup : ∀ x, (children x).Nodup)
    (hchildren : ∀ x y, y ∈ children x ↔ y ∈ nodes ∧ x ∈ parents y) (n : ℕ) {degree : β → ℕ}
    {ready order rest : List β}
    (h : Frontier nodes parents order.toFinset order.toFinset degree ready)
    (hsorted : ready.Pairwise (· ≤ ·)) (hrest : (order ++ rest).Nodup)
    (htop : Topological parents (order ++ rest)) (hnodes : ∀ x, x ∈ order ++ rest ↔ x ∈ nodes) :
    (kahn (List.orderedInsert (· ≤ ·)) children n degree ready order).1 = order ++ rest ∨
      List.Lex (· < ·) (kahn (List.orderedInsert (· ≤ ·)) children n degree ready order).1
        (order ++ rest) := by
  induction n generalizing degree ready order rest with
  | zero => exact lex_append order rest
  | succ n ih =>
    cases ready with
    | nil => exact lex_append order rest
    | cons x ready =>
      have hpush : ∀ (x : β) ready, (List.orderedInsert (· ≤ ·) x ready).Perm (x :: ready) :=
        fun x ready => List.perm_orderedInsert (· ≤ ·) x ready
      obtain ⟨hxorder, hstep⟩ := h.advance hpush hnodup hchildren
      have hx := (h.mem_ready x).mp List.mem_cons_self
      cases rest with
      | nil =>
        have hmem := (hnodes x).mpr hx.1
        rw [List.append_nil] at hmem
        exact absurd hmem hxorder
      | cons y rest =>
        -- the next node of the other order is ready too
        have hy : y ∈ x :: ready := by
          refine (h.mem_ready y).mpr ⟨(hnodes y).mp (by simp), ?_, fun p hp => ?_⟩
          · intro hmem
            rw [List.nodup_append] at hrest
            exact hrest.2.2 y (List.mem_toFinset.mp hmem) y List.mem_cons_self rfl
          · exact List.mem_toFinset.mpr (htop order y rest rfl p hp)
        rcases List.mem_cons.mp hy with rfl | hy
        · have hassoc : order ++ y :: rest = order ++ [y] ++ rest := by simp
          rw [hassoc] at hrest htop hnodes ⊢
          exact ih hstep (release_sorted _ _ (List.pairwise_cons.mp hsorted).2) hrest htop hnodes
        · have hle : x ≤ y := (List.pairwise_cons.mp hsorted).1 y hy
          have hne : x ≠ y := fun heq => (List.nodup_cons.mp h.nodup).1 (heq ▸ hy)
          rw [kahn]
          have hprefix : order ++ [x] <+: (kahn (List.orderedInsert (· ≤ ·)) children n
              (release (List.orderedInsert (· ≤ ·)) (children x) (degree, ready)).1
              (release (List.orderedInsert (· ≤ ·)) (children x) (degree, ready)).2
              (order ++ [x])).1 := kahn_prefix n _ _ _
          obtain ⟨tail, htail⟩ := hprefix
          dsimp only
          rw [← htail, List.append_assoc]
          have hlex : List.Lex (· < ·) ([x] ++ tail) (y :: rest) :=
            List.Lex.rel (lt_of_le_of_ne hle hne)
          exact .inr (List.Lex.append_left (· < ·) hlex order)

end

end Souxmar.Lib
