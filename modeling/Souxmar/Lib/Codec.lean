import Mathlib.Data.List.Forall2

/-!
# Words at the head of a stream

Two code words `u` and `v` *agree on* `P` when, wherever they stand at the head of the same stream,
`P` holds and they end at the same place. For two words of one prefix-free code `P` says that they
encode the same thing; the two may also come from different encoders, and `P` then relates what the
two of them have read.
-/

namespace Souxmar.Lib

variable {β : Type*}

/-- `u` and `v` at the head of one stream force `P` and leave the same rest. -/
def AgreeOn (P : Prop) (u v : List β) : Prop :=
  ∀ r s, u ++ r = v ++ s → P ∧ r = s

namespace AgreeOn

variable {P Q : Prop} {u v u' v' : List β}

theorem mono (h : AgreeOn P u v) (hPQ : P → Q) : AgreeOn Q u v := by
  intro r s heq
  obtain ⟨hP, hrs⟩ := h r s heq
  exact ⟨hPQ hP, hrs⟩

theorem of_eq (h : AgreeOn P u v) (heq : u = v) : P :=
  (h [] [] (by rw [heq])).1

theorem of_length (hlen : u.length = v.length) (hP : u = v → P) : AgreeOn P u v := by
  intro r s heq
  obtain ⟨huv, hrs⟩ := List.append_inj heq hlen
  exact ⟨hP huv, hrs⟩

theorem append (h : AgreeOn P u v) (h' : P → AgreeOn Q u' v') :
    AgreeOn (P ∧ Q) (u ++ u') (v ++ v') := by
  intro r s heq
  rw [List.append_assoc, List.append_assoc] at heq
  obtain ⟨hP, hrest⟩ := h _ _ heq
  obtain ⟨hQ, hrs⟩ := h' hP r s hrest
  exact ⟨⟨hP, hQ⟩, hrs⟩

theorem cons (b : β) (h : AgreeOn P u v) : AgreeOn P (b :: u) (b :: v) := by
  intro r s heq
  exact h r s (List.cons.inj heq).2

theorem of_head_ne {b c : β} (hne : b ≠ c) : AgreeOn P (b :: u) (c :: v) := by
  intro r s heq
  exact absurd (List.cons.inj heq).1 hne

theorem terminated {d : β} (hu : d ∉ u) (hv : d ∉ v) : AgreeOn (u = v) (u ++ [d]) (v ++ [d]) := by
  intro r s heq
  induction u generalizing v with
  | nil =>
    cases v with
    | nil => exact ⟨rfl, (List.cons.inj heq).2⟩
    | cons c v => exact absurd ((List.cons.inj heq).1 ▸ List.mem_cons_self) hv
  | cons b u ih =>
    cases v with
    | nil => exact absurd ((List.cons.inj heq).1 ▸ List.mem_cons_self) hu
    | cons c v =>
      obtain ⟨hbc, hrest⟩ := List.cons.inj heq
      obtain ⟨huv, hrs⟩ := ih (fun h => hu (List.mem_cons_of_mem b h))
        (fun h => hv (List.mem_cons_of_mem c h)) hrest
      exact ⟨by rw [hbc, huv], hrs⟩

theorem flatMap {α α' : Type*} {e : α → List β} {e' : α' → List β} {R : α → α' → Prop}
    {xs : List α} {ys : List α'} (hlen : xs.length = ys.length)
    (h : ∀ x ∈ xs, ∀ y ∈ ys, AgreeOn (R x y) (e x) (e' y)) :
    AgreeOn (List.Forall₂ R xs ys) (xs.flatMap e) (ys.flatMap e') := by
  induction xs generalizing ys with
  | nil =>
    cases ys with
    | nil => exact of_length rfl fun _ => .nil
    | cons y ys => nomatch hlen
  | cons x xs ih =>
    cases ys with
    | nil => nomatch hlen
    | cons y ys =>
      have hhead := h x List.mem_cons_self y List.mem_cons_self
      have htail := ih (Nat.succ.inj hlen) fun x hx y hy =>
        h x (List.mem_cons_of_mem _ hx) y (List.mem_cons_of_mem _ hy)
      rw [List.flatMap_cons, List.flatMap_cons]
      exact (hhead.append fun _ => htail).mono fun ⟨hR, hRs⟩ => .cons hR hRs

end AgreeOn

theorem append_delimiter_inj {d : β} {u v u' v' : List β} (hv : d ∉ v) (hv' : d ∉ v')
    (h : u ++ d :: v = u' ++ d :: v') : u = u' ∧ v = v' := by
  have hreverse : (v.reverse ++ [d]) ++ u.reverse = (v'.reverse ++ [d]) ++ u'.reverse := by
    simpa using congrArg List.reverse h
  obtain ⟨hvs, hus⟩ := AgreeOn.terminated (by simpa using hv) (by simpa using hv') _ _ hreverse
  exact ⟨List.reverse_injective hus, List.reverse_injective hvs⟩

/-- A word without the delimiter is a prefix of what stands before it, if of anything. -/
theorem prefix_append_iff {w l rest : List β} (h : ∀ d ∈ rest.head?, d ∉ w) :
    w <+: l ++ rest ↔ w <+: l := by
  refine ⟨fun hw => ?_, fun hw => hw.trans (List.prefix_append l rest)⟩
  rcases List.prefix_or_prefix_of_prefix hw (List.prefix_append l rest) with hwl | ⟨t, rfl⟩
  · exact hwl
  · cases t with
    | nil => exact (List.append_nil l).symm ▸ List.prefix_refl l
    | cons d t =>
      rw [List.prefix_append_right_inj] at hw
      obtain ⟨t', rfl⟩ := hw
      exact absurd (List.mem_append_right l List.mem_cons_self) (h d (Option.mem_some_self d))

end Souxmar.Lib
