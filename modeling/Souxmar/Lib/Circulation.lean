import Mathlib.Data.List.Count
import Mathlib.Data.List.Rotate
import Mathlib.Data.List.Zip
import Mathlib.Data.Prod.Basic

/-!
# Closed walks

A list of corners is read as a closed walk: `sides` are its directed edges. Edges are `Balanced` when each one
is met by as many the other way. What several closed walks enclose is open along no edge exactly when their
sides are balanced together.
-/

namespace Souxmar.Lib

variable {α β : Type*}

/-- The directed edges of a closed walk. -/
def sides (l : List α) : List (α × α) := l.zip (l.rotate 1)

theorem sides_map (f : α → β) (l : List α) : sides (l.map f) = (sides l).map (Prod.map f f) := by
  rw [sides, ← List.map_rotate, List.zip_map]
  rfl

theorem sides_rotate (l : List α) (n : ℕ) : sides (l.rotate n) = (sides l).rotate n := by
  have hsame : (l.rotate n).rotate 1 = (l.rotate 1).rotate n := by
    rw [List.rotate_rotate, List.rotate_rotate, Nat.add_comm]
  rw [sides, hsame]
  exact (List.zipWith_rotate_distrib Prod.mk l (l.rotate 1) n (List.length_rotate l 1).symm).symm

/-- Walking the other way turns every side around. -/
theorem sides_reverse (l : List α) : (sides l.reverse).Perm ((sides l).map Prod.swap) := by
  let k := l.length - 1 % l.length
  have hback : (l.rotate k).rotate 1 = l := by
    have hturn := List.rotate_reverse l 1
    rw [← List.reverse_inj, List.reverse_reverse, List.reverse_rotate] at hturn
    rw [List.rotate_rotate]
    by_cases hlen : l.length ≤ 1
    · have hfew : l = [] ∨ ∃ x, l = [x] := by
        cases l with
        | nil => exact Or.inl rfl
        | cons x rest =>
          have hrest : rest = [] := by simpa using hlen
          exact Or.inr ⟨x, by rw [hrest]⟩
      obtain rfl | ⟨x, rfl⟩ := hfew
      · exact List.rotate_nil _
      · exact List.rotate_singleton x _
    · have hfull : k + 1 = l.length := by
        have hone : 1 % l.length = 1 := Nat.mod_eq_of_lt (by omega)
        omega
      rw [hfull]
      exact List.rotate_length l
  have hsides : sides l.reverse = (((sides (l.rotate k)).map Prod.swap)).reverse := by
    have hswap : (sides (l.rotate k)).map Prod.swap = l.zip (l.rotate k) := by
      rw [sides, hback, List.zip_swap]
    rw [hswap, sides, List.rotate_reverse]
    exact (List.reverse_zipWith (List.length_rotate l k).symm).symm
  rw [hsides, sides_rotate]
  exact (List.reverse_perm _).trans ((List.rotate_perm _ _).map _)

/-- Every edge is met by as many the other way. -/
def Balanced (es : List (α × α)) : Prop := es.Perm (es.map Prod.swap)

instance [DecidableEq α] (es : List (α × α)) : Decidable (Balanced es) :=
  inferInstanceAs (Decidable (es.Perm (es.map Prod.swap)))

namespace Balanced

variable {es es' : List (α × α)}

theorem nil : Balanced ([] : List (α × α)) := List.Perm.refl []

theorem perm (h : Balanced es) (hperm : es.Perm es') : Balanced es' :=
  hperm.symm.trans (h.trans (hperm.map _))

theorem append (h : Balanced es) (h' : Balanced es') : Balanced (es ++ es') := by
  unfold Balanced
  rw [List.map_append]
  exact List.Perm.append h h'

theorem flatMap {ι : Type*} {l : List ι} {f : ι → List (α × α)} (h : ∀ i ∈ l, Balanced (f i)) :
    Balanced (l.flatMap f) := by
  induction l with
  | nil => exact nil
  | cons i l ih =>
    rw [List.flatMap_cons]
    exact (h i List.mem_cons_self).append (ih fun j hj => h j (List.mem_cons_of_mem i hj))

theorem map (h : Balanced es) (f : α → β) : Balanced (es.map (Prod.map f f)) := by
  have hswap : (es.map (Prod.map f f)).map Prod.swap = (es.map Prod.swap).map (Prod.map f f) := by
    rw [List.map_map, List.map_map]
    rfl
  unfold Balanced
  rw [hswap]
  exact List.Perm.map _ h

/-- What is left when balanced edges are taken out of balanced ones. -/
theorem of_append (h : Balanced (es ++ es')) (h' : Balanced es') : Balanced es := by
  have hall : (es ++ es').Perm (es.map Prod.swap ++ es'.map Prod.swap) := by
    rw [← List.map_append]
    exact h
  have hkeep : (es ++ es').Perm (es.map Prod.swap ++ es') := hall.trans (h'.symm.append_left _)
  exact (List.perm_append_right_iff es').mp hkeep

theorem pair (a b : α) : Balanced [(a, b), (b, a)] := List.Perm.swap _ _ _

theorem count_eq [BEq (α × α)] [LawfulBEq (α × α)] (h : Balanced es) (a b : α) :
    es.count (a, b) = es.count (b, a) := by
  have hback := List.count_map_of_injective es Prod.swap Prod.swap_injective (b, a)
  exact (List.Perm.count_eq h (a, b)).trans hback

end Balanced

/-- Two walks around the same corners in opposite cyclic order. -/
theorem Balanced.opposed {l l' : List α} (h : l'.IsRotated l.reverse) :
    Balanced (sides l ++ sides l') := by
  have hback : (sides l').Perm ((sides l).map Prod.swap) := by
    obtain ⟨n, hn⟩ := h.symm
    rw [← hn, sides_rotate]
    exact (List.rotate_perm _ n).trans (sides_reverse l)
  have hforth : ((sides l').map Prod.swap).Perm (sides l) := by
    have hperm := hback.map Prod.swap
    rwa [List.map_map, Prod.swap_swap_eq, List.map_id] at hperm
  unfold Balanced
  rw [List.map_append]
  exact List.perm_append_comm.trans (hback.append hforth.symm)

end Souxmar.Lib
