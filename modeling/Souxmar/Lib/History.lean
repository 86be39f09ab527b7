import Mathlib.Data.List.Basic

/-!
# Histories

A condition on a list of events each of which may look back at the events before it.
-/

namespace Souxmar.Lib

variable {α : Type*} {Q : List α → α → Prop} {history : List α}

/-- Every event meets `Q`, which sees the events before it. -/
def Each (Q : List α → α → Prop) (history : List α) : Prop :=
  ∀ before x after, history = before ++ x :: after → Q before x

namespace Each

theorem nil : Each Q [] := fun before x after heq => by simp at heq

theorem snoc (h : Each Q history) {x : α} (hx : Q history x) : Each Q (history ++ [x]) := by
  intro before y after heq
  rcases List.eq_nil_or_concat after with rfl | ⟨after, last, rfl⟩
  · obtain ⟨hbefore, hlast⟩ := List.append_inj' heq rfl
    obtain rfl := (List.cons.inj hlast).1
    exact hbefore ▸ hx
  · rw [List.concat_eq_append, ← List.cons_append, ← List.append_assoc] at heq
    exact h before y after (List.append_inj' heq rfl).1

end Each

end Souxmar.Lib
