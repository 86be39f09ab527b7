import Mathlib.Order.Basic
import Mathlib.Data.Nat.Notation

/-!
# What every interleaving comes to

`Inevitable step P s`: however the steps from `s` are chosen, after finitely many of them `P` holds.
A state without steps in which `P` fails is ruled out too, so nothing gets stuck on the way.
`Inevitable.of_measure` is the rule: an invariant under which some step can always be taken until `P`
holds, and a measure that every step lowers.
-/

namespace Souxmar.Lib

variable {σ : Type*}

inductive Inevitable (step : σ → σ → Prop) (P : σ → Prop) : σ → Prop
  | now {s : σ} (h : P s) : Inevitable step P s
  | later {s : σ} (hstep : ∃ t, step s t) (h : ∀ t, step s t → Inevitable step P t) :
    Inevitable step P s

namespace Inevitable

variable {step : σ → σ → Prop} {P Q : σ → Prop}

theorem of_measure {I : σ → Prop} (measure : σ → ℕ) (progress : ∀ s, I s → P s ∨ ∃ t, step s t)
    (keep : ∀ s t, I s → step s t → I t) (decrease : ∀ s t, I s → step s t → measure t < measure s)
    {s : σ} (h : I s) : Inevitable step P s := by
  induction hm : measure s using Nat.strongRecOn generalizing s with
  | _ m ih =>
    rcases progress s h with hP | hstep
    · exact .now hP
    · refine .later hstep fun t ht => ?_
      exact ih (measure t) (hm ▸ decrease s t h ht) (keep s t h ht) rfl

theorem mono (hPQ : ∀ s, P s → Q s) {s : σ} (h : Inevitable step P s) : Inevitable step Q s := by
  induction h with
  | now h => exact .now (hPQ _ h)
  | later hstep _ ih => exact .later hstep ih

end Inevitable

end Souxmar.Lib
