import Mathlib.Data.Nat.Notation

/-!
# Counting loops that can stop

`forRange` is a counting loop over a state whose body may stop with an error. `Ends x E P` says how a
computation ends: with a result in `P` or an error in `E`. `Ends.bind` and `Ends.forRange` are its
rules, the second with a loop invariant; `forRange_error` runs a loop that only checks to its first
error.
-/

namespace Souxmar.Lib

universe u v

variable {ε : Type u} {σ α β : Type v}

/-- `for (i = start; i < start + count; ++i)`. -/
def forRange (body : ℕ → σ → Except ε σ) : ℕ → ℕ → σ → Except ε σ
  | 0, _, s => .ok s
  | count + 1, start, s => do
    let s ← body start s
    forRange body count (start + 1) s

/-- The result lies in `P`, or the error in `E`. -/
def Ends (x : Except ε α) (E : ε → Prop) (P : α → Prop) : Prop :=
  match x with
  | .ok a => P a
  | .error e => E e

namespace Ends

variable {E : ε → Prop} {P : α → Prop} {Q : β → Prop}

theorem ok {a : α} (h : P a) : Ends (.ok a) E P := h

theorem error {e : ε} (h : E e) : Ends (.error e) E P := h

theorem mono {x : Except ε α} {P' : α → Prop} (h : Ends x E P) (hP : ∀ a, P a → P' a) :
    Ends x E P' := by
  cases x with
  | ok a => exact hP a h
  | error e => exact h

theorem bind {x : Except ε α} {f : α → Except ε β} (h : Ends x E P)
    (hf : ∀ a, P a → Ends (f a) E Q) : Ends (x >>= f) E Q := by
  cases x with
  | ok a => exact hf a h
  | error e => exact h

theorem eq_ok {x : Except ε α} {a : α} (h : Ends x (fun _ => False) (fun b => b = a)) : x = .ok a := by
  cases x with
  | ok b => exact congrArg Except.ok h
  | error e => exact h.elim

theorem check {c : Prop} [Decidable c] {e : ε} (h : c → E e) :
    Ends (if c then .error e else .ok PUnit.unit) E (fun _ => ¬c) := by
  by_cases hc : c
  · rw [if_pos hc]
    exact h hc
  · rw [if_neg hc]
    exact hc

/-- The invariant rule for loops. -/
theorem forRange {body : ℕ → σ → Except ε σ} {I : ℕ → σ → Prop} {count start : ℕ} {s : σ}
    (hbody : ∀ i s, start ≤ i → i < start + count → I i s → Ends (body i s) E (I (i + 1)))
    (hs : I start s) : Ends (forRange body count start s) E (I (start + count)) := by
  induction count generalizing start s with
  | zero => exact hs
  | succ count ih =>
    refine (hbody start s (Nat.le_refl _) (by omega) hs).bind fun s' hs' => ?_
    have hrest := ih (fun i s hlo hhi => hbody i s (by omega) (by omega)) hs'
    rwa [show start + 1 + count = start + (count + 1) by omega] at hrest

end Ends

/-- A loop of checks stops at the first one that fails. -/
theorem forRange_error {body : ℕ → PUnit → Except ε PUnit} {count start i : ℕ} {e : ε}
    (hlo : start ≤ i) (hhi : i < start + count) (hpass : ∀ j, start ≤ j → j < i → body j ⟨⟩ = .ok ⟨⟩)
    (hfail : body i ⟨⟩ = .error e) : forRange body count start ⟨⟩ = .error e := by
  induction count generalizing start with
  | zero => omega
  | succ count ih =>
    rw [forRange]
    by_cases hi : i = start
    · rw [← hi, hfail]
      rfl
    · rw [hpass start (Nat.le_refl _) (by omega)]
      exact ih (by omega) (by omega) fun j hj => hpass j (by omega)

theorem forRange_ok {body : ℕ → PUnit → Except ε PUnit} {count start : ℕ}
    (hpass : ∀ i, start ≤ i → i < start + count → body i ⟨⟩ = .ok ⟨⟩) :
    forRange body count start ⟨⟩ = .ok ⟨⟩ := by
  induction count generalizing start with
  | zero => rfl
  | succ count ih =>
    rw [forRange, hpass start (Nat.le_refl _) (by omega)]
    exact ih fun i hlo hhi => hpass i (by omega) (by omega)

/-! ## One result for each element -/

theorem bind_ok_iff {ε α β : Type} {x : Except ε α} {f : α → Except ε β} {b : β} :
    (x >>= f) = .ok b ↔ ∃ a, x = .ok a ∧ f a = .ok b := by
  cases x with
  | error e => simp [bind, Except.bind]
  | ok a => simp [bind, Except.bind]

theorem mapM_ok_iff {ε α β : Type} (f : α → Except ε β) (l : List α) :
    (∃ bs, l.mapM f = .ok bs) ↔ ∀ a ∈ l, ∃ b, f a = .ok b := by
  induction l with
  | nil => simp [pure, Except.pure]
  | cons a l ih =>
    rw [List.forall_mem_cons, ← ih]
    constructor
    · rintro ⟨bs, h⟩
      rw [List.mapM_cons, bind_ok_iff] at h
      obtain ⟨b, hb, h⟩ := h
      obtain ⟨rest, hrest, -⟩ := bind_ok_iff.mp h
      exact ⟨⟨b, hb⟩, rest, hrest⟩
    · rintro ⟨⟨b, hb⟩, rest, hrest⟩
      refine ⟨b :: rest, ?_⟩
      rw [List.mapM_cons, hb, hrest]
      rfl

theorem mapM_ok_map {ε α β : Type} {f : α → Except ε β} {g : α → β} {l : List α} (h : ∀ a ∈ l, f a = .ok (g a)) :
    l.mapM f = .ok (l.map g) := by
  induction l with
  | nil => rfl
  | cons a l ih =>
    obtain ⟨ha, hl⟩ := List.forall_mem_cons.mp h
    rw [List.mapM_cons, ha, ih hl]
    rfl

end Souxmar.Lib
