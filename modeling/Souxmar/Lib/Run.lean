import Mathlib.Data.List.Basic

/-!
# Runs of a state machine

A machine is a step function `step : σ → α → σ`. `run` plays a list of actions, and `trace` lists
the steps it takes as pairs of the state before the step and the action.

`Along C` says that every step of a run meets `C`, a condition that may look back at the steps before
it, and `Throughout P` that every state of a run meets `P`, the last one included. `Along.invariant`,
`Along.of_invariant` and `along_iff_of_step` are the rules that turn a fact about one step into a fact
about whole runs.
-/

namespace Souxmar.Lib

variable {σ α : Type*} (step : σ → α → σ)

/-- The state after a list of actions. -/
def run (s : σ) (as : List α) : σ := as.foldl step s

@[simp] theorem run_nil (s : σ) : run step s [] = s := rfl

@[simp] theorem run_cons (s : σ) (a : α) (as : List α) :
    run step s (a :: as) = run step (step s a) as := rfl

@[simp] theorem run_append (s : σ) (as bs : List α) :
    run step s (as ++ bs) = run step (run step s as) bs :=
  List.foldl_append

/-- The steps of a run: the state each action meets, and the action. -/
def trace : σ → List α → List (σ × α)
  | _, [] => []
  | s, a :: as => (s, a) :: trace (step s a) as

@[simp] theorem trace_nil (s : σ) : trace step s [] = [] := rfl

@[simp] theorem trace_cons (s : σ) (a : α) (as : List α) :
    trace step s (a :: as) = (s, a) :: trace step (step s a) as := rfl

@[simp] theorem trace_append (s : σ) (as bs : List α) :
    trace step s (as ++ bs) = trace step s as ++ trace step (run step s as) bs := by
  induction as generalizing s with
  | nil => rfl
  | cons a as ih => simp [ih]

/-- Every step of a run meets `C`, which sees the past of the run, the state and the action. -/
def Along (C : List (σ × α) → σ → α → Prop) : List (σ × α) → σ → List α → Prop
  | _, _, [] => True
  | past, s, a :: as => C past s a ∧ Along C (past ++ [(s, a)]) (step s a) as

instance Along.decidable (C : List (σ × α) → σ → α → Prop) [∀ past s a, Decidable (C past s a)] :
    ∀ past s as, Decidable (Along step C past s as)
  | _, _, [] => inferInstanceAs (Decidable True)
  | past, s, a :: as =>
    have := Along.decidable C (past ++ [(s, a)]) (step s a) as
    inferInstanceAs (Decidable (C past s a ∧ Along step C (past ++ [(s, a)]) (step s a) as))

/-- Every state of a run meets `P`, which sees the past of the run and the state. -/
def Throughout (P : List (σ × α) → σ → Prop) : List (σ × α) → σ → List α → Prop
  | past, s, [] => P past s
  | past, s, a :: as => P past s ∧ Throughout P (past ++ [(s, a)]) (step s a) as

variable {step} {P : List (σ × α) → σ → Prop} {C D : List (σ × α) → σ → α → Prop}

/-- The invariant rule: what every step that meets `C` keeps holds at the end of the run. -/
theorem Along.invariant
    (keep : ∀ past s a, P past s → C past s a → P (past ++ [(s, a)]) (step s a))
    {past : List (σ × α)} {s : σ} {as : List α} (hP : P past s) (hC : Along step C past s as) :
    P (past ++ trace step s as) (run step s as) := by
  induction as generalizing past s with
  | nil => simpa using hP
  | cons a as ih =>
    have hnext := ih (keep past s a hP hC.1) hC.2
    rw [List.append_assoc, List.singleton_append] at hnext
    exact hnext

/-- The safety rule: under an invariant that `C` keeps, what `C` implies of one step holds of every
step of the run. -/
theorem Along.of_invariant
    (keep : ∀ past s a, P past s → C past s a → P (past ++ [(s, a)]) (step s a))
    (safe : ∀ past s a, P past s → C past s a → D past s a)
    {past : List (σ × α)} {s : σ} {as : List α} (hP : P past s) (hC : Along step C past s as) :
    Along step D past s as := by
  induction as generalizing past s with
  | nil => trivial
  | cons a as ih => exact ⟨safe past s a hP hC.1, ih (keep past s a hP hC.1) hC.2⟩

theorem Throughout.head {past : List (σ × α)} {s : σ} {as : List α} (h : Throughout step P past s as) :
    P past s := by
  cases as with
  | nil => exact h
  | cons a as => exact h.1

theorem Throughout.along {past : List (σ × α)} {s : σ} {as : List α} (h : Throughout step P past s as) :
    Along step (fun past s a => P (past ++ [(s, a)]) (step s a)) past s as := by
  induction as generalizing past s with
  | nil => trivial
  | cons a as ih => exact ⟨h.2.head, ih h.2⟩

/-- The safety rule for states: under an invariant that `C` keeps, what the invariant implies holds of
every state of the run. -/
theorem Along.throughout {Q : List (σ × α) → σ → Prop}
    (keep : ∀ past s a, P past s → C past s a → P (past ++ [(s, a)]) (step s a))
    (safe : ∀ past s, P past s → Q past s)
    {past : List (σ × α)} {s : σ} {as : List α} (hP : P past s) (hC : Along step C past s as) :
    Throughout step Q past s as := by
  induction as generalizing past s with
  | nil => exact safe past s hP
  | cons a as ih => exact ⟨safe past s hP, ih (keep past s a hP hC.1) hC.2⟩

theorem Along.mono (hCD : ∀ past s a, C past s a → D past s a) {past : List (σ × α)} {s : σ}
    {as : List α} (hC : Along step C past s as) : Along step D past s as :=
  Along.of_invariant (P := fun _ _ => True) (fun _ _ _ _ _ => trivial)
    (fun past s a _ h => hCD past s a h) trivial hC

theorem Along.and {past : List (σ × α)} {s : σ} {as : List α} (hC : Along step C past s as)
    (hD : Along step D past s as) : Along step (fun past s a => C past s a ∧ D past s a) past s as := by
  induction as generalizing past s with
  | nil => trivial
  | cons a as ih => exact ⟨⟨hC.1, hD.1⟩, ih hC.2 hD.2⟩

theorem along_append {past : List (σ × α)} {s : σ} {as bs : List α} :
    Along step C past s (as ++ bs) ↔
      Along step C past s as ∧ Along step C (past ++ trace step s as) (run step s as) bs := by
  induction as generalizing past s with
  | nil => simp [Along]
  | cons a as ih => simp [Along, ih, and_assoc]

theorem Along.take {past : List (σ × α)} {s : σ} {as : List α} (hC : Along step C past s as)
    (n : ℕ) : Along step C past s (as.take n) := by
  rw [← List.take_append_drop n as, along_append] at hC
  exact hC.1

theorem Along.of_past {B : σ → α → Prop} {past past' : List (σ × α)} {s : σ} {as : List α}
    (hB : Along step (fun _ s a => B s a) past s as) :
    Along step (fun _ s a => B s a) past' s as := by
  induction as generalizing past past' s with
  | nil => trivial
  | cons a as ih => exact ⟨hB.1, ih hB.2⟩

/-- The exactness rule: when a step keeps `I` exactly if it meets `B`, so does a run. -/
theorem along_iff_of_step {I : σ → Prop} {B : σ → α → Prop}
    (exact_step : ∀ s a, I s → (I (step s a) ↔ B s a)) {past : List (σ × α)} {s : σ} {as : List α}
    (hs : I s) : Along step (fun _ s a => I (step s a)) past s as ↔
      Along step (fun _ s a => B s a) past s as := by
  induction as generalizing past s with
  | nil => exact Iff.rfl
  | cons a as ih =>
    constructor
    · rintro ⟨hkept, hrest⟩
      exact ⟨(exact_step s a hs).mp hkept, (ih hkept).mp hrest⟩
    · rintro ⟨hmeets, hrest⟩
      have hkept := (exact_step s a hs).mpr hmeets
      exact ⟨hkept, (ih hkept).mpr hrest⟩

/-- A condition on the actions alone. -/
theorem along_of_forall_mem {p : α → Prop} (past : List (σ × α)) (s : σ) {as : List α}
    (h : ∀ a ∈ as, p a) : Along step (fun _ _ a => p a) past s as := by
  induction as generalizing past s with
  | nil => trivial
  | cons a as ih =>
    exact ⟨h a List.mem_cons_self, ih _ _ fun b hb => h b (List.mem_cons_of_mem _ hb)⟩

end Souxmar.Lib
