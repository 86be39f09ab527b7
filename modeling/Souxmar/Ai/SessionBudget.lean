import Mathlib.Algebra.Order.BigOperators.Group.List
import Mathlib.Data.UInt
import Mathlib.Data.List.Nodup
import Mathlib.Tactic.IntervalCases
import Souxmar.Lib.Run
import Souxmar.PluginHost.PluginManifest

/-!
# Token budgets

`SessionBudget::record` of `audit_log.cpp`, which reports the thresholds that a usage delta crosses, and the
reader of `budget_config.cpp`. Counters are 64 bits wide, and so are the products that are compared.
-/

namespace Souxmar.Ai

open Souxmar.Lib Souxmar.PluginHost

/-! ## Configuration -/

structure BudgetConfig where
  maxInputTokens : UInt64 := 0
  maxOutputTokens : UInt64 := 0
  maxTotalTokens : UInt64 := 0
deriving DecidableEq

structure BudgetConfigError where
  message : String
  line : Option ℕ := none
  field : String := ""
deriving DecidableEq

/-- An axis that is not written has no limit. -/
def readSize (valueInt64 : TomlNode → Option Int64) (tbl : TomlNode) (path : List String) :
    Except BudgetConfigError UInt64 :=
  match tbl.atPath path with
  | none => .ok 0
  | some node =>
    match valueInt64 node with
    | none => .error { message := "'" ++ dotted path ++ "' must be an integer", field := dotted path }
    | some v =>
      if v < 0 then .error
        { message := "'" ++ dotted path ++ "' must be non-negative (0 = unlimited)", field := dotted path }
      else .ok v.toUInt64

def parseBudgetConfig (toml : String → Except TomlError TomlNode) (valueInt64 : TomlNode → Option Int64)
    (tomlSource : String) : Except BudgetConfigError BudgetConfig :=
  match toml tomlSource with
  | .error e => .error
      { message := "TOML parse error: " ++ e.description, line := e.position.map Prod.fst }
  | .ok tbl => do
    let maxInputTokens ← readSize valueInt64 tbl ["budget", "max_input_tokens"]
    let maxOutputTokens ← readSize valueInt64 tbl ["budget", "max_output_tokens"]
    let maxTotalTokens ← readSize valueInt64 tbl ["budget", "max_total_tokens"]
    .ok { maxInputTokens, maxOutputTokens, maxTotalTokens }

/-! ## The budget of a session -/

inductive Axis
  | input
  | output
  | total
deriving DecidableEq, Repr

def Axis.name : Axis → String
  | input => "input"
  | output => "output"
  | total => "total"

def kThresholds : List UInt64 := [50, 80, 100]

def kAxes : List Axis := [.input, .output, .total]

/-- A call of `on_threshold`: the percentage and the axis. -/
structure Threshold where
  pct : UInt64
  axis : Axis
deriving DecidableEq, Repr

structure SessionBudget where
  maxInputTokens : UInt64 := 0
  maxOutputTokens : UInt64 := 0
  maxTotalTokens : UInt64 := 0
  consumedInput : UInt64 := 0
  consumedOutput : UInt64 := 0
  firedThresholds : UInt16 := 0
deriving DecidableEq

/-- `apply_to`. -/
def BudgetConfig.applyTo (cfg : BudgetConfig) (b : SessionBudget) : SessionBudget :=
  { b with
    maxInputTokens := cfg.maxInputTokens
    maxOutputTokens := cfg.maxOutputTokens
    maxTotalTokens := cfg.maxTotalTokens }

namespace SessionBudget

def consumedTotal (b : SessionBudget) : UInt64 := b.consumedInput + b.consumedOutput

def consumed (b : SessionBudget) : Axis → UInt64
  | .input => b.consumedInput
  | .output => b.consumedOutput
  | .total => b.consumedTotal

def maxTokens (b : SessionBudget) : Axis → UInt64
  | .input => b.maxInputTokens
  | .output => b.maxOutputTokens
  | .total => b.maxTotalTokens

end SessionBudget

def overThreshold (consumed maxV pct : UInt64) : Bool :=
  if maxV = 0 then false else consumed * 100 ≥ maxV * pct

/-- Each pair of axis and percentage, with its bit. -/
def thresholdBits : List (Threshold × ℕ) :=
  (kAxes.flatMap fun axis => kThresholds.map fun pct => ⟨pct, axis⟩).zipIdx

def mask (bit : ℕ) : UInt16 := 1 <<< UInt16.ofNat bit

/-- The loop of `record` over the pairs: the bits at the end, and the calls of `on_threshold`. -/
def fireLoop (exceeds : Threshold → Bool) : List (Threshold × ℕ) → UInt16 → UInt16 × List Threshold
  | [], fired => (fired, [])
  | (t, bit) :: rest, fired =>
    if fired &&& mask bit ≠ 0 then fireLoop exceeds rest fired
    else if !exceeds t then fireLoop exceeds rest fired
    else
      let (fired', calls) := fireLoop exceeds rest (fired ||| mask bit)
      (fired', t :: calls)

/-- `SessionBudget::record`: the budget after it, the calls of `on_threshold`, and what it returns. -/
def SessionBudget.record (b : SessionBudget) (inputDelta outputDelta : UInt64) :
    SessionBudget × List Threshold × UInt64 :=
  let b := { b with
    consumedInput := b.consumedInput + inputDelta
    consumedOutput := b.consumedOutput + outputDelta }
  let (fired, calls) :=
    fireLoop (fun t => overThreshold (b.consumed t.axis) (b.maxTokens t.axis) t.pct) thresholdBits
      b.firedThresholds
  ({ b with firedThresholds := fired }, calls, b.consumedTotal)

/-- What one provider call used. -/
abbrev Usage : Type := UInt64 × UInt64

def SessionBudget.step (b : SessionBudget) (u : Usage) : SessionBudget := (b.record u.1 u.2).1

/-- The calls of `on_threshold` in the `k`-th record of a session. -/
def SessionBudget.callsAt (b : SessionBudget) (usage : List Usage) (k : ℕ) : List Threshold :=
  match usage[k]? with
  | none => []
  | some u => ((run step b (usage.take k)).record u.1 u.2).2.1

/-! ## Bits -/

/-- The bit of a pair is set. -/
def Fired (fired : UInt16) (bit : ℕ) : Prop := fired &&& mask bit ≠ 0

instance (fired : UInt16) (bit : ℕ) : Decidable (Fired fired bit) :=
  inferInstanceAs (Decidable (fired &&& mask bit ≠ 0))

theorem toNat_mask {bit : ℕ} (h : bit < 9) : (mask bit).toNat = 2 ^ bit := by
  interval_cases bit <;> rfl

theorem fired_iff {fired : UInt16} {bit : ℕ} (h : bit < 9) :
    Fired fired bit ↔ fired.toNat.testBit bit = true := by
  rw [Fired, Ne, ← UInt16.toNat_inj, UInt16.toNat_and, toNat_mask h, UInt16.toNat_zero]
  constructor
  · intro hne
    by_contra hbit
    refine hne (Nat.eq_of_testBit_eq fun j => ?_)
    rw [Nat.testBit_and, Nat.testBit_two_pow, Nat.zero_testBit]
    by_cases hj : bit = j
    · subst hj
      simpa using hbit
    · simp [hj]
  · intro hbit hzero
    have hand : (fired.toNat &&& 2 ^ bit).testBit bit = true := by
      rw [Nat.testBit_and, Nat.testBit_two_pow, hbit]
      simp
    rw [hzero, Nat.zero_testBit] at hand
    exact absurd hand (by decide)

theorem not_fired_zero (bit : ℕ) : ¬Fired 0 bit := by
  rw [Fired, not_not, UInt16.zero_and]

theorem fired_or {fired : UInt16} {bit new : ℕ} (h : bit < 9) (hnew : new < 9) :
    Fired (fired ||| mask new) bit ↔ Fired fired bit ∨ bit = new := by
  rw [fired_iff h, fired_iff h, UInt16.toNat_or, Nat.testBit_or, toNat_mask hnew, Nat.testBit_two_pow,
    Bool.or_eq_true, decide_eq_true_eq, eq_comm (a := new)]

/-! ## One record -/

theorem fireLoop_spec (exceeds : Threshold → Bool) {l : List (Threshold × ℕ)} (fired : UInt16)
    (hbits : ∀ p ∈ l, p.2 < 9) (hnodup : (l.map Prod.snd).Nodup) :
    (fireLoop exceeds l fired).2 = (l.filter fun p => exceeds p.1 = true ∧ ¬Fired fired p.2).map Prod.fst ∧
    ∀ bit < 9, Fired (fireLoop exceeds l fired).1 bit ↔
      Fired fired bit ∨ ∃ p ∈ l, p.2 = bit ∧ exceeds p.1 = true := by
  induction l generalizing fired with
  | nil => simp [fireLoop]
  | cons p l ih =>
    obtain ⟨t, new⟩ := p
    obtain ⟨hnew, hbits⟩ := List.forall_mem_cons.mp hbits
    obtain ⟨hfresh, hnodup⟩ := List.nodup_cons.mp hnodup
    simp only [List.mem_cons, exists_eq_or_imp]
    rw [fireLoop]
    by_cases hset : fired &&& mask new ≠ 0
    · obtain ⟨hcalls, hfired⟩ := ih fired hbits hnodup
      rw [if_pos hset, List.filter_cons_of_neg (by simpa [Fired] using fun _ => hset)]
      refine ⟨hcalls, fun bit hbit => ?_⟩
      rw [hfired bit hbit]
      constructor
      · tauto
      · rintro (h | ⟨rfl, -⟩ | h)
        · exact Or.inl h
        · exact Or.inl hset
        · exact Or.inr h
    · rw [if_neg hset]
      by_cases hover : exceeds t = true
      · -- the pair fires, and its bit is none of those to come
        obtain ⟨hcalls, hfired⟩ := ih (fired ||| mask new) hbits hnodup
        rw [if_neg (by simpa using hover), List.filter_cons_of_pos (by simpa [Fired, hover] using hset)]
        constructor
        · change t :: (fireLoop exceeds l (fired ||| mask new)).2 = _
          rw [hcalls, List.map_cons]
          refine congrArg (t :: ·) (congrArg _ (List.filter_congr fun p hp => ?_))
          have hne : p.2 ≠ new := fun h => hfresh (List.mem_map.mpr ⟨p, hp, h⟩)
          rw [decide_eq_decide, fired_or (hbits p hp) hnew, or_iff_left hne]
        · intro bit hbit
          change Fired (fireLoop exceeds l (fired ||| mask new)).1 bit ↔ _
          rw [hfired bit hbit, fired_or hbit hnew, or_assoc]
          refine or_congr_right (or_congr_left ?_)
          rw [eq_comm, and_iff_left hover]
      · obtain ⟨hcalls, hfired⟩ := ih fired hbits hnodup
        rw [if_pos (by simpa using hover), List.filter_cons_of_neg (by simp [hover])]
        refine ⟨hcalls, fun bit hbit => ?_⟩
        rw [hfired bit hbit]
        simp [hover]

theorem thresholdBits_distinct : (∀ p ∈ thresholdBits, p.2 < 9) ∧ (thresholdBits.map Prod.snd).Nodup ∧
    (thresholdBits.map Prod.fst).Nodup := by
  decide

theorem mem_thresholdBits {t : Threshold} (h : t.pct ∈ kThresholds) : ∃ bit, (t, bit) ∈ thresholdBits := by
  obtain ⟨pct, axis⟩ := t
  have hall : (kThresholds.all fun pct => kAxes.all fun axis => thresholdBits.any fun p => p.1 = ⟨pct, axis⟩) := by
    decide
  have haxis : axis ∈ kAxes := by cases axis <;> decide
  obtain ⟨⟨t, bit⟩, hmem, hsame⟩ := List.any_eq_true.mp (List.all_eq_true.mp (List.all_eq_true.mp hall pct h) axis haxis)
  obtain rfl : t = ⟨pct, axis⟩ := of_decide_eq_true hsame
  exact ⟨bit, hmem⟩

namespace SessionBudget

/-- The pair is over, as the code compares. -/
def Over (b : SessionBudget) (t : Threshold) : Prop :=
  overThreshold (b.consumed t.axis) (b.maxTokens t.axis) t.pct = true

instance (b : SessionBudget) (t : Threshold) : Decidable (b.Over t) := inferInstanceAs (Decidable (_ = true))

/-- The pair was reported. -/
def Reported (b : SessionBudget) (t : Threshold) : Prop :=
  ∃ bit, (t, bit) ∈ thresholdBits ∧ Fired b.firedThresholds bit

theorem reported_iff {b : SessionBudget} {t : Threshold} {bit : ℕ} (h : (t, bit) ∈ thresholdBits) :
    b.Reported t ↔ Fired b.firedThresholds bit := by
  constructor
  · rintro ⟨bit', h', hfired⟩
    obtain rfl : bit = bit' := by
      have hinj := List.inj_on_of_nodup_map thresholdBits_distinct.2.2 h h' rfl
      exact congrArg Prod.snd hinj
    exact hfired
  · exact fun hfired => ⟨bit, h, hfired⟩

theorem step_reported (b : SessionBudget) (u : Usage) {t : Threshold} (h : t.pct ∈ kThresholds) :
    (b.step u).Reported t ↔ b.Reported t ∨ (b.step u).Over t := by
  obtain ⟨bit, hbit⟩ := mem_thresholdBits h
  have hspec := (fireLoop_spec (fun t => overThreshold ((b.step u).consumed t.axis)
    ((b.step u).maxTokens t.axis) t.pct) b.firedThresholds thresholdBits_distinct.1
    thresholdBits_distinct.2.1).2 bit (thresholdBits_distinct.1 _ hbit)
  rw [reported_iff hbit, reported_iff hbit]
  refine Iff.trans hspec (or_congr_right ?_)
  constructor
  · rintro ⟨p, hp, hsame, hover⟩
    obtain rfl : p = (t, bit) := List.inj_on_of_nodup_map thresholdBits_distinct.2.1 hp hbit hsame
    exact hover
  · exact fun hover => ⟨(t, bit), hbit, rfl, hover⟩

theorem mem_record (b : SessionBudget) (u : Usage) {t : Threshold} (h : t.pct ∈ kThresholds) :
    t ∈ (b.record u.1 u.2).2.1 ↔ (b.step u).Over t ∧ ¬b.Reported t := by
  obtain ⟨bit, hbit⟩ := mem_thresholdBits h
  have hcalls := (fireLoop_spec (fun t => overThreshold ((b.step u).consumed t.axis)
    ((b.step u).maxTokens t.axis) t.pct) b.firedThresholds thresholdBits_distinct.1
    thresholdBits_distinct.2.1).1
  have hrecord : (b.record u.1 u.2).2.1 = _ := hcalls
  rw [hrecord, List.mem_map, reported_iff hbit]
  constructor
  · rintro ⟨⟨t', bit'⟩, hp, rfl⟩
    obtain ⟨hmem, hover⟩ := List.mem_filter.mp hp
    obtain rfl : bit' = bit :=
      congrArg Prod.snd (List.inj_on_of_nodup_map thresholdBits_distinct.2.2 hmem hbit rfl)
    exact of_decide_eq_true hover
  · exact fun hover => ⟨(t, bit), List.mem_filter.mpr ⟨hbit, decide_eq_true hover⟩, rfl⟩

theorem record_nodup (b : SessionBudget) (u : Usage) : (b.record u.1 u.2).2.1.Nodup := by
  have hcalls := (fireLoop_spec (fun t => overThreshold ((b.step u).consumed t.axis)
    ((b.step u).maxTokens t.axis) t.pct) b.firedThresholds thresholdBits_distinct.1
    thresholdBits_distinct.2.1).1
  have hrecord : (b.record u.1 u.2).2.1 = _ := hcalls
  rw [hrecord]
  exact thresholdBits_distinct.2.2.sublist (List.filter_sublist.map Prod.fst)

/-! ## Sessions -/

end SessionBudget

/-- The tokens of a call on an axis. -/
def tokens : Axis → Usage → ℕ
  | .input, u => u.1.toNat
  | .output, u => u.2.toNat
  | .total, u => u.1.toNat + u.2.toNat

def used (axis : Axis) (usage : List Usage) : ℕ := (usage.map (tokens axis)).sum

namespace SessionBudget

/-- The counters are the sums, cut to 64 bits, and the limits do not change. -/
structure Counts (start : SessionBudget) (done : List Usage) (b : SessionBudget) : Prop where
  consumed : ∀ axis, b.consumed axis = start.consumed axis + UInt64.ofNat (used axis done)
  maxTokens : ∀ axis, b.maxTokens axis = start.maxTokens axis

theorem step_consumed (b : SessionBudget) (u : Usage) (axis : Axis) :
    (b.step u).consumed axis = b.consumed axis + UInt64.ofNat (tokens axis u) := by
  cases axis with
  | input => simp [tokens, SessionBudget.consumed, SessionBudget.step, record]
  | output => simp [tokens, SessionBudget.consumed, SessionBudget.step, record]
  | total =>
    simp only [tokens, SessionBudget.consumed, consumedTotal, SessionBudget.step, record, UInt64.ofNat_add,
      UInt64.ofNat_toNat]
    ac_rfl

theorem step_maxTokens (b : SessionBudget) (u : Usage) (axis : Axis) :
    (b.step u).maxTokens axis = b.maxTokens axis := by
  cases axis <;> rfl

theorem counts_run (start : SessionBudget) (usage : List Usage) :
    Counts start usage (run SessionBudget.step start usage) := by
  induction usage using List.reverseRecOn with
  | nil =>
    constructor
    · intro axis
      simp [used]
    · exact fun axis => rfl
  | append_singleton usage u ih =>
    rw [run_append, run_cons, run_nil]
    constructor
    · intro axis
      rw [step_consumed, ih.consumed]
      simp [used, add_assoc]
    · intro axis
      rw [step_maxTokens, ih.maxTokens]

theorem overThreshold_iff (consumed maxV pct : UInt64) : overThreshold consumed maxV pct = true ↔
    maxV.toNat ≠ 0 ∧ maxV.toNat * pct.toNat % 2 ^ 64 ≤ consumed.toNat * 100 % 2 ^ 64 := by
  have hzero : maxV = 0 ↔ maxV.toNat = 0 :=
    ⟨fun h => by rw [h]; rfl, fun h => UInt64.toNat_inj.mp h⟩
  rw [overThreshold, Ne, ← hzero]
  by_cases hmax : maxV = 0
  · simp [hmax]
  · simp only [hmax, if_false, not_false_eq_true, true_and, ge_iff_le, decide_eq_true_eq,
      UInt64.le_iff_toNat_le, UInt64.toNat_mul]
    rfl

variable (start : SessionBudget) (usage : List Usage)

/-- The pair is over after `n` records of a session that starts with empty counters, as the code compares. -/
def OverAfter (t : Threshold) (n : ℕ) : Prop := (run SessionBudget.step start (usage.take n)).Over t

/-- The usage has reached the percentage after `n` records. -/
def Crossed (t : Threshold) (n : ℕ) : Prop :=
  (start.maxTokens t.axis).toNat ≠ 0 ∧
    (start.maxTokens t.axis).toNat * t.pct.toNat ≤ used t.axis (usage.take n) * 100

end SessionBudget

/-- The first number at which `P` holds. -/
def FirstAt (P : ℕ → Prop) (k : ℕ) : Prop := P k ∧ ∀ j < k, ¬P j

theorem firstAt_iff_firstAt {P Q : ℕ → Prop} {n : ℕ} :
    (∀ k < n, FirstAt P k ↔ FirstAt Q k) ↔ ∀ k < n, (∀ j < k, ¬Q j) → (P k ↔ Q k) := by
  constructor
  · intro hfirst k hk hbefore
    have hnone : ∀ j < k, ¬P j := by
      intro j
      induction j using Nat.strongRecOn with
      | ind j ih =>
        intro hj hP
        have hat := (hfirst j (hj.trans hk)).mp ⟨hP, fun i hi => ih i hi (hi.trans hj)⟩
        exact hbefore j hj hat.1
    constructor
    · exact fun hP => ((hfirst k hk).mp ⟨hP, hnone⟩).1
    · exact fun hQ => ((hfirst k hk).mpr ⟨hQ, hbefore⟩).1
  · intro hagree k hk
    constructor
    · rintro ⟨hP, hnone⟩
      have hbefore : ∀ j < k, ¬Q j := by
        intro j
        induction j using Nat.strongRecOn with
        | ind j ih =>
          intro hj hQ
          exact hnone j hj ((hagree j (hj.trans hk) fun i hi => ih i hi (hi.trans hj)).mpr hQ)
      exact ⟨(hagree k hk hbefore).mp hP, hbefore⟩
    · rintro ⟨hQ, hbefore⟩
      refine ⟨(hagree k hk hbefore).mpr hQ, fun j hj hP => ?_⟩
      exact hbefore j hj ((hagree j (hj.trans hk) fun i hi => hbefore i (hi.trans hj)).mp hP)

namespace SessionBudget

/-- Every pair is reported once at most, by the first record after which its percentage is reached. -/
structure OnTime (start : SessionBudget) (usage : List Usage) : Prop where
  once : ∀ k, (start.callsAt usage k).Nodup
  first : ∀ t : Threshold, t.pct ∈ kThresholds → ∀ k < usage.length,
    (t ∈ start.callsAt usage k ↔ FirstAt (fun n => start.Crossed usage t (n + 1)) k)

/-- The two products compare in 64 bits as they do in the integers. -/
def ComparesAlike (maxV pct consumed : ℕ) : Prop :=
  maxV * pct % 2 ^ 64 ≤ consumed * 100 % 2 ^ 64 ↔ maxV * pct ≤ consumed * 100

theorem reported_run {start : SessionBudget} (hfresh : start.firedThresholds = 0) (usage : List Usage)
    {t : Threshold} (h : t.pct ∈ kThresholds) :
    (run SessionBudget.step start usage).Reported t ↔
      ∃ j < usage.length, start.OverAfter usage t (j + 1) := by
  induction usage using List.reverseRecOn with
  | nil =>
    have hnone : ¬start.Reported t := by
      rintro ⟨bit, -, hfired⟩
      rw [hfresh] at hfired
      exact not_fired_zero bit hfired
    simp [hnone]
  | append_singleton usage u ih =>
    rw [run_append, run_cons, run_nil, step_reported _ _ h, ih, List.length_append, List.length_singleton]
    have hlast : ((run SessionBudget.step start usage).step u).Over t ↔
        start.OverAfter (usage ++ [u]) t (usage.length + 1) := by
      rw [OverAfter, List.take_of_length_le (by simp), run_append, run_cons, run_nil]
    have hearlier : ∀ j < usage.length,
        (start.OverAfter usage t (j + 1) ↔ start.OverAfter (usage ++ [u]) t (j + 1)) := by
      intro j hj
      rw [OverAfter, OverAfter, List.take_append_of_le_length (by omega)]
    rw [hlast]
    constructor
    · rintro (⟨j, hj, hover⟩ | hover)
      · exact ⟨j, by omega, (hearlier j hj).mp hover⟩
      · exact ⟨usage.length, by omega, hover⟩
    · rintro ⟨j, hj, hover⟩
      rcases Nat.lt_succ_iff_lt_or_eq.mp hj with hj | rfl
      · exact Or.inl ⟨j, hj, (hearlier j hj).mpr hover⟩
      · exact Or.inr hover

theorem mem_callsAt {start : SessionBudget} (hfresh : start.firedThresholds = 0) {usage : List Usage} {k : ℕ}
    (hk : k < usage.length) {t : Threshold} (h : t.pct ∈ kThresholds) :
    t ∈ start.callsAt usage k ↔ FirstAt (fun n => start.OverAfter usage t (n + 1)) k := by
  have hcalls : start.callsAt usage k =
      ((run SessionBudget.step start (usage.take k)).record usage[k].1 usage[k].2).2.1 := by
    rw [callsAt, List.getElem?_eq_getElem hk]
  have hnow : ((run SessionBudget.step start (usage.take k)).step usage[k]).Over t ↔
      start.OverAfter usage t (k + 1) := by
    rw [OverAfter, List.take_succ_eq_append_getElem hk, run_append, run_cons, run_nil]
  rw [hcalls, mem_record _ _ h, hnow, reported_run hfresh _ h, FirstAt, List.length_take,
    Nat.min_eq_left hk.le]
  refine and_congr_right fun _ => ?_
  simp only [not_exists, not_and]
  refine forall₂_congr fun j hj => ?_
  rw [OverAfter, OverAfter, List.take_take, Nat.min_eq_left (by omega)]

theorem callsAt_nodup (start : SessionBudget) (usage : List Usage) (k : ℕ) :
    (start.callsAt usage k).Nodup := by
  rw [callsAt]
  cases usage[k]? with
  | none => exact List.nodup_nil
  | some u => exact record_nodup _ u

end SessionBudget

theorem tokens_le_total (axis : Axis) (u : Usage) : tokens axis u ≤ tokens .total u := by
  cases axis <;> simp [tokens]

theorem used_le_total (axis : Axis) (usage : List Usage) (n : ℕ) :
    used axis (usage.take n) ≤ used .total usage := by
  have hbefore : used axis (usage.take n) ≤ used axis usage :=
    ((List.take_sublist n usage).map (tokens axis)).sum_le_sum fun _ _ => Nat.zero_le _
  refine hbefore.trans ?_
  exact List.sum_le_sum fun u _ => tokens_le_total axis u

theorem overAfter_iff (cfg : BudgetConfig) {usage : List Usage} (hsum : used .total usage < 2 ^ 64)
    (t : Threshold) (n : ℕ) : (cfg.applyTo {}).OverAfter usage t n ↔
      ((cfg.applyTo {}).maxTokens t.axis).toNat ≠ 0 ∧
        ((cfg.applyTo {}).maxTokens t.axis).toNat * t.pct.toNat % 2 ^ 64 ≤
          used t.axis (usage.take n) * 100 % 2 ^ 64 := by
  have hcounts := SessionBudget.counts_run (cfg.applyTo {}) (usage.take n)
  have hused : ((cfg.applyTo {}).consumed t.axis + UInt64.ofNat (used t.axis (usage.take n))).toNat =
      used t.axis (usage.take n) := by
    have hzero : (cfg.applyTo {}).consumed t.axis = 0 := by cases t.axis <;> rfl
    rw [hzero, UInt64.zero_add, UInt64.toNat_ofNat']
    exact Nat.mod_eq_of_lt ((used_le_total t.axis usage n).trans_lt hsum)
  rw [SessionBudget.OverAfter, SessionBudget.Over, hcounts.consumed, hcounts.maxTokens,
    SessionBudget.overThreshold_iff, hused]

/-- The thresholds are reported on time exactly when the products that are compared do not wrap in a way that
shows: as long as a percentage has not been reached before, its comparison in 64 bits is the one in the integers. -/
theorem thresholds_on_time_iff (cfg : BudgetConfig) {usage : List Usage} (hsum : used .total usage < 2 ^ 64) :
    (cfg.applyTo {}).OnTime usage ↔
      ∀ t : Threshold, t.pct ∈ kThresholds → ((cfg.applyTo {}).maxTokens t.axis).toNat ≠ 0 →
        ∀ k < usage.length, (∀ j < k, ¬(cfg.applyTo {}).Crossed usage t (j + 1)) →
          SessionBudget.ComparesAlike ((cfg.applyTo {}).maxTokens t.axis).toNat t.pct.toNat
            (used t.axis (usage.take (k + 1))) := by
  have hfresh : (cfg.applyTo {}).firedThresholds = 0 := rfl
  have hsame : ∀ t : Threshold, ((cfg.applyTo {}).maxTokens t.axis).toNat ≠ 0 → ∀ n,
      (((cfg.applyTo {}).OverAfter usage t n ↔ (cfg.applyTo {}).Crossed usage t n) ↔
        SessionBudget.ComparesAlike ((cfg.applyTo {}).maxTokens t.axis).toNat t.pct.toNat
          (used t.axis (usage.take n))) := by
    intro t hmax n
    rw [overAfter_iff cfg hsum, SessionBudget.Crossed, and_iff_right hmax, and_iff_right hmax,
      SessionBudget.ComparesAlike]
  constructor
  · intro h t ht hmax k hk hbefore
    have hfirst : ∀ k < usage.length, FirstAt (fun n => (cfg.applyTo {}).OverAfter usage t (n + 1)) k ↔
        FirstAt (fun n => (cfg.applyTo {}).Crossed usage t (n + 1)) k := fun k hk =>
      (SessionBudget.mem_callsAt hfresh hk ht).symm.trans (h.first t ht k hk)
    exact (hsame t hmax (k + 1)).mp (firstAt_iff_firstAt.mp hfirst k hk hbefore)
  · intro h
    refine ⟨SessionBudget.callsAt_nodup _ usage, fun t ht k hk => ?_⟩
    rw [SessionBudget.mem_callsAt hfresh hk ht]
    by_cases hmax : ((cfg.applyTo {}).maxTokens t.axis).toNat ≠ 0
    · exact firstAt_iff_firstAt.mpr
        (fun k hk hbefore => (hsame t hmax (k + 1)).mpr (h t ht hmax k hk hbefore)) k hk
    · have hover : ∀ n, ¬(cfg.applyTo {}).OverAfter usage t n := fun n hover =>
        hmax ((overAfter_iff cfg hsum t n).mp hover).1
      exact iff_of_false (fun hat => hover _ hat.1) fun hat => hmax hat.1.1

theorem comparesAlike_of_fits {maxV pct consumed : ℕ} (hmax : maxV * pct < 2 ^ 64)
    (hconsumed : consumed * 100 < 2 ^ 64) : SessionBudget.ComparesAlike maxV pct consumed := by
  rw [SessionBudget.ComparesAlike, Nat.mod_eq_of_lt hmax, Nat.mod_eq_of_lt hconsumed]

/-- A limit of 1000 tokens and two calls of 500: half of it is reported by the first, the rest by the second. -/
theorem thresholds_on_time_thousand :
    (BudgetConfig.applyTo { maxTotalTokens := 1000 } {}).OnTime [(300, 200), (100, 400)] := by
  refine (thresholds_on_time_iff { maxTotalTokens := 1000 } (by decide)).mpr fun t ht _ k hk _ => ?_
  have hmax : ((BudgetConfig.applyTo { maxTotalTokens := 1000 } {}).maxTokens t.axis).toNat ≤ 1000 := by
    cases t.axis <;> decide
  have hpct : t.pct.toNat ≤ 100 := by
    have hall : (kThresholds.all fun pct => pct.toNat ≤ 100) := by decide
    exact of_decide_eq_true (List.all_eq_true.mp hall _ ht)
  have hused : used t.axis (List.take (k + 1) [(300, 200), (100, 400)]) ≤ 1000 :=
    (used_le_total t.axis _ _).trans (by decide)
  apply comparesAlike_of_fits
  · have := Nat.mul_le_mul hmax hpct
    omega
  · omega

/-- `value<int64_t>` on the nodes of a budget file: an integer is its own value. -/
def integerOf : TomlNode → Option Int64
  | .integer v => some v
  | _ => none

/-- With a limit of 2^62 tokens the product for 100 percent is 0 in 64 bits: a call that uses nothing is
reported as the end of the budget. -/
theorem huge_limit_fires_at_once :
    ¬∀ (toml : String → Except TomlError TomlNode) (valueInt64 : TomlNode → Option Int64) (tomlSource : String)
      (cfg : BudgetConfig), parseBudgetConfig toml valueInt64 tomlSource = .ok cfg →
      ∀ usage, used .total usage < 2 ^ 64 → (cfg.applyTo {}).OnTime usage := by
  intro h
  have honTime := h
    (fun _ => .ok (.table [("budget", .table [("max_total_tokens", .integer 4611686018427387904)])]))
    integerOf "" { maxTotalTokens := 4611686018427387904 } (by decide) [(0, 0)] (by decide)
  have hreported : (⟨100, .total⟩ : Threshold) ∈
      (BudgetConfig.applyTo { maxTotalTokens := 4611686018427387904 } {}).callsAt [(0, 0)] 0 := by decide
  have hcrossed := ((honTime.first ⟨100, .total⟩ (by decide) 0 (by decide)).mp hreported).1.2
  exact absurd hcrossed (by decide)

end Souxmar.Ai
