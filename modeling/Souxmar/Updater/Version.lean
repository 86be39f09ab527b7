import Mathlib.Data.Prod.Lex
import Mathlib.Order.Lattice
import Mathlib.Data.Nat.Notation
import Mathlib.Order.Nat

/-!
# Version strings

`splitVersion` reads a strict `MAJOR.MINOR.PATCH` string into three 32-bit numbers and
`compareVersions` compares two of them component by component (`state_machine.cpp`).

`Version` is the abstract side: triples under the lexicographic order, a linear order from the
library. `compareVersions_spec` says that the code's `-1 / 0 / +1` is exactly this order, so every
later fact about the gate and the replay floor is a fact about `Version`.
-/

namespace Souxmar.Updater

/-! ### The code -/

/-- `c < '0' || c > '9'`. -/
def notDigit (c : Char) : Bool := decide (c < '0') || decide ('9' < c)

/-- The digit loop of `parse_u32`; the accumulator is tested after every digit, so the source's
64-bit `v` never overflows. -/
def parseU32Loop : List Char → ℕ → Option ℕ
  | [], v => some v
  | c :: cs, v =>
    if notDigit c then none
    else
      let v := v * 10 + (c.toNat - '0'.toNat)
      if v > 0xFFFFFFFF then none else parseU32Loop cs v

def parseU32 (s : List Char) : Option ℕ :=
  if s.isEmpty then none else parseU32Loop s 0

/-- `v.find('.', cur)` and the two `substr` calls around it: the text before the first dot and the
text after it, if there is a dot. -/
def cutAtDot : List Char → Option (List Char × List Char)
  | [] => none
  | c :: cs => if c = '.' then some ([], cs) else (cutAtDot cs).map fun p => (c :: p.1, p.2)

def splitVersion (v : String) : Option (ℕ × ℕ × ℕ) := do
  let (part0, rest) ← cutAtDot v.toList
  let (part1, part2) ← cutAtDot rest
  -- further dots, '-' and '+' in the patch component (pre-release suffixes) are refused here
  if part2.any notDigit then none
  else
    let major ← parseU32 part0
    let minor ← parseU32 part1
    let patch ← parseU32 part2
    some (major, minor, patch)

def compareVersions (a b : String) : Option ℤ := do
  let pa ← splitVersion a
  let pb ← splitVersion b
  if pa.1 < pb.1 then some (-1)
  else if pa.1 > pb.1 then some 1
  else if pa.2.1 < pb.2.1 then some (-1)
  else if pa.2.1 > pb.2.1 then some 1
  else if pa.2.2 < pb.2.2 then some (-1)
  else if pa.2.2 > pb.2.2 then some 1
  else some 0

/-! ### Versions as a linear order -/

/-- A parsed version, ordered by major, then minor, then patch. -/
abbrev Version : Type := ℕ ×ₗ ℕ ×ₗ ℕ

/-- The version a string denotes. -/
def versionOf (s : String) : Option Version :=
  (splitVersion s).map fun p => toLex (p.1, toLex p.2)

theorem splitVersion_eq_none_iff (s : String) : splitVersion s = none ↔ versionOf s = none := by
  simp [versionOf]

theorem versionOf_empty : versionOf "" = none := by decide

theorem ne_empty_of_versionOf {s : String} {v : Version} (h : versionOf s = some v) : s ≠ "" := by
  rintro rfl
  simp [versionOf_empty] at h

/-! ### The characters of a version -/

theorem cutAtDot_eq {l a b : List Char} (h : cutAtDot l = some (a, b)) : l = a ++ '.' :: b := by
  induction l generalizing a with
  | nil => simp [cutAtDot] at h
  | cons c cs ih =>
    unfold cutAtDot at h
    split_ifs at h with hc
    · obtain ⟨rfl, rfl⟩ := Prod.mk.inj (Option.some.inj h)
      simp [hc]
    · obtain ⟨⟨p, q⟩, hcut, hpq⟩ := Option.map_eq_some_iff.mp h
      obtain ⟨rfl, rfl⟩ := Prod.mk.inj hpq
      simp [ih hcut]

theorem digits_of_parseU32Loop {l : List Char} {v n : ℕ} (h : parseU32Loop l v = some n) :
    ∀ c ∈ l, notDigit c = false := by
  induction l generalizing v with
  | nil => simp
  | cons c cs ih =>
    unfold parseU32Loop at h
    simp only at h
    split_ifs at h with hc
    rintro d (_ | ⟨_, hd⟩)
    · simpa using hc
    · exact ih h d hd

theorem digits_of_parseU32 {l : List Char} {n : ℕ} (h : parseU32 l = some n) :
    ∀ c ∈ l, notDigit c = false := by
  unfold parseU32 at h
  split_ifs at h
  exact digits_of_parseU32Loop h

/-- A well-formed version consists of digits and dots. -/
theorem chars_of_versionOf {s : String} {v : Version} (h : versionOf s = some v) :
    ∀ c ∈ s.toList, c = '.' ∨ notDigit c = false := by
  obtain ⟨p, hp, _⟩ := Option.map_eq_some_iff.mp h
  simp only [splitVersion, Option.bind_eq_bind, Option.bind_eq_some_iff] at hp
  obtain ⟨⟨part0, rest⟩, hcut0, ⟨part1, part2⟩, hcut1, hp⟩ := hp
  split_ifs at hp
  simp only [Option.bind_eq_some_iff] at hp
  obtain ⟨major, hmajor, minor, hminor, patch, hpatch, _⟩ := hp
  rw [cutAtDot_eq hcut0, cutAtDot_eq (l := rest) hcut1]
  intro c hc
  simp only [List.mem_append, List.mem_cons] at hc
  rcases hc with hc | hc | hc | hc | hc
  · exact Or.inr (digits_of_parseU32 hmajor c hc)
  · exact Or.inl hc
  · exact Or.inr (digits_of_parseU32 hminor c hc)
  · exact Or.inl hc
  · exact Or.inr (digits_of_parseU32 hpatch c hc)

/-! ### The order -/

/-- On well-formed strings `compare_versions` is the order of `Version`. -/
theorem compareVersions_spec {a b : String} {x y : Version} (ha : versionOf a = some x)
    (hb : versionOf b = some y) :
    ∃ c, compareVersions a b = some c ∧ (c < 0 ↔ x < y) ∧ (0 < c ↔ y < x) := by
  obtain ⟨⟨a0, a1, a2⟩, hpa, rfl⟩ := Option.map_eq_some_iff.mp ha
  obtain ⟨⟨b0, b1, b2⟩, hpb, rfl⟩ := Option.map_eq_some_iff.mp hb
  simp only [compareVersions, hpa, hpb, Option.bind_eq_bind, Option.bind_some, Prod.Lex.toLex_lt_toLex]
  split_ifs with h1 h2 h3 h4 h5 h6
  all_goals refine ⟨_, rfl, ?_, ?_⟩ <;> simp <;> omega

theorem compareVersions_eq_none_iff (a b : String) :
    compareVersions a b = none ↔ versionOf a = none ∨ versionOf b = none := by
  constructor
  · intro h
    cases ha : versionOf a with
    | none => exact Or.inl rfl
    | some x =>
      cases hb : versionOf b with
      | none => exact Or.inr rfl
      | some y =>
        obtain ⟨c, hc, _⟩ := compareVersions_spec ha hb
        simp [hc] at h
  · rintro (h | h)
    · simp [compareVersions, (splitVersion_eq_none_iff a).mpr h]
    · cases ha : splitVersion a <;> simp [compareVersions, ha, (splitVersion_eq_none_iff b).mpr h]

theorem compareVersions_self {a b : String} {x : Version} (ha : versionOf a = some x)
    (hb : versionOf b = some x) : compareVersions a b = some 0 := by
  obtain ⟨c, hc, hneg, hpos⟩ := compareVersions_spec ha hb
  have hzero : c = 0 := le_antisymm (not_lt.mp (mt hpos.mp (lt_irrefl x)))
    (not_lt.mp (mt hneg.mp (lt_irrefl x)))
  rw [hc, hzero]

/-- `0.0.0` is the least version. -/
theorem version_zero_le (x : Version) : toLex (0, toLex (0, 0)) ≤ x :=
  (bot_le : (⊥ : Version) ≤ x)

/-- `a` is at most `b` in the order of `compare_versions`. -/
def VersionLe (a b : String) : Prop := ∃ c, compareVersions a b = some c ∧ c ≤ 0

theorem versionLe_iff (a b : String) :
    VersionLe a b ↔ ∃ x y, versionOf a = some x ∧ versionOf b = some y ∧ x ≤ y := by
  constructor
  · rintro ⟨c, hc, hle⟩
    cases ha : versionOf a with
    | none => simp [(compareVersions_eq_none_iff a b).mpr (Or.inl ha)] at hc
    | some x =>
      cases hb : versionOf b with
      | none => simp [(compareVersions_eq_none_iff a b).mpr (Or.inr hb)] at hc
      | some y =>
        obtain ⟨c', hc', _, hpos⟩ := compareVersions_spec ha hb
        obtain rfl : c = c' := by simpa [hc] using hc'
        exact ⟨x, y, rfl, rfl, not_lt.mp (mt hpos.mpr (not_lt.mpr hle))⟩
  · rintro ⟨x, y, ha, hb, hle⟩
    obtain ⟨c, hc, _, hpos⟩ := compareVersions_spec ha hb
    exact ⟨c, hc, not_lt.mp (mt hpos.mp (not_lt.mpr hle))⟩

theorem VersionLe.refl {a : String} {x : Version} (ha : versionOf a = some x) : VersionLe a a :=
  (versionLe_iff a a).mpr ⟨x, x, ha, ha, le_refl x⟩

theorem VersionLe.trans_eq {a b c : String} (hab : VersionLe a b) (hbc : b = c) : VersionLe a c :=
  hbc ▸ hab

theorem VersionLe.trans {a b c : String} (hab : VersionLe a b) (hbc : VersionLe b c) :
    VersionLe a c := by
  obtain ⟨x, y, ha, hb, hxy⟩ := (versionLe_iff a b).mp hab
  obtain ⟨y', z, hb', hc, hyz⟩ := (versionLe_iff b c).mp hbc
  obtain rfl : y = y' := by simpa [hb] using hb'
  exact (versionLe_iff a c).mpr ⟨x, z, ha, hc, hxy.trans hyz⟩

end Souxmar.Updater
