import Mathlib.Computability.Language

/-!
# Regular expressions as `std::regex` searches for them

A search goes through a text from left to right and takes, where it stands, the first of the ways in which the
expression matches: earlier alternatives come first, and a repetition takes as much as it can. `Regex.run` lists
the ways in this order, and `mem_run` says which they are by the language of the expression. A pattern is a
sequence of expressions, some of whose texts are captured.
-/

namespace Souxmar.Lib

open scoped Computability

inductive Regex
  | empty
  | char (p : Char → Bool)
  | seq (first second : Regex)
  | alt (first second : Regex)
  | star (body : Regex)

namespace Regex

/-- A text that is matched, and what follows it. -/
abbrev Split : Type := List Char × List Char

/-- Repetitions match some text each. -/
def repeated (step : List Char → List Split) : ℕ → List Char → List Split
  | 0, cs => [([], cs)]
  | n + 1, cs => (((step cs).filter fun s => s.1 ≠ []).flatMap fun s =>
      (repeated step n s.2).map fun s' => (s.1 ++ s'.1, s'.2)) ++ [([], cs)]

/-- The ways in which the expression matches here, in the order in which they are tried. -/
def run : Regex → List Char → List Split
  | empty, cs => [([], cs)]
  | char _, [] => []
  | char p, c :: cs => if p c then [([c], cs)] else []
  | seq first second, cs => (run first cs).flatMap fun s => (run second s.2).map fun s' => (s.1 ++ s'.1, s'.2)
  | alt first second, cs => run first cs ++ run second cs
  | star body, cs => repeated (run body) cs.length cs

/-- The texts that the expression matches. -/
def lang : Regex → Language Char
  | empty => 1
  | char p => {w | ∃ c, p c = true ∧ w = [c]}
  | seq first second => lang first * lang second
  | alt first second => lang first + lang second
  | star body => (lang body)∗

def lit : List Char → Regex
  | [] => empty
  | c :: cs => seq (char (· = c)) (lit cs)

def plus (body : Regex) : Regex := seq body (star body)

/-! ## What is matched -/

theorem mem_repeated {step : List Char → List Split} {l : Language Char}
    (hstep : ∀ cs t rest, (t, rest) ∈ step cs ↔ cs = t ++ rest ∧ t ∈ l) {n : ℕ} {cs : List Char}
    (hn : cs.length ≤ n) {t rest : List Char} :
    (t, rest) ∈ repeated step n cs ↔ cs = t ++ rest ∧ t ∈ l∗ := by
  induction n generalizing cs t with
  | zero =>
    obtain rfl := List.eq_nil_of_length_eq_zero (Nat.le_zero.mp hn)
    rw [repeated, List.mem_singleton, Prod.mk.injEq]
    constructor
    · rintro ⟨rfl, rfl⟩
      exact ⟨rfl, Language.nil_mem_kstar l⟩
    · rintro ⟨h, -⟩
      exact List.append_eq_nil_iff.mp h.symm
  | succ n ih =>
    rw [repeated, List.mem_append, List.mem_flatMap, List.mem_singleton]
    constructor
    · rintro (⟨⟨t₁, rest₁⟩, hmem, hmap⟩ | h)
      · obtain ⟨hmem, hne⟩ := List.mem_filter.mp hmem
        obtain ⟨rfl, ht₁⟩ := (hstep cs t₁ rest₁).mp hmem
        obtain ⟨⟨t₂, rest₂⟩, hmem₂, heq⟩ := List.mem_map.mp hmap
        obtain ⟨rfl, rfl⟩ := Prod.mk.inj heq
        have hlen : 0 < t₁.length := List.length_pos_of_ne_nil (by simpa using hne)
        rw [List.length_append] at hn
        have hfuel : rest₁.length ≤ n := by omega
        obtain ⟨rfl, ht₂⟩ := (ih hfuel).mp hmem₂
        refine ⟨(List.append_assoc _ _ _).symm, ?_⟩
        obtain ⟨words, rfl, hwords⟩ := Language.mem_kstar.mp ht₂
        refine Language.mem_kstar.mpr ⟨t₁ :: words, rfl, fun w hw => ?_⟩
        rcases List.mem_cons.mp hw with rfl | hw
        · exact ht₁
        · exact hwords w hw
      · obtain ⟨rfl, rfl⟩ := Prod.mk.inj h
        exact ⟨rfl, Language.nil_mem_kstar l⟩
    · rintro ⟨rfl, ht⟩
      obtain ⟨words, rfl, hwords⟩ := Language.mem_kstar_iff_exists_nonempty.mp ht
      cases words with
      | nil => exact Or.inr rfl
      | cons w words =>
        obtain ⟨hw, hne⟩ := hwords w List.mem_cons_self
        have hlen : 0 < w.length := List.length_pos_of_ne_nil hne
        rw [List.flatten_cons, List.append_assoc, List.length_append] at hn
        have hfuel : (words.flatten ++ rest).length ≤ n := by omega
        refine Or.inl ⟨(w, words.flatten ++ rest), List.mem_filter.mpr ⟨?_, by simpa using hne⟩, ?_⟩
        · exact (hstep _ _ _).mpr ⟨by rw [List.flatten_cons, List.append_assoc], hw⟩
        · refine List.mem_map.mpr ⟨(words.flatten, rest), (ih hfuel).mpr ⟨rfl, ?_⟩, rfl⟩
          exact Language.join_mem_kstar fun y hy => (hwords y (List.mem_cons_of_mem _ hy)).1

/-- The ways to match are the texts of the language that the rest of the text begins with. -/
theorem mem_run (r : Regex) (cs : List Char) (t rest : List Char) :
    (t, rest) ∈ r.run cs ↔ cs = t ++ rest ∧ t ∈ r.lang := by
  induction r generalizing cs t rest with
  | empty =>
    rw [run, List.mem_singleton, Prod.mk.injEq, lang, Language.mem_one]
    constructor
    · rintro ⟨rfl, rfl⟩
      exact ⟨rfl, rfl⟩
    · rintro ⟨rfl, rfl⟩
      exact ⟨rfl, rfl⟩
  | char p =>
    cases cs with
    | nil =>
      rw [run]
      refine iff_of_false List.not_mem_nil ?_
      rintro ⟨h, c, -, rfl⟩
      exact List.cons_ne_nil c rest h.symm
    | cons c cs =>
      rw [run]
      constructor
      · intro h
        split_ifs at h with hc
        · obtain ⟨rfl, rfl⟩ := Prod.mk.inj (List.mem_singleton.mp h)
          exact ⟨rfl, c, hc, rfl⟩
        · cases h
      · rintro ⟨h, d, hd, rfl⟩
        obtain ⟨rfl, rfl⟩ := List.cons.inj h
        rw [if_pos hd]
        exact List.mem_singleton_self _
  | seq first second ihFirst ihSecond =>
    rw [run, List.mem_flatMap, lang, Language.mem_mul]
    constructor
    · rintro ⟨⟨t₁, rest₁⟩, hmem, hmap⟩
      obtain ⟨⟨t₂, rest₂⟩, hmem₂, heq⟩ := List.mem_map.mp hmap
      obtain ⟨rfl, rfl⟩ := Prod.mk.inj heq
      obtain ⟨rfl, ht₁⟩ := (ihFirst _ _ _).mp hmem
      obtain ⟨rfl, ht₂⟩ := (ihSecond _ _ _).mp hmem₂
      exact ⟨(List.append_assoc _ _ _).symm, t₁, ht₁, t₂, ht₂, rfl⟩
    · rintro ⟨rfl, t₁, ht₁, t₂, ht₂, rfl⟩
      refine ⟨(t₁, t₂ ++ rest), (ihFirst _ _ _).mpr ⟨List.append_assoc _ _ _, ht₁⟩, ?_⟩
      exact List.mem_map.mpr ⟨(t₂, rest), (ihSecond _ _ _).mpr ⟨rfl, ht₂⟩, rfl⟩
  | alt first second ihFirst ihSecond =>
    rw [run, List.mem_append, ihFirst, ihSecond, lang, Language.mem_add, and_or_left]
  | star body ih => exact mem_repeated ih (Nat.le_refl _)

/-! ## Languages -/

theorem mem_lit {cs t : List Char} : t ∈ (lit cs).lang ↔ t = cs := by
  induction cs generalizing t with
  | nil => exact Language.mem_one t
  | cons c cs ih =>
    rw [lit, lang, Language.mem_mul]
    constructor
    · rintro ⟨_, ⟨d, hd, rfl⟩, rest, hrest, rfl⟩
      rw [ih.mp hrest, of_decide_eq_true hd]
      rfl
    · rintro rfl
      exact ⟨[c], ⟨c, decide_eq_true rfl, rfl⟩, cs, ih.mpr rfl, rfl⟩

theorem mem_star_char {p : Char → Bool} {t : List Char} :
    t ∈ (star (char p)).lang ↔ ∀ c ∈ t, p c = true := by
  rw [lang, Language.mem_kstar]
  constructor
  · rintro ⟨words, rfl, hwords⟩ c hc
    obtain ⟨w, hw, hc⟩ := List.mem_flatten.mp hc
    obtain ⟨d, hd, rfl⟩ := hwords w hw
    obtain rfl := List.mem_singleton.mp hc
    exact hd
  · intro h
    refine ⟨t.map fun c => [c], ?_, fun w hw => ?_⟩
    · rw [← List.flatMap_def, List.flatMap_singleton']
    · obtain ⟨c, hc, rfl⟩ := List.mem_map.mp hw
      exact ⟨c, h c hc, rfl⟩

theorem mem_plus_char {p : Char → Bool} {t : List Char} :
    t ∈ (plus (char p)).lang ↔ t ≠ [] ∧ ∀ c ∈ t, p c = true := by
  rw [plus, lang, Language.mem_mul]
  constructor
  · rintro ⟨_, ⟨c, hc, rfl⟩, rest, hrest, rfl⟩
    refine ⟨List.cons_ne_nil _ _, fun d hd => ?_⟩
    rcases List.mem_cons.mp hd with rfl | hd
    · exact hc
    · exact mem_star_char.mp hrest d hd
  · rintro ⟨hne, hall⟩
    cases t with
    | nil => exact absurd rfl hne
    | cons c cs =>
      exact ⟨[c], ⟨c, hall c List.mem_cons_self, rfl⟩, cs,
        mem_star_char.mpr fun d hd => hall d (List.mem_cons_of_mem _ hd), rfl⟩

/-- Some place of the expression takes the character. -/
def Uses (c : Char) : Regex → Bool
  | empty => false
  | char p => p c
  | seq first second => Uses c first || Uses c second
  | alt first second => Uses c first || Uses c second
  | star body => Uses c body

theorem notMem_of_not_uses {c : Char} {r : Regex} (h : r.Uses c = false) {t : List Char} (ht : t ∈ r.lang) :
    c ∉ t := by
  induction r generalizing t with
  | empty =>
    obtain rfl := (Language.mem_one t).mp ht
    exact List.not_mem_nil
  | char p =>
    obtain ⟨d, hd, rfl⟩ := ht
    rw [List.mem_singleton]
    rintro rfl
    rw [Uses, hd] at h
    cases h
  | seq first second ihFirst ihSecond =>
    obtain ⟨hfirst, hsecond⟩ := Bool.or_eq_false_iff.mp h
    obtain ⟨a, ha, b, hb, rfl⟩ := Language.mem_mul.mp ht
    rw [List.mem_append]
    exact not_or.mpr ⟨ihFirst hfirst ha, ihSecond hsecond hb⟩
  | alt first second ihFirst ihSecond =>
    obtain ⟨hfirst, hsecond⟩ := Bool.or_eq_false_iff.mp h
    rcases (Language.mem_add _ _ _).mp ht with ht | ht
    · exact ihFirst hfirst ht
    · exact ihSecond hsecond ht
  | star body ih =>
    obtain ⟨words, rfl, hwords⟩ := Language.mem_kstar.mp ht
    rw [List.mem_flatten]
    rintro ⟨w, hw, hc⟩
    exact ih h (hwords w hw) hc

end Regex

/-! ## Patterns -/

/-- A part of a pattern, in a capturing group or not. -/
structure Piece where
  regex : Regex
  captured : Bool := false

abbrev Pattern : Type := List Piece

structure Match where
  text : List Char
  rest : List Char
  groups : List (List Char)

/-- The text of a group. -/
def Match.group (m : Match) (i : ℕ) : String := String.ofList (m.groups[i]?.getD [])

namespace Pattern

def run : Pattern → List Char → List Match
  | [], cs => [⟨[], cs, []⟩]
  | piece :: pieces, cs => (piece.regex.run cs).flatMap fun s => (run pieces s.2).map fun m =>
      { text := s.1 ++ m.text, rest := m.rest, groups := if piece.captured then s.1 :: m.groups else m.groups }

/-- The matches that follow each other, the first `skip` characters being part of one. A match of no text
is not searched for. -/
def searchFrom (pattern : Pattern) : ℕ → List Char → List Match
  | _, [] => []
  | skip + 1, _ :: cs => searchFrom pattern skip cs
  | 0, c :: cs =>
    match (run pattern (c :: cs)).head? with
    | some m => m :: searchFrom pattern (m.text.length - 1) cs
    | none => searchFrom pattern 0 cs

def search (pattern : Pattern) (cs : List Char) : List Match := searchFrom pattern 0 cs

variable {pattern : Pattern} {pieces : List Piece} {piece : Piece} {cs : List Char} {m : Match}

theorem mem_run_nil : m ∈ run [] cs ↔ m = ⟨[], cs, []⟩ := List.mem_singleton

theorem mem_run_cons : m ∈ run (piece :: pieces) cs ↔ ∃ t rest m', cs = t ++ rest ∧ t ∈ piece.regex.lang ∧
    m' ∈ run pieces rest ∧
    m = ⟨t ++ m'.text, m'.rest, if piece.captured then t :: m'.groups else m'.groups⟩ := by
  rw [run, List.mem_flatMap]
  constructor
  · rintro ⟨⟨t, rest⟩, hmem, hmap⟩
    obtain ⟨m', hm', rfl⟩ := List.mem_map.mp hmap
    obtain ⟨rfl, ht⟩ := (Regex.mem_run _ _ _ _).mp hmem
    exact ⟨t, rest, m', rfl, ht, hm', rfl⟩
  · rintro ⟨t, rest, m', rfl, ht, hm', rfl⟩
    exact ⟨(t, rest), (Regex.mem_run _ _ _ _).mpr ⟨rfl, ht⟩, List.mem_map.mpr ⟨m', hm', rfl⟩⟩

theorem searchFrom_drop (n : ℕ) (cs : List Char) : searchFrom pattern n cs = search pattern (cs.drop n) := by
  induction cs generalizing n with
  | nil => cases n <;> rfl
  | cons c cs ih =>
    cases n with
    | zero => rfl
    | succ n => exact ih n

theorem search_cons_of_run_eq_nil {c : Char} (h : run pattern (c :: cs) = []) :
    search pattern (c :: cs) = search pattern cs := by
  rw [search, searchFrom, h]
  rfl

theorem search_of_unique {text rest : List Char} {groups : List (List Char)} (hne : text ≠ [])
    (hmem : ⟨text, rest, groups⟩ ∈ run pattern (text ++ rest))
    (hunique : ∀ m ∈ run pattern (text ++ rest), m = ⟨text, rest, groups⟩) :
    search pattern (text ++ rest) = ⟨text, rest, groups⟩ :: search pattern rest := by
  cases text with
  | nil => exact absurd rfl hne
  | cons c text =>
    have hhead : (run pattern (c :: (text ++ rest))).head? = some ⟨c :: text, rest, groups⟩ := by
      rw [List.cons_append] at hmem hunique
      cases hrun : run pattern (c :: (text ++ rest)) with
      | nil =>
        rw [hrun] at hmem
        cases hmem
      | cons m ms =>
        rw [hrun] at hunique
        rw [List.head?_cons, hunique m List.mem_cons_self]
    rw [List.cons_append, search, searchFrom, hhead]
    simp only
    rw [searchFrom_drop, List.length_cons, Nat.add_sub_cancel, List.drop_left]

end Pattern

end Souxmar.Lib
