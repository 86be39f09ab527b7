import Mathlib.Data.List.Forall2
import Mathlib.Data.List.TakeDrop
import Mathlib.Data.Nat.Notation
import Mathlib.Tactic.SplitIfs
import Souxmar.Lib.CharList

/-!
# JSON texts

A reader of JSON texts (objects, arrays, strings with their escapes, numbers, literals and the white
space between them), by recursive descent. The fuel of the mutual functions is the length of the text.

`Writes text v` says that a text stands for the value `v` wherever a value may stand. It is what a
program that builds JSON by concatenation has to know about the pieces: `Writes.arr` and `Writes.obj`
put pieces together, and `writes_of_parse` gives it for a text that is read as a document of its own.
-/

namespace Souxmar.Lib

/-- A value. A number is kept as it is spelled. -/
inductive Json
  | null
  | bool (b : Bool)
  | num (literal : List Char)
  | str (s : String)
  | arr (items : List Json)
  | obj (members : List (String × Json))

namespace Json

/-! ## White space and strings -/

def isWs (c : Char) : Bool := c = ' ' || c = '\t' || c = '\n' || c = '\r'

def skipWs (cs : List Char) : List Char := cs.dropWhile isWs

/-- The character stands next, after white space. -/
def expect (c : Char) (cs : List Char) : Option (List Char) :=
  match skipWs cs with
  | d :: rest => if d = c then some rest else none
  | [] => none

def hexVal (c : Char) : Option ℕ :=
  if '0' ≤ c ∧ c ≤ '9' then some (c.toNat - 48)
  else if 'a' ≤ c ∧ c ≤ 'f' then some (c.toNat - 87)
  else if 'A' ≤ c ∧ c ≤ 'F' then some (c.toNat - 55)
  else none

def hex4 (a b c d : Char) : Option ℕ :=
  (hexVal a).bind fun a => (hexVal b).bind fun b => (hexVal c).bind fun c =>
    (hexVal d).map fun d => ((a * 16 + b) * 16 + c) * 16 + d

/-- The escapes of one character. -/
def unescape (c : Char) : Option ℕ :=
  if c = '"' ∨ c = '\\' ∨ c = '/' then some c.toNat
  else if c = 'b' then some 8
  else if c = 'f' then some 12
  else if c = 'n' then some 10
  else if c = 'r' then some 13
  else if c = 't' then some 9
  else none

/-- The code units of a string up to its closing quote. -/
def readUnits : List Char → Option (List ℕ × List Char)
  | [] => none
  | c :: cs =>
    if c = '"' then some ([], cs)
    else if c = '\\' then
      match cs with
      | [] => none
      | e :: cs =>
        if e = 'u' then
          match cs with
          | a :: b :: c :: d :: cs =>
            (hex4 a b c d).bind fun unit => (readUnits cs).map fun r => (unit :: r.1, r.2)
          | _ => none
        else (unescape e).bind fun unit => (readUnits cs).map fun r => (unit :: r.1, r.2)
    else if c.toNat < 0x20 then none
    else (readUnits cs).map fun r => (c.toNat :: r.1, r.2)

/-- A surrogate that has no partner is replaced. -/
def unitChar (unit : ℕ) : Char :=
  if 0xD800 ≤ unit ∧ unit < 0xE000 then Char.ofNat 0xFFFD else Char.ofNat unit

/-- Surrogate pairs become one character. -/
def joinUnits : List ℕ → List Char
  | [] => []
  | [unit] => [unitChar unit]
  | hi :: lo :: units =>
    if (0xD800 ≤ hi ∧ hi < 0xDC00) ∧ 0xDC00 ≤ lo ∧ lo < 0xE000 then
      Char.ofNat (0x10000 + (hi - 0xD800) * 0x400 + (lo - 0xDC00)) :: joinUnits units
    else unitChar hi :: joinUnits (lo :: units)

/-- A string after its opening quote. -/
def readString (cs : List Char) : Option (String × List Char) :=
  (readUnits cs).map fun r => (String.ofList (joinUnits r.1), r.2)

/-! ## Numbers and literals -/

def readFraction : List Char → Option (List Char × List Char)
  | [] => some ([], [])
  | c :: cs =>
    if c = '.' then
      let (digits, rest) := cs.span Char.isDigit
      if digits = [] then none else some ('.' :: digits, rest)
    else some ([], c :: cs)

def readSign (plus : Bool) : List Char → List Char × List Char
  | [] => ([], [])
  | c :: cs => if c = '-' ∨ (plus = true ∧ c = '+') then ([c], cs) else ([], c :: cs)

def readExponent : List Char → Option (List Char × List Char)
  | [] => some ([], [])
  | c :: cs =>
    if c = 'e' ∨ c = 'E' then
      let (sign, cs) := readSign true cs
      let (digits, rest) := cs.span Char.isDigit
      if digits = [] then none else some (c :: sign ++ digits, rest)
    else some ([], c :: cs)

/-- A number has no leading zeros. -/
def readNumber (cs : List Char) : Option (List Char × List Char) :=
  let (sign, cs) := readSign false cs
  let (digits, cs) := cs.span Char.isDigit
  if digits = [] ∨ (digits.head? = some '0' ∧ digits ≠ ['0']) then none
  else
    (readFraction cs).bind fun fraction =>
      (readExponent fraction.2).map fun exponent =>
        (sign ++ digits ++ fraction.1 ++ exponent.1, exponent.2)

def readWord (word : String) (v : Json) (cs : List Char) : Option (Json × List Char) :=
  (cs.dropPrefix? word.toList).map fun rest => (v, rest)

def readScalar : List Char → Option (Json × List Char)
  | [] => none
  | c :: cs =>
    if c = 't' then readWord "true" (.bool true) (c :: cs)
    else if c = 'f' then readWord "false" (.bool false) (c :: cs)
    else if c = 'n' then readWord "null" .null (c :: cs)
    else (readNumber (c :: cs)).map fun r => (.num r.1, r.2)

/-! ## Values -/

/-- A key and its colon. -/
def readKey (cs : List Char) : Option (String × List Char) :=
  (expect '"' cs).bind fun cs =>
    (readString cs).bind fun r => (expect ':' r.2).map fun cs => (r.1, cs)

mutual

def readValue : ℕ → List Char → Option (Json × List Char)
  | 0, _ => none
  | n + 1, cs =>
    match skipWs cs with
    | [] => none
    | c :: cs =>
      if c = '{' then
        match expect '}' cs with
        | some rest => some (.obj [], rest)
        | none => (readMembers n cs).map fun r => (.obj r.1, r.2)
      else if c = '[' then
        match expect ']' cs with
        | some rest => some (.arr [], rest)
        | none => (readElements n cs).map fun r => (.arr r.1, r.2)
      else if c = '"' then (readString cs).map fun r => (.str r.1, r.2)
      else readScalar (c :: cs)

def readElements : ℕ → List Char → Option (List Json × List Char)
  | 0, _ => none
  | n + 1, cs =>
    (readValue n cs).bind fun r =>
      match expect ',' r.2 with
      | some cs => (readElements n cs).map fun rs => (r.1 :: rs.1, rs.2)
      | none => (expect ']' r.2).map fun rest => ([r.1], rest)

def readMembers : ℕ → List Char → Option (List (String × Json) × List Char)
  | 0, _ => none
  | n + 1, cs =>
    (readKey cs).bind fun k =>
      (readValue n k.2).bind fun r =>
        match expect ',' r.2 with
        | some cs => (readMembers n cs).map fun rs => ((k.1, r.1) :: rs.1, rs.2)
        | none => (expect '}' r.2).map fun rest => ([(k.1, r.1)], rest)

end

/-- A whole text: one value, with nothing but white space behind it. -/
def parse (text : List Char) : Option Json :=
  (readValue text.length text).bind fun r => if skipWs r.2 = [] then some r.1 else none

/-! ## Reading on -/

/-- What may stand behind a number without being part of it. -/
def Stops (more : List Char) : Prop :=
  ∀ c ∈ more.head?, c.isDigit = false ∧ c ≠ '.' ∧ c ≠ 'e' ∧ c ≠ 'E' ∧ c ≠ '+' ∧ c ≠ '-'

theorem Stops.nil : Stops [] := fun _ hc => nomatch hc

theorem Stops.cons {c : Char} {more : List Char}
    (h : c.isDigit = false ∧ c ≠ '.' ∧ c ≠ 'e' ∧ c ≠ 'E' ∧ c ≠ '+' ∧ c ≠ '-') : Stops (c :: more) := by
  intro d hd
  obtain rfl := Option.some.inj hd
  exact h

section

variable {more : List Char}

theorem skipWs_append {cs : List Char} {c : Char} {rest : List Char} (h : skipWs cs = c :: rest) :
    skipWs (cs ++ more) = c :: (rest ++ more) := by
  unfold skipWs at h ⊢
  induction cs with
  | nil => exact nomatch h
  | cons d cs ih =>
    rw [List.cons_append, List.dropWhile_cons]
    rw [List.dropWhile_cons] at h
    split_ifs with hd
    · rw [if_pos hd] at h
      exact ih h
    · rw [if_neg hd] at h
      obtain ⟨rfl, rfl⟩ := List.cons.inj h
      rfl

theorem skipWs_append_nil {cs : List Char} (h : skipWs cs = []) :
    skipWs (cs ++ more) = skipWs more := by
  unfold skipWs at h ⊢
  induction cs with
  | nil => rfl
  | cons d cs ih =>
    rw [List.dropWhile_cons] at h
    split_ifs at h with hd
    rw [List.cons_append, List.dropWhile_cons, if_pos hd]
    exact ih h

theorem expect_eq_some {c : Char} {cs rest : List Char} :
    expect c cs = some rest ↔ skipWs cs = c :: rest := by
  unfold expect
  cases hskip : skipWs cs with
  | nil => simp
  | cons d cs' =>
    dsimp only
    by_cases hd : d = c
    · rw [if_pos hd, hd]
      simp
    · rw [if_neg hd]
      simp [hd]

theorem expect_append {c : Char} {cs rest : List Char} (h : expect c cs = some rest) :
    expect c (cs ++ more) = some (rest ++ more) :=
  expect_eq_some.mpr (skipWs_append (expect_eq_some.mp h))

theorem expect_append_none {c : Char} {cs : List Char} (h : expect c cs = none)
    (hne : skipWs cs ≠ []) : expect c (cs ++ more) = none := by
  cases hskip : skipWs cs with
  | nil => exact absurd hskip hne
  | cons d rest =>
    have hd : d ≠ c := by
      rintro rfl
      rw [expect_eq_some.mpr hskip] at h
      exact nomatch h
    unfold expect
    rw [skipWs_append hskip]
    exact if_neg hd

theorem readUnits_append {cs : List Char} {units : List ℕ} {rest : List Char}
    (h : readUnits cs = some (units, rest)) : readUnits (cs ++ more) = some (units, rest ++ more) := by
  induction hn : cs.length using Nat.strongRecOn generalizing cs units with
  | _ n ih =>
    cases cs with
    | nil => exact nomatch h
    | cons c cs =>
      rw [List.cons_append]
      rw [readUnits.eq_def] at h ⊢
      dsimp only at h ⊢
      split_ifs at h ⊢ with hquote hslash hcontrol
      · obtain ⟨rfl, rfl⟩ := Prod.mk.inj (Option.some.inj h)
        rfl
      · cases cs with
        | nil => exact nomatch h
        | cons e cs =>
          rw [List.cons_append]
          dsimp only at h ⊢
          split_ifs at h ⊢ with hu
          · match cs, h with
            | a :: b :: c' :: d :: cs, h =>
              obtain ⟨unit, hunit, hmap⟩ := Option.bind_eq_some_iff.mp h
              obtain ⟨r, hr, heq⟩ := Option.map_eq_some_iff.mp hmap
              obtain ⟨rfl, rfl⟩ := Prod.mk.inj heq
              have hlt : cs.length < n := by
                simp only [List.length_cons] at hn
                omega
              have hrest := ih cs.length hlt hr rfl
              simp only [List.cons_append, hunit, Option.bind_some, hrest, Option.map_some]
          · obtain ⟨unit, hunit, hmap⟩ := Option.bind_eq_some_iff.mp h
            obtain ⟨r, hr, heq⟩ := Option.map_eq_some_iff.mp hmap
            obtain ⟨rfl, rfl⟩ := Prod.mk.inj heq
            have hlt : cs.length < n := by
              simp only [List.length_cons] at hn
              omega
            have hrest := ih cs.length hlt hr rfl
            simp only [hunit, Option.bind_some, hrest, Option.map_some]
      · obtain ⟨r, hr, heq⟩ := Option.map_eq_some_iff.mp h
        obtain ⟨rfl, rfl⟩ := Prod.mk.inj heq
        have hlt : cs.length < n := by
          simp only [List.length_cons] at hn
          omega
        have hrest := ih cs.length hlt hr rfl
        rw [hrest]
        rfl

theorem readString_append {cs : List Char} {s : String} {rest : List Char}
    (h : readString cs = some (s, rest)) : readString (cs ++ more) = some (s, rest ++ more) := by
  obtain ⟨r, hr, heq⟩ := Option.map_eq_some_iff.mp h
  obtain ⟨rfl, rfl⟩ := Prod.mk.inj heq
  rw [readString, readUnits_append hr]
  rfl

theorem readKey_append {cs : List Char} {key : String} {rest : List Char}
    (h : readKey cs = some (key, rest)) : readKey (cs ++ more) = some (key, rest ++ more) := by
  obtain ⟨body, hbody, hstring⟩ := Option.bind_eq_some_iff.mp h
  obtain ⟨⟨s, after⟩, hs, hcolon⟩ := Option.bind_eq_some_iff.mp hstring
  obtain ⟨rest', hrest, heq⟩ := Option.map_eq_some_iff.mp hcolon
  obtain ⟨rfl, rfl⟩ := Prod.mk.inj heq
  rw [readKey, expect_append hbody, Option.bind_some, readString_append hs, Option.bind_some,
    expect_append hrest]
  rfl

variable (hstops : Stops more)

include hstops

theorem span_isDigit_append (cs : List Char) :
    (cs ++ more).span Char.isDigit =
      ((cs.span Char.isDigit).1, (cs.span Char.isDigit).2 ++ more) := by
  rw [List.span_eq_takeWhile_dropWhile, List.span_eq_takeWhile_dropWhile]
  induction cs with
  | nil =>
    cases more with
    | nil => rfl
    | cons c more =>
      have hc := (hstops c rfl).1
      simp [hc]
  | cons d cs ih =>
    obtain ⟨htake, hdrop⟩ := Prod.mk.inj ih
    rw [List.cons_append, List.takeWhile_cons, List.dropWhile_cons, List.takeWhile_cons,
      List.dropWhile_cons]
    split_ifs
    · rw [htake, hdrop]
    · rfl

theorem readFraction_append {cs fraction rest : List Char}
    (h : readFraction cs = some (fraction, rest)) :
    readFraction (cs ++ more) = some (fraction, rest ++ more) := by
  cases cs with
  | nil =>
    obtain ⟨rfl, rfl⟩ := Prod.mk.inj (Option.some.inj h)
    cases more with
    | nil => rfl
    | cons c more =>
      rw [List.nil_append, readFraction, if_neg (hstops c rfl).2.1]
  | cons c cs =>
    rw [readFraction] at h
    rw [List.cons_append, readFraction]
    split_ifs at h ⊢
    · rw [span_isDigit_append hstops]
      dsimp only at h ⊢
      split_ifs at h ⊢
      obtain ⟨rfl, rfl⟩ := Prod.mk.inj (Option.some.inj h)
      rfl
    · obtain ⟨rfl, rfl⟩ := Prod.mk.inj (Option.some.inj h)
      rfl

theorem readSign_append (plus : Bool) (cs : List Char) :
    readSign plus (cs ++ more) = ((readSign plus cs).1, (readSign plus cs).2 ++ more) := by
  cases cs with
  | nil =>
    cases more with
    | nil => rfl
    | cons c more =>
      obtain ⟨-, -, -, -, hplus, hminus⟩ := hstops c rfl
      have hnone : ¬(c = '-' ∨ (plus = true ∧ c = '+')) := by simp [hplus, hminus]
      show (if c = '-' ∨ (plus = true ∧ c = '+') then ([c], more) else ([], c :: more)) = _
      rw [if_neg hnone]
      rfl
  | cons c cs =>
    rw [List.cons_append, readSign, readSign]
    split_ifs <;> rfl

theorem readExponent_append {cs exponent rest : List Char}
    (h : readExponent cs = some (exponent, rest)) :
    readExponent (cs ++ more) = some (exponent, rest ++ more) := by
  cases cs with
  | nil =>
    obtain ⟨rfl, rfl⟩ := Prod.mk.inj (Option.some.inj h)
    cases more with
    | nil => rfl
    | cons c more =>
      obtain ⟨-, -, he, hE, -, -⟩ := hstops c rfl
      rw [List.nil_append, readExponent, if_neg (by simp [he, hE])]
  | cons c cs =>
    rw [readExponent] at h
    rw [List.cons_append, readExponent]
    split_ifs at h ⊢
    · rw [readSign_append hstops]
      dsimp only at h ⊢
      rw [span_isDigit_append hstops]
      dsimp only at h ⊢
      split_ifs at h ⊢
      obtain ⟨rfl, rfl⟩ := Prod.mk.inj (Option.some.inj h)
      rfl
    · obtain ⟨rfl, rfl⟩ := Prod.mk.inj (Option.some.inj h)
      rfl

theorem readNumber_append {cs literal rest : List Char} (h : readNumber cs = some (literal, rest)) :
    readNumber (cs ++ more) = some (literal, rest ++ more) := by
  unfold readNumber at h ⊢
  rw [readSign_append hstops]
  dsimp only at h ⊢
  rw [span_isDigit_append hstops]
  dsimp only at h ⊢
  split_ifs at h ⊢
  obtain ⟨⟨fraction, after⟩, hfraction, hmap⟩ := Option.bind_eq_some_iff.mp h
  obtain ⟨⟨exponent, rest'⟩, hexponent, heq⟩ := Option.map_eq_some_iff.mp hmap
  obtain ⟨rfl, rfl⟩ := Prod.mk.inj heq
  rw [readFraction_append hstops hfraction, Option.bind_some, readExponent_append hstops hexponent]
  rfl

omit hstops in
theorem readWord_append {word : String} {v v' : Json} {cs rest : List Char}
    (h : readWord word v cs = some (v', rest)) : readWord word v (cs ++ more) = some (v', rest ++ more) := by
  obtain ⟨rest', hdrop, heq⟩ := Option.map_eq_some_iff.mp h
  obtain ⟨rfl, rfl⟩ := Prod.mk.inj heq
  obtain ⟨pre, rfl, hpre⟩ := List.dropPrefix?_eq_some_iff.mp hdrop
  refine Option.map_eq_some_iff.mpr ⟨rest' ++ more, ?_, rfl⟩
  exact List.dropPrefix?_eq_some_iff.mpr ⟨pre, by rw [List.append_assoc], hpre⟩

theorem readScalar_append {cs : List Char} {v : Json} {rest : List Char}
    (h : readScalar cs = some (v, rest)) : readScalar (cs ++ more) = some (v, rest ++ more) := by
  cases cs with
  | nil => exact nomatch h
  | cons c cs =>
    rw [readScalar] at h
    rw [List.cons_append, readScalar]
    split_ifs at h ⊢
    · exact readWord_append h
    · exact readWord_append h
    · exact readWord_append h
    · obtain ⟨⟨literal, rest'⟩, hnumber, heq⟩ := Option.map_eq_some_iff.mp h
      obtain ⟨rfl, rfl⟩ := Prod.mk.inj heq
      have happend := readNumber_append hstops hnumber
      rw [List.cons_append] at happend
      rw [happend]
      rfl

omit hstops in
theorem skipWs_ne_nil_of_members {n : ℕ} {cs : List Char} {r : List (String × Json) × List Char}
    (h : readMembers n cs = some r) : skipWs cs ≠ [] := by
  intro hnil
  cases n with
  | zero => exact nomatch h
  | succ n =>
    have hquote : expect '"' cs = none := by
      unfold expect
      rw [hnil]
    rw [readMembers, readKey, hquote] at h
    exact nomatch h

omit hstops in
theorem skipWs_ne_nil_of_elements {n : ℕ} {cs : List Char} {r : List Json × List Char}
    (h : readElements n cs = some r) : skipWs cs ≠ [] := by
  intro hnil
  cases n with
  | zero => exact nomatch h
  | succ n =>
    rw [readElements] at h
    cases n with
    | zero => exact nomatch h
    | succ n =>
      rw [readValue, hnil] at h
      exact nomatch h

variable (more) in
/-- A reader with `m` to spare reads with more text behind it what it reads with `n` without it. -/
def ReadsOn {α : Type} (read : ℕ → List Char → Option (α × List Char)) (n m : ℕ) : Prop :=
  ∀ cs v rest, read n cs = some (v, rest) → read m (cs ++ more) = some (v, rest ++ more)

theorem readValue_append {n m : ℕ} (ihelements : ReadsOn more readElements n m)
    (ihmembers : ReadsOn more readMembers n m) : ReadsOn more readValue (n + 1) (m + 1) := by
  intro cs v rest h
  rw [readValue] at h ⊢
  cases hskip : skipWs cs with
  | nil => rw [hskip] at h; exact nomatch h
  | cons c cs' =>
    rw [hskip] at h
    rw [skipWs_append hskip]
    dsimp only at h ⊢
    split_ifs at h ⊢
    · cases hclose : expect '}' cs' with
      | some rest' =>
        rw [hclose] at h
        obtain ⟨rfl, rfl⟩ := Prod.mk.inj (Option.some.inj h)
        rw [expect_append hclose]
      | none =>
        rw [hclose] at h
        obtain ⟨⟨ms, rest'⟩, hms, heq⟩ := Option.map_eq_some_iff.mp h
        obtain ⟨rfl, rfl⟩ := Prod.mk.inj heq
        rw [expect_append_none hclose (skipWs_ne_nil_of_members hms),
          ihmembers cs' ms rest' hms]
        rfl
    · cases hclose : expect ']' cs' with
      | some rest' =>
        rw [hclose] at h
        obtain ⟨rfl, rfl⟩ := Prod.mk.inj (Option.some.inj h)
        rw [expect_append hclose]
      | none =>
        rw [hclose] at h
        obtain ⟨⟨vs, rest'⟩, hvs, heq⟩ := Option.map_eq_some_iff.mp h
        obtain ⟨rfl, rfl⟩ := Prod.mk.inj heq
        rw [expect_append_none hclose (skipWs_ne_nil_of_elements hvs),
          ihelements cs' vs rest' hvs]
        rfl
    · obtain ⟨⟨s, rest'⟩, hs, heq⟩ := Option.map_eq_some_iff.mp h
      obtain ⟨rfl, rfl⟩ := Prod.mk.inj heq
      rw [readString_append hs]
      rfl
    · exact readScalar_append hstops h

omit hstops in
theorem readElements_append {n m : ℕ} (ihvalue : ReadsOn more readValue n m)
    (ihelements : ReadsOn more readElements n m) : ReadsOn more readElements (n + 1) (m + 1) := by
  intro cs vs rest h
  rw [readElements] at h ⊢
  obtain ⟨⟨v, after⟩, hv, htail⟩ := Option.bind_eq_some_iff.mp h
  rw [ihvalue cs v after hv, Option.bind_some]
  cases hcomma : expect ',' after with
  | some cs' =>
    rw [hcomma] at htail
    obtain ⟨⟨vs', rest'⟩, hvs, heq⟩ := Option.map_eq_some_iff.mp htail
    obtain ⟨rfl, rfl⟩ := Prod.mk.inj heq
    rw [expect_append hcomma]
    dsimp only
    rw [ihelements cs' vs' rest' hvs]
    rfl
  | none =>
    rw [hcomma] at htail
    obtain ⟨rest', hclose, heq⟩ := Option.map_eq_some_iff.mp htail
    obtain ⟨rfl, rfl⟩ := Prod.mk.inj heq
    have hne : skipWs after ≠ [] := by
      rw [expect_eq_some.mp hclose]
      simp
    rw [expect_append_none hcomma hne]
    dsimp only
    rw [expect_append hclose]
    rfl

omit hstops in
theorem readMembers_append {n m : ℕ} (ihvalue : ReadsOn more readValue n m)
    (ihmembers : ReadsOn more readMembers n m) : ReadsOn more readMembers (n + 1) (m + 1) := by
  intro cs ms rest h
  rw [readMembers] at h ⊢
  obtain ⟨⟨key, body⟩, hkey, hvalue⟩ := Option.bind_eq_some_iff.mp h
  obtain ⟨⟨v, after⟩, hv, htail⟩ := Option.bind_eq_some_iff.mp hvalue
  rw [readKey_append hkey, Option.bind_some, ihvalue body v after hv, Option.bind_some]
  cases hcomma : expect ',' after with
  | some cs' =>
    rw [hcomma] at htail
    obtain ⟨⟨ms', rest'⟩, hms, heq⟩ := Option.map_eq_some_iff.mp htail
    obtain ⟨rfl, rfl⟩ := Prod.mk.inj heq
    rw [expect_append hcomma]
    dsimp only
    rw [ihmembers cs' ms' rest' hms]
    rfl
  | none =>
    rw [hcomma] at htail
    obtain ⟨rest', hclose, heq⟩ := Option.map_eq_some_iff.mp htail
    obtain ⟨rfl, rfl⟩ := Prod.mk.inj heq
    have hne : skipWs after ≠ [] := by
      rw [expect_eq_some.mp hclose]
      simp
    rw [expect_append_none hcomma hne]
    dsimp only
    rw [expect_append hclose]
    rfl

theorem read_append (n m : ℕ) (hm : n ≤ m) :
    ReadsOn more readValue n m ∧ ReadsOn more readElements n m ∧ ReadsOn more readMembers n m := by
  induction n generalizing m with
  | zero => exact ⟨fun _ _ _ h => (nomatch h), fun _ _ _ h => (nomatch h), fun _ _ _ h => nomatch h⟩
  | succ n ih =>
    obtain ⟨m, rfl⟩ := Nat.exists_eq_add_of_le' (Nat.le_trans (Nat.succ_pos n) hm)
    obtain ⟨ihvalue, ihelements, ihmembers⟩ := ih m (Nat.le_of_succ_le_succ hm)
    exact ⟨readValue_append hstops ihelements ihmembers, readElements_append ihvalue ihelements,
      readMembers_append ihvalue ihmembers⟩

end

/-! ## Texts of values -/

/-- The text stands for the value wherever a value may stand. -/
def Writes (text : List Char) (v : Json) : Prop :=
  ∀ n more, text.length ≤ n → Stops more →
    ∃ rest, readValue n (text ++ more) = some (v, rest) ∧ skipWs rest = skipWs more

/-- The text behind an opening quote is the string, with its closing quote. -/
def Spells (body : List Char) (s : String) : Prop :=
  ∀ more, readString (body ++ more) = some (s, more)

/-- The text is a member of an object. -/
def WritesMember (text : List Char) (member : String × Json) : Prop :=
  ∃ body value, text = '"' :: (body ++ ':' :: value) ∧ Spells body member.1 ∧ Writes value member.2

def commaSeparated (texts : List (List Char)) : List Char := [','].intercalate texts

theorem Writes.parse {text : List Char} {v : Json} (h : Writes text v) : parse text = some v := by
  obtain ⟨rest, hread, hrest⟩ := h text.length [] (Nat.le_refl _) .nil
  rw [List.append_nil] at hread
  rw [Json.parse, hread, Option.bind_some]
  exact if_pos hrest

theorem writes_of_parse {text : List Char} {v : Json} (h : parse text = some v) : Writes text v := by
  obtain ⟨⟨v', rest⟩, hread, hdone⟩ := Option.bind_eq_some_iff.mp h
  split_ifs at hdone with hrest
  obtain rfl := Option.some.inj hdone
  intro n more hn hstops
  exact ⟨rest ++ more, (read_append hstops text.length n hn).1 text v' rest hread,
    skipWs_append_nil hrest⟩

theorem readNumber_head {c : Char} {cs : List Char} (h : (readNumber (c :: cs)).isSome = true) :
    c = '-' ∨ c.isDigit = true := by
  by_contra hnot
  rw [not_or] at hnot
  have hsign : readSign false (c :: cs) = ([], c :: cs) := if_neg (by simp [hnot.1])
  rw [readNumber, hsign] at h
  dsimp only at h
  rw [List.span_eq_takeWhile_dropWhile, List.takeWhile_cons_of_neg hnot.2] at h
  simp at h

theorem Writes.head {text : List Char} {v : Json} (h : Writes text v) :
    ∃ c cs, skipWs text = c :: cs ∧ c ≠ ']' ∧ c ≠ '}' := by
  obtain ⟨rest, hread, -⟩ := h (text.length + 1) [] (Nat.le_succ _) .nil
  rw [List.append_nil, readValue] at hread
  cases hskip : skipWs text with
  | nil => rw [hskip] at hread; exact nomatch hread
  | cons c cs =>
    refine ⟨c, cs, rfl, ?_⟩
    have hclose : c = ']' ∨ c = '}' → readScalar (c :: cs) = none := by
      intro hc
      cases hnumber : readNumber (c :: cs) with
      | some r =>
        have hhead : c = '-' ∨ c.isDigit = true := readNumber_head (by rw [hnumber]; rfl)
        rcases hc with rfl | rfl <;> exact absurd hhead (by decide)
      | none =>
        rw [readScalar, hnumber]
        rcases hc with rfl | rfl <;> rfl
    rw [hskip] at hread
    constructor
    · rintro rfl
      dsimp only at hread
      rw [if_neg (by decide), if_neg (by decide), if_neg (by decide), hclose (.inl rfl)] at hread
      exact nomatch hread
    · rintro rfl
      dsimp only at hread
      rw [if_neg (by decide), if_neg (by decide), if_neg (by decide), hclose (.inr rfl)] at hread
      exact nomatch hread

/-! ### Strings -/

theorem unitChar_toNat (c : Char) : unitChar c.toNat = c := by
  have hvalid : c.toNat < 0xD800 ∨ 0xDFFF < c.toNat ∧ c.toNat < 0x110000 := c.valid
  rw [unitChar, if_neg (by omega), Char.ofNat_toNat]

theorem joinUnits_map_toNat (cs : List Char) : joinUnits (cs.map Char.toNat) = cs := by
  induction cs with
  | nil => rfl
  | cons c cs ih =>
    have hvalid : c.toNat < 0xD800 ∨ 0xDFFF < c.toNat ∧ c.toNat < 0x110000 := c.valid
    cases cs with
    | nil => rw [List.map_cons, List.map_nil, joinUnits, unitChar_toNat]
    | cons d cs =>
      rw [List.map_cons, List.map_cons, joinUnits, if_neg (by omega), unitChar_toNat]
      rw [List.map_cons] at ih
      rw [ih]

theorem spells_of_chars {s : String} {spelling : Char → List Char}
    (h : ∀ c ∈ s.toList, ∀ more units rest, readUnits more = some (units, rest) →
      readUnits (spelling c ++ more) = some (c.toNat :: units, rest)) :
    Spells (s.toList.flatMap spelling ++ ['"']) s := by
  intro more
  have hunits : ∀ cs : List Char, (∀ c ∈ cs, c ∈ s.toList) →
      readUnits (cs.flatMap spelling ++ '"' :: more) = some (cs.map Char.toNat, more) := by
    intro cs hcs
    induction cs with
    | nil =>
      rw [List.flatMap_nil, List.nil_append, readUnits.eq_def]
      exact if_pos rfl
    | cons c cs ih =>
      rw [List.flatMap_cons, List.append_assoc, List.map_cons]
      exact h c (hcs c List.mem_cons_self) _ _ _ (ih fun d hd => hcs d (List.mem_cons_of_mem _ hd))
  rw [List.append_assoc, List.singleton_append, readString, hunits s.toList fun c hc => hc,
    Option.map_some, joinUnits_map_toNat, String.ofList_toList]

/-- A character that needs no escape. -/
theorem readUnits_plain {c : Char} (hquote : c ≠ '"') (hslash : c ≠ '\\') (hcontrol : 0x20 ≤ c.toNat)
    {more : List Char} {units : List ℕ} {rest : List Char} (h : readUnits more = some (units, rest)) :
    readUnits (c :: more) = some (c.toNat :: units, rest) := by
  rw [readUnits.eq_def]
  dsimp only
  rw [if_neg hquote, if_neg hslash, if_neg (by omega), h]
  rfl

/-- A character behind a backslash. -/
theorem readUnits_escape {e : Char} {unit : ℕ} (he : e ≠ 'u') (hunit : unescape e = some unit)
    {more : List Char} {units : List ℕ} {rest : List Char} (h : readUnits more = some (units, rest)) :
    readUnits ('\\' :: e :: more) = some (unit :: units, rest) := by
  rw [readUnits.eq_def]
  dsimp only
  rw [if_neg (by decide), if_pos rfl, if_neg he, hunit, Option.bind_some, h]
  rfl

theorem readUnits_hex {a b c d : Char} {unit : ℕ} (hunit : hex4 a b c d = some unit)
    {more : List Char} {units : List ℕ} {rest : List Char} (h : readUnits more = some (units, rest)) :
    readUnits ('\\' :: 'u' :: a :: b :: c :: d :: more) = some (unit :: units, rest) := by
  rw [readUnits.eq_def]
  dsimp only
  rw [if_neg (by decide), if_pos rfl, if_pos rfl, hunit, Option.bind_some, h]
  rfl

/-! ### Numbers -/

/-- Digits without a leading zero. -/
def Natural (digits : List Char) : Prop :=
  digits ≠ [] ∧ (∀ c ∈ digits, c.isDigit = true) ∧ (digits.head? = some '0' → digits = ['0'])

theorem span_isDigit {digits : List Char} (h : ∀ c ∈ digits, c.isDigit = true) {more : List Char}
    (hmore : ∀ c ∈ more.head?, c.isDigit = false) :
    (digits ++ more).span Char.isDigit = (digits, more) := by
  rw [List.span_eq_takeWhile_dropWhile]
  induction digits with
  | nil =>
    cases more with
    | nil => rfl
    | cons c more => simp [hmore c rfl]
  | cons d digits ih =>
    have hd := h d List.mem_cons_self
    obtain ⟨htake, hdrop⟩ := Prod.mk.inj (ih fun c hc => h c (List.mem_cons_of_mem _ hc))
    simp [hd, htake, hdrop]

theorem Natural.digitChar {n : ℕ} (h : n < 10) : Natural [n.digitChar] := by
  have hdigit : ∀ n < 10, (Nat.digitChar n).isDigit = true := by decide
  have hhead : ∀ n < 10, (Nat.digitChar n) = '0' → [Nat.digitChar n] = ['0'] := by decide
  refine ⟨by simp, ?_, fun hzero => hhead n h (Option.some.inj hzero)⟩
  intro c hc
  rw [List.mem_singleton.mp hc]
  exact hdigit n h

theorem natural_toDigits (n : ℕ) : Natural (Nat.toDigits 10 n) := by
  induction n using Nat.strongRecOn with
  | ind n ih =>
    rcases Nat.lt_or_ge n 10 with hlt | hge
    · rw [Nat.toDigits_of_lt_base hlt]
      exact .digitChar hlt
    · have hdiv := ih (n / 10) (by omega)
      have hlast : Natural [(n % 10).digitChar] := .digitChar (Nat.mod_lt _ (by omega))
      rw [Nat.toDigits_of_base_le (by omega) hge]
      refine ⟨by simp, ?_, ?_⟩
      · intro c hc
        rcases List.mem_append.mp hc with hc | hc
        · exact hdiv.2.1 c hc
        · exact hlast.2.1 c hc
      · -- a zero in front would be the whole of the quotient, which is at least one
        intro hzero
        rw [List.head?_append_of_ne_nil _ hdiv.1] at hzero
        have hquotient := hdiv.2.2 hzero
        exfalso
        have hn : n / 10 = 0 := by
          have hvalue := congrArg (Nat.ofDigitChars 10 · 0) hquotient
          rw [Nat.ofDigitChars_toDigits (by omega) (by omega)] at hvalue
          exact hvalue
        omega

theorem readSign_natural {digits more : List Char} (h : Natural digits) (plus : Bool) :
    readSign plus (digits ++ more) = ([], digits ++ more) := by
  obtain ⟨hne, hall, -⟩ := h
  cases digits with
  | nil => exact absurd rfl hne
  | cons c digits =>
    have hc : c.isDigit = true := hall c List.mem_cons_self
    have hsign : ¬(c = '-' ∨ (plus = true ∧ c = '+')) := by
      rintro (rfl | ⟨-, rfl⟩)
      · exact nomatch hc
      · exact nomatch hc
    exact if_neg hsign

theorem readNumber_natural {digits : List Char} (h : Natural digits) :
    readNumber digits = some (digits, []) := by
  have hsign : readSign false (digits ++ []) = ([], digits ++ []) := readSign_natural h false
  have hspan : (digits ++ []).span Char.isDigit = (digits, []) := span_isDigit h.2.1 (by simp)
  rw [List.append_nil] at hsign hspan
  have hnatural : ¬(digits = [] ∨ (digits.head? = some '0' ∧ digits ≠ ['0'])) := by
    rintro (hnil | ⟨hzero, hne⟩)
    · exact h.1 hnil
    · exact hne (h.2.2 hzero)
  rw [readNumber, hsign]
  dsimp only
  rw [hspan]
  dsimp only
  rw [if_neg hnatural]
  simp [readFraction, readExponent]

theorem readNumber_decimal {digits fraction : List Char} (negative : Bool) (h : Natural digits)
    (hne : fraction ≠ []) (hfraction : ∀ c ∈ fraction, c.isDigit = true) :
    readNumber ((if negative then ['-'] else []) ++ (digits ++ '.' :: fraction)) =
      some ((if negative then ['-'] else []) ++ (digits ++ '.' :: fraction), []) := by
  have hsign : readSign false ((if negative then ['-'] else []) ++ (digits ++ '.' :: fraction)) =
      (if negative then ['-'] else [], digits ++ '.' :: fraction) := by
    cases negative with
    | false => exact readSign_natural h false
    | true => rfl
  have hspan : (digits ++ '.' :: fraction).span Char.isDigit = (digits, '.' :: fraction) :=
    span_isDigit h.2.1 fun c hc => by
      obtain rfl := Option.some.inj hc
      rfl
  have hrest : (fraction ++ []).span Char.isDigit = (fraction, []) := span_isDigit hfraction (by simp)
  rw [List.append_nil] at hrest
  have hnatural : ¬(digits = [] ∨ (digits.head? = some '0' ∧ digits ≠ ['0'])) := by
    rintro (hnil | ⟨hzero, hne⟩)
    · exact h.1 hnil
    · exact hne (h.2.2 hzero)
  rw [readNumber, hsign]
  dsimp only
  rw [hspan]
  dsimp only
  rw [if_neg hnatural, readFraction, if_pos rfl, hrest]
  dsimp only
  rw [if_neg hne]
  simp [readExponent]

/-! ### Values -/

theorem Writes.str {body : List Char} {s : String} (h : Spells body s) :
    Writes ('"' :: body) (.str s) := by
  intro n more hn _
  obtain ⟨n, rfl⟩ := Nat.exists_eq_add_of_le' (Nat.le_trans (Nat.succ_pos _) hn)
  refine ⟨more, ?_, rfl⟩
  have hskip : skipWs ('"' :: body ++ more) = '"' :: (body ++ more) := rfl
  rw [readValue, hskip]
  dsimp only
  rw [if_neg (by decide), if_neg (by decide), if_pos rfl, h more]
  rfl

theorem Writes.num {literal : List Char} (h : readNumber literal = some (literal, [])) :
    Writes literal (.num literal) := by
  intro n more hn hstops
  have happend := readNumber_append hstops h
  cases literal with
  | nil => exact nomatch h
  | cons c cs =>
    obtain ⟨n, rfl⟩ := Nat.exists_eq_add_of_le' (Nat.le_trans (Nat.succ_pos _) hn)
    have hhead : c = '-' ∨ c.isDigit = true := readNumber_head (by rw [h]; rfl)
    -- the characters that lead elsewhere are neither a sign nor a digit
    have hne : ∀ d : Char, d ≠ '-' → d.isDigit = false → c ≠ d := by
      rintro d hd hdigit rfl
      rcases hhead with rfl | hc
      · exact hd rfl
      · rw [hdigit] at hc
        exact nomatch hc
    have hws : isWs c = false := by
      unfold isWs
      simp [hne ' ' (by decide) (by decide), hne '\t' (by decide) (by decide),
        hne '\n' (by decide) (by decide), hne '\r' (by decide) (by decide)]
    have hskip : skipWs (c :: cs ++ more) = c :: (cs ++ more) := by
      rw [List.cons_append, skipWs, List.dropWhile_cons, if_neg (by simp [hws])]
    refine ⟨more, ?_, rfl⟩
    rw [readValue, hskip]
    dsimp only
    rw [if_neg (hne _ (by decide) (by decide)), if_neg (hne _ (by decide) (by decide)),
      if_neg (hne _ (by decide) (by decide)), readScalar, if_neg (hne _ (by decide) (by decide)),
      if_neg (hne _ (by decide) (by decide)), if_neg (hne _ (by decide) (by decide))]
    rw [List.cons_append] at happend
    rw [happend]
    rfl

theorem Writes.false : Writes "false".toList (.bool false) := writes_of_parse rfl

theorem readElements_commaSeparated {texts : List (List Char)} {items : List Json}
    (h : List.Forall₂ Writes texts items) (hne : texts ≠ []) {n : ℕ}
    (hn : (commaSeparated texts).length < n) (more : List Char) :
    readElements n (commaSeparated texts ++ ']' :: more) = some (items, more) := by
  induction h generalizing n with
  | nil => exact absurd rfl hne
  | @cons text item texts items hitem htexts ih =>
    obtain ⟨n, rfl⟩ := Nat.exists_eq_add_of_le' (Nat.le_trans (Nat.succ_pos _) hn)
    cases htexts with
    | nil =>
      rw [commaSeparated, List.intercalate_singleton] at hn ⊢
      obtain ⟨rest, hread, hrest⟩ := hitem n (']' :: more) (by omega) (.cons (by decide))
      have hskip : skipWs rest = ']' :: more := hrest
      have hcomma : expect ',' rest = none := by
        unfold expect
        rw [hskip]
        rfl
      rw [readElements, hread, Option.bind_some]
      dsimp only
      rw [hcomma]
      dsimp only
      rw [expect_eq_some.mpr hskip]
      rfl
    | @cons text' item' texts items hitem' htexts =>
      rw [commaSeparated, List.intercalate_cons_cons] at hn ⊢
      have hlength : text.length + (1 + (commaSeparated (text' :: texts)).length) ≤ n := by
        simp only [List.length_append, List.length_singleton] at hn
        unfold commaSeparated
        omega
      have hread := hitem n (',' :: (commaSeparated (text' :: texts) ++ ']' :: more)) (by omega)
        (.cons (by decide))
      obtain ⟨rest, hread, hrest⟩ := hread
      have hcomma : expect ',' rest = some (commaSeparated (text' :: texts) ++ ']' :: more) :=
        expect_eq_some.mpr hrest
      have hsame : text ++ [','] ++ [','].intercalate (text' :: texts) ++ ']' :: more =
          text ++ ',' :: (commaSeparated (text' :: texts) ++ ']' :: more) := by
        simp [commaSeparated]
      rw [hsame, readElements, hread, Option.bind_some]
      dsimp only
      rw [hcomma]
      dsimp only
      rw [ih (by simp) (by omega)]
      rfl

theorem readMembers_commaSeparated {texts : List (List Char)} {members : List (String × Json)}
    (h : List.Forall₂ WritesMember texts members) (hne : texts ≠ []) {n : ℕ}
    (hn : (commaSeparated texts).length < n) (more : List Char) :
    readMembers n (commaSeparated texts ++ '}' :: more) = some (members, more) := by
  have hkey : ∀ {body : List Char} {key : String} (value : List Char), Spells body key →
      readKey ('"' :: (body ++ ':' :: value)) = some (key, value) := by
    intro body key value hspells
    have hquote : expect '"' ('"' :: (body ++ ':' :: value)) = some (body ++ ':' :: value) := rfl
    rw [readKey, hquote, Option.bind_some, hspells, Option.bind_some]
    rfl
  induction h generalizing n with
  | nil => exact absurd rfl hne
  | @cons text member texts members hmember htexts ih =>
    obtain ⟨n, rfl⟩ := Nat.exists_eq_add_of_le' (Nat.le_trans (Nat.succ_pos _) hn)
    obtain ⟨body, value, rfl, hspells, hvalue⟩ := hmember
    cases htexts with
    | nil =>
      rw [commaSeparated, List.intercalate_singleton] at hn ⊢
      have hlength : value.length ≤ n := by
        simp only [List.length_cons, List.length_append] at hn
        omega
      obtain ⟨rest, hread, hrest⟩ := hvalue n ('}' :: more) hlength (.cons (by decide))
      have hskip : skipWs rest = '}' :: more := hrest
      have hcomma : expect ',' rest = none := by
        unfold expect
        rw [hskip]
        rfl
      have hsame : '"' :: (body ++ ':' :: value) ++ '}' :: more =
          '"' :: (body ++ ':' :: (value ++ '}' :: more)) := by simp
      rw [hsame, readMembers, hkey _ hspells, Option.bind_some]
      dsimp only
      rw [hread, Option.bind_some]
      dsimp only
      rw [hcomma]
      dsimp only
      rw [expect_eq_some.mpr hskip]
      rfl
    | @cons text' member' texts members hmember' htexts =>
      rw [commaSeparated, List.intercalate_cons_cons] at hn ⊢
      have hlength : value.length + (1 + (commaSeparated (text' :: texts)).length) ≤ n := by
        simp only [List.length_append, List.length_cons, List.length_nil] at hn
        unfold commaSeparated
        omega
      have hread := hvalue n (',' :: (commaSeparated (text' :: texts) ++ '}' :: more)) (by omega)
        (.cons (by decide))
      obtain ⟨rest, hread, hrest⟩ := hread
      have hcomma : expect ',' rest = some (commaSeparated (text' :: texts) ++ '}' :: more) :=
        expect_eq_some.mpr hrest
      have hsame : '"' :: (body ++ ':' :: value) ++ [','] ++ [','].intercalate (text' :: texts) ++
          '}' :: more =
          '"' :: (body ++ ':' :: (value ++ ',' :: (commaSeparated (text' :: texts) ++ '}' :: more))) := by
        simp [commaSeparated]
      rw [hsame, readMembers, hkey _ hspells, Option.bind_some]
      dsimp only
      rw [hread, Option.bind_some]
      dsimp only
      rw [hcomma]
      dsimp only
      rw [ih (by simp) (by omega)]
      rfl

theorem Writes.arr {texts : List (List Char)} {items : List Json}
    (h : List.Forall₂ Writes texts items) :
    Writes ('[' :: (commaSeparated texts ++ [']'])) (.arr items) := by
  intro n more hn _
  obtain ⟨n, rfl⟩ := Nat.exists_eq_add_of_le' (Nat.le_trans (Nat.succ_pos _) hn)
  have hlength : (commaSeparated texts).length < n := by
    simp only [List.length_cons, List.length_append, List.length_nil] at hn
    omega
  have hskip : skipWs ('[' :: (commaSeparated texts ++ [']']) ++ more) =
      '[' :: (commaSeparated texts ++ ']' :: more) := by
    rw [List.cons_append, List.append_assoc, List.singleton_append]
    rfl
  refine ⟨more, ?_, rfl⟩
  rw [readValue, hskip]
  dsimp only
  rw [if_neg (by decide), if_pos rfl]
  cases h with
  | nil => rfl
  | @cons text item texts items hitem htexts =>
    have hopen : expect ']' (commaSeparated (text :: texts) ++ ']' :: more) = none := by
      obtain ⟨c, cs, hhead, hc, -⟩ := hitem.head
      unfold expect commaSeparated
      cases texts with
      | nil =>
        rw [List.intercalate_singleton, skipWs_append hhead]
        exact if_neg hc
      | cons text' texts =>
        rw [List.intercalate_cons_cons, List.append_assoc, List.append_assoc, skipWs_append hhead]
        exact if_neg hc
    rw [hopen]
    dsimp only
    rw [readElements_commaSeparated (.cons hitem htexts) (by simp) hlength]
    rfl

theorem Writes.obj {texts : List (List Char)} {members : List (String × Json)}
    (h : List.Forall₂ WritesMember texts members) :
    Writes ('{' :: (commaSeparated texts ++ ['}'])) (.obj members) := by
  intro n more hn _
  obtain ⟨n, rfl⟩ := Nat.exists_eq_add_of_le' (Nat.le_trans (Nat.succ_pos _) hn)
  have hlength : (commaSeparated texts).length < n := by
    simp only [List.length_cons, List.length_append, List.length_nil] at hn
    omega
  have hskip : skipWs ('{' :: (commaSeparated texts ++ ['}']) ++ more) =
      '{' :: (commaSeparated texts ++ '}' :: more) := by
    rw [List.cons_append, List.append_assoc, List.singleton_append]
    rfl
  refine ⟨more, ?_, rfl⟩
  rw [readValue, hskip]
  dsimp only
  rw [if_pos rfl]
  cases h with
  | nil => rfl
  | @cons text member texts members hmember htexts =>
    have hopen : expect '}' (commaSeparated (text :: texts) ++ '}' :: more) = none := by
      obtain ⟨body, value, rfl, -, -⟩ := hmember
      unfold expect commaSeparated
      cases texts with
      | nil => rw [List.intercalate_singleton]; rfl
      | cons text' texts => rw [List.intercalate_cons_cons]; rfl
    rw [hopen]
    dsimp only
    rw [readMembers_commaSeparated (.cons hmember htexts) (by simp) hlength]
    rfl

/-! ### Concatenation

Objects and arrays whose text is put together from left to right. `Fields text members` and
`Items text items` stand for what is left to write behind the first entry, the closing bracket included.
-/

/-- The key needs no escapes. -/
def PlainKey (key : String) : Prop := ∀ c ∈ key.toList, c ≠ '"' ∧ c ≠ '\\' ∧ 0x20 ≤ c.toNat

instance (key : String) : Decidable (PlainKey key) := inferInstanceAs (Decidable (∀ c ∈ _, _))

def Fields (text : List Char) (members : List (String × Json)) : Prop :=
  ∃ texts, text = texts.flatMap (',' :: ·) ++ ['}'] ∧ List.Forall₂ WritesMember texts members

def Items (text : List Char) (items : List Json) : Prop :=
  ∃ texts, text = texts.flatMap (',' :: ·) ++ [']'] ∧ List.Forall₂ Writes texts items

theorem commaSeparated_cons (text : List Char) (texts : List (List Char)) :
    commaSeparated (text :: texts) = text ++ texts.flatMap (',' :: ·) := by
  induction texts generalizing text with
  | nil => simp [commaSeparated]
  | cons text' texts ih =>
    have hnext := ih text'
    unfold commaSeparated at hnext ⊢
    rw [List.intercalate_cons_cons, hnext]
    simp

theorem spells_plain {key : String} (hkey : PlainKey key) : Spells (key.toList ++ ['"']) key := by
  have hchars : Spells (key.toList.flatMap (fun c => [c]) ++ ['"']) key :=
    spells_of_chars fun c hc more units rest h =>
      readUnits_plain (hkey c hc).1 (hkey c hc).2.1 (hkey c hc).2.2 h
  rw [List.flatMap_singleton'] at hchars
  exact hchars

theorem writesMember {key : String} (hkey : PlainKey key) {value : List Char} {v : Json}
    (hv : Writes value v) : WritesMember ('"' :: (key.toList ++ '"' :: ':' :: value)) (key, v) := by
  exact ⟨key.toList ++ ['"'], value, by simp, spells_plain hkey, hv⟩

theorem Fields.close : Fields ['}'] [] := ⟨[], rfl, .nil⟩

theorem Fields.cons {key : String} (hkey : PlainKey key) {value rest : List Char} {v : Json}
    {members : List (String × Json)} (hv : Writes value v) (hrest : Fields rest members) :
    Fields (',' :: '"' :: (key.toList ++ '"' :: ':' :: (value ++ rest))) ((key, v) :: members) := by
  obtain ⟨texts, rfl, htexts⟩ := hrest
  exact ⟨_ :: texts, by simp, .cons (writesMember hkey hv) htexts⟩

theorem Writes.object {key : String} (hkey : PlainKey key) {value rest : List Char} {v : Json}
    {members : List (String × Json)} (hv : Writes value v) (hrest : Fields rest members) :
    Writes ('{' :: '"' :: (key.toList ++ '"' :: ':' :: (value ++ rest))) (.obj ((key, v) :: members)) := by
  obtain ⟨texts, rfl, htexts⟩ := hrest
  have hobj := Writes.obj (.cons (writesMember hkey hv) htexts)
  rw [commaSeparated_cons] at hobj
  simpa using hobj

theorem Items.close : Items [']'] [] := ⟨[], rfl, .nil⟩

theorem Items.cons {text rest : List Char} {v : Json} {items : List Json} (hv : Writes text v)
    (hrest : Items rest items) : Items (',' :: (text ++ rest)) (v :: items) := by
  obtain ⟨texts, rfl, htexts⟩ := hrest
  exact ⟨text :: texts, by simp, .cons hv htexts⟩

theorem Writes.array {text rest : List Char} {v : Json} {items : List Json} (hv : Writes text v)
    (hrest : Items rest items) : Writes ('[' :: (text ++ rest)) (.arr (v :: items)) := by
  obtain ⟨texts, rfl, htexts⟩ := hrest
  have harr := Writes.arr (.cons hv htexts)
  rw [commaSeparated_cons] at harr
  simpa using harr

theorem Writes.emptyArray : Writes ['[', ']'] (.arr []) := Writes.arr .nil

theorem Writes.emptyObject : Writes ['{', '}'] (.obj []) := Writes.obj .nil

/-! ### Texts that are none

An object is unreadable if one of its values is, whatever stands before and behind it.
-/

/-- No value can be read. -/
def Unreadable (text : List Char) : Prop := ∀ n, readValue n text = none

/-- No member can be read behind the comma. -/
def Breaks (text : List Char) : Prop := ∃ cs, text = ',' :: cs ∧ ∀ n, readMembers n cs = none

theorem readKey_plain {key : String} (hkey : PlainKey key) (value : List Char) :
    readKey ('"' :: (key.toList ++ '"' :: ':' :: value)) = some (key, value) := by
  have hstring := spells_plain hkey (':' :: value)
  rw [List.append_assoc, List.singleton_append] at hstring
  have hquote : expect '"' ('"' :: (key.toList ++ '"' :: ':' :: value)) =
      some (key.toList ++ '"' :: ':' :: value) := rfl
  rw [readKey, hquote, Option.bind_some, hstring, Option.bind_some]
  rfl

theorem Writes.read {text more rest : List Char} {v v' : Json} (h : Writes text v) (hmore : Stops more)
    {n : ℕ} (hread : readValue n (text ++ more) = some (v', rest)) : skipWs rest = skipWs more := by
  obtain ⟨rest', hread', hrest'⟩ := h (max n text.length) more (Nat.le_max_right _ _) hmore
  have hsame := (read_append .nil n (max n text.length) (Nat.le_max_left _ _)).1 _ v' rest hread
  rw [List.append_nil, List.append_nil, hread'] at hsame
  obtain ⟨-, rfl⟩ := Prod.mk.inj (Option.some.inj hsame)
  exact hrest'

theorem readMembers_unreadable {key : String} (hkey : PlainKey key) {value : List Char}
    (h : Unreadable value) (n : ℕ) :
    readMembers n ('"' :: (key.toList ++ '"' :: ':' :: value)) = none := by
  cases n with
  | zero => rfl
  | succ n =>
    rw [readMembers, readKey_plain hkey, Option.bind_some, h n]
    rfl

theorem readMembers_breaks {key : String} (hkey : PlainKey key) {value rest : List Char} {v : Json}
    (hv : Writes value v) (hrest : Breaks rest) (n : ℕ) :
    readMembers n ('"' :: (key.toList ++ '"' :: ':' :: (value ++ rest))) = none := by
  obtain ⟨cs, rfl, hnone⟩ := hrest
  cases n with
  | zero => rfl
  | succ n =>
    rw [readMembers, readKey_plain hkey, Option.bind_some]
    dsimp only
    cases hread : readValue n (value ++ ',' :: cs) with
    | none => rfl
    | some r =>
      have hskip : skipWs r.2 = ',' :: cs := hv.read (.cons (by decide)) hread
      have hcomma : expect ',' r.2 = some cs := expect_eq_some.mpr hskip
      rw [Option.bind_some, hcomma]
      dsimp only
      rw [hnone n]
      rfl

theorem Breaks.value {key : String} (hkey : PlainKey key) {value : List Char} (h : Unreadable value) :
    Breaks (',' :: '"' :: (key.toList ++ '"' :: ':' :: value)) :=
  ⟨_, rfl, readMembers_unreadable hkey h⟩

theorem Breaks.field {key : String} (hkey : PlainKey key) {value rest : List Char} {v : Json}
    (hv : Writes value v) (hrest : Breaks rest) :
    Breaks (',' :: '"' :: (key.toList ++ '"' :: ':' :: (value ++ rest))) :=
  ⟨_, rfl, readMembers_breaks hkey hv hrest⟩

theorem unreadable_members {cs : List Char} (hopen : expect '}' cs = none)
    (h : ∀ n, readMembers n cs = none) : Unreadable ('{' :: cs) := by
  intro n
  cases n with
  | zero => rfl
  | succ n =>
    have hskip : skipWs ('{' :: cs) = '{' :: cs := rfl
    rw [readValue, hskip]
    dsimp only
    rw [if_pos rfl, hopen]
    dsimp only
    rw [h n]
    rfl

theorem unreadable_object {key : String} (hkey : PlainKey key) {value rest : List Char} {v : Json}
    (hv : Writes value v) (hrest : Breaks rest) :
    Unreadable ('{' :: '"' :: (key.toList ++ '"' :: ':' :: (value ++ rest))) :=
  unreadable_members rfl (readMembers_breaks hkey hv hrest)

theorem unreadable_object_value {key : String} (hkey : PlainKey key) {value : List Char}
    (h : Unreadable value) : Unreadable ('{' :: '"' :: (key.toList ++ '"' :: ':' :: value)) :=
  unreadable_members rfl (readMembers_unreadable hkey h)

theorem Unreadable.parse {text : List Char} (h : Unreadable text) : parse text = none := by
  rw [Json.parse, h]
  rfl

theorem unreadable_nan (more : List Char) : Unreadable ('n' :: 'a' :: 'n' :: more) := by
  intro n
  cases n with
  | zero => rfl
  | succ n => rfl

theorem unreadable_inf (more : List Char) : Unreadable ('i' :: 'n' :: 'f' :: more) := by
  intro n
  cases n with
  | zero => rfl
  | succ n => rfl

theorem unreadable_sign {c : Char} (hc : c.isDigit = false) (more : List Char) :
    Unreadable ('-' :: c :: more) := by
  intro n
  cases n with
  | zero => rfl
  | succ n =>
    have hnumber : readNumber ('-' :: c :: more) = none := by
      have hsign : readSign false ('-' :: c :: more) = (['-'], c :: more) := rfl
      rw [readNumber, hsign]
      dsimp only
      rw [List.span_eq_takeWhile_dropWhile, List.takeWhile_cons_of_neg (by simp [hc])]
      rfl
    have hskip : skipWs ('-' :: c :: more) = '-' :: c :: more := rfl
    rw [readValue, hskip]
    dsimp only
    rw [if_neg (by decide), if_neg (by decide), if_neg (by decide), readScalar, if_neg (by decide),
      if_neg (by decide), if_neg (by decide), hnumber]
    rfl

end Json

end Souxmar.Lib
