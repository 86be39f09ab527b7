import Mathlib.Data.List.DropRight
import Souxmar.Lib.Json
import Souxmar.Lib.Regex

/-!
# YAML flow mappings on one line

A reader of flow mappings with plain and double-quoted scalars, by the productions of YAML 1.2, whose plain
scalars are resolved by its core schema. Single-quoted scalars, sequences, anchors, tags and explicit keys, whose
indicators stand for nothing here, are not read.
-/

namespace Souxmar.Lib.YamlFlow

/-- A value. A number is kept as it is spelled. -/
inductive Value
  | null
  | bool (b : Bool)
  | num (text : List Char)
  | str (text : List Char)
  | map (entries : List (Value × Value))

/-! ## The core schema -/

section

open Regex

def digit : Regex := char Char.isDigit

def optional (r : Regex) : Regex := alt r empty

def sign : Regex := optional (char fun c => c = '-' || c = '+')

def anyOf (words : List String) : Regex := words.foldr (fun word r => alt (lit word.toList) r) (char fun _ => false)

def nullSpellings : List String := ["null", "Null", "NULL", "~"]

def trueSpellings : List String := ["true", "True", "TRUE"]

def falseSpellings : List String := ["false", "False", "FALSE"]

/-- `[-+]? [0-9]+ | 0o [0-7]+ | 0x [0-9a-fA-F]+` -/
def intPattern : Regex :=
  alt (seq sign (plus digit))
    (alt (seq (lit ['0', 'o']) (plus (char fun c => '0' ≤ c && c ≤ '7')))
      (seq (lit ['0', 'x']) (plus (char fun c => (Json.hexVal c).isSome))))

/-- `[-+]? ( \. [0-9]+ | [0-9]+ ( \. [0-9]* )? ) ( [eE] [-+]? [0-9]+ )?`, the infinities, and what is no number. -/
def floatPattern : Regex :=
  alt (seq sign (seq
      (alt (seq (lit ['.']) (plus digit)) (seq (plus digit) (optional (seq (lit ['.']) (star digit)))))
      (optional (seq (char fun c => c = 'e' || c = 'E') (seq sign (plus digit))))))
    (alt (seq sign (anyOf [".inf", ".Inf", ".INF"])) (anyOf [".nan", ".NaN", ".NAN"]))

/-- The expression matches the whole text. -/
def Fits (r : Regex) (text : List Char) : Bool := (r.run text).any fun s => s.2 = []

theorem fits_iff {r : Regex} {text : List Char} : Fits r text = true ↔ text ∈ r.lang := by
  rw [Fits, List.any_eq_true]
  constructor
  · rintro ⟨⟨t, rest⟩, hmem, hrest⟩
    obtain ⟨rfl, ht⟩ := (mem_run r text t rest).mp hmem
    obtain rfl : rest = [] := of_decide_eq_true hrest
    rwa [List.append_nil]
  · intro h
    exact ⟨(text, []), (mem_run r text text []).mpr ⟨(List.append_nil text).symm, h⟩, decide_eq_true rfl⟩

/-- What a plain scalar is. -/
def resolve (text : List Char) : Value :=
  if text ∈ nullSpellings.map String.toList then .null
  else if text ∈ trueSpellings.map String.toList then .bool true
  else if text ∈ falseSpellings.map String.toList then .bool false
  else if Fits intPattern text || Fits floatPattern text then .num text
  else .str text

/-- The spellings of null and the booleans. -/
def wordSpellings : List (List Char) := (nullSpellings ++ trueSpellings ++ falseSpellings).map String.toList

theorem resolve_of_notMem {text : List Char} (h : text ∉ wordSpellings) :
    resolve text = if Fits intPattern text || Fits floatPattern text then .num text else .str text := by
  rw [wordSpellings, List.map_append, List.map_append, List.mem_append, List.mem_append, not_or, not_or] at h
  rw [resolve, if_neg h.1.1, if_neg h.1.2, if_neg h.2]

theorem resolve_str {text : List Char} (hword : text ∉ wordSpellings) (hint : Fits intPattern text = false)
    (hfloat : Fits floatPattern text = false) : resolve text = .str text := by
  rw [resolve_of_notMem hword, hint, hfloat]
  rfl

theorem resolve_of_colon {text : List Char} (h : ':' ∈ text) : resolve text = .str text := by
  have hword : text ∉ wordSpellings := by
    have hall : ∀ t ∈ wordSpellings, ':' ∉ t := by decide
    exact fun hmem => hall text hmem h
  have hint : Fits intPattern text = false := by
    rw [← Bool.not_eq_true, fits_iff]
    exact fun hfits => notMem_of_not_uses (by decide) hfits h
  have hfloat : Fits floatPattern text = false := by
    rw [← Bool.not_eq_true, fits_iff]
    exact fun hfits => notMem_of_not_uses (by decide) hfits h
  exact resolve_str hword hint hfloat

theorem resolve_digits {digits : List Char} (hne : digits ≠ []) (hdigits : ∀ c ∈ digits, c.isDigit = true)
    {text : List Char} (htext : text = digits ∨ text = '-' :: digits) : resolve text = .num text := by
  have hword : text ∉ wordSpellings := by
    have hall : ∀ t ∈ wordSpellings, ∀ c ∈ t, c.isDigit = false := by decide
    obtain ⟨c, cs, rfl⟩ := List.exists_cons_of_ne_nil hne
    intro hmem
    have hc : c ∈ text := by
      rcases htext with rfl | rfl
      · exact List.mem_cons_self
      · exact List.mem_cons_of_mem _ List.mem_cons_self
    have hdigit := hdigits c List.mem_cons_self
    rw [hall text hmem c hc] at hdigit
    cases hdigit
  have hint : Fits intPattern text = true := by
    rw [fits_iff]
    refine Or.inl (Language.mem_mul.mpr ?_)
    rcases htext with rfl | rfl
    · exact ⟨[], Or.inr rfl, text, mem_plus_char.mpr ⟨hne, hdigits⟩, rfl⟩
    · exact ⟨['-'], Or.inl ⟨'-', by decide, rfl⟩, digits, mem_plus_char.mpr ⟨hne, hdigits⟩, rfl⟩
  rw [resolve_of_notMem hword, hint]
  rfl

end

/-! ## Characters -/

def isWhite (c : Char) : Bool := c = ' ' || c = '\t'

/-- The printable characters but white space, line breaks and the byte order mark. -/
def isNsChar (c : Char) : Bool :=
  (0x21 ≤ c.toNat && c.toNat ≤ 0x7E) || c.toNat = 0x85 ||
    (0xA0 ≤ c.toNat && c.toNat ≤ 0xFFFD && c.toNat ≠ 0xFEFF) || 0x10000 ≤ c.toNat

def flowIndicators : List Char := [',', '[', ']', '{', '}']

def indicators : List Char :=
  ['-', '?', ':', '#', '&', '*', '!', '|', '>', '\'', '"', '%', '@', '`'] ++ flowIndicators

def plainSafe (c : Char) : Bool := isNsChar c && c ∉ flowIndicators

/-- What may stand between quotation marks: control characters other than tabs may not. -/
def isQuotable (c : Char) : Bool := c = '\t' || 0x20 ≤ c.toNat

/-! ## Scalars -/

def startsSafe : List Char → Bool
  | [] => false
  | c :: _ => plainSafe c

def startsPlain : List Char → Bool
  | [] => false
  | c :: cs => if c = '-' || c = '?' || c = ':' then startsSafe cs else isNsChar c && c ∉ indicators

/-- A plain scalar from here on, with the white space behind it. -/
def plainRest (spaced : Bool) : List Char → List Char × List Char
  | [] => ([], [])
  | c :: cs =>
    if isWhite c then
      let (text, rest) := plainRest true cs
      (c :: text, rest)
    else if (if c = ':' then startsSafe cs else plainSafe c && !(c = '#' && spaced)) then
      let (text, rest) := plainRest false cs
      (c :: text, rest)
    else ([], c :: cs)

def readPlain (cs : List Char) : List Char × List Char :=
  let (text, rest) := plainRest false cs
  (text.rdropWhile isWhite, rest)

/-- The escapes of one character. -/
def escapeOf (c : Char) : Option Char :=
  [('0', 0x00), ('a', 0x07), ('b', 0x08), ('t', 0x09), ('\t', 0x09), ('n', 0x0A), ('v', 0x0B), ('f', 0x0C),
    ('r', 0x0D), ('e', 0x1B), (' ', 0x20), ('"', 0x22), ('/', 0x2F), ('\\', 0x5C), ('N', 0x85), ('_', 0xA0),
    ('L', 0x2028), ('P', 0x2029)].lookup c |>.map Char.ofNat

def hexDigits (c : Char) : Option ℕ := [('x', 2), ('u', 4), ('U', 8)].lookup c

def hexValue (digits : List Char) : Option ℕ :=
  digits.foldlM (fun value c => (Json.hexVal c).map fun d => value * 16 + d) 0

/-- The character that an escape stands for, and how many characters behind its first one belong to it. -/
def unescape (c : Char) (cs : List Char) : Option (Char × ℕ) :=
  match hexDigits c with
  | none => (escapeOf c).map fun d => (d, 0)
  | some n =>
    if cs.length < n then none
    else (hexValue (cs.take n)).bind fun value =>
      if value.isValidChar then some (Char.ofNat value, n) else none

/-- A scalar behind its opening quotation mark, the first `skip` characters being part of an escape. -/
def readDouble : ℕ → List Char → Option (List Char × List Char)
  | _, [] => none
  | skip + 1, _ :: cs => readDouble skip cs
  | 0, c :: cs =>
    if c = '"' then some ([], cs)
    else if c = '\\' then
      match cs with
      | [] => none
      | e :: after => (unescape e after).bind fun d => (readDouble (d.2 + 1) cs).map fun r => (d.1 :: r.1, r.2)
    else if isQuotable c then (readDouble 0 cs).map fun r => (c :: r.1, r.2)
    else none

/-! ## Mappings -/

def skipWhite (cs : List Char) : List Char := cs.dropWhile isWhite

/-- The key of an entry, and whether it is quoted. -/
def readKey (cs : List Char) : Option (Value × Bool × List Char) :=
  match cs with
  | [] => none
  | c :: cs' =>
    if c = '"' then (readDouble 0 cs').map fun r => (.str r.1, true, r.2)
    else if startsPlain cs then
      let (text, rest) := readPlain cs
      some (resolve text, false, rest)
    else none

mutual

/-- A value: where there is none, null. -/
def readNode : ℕ → List Char → Option (Value × List Char)
  | 0, _ => none
  | _ + 1, [] => some (.null, [])
  | n + 1, c :: cs =>
    if c = '{' then (readEntries n (skipWhite cs)).map fun r => (.map r.1, r.2)
    else if c = '"' then (readDouble 0 cs).map fun r => (.str r.1, r.2)
    else if startsPlain (c :: cs) then
      let (text, rest) := readPlain (c :: cs)
      some (resolve text, rest)
    else some (.null, c :: cs)

/-- The entries of a mapping, up to its closing brace. A value is separated from a key that is not quoted. -/
def readEntries : ℕ → List Char → Option (List (Value × Value) × List Char)
  | 0, _ => none
  | n + 1, cs =>
    if cs.head? = some '}' then some ([], cs.tail)
    else
      (readKey cs).bind fun key =>
        let behind := skipWhite key.2.2
        let value : Option (Value × List Char) :=
          if behind.head? = some ':' && (key.2.1 || !startsSafe behind.tail) then
            if key.2.1 || (behind.tail.head?.any isWhite) then readNode n (skipWhite behind.tail)
            else some (.null, behind.tail)
          else some (.null, behind)
        value.bind fun r =>
          match skipWhite r.2 with
          | [] => none
          | c :: cs' =>
            if c = ',' then (readEntries n (skipWhite cs')).map fun rs => ((key.1, r.1) :: rs.1, rs.2)
            else if c = '}' then some ([(key.1, r.1)], cs')
            else none

end

/-- A line that is a flow mapping. -/
def readLine (line : List Char) : Option Value :=
  (readNode (line.length + 1) line).bind fun r => if skipWhite r.2 = [] then some r.1 else none

/-! ## Plain words -/

/-- The characters of a word: none of them is special inside of a plain scalar, but a colon at its end. -/
def isWordChar (c : Char) : Bool := plainSafe c && (c ∉ indicators || c = '-' || c = ':')

/-- A word that is a plain scalar. -/
def isPlainWord (text : List Char) : Bool :=
  !text.isEmpty && text.all isWordChar && text ≠ ['-'] && text.getLast? ≠ some ':'

theorem isNsChar_not_white {c : Char} (h : isNsChar c = true) : isWhite c = false := by
  rw [← Bool.not_eq_true, isWhite, Bool.or_eq_true, decide_eq_true_eq, decide_eq_true_eq]
  rintro (rfl | rfl)
  · exact absurd h (by decide)
  · exact absurd h (by decide)

/-- What a word's characters are, as the reader asks for it. -/
structure WordChar (c : Char) : Prop where
  white : isWhite c = false
  safe : plainSafe c = true
  hash : c ≠ '#'
  brace : c ≠ '{'
  quote : c ≠ '"'
  close : c ≠ '}'
  question : c ≠ '?'
  start : c ≠ '-' → c ≠ ':' → (isNsChar c && c ∉ indicators) = true

theorem wordChar {c : Char} (h : isWordChar c = true) : WordChar c := by
  rw [isWordChar, Bool.and_eq_true] at h
  obtain ⟨hsafe, hkind⟩ := h
  have hns : isNsChar c = true := (Bool.and_eq_true _ _ ▸ hsafe).1
  have hkind' : c ∉ indicators ∨ c = '-' ∨ c = ':' := by
    simpa only [Bool.or_eq_true, decide_eq_true_eq, or_assoc] using hkind
  have hne : ∀ d ∈ indicators, d ≠ '-' → d ≠ ':' → c ≠ d := by
    rintro d hd hdash hcolon rfl
    rcases hkind' with h | h | h
    · exact h hd
    · exact hdash h
    · exact hcolon h
  refine ⟨isNsChar_not_white hns, hsafe, hne _ (by decide) (by decide) (by decide),
    hne _ (by decide) (by decide) (by decide), hne _ (by decide) (by decide) (by decide),
    hne _ (by decide) (by decide) (by decide), hne _ (by decide) (by decide) (by decide), fun hdash hcolon => ?_⟩
  rw [hns, Bool.true_and, decide_eq_true_eq]
  exact hkind'.resolve_right fun h => h.elim hdash hcolon

/-- Where a plain scalar ends. -/
def Stops (rest : List Char) : Prop := ∀ spaced, plainRest spaced rest = ([], rest)

/-- Where a value ends. -/
def EndsValue (rest : List Char) : Prop := ∃ c cs, rest = c :: cs ∧ (c = ',' ∨ c = '}')

theorem EndsValue.stops {rest : List Char} (h : EndsValue rest) : Stops rest := by
  obtain ⟨c, cs, rfl, rfl | rfl⟩ := h
  · intro spaced
    rfl
  · intro spaced
    rfl

theorem EndsValue.skipWhite {rest : List Char} (h : EndsValue rest) : skipWhite rest = rest := by
  obtain ⟨c, cs, rfl, rfl | rfl⟩ := h
  · rfl
  · rfl

theorem EndsValue.not_safe {rest : List Char} (h : EndsValue rest) : startsSafe rest = false := by
  obtain ⟨c, cs, rfl, rfl | rfl⟩ := h
  · rfl
  · rfl

theorem plainRest_cons {c : Char} (hc : WordChar c) {cs : List Char} (hcolon : c = ':' → startsSafe cs = true)
    (spaced : Bool) : plainRest spaced (c :: cs) = (c :: (plainRest false cs).1, (plainRest false cs).2) := by
  have hgo : (if c = ':' then startsSafe cs else plainSafe c && !(c = '#' && spaced)) = true := by
    split_ifs with h
    · exact hcolon h
    · rw [hc.safe, decide_eq_false hc.hash]
      rfl
  rw [plainRest, if_neg (by rw [hc.white]; exact Bool.false_ne_true), if_pos hgo]

theorem plainRest_word {text : List Char} (hword : ∀ c ∈ text, isWordChar c = true)
    (hlast : text.getLast? ≠ some ':') {rest : List Char} (hrest : Stops rest) (spaced : Bool) :
    plainRest spaced (text ++ rest) = (text, rest) := by
  induction text generalizing spaced with
  | nil => exact hrest spaced
  | cons c cs ih =>
    have hc := wordChar (hword c List.mem_cons_self)
    have hcs : ∀ d ∈ cs, isWordChar d = true := fun d hd => hword d (List.mem_cons_of_mem _ hd)
    cases cs with
    | nil =>
      have hcolon : c ≠ ':' := fun h => hlast (congrArg some h)
      rw [List.singleton_append, plainRest_cons hc (fun h => absurd h hcolon), hrest false]
    | cons d cs =>
      rw [List.getLast?_cons_cons] at hlast
      have hsafe : startsSafe (d :: cs ++ rest) = true := (wordChar (hcs d List.mem_cons_self)).safe
      rw [List.cons_append, plainRest_cons hc (fun _ => hsafe), ih hcs hlast false]

theorem plainRest_colon {text : List Char} (hword : ∀ c ∈ text, isWordChar c = true) {rest : List Char}
    (hrest : startsSafe rest = false) (spaced : Bool) :
    plainRest spaced (text ++ ':' :: rest) = (text, ':' :: rest) := by
  induction text generalizing spaced with
  | nil =>
    rw [List.nil_append, plainRest, if_neg (by decide), if_pos rfl, if_neg (by rw [hrest]; exact Bool.false_ne_true)]
  | cons c cs ih =>
    have hc := wordChar (hword c List.mem_cons_self)
    have hcs : ∀ d ∈ cs, isWordChar d = true := fun d hd => hword d (List.mem_cons_of_mem _ hd)
    have hsafe : startsSafe (cs ++ ':' :: rest) = true := by
      cases cs with
      | nil => rfl
      | cons d cs => exact (wordChar (hcs d List.mem_cons_self)).safe
    rw [List.cons_append, plainRest_cons hc (fun _ => hsafe), ih hcs false]

theorem rdropWhile_word {text : List Char} (hword : ∀ c ∈ text, isWordChar c = true) :
    text.rdropWhile isWhite = text := by
  rw [List.rdropWhile_eq_self_iff]
  intro hne h
  rw [(wordChar (hword _ (List.getLast_mem hne))).white] at h
  cases h

/-- The text of a value: it begins with neither white space nor the end of the value. -/
def BeginsValue (text : List Char) : Prop := ∃ c cs, text = c :: cs ∧ isWhite c = false

/-- The text is read as this value where one may stand. -/
def Reads (text : List Char) (v : Value) : Prop :=
  ∀ n rest, text.length < n → EndsValue rest → readNode n (text ++ rest) = some (v, rest)

/-- Whatever is read of the text, it is not the end of a value that follows. -/
def Breaks (text : List Char) : Prop :=
  ∀ n rest v rest', EndsValue rest → readNode n (text ++ rest) = some (v, rest') → ¬EndsValue (skipWhite rest')

/-- The text is read as the value, or it breaks the mapping. -/
def Outcome (text : List Char) : Option Value → Prop
  | some v => Reads text v
  | none => Breaks text

theorem startsPlain_word {c : Char} {cs : List Char} (hc : isWordChar c = true)
    (hsafe : c = '-' ∨ c = ':' → startsSafe cs = true) : startsPlain (c :: cs) = true := by
  have hc' := wordChar hc
  have hcond : (decide (c = '-') || decide (c = '?') || decide (c = ':')) = true ↔ c = '-' ∨ c = ':' := by
    simp [hc'.question]
  rw [startsPlain]
  split_ifs with h
  · exact hsafe (hcond.mp h)
  · have hnot := mt hcond.mpr h
    exact hc'.start (fun hd => hnot (Or.inl hd)) (fun hd => hnot (Or.inr hd))

theorem readNode_plain {n : ℕ} {c : Char} {cs : List Char} (hc : isWordChar c = true)
    (hstart : startsPlain (c :: cs) = true) :
    readNode (n + 1) (c :: cs) = some (resolve (readPlain (c :: cs)).1, (readPlain (c :: cs)).2) := by
  have hc' := wordChar hc
  rw [readNode, if_neg hc'.brace, if_neg hc'.quote, if_pos hstart]

theorem outcome_word {text : List Char} (hne : text ≠ []) (hword : ∀ c ∈ text, isWordChar c = true) :
    Outcome text (if isPlainWord text then some (resolve text) else none) := by
  have hempty : text.isEmpty = false := List.isEmpty_eq_false_iff.mpr hne
  have hall : text.all isWordChar = true := List.all_eq_true.mpr hword
  by_cases hplain : isPlainWord text = true
  · rw [if_pos hplain]
    simp only [isPlainWord, hempty, hall, Bool.not_false, Bool.true_and, Bool.and_eq_true, decide_eq_true_eq] at hplain
    obtain ⟨hdash, hlast⟩ := hplain
    intro n rest hn hrest
    cases n with
    | zero => exact absurd hn (Nat.not_lt_zero _)
    | succ n =>
      cases text with
      | nil => exact absurd rfl hne
      | cons c cs =>
        have hstart : startsPlain (c :: (cs ++ rest)) = true := by
          refine startsPlain_word (hword c List.mem_cons_self) fun h => ?_
          cases cs with
          | nil =>
            rcases h with rfl | rfl
            · exact absurd rfl hdash
            · exact absurd rfl hlast
          | cons d cs => exact (wordChar (hword d (List.mem_cons_of_mem _ List.mem_cons_self))).safe
        have hread : readPlain (c :: (cs ++ rest)) = (c :: cs, rest) := by
          rw [readPlain, ← List.cons_append, plainRest_word hword hlast hrest.stops]
          exact congrArg (fun t => (t, rest)) (rdropWhile_word hword)
        rw [List.cons_append, readNode_plain (hword c List.mem_cons_self) hstart, hread]
  · rw [if_neg hplain]
    simp only [isPlainWord, hempty, hall, Bool.not_false, Bool.true_and, Bool.and_eq_true, decide_eq_true_eq,
      not_and_or, not_not] at hplain
    intro n rest v rest' hrest hread
    have hstuck : ∀ {c : Char} {cs : List Char}, isWhite c = false → c ≠ ',' → c ≠ '}' →
        ¬EndsValue (skipWhite (c :: cs)) := by
      intro c cs hwhite hcomma hbrace hends
      rw [skipWhite, List.dropWhile_cons_of_neg (by rw [hwhite]; exact Bool.false_ne_true)] at hends
      obtain ⟨d, ds, hsame, hd⟩ := hends
      obtain ⟨rfl, -⟩ := List.cons.inj hsame
      exact hd.elim hcomma hbrace
    -- an indicator that begins no plain scalar is left where it stands
    have hleft : ∀ {c : Char}, c = '-' ∨ c = ':' → readNode n (c :: rest) = some (v, rest') →
        ¬EndsValue (skipWhite rest') := by
      intro c hc hread
      cases n with
      | zero => cases hread
      | succ n =>
        have hstart : startsPlain (c :: rest) = false := by
          rw [startsPlain, hrest.not_safe]
          rcases hc with rfl | rfl
          · rfl
          · rfl
        have hnode : readNode (n + 1) (c :: rest) = some (.null, c :: rest) := by
          rw [readNode, if_neg (by rcases hc with rfl | rfl <;> decide),
            if_neg (by rcases hc with rfl | rfl <;> decide), if_neg (by rw [hstart]; exact Bool.false_ne_true)]
        rw [hnode] at hread
        obtain ⟨-, rfl⟩ := Prod.mk.inj (Option.some.inj hread)
        rcases hc with rfl | rfl
        · exact hstuck (by decide) (by decide) (by decide)
        · exact hstuck (by decide) (by decide) (by decide)
    rcases hplain with rfl | hlast
    · exact hleft (Or.inl rfl) hread
    · obtain ⟨init, rfl⟩ := List.getLast?_eq_some_iff.mp hlast
      have hinit : ∀ c ∈ init, isWordChar c = true := fun c hc => hword c (List.mem_append_left _ hc)
      cases init with
      | nil => exact hleft (Or.inr rfl) hread
      | cons c cs =>
        cases n with
        | zero => cases hread
        | succ n =>
          have htext : c :: cs ++ [':'] ++ rest = c :: (cs ++ ':' :: rest) := by
            simp only [List.cons_append, List.append_assoc, List.nil_append]
          have hsafe : startsSafe (cs ++ ':' :: rest) = true := by
            cases cs with
            | nil => rfl
            | cons d cs => exact (wordChar (hinit d (List.mem_cons_of_mem _ List.mem_cons_self))).safe
          rw [htext, readNode_plain (hinit c List.mem_cons_self)
            (startsPlain_word (hinit c List.mem_cons_self) fun _ => hsafe), readPlain, ← List.cons_append,
            plainRest_colon hinit hrest.not_safe] at hread
          obtain ⟨-, rfl⟩ := Prod.mk.inj (Option.some.inj hread)
          exact hstuck (by decide) (by decide) (by decide)

/-! ## Quoted scalars -/

@[simp] theorem readDouble_quote (cs : List Char) : readDouble 0 ('"' :: cs) = some ([], cs) := by
  rw [readDouble.eq_def]
  exact if_pos rfl

theorem readDouble_escape {e d : Char} (hhex : hexDigits e = none) (he : escapeOf e = some d) (cs : List Char) :
    readDouble 0 ('\\' :: e :: cs) = (readDouble 0 cs).map fun r => (d :: r.1, r.2) := by
  rw [readDouble.eq_def]
  dsimp only
  rw [if_neg (by decide), if_pos rfl, unescape, hhex]
  dsimp only
  rw [he, Option.map_some, Option.bind_some]
  rfl

theorem readDouble_plain {c : Char} (hquote : c ≠ '"') (hslash : c ≠ '\\') (cs : List Char) :
    readDouble 0 (c :: cs) = if isQuotable c then (readDouble 0 cs).map fun r => (c :: r.1, r.2) else none := by
  rw [readDouble.eq_def]
  dsimp only
  rw [if_neg hquote, if_neg hslash]

theorem outcome_quoted {body : List Char} {v : Option (List Char)}
    (h : ∀ rest, readDouble 0 (body ++ '"' :: rest) = v.map fun text => (text, rest)) :
    Outcome ('"' :: (body ++ ['"'])) (v.map .str) := by
  have hnode : ∀ n rest, readNode (n + 1) ('"' :: (body ++ ['"']) ++ rest) = v.map fun text => (.str text, rest) := by
    intro n rest
    have htext : '"' :: (body ++ ['"']) ++ rest = '"' :: (body ++ '"' :: rest) := by
      simp only [List.cons_append, List.append_assoc, List.nil_append]
    rw [htext, readNode, if_neg (by decide), if_pos rfl, h rest, Option.map_map]
    rfl
  cases v with
  | none =>
    intro n rest v' rest' _ hread
    cases n with
    | zero => cases hread
    | succ n =>
      rw [hnode] at hread
      cases hread
  | some text =>
    intro n rest hn _
    cases n with
    | zero => exact absurd hn (Nat.not_lt_zero _)
    | succ n => exact hnode n rest

/-! ## Fields -/

/-- A field of a mapping: its key, the text of its value, and what is read there. -/
structure Field where
  key : List Char
  value : List Char
  outcome : Option Value

def Field.text (f : Field) : List Char := f.key ++ ':' :: ' ' :: f.value

/-- The fields behind the first one. -/
def moreText (fields : List Field) : List Char := fields.flatMap fun f => ',' :: ' ' :: f.text

/-- A mapping on one line. -/
def mappingText (f : Field) (fields : List Field) : List Char := '{' :: (f.text ++ moreText fields ++ ['}'])

/-- There is no line break in the text. -/
def Unbroken (text : List Char) : Prop := ∀ c ∈ text, c ≠ '\n' ∧ c ≠ '\r'

theorem unbroken_word {text : List Char} (hword : ∀ c ∈ text, isWordChar c = true) : Unbroken text := by
  intro c hc
  have h := hword c hc
  refine ⟨?_, ?_⟩
  · rintro rfl
    exact absurd h (by decide)
  · rintro rfl
    exact absurd h (by decide)

structure Field.WellFormed (f : Field) : Prop where
  key : isPlainWord f.key = true
  name : resolve f.key = .str f.key
  value : BeginsValue f.value
  outcome : Outcome f.value f.outcome
  line : Unbroken f.value

/-- The entries, if every field is read. -/
def entries : List Field → Option (List (Value × Value))
  | [] => some []
  | f :: fields => f.outcome.bind fun v => (entries fields).map fun es => (.str f.key, v) :: es

theorem entries_eq_some_iff {fields : List Field} {es : List (Value × Value)} : entries fields = some es ↔
    List.Forall₂ (fun f e => e.1 = .str f.key ∧ f.outcome = some e.2) fields es := by
  induction fields generalizing es with
  | nil =>
    rw [entries, List.forall₂_nil_left_iff, Option.some.injEq, eq_comm]
  | cons f fields ih =>
    rw [entries, Option.bind_eq_some_iff, List.forall₂_cons_left_iff]
    simp only [Option.map_eq_some_iff, ih]
    constructor
    · rintro ⟨v, hv, es', hes', rfl⟩
      exact ⟨(.str f.key, v), es', ⟨rfl, hv⟩, hes', rfl⟩
    · rintro ⟨e, es', ⟨hkey, hv⟩, hes', rfl⟩
      exact ⟨e.2, hv, es', hes', by rw [← hkey]⟩

theorem readKey_word {key : List Char} (hkey : isPlainWord key = true) (hname : resolve key = .str key)
    (cs : List Char) : readKey (key ++ ':' :: ' ' :: cs) = some (.str key, false, ':' :: ' ' :: cs) := by
  simp only [isPlainWord, Bool.and_eq_true, Bool.not_eq_true', List.all_eq_true, decide_eq_true_eq] at hkey
  obtain ⟨⟨⟨hne, hword⟩, hdash⟩, hlast⟩ := hkey
  have hstops : Stops (':' :: ' ' :: cs) := fun spaced => rfl
  cases key with
  | nil => cases hne
  | cons c key =>
    have hc := wordChar (hword c List.mem_cons_self)
    have hsafe : c = '-' ∨ c = ':' → startsSafe (key ++ ':' :: ' ' :: cs) = true := by
      intro h
      cases key with
      | nil => rfl
      | cons d key => exact (wordChar (hword d (List.mem_cons_of_mem _ List.mem_cons_self))).safe
    have hread : readPlain (c :: (key ++ ':' :: ' ' :: cs)) = (c :: key, ':' :: ' ' :: cs) := by
      rw [readPlain, ← List.cons_append, plainRest_word hword hlast hstops]
      exact congrArg (fun t => (t, ':' :: ' ' :: cs)) (rdropWhile_word hword)
    rw [List.cons_append, readKey]
    dsimp only
    rw [if_neg hc.quote, if_pos (startsPlain_word (hword c List.mem_cons_self) hsafe), hread]
    dsimp only
    rw [hname]

theorem head_word {key : List Char} (hkey : isPlainWord key = true) (cs : List Char) :
    (key ++ cs).head? ≠ some '}' := by
  simp only [isPlainWord, Bool.and_eq_true, Bool.not_eq_true', List.all_eq_true] at hkey
  cases key with
  | nil => exact absurd hkey.1.1.1 (by decide)
  | cons c key => exact fun h => (wordChar (hkey.1.1.2 c List.mem_cons_self)).close (Option.some.inj h)

theorem readEntries_field {f : Field} (h : f.WellFormed) {n : ℕ} (hn : f.value.length < n) {c : Char}
    (hc : c = ',' ∨ c = '}') (cs : List Char) :
    readEntries (n + 1) (f.text ++ c :: cs) = f.outcome.bind fun v =>
      if c = ',' then (readEntries n (skipWhite cs)).map fun rs => ((.str f.key, v) :: rs.1, rs.2)
      else some ([(.str f.key, v)], cs) := by
  have hends : EndsValue (c :: cs) := ⟨c, cs, rfl, hc⟩
  have htext : f.text ++ c :: cs = f.key ++ ':' :: ' ' :: (f.value ++ c :: cs) := by
    simp only [Field.text, List.append_assoc, List.cons_append]
  obtain ⟨d, ds, hvalue, hd⟩ := h.value
  have hskip : skipWhite (':' :: ' ' :: (f.value ++ c :: cs)) = ':' :: ' ' :: (f.value ++ c :: cs) := rfl
  have hskip' : skipWhite (' ' :: (f.value ++ c :: cs)) = f.value ++ c :: cs := by
    rw [hvalue, skipWhite, List.dropWhile_cons_of_pos (by decide), List.cons_append,
      List.dropWhile_cons_of_neg (by rw [hd]; exact Bool.false_ne_true)]
  rw [htext, readEntries, if_neg (head_word h.key _), readKey_word h.key h.name, Option.bind_some]
  dsimp only
  rw [hskip]
  simp only [List.head?_cons, List.tail_cons, decide_true, Bool.true_and, Bool.false_or, Option.any_some]
  rw [if_pos (by rfl), if_pos (by rfl), hskip']
  have hout := h.outcome
  cases houtcome : f.outcome with
  | none =>
    rw [houtcome] at hout
    cases hread : readNode n (f.value ++ c :: cs) with
    | none => rfl
    | some r =>
      have hbreaks := hout n (c :: cs) r.1 r.2 hends hread
      rw [Option.bind_some, Option.bind_none]
      cases hrest : skipWhite r.2 with
      | nil => rfl
      | cons e es =>
        rw [hrest] at hbreaks
        have hcomma : e ≠ ',' := fun h => hbreaks ⟨e, es, rfl, Or.inl h⟩
        have hbrace : e ≠ '}' := fun h => hbreaks ⟨e, es, rfl, Or.inr h⟩
        dsimp only
        rw [if_neg hcomma, if_neg hbrace]
  | some v =>
    rw [houtcome] at hout
    rw [hout n (c :: cs) hn hends, Option.bind_some, Option.bind_some]
    dsimp only
    rw [hends.skipWhite]
    dsimp only
    rcases hc with rfl | rfl
    · rfl
    · rfl

theorem skipWhite_text {f : Field} (h : f.WellFormed) (cs : List Char) :
    skipWhite (f.text ++ cs) = f.text ++ cs := by
  have hkey := h.key
  simp only [isPlainWord, Bool.and_eq_true, Bool.not_eq_true', List.all_eq_true] at hkey
  rw [Field.text]
  cases hk : f.key with
  | nil =>
    rw [hk] at hkey
    exact absurd hkey.1.1.1 (by decide)
  | cons d ds =>
    rw [hk] at hkey
    have hd := (wordChar (hkey.1.1.2 d List.mem_cons_self)).white
    simp only [List.cons_append]
    rw [skipWhite, List.dropWhile_cons_of_neg (by rw [hd]; exact Bool.false_ne_true)]

theorem readEntries_fields {f : Field} {fields : List Field} (h : ∀ g ∈ f :: fields, g.WellFormed) {n : ℕ}
    (hn : (f.text ++ moreText fields).length < n) (rest : List Char) :
    readEntries n (f.text ++ moreText fields ++ '}' :: rest) =
      (entries (f :: fields)).map fun es => (es, rest) := by
  induction fields generalizing f n with
  | nil =>
    cases n with
    | zero => exact absurd hn (Nat.not_lt_zero _)
    | succ n =>
      have hvalue : f.value.length < n := by
        simp only [Field.text, List.length_append, List.length_cons] at hn
        omega
      rw [moreText, List.flatMap_nil, List.append_nil,
        readEntries_field (h f List.mem_cons_self) hvalue (Or.inr rfl), entries, entries]
      cases f.outcome with
      | none => rfl
      | some v => rfl
  | cons g fields ih =>
    cases n with
    | zero => exact absurd hn (Nat.not_lt_zero _)
    | succ n =>
      have hmore : moreText (g :: fields) = ',' :: ' ' :: (g.text ++ moreText fields) := rfl
      rw [hmore] at hn ⊢
      have hvalue : f.value.length < n := by
        simp only [Field.text, List.length_append, List.length_cons] at hn
        omega
      have hrest : (g.text ++ moreText fields).length < n := by
        simp only [Field.text, List.length_append, List.length_cons] at hn ⊢
        omega
      have hg := h g (List.mem_cons_of_mem _ List.mem_cons_self)
      have hskip : skipWhite (' ' :: (g.text ++ moreText fields ++ '}' :: rest)) =
          g.text ++ moreText fields ++ '}' :: rest := by
        rw [List.append_assoc]
        exact skipWhite_text hg _
      have htext : f.text ++ ',' :: ' ' :: (g.text ++ moreText fields) ++ '}' :: rest =
          f.text ++ ',' :: (' ' :: (g.text ++ moreText fields ++ '}' :: rest)) := by
        simp only [List.append_assoc, List.cons_append]
      rw [htext, readEntries_field (h f List.mem_cons_self) hvalue (Or.inl rfl), hskip,
        ih (fun e he => h e (List.mem_cons_of_mem _ he)) hrest, entries.eq_2 f]
      cases f.outcome with
      | none => rfl
      | some v =>
        rw [Option.bind_some, Option.bind_some, if_pos rfl, Option.map_map, Option.map_map]
        rfl

theorem readNode_mapping {f : Field} {fields : List Field} (h : ∀ g ∈ f :: fields, g.WellFormed) {n : ℕ}
    (hn : (mappingText f fields).length ≤ n) (rest : List Char) :
    readNode n (mappingText f fields ++ rest) = (entries (f :: fields)).map fun es => (.map es, rest) := by
  have htext : mappingText f fields ++ rest = '{' :: (f.text ++ moreText fields ++ '}' :: rest) := by
    simp only [mappingText, List.cons_append, List.append_assoc, List.nil_append]
  have hlength : (mappingText f fields).length = (f.text ++ moreText fields).length + 2 := by
    simp only [mappingText, List.length_cons, List.length_append, List.length_nil]
  cases n with
  | zero => omega
  | succ n =>
    have hfuel : (f.text ++ moreText fields).length < n := by omega
    have hskip : skipWhite (f.text ++ moreText fields ++ '}' :: rest) = f.text ++ moreText fields ++ '}' :: rest := by
      rw [List.append_assoc]
      exact skipWhite_text (h f List.mem_cons_self) _
    rw [htext, readNode, if_pos rfl, hskip, readEntries_fields h hfuel rest, Option.map_map]
    rfl

theorem moreText_append (fields more : List Field) : moreText (fields ++ more) = moreText fields ++ moreText more :=
  List.flatMap_append

/-- A mapping is on one line. -/
theorem unbroken_mapping {f : Field} {fields : List Field} (h : ∀ g ∈ f :: fields, g.WellFormed) :
    Unbroken (mappingText f fields) := by
  have htext : ∀ g ∈ f :: fields, Unbroken g.text := by
    intro g hg c hc
    have hkey := (h g hg).key
    simp only [isPlainWord, Bool.and_eq_true, List.all_eq_true] at hkey
    have hc' : c ∈ g.key ∨ c = ':' ∨ c = ' ' ∨ c ∈ g.value := by
      simpa only [Field.text, List.mem_append, List.mem_cons] using hc
    rcases hc' with hc | rfl | rfl | hc
    · exact unbroken_word hkey.1.1.2 c hc
    · decide
    · decide
    · exact (h g hg).line c hc
  intro c hc
  have hc' : c = '{' ∨ c ∈ f.text ∨ (∃ g ∈ fields, c = ',' ∨ c = ' ' ∨ c ∈ g.text) ∨ c = '}' := by
    simpa only [mappingText, moreText, List.mem_cons, List.mem_append, List.mem_flatMap, List.not_mem_nil, or_false,
      or_assoc] using hc
  rcases hc' with rfl | hc | ⟨g, hg, rfl | rfl | hc⟩ | rfl
  · decide
  · exact htext f List.mem_cons_self c hc
  · decide
  · decide
  · exact htext g (List.mem_cons_of_mem _ hg) c hc
  · decide

theorem reads_mapping {f : Field} {fields : List Field} (h : ∀ g ∈ f :: fields, g.WellFormed)
    {es : List (Value × Value)} (hes : entries (f :: fields) = some es) : Reads (mappingText f fields) (.map es) := by
  intro n rest hn _
  rw [readNode_mapping h hn.le, hes]
  rfl

theorem readLine_mapping {f : Field} {fields : List Field} (h : ∀ g ∈ f :: fields, g.WellFormed) :
    readLine (mappingText f fields) = (entries (f :: fields)).map .map := by
  have hread := readNode_mapping h (Nat.le_succ (mappingText f fields).length) []
  rw [List.append_nil] at hread
  rw [readLine, hread]
  cases entries (f :: fields) with
  | none => rfl
  | some es => rfl

end Souxmar.Lib.YamlFlow
