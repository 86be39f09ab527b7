import Souxmar.Lib.Search

/-!
# PVD files

`pvd.cpp`: the parser looks for `<DataSet` in the text, takes everything up to the next `>` for the tag, and looks for
`timestep=` and `file=` in it. `findAttribute_eq_some` says where an attribute is found; `parse_document` follows the
parser through a document that is made of elements.
-/

namespace Souxmar.Core.Pvd

open Souxmar.Lib.Search

structure Entry (R : Type) where
  timestep : R
  file : List Char
deriving DecidableEq, Repr

/-- No error is the empty text. -/
structure ParseResult (R : Type) where
  entries : List (Entry R) := []
  error : List Char := []
deriving DecidableEq, Repr

def isBlank (c : Char) : Bool := c = ' ' || c = '\t' || c = '\n' || c = '\r'

/-- What may stand in front of the name of an attribute. -/
def startsName (c : Char) : Bool := isBlank c || c = '<' || c = '/'

def isQuote (c : Char) : Bool := c = '"' || c = '\''

def substr (s : List Char) (pos count : ℕ) : List Char := (s.drop pos).take count

def findAttributeFrom (tag name : List Char) : ℕ → ℕ → Option (List Char)
  | 0, _ => none
  | fuel + 1, pos =>
    if pos < tag.length then
      match find tag (name ++ ['=']) pos with
      | none => none
      | some hit =>
        if 0 < hit ∧ startsName (tag.getD (hit - 1) ' ') = false then
          findAttributeFrom tag name fuel (hit + (name.length + 1))
        else
          let eqPos := hit + name.length
          if eqPos ≥ tag.length ∨ tag.getD eqPos ' ' ≠ '=' then findAttributeFrom tag name fuel (hit + (name.length + 1))
          else if eqPos + 1 ≥ tag.length then none
          else
            let quote := tag.getD (eqPos + 1) ' '
            if isQuote quote = false then findAttributeFrom tag name fuel (eqPos + 1)
            else
              match find tag [quote] (eqPos + 2) with
              | none => none
              | some valueEnd => some (substr tag (eqPos + 2) (valueEnd - (eqPos + 2)))
    else none

/-- Every round begins behind the one before. -/
def findAttribute (tag name : List Char) : Option (List Char) := findAttributeFrom tag name (tag.length + 1) 0

section

/-! `strtod` gives the number that a text begins with and how many characters it took, if it took any. -/

variable {R : Type} (strtod : List Char → Option (R × ℕ))

/-- `c_str` ends at the first NUL. -/
def cString (s : List Char) : List Char := s.takeWhile fun c => decide (c ≠ '\x00')

def parseDouble (s : List Char) : Option R := (strtod (cString s)).map Prod.fst

/-- What follows `<DataSet` in a tag. -/
def endsName (c : Char) : Bool := isBlank c || c = '/' || c = '>'

def openWord : List Char := ['<', 'D', 'a', 't', 'a', 'S', 'e', 't']

/-- What a tag adds to the result, or the error that ends the parse. -/
def readTag (tag : List Char) (result : ParseResult R) : Except (ParseResult R) (ParseResult R) :=
  match findAttribute tag "timestep".toList, findAttribute tag "file".toList with
  | some ts, some fp =>
    match parseDouble strtod ts with
    | none => .error { result with error := "PVD: timestep value is not a number: '".toList ++ ts ++ ['\''] }
    | some t => .ok { result with entries := result.entries ++ [⟨t, fp⟩] }
  | _, _ => .ok result

def parseFrom (xml : List Char) : ℕ → ℕ → ParseResult R → ParseResult R
  | 0, _, result => result
  | fuel + 1, pos, result =>
    if pos < xml.length then
      match find xml openWord pos with
      | none => result
      | some start =>
        let after := start + 8
        if after ≥ xml.length then result
        else if endsName (xml.getD after ' ') = false then parseFrom xml fuel (start + 1) result
        else
          match find xml ['>'] after with
          | none => { result with error := "PVD: unterminated <DataSet> tag".toList }
          | some close =>
            match readTag strtod (substr xml start (close - start + 1)) result with
            | .error failed => failed
            | .ok result => parseFrom xml fuel (close + 1) result
    else result

/-- Every round begins behind the one before. -/
def parse (xml : List Char) : ParseResult R := parseFrom strtod xml (xml.length + 1) 0 {}

end

/-! ## Where an attribute is found -/

/-- The name, an equals sign and a quote, at the start of the tag or where a name may start. -/
def Opens (tag name : List Char) (i : ℕ) : Prop :=
  (0 < i → startsName (tag.getD (i - 1) ' ') = true) ∧
    ∃ quote, isQuote quote = true ∧ name ++ ['=', quote] <+: tag.drop i

/-- The first such place, and the text up to the same quote. -/
def Leftmost (tag name value : List Char) : Prop :=
  ∃ i quote rest, Opens tag name i ∧ tag.drop i = name ++ '=' :: quote :: (value ++ quote :: rest) ∧ quote ∉ value ∧
    ∀ j < i, ¬Opens tag name j

theorem Opens.hit {tag name : List Char} {i : ℕ} (h : Opens tag name i) : name ++ ['='] <+: tag.drop i := by
  obtain ⟨-, quote, -, rest, hrest⟩ := h
  exact ⟨quote :: rest, by rw [← hrest, List.append_assoc, List.append_assoc]; rfl⟩

theorem no_overlap {tag name : List Char} (hname : '=' ∉ name) {i j : ℕ} (hi : name ++ ['='] <+: tag.drop i)
    (hj : name ++ ['='] <+: tag.drop j) (hij : i < j) : i + (name.length + 1) ≤ j := by
  by_contra hlt
  obtain ⟨d, hd⟩ := Nat.exists_eq_add_of_le (show j ≤ i + name.length by omega)
  have hsign : tag[i + name.length]? = some '=' := by
    obtain ⟨rest, hrest⟩ := hi
    rw [← List.getElem?_drop, ← hrest, List.append_assoc, List.getElem?_append_right (Nat.le_refl _), Nat.sub_self]
    rfl
  have hinside : tag[j + d]? = name[d]? := by
    obtain ⟨rest, hrest⟩ := hj
    rw [← List.getElem?_drop, ← hrest, List.append_assoc, List.getElem?_append_left (by omega)]
  rw [← hd, hsign] at hinside
  exact hname (List.mem_of_getElem? hinside.symm)

section

variable {tag name : List Char}

theorem Leftmost.lt {value : List Char} (h : Leftmost tag name value) : ∃ i < tag.length, Opens tag name i := by
  obtain ⟨i, quote, rest, hopens, htext, -⟩ := h
  refine ⟨i, ?_, hopens⟩
  have hlen := congrArg List.length htext
  rw [List.length_drop, List.length_append, List.length_cons] at hlen
  omega

theorem not_opens_before (hname : '=' ∉ name) {hit : ℕ} (hbefore : ∀ j < hit, ¬Opens tag name j)
    (hhit : name ++ ['='] <+: tag.drop hit) (hnot : ¬Opens tag name hit) :
    ∀ j < hit + (name.length + 1), ¬Opens tag name j := by
  intro j hj hopens
  rcases Nat.lt_trichotomy j hit with hlt | rfl | hgt
  · exact hbefore j hlt hopens
  · exact hnot hopens
  · exact absurd (no_overlap hname hhit hopens.hit hgt) (by omega)

theorem opens_iff {hit : ℕ} {t : List Char} (hdrop : tag.drop hit = name ++ '=' :: t) :
    Opens tag name hit ↔ (0 < hit → startsName (tag.getD (hit - 1) ' ') = true) ∧
      ∃ quote ∈ t.head?, isQuote quote = true := by
  refine and_congr_right fun _ => exists_congr fun quote => ?_
  rw [hdrop, List.prefix_append_right_inj, List.cons_prefix_cons, and_comm]
  refine and_congr_left fun _ => ?_
  cases t with
  | nil => simp
  | cons c t => simp [eq_comm]

theorem leftmost_iff {hit : ℕ} {quote : Char} {t value : List Char} (hopens : Opens tag name hit)
    (hbefore : ∀ j < hit, ¬Opens tag name j) (hdrop : tag.drop hit = name ++ '=' :: quote :: t) :
    Leftmost tag name value ↔ ∃ rest, t = value ++ quote :: rest ∧ quote ∉ value := by
  constructor
  · rintro ⟨i, q, rest, hi, htext, hq, hfirst⟩
    obtain rfl : i = hit := by
      rcases Nat.lt_trichotomy i hit with hlt | heq | hgt
      · exact absurd hi (hbefore i hlt)
      · exact heq
      · exact absurd hopens (hfirst hit hgt)
    rw [hdrop] at htext
    obtain ⟨rfl, rfl⟩ := List.cons.inj (List.cons.inj (List.append_cancel_left htext)).2
    exact ⟨rest, rfl, hq⟩
  · rintro ⟨rest, rfl, hq⟩
    exact ⟨hit, quote, rest, hopens, hdrop, hq, hbefore⟩

/-- What the search reads at a place where the name and the sign stand. -/
theorem signs_at_hit {hit : ℕ} {t : List Char} (hdrop : tag.drop hit = name ++ '=' :: t) (k : ℕ) :
    tag.getD (hit + (name.length + k)) ' ' = ('=' :: t).getD k ' ' := by
  rw [List.getD_eq_getElem?_getD, List.getD_eq_getElem?_getD, ← List.getElem?_drop, hdrop,
    List.getElem?_append_right (Nat.le_add_right ..), Nat.add_sub_cancel_left]

/-- Behind the opening quote of the first place, the search for the quote finds the text. -/
theorem value_at_hit {hit : ℕ} {quote : Char} {t value : List Char} (hdrop : tag.drop hit = name ++ '=' :: quote :: t)
    (hopens : Opens tag name hit) (hbeforeHit : ∀ j < hit, ¬Opens tag name j) :
    (match find tag [quote] (hit + name.length + 2) with
      | none => none
      | some valueEnd => some (substr tag (hit + name.length + 2) (valueEnd - (hit + name.length + 2)))) = some value ↔
      Leftmost tag name value := by
  rw [leftmost_iff hopens hbeforeHit hdrop]
  have hbehind : tag.drop (hit + name.length + 2) = t := by
    rw [Nat.add_assoc, ← List.drop_drop, hdrop, List.drop_append, List.drop_eq_nil_of_le (by omega),
      Nat.add_sub_cancel_left]
    rfl
  by_cases hmem : quote ∈ t
  · obtain ⟨v, rest, rfl, hv⟩ := List.eq_append_cons_of_mem hmem
    rw [find_char hbehind hv]
    dsimp only
    rw [Nat.add_sub_cancel_left, substr, hbehind, List.take_left]
    constructor
    · intro h
      exact ⟨rest, by rw [← Option.some.inj h], Option.some.inj h ▸ hv⟩
    · rintro ⟨rest', heq, hvalue⟩
      rw [front_unique heq hv hvalue]
  · rw [find_char_none (hbehind ▸ hmem)]
    refine ⟨fun h => (nomatch h), ?_⟩
    rintro ⟨rest, rfl, -⟩
    exact absurd (List.mem_append_right _ List.mem_cons_self) hmem

theorem findAttributeFrom_eq_some (hname : '=' ∉ name) {value : List Char} {fuel pos : ℕ}
    (hfuel : tag.length < fuel + pos) (hbefore : ∀ j < pos, ¬Opens tag name j) :
    findAttributeFrom tag name fuel pos = some value ↔ Leftmost tag name value := by
  have hdone : (∀ j < tag.length, ¬Opens tag name j) → ¬Leftmost tag name value := fun hnone hleft => by
    obtain ⟨i, hi, hopens⟩ := hleft.lt
    exact hnone i hi hopens
  induction fuel generalizing pos with
  | zero =>
    exact ⟨fun h => (nomatch h), fun h => absurd h (hdone fun j hj => hbefore j (by omega))⟩
  | succ fuel ih =>
    rw [findAttributeFrom]
    by_cases hpos : pos < tag.length
    swap
    · rw [if_neg hpos]
      exact ⟨fun h => (nomatch h), fun h => absurd h (hdone fun j hj => hbefore j (by omega))⟩
    rw [if_pos hpos]
    have hword : name ++ ['='] ≠ [] := List.append_ne_nil_of_right_ne_nil _ (List.cons_ne_nil _ _)
    cases hfind : find tag (name ++ ['=']) pos with
    | none =>
      refine ⟨fun h => (nomatch h), fun h => absurd h (hdone fun j hj hopens => ?_)⟩
      by_cases hjpos : j < pos
      · exact hbefore j hjpos hopens
      · exact (find_eq_none hword).mp hfind j (Nat.not_lt.mp hjpos) hopens.hit
    | some hit =>
      obtain ⟨hle, hhit, hfirst⟩ := (find_eq_some hword).mp hfind
      have hbeforeHit : ∀ j < hit, ¬Opens tag name j := by
        intro j hj hopens
        by_cases hjpos : j < pos
        · exact hbefore j hjpos hopens
        · exact hfirst j (Nat.not_lt.mp hjpos) hj hopens.hit
      obtain ⟨t, ht⟩ := hhit
      have hdrop : tag.drop hit = name ++ '=' :: t := by rw [← ht, List.append_assoc]; rfl
      have hlen : tag.length = hit + (name.length + 1) + t.length := by
        have h := congrArg List.length hdrop
        have hword := add_length_le ⟨t, ht⟩ hword
        rw [List.length_drop, List.length_append, List.length_cons] at h
        rw [List.length_append, List.length_singleton] at hword
        omega
      have hsign : tag.getD (hit + name.length) ' ' = '=' := signs_at_hit hdrop 0
      have hskip : ¬Opens tag name hit →
          (findAttributeFrom tag name fuel (hit + (name.length + 1)) = some value ↔ Leftmost tag name value) := fun hnot =>
        ih (by omega) (not_opens_before hname hbeforeHit ⟨t, ht⟩ hnot)
      dsimp only
      by_cases hstart : 0 < hit ∧ startsName (tag.getD (hit - 1) ' ') = false
      · rw [if_pos hstart]
        exact hskip fun hopens => by rw [hopens.1 hstart.1] at hstart; exact Bool.noConfusion hstart.2
      · rw [if_neg hstart, if_neg (not_or.mpr ⟨by omega, not_not_intro hsign⟩)]
        cases t with
        | nil =>
          have hnot : ¬Opens tag name hit := fun hopens => by
            obtain ⟨-, quote, hquote, -⟩ := (opens_iff hdrop).mp hopens
            cases hquote
          rw [List.length_nil, Nat.add_zero] at hlen
          rw [if_pos (by omega)]
          exact ⟨fun h => (nomatch h), fun h => absurd h (hdone (hlen ▸ not_opens_before hname hbeforeHit ⟨[], ht⟩ hnot))⟩
        | cons quote t =>
          have hquote : tag.getD (hit + name.length + 1) ' ' = quote := signs_at_hit hdrop 1
          rw [List.length_cons] at hlen
          rw [if_neg (by omega), hquote]
          by_cases hq : isQuote quote = false
          · rw [if_pos hq]
            refine hskip fun hopens => ?_
            obtain ⟨-, c, hc, hcq⟩ := (opens_iff hdrop).mp hopens
            rw [← Option.some.inj hc, hq] at hcq
            exact Bool.noConfusion hcq
          · rw [if_neg hq]
            have hopens : Opens tag name hit := by
              refine (opens_iff hdrop).mpr ⟨fun hpos => ?_, quote, rfl, Bool.not_eq_false _ ▸ hq⟩
              exact Bool.not_eq_false _ ▸ fun h => hstart ⟨hpos, h⟩
            exact value_at_hit hdrop hopens hbeforeHit

/-- The search finds the text at the first place. -/
theorem findAttribute_eq_some (hname : '=' ∉ name) {value : List Char} :
    findAttribute tag name = some value ↔ Leftmost tag name value :=
  findAttributeFrom_eq_some hname (Nat.lt_succ_self _) fun _ hj => absurd hj (Nat.not_lt_zero _)

end

/-! ## Documents -/

/-- No blank, no equals sign, no quote and no sign of a tag. -/
def isNameChar (c : Char) : Bool :=
  !isBlank c && !isQuote c && decide (c ≠ '=') && decide (c ≠ '<') && decide (c ≠ '>') && decide (c ≠ '/')

/-- An attribute of a tag, with the blanks around it as they are written. -/
structure Attribute where
  before : List Char
  name : List Char
  padBefore : List Char
  padAfter : List Char
  quote : Char
  value : List Char
  before_ne : before ≠ []
  before_blank : ∀ c ∈ before, isBlank c = true
  name_ne : name ≠ []
  name_plain : ∀ c ∈ name, isNameChar c = true
  padBefore_blank : ∀ c ∈ padBefore, isBlank c = true
  padAfter_blank : ∀ c ∈ padAfter, isBlank c = true
  quote_is : isQuote quote = true
  value_unquoted : quote ∉ value
  value_plain : '<' ∉ value

def Attribute.text (a : Attribute) : List Char :=
  a.before ++ a.name ++ a.padBefore ++ '=' :: (a.padAfter ++ a.quote :: (a.value ++ [a.quote]))

/-- An element with its two attributes among others. -/
structure DataSet where
  attributes : List Attribute
  trail : List Char
  selfClosing : Bool
  timestep : Attribute
  file : Attribute
  trail_blank : ∀ c ∈ trail, isBlank c = true
  distinct : (attributes.map Attribute.name).Nodup
  timestep_mem : timestep ∈ attributes
  timestep_name : timestep.name = "timestep".toList
  file_mem : file ∈ attributes
  file_name : file.name = "file".toList

namespace DataSet

/-- What stands between the name and the end of the tag. -/
def inside (e : DataSet) : List Char :=
  e.attributes.flatMap Attribute.text ++ (e.trail ++ if e.selfClosing then ['/'] else [])

def text (e : DataSet) : List Char := openWord ++ (e.inside ++ ['>'])

/-- The text up to the first `>`, which may stand in a value. -/
def tag (e : DataSet) : List Char :=
  openWord ++ ((e.inside ++ ['>']).takeWhile (fun c => decide (c ≠ '>')) ++ ['>'])

/-- What follows the tag: nothing, when the first `>` is the end of it. -/
def afterTag (e : DataSet) : List Char := ((e.inside ++ ['>']).dropWhile fun c => decide (c ≠ '>')).tail

end DataSet

/-- Text in which no element begins. -/
def NoElement (gap : List Char) : Prop :=
  ∀ front rest, gap = front ++ openWord ++ rest → ∀ c ∈ rest.head?, endsName c = false

/-- Elements with other text around them: each element with what follows it. -/
structure Document where
  first : List Char
  elements : List (DataSet × List Char)
  first_plain : NoElement first
  rest_plain : ∀ e ∈ elements, NoElement e.2

def bodyText (elements : List (DataSet × List Char)) : List Char := elements.flatMap fun e => e.1.text ++ e.2

def Document.text (doc : Document) : List Char := doc.first ++ bodyText doc.elements

/-! ## The parser along a document -/

section

variable {R : Type} {strtod : List Char → Option (R × ℕ)}

theorem open_ne : openWord ≠ [] := by decide

/-- The parse of what is left of the text. -/
def parseRest (strtod : List Char → Option (R × ℕ)) (xml : List Char) (result : ParseResult R) : ParseResult R :=
  parseFrom strtod xml (xml.length + 1) 0 result

theorem parseFrom_fuel {xml : List Char} {fuel fuel' pos : ℕ} (h : xml.length < fuel + pos) (h' : xml.length < fuel' + pos)
    (result : ParseResult R) : parseFrom strtod xml fuel pos result = parseFrom strtod xml fuel' pos result := by
  induction fuel generalizing fuel' pos result with
  | zero =>
    cases fuel' with
    | zero => rfl
    | succ fuel' =>
      rw [parseFrom, parseFrom, if_neg (by omega)]
  | succ fuel ih =>
    cases fuel' with
    | zero => rw [parseFrom, parseFrom, if_neg (by omega)]
    | succ fuel' =>
      rw [parseFrom, parseFrom]
      by_cases hpos : pos < xml.length
      swap
      · rw [if_neg hpos, if_neg hpos]
      rw [if_pos hpos, if_pos hpos]
      cases hfind : find xml openWord pos with
      | none => rfl
      | some start =>
        have hstart := ((find_eq_some open_ne).mp hfind).1
        dsimp only
        have hagain : ∀ result, parseFrom strtod xml fuel (start + 1) result =
            parseFrom strtod xml fuel' (start + 1) result := fun result => ih (by omega) (by omega) result
        rw [hagain]
        split
        · rfl
        · split
          · rfl
          · cases hclose : find xml ['>'] (start + 8) with
            | none => rfl
            | some close =>
              have hafter := ((find_eq_some (List.cons_ne_nil _ _)).mp hclose).1
              dsimp only
              cases readTag strtod (substr xml start (close - start + 1)) result with
              | error failed => rfl
              | ok result => exact ih (by omega) (by omega) result

theorem drop_append_add (front xml : List Char) (k : ℕ) : (front ++ xml).drop (front.length + k) = xml.drop k := by
  rw [List.drop_append, List.drop_eq_nil_of_le (Nat.le_add_right ..), Nat.add_sub_cancel_left, List.nil_append]

theorem parseFrom_append (front xml : List Char) (fuel k : ℕ) (result : ParseResult R) :
    parseFrom strtod (front ++ xml) fuel (front.length + k) result = parseFrom strtod xml fuel k result := by
  induction fuel generalizing k result with
  | zero => rfl
  | succ fuel ih =>
    rw [parseFrom, parseFrom, List.length_append]
    by_cases hk : k < xml.length
    swap
    · rw [if_neg hk, if_neg (by omega)]
    rw [if_pos hk, if_pos (by omega), find_append front open_ne]
    cases find xml openWord k with
    | none => rfl
    | some start =>
      have hget : (front ++ xml).getD (front.length + start + 8) ' ' = xml.getD (start + 8) ' ' := by
        rw [List.getD_eq_getElem?_getD, List.getD_eq_getElem?_getD, Nat.add_assoc, List.getElem?_append_right (by omega),
          Nat.add_sub_cancel_left]
      simp only [Option.map_some]
      rw [hget, Nat.add_assoc, find_append front (List.cons_ne_nil _ _), Nat.add_assoc, ih]
      have hroom : front.length + (start + 8) ≥ front.length + xml.length ↔ start + 8 ≥ xml.length := by omega
      simp only [hroom]
      split
      · rfl
      · split
        · rfl
        · cases find xml ['>'] (start + 8) with
          | none => rfl
          | some close =>
            simp only [Option.map_some]
            have hsub : substr (front ++ xml) (front.length + start) (front.length + close - (front.length + start) + 1) =
                substr xml start (close - start + 1) := by
              rw [substr, substr, drop_append_add, Nat.add_sub_add_left]
            rw [hsub]
            cases readTag strtod (substr xml start (close - start + 1)) result with
            | error failed => rfl
            | ok result => exact ih (close + 1) result

theorem parseFrom_eq_rest (front xml : List Char) {fuel : ℕ} (hfuel : xml.length < fuel) (result : ParseResult R) :
    parseFrom strtod (front ++ xml) fuel front.length result = parseRest strtod xml result :=
  (parseFrom_append front xml fuel 0 result).trans (parseFrom_fuel hfuel (Nat.lt_succ_self _) result)

theorem parseRest_advance {front xml : List Char}
    (h : ∀ j < front.length, ¬openWord <+: (front ++ xml).drop j) (result : ParseResult R) :
    parseRest strtod (front ++ xml) result = parseRest strtod xml result := by
  rw [← @parseFrom_eq_rest _ _ front xml ((front ++ xml).length + 1) (by rw [List.length_append]; omega)]
  have hfind : find (front ++ xml) openWord 0 = find (front ++ xml) openWord front.length := by
    cases hlater : find (front ++ xml) openWord front.length with
    | none =>
      refine (find_eq_none open_ne).mpr fun j _ hat => ?_
      by_cases hj : j < front.length
      · exact h j hj hat
      · exact (find_eq_none open_ne).mp hlater j (Nat.not_lt.mp hj) hat
    | some start =>
      obtain ⟨-, hat, hfirst⟩ := (find_eq_some open_ne).mp hlater
      refine (find_eq_some open_ne).mpr ⟨Nat.zero_le _, hat, fun j _ hjs hat => ?_⟩
      by_cases hj : j < front.length
      · exact h j hj hat
      · exact hfirst j (Nat.not_lt.mp hj) hjs hat
  unfold parseRest
  rw [parseFrom, parseFrom, hfind]
  by_cases hempty : xml = []
  · subst hempty
    have hnone : find (front ++ []) openWord front.length = none := by
      refine (find_eq_none open_ne).mpr fun j hj hat => ?_
      have hlen := add_length_le hat open_ne
      have hpos := List.length_pos_iff.mpr open_ne
      rw [List.append_nil] at hlen
      omega
    rw [hnone]
    simp only [ite_self]
  · have hpos := List.length_pos_iff.mpr hempty
    rw [if_pos (by rw [List.length_append]; omega), if_pos (by rw [List.length_append]; omega)]

theorem no_sign_inside {k : ℕ} (hk : 0 < k) (hlt : k < 8) : openWord[k]? ≠ some '<' := by
  have hall : ∀ k < 8, 0 < k → openWord[k]? ≠ some '<' := by decide
  exact hall k hlt hk

/-- What may follow a gap: the end of the text, or the next sign of a tag. -/
def Resumes (xml : List Char) : Prop := ∀ c ∈ xml.head?, c = '<'

theorem NoElement.of_append {front gap : List Char} (h : NoElement (front ++ gap)) : NoElement gap := by
  rintro before rest rfl
  refine h (front ++ before) rest ?_
  simp only [List.append_assoc]

theorem word_inside {b xml : List Char} (hb : b ≠ []) (hxml : Resumes xml) (hat : openWord <+: b ++ xml) :
    ∃ rest, b = openWord ++ rest := by
  by_cases hlen : 8 ≤ b.length
  · obtain ⟨rest, hrest⟩ := List.prefix_of_prefix_length_le hat (List.prefix_append b xml) hlen
    exact ⟨rest, hrest.symm⟩
  · obtain ⟨rest, hrest⟩ := hat
    have hpos := List.length_pos_iff.mpr hb
    have hsign : openWord[b.length]? = xml.head? := by
      have hget : (openWord ++ rest)[b.length]? = (b ++ xml)[b.length]? := by rw [hrest]
      rw [List.getElem?_append_left (Nat.not_le.mp hlen), List.getElem?_append_right (Nat.le_refl _), Nat.sub_self] at hget
      rw [hget, List.head?_eq_getElem?]
    have hthere : openWord[b.length]? = some (openWord.get ⟨b.length, Nat.not_le.mp hlen⟩) :=
      List.getElem?_eq_getElem _
    have hc := hxml _ (hsign ▸ hthere)
    rw [hc] at hthere
    exact absurd hthere (no_sign_inside hpos (Nat.not_le.mp hlen))

theorem parseRest_gap {gap xml : List Char} (hgap : NoElement gap) (hxml : Resumes xml) (result : ParseResult R) :
    parseRest strtod (gap ++ xml) result = parseRest strtod xml result := by
  induction hlen : gap.length using Nat.strongRecOn generalizing gap with
  | _ n ih =>
    by_cases hthere : ∃ j < gap.length, openWord <+: (gap ++ xml).drop j
    swap
    · exact parseRest_advance (fun j hj hat => hthere ⟨j, hj, hat⟩) result
    · obtain ⟨j, hj, hat⟩ := hthere
      cases hfind : find (gap ++ xml) openWord 0 with
      | none => exact absurd hat ((find_eq_none open_ne).mp hfind j (Nat.zero_le _))
      | some start =>
        obtain ⟨-, hstart, hfirst⟩ := (find_eq_some open_ne).mp hfind
        have hlt : start < gap.length := by
          by_contra hge
          exact hfirst j (Nat.zero_le _) (by omega) hat
        -- The word stands in the gap, and what follows it is not the end of a name.
        have hdrop : (gap ++ xml).drop start = gap.drop start ++ xml := List.drop_append_of_le_length (Nat.le_of_lt hlt)
        rw [hdrop] at hstart
        obtain ⟨rest, hrest⟩ := word_inside (fun h => by
          have := List.drop_eq_nil_iff.mp h
          omega) hxml hstart
        have hsplit : gap = gap.take start ++ openWord ++ rest := by
          rw [List.append_assoc, ← hrest, List.take_append_drop]
        have htake : (gap.take start).length = start := List.length_take_of_le (Nat.le_of_lt hlt)
        have hafter : (gap ++ xml)[start + 8]? = (rest ++ xml).head? := by
          rw [← List.getElem?_drop, hdrop, hrest, List.append_assoc, List.getElem?_append_right (Nat.le_refl 8),
            List.head?_eq_getElem?]
          rfl
        have hends : ∀ c ∈ (rest ++ xml).head?, endsName c = false := by
          cases rest with
          | nil =>
            intro c hc
            rw [hxml c hc]
            rfl
          | cons c rest => exact fun c' hc => hgap _ _ hsplit c' hc
        have hagain : gap = gap.take start ++ ['<'] ++ (openWord.tail ++ rest) :=
          hsplit.trans (by simp only [List.append_assoc]; rfl)
        have hgap' : NoElement (openWord.tail ++ rest) := NoElement.of_append (hagain ▸ hgap)
        have hfront : (gap.take start ++ ['<']).length = start + 1 := by
          rw [List.length_append, htake, List.length_singleton]
        have hshort : (openWord.tail ++ rest).length < n := by
          have hlen' : gap.length = (gap.take start ++ ['<']).length + (openWord.tail ++ rest).length :=
            (congrArg List.length hagain).trans List.length_append
          omega
        have hlater : parseFrom strtod (gap ++ xml) (gap ++ xml).length (start + 1) result = parseRest strtod xml result := by
          rw [← ih _ hshort hgap' rfl]
          have htext : gap ++ xml = gap.take start ++ ['<'] ++ (openWord.tail ++ rest ++ xml) := by
            rw [← List.append_assoc, ← hagain]
          have hfuel : (openWord.tail ++ rest ++ xml).length < (gap ++ xml).length := by
            have hlen' : (openWord.tail ++ rest ++ xml).length = (openWord.tail ++ rest).length + xml.length :=
              List.length_append
            have hlen'' : (gap ++ xml).length = gap.length + xml.length := List.length_append
            omega
          have hmove := @parseFrom_eq_rest _ strtod (gap.take start ++ ['<']) (openWord.tail ++ rest ++ xml) _
            hfuel result
          rw [← htext, hfront] at hmove
          exact hmove
        show parseFrom strtod (gap ++ xml) ((gap ++ xml).length + 1) 0 result = _
        rw [parseFrom, if_pos (by rw [List.length_append]; omega), hfind]
        dsimp only
        by_cases hend : start + 8 ≥ (gap ++ xml).length
        · rw [if_pos hend]
          have hxmlnil : xml = [] := by
            have hlen' := congrArg List.length hsplit
            have h8 : openWord.length = 8 := rfl
            rw [List.length_append, List.length_append, htake, h8] at hlen'
            rw [List.length_append] at hend
            exact List.length_eq_zero_iff.mp (by omega)
          subst hxmlnil
          rfl
        · rw [if_neg hend]
          have hc : endsName ((gap ++ xml).getD (start + 8) ' ') = false := by
            rw [List.getD_eq_getElem?_getD, hafter]
            have hsome : (gap ++ xml)[start + 8]? ≠ none := by
              rw [ne_eq, List.getElem?_eq_none_iff]
              exact hend
            rw [hafter] at hsome
            obtain ⟨c, hc⟩ := Option.ne_none_iff_exists'.mp hsome
            rw [hc]
            exact hends c hc
          rw [if_pos hc, hlater]

theorem isBlank_ne {c d : Char} (h : isBlank c = true) (hd : isBlank d = false) : c ≠ d := fun heq => by
  rw [heq, hd] at h
  exact Bool.noConfusion h

theorem Attribute.sign_notMem (a : Attribute) : '<' ∉ a.text := by
  intro h
  have hquote : a.quote ≠ '<' := fun heq => by
    have hq := a.quote_is
    rw [heq] at hq
    exact Bool.noConfusion hq
  have hblank : ∀ {l : List Char}, (∀ c ∈ l, isBlank c = true) → '<' ∉ l := fun hl hin =>
    isBlank_ne (hl _ hin) (d := '<') rfl rfl
  simp only [Attribute.text, List.mem_append, List.mem_cons, List.not_mem_nil, or_false] at h
  rcases h with ((h | h) | h) | h | h | h | h | h
  · exact hblank a.before_blank h
  · exact absurd (a.name_plain _ h) (by decide)
  · exact hblank a.padBefore_blank h
  · exact absurd h (by decide)
  · exact hblank a.padAfter_blank h
  · exact hquote h.symm
  · exact a.value_plain h
  · exact hquote h.symm

theorem DataSet.sign_notMem (e : DataSet) : '<' ∉ e.inside := by
  intro h
  rcases List.mem_append.mp h with h | h
  · obtain ⟨a, -, ha⟩ := List.mem_flatMap.mp h
    exact a.sign_notMem ha
  · rcases List.mem_append.mp h with h | h
    · exact isBlank_ne (e.trail_blank _ h) (d := '<') rfl rfl
    · split at h
      · exact absurd h (by decide)
      · cases h

theorem DataSet.inside_head (e : DataSet) : ∃ c more, e.inside = c :: more ∧ isBlank c = true := by
  have hmem := e.timestep_mem
  unfold DataSet.inside
  cases hattributes : e.attributes with
  | nil =>
    rw [hattributes] at hmem
    cases hmem
  | cons a attributes =>
    cases hbefore : a.before with
    | nil => exact absurd hbefore a.before_ne
    | cons c more =>
      rw [List.flatMap_cons, Attribute.text, hbefore]
      exact ⟨c, _, rfl, a.before_blank c (hbefore ▸ List.mem_cons_self)⟩

theorem DataSet.tag_split (e : DataSet) : ∃ front, '>' ∉ front ∧ e.tag = openWord ++ (front ++ ['>']) ∧
    e.inside ++ ['>'] = front ++ '>' :: e.afterTag := by
  obtain ⟨front, tail, hsplit, hfront⟩ :=
    List.eq_append_cons_of_mem (List.mem_append_right e.inside (List.mem_singleton.mpr rfl : '>' ∈ ['>']))
  have hall : ∀ c ∈ front, decide (c ≠ '>') = true := fun c hc => decide_eq_true fun h => hfront (h ▸ hc)
  refine ⟨front, hfront, ?_, ?_⟩
  · rw [DataSet.tag, hsplit, List.takeWhile_append_of_pos hall, List.takeWhile_cons_of_neg (by decide), List.append_nil]
  · rw [DataSet.afterTag, hsplit, List.dropWhile_append_of_pos hall, List.dropWhile_cons_of_neg (by decide)]
    rfl

theorem parseRest_element (e : DataSet) (xml : List Char) (result : ParseResult R) :
    (∀ failed, readTag strtod e.tag result = .error failed → parseRest strtod (e.text ++ xml) result = failed) ∧
      ∀ next, readTag strtod e.tag result = .ok next →
        parseRest strtod (e.text ++ xml) result = parseRest strtod (e.afterTag ++ xml) next := by
  obtain ⟨front, hfront, htag, hsplit⟩ := e.tag_split
  obtain ⟨c, more, hinside, hblank⟩ := e.inside_head
  have htext : e.text ++ xml = openWord ++ (front ++ '>' :: (e.afterTag ++ xml)) := by
    rw [DataSet.text, hsplit, List.append_assoc, List.append_assoc]
    rfl
  have hlen : (e.text ++ xml).length = 8 + (front.length + (1 + (e.afterTag ++ xml).length)) := by
    rw [htext, List.length_append, List.length_append, List.length_cons, Nat.add_comm 1]
    rfl
  have hfind : find (e.text ++ xml) openWord 0 = some 0 :=
    (find_eq_some open_ne).mpr ⟨Nat.le_refl _, ⟨_, htext.symm⟩, fun j _ hj => absurd hj (Nat.not_lt_zero _)⟩
  have hdrop : (e.text ++ xml).drop 8 = front ++ '>' :: (e.afterTag ++ xml) := by
    rw [htext]
    rfl
  have hends : endsName ((e.text ++ xml).getD 8 ' ') = true := by
    have hget : (e.text ++ xml)[8]? = some c := by
      rw [DataSet.text, hinside]
      rfl
    rw [List.getD_eq_getElem?_getD, hget, Option.getD_some, endsName, hblank]
    rfl
  have hclose : find (e.text ++ xml) ['>'] 8 = some (8 + front.length) := find_char hdrop hfront
  have hword : (openWord ++ (front ++ ['>'])).length = 8 + front.length + 1 := by
    rw [List.length_append, List.length_append, List.length_singleton, Nat.add_assoc]
    rfl
  have hwhole : e.text ++ xml = openWord ++ (front ++ ['>']) ++ (e.afterTag ++ xml) := by
    rw [htext]
    simp only [List.append_assoc, List.cons_append, List.nil_append]
  have hbehind : parseFrom strtod (e.text ++ xml) (e.text ++ xml).length (8 + front.length + 1) =
      fun next => parseRest strtod (e.afterTag ++ xml) next := by
    funext next
    have hfuel : (e.afterTag ++ xml).length < (e.text ++ xml).length := by omega
    rw [← parseFrom_eq_rest (openWord ++ (front ++ ['>'])) (e.afterTag ++ xml) hfuel next, hword, ← hwhole]
  have hsub : substr (e.text ++ xml) 0 (8 + front.length - 0 + 1) = e.tag := by
    rw [htag, substr, List.drop_zero, hwhole]
    exact List.take_left' hword
  have hround : parseRest strtod (e.text ++ xml) result =
      match readTag strtod e.tag result with
      | .error failed => failed
      | .ok next => parseRest strtod (e.afterTag ++ xml) next := by
    unfold parseRest
    rw [parseFrom, if_pos (by omega), hfind]
    dsimp only
    rw [Nat.zero_add, if_neg (by omega), if_neg (by rw [hends]; exact Bool.noConfusion), hclose]
    dsimp only
    rw [hsub, hbehind]
    rfl
  constructor
  · intro failed hfailed
    rw [hround, hfailed]
  · intro next hnext
    rw [hround, hnext]

theorem DataSet.sign_notMem_afterTag (e : DataSet) : '<' ∉ e.afterTag := by
  obtain ⟨front, -, -, hsplit⟩ := e.tag_split
  intro h
  have hin : '<' ∈ e.inside ++ ['>'] := by
    rw [hsplit]
    exact List.mem_append_right _ (List.mem_cons_of_mem _ h)
  rcases List.mem_append.mp hin with hin | hin
  · exact e.sign_notMem hin
  · exact absurd hin (by decide)

theorem NoElement.after {front gap : List Char} (hgap : NoElement gap) (hfront : '<' ∉ front) : NoElement (front ++ gap) := by
  intro before rest hsplit
  rw [List.append_assoc, List.append_eq_append_iff] at hsplit
  obtain ⟨more, rfl, hmore⟩ | ⟨more, rfl, hmore⟩ := hsplit
  · rw [← List.append_assoc] at hmore
    exact hgap more rest hmore
  · cases more with
    | nil =>
      rw [List.nil_append] at hmore
      exact hgap [] rest hmore.symm
    | cons c more =>
      obtain rfl := (List.cons.inj hmore).1
      exact absurd (List.mem_append_right _ List.mem_cons_self) hfront

theorem resumes_bodyText (elements : List (DataSet × List Char)) : Resumes (bodyText elements) := by
  intro c hc
  cases elements with
  | nil => cases hc
  | cons e elements => exact (Option.some.inj hc).symm

/-- The tags one after the other, to the first error. -/
def readTags (strtod : List Char → Option (R × ℕ)) : List (List Char) → ParseResult R → ParseResult R
  | [], result => result
  | tag :: tags, result =>
    match readTag strtod tag result with
    | .error failed => failed
    | .ok next => readTags strtod tags next

theorem parseRest_bodyText {elements : List (DataSet × List Char)} (hgaps : ∀ e ∈ elements, NoElement e.2)
    (result : ParseResult R) :
    parseRest strtod (bodyText elements) result = readTags strtod (elements.map fun e => e.1.tag) result := by
  induction elements generalizing result with
  | nil => rfl
  | cons e elements ih =>
    obtain ⟨hgap, hgaps⟩ := List.forall_mem_cons.mp hgaps
    obtain ⟨herror, hok⟩ := @parseRest_element _ strtod e.1 (e.2 ++ bodyText elements) result
    have htext : bodyText (e :: elements) = e.1.text ++ (e.2 ++ bodyText elements) := by
      rw [bodyText, List.flatMap_cons, List.append_assoc]
      rfl
    rw [htext, List.map_cons, readTags]
    cases hread : readTag strtod e.1.tag result with
    | error failed => exact herror failed hread
    | ok next =>
      rw [hok next hread, ← List.append_assoc,
        parseRest_gap (hgap.after e.1.sign_notMem_afterTag) (resumes_bodyText elements)]
      exact ih hgaps next

/-- The parser reads the tags of the elements, and nothing else. -/
theorem parse_document (doc : Document) :
    parse strtod doc.text = readTags strtod (doc.elements.map fun e => e.1.tag) {} := by
  show parseRest strtod (doc.first ++ bodyText doc.elements) {} = _
  rw [parseRest_gap doc.first_plain (resumes_bodyText _), parseRest_bodyText doc.rest_plain]

end

end Souxmar.Core.Pvd
