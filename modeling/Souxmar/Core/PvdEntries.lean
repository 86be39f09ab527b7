import Mathlib.Data.List.Forall2
import Souxmar.Core.PvdAttributes
import Souxmar.Lib.Stream

/-!
# The entries of a PVD file

What a document says is an entry for each element: the number that its `timestep` attribute is, and its `file`
attribute; up to the first timestep that is not a number. `parse_reads_when` says on which documents the parser gives
this.
-/

namespace Souxmar.Core.Pvd

open Souxmar.Lib

variable {R : Type} (strtod : List Char → Option (R × ℕ))

/-- The number that a text is, when it is a number to its end. -/
def numberOf (text : List Char) : Option R :=
  (strtod (cString text)).bind fun t => if t.2 = text.length then some t.1 else none

/-- What the elements say: an entry for each of them in their order, up to the first whose timestep is not entirely a
number, which is rejected. -/
def said : List DataSet → ParseResult R → ParseResult R
  | [], result => result
  | e :: elements, result =>
    match numberOf strtod e.timestep.value with
    | none => { result with error := "PVD: timestep value is not a number: '".toList ++ e.timestep.value ++ ['\''] }
    | some t => said elements { result with entries := result.entries ++ [⟨t, e.file.value⟩] }

def ReadsRight (elements : List DataSet) (result : ParseResult R) : Prop := result = said strtod elements {}

/-- The element shows its two attributes. -/
def DataSet.Straight (e : DataSet) : Prop := e.Shows e.timestep ∧ e.Shows e.file

/-- The elements show their attributes, up to the first whose timestep is not entirely a number; and this timestep does
not even begin with one. -/
def StraightToError : List DataSet → Prop
  | [] => True
  | e :: elements => e.Straight ∧
    match numberOf strtod e.timestep.value with
    | none => parseDouble strtod e.timestep.value = none
    | some _ => StraightToError elements

/-- In the tag of the element, the first `timestep=` and `file=` that are followed by a quote lead to these texts. -/
def Leads (e : DataSet) (ts file : List Char) : Prop :=
  Leftmost e.tag "timestep".toList ts ∧ Leftmost e.tag "file".toList file

/-- The tag leads to the file of the element and to a text that begins with its number, wherever these stand. -/
def Echoes (e : DataSet) : Prop :=
  ∃ ts x, Leads e ts e.file.value ∧ parseDouble strtod ts = some x ∧ numberOf strtod e.timestep.value = some x

variable {strtod}

theorem leads_iff {e : DataSet} {ts file : List Char} : Leads e ts file ↔
    findAttribute e.tag "timestep".toList = some ts ∧ findAttribute e.tag "file".toList = some file :=
  and_congr (findAttribute_eq_some (by decide)).symm (findAttribute_eq_some (by decide)).symm

/-- What the tag of an element adds to the entries, unless it fails. -/
def added (strtod : List Char → Option (R × ℕ)) (e : DataSet) : Option (Entry R) :=
  (findAttribute e.tag "timestep".toList).bind fun ts =>
    (findAttribute e.tag "file".toList).bind fun file => (parseDouble strtod ts).map fun t => ⟨t, file⟩

/-- The tag of an element fails. -/
def Fails (strtod : List Char → Option (R × ℕ)) (e : DataSet) : Prop :=
  ∃ ts file, Leads e ts file ∧ parseDouble strtod ts = none

theorem readTag_fails {e : DataSet} (h : Fails strtod e) (result : ParseResult R) :
    ∃ failed, readTag strtod e.tag result = .error failed ∧ failed.error ≠ [] := by
  obtain ⟨ts, file, hleads, hnone⟩ := h
  obtain ⟨hts, hfile⟩ := leads_iff.mp hleads
  unfold readTag
  rw [hts, hfile]
  dsimp only
  rw [hnone]
  exact ⟨_, rfl, List.append_ne_nil_of_right_ne_nil _ (List.cons_ne_nil _ _)⟩

theorem readTag_adds {e : DataSet} (h : ¬Fails strtod e) (result : ParseResult R) :
    readTag strtod e.tag result = .ok { result with entries := result.entries ++ (added strtod e).toList } := by
  unfold readTag added
  cases hts : findAttribute e.tag "timestep".toList with
  | none => simp
  | some ts =>
    cases hfile : findAttribute e.tag "file".toList with
    | none => simp
    | some file =>
      cases hnumber : parseDouble strtod ts with
      | none => exact absurd ⟨ts, file, leads_iff.mpr ⟨hts, hfile⟩, hnumber⟩ h
      | some t =>
        dsimp only [Option.bind_some]
        rw [hnumber]
        rfl

theorem readTags_fails {elements : List DataSet} (h : ∃ e ∈ elements, Fails strtod e) (result : ParseResult R) :
    (readTags strtod (elements.map DataSet.tag) result).error ≠ [] := by
  induction elements generalizing result with
  | nil =>
    obtain ⟨e, he, -⟩ := h
    cases he
  | cons e elements ih =>
    rw [List.map_cons, readTags]
    by_cases hfails : Fails strtod e
    · obtain ⟨failed, hfailed, hne⟩ := readTag_fails hfails result
      rw [hfailed]
      exact hne
    · obtain ⟨e', he', hfails'⟩ := h
      rw [readTag_adds hfails]
      refine ih ⟨e', (List.mem_cons.mp he').resolve_left ?_, hfails'⟩ _
      rintro rfl
      exact hfails hfails'

theorem readTags_adds {elements : List DataSet} (h : ∀ e ∈ elements, ¬Fails strtod e) (result : ParseResult R) :
    readTags strtod (elements.map DataSet.tag) result =
      { result with entries := result.entries ++ elements.filterMap (added strtod) } := by
  induction elements generalizing result with
  | nil => rw [List.map_nil, readTags, List.filterMap_nil, List.append_nil]
  | cons e elements ih =>
    obtain ⟨he, helements⟩ := List.forall_mem_cons.mp h
    rw [List.map_cons, readTags, readTag_adds he]
    dsimp only
    rw [ih helements, List.filterMap_cons]
    cases added strtod e with
    | none => simp
    | some entry => simp

theorem added_eq_some {e : DataSet} {entry : Entry R} : added strtod e = some entry ↔
    ∃ ts, Leads e ts entry.file ∧ parseDouble strtod ts = some entry.timestep := by
  unfold added
  simp only [Option.bind_eq_some_iff, Option.map_eq_some_iff]
  constructor
  · rintro ⟨ts, hts, file, hfile, t, ht, rfl⟩
    exact ⟨ts, leads_iff.mpr ⟨hts, hfile⟩, ht⟩
  · rintro ⟨ts, hleads, ht⟩
    obtain ⟨hts, hfile⟩ := leads_iff.mp hleads
    exact ⟨ts, hts, entry.file, hfile, entry.timestep, ht, rfl⟩

theorem not_fails_of_added {e : DataSet} {entry : Entry R} (h : added strtod e = some entry) : ¬Fails strtod e := by
  rintro ⟨ts, file, hleads, hnone⟩
  obtain ⟨ts', hleads', hsome⟩ := added_eq_some.mp h
  rw [← Option.some.inj ((leads_iff.mp hleads).1.symm.trans (leads_iff.mp hleads').1), hnone] at hsome
  cases hsome

section

variable {α β : Type} {f h : α → Option β}

theorem mapM_cases (f : α → Option β) (l : List α) :
    (∃ bs, l.mapM f = some bs ∧ List.Forall₂ (fun a b => f a = some b) l bs) ∨ (l.mapM f = none ∧ ∃ a ∈ l, f a = none) := by
  induction l with
  | nil => exact .inl ⟨[], rfl, .nil⟩
  | cons a l ih =>
    rw [List.mapM_cons]
    cases ha : f a with
    | none => exact .inr ⟨rfl, a, List.mem_cons_self, ha⟩
    | some b =>
      obtain ⟨bs, hbs, hall⟩ | ⟨hnone, a', ha', hfail⟩ := ih
      · rw [hbs]
        exact .inl ⟨b :: bs, rfl, .cons ha hall⟩
      · rw [hnone]
        exact .inr ⟨rfl, a', List.mem_cons_of_mem _ ha', hfail⟩

theorem some_of_forall₂ {l : List α} {bs : List β} (hall : List.Forall₂ (fun a b => f a = some b) l bs) :
    ∀ a ∈ l, ∃ b, f a = some b := by
  induction hall with
  | nil => exact fun a ha => absurd ha List.not_mem_nil
  | cons hab hall ih => exact List.forall_mem_cons.mpr ⟨⟨_, hab⟩, ih⟩

theorem filterMap_eq_iff {l : List α} {bs : List β} (hall : List.Forall₂ (fun a b => f a = some b) l bs) :
    l.filterMap h = bs ↔ ∀ a ∈ l, h a = f a := by
  induction hall with
  | nil => exact ⟨fun _ a ha => absurd ha List.not_mem_nil, fun _ => rfl⟩
  | @cons a b l bs hab hall ih =>
    rw [List.filterMap_cons, List.forall_mem_cons, hab]
    cases ha : h a with
    | none =>
      refine ⟨fun heq => ?_, fun heq => nomatch heq.1⟩
      have hle := List.length_filterMap_le h l
      have hlen := congrArg List.length heq
      dsimp only at hlen
      rw [List.length_cons, ← hall.length_eq] at hlen
      omega
    | some c =>
      dsimp only
      rw [List.cons.injEq, Option.some.injEq, ih]

end

/-- What an element says. -/
def entryOf (strtod : List Char → Option (R × ℕ)) (e : DataSet) : Option (Entry R) :=
  (numberOf strtod e.timestep.value).map fun t => ⟨t, e.file.value⟩

theorem said_of_forall₂ {elements : List DataSet} {entries : List (Entry R)}
    (hall : List.Forall₂ (fun e entry => entryOf strtod e = some entry) elements entries) (result : ParseResult R) :
    said strtod elements result = { result with entries := result.entries ++ entries } := by
  induction hall generalizing result with
  | nil => rw [said, List.append_nil]
  | cons hentry hall ih =>
    obtain ⟨x, hx, rfl⟩ := Option.map_eq_some_iff.mp hentry
    rw [said, hx]
    dsimp only
    rw [ih, List.append_assoc]
    rfl

theorem DataSet.Straight.leads {e : DataSet} (h : e.Straight) : Leads e e.timestep.value e.file.value := by
  have hts := h.1.leftmost (by rw [e.timestep_name]; decide)
  have hfile := h.2.leftmost (by rw [e.file_name]; decide)
  rw [e.timestep_name] at hts
  rw [e.file_name] at hfile
  exact ⟨hts, hfile⟩

theorem parseDouble_of_numberOf {text : List Char} {x : R} (h : numberOf strtod text = some x) :
    parseDouble strtod text = some x := by
  obtain ⟨t, ht, hx⟩ := Option.bind_eq_some_iff.mp h
  split at hx
  · rw [parseDouble, ht, Option.map_some, Option.some.inj hx]
  · cases hx

theorem DataSet.Straight.echoes {e : DataSet} (h : e.Straight) {x : R}
    (hx : numberOf strtod e.timestep.value = some x) : Echoes strtod e :=
  ⟨_, x, h.leads, parseDouble_of_numberOf hx, hx⟩

theorem readTags_said {elements : List DataSet} (h : StraightToError strtod elements) (result : ParseResult R) :
    readTags strtod (elements.map DataSet.tag) result = said strtod elements result := by
  induction elements generalizing result with
  | nil => rfl
  | cons e elements ih =>
    obtain ⟨hstraight, hrest⟩ := h
    obtain ⟨hts, hfile⟩ := leads_iff.mp hstraight.leads
    rw [List.map_cons, readTags, readTag, hts, hfile, said]
    cases hnumber : numberOf strtod e.timestep.value with
    | none =>
      rw [hnumber] at hrest
      dsimp only
      rw [hrest]
    | some x =>
      rw [hnumber] at hrest
      dsimp only
      rw [parseDouble_of_numberOf hnumber]
      exact ih hrest _

theorem added_eq_entryOf_iff {e : DataSet} {x : R} (hx : numberOf strtod e.timestep.value = some x) :
    added strtod e = entryOf strtod e ↔ Echoes strtod e := by
  rw [entryOf, hx, Option.map_some, added_eq_some]
  constructor
  · rintro ⟨ts, hleads, hnumber⟩
    exact ⟨ts, x, hleads, hnumber, hx⟩
  · rintro ⟨ts, y, hleads, hnumber, hy⟩
    obtain rfl := Option.some.inj (hx.symm.trans hy)
    exact ⟨ts, hleads, hnumber⟩

theorem readTags_eq_said_iff {elements : List DataSet}
    (hnumbers : ∀ e ∈ elements, numberOf strtod e.timestep.value ≠ none) :
    readTags strtod (elements.map DataSet.tag) {} = said strtod elements {} ↔ ∀ e ∈ elements, Echoes strtod e := by
  have hnumber : ∀ e ∈ elements, ∃ x, numberOf strtod e.timestep.value = some x := fun e he =>
    Option.ne_none_iff_exists'.mp (hnumbers e he)
  obtain ⟨entries, -, hall⟩ | ⟨-, e, he, hfail⟩ := mapM_cases (entryOf strtod) elements
  swap
  · exact absurd (Option.map_eq_none_iff.mp hfail) (hnumbers e he)
  rw [said_of_forall₂ hall]
  constructor
  · intro hresult
    have hnone : ∀ e ∈ elements, ¬Fails strtod e := fun e he hfails =>
      readTags_fails ⟨e, he, hfails⟩ {} (congrArg ParseResult.error hresult)
    rw [readTags_adds hnone] at hresult
    have hsame := (filterMap_eq_iff hall).mp (congrArg ParseResult.entries hresult)
    intro e he
    obtain ⟨x, hx⟩ := hnumber e he
    exact (added_eq_entryOf_iff hx).mp (hsame e he)
  · intro hechoes
    have hadded : ∀ e ∈ elements, added strtod e = entryOf strtod e := fun e he => by
      obtain ⟨x, hx⟩ := hnumber e he
      exact (added_eq_entryOf_iff hx).mpr (hechoes e he)
    have hnone : ∀ e ∈ elements, ¬Fails strtod e := fun e he => by
      obtain ⟨entry, hentry⟩ := some_of_forall₂ hall e he
      exact not_fails_of_added ((hadded e he).trans hentry)
    rw [readTags_adds hnone, (filterMap_eq_iff hall).mpr hadded]

theorem parse_eq_readTags (doc : Document) :
    parse strtod doc.text = readTags strtod ((doc.elements.map Prod.fst).map DataSet.tag) {} := by
  rw [parse_document, List.map_map]
  rfl

/-! ## Documents that are read right -/

/-- The digits that a text begins with. -/
def digitsStrtod (text : List Char) : Option (ℤ × ℕ) :=
  let digits := text.takeWhile Char.isDigit
  if digits.isEmpty then none else some (Stream.digitsValue digits, digits.length)

/-- An attribute with double quotes, after one blank. -/
def plainAttribute (name value : List Char) (hname : name ≠ [] ∧ ∀ c ∈ name, isNameChar c = true)
    (hvalue : '"' ∉ value ∧ '<' ∉ value) : Attribute where
  before := [' ']
  name := name
  padBefore := []
  padAfter := []
  quote := '"'
  value := value
  before_ne := List.cons_ne_nil _ _
  before_blank := by decide
  name_ne := hname.1
  name_plain := hname.2
  padBefore_blank := fun _ hc => absurd hc List.not_mem_nil
  padAfter_blank := fun _ hc => absurd hc List.not_mem_nil
  quote_is := rfl
  value_unquoted := hvalue.1
  value_plain := hvalue.2

theorem noElement_nil : NoElement [] := by
  intro front rest hsplit
  have hlen := congrArg List.length hsplit
  have h8 : openWord.length = 8 := rfl
  rw [List.length_append, List.length_append, List.length_nil] at hlen
  omega

theorem not_misleads {b : Attribute} {name : List Char} (h : '=' ∉ b.value) : ¬b.Misleads name := by
  rintro ⟨front, c, quote, rest, htext, -⟩
  have hmem : '=' ∈ b.value ++ [b.quote] := by
    rw [htext]
    simp
  rcases List.mem_append.mp hmem with hmem | hmem
  · exact h hmem
  · have hquote := b.quote_is
    rw [← List.mem_singleton.mp hmem] at hquote
    exact Bool.noConfusion hquote

/-- `<DataSet timestep="…" file="a.vtu"/>` -/
def plainElement (timestep : List Char) (h : '"' ∉ timestep ∧ '<' ∉ timestep) : DataSet where
  attributes := [plainAttribute "timestep".toList timestep (by decide) h,
    plainAttribute "file".toList "a.vtu".toList (by decide) (by decide)]
  trail := []
  selfClosing := true
  timestep := plainAttribute "timestep".toList timestep (by decide) h
  file := plainAttribute "file".toList "a.vtu".toList (by decide) (by decide)
  trail_blank := fun _ hc => absurd hc List.not_mem_nil
  distinct := show ["timestep".toList, "file".toList].Nodup by decide
  timestep_mem := List.mem_cons_self
  timestep_name := rfl
  file_mem := List.mem_cons_of_mem _ List.mem_cons_self
  file_name := rfl

theorem plainElement_straight {timestep : List Char} (h : '"' ∉ timestep ∧ '<' ∉ timestep)
    (hclose : '>' ∉ timestep) (hequals : '=' ∉ timestep) : (plainElement timestep h).Straight :=
  ⟨⟨rfl, rfl, hclose, [], _, rfl, fun _ hb => absurd hb List.not_mem_nil⟩,
    ⟨rfl, rfl, show '>' ∉ "a.vtu".toList by decide, [_], [], rfl, List.forall_mem_singleton.mpr ⟨hclose, not_misleads hequals⟩⟩⟩

/-- Two elements, of which the second has no number. -/
def plainDocument : Document where
  first := []
  elements := [(plainElement ['1'] (by decide), []), (plainElement ['x'] (by decide), [])]
  first_plain := noElement_nil
  rest_plain := List.forall_mem_cons.mpr ⟨noElement_nil, List.forall_mem_singleton.mpr noElement_nil⟩

/-- The first of the two elements alone. -/
def numberDocument : Document where
  first := []
  elements := [(plainElement ['1'] (by decide), [])]
  first_plain := noElement_nil
  rest_plain := List.forall_mem_singleton.mpr noElement_nil

/-- The parser gives what a document says when the elements show their attributes and no timestep only begins with a
number. Where every timestep is a number, it gives this for no other document, unless another place in the tag has the
same text. -/
theorem parse_reads_when (strtod : List Char → Option (R × ℕ)) (doc : Document) :
    (StraightToError strtod (doc.elements.map Prod.fst) →
      ReadsRight strtod (doc.elements.map Prod.fst) (parse strtod doc.text)) ∧
    ((∀ e ∈ doc.elements.map Prod.fst, numberOf strtod e.timestep.value ≠ none) →
      (ReadsRight strtod (doc.elements.map Prod.fst) (parse strtod doc.text) ↔
        ∀ e ∈ doc.elements.map Prod.fst, e.Straight ∨ Echoes strtod e)) := by
  unfold ReadsRight
  rw [parse_eq_readTags]
  generalize doc.elements.map Prod.fst = elements
  refine ⟨fun hstraight => readTags_said hstraight {}, fun hnumbers => ?_⟩
  rw [readTags_eq_said_iff hnumbers]
  refine forall₂_congr fun e he => ⟨.inr, fun h => h.elim (fun hstraight => ?_) id⟩
  obtain ⟨x, hx⟩ := Option.ne_none_iff_exists'.mp (hnumbers e he)
  exact hstraight.echoes hx

theorem parse_reads_when_plain :
    ReadsRight digitsStrtod (plainDocument.elements.map Prod.fst) (parse digitsStrtod plainDocument.text) ∧
      said digitsStrtod (plainDocument.elements.map Prod.fst) {} =
        ⟨[⟨1, "a.vtu".toList⟩], "PVD: timestep value is not a number: 'x'".toList⟩ ∧
      ReadsRight digitsStrtod (numberDocument.elements.map Prod.fst) (parse digitsStrtod numberDocument.text) :=
  have hstraight : (plainElement ['1'] (by decide)).Straight := plainElement_straight _ (by decide) (by decide)
  ⟨(parse_reads_when digitsStrtod plainDocument).1
      ⟨hstraight, plainElement_straight _ (by decide) (by decide), rfl⟩,
    by decide,
    ((parse_reads_when digitsStrtod numberDocument).2 (List.forall_mem_singleton.mpr (by decide))).mpr
      (List.forall_mem_singleton.mpr (.inl hstraight))⟩

/-- `<DataSet name="a file='b.vtu'" timestep="1" file="c.vtu"/>` -/
def quotedFile : DataSet where
  attributes := [plainAttribute "name".toList "a file='b.vtu'".toList (by decide) (by decide),
    plainAttribute "timestep".toList ['1'] (by decide) (by decide),
    plainAttribute "file".toList "c.vtu".toList (by decide) (by decide)]
  trail := []
  selfClosing := true
  timestep := plainAttribute "timestep".toList ['1'] (by decide) (by decide)
  file := plainAttribute "file".toList "c.vtu".toList (by decide) (by decide)
  trail_blank := fun _ hc => absurd hc List.not_mem_nil
  distinct := by decide
  timestep_mem := List.mem_cons_of_mem _ List.mem_cons_self
  timestep_name := rfl
  file_mem := List.mem_cons_of_mem _ (List.mem_cons_of_mem _ List.mem_cons_self)
  file_name := rfl

def quotedDocument : Document where
  first := []
  elements := [(quotedFile, [])]
  first_plain := noElement_nil
  rest_plain := List.forall_mem_singleton.mpr noElement_nil

/-- The file name is taken from another attribute. -/
theorem parse_reads_wrong : ¬∀ doc : Document,
    ReadsRight digitsStrtod (doc.elements.map Prod.fst) (parse digitsStrtod doc.text) := by
  intro h
  have hdoc := h quotedDocument
  have hsays : said digitsStrtod (quotedDocument.elements.map Prod.fst) {} = ⟨[⟨1, "c.vtu".toList⟩], []⟩ := by
    decide
  have hparse : parse digitsStrtod quotedDocument.text = ⟨[⟨1, "b.vtu".toList⟩], []⟩ := by decide
  rw [ReadsRight, hsays, hparse] at hdoc
  exact absurd hdoc (by decide)

end Souxmar.Core.Pvd
