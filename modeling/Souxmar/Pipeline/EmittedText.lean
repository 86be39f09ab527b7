import Souxmar.Lib.YamlText
import Souxmar.Pipeline.Emit
import Souxmar.Pipeline.Readers

/-!
# What the emitted text stands for

The text of `emitValueYaml` lies in the part of YAML that `readDocument` reads, as long as YAML can carry
its strings in the form they are emitted in (`Carried`). Its node is `nodeOf`.
-/

set_option linter.dupNamespace false

namespace Souxmar.Pipeline

open Souxmar.Lib Souxmar.Lib.Yaml

/-! ## Nodes -/

def scalarNode (s : String) : Node :=
  if needsQuotes s then quotedNode s.toList else plainNode (String.ofList (strip s.toList))

def fromKey : Node := .scalar noMark plainTag "from"

variable (fmt : UInt64 → String)

mutual

def nodeOf : Value → Node
  | .null => .null noMark
  | .boolean b => .scalar noMark plainTag (if b then "true" else "false")
  | .number bits => .scalar noMark plainTag (numberText fmt bits)
  | .string s => scalarNode s
  | .stage stageId => .map noMark [(fromKey, scalarNode stageId)]
  | .list items => .sequence noMark (nodesOf items)
  | .map fields => .map noMark (entriesOf fields)

def nodesOf : List Value → List Node
  | [] => []
  | item :: items => nodeOf item :: nodesOf items

def entriesOf : List (String × Value) → List (Node × Node)
  | [] => []
  | (key, child) :: fields => (scalarNode key, nodeOf child) :: entriesOf fields

end

theorem nodesOf_eq (items : List Value) : nodesOf fmt items = items.map (nodeOf fmt) := by
  induction items with
  | nil => rfl
  | cons item items ih => rw [nodesOf, ih, List.map_cons]

theorem entriesOf_eq (fields : List (String × Value)) :
    entriesOf fmt fields = fields.map fun field => (scalarNode field.1, nodeOf fmt field.2) := by
  induction fields with
  | nil => rfl
  | cons field fields ih =>
    obtain ⟨key, child⟩ := field
    rw [entriesOf, ih, List.map_cons]

/-! ## Strings that YAML carries -/

/-- In quotes, a string without control characters that would have to be escaped. Without quotes, a
string that is still a plain scalar when the blanks around it are cut off. -/
def CarriedText (s : String) : Prop :=
  if needsQuotes s then ∀ c ∈ s.toList, 0x20 ≤ c.toNat ∨ c = '\t' ∨ c = '\n'
  else '\x7f' ∉ s.toList ∧ plainStart (strip s.toList) = true

/-- The string itself is read back, and not null or what is left of it without its blanks. -/
def Kept (s : String) : Prop :=
  needsQuotes s = true ∨ (strip s.toList = s.toList ∧ s ∉ nullSpellings)

/-- Keys stand on a line of their own, and are limited in length. -/
structure CarriedKey (key : String) : Prop where
  text : CarriedText key
  kept : Kept key
  short : (quoteIfNeeded key).length ≤ 1024

instance (s : String) : Decidable (CarriedText s) := by
  unfold CarriedText
  infer_instance

instance (s : String) : Decidable (Kept s) := inferInstanceAs (Decidable (_ ∨ _))

/-- What `fmt::format` and the output of integers look like. -/
def NumberShaped (text : String) : Prop :=
  ∃ sign first rest, text.toList = sign ++ first :: rest ∧ (sign = [] ∨ sign = ['-']) ∧
    first.isDigit = true ∧ ∀ c ∈ rest, numericChar c = true

section

variable (number : UInt64 → Prop)

mutual

/-- All strings of the value can be carried, and all numbers are as given. -/
def Carried : Value → Prop
  | .null => True
  | .boolean _ => True
  | .number bits => number bits
  | .string s => CarriedText s
  | .stage stageId => CarriedText stageId
  | .list items => CarriedItems items
  | .map fields => CarriedFields fields

def CarriedItems : List Value → Prop
  | [] => True
  | item :: items => Carried item ∧ CarriedItems items

def CarriedFields : List (String × Value) → Prop
  | [] => True
  | (key, child) :: fields => CarriedKey key ∧ Carried child ∧ CarriedFields fields

end

theorem carriedItems_iff {items : List Value} :
    CarriedItems number items ↔ ∀ item ∈ items, Carried number item := by
  induction items with
  | nil => simp [CarriedItems]
  | cons item items ih => simp [CarriedItems, ih]

theorem carriedFields_iff {fields : List (String × Value)} :
    CarriedFields number fields ↔ ∀ field ∈ fields, CarriedKey field.1 ∧ Carried number field.2 := by
  induction fields with
  | nil => simp [CarriedFields]
  | cons field fields ih => simp [CarriedFields, ih, and_assoc]

theorem Carried.mono {number more : UInt64 → Prop} {v : Value} (h : Carried number v)
    (hmore : ∀ bits, number bits → more bits) : Carried more v := by
  induction v with
  | number bits => exact hmore bits h
  | list items ih =>
    rw [Carried, carriedItems_iff] at h ⊢
    exact fun item hitem => ih item hitem (h item hitem)
  | map fields ih =>
    rw [Carried, carriedFields_iff] at h ⊢
    exact fun field hfield => ⟨(h field hfield).1, ih field hfield (h field hfield).2⟩
  | _ => exact h

end

/-- The value can be carried, its numbers as they are emitted. -/
abbrev CarriedBy : Value → Prop := Carried fun bits => NumberShaped (numberText fmt bits)

/-- No line at the left margin starts or ends a document. -/
def Unmarked : Value → Prop
  | .string s => needsQuotes s = false → isMarker s.toList = false
  | .map fields => ∀ field ∈ fields, needsQuotes field.1 = false →
      isMarker (field.1.toList ++ [':', ' ']) = false
  | _ => True

/-! ## Scalars -/

theorem plainChar_of_not_special {c : Char} (h : specialChar c = false) (hdel : c ≠ '\x7f') :
    plainChar c = true := by
  have hcode : c.toNat ≠ 0x7f := by
    intro hcode
    exact hdel (Char.toNat_inj.mp (by rw [hcode]; rfl))
  unfold specialChar at h
  simp only [Bool.or_eq_false_iff, decide_eq_false_iff_not] at h
  obtain ⟨⟨hmem, hlow⟩, hhigh⟩ := h
  unfold plainChar
  simp only [Bool.and_eq_true, decide_eq_true_eq]
  refine ⟨⟨by omega, by omega⟩, fun hindicator => hmem ?_⟩
  simp at hindicator ⊢
  tauto

section

variable {s : String}

theorem unquoted_chars (h : needsQuotes s = false) : ∀ c ∈ s.toList, specialChar c = false := by
  unfold needsQuotes at h
  simp only [Bool.or_eq_false_iff, List.any_eq_false] at h
  intro c hc
  simpa using h.1.2 c hc

theorem unquoted_ne_nil (h : needsQuotes s = false) : s.toList ≠ [] := by
  unfold needsQuotes at h
  simp only [Bool.or_eq_false_iff] at h
  intro hnil
  have hempty : s = "" := by simpa using hnil
  rw [hempty] at h
  exact nomatch h.1.1

theorem CarriedText.plain (hcarried : CarriedText s) (h : needsQuotes s = false) :
    (∀ c ∈ s.toList, plainChar c = true) ∧ plainStart (strip s.toList) = true := by
  rw [CarriedText, h] at hcarried
  obtain ⟨hdel, hstart⟩ := hcarried
  refine ⟨fun c hc => plainChar_of_not_special (unquoted_chars h c hc) ?_, hstart⟩
  rintro rfl
  exact hdel hc

theorem CarriedText.quoted (hcarried : CarriedText s) (h : needsQuotes s = true) :
    ∀ c ∈ s.toList, 0x20 ≤ c.toNat ∨ c = '\t' ∨ c = '\n' := by
  rwa [CarriedText, h] at hcarried

theorem quoteIfNeeded_unquoted (h : needsQuotes s = false) : quoteIfNeeded s = s := by
  simp [quoteIfNeeded, h]

theorem quoteIfNeeded_quoted (h : needsQuotes s = true) :
    (quoteIfNeeded s).toList = '"' :: (s.toList.flatMap escapeYaml ++ ['"']) := by
  simp [quoteIfNeeded, h]

theorem readQuoted_escaped {cs : List Char} (h : ∀ c ∈ cs, 0x20 ≤ c.toNat ∨ c = '\t' ∨ c = '\n')
    (rest : List Char) : readQuoted (cs.flatMap escapeYaml ++ '"' :: rest) = some (cs, rest) := by
  induction cs with
  | nil =>
    rw [List.flatMap_nil, List.nil_append, readQuoted.eq_def]
    exact if_pos rfl
  | cons c cs ih =>
    have htail := ih fun d hd => h d (List.mem_cons_of_mem _ hd)
    rw [List.flatMap_cons, List.append_assoc, escapeYaml]
    split_ifs with hquote hslash hnewline
    · subst hquote
      rw [List.cons_append, List.cons_append, List.nil_append, readQuoted.eq_def]
      dsimp only
      rw [if_neg (by decide), if_pos rfl, if_pos (.inl rfl), htail]
      rfl
    · subst hslash
      rw [List.cons_append, List.cons_append, List.nil_append, readQuoted.eq_def]
      dsimp only
      rw [if_neg (by decide), if_pos rfl, if_pos (.inr rfl), htail]
      rfl
    · subst hnewline
      rw [List.cons_append, List.cons_append, List.nil_append, readQuoted.eq_def]
      dsimp only
      rw [if_neg (by decide), if_pos rfl, if_neg (by decide), if_pos rfl, htail]
      rfl
    · have hraw : ¬(c.toNat < 0x20 ∧ c ≠ '\t') := by
        rintro ⟨hlow, htab⟩
        rcases h c List.mem_cons_self with hprintable | rfl | rfl
        · omega
        · exact htab rfl
        · exact hnewline rfl
      rw [List.singleton_append, readQuoted.eq_def]
      dsimp only
      rw [if_neg hquote, if_neg hslash, if_neg hraw, htail]
      rfl

theorem readScalar_quoteIfNeeded (h : CarriedText s) :
    readScalar (quoteIfNeeded s).toList = some (scalarNode s) := by
  unfold scalarNode
  cases hquotes : needsQuotes s with
  | true =>
    rw [quoteIfNeeded_quoted hquotes, if_pos rfl]
    exact readScalar_quoted (readQuoted_escaped (h.quoted hquotes) [])
  | false =>
    obtain ⟨hchars, hstart⟩ := h.plain hquotes
    rw [quoteIfNeeded_unquoted hquotes, if_neg (by decide)]
    exact readScalar_plain (List.all_eq_true.mpr fun c hc => hchars c (mem_strip hc)) hstart

theorem readKey_quoteIfNeeded (h : CarriedKey s) (after : List Char) :
    readKey ((quoteIfNeeded s).toList ++ ':' :: ' ' :: after) = some (scalarNode s, after) := by
  obtain ⟨htext, hkept, hshort⟩ := h
  unfold scalarNode
  rw [← String.length_toList] at hshort
  cases hquotes : needsQuotes s with
  | true =>
    rw [quoteIfNeeded_quoted hquotes] at hshort ⊢
    rw [if_pos rfl, List.cons_append, List.append_assoc, List.singleton_append]
    refine readKey_quoted (readQuoted_escaped (htext.quoted hquotes)) ?_
    simp only [List.length_cons, List.length_append, List.length_nil] at hshort
    omega
  | false =>
    obtain ⟨hchars, hstart⟩ := htext.plain hquotes
    have hstrip : strip s.toList = s.toList := by
      rcases hkept with hquoted | hkept
      · rw [hquotes] at hquoted
        exact nomatch hquoted
      · exact hkept.1
    rw [hstrip] at hstart ⊢
    rw [quoteIfNeeded_unquoted hquotes] at hshort ⊢
    rw [if_neg (by decide)]
    exact readKey_plain (unquoted_ne_nil hquotes) hstrip (List.all_eq_true.mpr hchars) hstart hshort

theorem newline_notMem_quoteIfNeeded (s : String) : '\n' ∉ (quoteIfNeeded s).toList := by
  have hescape : ∀ c, '\n' ∉ escapeYaml c := by
    intro c
    unfold escapeYaml
    split_ifs with hquote hslash hnewline
    · decide
    · decide
    · decide
    · rw [List.mem_singleton]
      exact fun h => hnewline h.symm
  cases hquotes : needsQuotes s with
  | true =>
    rw [quoteIfNeeded_quoted hquotes]
    simp only [List.mem_cons, List.mem_append, List.mem_flatMap]
    rintro (h | ⟨c, -, hc⟩ | h | h)
    · exact absurd h (by decide)
    · exact hescape c hc
    · exact absurd h (by decide)
    · exact nomatch h
  | false =>
    rw [quoteIfNeeded_unquoted hquotes]
    intro h
    exact absurd (unquoted_chars hquotes '\n' h) (by decide)

end

/-! ## Lines -/

/-- What stands on the line where a value begins; nothing of a block. -/
def inlineText (v : Value) : String :=
  match v with
  | .list items => if items.isEmpty then "[]" else ""
  | .map fields => if fields.isEmpty then "\x7b\x7d" else ""
  | _ => emitIndented fmt v 0

mutual

/-- The lines below it. -/
def belowLines : Value → ℕ → List Line
  | .list items, indent => itemLines items indent
  | .map fields, indent => fieldLines fields indent
  | _, _ => []

def itemLines : List Value → ℕ → List Line
  | [], _ => []
  | item :: items, indent =>
    (indent, '-' :: ' ' :: (inlineText fmt item).toList) ::
      (belowLines item (indent + 2) ++ itemLines items indent)

def fieldLines : List (String × Value) → ℕ → List Line
  | [], _ => []
  | (key, child) :: fields, indent =>
    (indent, (quoteIfNeeded key).toList ++ ':' :: ' ' :: (inlineText fmt child).toList) ::
      (belowLines child (indent + 2) ++ fieldLines fields indent)

end

def linesText (lines : List Line) : List Char := (lines.map fullLine).flatMap ('\n' :: ·)

@[simp]
theorem linesText_nil : linesText [] = [] := rfl

@[simp]
theorem linesText_cons (line : Line) (lines : List Line) :
    linesText (line :: lines) = '\n' :: (fullLine line ++ linesText lines) := rfl

@[simp]
theorem linesText_append (lines more : List Line) :
    linesText (lines ++ more) = linesText lines ++ linesText more := by
  simp [linesText]

theorem emitIndented_eq (v : Value) : ∀ indent, (emitIndented fmt v indent).toList =
    (inlineText fmt v).toList ++ linesText (belowLines fmt v indent) := by
  induction v with
  | null => intro indent; simp [inlineText, emitIndented, belowLines]
  | boolean b => intro indent; simp [inlineText, emitIndented, belowLines]
  | number bits => intro indent; simp [inlineText, emitIndented, belowLines]
  | string s => intro indent; simp [inlineText, emitIndented, belowLines]
  | stage id => intro indent; simp [inlineText, emitIndented, belowLines]
  | list items ih =>
    intro indent
    have hitems : ∀ items : List Value, (∀ v ∈ items, ∀ indent, (emitIndented fmt v indent).toList =
        (inlineText fmt v).toList ++ linesText (belowLines fmt v indent)) →
        (emitItems fmt items indent).toList = linesText (itemLines fmt items indent) := by
      intro items hemit
      induction items with
      | nil => rfl
      | cons item items ihs =>
        have hhead := hemit item List.mem_cons_self (indent + 2)
        have htail := ihs fun v hv => hemit v (List.mem_cons_of_mem _ hv)
        simp [emitItems, itemLines, hhead, htail, fullLine, pad]
    rw [emitIndented, inlineText, belowLines]
    cases items with
    | nil => simp [itemLines]
    | cons item items => simpa using hitems _ ih
  | map fields ih =>
    intro indent
    have hfields : ∀ fields : List (String × Value), (∀ kv ∈ fields, ∀ indent,
        (emitIndented fmt kv.2 indent).toList =
          (inlineText fmt kv.2).toList ++ linesText (belowLines fmt kv.2 indent)) →
        (emitFields fmt fields indent).toList = linesText (fieldLines fmt fields indent) := by
      intro fields hemit
      induction fields with
      | nil => rfl
      | cons field fields ihs =>
        obtain ⟨key, child⟩ := field
        have hhead := hemit (key, child) List.mem_cons_self (indent + 2)
        have htail := ihs fun v hv => hemit v (List.mem_cons_of_mem _ hv)
        simp [emitFields, fieldLines, hhead, htail, fullLine, pad]
    rw [emitIndented, inlineText, belowLines]
    cases fields with
    | nil => simp [fieldLines]
    | cons field fields => simpa using hfields _ ih

theorem mem_itemLines {items : List Value} {indent : ℕ} {line : Line} :
    line ∈ itemLines fmt items indent ↔ ∃ item ∈ items,
      line = (indent, '-' :: ' ' :: (inlineText fmt item).toList) ∨
        line ∈ belowLines fmt item (indent + 2) := by
  induction items with
  | nil => simp [itemLines]
  | cons item items ih => simp [itemLines, ih, or_assoc]

theorem mem_fieldLines {fields : List (String × Value)} {indent : ℕ} {line : Line} :
    line ∈ fieldLines fmt fields indent ↔ ∃ field ∈ fields,
      line = (indent, (quoteIfNeeded field.1).toList ++ ':' :: ' ' :: (inlineText fmt field.2).toList) ∨
        line ∈ belowLines fmt field.2 (indent + 2) := by
  induction fields with
  | nil => simp [fieldLines]
  | cons field fields ih =>
    obtain ⟨key, child⟩ := field
    simp [fieldLines, ih, or_assoc]

theorem le_of_mem_belowLines (v : Value) :
    ∀ indent, ∀ line ∈ belowLines fmt v indent, indent ≤ line.1 := by
  induction v with
  | list items ih =>
    intro indent line hline
    rw [belowLines, mem_itemLines] at hline
    obtain ⟨item, hitem, rfl | hbelow⟩ := hline
    · exact Nat.le_refl _
    · have hdeep := ih item hitem (indent + 2) line hbelow
      omega
  | map fields ih =>
    intro indent line hline
    rw [belowLines, mem_fieldLines] at hline
    obtain ⟨field, hfield, rfl | hbelow⟩ := hline
    · exact Nat.le_refl _
    · have hdeep := ih field hfield (indent + 2) line hbelow
      omega
  | _ => intro indent line hline; exact nomatch hline

theorem numericChar_of_isDigit {c : Char} (h : c.isDigit = true) : numericChar c = true := by
  have hcodes : ∀ n < 58, 48 ≤ n → numericChar (Char.ofNat n) = true := by decide
  rw [Char.isDigit, Bool.and_eq_true, decide_eq_true_eq, decide_eq_true_eq] at h
  have hlow : 48 ≤ c.toNat := h.1
  have hhigh : c.toNat ≤ 57 := h.2
  have hnumeric := hcodes c.toNat (by omega) hlow
  rwa [Char.ofNat_toNat] at hnumeric

theorem NumberShaped.chars {text : String} (h : NumberShaped text) :
    ∀ c ∈ text.toList, numericChar c = true := by
  obtain ⟨sign, first, rest, htext, hsign, hfirst, hrest⟩ := h
  have hdigit := numericChar_of_isDigit hfirst
  intro c hc
  rw [htext, List.mem_append, List.mem_cons] at hc
  rcases hc with hc | rfl | hc
  · rcases hsign with rfl | rfl
    · exact nomatch hc
    · rw [List.mem_singleton.mp hc]
      decide
  · exact hdigit
  · exact hrest c hc

theorem newline_notMem_inlineText {v : Value} (h : CarriedBy fmt v) :
    '\n' ∉ (inlineText fmt v).toList := by
  cases v with
  | null => simp [inlineText, emitIndented]
  | boolean b => cases b <;> simp [inlineText, emitIndented]
  | number bits =>
    intro hmem
    exact absurd (h.chars '\n' hmem) (by decide)
  | string s => exact newline_notMem_quoteIfNeeded s
  | stage id =>
    have hid := newline_notMem_quoteIfNeeded id
    simp [inlineText, emitIndented, hid]
  | list items => cases items <;> simp [inlineText]
  | map fields => cases fields <;> simp [inlineText]

theorem CarriedKey.head {key : String} (h : CarriedKey key) (more : List Char) :
    ∀ c ∈ ((quoteIfNeeded key).toList ++ more).head?, isBlank c = false := by
  intro c hc
  cases hquotes : needsQuotes key with
  | true =>
    rw [quoteIfNeeded_quoted hquotes] at hc
    obtain rfl := Option.some.inj hc
    rfl
  | false =>
    rw [quoteIfNeeded_unquoted hquotes] at hc
    have hstrip : strip key.toList = key.toList := by
      rcases h.kept with hquoted | hkept
      · rw [hquotes] at hquoted
        exact nomatch hquoted
      · exact hkept.1
    exact head_of_strip hstrip (unquoted_ne_nil hquotes) hc

theorem oneLine_of_mem_belowLines {v : Value} (h : CarriedBy fmt v) :
    ∀ indent, ∀ line ∈ belowLines fmt v indent, OneLine line := by
  induction v with
  | list items ih =>
    intro indent line hline
    rw [belowLines, mem_itemLines] at hline
    rw [CarriedBy, Carried, carriedItems_iff] at h
    obtain ⟨item, hitem, rfl | hbelow⟩ := hline
    · refine ⟨?_, fun c hc => ?_⟩
      · have hinline := newline_notMem_inlineText fmt (h item hitem)
        simp [hinline]
      · obtain rfl := Option.some.inj hc
        rfl
    · exact ih item hitem (h item hitem) (indent + 2) line hbelow
  | map fields ih =>
    intro indent line hline
    rw [belowLines, mem_fieldLines] at hline
    rw [CarriedBy, Carried, carriedFields_iff] at h
    obtain ⟨field, hfield, rfl | hbelow⟩ := hline
    · refine ⟨?_, (h field hfield).1.head _⟩
      have hinline := newline_notMem_inlineText fmt (h field hfield).2
      have hkey := newline_notMem_quoteIfNeeded field.1
      simp [hinline, hkey]
    · exact ih field hfield (h field hfield).2 (indent + 2) line hbelow
  | _ => intro indent line hline; exact nomatch hline

/-! ## Reading the lines -/

theorem readInline_plain {cs : List Char} (hchars : ∀ c ∈ cs, plainChar c = true)
    (hstart : plainStart (strip cs) = true) :
    readInline cs = some (plainNode (String.ofList (strip cs))) := by
  have hscalar := readScalar_plain
    (List.all_eq_true.mpr fun c hc => hchars c (mem_strip hc)) hstart
  cases cs with
  | nil => exact hscalar
  | cons c cs =>
    have hc := hchars c List.mem_cons_self
    have hbracket : c ≠ '[' := plainChar_ne hc (by decide)
    have hbrace : c ≠ '{' := plainChar_ne hc (by decide)
    rw [readInline, if_neg (by simp [hbracket]), if_neg (by simp [hbrace])]
    rw [if_neg hbrace, hscalar]

theorem readInline_word {word : String} (hchars : ∀ c ∈ word.toList, plainChar c = true)
    (hstrip : strip word.toList = word.toList) (hstart : plainStart word.toList = true) :
    readInline word.toList = some (plainNode word) := by
  rw [readInline_plain hchars (by rw [hstrip]; exact hstart), hstrip, String.ofList_toList]

theorem plainChar_of_numericChar {c : Char} (h : numericChar c = true) :
    plainChar c = true ∧ isBlank c = false := by
  have hall : ∀ c ∈ "0123456789-+.eE_".toList, plainChar c = true ∧ isBlank c = false := by decide
  exact hall c (of_decide_eq_true h)

theorem NumberShaped.plain {text : String} (h : NumberShaped text) :
    (∀ c ∈ text.toList, plainChar c = true) ∧ strip text.toList = text.toList ∧
      plainStart text.toList = true := by
  have hchars := h.chars
  obtain ⟨sign, first, rest, htext, hsign, hfirst, -⟩ := h
  refine ⟨fun c hc => (plainChar_of_numericChar (hchars c hc)).1,
    strip_eq_self (fun c hc => ?_) (fun c hc => ?_), ?_⟩
  · exact (plainChar_of_numericChar (hchars c (List.mem_of_mem_head? hc))).2
  · exact (plainChar_of_numericChar (hchars c (List.mem_of_mem_getLast? hc))).2
  · rw [htext]
    rcases hsign with rfl | rfl
    · have hdash : first ≠ '-' := by rintro rfl; exact nomatch hfirst
      have hmark : first ≠ '?' := by rintro rfl; exact nomatch hfirst
      simp [plainStart, hdash, hmark]
    · simp [plainStart, (plainChar_of_numericChar (numericChar_of_isDigit hfirst)).2]

theorem NumberShaped.unmarked {text : String} (h : NumberShaped text) :
    isMarker text.toList = false := by
  obtain ⟨sign, first, rest, htext, hsign, hfirst, -⟩ := h
  have hdash : first ≠ '-' := by rintro rfl; exact nomatch hfirst
  have hdot : first ≠ '.' := by rintro rfl; exact nomatch hfirst
  rw [htext]
  rcases hsign with rfl | rfl
  · exact isMarker_of_head hdash hdot rest
  · simp [isMarker, hdash]

theorem NumberShaped.not_null {text : String} (h : NumberShaped text) : text ∉ nullSpellings := by
  obtain ⟨sign, first, rest, htext, -, hfirst, -⟩ := h
  have hnone : ∀ s ∈ nullSpellings, ∀ c ∈ s.toList, c.isDigit = false := by decide
  intro hmem
  have hdigit := hnone text hmem first (by rw [htext]; simp)
  rw [hfirst] at hdigit
  exact nomatch hdigit

theorem NumberShaped.read {text : String} (h : NumberShaped text) :
    readInline text.toList = some (.scalar noMark plainTag text) := by
  obtain ⟨hchars, hstrip, hstart⟩ := h.plain
  rw [readInline_word hchars hstrip hstart, plainNode, if_neg h.not_null]

theorem readInline_quoteIfNeeded {s : String} (h : CarriedText s) :
    readInline (quoteIfNeeded s).toList = some (scalarNode s) := by
  cases hquotes : needsQuotes s with
  | true =>
    have hscalar := readScalar_quoteIfNeeded h
    rw [quoteIfNeeded_quoted hquotes] at hscalar ⊢
    rw [readInline, if_neg (by simp), if_neg (by simp)]
    rw [if_neg (by decide), hscalar]
  | false =>
    obtain ⟨hchars, hstart⟩ := h.plain hquotes
    rw [quoteIfNeeded_unquoted hquotes, readInline_plain hchars hstart, scalarNode, hquotes]
    rfl

theorem readInline_stage {id : String} (h : CarriedText id) :
    readInline ("\x7bfrom: " ++ quoteIfNeeded id ++ "\x7d").toList =
      some (.map noMark [(fromKey, scalarNode id)]) := by
  have hkey : readKey ("from".toList ++ ':' :: ' ' :: (quoteIfNeeded id).toList) =
      some (plainNode "from", (quoteIfNeeded id).toList) :=
    readKey_plain (by decide) (by decide) (by decide) (by decide) (by decide)
  have hfrom : plainNode "from" = fromKey := if_neg (by decide)
  have hpair := readPair_of hkey (readScalar_quoteIfNeeded h)
  have htext : ("\x7bfrom: " ++ quoteIfNeeded id ++ "\x7d").toList =
      '{' :: (("from".toList ++ ':' :: ' ' :: (quoteIfNeeded id).toList) ++ ['}']) := by
    simp
  rw [htext, readInline, if_neg (by simp), if_neg (by simp)]
  rw [if_pos rfl, hpair, hfrom]

theorem readInline_inlineText {v : Value} (h : CarriedBy fmt v) {indent : ℕ}
    (hbelow : belowLines fmt v indent = []) :
    readInline (inlineText fmt v).toList = some (nodeOf fmt v) := by
  cases v with
  | null =>
    have hnull : plainNode "null" = .null noMark := if_pos (by decide)
    have hinline : inlineText fmt .null = "null" := by simp [inlineText, emitIndented]
    rw [hinline, readInline_word (by decide) (by decide) (by decide), hnull, nodeOf]
  | boolean b =>
    have hword : ∀ word ∈ ["true", "false"],
        readInline word.toList = some (.scalar noMark plainTag word) := by
      intro word hword
      have hplain : ∀ word ∈ ["true", "false"], (∀ c ∈ word.toList, plainChar c = true) ∧
          strip word.toList = word.toList ∧ plainStart word.toList = true ∧ word ∉ nullSpellings := by
        decide
      obtain ⟨hchars, hstrip, hstart, hnull⟩ := hplain word hword
      rw [readInline_word hchars hstrip hstart, plainNode, if_neg hnull]
    have hinline : inlineText fmt (.boolean b) = if b then "true" else "false" := by
      simp [inlineText, emitIndented]
    rw [hinline, nodeOf, hword]
    cases b <;> decide
  | number bits => exact NumberShaped.read h
  | string s => exact readInline_quoteIfNeeded h
  | stage id => exact readInline_stage h
  | list items =>
    cases items with
    | nil => simp [inlineText, readInline, nodeOf, nodesOf]
    | cons item items => exact nomatch hbelow
  | map fields =>
    cases fields with
    | nil => simp [inlineText, readInline, nodeOf, entriesOf]
    | cons field fields => exact nomatch hbelow

theorem inlineText_of_below {v : Value} {indent : ℕ} (hbelow : belowLines fmt v indent ≠ []) :
    inlineText fmt v = "" := by
  cases v with
  | list items =>
    cases items with
    | nil => exact absurd (by simp [belowLines, itemLines]) hbelow
    | cons item items => simp [inlineText]
  | map fields =>
    cases fields with
    | nil => exact absurd (by simp [belowLines, fieldLines]) hbelow
    | cons field fields => simp [inlineText]
  | _ => exact absurd (by simp [belowLines]) hbelow

theorem deeper_belowLines (v : Value) (indent : ℕ) :
    ∀ line ∈ belowLines fmt v (indent + 2), indent < line.1 := by
  intro line hline
  have hle := le_of_mem_belowLines fmt v (indent + 2) line hline
  omega

theorem groups_itemLines (items : List Value) (indent : ℕ) :
    groups indent (itemLines fmt items indent) = some ([], items.map fun item =>
      ('-' :: ' ' :: (inlineText fmt item).toList, belowLines fmt item (indent + 2))) := by
  induction items with
  | nil => rfl
  | cons item items ih => exact groups_cons (deeper_belowLines fmt item indent) ih

theorem groups_fieldLines (fields : List (String × Value)) (indent : ℕ) :
    groups indent (fieldLines fmt fields indent) = some ([], fields.map fun field =>
      ((quoteIfNeeded field.1).toList ++ ':' :: ' ' :: (inlineText fmt field.2).toList,
        belowLines fmt field.2 (indent + 2))) := by
  induction fields with
  | nil => rfl
  | cons field fields ih => exact groups_cons (deeper_belowLines fmt field.2 indent) ih

theorem readDash_of_ne {c : Char} (h : c ≠ '-') (cs : List Char) : readDash (c :: cs) = none := by
  cases cs <;> simp [readDash, h]

theorem readDash_key {key : String} (h : CarriedKey key) (after : List Char) :
    readDash ((quoteIfNeeded key).toList ++ ':' :: ' ' :: after) = none := by
  cases hquotes : needsQuotes key with
  | true =>
    rw [quoteIfNeeded_quoted hquotes, List.cons_append]
    exact readDash_of_ne (by decide) _
  | false =>
    obtain ⟨-, hstart⟩ := h.text.plain hquotes
    have hstrip : strip key.toList = key.toList := by
      rcases h.kept with hquoted | hkept
      · rw [hquotes] at hquoted
        exact nomatch hquoted
      · exact hkept.1
    rw [hstrip] at hstart
    rw [quoteIfNeeded_unquoted hquotes]
    cases hkey : key.toList with
    | nil => exact absurd hkey (unquoted_ne_nil hquotes)
    | cons c cs =>
      rw [hkey] at hstart
      by_cases hdash : c = '-'
      · subst hdash
        cases cs with
        | nil => exact nomatch hstart
        | cons d cs =>
          have hblank : isBlank d = false := by simpa [plainStart] using hstart
          have hd : d ≠ ' ' := by
            rintro rfl
            exact nomatch hblank
          simp [readDash, hd]
      · exact readDash_of_ne hdash _

theorem readContent_of {v : Value} (h : CarriedBy fmt v) {indent fuel : ℕ}
    (hblock : belowLines fmt v indent ≠ [] →
      readBlock fuel (belowLines fmt v indent) = some (nodeOf fmt v)) :
    readContent (readBlock fuel) (inlineText fmt v).toList (belowLines fmt v indent) =
      some (nodeOf fmt v) := by
  unfold readContent
  by_cases hbelow : belowLines fmt v indent = []
  · rw [if_pos hbelow, readInline_inlineText fmt h hbelow]
  · rw [if_neg hbelow, inlineText_of_below fmt hbelow, hblock hbelow]
    rfl

theorem length_below_lt_items {items : List Value} {item : Value} (hitem : item ∈ items) (indent : ℕ) :
    (belowLines fmt item (indent + 2)).length < (itemLines fmt items indent).length := by
  induction items with
  | nil => exact nomatch hitem
  | cons head items ih =>
    rw [itemLines, List.length_cons, List.length_append]
    rcases List.mem_cons.mp hitem with rfl | hitem
    · omega
    · have hlt := ih hitem
      omega

theorem length_below_lt_fields {fields : List (String × Value)} {field : String × Value}
    (hfield : field ∈ fields) (indent : ℕ) :
    (belowLines fmt field.2 (indent + 2)).length < (fieldLines fmt fields indent).length := by
  induction fields with
  | nil => exact nomatch hfield
  | cons head fields ih =>
    obtain ⟨key, child⟩ := head
    rw [fieldLines, List.length_cons, List.length_append]
    rcases List.mem_cons.mp hfield with rfl | hfield
    · show (belowLines fmt child (indent + 2)).length < _
      omega
    · have hlt := ih hfield
      omega

theorem keyText_scalarNode {key : String} (h : Kept key) : keyText (scalarNode key) = key := by
  unfold scalarNode
  split_ifs with hquotes
  · simp [keyText, quotedNode]
  · rcases h with hquoted | ⟨hstrip, hnull⟩
    · exact absurd hquoted hquotes
    · rw [hstrip, String.ofList_toList, plainNode, if_neg hnull]
      rfl

theorem readBlock_belowLines {v : Value} (h : CarriedBy fmt v) (hordered : v.Ordered) :
    ∀ indent fuel, belowLines fmt v indent ≠ [] → (belowLines fmt v indent).length ≤ fuel →
      readBlock fuel (belowLines fmt v indent) = some (nodeOf fmt v) := by
  induction v with
  | list items ih =>
    intro indent fuel hne hfuel
    rw [CarriedBy, Carried, carriedItems_iff] at h
    rw [Value.Ordered, Value.orderedItems_iff] at hordered
    rw [belowLines] at hne hfuel ⊢
    obtain ⟨fuel, rfl⟩ : ∃ n, fuel = n + 1 :=
      Nat.exists_eq_add_of_le' (Nat.lt_of_lt_of_le (List.length_pos_iff.mpr hne) hfuel)
    have hitems : allSome (readItem (readBlock fuel)) (items.map fun item =>
        ('-' :: ' ' :: (inlineText fmt item).toList, belowLines fmt item (indent + 2))) =
        some (items.map (nodeOf fmt)) := by
      refine allSome_map fun item hitem => ?_
      have hshort := length_below_lt_items fmt hitem indent
      have hcontent := readContent_of fmt (h item hitem)
        (ih item hitem (h item hitem) (hordered item hitem) (indent + 2) fuel · (by omega))
      exact hcontent
    have hgroups := groups_itemLines fmt items indent
    cases items with
    | nil => exact absurd rfl hne
    | cons item items =>
      rw [itemLines] at hgroups ⊢
      have hdash : (readDash ('-' :: ' ' :: (inlineText fmt item).toList)).isSome = true := by
        simp [readDash]
      rw [readBlock, if_pos hdash, hgroups, Option.bind_some, hitems, nodeOf, nodesOf_eq]
      rfl
  | map fields ih =>
    intro indent fuel hne hfuel
    rw [CarriedBy, Carried, carriedFields_iff] at h
    rw [Value.Ordered, Value.orderedFields_iff] at hordered
    rw [belowLines] at hne hfuel ⊢
    obtain ⟨fuel, rfl⟩ : ∃ n, fuel = n + 1 :=
      Nat.exists_eq_add_of_le' (Nat.lt_of_lt_of_le (List.length_pos_iff.mpr hne) hfuel)
    have hfields : allSome (readField (readBlock fuel)) (fields.map fun field =>
        ((quoteIfNeeded field.1).toList ++ ':' :: ' ' :: (inlineText fmt field.2).toList,
          belowLines fmt field.2 (indent + 2))) =
        some (fields.map fun field => (scalarNode field.1, nodeOf fmt field.2)) := by
      refine allSome_map fun field hfield => ?_
      have hshort := length_below_lt_fields fmt hfield indent
      have hcontent := readContent_of fmt (h field hfield).2
        (ih field hfield (h field hfield).2 (hordered.2 field hfield) (indent + 2) fuel · (by omega))
      rw [readField, readKey_quoteIfNeeded (h field hfield).1, Option.bind_some, hcontent]
      rfl
    have hkeys : ((fields.map fun field => (scalarNode field.1, nodeOf fmt field.2)).map
        fun entry => keyText entry.1) = fields.map (·.1) := by
      rw [List.map_map]
      exact List.map_congr_left fun field hfield => keyText_scalarNode (h field hfield).1.kept
    have hdistinct : (fields.map (·.1)).Nodup := hordered.1.imp fun hlt => ne_of_lt hlt
    have hmapping : mappingOf (fields.map fun field => (scalarNode field.1, nodeOf fmt field.2)) =
        some (nodeOf fmt (.map fields)) := by
      rw [mappingOf, hkeys, if_pos hdistinct, nodeOf, entriesOf_eq]
    have hgroups := groups_fieldLines fmt fields indent
    cases fields with
    | nil => exact absurd rfl hne
    | cons field fields =>
      obtain ⟨key, child⟩ := field
      have hkey := (h (key, child) List.mem_cons_self).1
      rw [fieldLines] at hgroups ⊢
      have hsome : (readKey ((quoteIfNeeded key).toList ++ ':' :: ' ' ::
          (inlineText fmt child).toList)).isSome = true := by
        rw [readKey_quoteIfNeeded hkey]
        rfl
      rw [readBlock, readDash_key hkey, if_neg (by decide), if_pos hsome, hgroups, Option.bind_some,
        hfields, Option.bind_some, hmapping]
  | _ => intro indent fuel hne; exact absurd (by simp [belowLines]) hne

/-! ## Documents -/

theorem isMarker_key {key : List Char} (hne : key ≠ []) (more : List Char) :
    isMarker (key ++ ':' :: ' ' :: more) = isMarker (key ++ [':', ' ']) := by
  match key, hne with
  | [a], _ => simp [isMarker]
  | [a, b], _ => simp [isMarker]
  | [a, b, c], _ => simp [isMarker]
  | a :: b :: c :: d :: key, _ => simp [isMarker]

theorem readDocument_inlineText {v : Value} (h : CarriedBy fmt v) (hroot : Unmarked v)
    (hbelow : belowLines fmt v 0 = []) :
    readDocument (inlineText fmt v).toList = some (nodeOf fmt v) := by
  have hinline := readInline_inlineText fmt h hbelow
  have hbracket : ∀ c cs, (inlineText fmt v).toList = c :: cs → isBlank c = false → c ≠ '-' → c ≠ '.' →
      readKey (c :: cs) = none → readDocument (inlineText fmt v).toList = some (nodeOf fmt v) := by
    intro c cs htext hblank hdash hdot hkey
    have hlineOf : lineOf (c :: cs) = (0, c :: cs) := by
      have hnot : ¬isBlank c = true := by simp [hblank]
      rw [lineOf, List.takeWhile_cons_of_neg hnot, List.dropWhile_cons_of_neg hnot]
      rfl
    have hnewline := newline_notMem_inlineText fmt h
    rw [htext] at hnewline hinline ⊢
    rw [readDocument_line hnewline (by rw [hlineOf]; exact fun _ => isMarker_of_head hdash hdot cs)
      (by rw [hlineOf]; exact readDash_of_ne hdash cs) (by rw [hlineOf]; exact hkey), hlineOf]
    exact hinline
  have hplain : ∀ text : String, inlineText fmt v = text → (∀ c ∈ text.toList, plainChar c = true) →
      plainStart (strip text.toList) = true → isMarker text.toList = false →
      readDocument (inlineText fmt v).toList = some (nodeOf fmt v) := by
    rintro text rfl hchars hstart hmarker
    have hbody : ∀ c ∈ (lineOf (inlineText fmt v).toList).2, plainChar c = true := fun c hc =>
      hchars c ((List.dropWhile_sublist _).subset hc)
    have hsame : strip (lineOf (inlineText fmt v).toList).2 = strip (inlineText fmt v).toList :=
      strip_dropWhile _
    rw [readDocument_plain hchars hstart hmarker, readInline_plain hbody (by rw [hsame]; exact hstart),
      hsame, ← readInline_plain hchars hstart, hinline]
  cases v with
  | null =>
    exact hplain "null" (by simp [inlineText, emitIndented]) (by decide) (by decide) (by decide)
  | boolean b =>
    cases b with
    | true => exact hplain "true" (by simp [inlineText, emitIndented]) (by decide) (by decide) (by decide)
    | false =>
      exact hplain "false" (by simp [inlineText, emitIndented]) (by decide) (by decide) (by decide)
  | number bits =>
    have hshaped : NumberShaped (numberText fmt bits) := h
    obtain ⟨hchars, hstrip, hstart⟩ := hshaped.plain
    exact hplain (numberText fmt bits) (by simp [inlineText, emitIndented]) hchars
      (by rw [hstrip]; exact hstart) hshaped.unmarked
  | string s =>
    cases hquotes : needsQuotes s with
    | true =>
      have htext : (inlineText fmt (.string s)).toList = '"' :: (s.toList.flatMap escapeYaml ++ ['"']) :=
        quoteIfNeeded_quoted hquotes
      refine hbracket _ _ htext rfl (by decide) (by decide) ?_
      have htext' : CarriedText s := h
      rw [readKey, if_pos rfl, readQuoted_escaped (htext'.quoted hquotes) []]
      rfl
    | false =>
      have htext' : CarriedText s := h
      obtain ⟨hchars, hstart⟩ := htext'.plain hquotes
      exact hplain s (quoteIfNeeded_unquoted hquotes) hchars hstart (hroot hquotes)
  | stage id =>
    have htext : (inlineText fmt (.stage id)).toList =
        '{' :: ("from".toList ++ ':' :: ' ' :: ((quoteIfNeeded id).toList ++ ['}'])) := by
      simp [inlineText, emitIndented]
    refine hbracket _ _ htext rfl (by decide) (by decide) ?_
    have hnone : readPlain ['{', 'f', 'r', 'o', 'm'] = none := by decide
    simp [readKey, hnone]
  | list items =>
    cases items with
    | nil => exact hbracket '[' [']'] (by simp [inlineText]) rfl (by decide) (by decide) rfl
    | cons item items => cases hbelow
  | map fields =>
    cases fields with
    | nil => exact hbracket '{' ['}'] (by simp [inlineText]) rfl (by decide) (by decide) rfl
    | cons field fields => cases hbelow

theorem linesText_belowLines_unmarked {v : Value} (h : CarriedBy fmt v) (hroot : Unmarked v) :
    ∀ line ∈ belowLines fmt v 0, line.1 = 0 → isMarker line.2 = false := by
  intro line hline hmargin
  cases v with
  | list items =>
    rw [belowLines, mem_itemLines] at hline
    obtain ⟨item, hitem, rfl | hbelow⟩ := hline
    · simp [isMarker]
    · have hdeep := le_of_mem_belowLines fmt item _ line hbelow
      omega
  | map fields =>
    rw [belowLines, mem_fieldLines] at hline
    rw [CarriedBy, Carried, carriedFields_iff] at h
    obtain ⟨field, hfield, rfl | hbelow⟩ := hline
    · cases hquotes : needsQuotes field.1 with
      | true =>
        show isMarker ((quoteIfNeeded field.1).toList ++ _) = false
        rw [quoteIfNeeded_quoted hquotes]
        exact isMarker_of_head (by decide) (by decide) _
      | false =>
        show isMarker ((quoteIfNeeded field.1).toList ++ _) = false
        rw [quoteIfNeeded_unquoted hquotes, isMarker_key (unquoted_ne_nil hquotes)]
        exact hroot field hfield hquotes
    · have hdeep := le_of_mem_belowLines fmt field.2 _ line hbelow
      omega
  | _ => cases hline

/-- The emitted text is a document, and its node is that of the value. -/
theorem readDocument_emitValueYaml {v : Value} (h : CarriedBy fmt v) (hordered : v.Ordered)
    (hroot : Unmarked v) : readDocument (emitValueYaml fmt v).toList = some (nodeOf fmt v) := by
  have htext := emitIndented_eq fmt v 0
  cases hbelow : belowLines fmt v 0 with
  | nil =>
    rw [hbelow, linesText_nil, List.append_nil] at htext
    have hsame : emitValueYaml fmt v = inlineText fmt v := by
      have hnewline := newline_notMem_inlineText fmt h
      have heq : emitIndented fmt v 0 = inlineText fmt v := String.toList_inj.mp htext
      unfold emitValueYaml
      rw [heq]
      cases hchars : (inlineText fmt v).toList with
      | nil => exact String.toList_inj.mp (by rw [hchars]; rfl)
      | cons c cs =>
        rw [hchars] at hnewline
        have hc : c ≠ '\n' := fun hc => hnewline (by rw [hc]; exact List.mem_cons_self)
        exact if_neg hc
    rw [hsame, readDocument_inlineText fmt h hroot hbelow]
  | cons first lines =>
    have hne : belowLines fmt v 0 ≠ [] := by rw [hbelow]; simp
    rw [inlineText_of_below fmt hne, hbelow, linesText_cons] at htext
    have hsame : (emitValueYaml fmt v).toList = fullLine first ++ linesText lines := by
      unfold emitValueYaml
      rw [htext]
      simp
    have hone := oneLine_of_mem_belowLines fmt h 0
    have hmarker := linesText_belowLines_unmarked fmt h hroot
    have hread := readBlock_belowLines fmt h hordered 0 (lines.length + 1) hne (by rw [hbelow]; rfl)
    rw [hbelow] at hone hmarker hread
    rw [hsame, linesText, readDocument_lines hone hmarker, hread]

end Souxmar.Pipeline
