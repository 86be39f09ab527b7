import Mathlib.Data.List.DropRight
import Souxmar.Lib.CharList
import Souxmar.Lib.Yaml

/-!
# Texts of YAML

A reader for a part of YAML 1.2: block sequences and block mappings with one-line keys, plain and
double-quoted scalars on one line, the empty flow collections, and flow mappings of one pair. It yields
the node of a text that lies in this part, and nothing for any other text. Lines have their indentation
cut off.
-/

namespace Souxmar.Lib.Yaml

abbrev Line : Type := ℕ × List Char

def isBlank (c : Char) : Bool := c = ' '

def lineOf (cs : List Char) : Line := ((cs.takeWhile isBlank).length, cs.dropWhile isBlank)

/-- White space around a scalar is no part of it. -/
def strip (cs : List Char) : List Char := (cs.dropWhile isBlank).rdropWhile isBlank

/-! ## Scalars -/

/-- Printable characters that mean nothing inside a plain scalar, in block and flow context. -/
def plainChar (c : Char) : Bool :=
  0x20 ≤ c.toNat && c.toNat < 0x7f && c ∉ ":#\"'\x7b\x7d[],&*!|>%@`\\".toList

/-- A dash or a question mark starts a plain scalar only with something behind it. -/
def plainStart : List Char → Bool
  | c :: cs => if c = '-' ∨ c = '?' then (match cs with | d :: _ => !isBlank d | [] => false) else true
  | [] => true

/-- The spellings of null in the core schema. -/
def nullSpellings : List String := ["", "~", "null", "Null", "NULL"]

def noMark : Mark := ⟨0, 0⟩

def plainTag : String := "?"

def plainNode (text : String) : Node :=
  if text ∈ nullSpellings then .null noMark else .scalar noMark plainTag text

def readPlain (cs : List Char) : Option Node :=
  if (strip cs).all plainChar ∧ plainStart (strip cs) then some (plainNode (String.ofList (strip cs)))
  else none

/-- A double-quoted scalar behind its opening quote. Control characters have to be escaped, but for the
tabulator. -/
def readQuoted : List Char → Option (List Char × List Char)
  | [] => none
  | c :: cs =>
    if c = '"' then some ([], cs)
    else if c = '\\' then
      match cs with
      | [] => none
      | e :: cs =>
        if e = '"' ∨ e = '\\' then (readQuoted cs).map fun r => (e :: r.1, r.2)
        else if e = 'n' then (readQuoted cs).map fun r => ('\n' :: r.1, r.2)
        else none
    else if c.toNat < 0x20 ∧ c ≠ '\t' then none
    else (readQuoted cs).map fun r => (c :: r.1, r.2)

def quotedNode (cs : List Char) : Node := .scalar noMark quotedTag (String.ofList cs)

def readScalar (cs : List Char) : Option Node :=
  match strip cs with
  | [] => readPlain cs
  | c :: body =>
    if c = '"' then (readQuoted body).bind fun r => if r.2 = [] then some (quotedNode r.1) else none
    else readPlain cs

/-- The text of a key on one line, of at most 1024 characters, up to its colon and the blank there. -/
def readKey : List Char → Option (Node × List Char)
  | [] => none
  | c :: body =>
    if c = '"' then
      (readQuoted body).bind fun r =>
        match r.2 with
        | d :: e :: after =>
          if d = ':' ∧ e = ' ' ∧ (c :: body).length ≤ after.length + 2 + 1024 then
            some (quotedNode r.1, after)
          else none
        | _ => none
    else
      let key := (c :: body).takeWhile (· ≠ ':')
      match (c :: body).dropWhile (· ≠ ':') with
      | _ :: e :: after =>
        if e = ' ' ∧ key.length ≤ 1024 then (readPlain key).map fun node => (node, after) else none
      | _ => none

/-! ## Flow collections -/

/-- A flow mapping of one pair behind its opening bracket. -/
def readPair (cs : List Char) : Option Node :=
  if cs.getLast? = some '}' then
    (readKey cs.dropLast).bind fun key =>
      (readScalar key.2).map fun value => .map noMark [(key.1, value)]
  else none

def readInline (cs : List Char) : Option Node :=
  if cs = ['[', ']'] then some (.sequence noMark [])
  else if cs = ['{', '}'] then some (.map noMark [])
  else
    match cs with
    | c :: body => if c = '{' then readPair body else readScalar cs
    | [] => readScalar cs

/-! ## Blocks -/

/-- The results of a reader that succeeds on every item. -/
def allSome {α β : Type} (f : α → Option β) : List α → Option (List β)
  | [] => some []
  | a :: as => (f a).bind fun b => (allSome f as).map fun bs => b :: bs

/-- The lines of a block at an indentation, each with the deeper lines behind it. In front stand the
deeper lines that no line of the block is in front of. -/
def groups (n : ℕ) : List Line → Option (List Line × List (List Char × List Line))
  | [] => some ([], [])
  | (i, body) :: lines =>
    (groups n lines).bind fun r =>
      if i = n then some ([], (body, r.1) :: r.2)
      else if n < i then some ((i, body) :: r.1, r.2)
      else none

/-- The text of an item of a block sequence. -/
def readDash : List Char → Option (List Char)
  | c :: d :: text => if c = '-' ∧ d = ' ' then some text else none
  | _ => none

/-- An item or a value: on its line, or as a block below it. -/
def readContent (block : List Line → Option Node) (text : List Char) (below : List Line) :
    Option Node :=
  if below = [] then readInline text
  else if text.all isBlank then block below
  else none

def readItem (block : List Line → Option Node) (group : List Char × List Line) : Option Node :=
  (readDash group.1).bind fun text => readContent block text group.2

def readField (block : List Line → Option Node) (group : List Char × List Line) :
    Option (Node × Node) :=
  (readKey group.1).bind fun key => (readContent block key.2 group.2).map fun value => (key.1, value)

def keyText : Node → String
  | .scalar _ _ text => text
  | _ => ""

/-- A block mapping; its keys have to be different. -/
def mappingOf (entries : List (Node × Node)) : Option Node :=
  if (entries.map fun entry => keyText entry.1).Nodup then some (.map noMark entries) else none

def readBlock : ℕ → List Line → Option Node
  | 0, _ => none
  | _ + 1, [] => none
  | fuel + 1, (n, body) :: lines =>
    if (readDash body).isSome then
      (groups n ((n, body) :: lines)).bind fun r =>
        (allSome (readItem (readBlock fuel)) r.2).map (.sequence noMark)
    else if (readKey body).isSome then
      (groups n ((n, body) :: lines)).bind fun r =>
        (allSome (readField (readBlock fuel)) r.2).bind mappingOf
    else if lines = [] then readInline body
    else none

/-- A line that starts or ends a document. -/
def isMarker (cs : List Char) : Bool :=
  (cs.take 3 = ['-', '-', '-'] || cs.take 3 = ['.', '.', '.']) &&
    match cs.drop 3 with
    | c :: _ => isBlank c
    | [] => true

def readDocument (text : List Char) : Option Node :=
  let lines := (text.splitOn '\n').map lineOf
  if lines.any fun line => line.1 = 0 && isMarker line.2 then none else readBlock lines.length lines

/-! ## Libraries -/

mutual

/-- The node without its places in the text. -/
def Node.unmark : Node → Node
  | .undefined _ => .undefined noMark
  | .null _ => .null noMark
  | .scalar _ tag text => .scalar noMark tag text
  | .sequence _ items => .sequence noMark (unmarkItems items)
  | .map _ entries => .map noMark (unmarkEntries entries)

def Node.unmarkItems : List Node → List Node
  | [] => []
  | node :: items => node.unmark :: unmarkItems items

def Node.unmarkEntries : List (Node × Node) → List (Node × Node)
  | [] => []
  | (key, value) :: entries => (key.unmark, value.unmark) :: unmarkEntries entries

end

/-- A library that reads the texts of this part of YAML. -/
def ReadsYaml (load : String → Option Node) : Prop :=
  ∀ text node, readDocument text.toList = some node →
    ∃ node', load text = some node' ∧ node'.unmark = node.unmark

/-! ## Rules -/

theorem strip_eq_self {cs : List Char} (hhead : ∀ c ∈ cs.head?, isBlank c = false)
    (hlast : ∀ c ∈ cs.getLast?, isBlank c = false) : strip cs = cs := by
  have hdrop : cs.dropWhile isBlank = cs := by
    cases cs with
    | nil => rfl
    | cons c cs => exact List.dropWhile_cons_of_neg (by simp [hhead c rfl])
  rw [strip, hdrop, List.rdropWhile_eq_self_iff]
  intro hne
  rw [hlast (cs.getLast hne) (List.getLast?_eq_getLast_of_ne_nil hne)]
  simp

theorem head_of_strip {cs more : List Char} (h : strip cs = cs) (hne : cs ≠ []) {c : Char}
    (hc : c ∈ (cs ++ more).head?) : isBlank c = false := by
  cases cs with
  | nil => exact absurd rfl hne
  | cons d cs =>
    obtain rfl := Option.some.inj hc
    by_contra hblank
    have hlength := (List.rdropWhile_prefix isBlank ((d :: cs).dropWhile isBlank)).length_le
    have hdrop : (d :: cs).dropWhile isBlank = cs.dropWhile isBlank :=
      List.dropWhile_cons_of_pos (by simpa using hblank)
    have hshort := (List.dropWhile_sublist isBlank (l := cs)).length_le
    rw [hdrop] at hlength
    have hsame : (strip (d :: cs)).length = cs.length + 1 := by rw [h, List.length_cons]
    rw [strip, hdrop] at hsame
    omega

theorem readPlain_self {cs : List Char} (hstrip : strip cs = cs) (hchars : cs.all plainChar = true)
    (hstart : plainStart cs = true) : readPlain cs = some (plainNode (String.ofList cs)) := by
  rw [readPlain, hstrip, if_pos ⟨hchars, hstart⟩]

theorem plainChar_ne {c : Char} (h : plainChar c = true) {d : Char} (hd : plainChar d = false) :
    c ≠ d := by
  rintro rfl
  rw [h] at hd
  exact nomatch hd

theorem mem_strip {cs : List Char} {c : Char} (h : c ∈ strip cs) : c ∈ cs :=
  (List.dropWhile_sublist _).subset ((List.rdropWhile_prefix _ _).subset h)

theorem readScalar_plain {cs : List Char} (hchars : (strip cs).all plainChar = true)
    (hstart : plainStart (strip cs) = true) :
    readScalar cs = some (plainNode (String.ofList (strip cs))) := by
  have hplain : readPlain cs = some (plainNode (String.ofList (strip cs))) := by
    rw [readPlain, if_pos ⟨hchars, hstart⟩]
  unfold readScalar
  cases hstrip : strip cs with
  | nil => rw [hplain, hstrip]
  | cons c body =>
    have hc : c ≠ '"' := by
      rw [hstrip, List.all_cons, Bool.and_eq_true] at hchars
      exact plainChar_ne hchars.1 (by decide)
    dsimp only
    rw [if_neg hc, hplain, hstrip]

theorem readScalar_quoted {body text : List Char} (h : readQuoted (body ++ ['"']) = some (text, [])) :
    readScalar ('"' :: (body ++ ['"'])) = some (quotedNode text) := by
  have hstrip : strip ('"' :: (body ++ ['"'])) = '"' :: (body ++ ['"']) := by
    refine strip_eq_self (fun c hc => ?_) (fun c hc => ?_)
    · obtain rfl := Option.some.inj hc
      rfl
    · rw [← List.cons_append, List.getLast?_append] at hc
      obtain rfl := Option.some.inj hc
      rfl
  rw [readScalar, hstrip]
  dsimp only
  rw [if_pos rfl, h]
  rfl

theorem readKey_quoted {body text after : List Char}
    (h : ∀ rest, readQuoted (body ++ '"' :: rest) = some (text, rest)) (hlength : body.length ≤ 1022) :
    readKey ('"' :: (body ++ '"' :: ':' :: ' ' :: after)) = some (quotedNode text, after) := by
  rw [readKey, if_pos rfl, h, Option.bind_some]
  dsimp only
  rw [if_pos]
  refine ⟨rfl, rfl, ?_⟩
  simp only [List.length_cons, List.length_append]
  omega

theorem readKey_plain {key after : List Char} (hne : key ≠ []) (hstrip : strip key = key)
    (hchars : key.all plainChar = true) (hstart : plainStart key = true) (hlength : key.length ≤ 1024) :
    readKey (key ++ ':' :: ' ' :: after) = some (plainNode (String.ofList key), after) := by
  have hcolon : ∀ c ∈ key, decide (c ≠ ':') = true := by
    intro c hc
    exact decide_eq_true (plainChar_ne (List.all_eq_true.mp hchars c hc) (by decide))
  have htake : (key ++ ':' :: ' ' :: after).takeWhile (· ≠ ':') = key := by
    rw [List.takeWhile_append_of_pos hcolon]
    simp
  have hdrop : (key ++ ':' :: ' ' :: after).dropWhile (· ≠ ':') = ':' :: ' ' :: after := by
    rw [List.dropWhile_append_of_pos hcolon]
    simp
  cases key with
  | nil => exact absurd rfl hne
  | cons c body =>
    have hc : c ≠ '"' := by
      rw [List.all_cons, Bool.and_eq_true] at hchars
      exact plainChar_ne hchars.1 (by decide)
    rw [List.cons_append] at htake hdrop ⊢
    rw [readKey, if_neg hc]
    dsimp only
    rw [htake, hdrop]
    dsimp only
    rw [if_pos ⟨rfl, hlength⟩, readPlain_self hstrip hchars hstart]
    rfl

theorem readPair_of {cs after : List Char} {key value : Node} (hkey : readKey cs = some (key, after))
    (hvalue : readScalar after = some value) :
    readPair (cs ++ ['}']) = some (.map noMark [(key, value)]) := by
  have hlast : (cs ++ ['}']).getLast? = some '}' := by rw [List.getLast?_append]; rfl
  rw [readPair, if_pos hlast, List.dropLast_concat, hkey, Option.bind_some, hvalue]
  rfl

theorem allSome_map {α β γ : Type} {f : β → Option γ} {g : α → β} {h : α → γ} {as : List α}
    (heq : ∀ a ∈ as, f (g a) = some (h a)) : allSome f (as.map g) = some (as.map h) := by
  induction as with
  | nil => rfl
  | cons a as ih =>
    have htail := ih fun b hb => heq b (List.mem_cons_of_mem _ hb)
    rw [List.map_cons, allSome, heq a List.mem_cons_self, Option.bind_some, htail]
    rfl

theorem groups_append {n : ℕ} {below lines : List Line} {gs : List (List Char × List Line)}
    (hbelow : ∀ line ∈ below, n < line.1) (h : groups n lines = some ([], gs)) :
    groups n (below ++ lines) = some (below, gs) := by
  induction below with
  | nil => exact h
  | cons line below ih =>
    have hline := hbelow line List.mem_cons_self
    rw [List.cons_append, groups, ih fun l hl => hbelow l (List.mem_cons_of_mem _ hl), Option.bind_some]
    dsimp only
    rw [if_neg (by omega), if_pos hline]

theorem groups_cons {n : ℕ} {body : List Char} {below lines : List Line}
    {gs : List (List Char × List Line)} (hbelow : ∀ line ∈ below, n < line.1)
    (h : groups n lines = some ([], gs)) :
    groups n ((n, body) :: (below ++ lines)) = some ([], (body, below) :: gs) := by
  rw [groups, groups_append hbelow h, Option.bind_some]
  exact if_pos rfl

theorem lineOf_pad {n : ℕ} {body : List Char} (h : ∀ c ∈ body.head?, isBlank c = false) :
    lineOf (List.replicate n ' ' ++ body) = (n, body) := by
  have htake : body.takeWhile isBlank = [] ∧ body.dropWhile isBlank = body := by
    cases body with
    | nil => exact ⟨rfl, rfl⟩
    | cons c body =>
      have hc : ¬isBlank c = true := by simp [h c rfl]
      exact ⟨List.takeWhile_cons_of_neg hc, List.dropWhile_cons_of_neg hc⟩
  have hblank : ∀ c ∈ List.replicate n ' ', isBlank c = true := by
    intro c hc
    rw [List.eq_of_mem_replicate hc]
    rfl
  rw [lineOf, List.takeWhile_append_of_pos hblank, List.dropWhile_append_of_pos hblank, htake.1, htake.2]
  simp

/-- A line with its indentation. -/
def fullLine (line : Line) : List Char := List.replicate line.1 ' ' ++ line.2

/-- The text of a line does not start with a blank, and is all on one line. -/
def OneLine (line : Line) : Prop := '\n' ∉ line.2 ∧ ∀ c ∈ line.2.head?, isBlank c = false

theorem splitOn_newline {first : List Char} {lines : List (List Char)} (hfirst : '\n' ∉ first)
    (hlines : ∀ line ∈ lines, '\n' ∉ line) :
    (first ++ lines.flatMap ('\n' :: ·)).splitOn '\n' = first :: lines := by
  induction lines generalizing first with
  | nil => simpa using List.splitOn_eq_singleton hfirst
  | cons line lines ih =>
    rw [List.flatMap_cons, List.cons_append, List.splitOn_append_cons_self_of_not_mem hfirst,
      ih (hlines line List.mem_cons_self) fun l hl => hlines l (List.mem_cons_of_mem _ hl)]

theorem readDocument_lines {first : Line} {lines : List Line}
    (hlines : ∀ line ∈ first :: lines, OneLine line)
    (hmarker : ∀ line ∈ first :: lines, line.1 = 0 → isMarker line.2 = false) :
    readDocument (fullLine first ++ (lines.map fullLine).flatMap ('\n' :: ·)) =
      readBlock (lines.length + 1) (first :: lines) := by
  have hnewline : ∀ line ∈ first :: lines, '\n' ∉ fullLine line := by
    intro line hline hmem
    rcases List.mem_append.mp hmem with hpad | hbody
    · exact absurd (List.eq_of_mem_replicate hpad) (by decide)
    · exact (hlines line hline).1 hbody
  have hsplit : (fullLine first ++ (lines.map fullLine).flatMap ('\n' :: ·)).splitOn '\n' =
      (first :: lines).map fullLine := by
    refine splitOn_newline (hnewline first List.mem_cons_self) fun l hl => ?_
    obtain ⟨line, hline, rfl⟩ := List.mem_map.mp hl
    exact hnewline line (List.mem_cons_of_mem _ hline)
  have hlineOf : ((first :: lines).map fullLine).map lineOf = first :: lines := by
    rw [List.map_map]
    refine (List.map_congr_left fun line hline => ?_).trans (List.map_id _)
    exact lineOf_pad (hlines line hline).2
  have hnone : ((first :: lines).any fun line => line.1 = 0 && isMarker line.2) = false := by
    rw [List.any_eq_false]
    intro line hline hmark
    rw [Bool.and_eq_true, decide_eq_true_eq] at hmark
    rw [hmarker line hline hmark.1] at hmark
    exact nomatch hmark.2
  rw [readDocument, hsplit, hlineOf, hnone]
  rfl

theorem readDocument_line {cs : List Char} (hline : '\n' ∉ cs)
    (hmarker : (lineOf cs).1 = 0 → isMarker (lineOf cs).2 = false)
    (hdash : readDash (lineOf cs).2 = none) (hkey : readKey (lineOf cs).2 = none) :
    readDocument cs = readInline (lineOf cs).2 := by
  have hsplit : cs.splitOn '\n' = [cs] := List.splitOn_eq_singleton hline
  have hnone : ([lineOf cs].any fun line => line.1 = 0 && isMarker line.2) = false := by
    rw [List.any_cons, List.any_nil, Bool.or_false, Bool.and_eq_false_iff]
    by_cases hzero : (lineOf cs).1 = 0
    · exact .inr (hmarker hzero)
    · exact .inl (decide_eq_false hzero)
  rw [readDocument, hsplit, List.map_singleton, hnone]
  show readBlock 1 [lineOf cs] = _
  rw [readBlock, hdash, hkey]
  rfl

theorem isMarker_of_head {c : Char} (hdash : c ≠ '-') (hdot : c ≠ '.') (cs : List Char) :
    isMarker (c :: cs) = false := by
  simp [isMarker, hdash, hdot]

theorem readKey_of_notMem {cs : List Char} (hcolon : ':' ∉ cs) (hquote : cs.head? ≠ some '"') :
    readKey cs = none := by
  cases cs with
  | nil => rfl
  | cons c cs =>
    have hc : c ≠ '"' := fun h => hquote (by rw [h]; rfl)
    have hdrop : (c :: cs).dropWhile (· ≠ ':') = [] := by
      refine List.dropWhile_eq_nil_iff.mpr fun d hd => ?_
      rw [decide_eq_true_eq]
      rintro rfl
      exact hcolon hd
    rw [readKey, if_neg hc, hdrop]

theorem strip_dropWhile (cs : List Char) : strip (cs.dropWhile isBlank) = strip cs := by
  rw [strip, strip, List.dropWhile_idempotent]

theorem plainStart_dash (text : List Char) : plainStart (strip ('-' :: ' ' :: text)) = false := by
  have hdrop : ('-' :: ' ' :: text).dropWhile isBlank = '-' :: ' ' :: text := rfl
  obtain ⟨blanks, hsplit⟩ := List.rdropWhile_prefix isBlank ('-' :: ' ' :: text)
  rw [strip, hdrop]
  cases hrest : ('-' :: ' ' :: text).rdropWhile isBlank with
  | nil =>
    have hblank := List.rdropWhile_eq_nil_iff.mp hrest '-' List.mem_cons_self
    exact nomatch hblank
  | cons c cs =>
    rw [hrest, List.cons_append] at hsplit
    obtain ⟨rfl, htail⟩ := List.cons.inj hsplit
    cases cs with
    | nil => rfl
    | cons d cs =>
      obtain ⟨rfl, -⟩ := List.cons.inj htail
      rfl

/-- A document that is one plain scalar. -/
theorem readDocument_plain {cs : List Char} (hchars : ∀ c ∈ cs, plainChar c = true)
    (hstart : plainStart (strip cs) = true) (hmarker : isMarker cs = false) :
    readDocument cs = readInline (lineOf cs).2 := by
  have hbody : ∀ c ∈ (lineOf cs).2, plainChar c = true := fun c hc =>
    hchars c ((List.dropWhile_sublist _).subset hc)
  refine readDocument_line ?_ ?_ ?_ ?_
  · intro hmem
    exact absurd (hchars _ hmem) (by decide)
  · intro hzero
    have hnone : cs.takeWhile isBlank = [] := List.eq_nil_of_length_eq_zero hzero
    have hsame : cs.dropWhile isBlank = cs := by
      have hsplit := List.takeWhile_append_dropWhile (p := isBlank) (l := cs)
      rwa [hnone, List.nil_append] at hsplit
    show isMarker (cs.dropWhile isBlank) = false
    rw [hsame, hmarker]
  · rw [← strip_dropWhile] at hstart
    show readDash (cs.dropWhile isBlank) = none
    unfold readDash
    split
    · rename_i c d text heq
      rw [if_neg]
      rintro ⟨rfl, rfl⟩
      rw [heq, plainStart_dash] at hstart
      exact nomatch hstart
    · rfl
  · refine readKey_of_notMem ?_ ?_
    · intro hmem
      exact absurd (hbody _ hmem) (by decide)
    · intro hhead
      exact absurd (hbody _ (List.mem_of_mem_head? hhead)) (by decide)

end Souxmar.Lib.Yaml
