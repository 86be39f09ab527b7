import Mathlib.Data.List.Basic
import Mathlib.Data.Nat.Notation
import Souxmar.Lib.CharList

/-!
# Reading XML

A reader for well-formed XML 1.0, one character at a time, for documents that begin with `<?xml version="1.0"?>` and have
no document type declaration. What it delivers are the start tags, the end tags and the characters of the data between
them, each with the path of the element it belongs to, the innermost name first.
-/

namespace Souxmar.Lib.Xml

abbrev Name := List Char

abbrev Attributes := List (Name × List Char)

/-! ## Characters -/

/-- The characters a document can have. -/
def isChar (c : Char) : Bool :=
  c = '\t' || c = '\n' || c = '\r' || (0x20 ≤ c.toNat && c.toNat ≤ 0xFFFD) || 0x10000 ≤ c.toNat

def isWhite (c : Char) : Bool := c = ' ' || c = '\t' || c = '\n' || c = '\r'

def within (ranges : List (ℕ × ℕ)) (c : Char) : Bool := ranges.any fun r => decide (r.1 ≤ c.toNat ∧ c.toNat ≤ r.2)

def isNameStart : Char → Bool :=
  within [(0x3A, 0x3A), (0x41, 0x5A), (0x5F, 0x5F), (0x61, 0x7A), (0xC0, 0xD6), (0xD8, 0xF6), (0xF8, 0x2FF),
    (0x370, 0x37D), (0x37F, 0x1FFF), (0x200C, 0x200D), (0x2070, 0x218F), (0x2C00, 0x2FEF), (0x3001, 0xD7FF),
    (0xF900, 0xFDCF), (0xFDF0, 0xFFFD), (0x10000, 0xEFFFF)]

def isNameChar (c : Char) : Bool :=
  isNameStart c || within [(0x2D, 0x2E), (0x30, 0x39), (0xB7, 0xB7), (0x300, 0x36F), (0x203F, 0x2040)] c

/-- Every line ends with a line feed alone. -/
def lines : List Char → List Char
  | [] => []
  | '\r' :: '\n' :: cs => '\n' :: lines cs
  | '\r' :: cs => '\n' :: lines cs
  | c :: cs => c :: lines cs

/-! ## References -/

def hexDigit (c : Char) : Option ℕ :=
  if c.isDigit then some (c.toNat - 48)
  else if 'a' ≤ c ∧ c ≤ 'f' then some (c.toNat - 87)
  else if 'A' ≤ c ∧ c ≤ 'F' then some (c.toNat - 55)
  else none

def codePoint (base : ℕ) (digits : List Char) : Option ℕ :=
  if digits.isEmpty then none
  else digits.foldlM (fun n c => (hexDigit c).bind fun d => if d < base then some (base * n + d) else none) 0

def charOf (n : ℕ) : Option Char :=
  if n.isValidChar ∧ isChar (Char.ofNat n) then some (Char.ofNat n) else none

/-- The character a reference stands for, between `&` and `;`. Without a document type only these are declared. -/
def entity : List Char → Option Char
  | ['l', 't'] => some '<'
  | ['g', 't'] => some '>'
  | ['a', 'm', 'p'] => some '&'
  | ['a', 'p', 'o', 's'] => some '\''
  | ['q', 'u', 'o', 't'] => some '"'
  | '#' :: 'x' :: digits => (codePoint 16 digits).bind charOf
  | '#' :: digits => (codePoint 10 digits).bind charOf
  | _ => none

def isReferenceChar (c : Char) : Bool := isNameChar c || c = '#'

/-! ## The reader -/

/-- Where the reader is in a start tag. `between` is behind the name or an attribute, and tells whether whitespace has
been read there. -/
inductive TagPart
  | between (space : Bool)
  | name (n : Name)
  | equals (n : Name)
  | quote (n : Name)
  | value (n : Name) (q : Char) (v : List Char)
  | reference (n : Name) (q : Char) (v e : List Char)
  | slash
deriving DecidableEq, Repr

/-- Where the reader is. `content` and `cdata` count the brackets just read, and `comment` the hyphens, up to two. -/
inductive Mode
  | content (brackets : ℕ)
  | reference (e : List Char)
  | markup
  | declaration (seen : List Char)
  | comment (dashes : ℕ)
  | cdata (brackets : ℕ)
  | target (n : Name)
  | instruction (mark : Bool)
  | instructionEnd
  | startName (n : Name)
  | tag (n : Name) (attributes : Attributes) (part : TagPart)
  | endName (n : Name)
  | endSpace (n : Name)
deriving DecidableEq, Repr

structure State where
  mode : Mode
  path : List Name
  /-- The start tag of the root has been read. -/
  rooted : Bool
deriving DecidableEq, Repr

inductive Item
  | start (path : List Name) (attributes : Attributes)
  | stop (path : List Name)
  | char (path : List Name) (c : Char)
deriving DecidableEq, Repr

/-- What one character does: the document is not well-formed, or the reader goes on. -/
abbrev Step := Option (State × List Item)

namespace State

def goTo (s : State) (mode : Mode) : Step := some ({ s with mode }, [])

def opened (s : State) (n : Name) (attributes : Attributes) : Step :=
  some (⟨.content 0, n :: s.path, true⟩, [.start (n :: s.path) attributes])

/-- `<n/>` -/
def empty (s : State) (n : Name) (attributes : Attributes) : Step :=
  some (⟨.content 0, s.path, true⟩, [.start (n :: s.path) attributes, .stop (n :: s.path)])

def closed (s : State) (n : Name) : Step :=
  if s.path.head? = some n then some ({ s with mode := .content 0, path := s.path.tail }, [.stop s.path]) else none

/-- Outside the root there is only whitespace. -/
def content (s : State) (brackets : ℕ) (c : Char) : Step :=
  if c = '<' then s.goTo .markup
  else if s.path = [] then if isWhite c then s.goTo (.content 0) else none
  else if c = '&' then s.goTo (.reference [])
  else if c = '>' ∧ brackets = 2 then none
  else some ({ s with mode := .content (if c = ']' then min 2 (brackets + 1) else 0) }, [.char s.path c])

def cdata (s : State) (brackets : ℕ) (c : Char) : Step :=
  if c = ']' then
    if brackets = 2 then some (s, [.char s.path ']']) else s.goTo (.cdata (brackets + 1))
  else if c = '>' ∧ brackets = 2 then s.goTo (.content 0)
  else some ({ s with mode := .cdata 0 }, List.replicate brackets (.char s.path ']') ++ [.char s.path c])

def tag (s : State) (n : Name) (attributes : Attributes) (part : TagPart) (c : Char) : Step :=
  match part with
  | .between space =>
    if isWhite c then s.goTo (.tag n attributes (.between true))
    else if c = '>' then s.opened n attributes
    else if c = '/' then s.goTo (.tag n attributes .slash)
    else if space && isNameStart c then s.goTo (.tag n attributes (.name [c]))
    else none
  | .name a =>
    if isNameChar c then s.goTo (.tag n attributes (.name (a ++ [c])))
    else if c = '=' then s.goTo (.tag n attributes (.quote a))
    else if isWhite c then s.goTo (.tag n attributes (.equals a))
    else none
  | .equals a =>
    if isWhite c then s.goTo (.tag n attributes (.equals a))
    else if c = '=' then s.goTo (.tag n attributes (.quote a))
    else none
  | .quote a =>
    if isWhite c then s.goTo (.tag n attributes (.quote a))
    else if c = '"' ∨ c = '\'' then s.goTo (.tag n attributes (.value a c []))
    else none
  | .value a q v =>
    if c = q then
      -- an attribute is given once
      if a ∈ attributes.map Prod.fst then none else s.goTo (.tag n (attributes ++ [(a, v)]) (.between false))
    else if c = '<' then none
    else if c = '&' then s.goTo (.tag n attributes (.reference a q v []))
    else s.goTo (.tag n attributes (.value a q (v ++ [if isWhite c then ' ' else c])))
  | .reference a q v e =>
    if c = ';' then (entity e).bind fun r => s.goTo (.tag n attributes (.value a q (v ++ [r])))
    else if isReferenceChar c then s.goTo (.tag n attributes (.reference a q v (e ++ [c])))
    else none
  | .slash => if c = '>' then s.empty n attributes else none

/-- What a character of a document does. -/
def move (s : State) (c : Char) : Step :=
  match s.mode with
  | .content brackets => s.content brackets c
  | .reference e =>
    if c = ';' then (entity e).bind fun r => some ({ s with mode := .content 0 }, [.char s.path r])
    else if isReferenceChar c then s.goTo (.reference (e ++ [c]))
    else none
  | .markup =>
    if c = '!' then s.goTo (.declaration [])
    else if c = '?' then s.goTo (.target [])
    else if c = '/' then s.goTo (.endName [])
    else if isNameStart c ∧ (s.path ≠ [] ∨ s.rooted = false) then s.goTo (.startName [c])
    else none
  | .declaration seen =>
    let seen := seen ++ [c]
    if seen = ['-', '-'] then s.goTo (.comment 0)
    else if seen = ['[', 'C', 'D', 'A', 'T', 'A', '['] ∧ s.path ≠ [] then s.goTo (.cdata 0)
    else if seen = ['-'] ∨ seen <+: ['[', 'C', 'D', 'A', 'T', 'A'] then s.goTo (.declaration seen)
    else none
  | .comment dashes =>
    if dashes = 2 then if c = '>' then s.goTo (.content 0) else none
    else s.goTo (.comment (if c = '-' then dashes + 1 else 0))
  | .cdata brackets => s.cdata brackets c
  | .target n =>
    if (if n.isEmpty then isNameStart c else isNameChar c) then s.goTo (.target (n ++ [c]))
    else if n.isEmpty ∨ n.map Char.toLower = ['x', 'm', 'l'] then none
    else if isWhite c then s.goTo (.instruction false)
    else if c = '?' then s.goTo .instructionEnd
    else none
  | .instruction mark => if c = '>' ∧ mark = true then s.goTo (.content 0) else s.goTo (.instruction (c = '?'))
  | .instructionEnd => if c = '>' then s.goTo (.content 0) else none
  | .startName n => if isNameChar c then s.goTo (.startName (n ++ [c])) else s.tag n [] (.between false) c
  | .tag n attributes part => s.tag n attributes part c
  | .endName n =>
    if (if n.isEmpty then isNameStart c else isNameChar c) then s.goTo (.endName (n ++ [c]))
    else if isWhite c then s.goTo (.endSpace n)
    else if c = '>' then s.closed n
    else none
  | .endSpace n => if isWhite c then s.goTo (.endSpace n) else if c = '>' then s.closed n else none

def step (s : State) (c : Char) : Step := if isChar c then s.move c else none

def run (s : State) : List Char → Option (State × List Item)
  | [] => some (s, [])
  | c :: cs => (s.step c).bind fun r => (r.1.run cs).map fun t => (t.1, r.2 ++ t.2)

/-- The root has been read to its end, and nothing is left open. -/
def done (s : State) : Bool :=
  (match s.mode with
    | .content _ => true
    | _ => false) && s.path.isEmpty && s.rooted

end State

def xmlDeclaration : List Char := "<?xml version=\"1.0\"?>".toList

/-- What stands behind the declaration, when the document is well-formed. -/
def read (text : List Char) : Option (List Item) :=
  let text := lines text
  if xmlDeclaration <+: text then
    (State.run ⟨.content 0, [], false⟩ (text.drop xmlDeclaration.length)).bind fun r =>
      if r.1.done then some r.2 else none
  else none

/-! ## Elements -/

structure Element where
  path : List Name
  attributes : Attributes
  /-- The characters of the element itself, without those of the elements in it. -/
  text : List Char
deriving DecidableEq, Repr

def Item.charAt (path : List Name) : Item → Option Char
  | .char p c => if p = path then some c else none
  | _ => none

def textOf (path : List Name) (items : List Item) : List Char :=
  (items.takeWhile fun item => decide (item ≠ .stop path)).filterMap (Item.charAt path)

/-- The elements in the order of their start tags. -/
def elements : List Item → List Element
  | [] => []
  | .start path attributes :: items => ⟨path, attributes, textOf path items⟩ :: elements items
  | _ :: items => elements items

@[simp] theorem elements_nil : elements [] = [] := rfl

@[simp] theorem elements_start (path : List Name) (attributes : Attributes) (items : List Item) :
    elements (.start path attributes :: items) = ⟨path, attributes, textOf path items⟩ :: elements items := rfl

@[simp] theorem elements_stop (path : List Name) (items : List Item) : elements (.stop path :: items) = elements items := rfl

@[simp] theorem elements_chars (path : List Name) (cs : List Char) (items : List Item) :
    elements (cs.map (.char path) ++ items) = elements items := by
  induction cs with
  | nil => rfl
  | cons c cs ih => exact ih

theorem textOf_leaf (path : List Name) (cs : List Char) (items : List Item) :
    textOf path (cs.map (.char path) ++ .stop path :: items) = cs := by
  have hchars : ∀ item ∈ cs.map (Item.char path), decide (item ≠ .stop path) = true := by
    intro item hitem
    obtain ⟨c, -, rfl⟩ := List.mem_map.mp hitem
    rfl
  have hstop : (Item.stop path :: items).takeWhile (fun item => decide (item ≠ .stop path)) = [] := by
    rw [List.takeWhile_cons, if_neg (by simp)]
  have hat : (Item.charAt path ∘ Item.char path) = some := funext fun c => if_pos rfl
  unfold textOf
  rw [List.takeWhile_append_of_pos hchars, hstop, List.append_nil, List.filterMap_map, hat,
    List.filterMap_some]

theorem elements_leaf (path : List Name) (attributes : Attributes) (cs : List Char) (items : List Item) :
    elements (.start path attributes :: (cs.map (.char path) ++ .stop path :: items)) =
      ⟨path, attributes, cs⟩ :: elements items := by
  rw [elements_start, textOf_leaf, elements_chars, elements_stop]

def Item.startAt (path : List Name) : Item → Option Attributes
  | .start p attributes => if p = path then some attributes else none
  | _ => none

theorem attributes_elements (path : List Name) (items : List Item) :
    ((elements items).filter fun e => decide (e.path = path)).map Element.attributes =
      items.filterMap (Item.startAt path) := by
  induction items with
  | nil => rfl
  | cons item items ih =>
    cases item with
    | start p attributes =>
      rw [elements_start, List.filter_cons, List.filterMap_cons]
      by_cases hp : p = path
      · rw [if_pos (decide_eq_true hp), List.map_cons, ih, Item.startAt, if_pos hp]
      · rw [if_neg (by simpa using hp), ih, Item.startAt, if_neg hp]
    | stop p => exact ih
    | char p c => exact ih

/-! ## The lines of a text -/

theorem lines_append_of_notMem {xs : List Char} (h : '\r' ∉ xs) (ys : List Char) : lines (xs ++ ys) = xs ++ lines ys := by
  induction xs with
  | nil => rfl
  | cons c xs ih =>
    obtain ⟨hc, hxs⟩ := not_or.mp (List.mem_cons.not.mp h)
    rw [List.cons_append, lines.eq_4 _ _ (fun _ hcr _ => hc hcr.symm) (fun hcr => hc hcr.symm), ih hxs, List.cons_append]

theorem lines_of_notMem {cs : List Char} (h : '\r' ∉ cs) : lines cs = cs := by
  have hend := lines_append_of_notMem h []
  rwa [List.append_nil, lines, List.append_nil] at hend

/-- The lines of two texts, unless a line end lies across them. -/
theorem lines_append (xs : List Char) {ys : List Char} (h : ys.head? ≠ some '\n') :
    lines (xs ++ ys) = lines xs ++ lines ys := by
  fun_induction lines xs with
  | case1 => rfl
  | case2 cs ih => rw [List.cons_append, List.cons_append, lines, ih, List.cons_append]
  | case3 cs hne ih =>
    have hfeed : ∀ rest, cs ++ ys ≠ '\n' :: rest := by
      intro rest heq
      cases cs with
      | nil => exact h (by rw [List.nil_append] at heq; rw [heq]; rfl)
      | cons c cs => exact hne cs (by rw [List.cons_append] at heq; rw [(List.cons.inj heq).1])
    rw [List.cons_append, lines.eq_3 _ hfeed, ih, List.cons_append]
  | case4 c cs hne hcr ih =>
    have hplain : ∀ rest, c = '\r' → cs ++ ys = '\n' :: rest → False := fun _ hc _ => hcr hc
    rw [List.cons_append, lines.eq_4 _ _ hplain hcr, ih, List.cons_append]

theorem length_lines_le (cs : List Char) : (lines cs).length ≤ cs.length := by
  fun_induction lines cs with
  | case1 => exact Nat.le_refl _
  | case2 cs ih => exact Nat.succ_le_succ (Nat.le_succ_of_le ih)
  | case3 cs hne ih => exact Nat.succ_le_succ ih
  | case4 c cs hne hcr ih => exact Nat.succ_le_succ ih

end Souxmar.Lib.Xml
