import Mathlib.Data.List.Count
import Mathlib.Data.Nat.Notation

/-!
# Quoted strings in TOML

The basic strings of TOML 1.0, on one line and on several. `quoted_self` is about text put between quotes
without escaping it: it is read back as itself only if it holds no character that needs an escape, also when
the quotes in it start a string of several lines that swallows what comes after.
-/

namespace Souxmar.Lib.TomlString

/-! ## Grammar -/

/-- The characters that a basic string holds as they are. -/
def unescaped (c : Char) : Bool :=
  (c = '\t' || decide (0x20 ≤ c.toNat)) && c ≠ '"' && c ≠ '\\' && c.toNat ≠ 0x7F

def shortEscapes : List (Char × Char) :=
  [('b', '\x08'), ('t', '\t'), ('n', '\n'), ('f', '\x0C'), ('r', '\r'), ('"', '"'), ('\\', '\\')]

def isHexDigit (c : Char) : Bool := c.isDigit || ('A' ≤ c && c ≤ 'F') || ('a' ≤ c && c ≤ 'f')

def hexDigitValue (c : Char) : ℕ :=
  if c.isDigit then c.toNat - '0'.toNat
  else if c ≤ 'F' then c.toNat - 'A'.toNat + 10
  else c.toNat - 'a'.toNat + 10

def hexValue (digits : List Char) : ℕ := digits.foldl (fun n c => 16 * n + hexDigitValue c) 0

inductive Escape : List Char → Char → Prop
  | short {c d : Char} (h : (c, d) ∈ shortEscapes) : Escape ['\\', c] d
  | unicode {u : Char} {digits : List Char} (hlength : (u = 'u' ∧ digits.length = 4) ∨
      (u = 'U' ∧ digits.length = 8)) (hdigits : ∀ c ∈ digits, isHexDigit c = true) :
      Escape ('\\' :: u :: digits) (Char.ofNat (hexValue digits))

/-- A piece of a basic string, and what it stands for. -/
inductive BasicPiece : List Char → List Char → Prop
  | plain {c : Char} (h : unescaped c = true) : BasicPiece [c] [c]
  | escape {raw : List Char} {c : Char} (h : Escape raw c) : BasicPiece raw [c]

def isSpace (c : Char) : Bool := c = ' ' || c = '\t' || c = '\n' || c = '\r'

/-- A piece of a string of several lines. A backslash at the end of a line takes the white space up to the
next other character away. -/
inductive MultilinePiece : List Char → List Char → Prop
  | basic {raw value : List Char} (h : BasicPiece raw value) : MultilinePiece raw value
  | quote : MultilinePiece ['"'] ['"']
  | newline : MultilinePiece ['\n'] ['\n']
  | crlf {value : List Char} (h : value = ['\r', '\n'] ∨ value = ['\n']) : MultilinePiece ['\r', '\n'] value
  | continuation {space : List Char} (hline : '\n' ∈ space) (hspace : ∀ c ∈ space, isSpace c = true) :
      MultilinePiece ('\\' :: space) []

/-- Pieces one after the other. -/
inductive Pieces (P : List Char → List Char → Prop) : List Char → List Char → Prop
  | nil : Pieces P [] []
  | cons {raw value raws values : List Char} (head : P raw value) (tail : Pieces P raws values) :
      Pieces P (raw ++ raws) (value ++ values)

def threeQuotes : List Char := ['"', '"', '"']

def BasicString (text value rest : List Char) : Prop :=
  ¬threeQuotes <+: text ∧ ∃ raw, text = '"' :: (raw ++ '"' :: rest) ∧ Pieces BasicPiece raw value

/-- A line end right behind the opening quotes is left out. Which three quotes end the string is left open. -/
def MultilineString (text value rest : List Char) : Prop :=
  ∃ start raw, (start = [] ∨ start = ['\n'] ∨ start = ['\r', '\n']) ∧
    text = threeQuotes ++ (start ++ raw) ++ threeQuotes ++ rest ∧ Pieces MultilinePiece raw value

/-- The string that starts a text, and what follows it. -/
def QuotedString (text value rest : List Char) : Prop :=
  BasicString text value rest ∨ MultilineString text value rest

/-! ## What a string is read from -/

theorem Pieces.all_unescaped {l : List Char} (h : ∀ c ∈ l, unescaped c = true) : Pieces BasicPiece l l := by
  induction l with
  | nil => exact .nil
  | cons c l ih =>
    obtain ⟨hc, hl⟩ := List.forall_mem_cons.mp h
    exact .cons (.plain hc) (ih hl)

section

variable {P : List Char → List Char → Prop}

theorem Pieces.length_le (hP : ∀ raw value, P raw value → value.length ≤ raw.length) {raw value : List Char}
    (h : Pieces P raw value) : value.length ≤ raw.length := by
  induction h with
  | nil => exact Nat.le_refl 0
  | cons head _ ih =>
    have hhead := hP _ _ head
    rw [List.length_append, List.length_append]
    omega

theorem Pieces.count_le {c : Char} (hP : ∀ raw value, P raw value → raw.count c ≤ value.count c)
    {raw value : List Char} (h : Pieces P raw value) : raw.count c ≤ value.count c := by
  induction h with
  | nil => exact Nat.le_refl _
  | cons head _ ih =>
    have hhead := hP _ _ head
    rw [List.count_append, List.count_append]
    omega

theorem Pieces.notMem {c : Char} (hP : ∀ raw value, P raw value → c ∉ raw) {raw value : List Char}
    (h : Pieces P raw value) : c ∉ raw := by
  induction h with
  | nil => exact List.not_mem_nil
  | cons head _ ih =>
    rw [List.mem_append, not_or]
    exact ⟨hP _ _ head, ih⟩

end

theorem Escape.length {raw : List Char} {c : Char} (h : Escape raw c) : 2 ≤ raw.length := by
  cases h with
  | short h => exact Nat.le_refl 2
  | unicode hlength hdigits =>
    rw [List.length_cons, List.length_cons]
    omega

theorem Escape.notMem {raw : List Char} {c : Char} (h : Escape raw c) : '\n' ∉ raw ∧ '[' ∉ raw := by
  cases h with
  | short h =>
    have hall : ∀ p ∈ shortEscapes, '\n' ∉ ['\\', p.1] ∧ '[' ∉ ['\\', p.1] := by decide
    exact hall _ h
  | @unicode u digits hlength hdigits =>
    have hnot : ∀ d, isHexDigit d = false → d ≠ '\\' → d ≠ 'u' → d ≠ 'U' → d ∉ '\\' :: u :: digits := by
      intro d hhex hslash hu hU hmem
      rcases List.mem_cons.mp hmem with h | hmem
      · exact hslash h
      · rcases List.mem_cons.mp hmem with rfl | hmem
        · rcases hlength with ⟨h, -⟩ | ⟨h, -⟩
          · exact hu h
          · exact hU h
        · have hd := hdigits d hmem
          rw [hhex] at hd
          exact Bool.false_ne_true hd
    exact ⟨hnot '\n' rfl (by decide) (by decide) (by decide),
      hnot '[' rfl (by decide) (by decide) (by decide)⟩

theorem BasicPiece.length_le {raw value : List Char} (h : BasicPiece raw value) :
    value.length ≤ raw.length := by
  cases h with
  | plain h => exact Nat.le_refl 1
  | escape h =>
    have hlength := h.length
    rw [List.length_singleton]
    omega

theorem BasicPiece.newline {raw value : List Char} (h : BasicPiece raw value) : '\n' ∉ raw := by
  cases h with
  | @plain c h =>
    rw [List.mem_singleton]
    rintro rfl
    exact absurd h (by decide)
  | escape h => exact h.notMem.1

theorem BasicPiece.bracket {raw value : List Char} (h : BasicPiece raw value) :
    raw.count '[' ≤ value.count '[' := by
  cases h with
  | plain h => exact Nat.le_refl _
  | escape h =>
    rw [List.count_eq_zero.mpr h.notMem.2]
    exact Nat.zero_le _

theorem MultilinePiece.length_le {raw value : List Char} (h : MultilinePiece raw value) :
    value.length ≤ raw.length := by
  cases h with
  | basic h => exact h.length_le
  | quote => exact Nat.le_refl 1
  | newline => exact Nat.le_refl 1
  | crlf h => rcases h with rfl | rfl <;> decide
  | continuation hline hspace => exact Nat.zero_le _

theorem MultilinePiece.bracket {raw value : List Char} (h : MultilinePiece raw value) :
    raw.count '[' ≤ value.count '[' := by
  cases h with
  | basic h => exact h.bracket
  | quote => exact Nat.le_refl _
  | newline => exact Nat.le_refl _
  | crlf h => exact Nat.zero_le _
  | @continuation space hline hspace =>
    have hnone : '[' ∉ '\\' :: space := by
      intro hmem
      rcases List.mem_cons.mp hmem with h | hmem
      · exact absurd h (by decide)
      · exact absurd (hspace _ hmem) (by decide)
    rw [List.count_eq_zero.mpr hnone]
    exact Nat.zero_le _

theorem Pieces.unescaped_of_length {raw value : List Char} (h : Pieces BasicPiece raw value)
    (hlength : raw.length ≤ value.length) : ∀ c ∈ raw, unescaped c = true := by
  induction h with
  | nil => exact fun c hc => absurd hc List.not_mem_nil
  | cons head tail ih =>
    have htail := tail.length_le fun _ _ => BasicPiece.length_le
    rw [List.length_append, List.length_append] at hlength
    cases head with
    | plain h =>
      rw [List.length_singleton] at hlength
      exact List.forall_mem_cons.mpr ⟨h, ih (by omega)⟩
    | escape h =>
      have hescape := h.length
      rw [List.length_singleton] at hlength
      omega

/-! ## Text between quotes -/

/-- Before the next quote there is a bracket, as when a table header follows. -/
def BracketFirst (tail : List Char) : Prop := ∀ p s, tail = p ++ '"' :: s → '[' ∈ p

theorem basicString_self {text tail rest : List Char}
    (h : BasicString ('"' :: (text ++ '"' :: '\n' :: tail)) text rest) : ∀ c ∈ text, unescaped c = true := by
  obtain ⟨-, raw, hsplit, hpieces⟩ := h
  have hshort := hpieces.length_le fun _ _ => BasicPiece.length_le
  have hnewline := hpieces.notMem fun _ _ => BasicPiece.newline
  rcases List.append_eq_append_iff.mp (List.cons.inj hsplit).2 with ⟨more, rfl, hmore⟩ | ⟨more, rfl, -⟩
  · -- the string does not end before the line does
    rcases more with _ | ⟨c, more⟩
    · rw [List.append_nil] at hpieces
      exact hpieces.unescaped_of_length (Nat.le_refl _)
    · rcases more with _ | ⟨d, more⟩
      · simp at hmore
      · obtain ⟨-, hmore⟩ := List.cons.inj hmore
        obtain ⟨rfl, -⟩ := List.cons.inj hmore
        exact absurd (by simp) hnewline
  · have hmore : more = [] := by
      rw [List.length_append] at hshort
      exact List.length_eq_zero_iff.mp (by omega)
    subst hmore
    rw [List.append_nil] at hpieces ⊢
    exact hpieces.unescaped_of_length (Nat.le_refl _)

theorem multilineString_self {text tail rest : List Char} (htail : BracketFirst tail) :
    ¬MultilineString ('"' :: (text ++ '"' :: '\n' :: tail)) text rest := by
  rintro ⟨start, raw, hstart, hsplit, hpieces⟩
  have hshort := hpieces.length_le fun _ _ => MultilinePiece.length_le
  have hbrackets := hpieces.count_le (c := '[') fun _ _ => MultilinePiece.bracket
  have hstart0 : start.count '[' = 0 := by rcases hstart with rfl | rfl | rfl <;> rfl
  have hinner : text ++ ['"'] ++ '\n' :: tail = '"' :: '"' :: (start ++ raw) ++ threeQuotes ++ rest := by
    simpa [threeQuotes] using hsplit
  rcases List.append_eq_append_iff.mp hinner with ⟨more, hclosed, hmore⟩ | ⟨more, hclosed, -⟩
  · -- the closing quotes come later than the line does end: a bracket is swallowed
    rcases List.eq_nil_or_concat more with rfl | ⟨swallowed, c, rfl⟩
    · have hlength := congrArg List.length hclosed
      simp [threeQuotes] at hlength
      omega
    · obtain ⟨hlast, rfl⟩ : '"' :: '"' :: (start ++ raw) ++ ['"', '"'] = text ++ ['"'] ++ swallowed ∧ c = '"' := by
        have h : ('"' :: '"' :: (start ++ raw) ++ ['"', '"']) ++ ['"'] =
            (text ++ ['"'] ++ swallowed) ++ [c] := by
          simpa [threeQuotes] using hclosed
        have := List.append_inj' h rfl
        exact ⟨this.1, (List.singleton_inj.mp this.2).symm⟩
      rcases swallowed with _ | ⟨d, swallowed⟩
      · simp at hmore
      · have hbracket : '[' ∈ swallowed := htail swallowed rest (by simpa using (List.cons.inj hmore).2)
        have hcount := congrArg (List.count '[') hlast
        have hpos := List.count_pos_iff.mpr hbracket
        simp [List.count_append, List.count_cons, hstart0] at hcount
        omega
  · have hlength := congrArg List.length hclosed
    simp [threeQuotes] at hlength
    omega

/-- Text between quotes at the end of a line that is read as itself needs no escapes. -/
theorem quoted_self {text tail rest : List Char} (htail : BracketFirst tail)
    (h : QuotedString ('"' :: (text ++ '"' :: '\n' :: tail)) text rest) : ∀ c ∈ text, unescaped c = true := by
  rcases h with h | h
  · exact basicString_self h
  · exact absurd h (multilineString_self htail)

theorem quotedString_unescaped {text : List Char} (h : ∀ c ∈ text, unescaped c = true) (tail : List Char) :
    QuotedString ('"' :: (text ++ '"' :: '\n' :: tail)) text ('\n' :: tail) := by
  refine Or.inl ⟨?_, text, rfl, Pieces.all_unescaped h⟩
  rintro ⟨rest, hrest⟩
  rcases text with _ | ⟨c, text⟩
  · simp [threeQuotes] at hrest
  · obtain ⟨-, hrest⟩ := List.cons.inj hrest
    obtain ⟨rfl, -⟩ := List.cons.inj hrest
    exact absurd (h '"' (by simp)) (by decide)

end Souxmar.Lib.TomlString
