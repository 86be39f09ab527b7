import Mathlib.Data.List.TakeWhile
import Mathlib.Data.Nat.Notation

/-!
# curl configuration files

What `curl -K` reads out of the bytes of a configuration file. A line has one directive: the name of an option
and, behind blanks or one of the separators `=` and `:`, its parameter. A parameter that begins with a quotation
mark ends at the next one that no backslash escapes; any other ends at a blank. A line is a C string: it ends at
a null.
-/

namespace Souxmar.Lib.CurlConfig

abbrev Bytes : Type := List UInt8

/-- The bytes of a text of ASCII characters. -/
def ascii (text : String) : Bytes := text.toList.map fun c => UInt8.ofNat c.toNat

def newline : UInt8 := 0x0A

def quote : UInt8 := 0x22

def backslash : UInt8 := 0x5C

def dash : UInt8 := 0x2D

def isSpace (b : UInt8) : Bool := b = 0x20 || (0x09 ≤ b && b ≤ 0x0D)

/-- An option that is written with dashes is separated by blanks only. -/
def isSep (dashed : Bool) (b : UInt8) : Bool := !dashed && (b = 0x3D || b = 0x3A)

/-- The lines that begin with one of `#`, `/` and `*` are comments. -/
def isComment (b : UInt8) : Bool := b = 0x23 || b = 0x2F || b = 0x2A

/-- What a backslash and this byte stand for. -/
def unescaped (b : UInt8) : UInt8 :=
  if b = 0x74 then 0x09
  else if b = 0x6E then 0x0A
  else if b = 0x72 then 0x0D
  else if b = 0x76 then 0x0B
  else b

/-- The quoted parameter that goes on here. -/
def unslashquote : Bytes → Bytes
  | [] => []
  | b :: bs =>
    if b = quote then []
    else if b = backslash then
      match bs with
      | [] => []
      | c :: cs => unescaped c :: unslashquote cs
    else b :: unslashquote bs

/-- The parameter that begins here: none when there is nothing. -/
def parameter : Bytes → Option Bytes
  | [] => none
  | b :: bs =>
    if b = quote then some (unslashquote bs)
    else if isSpace b then none
    else some ((b :: bs).takeWhile fun b => !isSpace b)

def cString (line : Bytes) : Bytes := line.takeWhile (· ≠ 0)

/-- The name of an option, and its parameter. -/
abbrev Directive : Type := Bytes × Option Bytes

/-- The directive of a line that begins without blanks. -/
def directiveOf : Bytes → Option Directive
  | [] => none
  | b :: bs =>
    if isComment b then none
    else
      let dashed : Bool := b = dash
      let inName (b : UInt8) := !isSpace b && !isSep dashed b
      some ((b :: bs).takeWhile inName,
        parameter (((b :: bs).dropWhile inName).dropWhile fun b => isSpace b || isSep dashed b))

def directive (line : Bytes) : Option Directive := directiveOf ((cString line).dropWhile isSpace)

/-- The directives of a file, line by line. -/
def read (file : Bytes) : List Directive := (file.splitOn newline).filterMap directive

/-! ## Lines -/

theorem read_nil : read [] = [] := rfl

theorem read_line {line : Bytes} (h : newline ∉ line) (rest : Bytes) :
    read (line ++ newline :: rest) = (directive line).toList ++ read rest := by
  rw [read, List.splitOn_append_cons_self_of_not_mem h, List.filterMap_cons]
  cases directive line with
  | none => rfl
  | some d => rfl

section Span

variable {α : Type} {p : α → Bool} {inside rest : List α}

theorem takeWhile_append_stop (hinside : ∀ b ∈ inside, p b = true) (hstop : ∀ b ∈ rest.head?, p b = false) :
    (inside ++ rest).takeWhile p = inside := by
  rw [List.takeWhile_append_of_pos hinside]
  cases rest with
  | nil => rw [List.takeWhile_nil, List.append_nil]
  | cons b bs =>
    have hb : ¬p b = true := by
      rw [hstop b rfl]
      exact Bool.false_ne_true
    rw [List.takeWhile_cons_of_neg hb, List.append_nil]

theorem dropWhile_append_stop (hinside : ∀ b ∈ inside, p b = true) (hstop : ∀ b ∈ rest.head?, p b = false) :
    (inside ++ rest).dropWhile p = rest := by
  rw [List.dropWhile_append_of_pos hinside]
  cases rest with
  | nil => rfl
  | cons b bs =>
    have hb : ¬p b = true := by
      rw [hstop b rfl]
      exact Bool.false_ne_true
    rw [List.dropWhile_cons_of_neg hb]

end Span

theorem cString_eq {line : Bytes} (h : 0 ∉ line) : cString line = line := by
  rw [cString, List.takeWhile_eq_self_iff]
  intro b hb
  rw [decide_eq_true_eq]
  rintro rfl
  exact h hb

/-! ## Options -/

def isLower (b : UInt8) : Bool := 0x61 ≤ b && b ≤ 0x7A

/-- The names of long options: lower case letters, with dashes between them. -/
def isOption : Bytes → Bool
  | [] => false
  | b :: bs => isLower b && bs.all fun b => isLower b || b = dash

theorem isLower_iff {b : UInt8} : isLower b = true ↔ 0x61 ≤ b.toNat ∧ b.toNat ≤ 0x7A := by
  simp [isLower, UInt8.le_iff_toNat_le]

theorem isSpace_iff {b : UInt8} : isSpace b = true ↔ b.toNat = 0x20 ∨ 0x09 ≤ b.toNat ∧ b.toNat ≤ 0x0D := by
  simp [isSpace, UInt8.le_iff_toNat_le, ← UInt8.toNat_inj]

theorem isSep_iff {dashed : Bool} {b : UInt8} :
    isSep dashed b = true ↔ dashed = false ∧ (b.toNat = 0x3D ∨ b.toNat = 0x3A) := by
  simp [isSep, ← UInt8.toNat_inj]

theorem isComment_iff {b : UInt8} :
    isComment b = true ↔ b.toNat = 0x23 ∨ b.toNat = 0x2F ∨ b.toNat = 0x2A := by
  simp [isComment, ← UInt8.toNat_inj, or_assoc]

theorem toNat_dash : dash.toNat = 0x2D := rfl

theorem bounds_of_isOption {b : UInt8} (h : isLower b = true ∨ b = dash) :
    b.toNat = 0x2D ∨ 0x61 ≤ b.toNat ∧ b.toNat ≤ 0x7A := by
  rcases h with h | rfl
  · exact Or.inr (isLower_iff.mp h)
  · exact Or.inl toNat_dash

theorem mem_isOption {name : Bytes} (h : isOption name = true) {b : UInt8} (hb : b ∈ name) :
    b.toNat = 0x2D ∨ 0x61 ≤ b.toNat ∧ b.toNat ≤ 0x7A := by
  cases name with
  | nil => cases hb
  | cons c cs =>
    simp only [isOption, Bool.and_eq_true, List.all_eq_true, Bool.or_eq_true, decide_eq_true_eq] at h
    rcases List.mem_cons.mp hb with rfl | hb
    · exact bounds_of_isOption (Or.inl h.1)
    · exact bounds_of_isOption (h.2 b hb)

/-- A directive is the name of an option and what follows the blanks and separators behind it. -/
theorem directive_option {name : Bytes} (h : isOption name = true) {rest : Bytes} (hnul : 0 ∉ rest)
    (hend : ∀ b ∈ rest.head?, isSpace b = true ∨ isSep false b = true) :
    directive (name ++ rest) =
      some (name, parameter (rest.dropWhile fun b => isSpace b || isSep false b)) := by
  have hnul' : 0 ∉ name ++ rest := by
    rw [List.mem_append]
    rintro (hmem | hmem)
    · have hzero : (0 : UInt8).toNat = 0 := rfl
      have := mem_isOption h hmem
      omega
    · exact hnul hmem
  cases name with
  | nil => exact absurd h Bool.false_ne_true
  | cons b bs =>
    have hfirst : isLower b = true := by
      simp only [isOption, Bool.and_eq_true] at h
      exact h.1
    rw [isLower_iff] at hfirst
    have hspace : isSpace b = false := by
      rw [← Bool.not_eq_true, isSpace_iff]
      omega
    have hcomment : isComment b = false := by
      rw [← Bool.not_eq_true, isComment_iff]
      omega
    have hdash : decide (b = dash) = false := by
      rw [decide_eq_false_iff_not, ← UInt8.toNat_inj, toNat_dash]
      omega
    have hname : ∀ c ∈ b :: bs, (!isSpace c && !isSep false c) = true := by
      intro c hc
      have hbounds := mem_isOption h hc
      have hc : isSpace c = false := by
        rw [← Bool.not_eq_true, isSpace_iff]
        omega
      have hc' : isSep false c = false := by
        rw [← Bool.not_eq_true, isSep_iff]
        omega
      rw [hc, hc']
      rfl
    have hstop : ∀ c ∈ rest.head?, (!isSpace c && !isSep false c) = false := by
      intro c hc
      rcases hend c hc with hc | hc
      · rw [hc]
        rfl
      · rw [hc, Bool.not_true, Bool.and_false]
    have htake := takeWhile_append_stop hname hstop
    have hdrop := dropWhile_append_stop hname hstop
    rw [List.cons_append] at htake hdrop
    rw [directive, cString_eq hnul', List.cons_append,
      List.dropWhile_cons_of_neg (by rw [hspace]; exact Bool.false_ne_true), directiveOf,
      if_neg (by rw [hcomment]; exact Bool.false_ne_true), hdash]
    simp only [htake, hdrop]

theorem directive_bare {name : Bytes} (h : isOption name = true) : directive name = some (name, none) := by
  have hnul : (0 : UInt8) ∉ ([] : Bytes) := List.not_mem_nil
  have hdirective := directive_option h hnul (by simp)
  rwa [List.append_nil] at hdirective

/-- How a parameter is written behind its name. -/
def assign : Bytes := ascii " = "

theorem directive_assign {name : Bytes} (h : isOption name = true) {b : UInt8} {bs : Bytes} (hnul : 0 ∉ b :: bs)
    (hspace : isSpace b = false) (hsep : isSep false b = false) :
    directive (name ++ assign ++ b :: bs) = some (name, parameter (b :: bs)) := by
  have hnul' : 0 ∉ assign ++ b :: bs := by
    rw [List.mem_append]
    rintro (hmem | hmem)
    · exact absurd hmem (by decide)
    · exact hnul hmem
  have hend : ∀ c ∈ (assign ++ b :: bs).head?, isSpace c = true ∨ isSep false c = true := by
    rintro c ⟨⟩
    exact Or.inl rfl
  have hblanks : ∀ c ∈ assign, (isSpace c || isSep false c) = true := List.all_eq_true.mp (by decide)
  have hstop : ∀ c ∈ (b :: bs).head?, (isSpace c || isSep false c) = false := by
    rintro c ⟨⟩
    rw [hspace, hsep]
    rfl
  rw [List.append_assoc, directive_option h hnul' hend, dropWhile_append_stop hblanks hstop]

/-- A word: a parameter that needs no quotation marks. -/
def isWord (word : Bytes) : Bool :=
  !word.isEmpty && word.all fun b => !isSpace b && !isSep false b && b ≠ quote && b ≠ 0

theorem directive_word {name : Bytes} (h : isOption name = true) {word : Bytes} (hword : isWord word = true) :
    directive (name ++ assign ++ word) = some (name, some word) := by
  simp only [isWord, Bool.and_eq_true, Bool.not_eq_true', List.all_eq_true, decide_eq_true_eq] at hword
  obtain ⟨hne, hall⟩ := hword
  cases word with
  | nil => exact absurd hne (by decide)
  | cons b bs =>
    obtain ⟨⟨⟨hspace, hsep⟩, hquote⟩, -⟩ := hall b List.mem_cons_self
    have hnul : 0 ∉ b :: bs := fun hmem => (hall 0 hmem).2 rfl
    have hbytes : ∀ c ∈ b :: bs, (!isSpace c) = true := by
      intro c hc
      rw [(hall c hc).1.1.1]
      rfl
    rw [directive_assign h hnul hspace hsep, parameter, if_neg hquote,
      if_neg (by rw [hspace]; exact Bool.false_ne_true), List.takeWhile_eq_self_iff.mpr hbytes]

theorem directive_quoted {name : Bytes} (h : isOption name = true) {text : Bytes} (hnul : 0 ∉ text) :
    directive (name ++ assign ++ quote :: text) = some (name, some (unslashquote text)) := by
  have hnul' : 0 ∉ quote :: text := by
    rw [List.mem_cons]
    rintro (hmem | hmem)
    · exact absurd hmem (by decide)
    · exact hnul hmem
  rw [directive_assign h hnul' rfl rfl, parameter, if_pos rfl]

@[simp] theorem unslashquote_quote (rest : Bytes) : unslashquote (quote :: rest) = [] := by
  rw [unslashquote.eq_def]
  simp only
  rw [if_pos trivial]

theorem unslashquote_backslash (b : UInt8) (rest : Bytes) :
    unslashquote (backslash :: b :: rest) = unescaped b :: unslashquote rest := by
  rw [unslashquote.eq_def]
  simp only
  rw [if_neg (by decide), if_pos trivial]

theorem unslashquote_plain {b : UInt8} (hquote : b ≠ quote) (hbackslash : b ≠ backslash) (rest : Bytes) :
    unslashquote (b :: rest) = b :: unslashquote rest := by
  rw [unslashquote.eq_def]
  simp only
  rw [if_neg hquote, if_neg hbackslash]

end Souxmar.Lib.CurlConfig
