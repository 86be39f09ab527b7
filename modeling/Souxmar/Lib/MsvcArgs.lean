import Mathlib.Data.List.Basic
import Mathlib.Data.Nat.Notation

/-!
# The argument rules of the Microsoft C runtime

How a program that is started with a command line splits it into arguments. Arguments are separated by
spaces and tabs. Text in quotes belongs to one argument. Backslashes are literal unless a quote follows:
then two of them stand for one, an odd one makes the quote literal, and otherwise the quote opens or
closes quoted text; two quotes inside quoted text are a literal one. In the program name, which comes
first, quotes only hide blanks and backslashes are always literal.
-/

namespace Souxmar.Lib.MsvcArgs

/-- A UTF-16 code unit. -/
abbrev WChar : Type := UInt16

def backslash : WChar := 0x5C

def quotationMark : WChar := 0x22

def isBlank (c : WChar) : Bool := c = 0x20 || c = 0x09

/-- Up to the terminating null. -/
def cString (l : List WChar) : List WChar := l.takeWhile (· ≠ 0)

/-- The program name, and what follows it. -/
def programName (inQuotes : Bool) : List WChar → List WChar × List WChar
  | [] => ([], [])
  | c :: cs =>
    if c = quotationMark then programName (!inQuotes) cs
    else if !inQuotes && isBlank c then ([], cs)
    else
      let (name, rest) := programName inQuotes cs
      (c :: name, rest)

/-- The arguments from here on. `started` says whether an argument is open; `slashes` backslashes have been
read behind `acc`, which is the argument so far. -/
def scan (started inQuotes : Bool) (slashes : ℕ) (acc : List WChar) : List WChar → List (List WChar)
  | [] => if started then [acc ++ List.replicate slashes backslash] else []
  | c :: cs =>
    if c = backslash then scan true inQuotes (slashes + 1) acc cs
    else if c = quotationMark then
      let acc := acc ++ List.replicate (slashes / 2) backslash
      if slashes % 2 = 0 then
        if inQuotes then
          match cs with
          | c' :: cs' =>
            if c' = quotationMark then scan true true 0 (acc ++ [quotationMark]) cs'
            else scan true false 0 acc (c' :: cs')
          | [] => scan true false 0 acc []
        else scan true true 0 acc cs
      else scan true inQuotes 0 (acc ++ [quotationMark]) cs
    else
      let arg := acc ++ List.replicate slashes backslash
      if !inQuotes && isBlank c then
        if started then arg :: scan false false 0 [] cs else scan false false 0 [] cs
      else scan true inQuotes 0 (arg ++ [c]) cs

/-- The program name and the arguments behind it. -/
def split (commandLine : List WChar) : List WChar × List (List WChar) :=
  let (name, rest) := programName false commandLine
  (name, scan false false 0 [] rest)

/-! ## Reading on -/

attribute [local simp] scan

variable {started inQuotes : Bool} {slashes : ℕ} {acc : List WChar} {c : WChar} {cs : List WChar}

@[simp] theorem scan_nil : scan true inQuotes slashes acc [] =
    [acc ++ List.replicate slashes backslash] := by
  rw [scan, if_pos rfl]

theorem scan_backslash : scan started inQuotes slashes acc (backslash :: cs) =
    scan true inQuotes (slashes + 1) acc cs := by
  rw [scan, if_pos rfl]

theorem scan_backslashes (count : ℕ) :
    scan true inQuotes slashes acc (List.replicate count backslash ++ cs) =
      scan true inQuotes (slashes + count) acc cs := by
  induction count generalizing slashes with
  | zero => rfl
  | succ count ih =>
    rw [List.replicate_succ, List.cons_append, scan_backslash, ih]
    congr 1
    omega

theorem scan_literal_quote (hodd : slashes % 2 = 1) :
    scan true inQuotes slashes acc (quotationMark :: cs) =
      scan true inQuotes 0 (acc ++ List.replicate (slashes / 2) backslash ++ [quotationMark]) cs := by
  have hne : quotationMark ≠ backslash := by decide
  rw [scan, if_neg hne, if_pos rfl]
  dsimp only
  rw [if_neg (by omega)]

theorem scan_open : scan started false 0 acc (quotationMark :: cs) = scan true true 0 acc cs := by
  have hne : quotationMark ≠ backslash := by decide
  rw [scan, if_neg hne, if_pos rfl]
  simp

/-- An even number of backslashes lets a quote close the quoted text, unless another quote follows. -/
theorem scan_close (heven : slashes % 2 = 0) (hnext : cs.head? ≠ some quotationMark) :
    scan true true slashes acc (quotationMark :: cs) =
      scan true false 0 (acc ++ List.replicate (slashes / 2) backslash) cs := by
  have hne : quotationMark ≠ backslash := by decide
  rw [scan, if_neg hne, if_pos rfl]
  dsimp only
  rw [if_pos heven, if_pos rfl]
  cases cs with
  | nil => rfl
  | cons c' cs' =>
    have hc' : c' ≠ quotationMark := by
      rintro rfl
      exact hnext rfl
    dsimp only
    rw [if_neg hc']

theorem scan_char (hslash : c ≠ backslash) (hquote : c ≠ quotationMark)
    (hinside : inQuotes = true ∨ isBlank c = false) :
    scan started inQuotes slashes acc (c :: cs) =
      scan true inQuotes 0 (acc ++ List.replicate slashes backslash ++ [c]) cs := by
  rw [scan, if_neg hslash, if_neg hquote]
  dsimp only
  rw [if_neg]
  rcases hinside with rfl | hblank
  · simp
  · simp [hblank]

theorem ne_of_isBlank (hblank : isBlank c = true) : c ≠ backslash ∧ c ≠ quotationMark := by
  constructor
  · rintro rfl
    exact absurd hblank (by decide)
  · rintro rfl
    exact absurd hblank (by decide)

theorem scan_blank (hblank : isBlank c = true) :
    scan true false slashes acc (c :: cs) =
      (acc ++ List.replicate slashes backslash) :: scan false false 0 [] cs := by
  obtain ⟨hslash, hquote⟩ := ne_of_isBlank hblank
  simp [hslash, hquote, hblank]

theorem scan_skip (hblank : isBlank c = true) :
    scan false false 0 [] (c :: cs) = scan false false 0 [] cs := by
  obtain ⟨hslash, hquote⟩ := ne_of_isBlank hblank
  simp [hslash, hquote, hblank]

/-- Nothing follows, or a blank. -/
def EndsArgument (rest : List WChar) : Prop := ∀ c ∈ rest.head?, isBlank c = true

theorem EndsArgument.head_ne (h : EndsArgument cs) : cs.head? ≠ some quotationMark := by
  intro hquote
  exact absurd (h quotationMark hquote) (by decide)

theorem scan_end (h : EndsArgument cs) : scan true false slashes acc cs =
    (acc ++ List.replicate slashes backslash) :: scan false false 0 [] cs := by
  cases cs with
  | nil =>
    rw [scan_nil]
    rfl
  | cons c cs =>
    have hblank : isBlank c = true := h c rfl
    rw [scan_blank hblank, scan_skip hblank]

theorem scan_bare {arg : List WChar} (hquote : quotationMark ∉ arg)
    (hblank : ∀ c ∈ arg, isBlank c = false) (hend : EndsArgument cs) :
    scan true false slashes acc (arg ++ cs) =
      (acc ++ List.replicate slashes backslash ++ arg) :: scan false false 0 [] cs := by
  induction arg generalizing slashes acc with
  | nil => rw [List.nil_append, scan_end hend, List.append_nil]
  | cons c arg ih =>
    rw [List.mem_cons, not_or] at hquote
    obtain ⟨hc, hrest⟩ := List.forall_mem_cons.mp hblank
    by_cases hslash : c = backslash
    · rw [hslash, List.cons_append, scan_backslash, ih hquote.2 hrest, List.replicate_succ']
      simp
    · rw [List.cons_append, scan_char hslash (Ne.symm hquote.1) (Or.inr hc), ih hquote.2 hrest]
      simp

theorem scan_bare_argument {arg : List WChar} (hne : arg ≠ []) (hquote : quotationMark ∉ arg)
    (hblank : ∀ c ∈ arg, isBlank c = false) (hend : EndsArgument cs) :
    scan false false 0 [] (arg ++ cs) = arg :: scan false false 0 [] cs := by
  cases arg with
  | nil => exact absurd rfl hne
  | cons c arg =>
    rw [List.mem_cons, not_or] at hquote
    obtain ⟨hc, hrest⟩ := List.forall_mem_cons.mp hblank
    by_cases hslash : c = backslash
    · rw [hslash, List.cons_append, scan_backslash, scan_bare hquote.2 hrest hend]
      rfl
    · rw [List.cons_append, scan_char hslash (Ne.symm hquote.1) (Or.inr hc),
        scan_bare hquote.2 hrest hend]
      rfl

/-! ## The program name -/

theorem programName_quoted {name : List WChar} (hname : quotationMark ∉ name) :
    programName true (name ++ quotationMark :: cs) =
      (name ++ (programName false cs).1, (programName false cs).2) := by
  induction name with
  | nil =>
    rw [List.nil_append, programName, if_pos rfl]
    rfl
  | cons c name ih =>
    rw [List.mem_cons, not_or] at hname
    rw [List.cons_append, programName, if_neg (Ne.symm hname.1), if_neg (by simp), ih hname.2]
    rfl

/-- Up to a blank, outside quotes. -/
theorem programName_bare {name : List WChar} (hname : quotationMark ∉ name)
    (hblank : ∀ c ∈ name, isBlank c = false) :
    programName false (name ++ cs) = (name ++ (programName false cs).1, (programName false cs).2) := by
  induction name with
  | nil => rfl
  | cons c name ih =>
    rw [List.mem_cons, not_or] at hname
    obtain ⟨hc, hname'⟩ := List.forall_mem_cons.mp hblank
    rw [List.cons_append, programName, if_neg (Ne.symm hname.1), if_neg (by simp [hc]),
      ih hname.2 hname']
    rfl

theorem programName_blank (hblank : isBlank c = true) : programName false (c :: cs) = ([], cs) := by
  have hquote : c ≠ quotationMark := by
    rintro rfl
    exact absurd hblank (by decide)
  rw [programName, if_neg hquote]
  simp [hblank]

theorem programName_end (h : EndsArgument cs) : (programName false cs).1 = [] ∧
    scan false false 0 [] (programName false cs).2 = scan false false 0 [] cs := by
  cases cs with
  | nil => exact ⟨rfl, rfl⟩
  | cons c cs =>
    have hblank : isBlank c = true := h c rfl
    rw [programName_blank hblank, scan_skip hblank]
    exact ⟨rfl, rfl⟩

end Souxmar.Lib.MsvcArgs
