import Mathlib.Data.Int.Notation
import Mathlib.Data.List.Basic
import Souxmar.Lib.CharList

/-!
# Reading a stream

`std::getline`, `>>` into a string and `std::strtoll`, in the C locale, and a loop over the lines that may stop with an
error.
-/

namespace Souxmar.Lib.Stream

/-- `std::isspace`. -/
def isSpace (c : Char) : Bool :=
  c = ' ' || c = '\t' || c = '\n' || c = '\x0b' || c = '\x0c' || c = '\r'

/-- What `std::getline` delivers until it fails. A last line without a line end counts when it is not empty. -/
def getLines : List Char → List (List Char)
  | [] => []
  | c :: cs =>
    if c = '\n' then [] :: getLines cs
    else
      match getLines cs with
      | [] => [[c]]
      | line :: lines => (c :: line) :: lines

theorem getLines_append {line : List Char} (h : '\n' ∉ line) (rest : List Char) :
    getLines (line ++ '\n' :: rest) = line :: getLines rest := by
  induction line with
  | nil => rw [List.nil_append, getLines, if_pos rfl]
  | cons c line ih =>
    obtain ⟨hc, hline⟩ := not_or.mp (List.mem_cons.not.mp h)
    rw [List.cons_append, getLines, if_neg (Ne.symm hc), ih hline]

theorem getLines_ended {lines : List (List Char)} (h : ∀ line ∈ lines, '\n' ∉ line) :
    getLines (lines.flatMap (· ++ ['\n'])) = lines := by
  induction lines with
  | nil => rfl
  | cons line lines ih =>
    obtain ⟨hline, hlines⟩ := List.forall_mem_cons.mp h
    rw [List.flatMap_cons, List.append_assoc, List.singleton_append, getLines_append hline, ih hlines]

/-- `in >> token`: the token and what the stream still holds, unless only whitespace is left. -/
def token (cs : List Char) : Option (List Char × List Char) :=
  let cs := cs.dropWhile isSpace
  if cs.isEmpty then none else some (cs.takeWhile (fun c => !isSpace c), cs.dropWhile (fun c => !isSpace c))

theorem token_append {word rest : List Char} (hne : word ≠ []) (h : ∀ c ∈ word, isSpace c = false)
    (hrest : ∀ c ∈ rest.head?, isSpace c = true) : token (word ++ rest) = some (word, rest) := by
  have hnot : ∀ c ∈ word, (!isSpace c) = true := fun c hc => by rw [h c hc]; rfl
  have hskip : (word ++ rest).dropWhile isSpace = word ++ rest := by
    cases word with
    | nil => exact absurd rfl hne
    | cons c cs =>
      have hc : ¬isSpace c = true := by rw [h c List.mem_cons_self]; exact Bool.noConfusion
      rw [List.cons_append, List.dropWhile_cons_of_neg hc]
  have hstop : rest.takeWhile (fun c => !isSpace c) = [] ∧ rest.dropWhile (fun c => !isSpace c) = rest := by
    cases rest with
    | nil => exact ⟨rfl, rfl⟩
    | cons c cs =>
      have hc : ¬(!isSpace c) = true := by rw [hrest c rfl]; exact Bool.noConfusion
      exact ⟨List.takeWhile_cons_of_neg hc, List.dropWhile_cons_of_neg hc⟩
  have hempty : ¬(word ++ rest).isEmpty = true := fun hempty =>
    hne (List.append_eq_nil_iff.mp (List.isEmpty_iff.mp hempty)).1
  unfold token
  dsimp only
  rw [hskip, if_neg hempty, List.takeWhile_append_of_pos hnot, hstop.1, List.append_nil,
    List.dropWhile_append_of_pos hnot, hstop.2]

theorem token_cons {c : Char} (h : isSpace c = true) (cs : List Char) : token (c :: cs) = token cs := by
  unfold token
  rw [List.dropWhile_cons_of_pos h]

/-- `while (in >> token)`. Each token takes at least one character. -/
def tokensFrom : ℕ → List Char → List (List Char)
  | 0, _ => []
  | fuel + 1, cs =>
    match token cs with
    | none => []
    | some (t, rest) => t :: tokensFrom fuel rest

def tokens (cs : List Char) : List (List Char) := tokensFrom cs.length cs

theorem token_skip {white : List Char} (h : ∀ c ∈ white, isSpace c = true) (cs : List Char) :
    token (white ++ cs) = token cs := by
  induction white with
  | nil => rfl
  | cons c white ih =>
    obtain ⟨hc, hwhite⟩ := List.forall_mem_cons.mp h
    rw [List.cons_append, token_cons hc, ih hwhite]

/-- Text with whitespace behind each of its words. -/
structure Spaced (word white : List Char) : Prop where
  word_ne : word ≠ []
  word : ∀ c ∈ word, isSpace c = false
  white_ne : white ≠ []
  white : ∀ c ∈ white, isSpace c = true

theorem tokensFrom_words {words : List (List Char × List Char)} {lead trail : List Char} {k : ℕ}
    (hwords : ∀ w ∈ words, Spaced w.1 w.2) (hlead : ∀ c ∈ lead, isSpace c = true) (htrail : ∀ c ∈ trail, isSpace c = true)
    (hk : words.length ≤ k) :
    tokensFrom k (lead ++ (words.flatMap (fun w => w.1 ++ w.2) ++ trail)) = words.map Prod.fst := by
  induction words generalizing lead k with
  | nil =>
    cases k with
    | zero => rfl
    | succ k =>
      have hnone : token (lead ++ trail) = none := by
        rw [token_skip hlead, ← List.append_nil trail, token_skip htrail]
        rfl
      rw [List.flatMap_nil, List.nil_append, tokensFrom, hnone]
      rfl
  | cons w words ih =>
    obtain ⟨hw, hwords⟩ := List.forall_mem_cons.mp hwords
    cases k with
    | zero => exact absurd hk (by simp)
    | succ k =>
      have hhead : ∀ c ∈ (w.2 ++ (words.flatMap (fun w => w.1 ++ w.2) ++ trail)).head?, isSpace c = true := by
        intro c hc
        cases hwhite : w.2 with
        | nil => exact absurd hwhite hw.white_ne
        | cons d ds =>
          rw [hwhite] at hc
          obtain rfl := Option.some.inj hc
          exact hw.white d (hwhite ▸ List.mem_cons_self)
      have hrest := ih hwords hw.white (Nat.le_of_succ_le_succ hk)
      rw [List.flatMap_cons, List.append_assoc, List.append_assoc, tokensFrom, token_skip hlead,
        token_append hw.word_ne hw.word hhead]
      exact congrArg (w.1 :: ·) hrest

theorem tokens_words {words : List (List Char × List Char)} {lead trail : List Char}
    (hwords : ∀ w ∈ words, Spaced w.1 w.2) (hlead : ∀ c ∈ lead, isSpace c = true)
    (htrail : ∀ c ∈ trail, isSpace c = true) :
    tokens (lead ++ (words.flatMap (fun w => w.1 ++ w.2) ++ trail)) = words.map Prod.fst := by
  refine tokensFrom_words hwords hlead htrail ?_
  have hlength : words.length ≤ (words.flatMap fun w => w.1 ++ w.2).length := by
    clear hlead htrail
    induction words with
    | nil => exact Nat.le_refl _
    | cons w words ih =>
      obtain ⟨hw, hwords⟩ := List.forall_mem_cons.mp hwords
      have hpos := List.length_pos_iff.mpr hw.word_ne
      rw [List.flatMap_cons, List.length_append, List.length_append, List.length_cons]
      have hle := ih hwords
      omega
  rw [List.length_append, List.length_append]
  omega

/-- Equal without regard to the case of letters. -/
def ieq (a b : List Char) : Bool :=
  decide (a.length = b.length) && (a.zip b).all fun c => decide (c.1.toLower = c.2.toLower)

/-- The rule for a loop over lines that goes through: what each line keeps, with the lines so far, holds at the end. -/
theorem foldlM_ok_invariant {σ α ε : Type*} {f : σ → α → Except ε σ} {P : List α → σ → Prop} {l before : List α} {s t : σ}
    (keep : ∀ {before a s s'}, a ∈ l → P before s → f s a = .ok s' → P (before ++ [a]) s') (hs : P before s)
    (h : l.foldlM f s = .ok t) : P (before ++ l) t := by
  induction l generalizing before s with
  | nil =>
    cases h
    rwa [List.append_nil]
  | cons a l ih =>
    rw [List.foldlM_cons] at h
    cases hstep : f s a with
    | error e =>
      rw [hstep] at h
      cases h
    | ok s' =>
      rw [hstep] at h
      have hrest := ih (fun ha => keep (List.mem_cons_of_mem _ ha)) (keep List.mem_cons_self hs hstep) h
      rwa [List.append_assoc, List.singleton_append] at hrest

/-! ## Numbers -/

/-- The number that decimal digits stand for. -/
def digitsValue (digits : List Char) : ℕ := digits.foldl (fun v c => 10 * v + (c.toNat - '0'.toNat)) 0

/-- Without a sign in front. -/
def unsigned (cs : List Char) : List Char :=
  if cs.head? = some '-' ∨ cs.head? = some '+' then cs.tail else cs

def withSign (cs : List Char) (v : ℕ) : ℤ := if cs.head? = some '-' then -v else v

/-- `std::strtoll` in base 10: nothing when no digit is there, and the nearest number when it does not fit. -/
def strtoll (cs : List Char) : Option Int64 :=
  let cs := cs.dropWhile isSpace
  let digits := (unsigned cs).takeWhile Char.isDigit
  if digits.isEmpty then none else some (Int64.ofIntClamp (withSign cs (digitsValue digits)))

/-- A decimal integer and nothing else. -/
def decimalInteger (cs : List Char) : Option ℤ :=
  if unsigned cs ≠ [] ∧ (unsigned cs).all Char.isDigit then some (withSign cs (digitsValue (unsigned cs))) else none

theorem isSpace_of_isDigit {c : Char} (h : c.isDigit = true) : isSpace c = false := by
  have hne : ∀ d : Char, d.isDigit = false → c ≠ d := fun d hd hcd => by rw [hcd, hd] at h; cases h
  unfold isSpace
  rw [decide_eq_false (hne ' ' rfl), decide_eq_false (hne '\t' rfl), decide_eq_false (hne '\n' rfl),
    decide_eq_false (hne '\x0b' rfl), decide_eq_false (hne '\x0c' rfl), decide_eq_false (hne '\r' rfl)]
  rfl

theorem dropWhile_of_decimal {cs : List Char} (hne : unsigned cs ≠ []) (hall : (unsigned cs).all Char.isDigit = true) :
    cs.dropWhile isSpace = cs := by
  cases cs with
  | nil => rfl
  | cons c rest =>
    have hc : isSpace c = false := by
      by_cases hsign : c = '-' ∨ c = '+'
      · rcases hsign with rfl | rfl <;> rfl
      · have hself : unsigned (c :: rest) = c :: rest :=
          if_neg fun h => hsign (h.imp Option.some.inj Option.some.inj)
        rw [hself, List.all_cons, Bool.and_eq_true] at hall
        exact isSpace_of_isDigit hall.1
    rw [List.dropWhile_cons_of_neg (by rw [hc]; exact Bool.noConfusion)]

theorem takeWhile_of_all {p : Char → Bool} {cs : List Char} (h : cs.all p = true) : cs.takeWhile p = cs := by
  rw [← List.append_nil cs, List.takeWhile_append_of_pos (List.all_eq_true.mp h)]
  rfl

theorem strtoll_decimal {cs : List Char} {v : ℤ} (h : decimalInteger cs = some v) :
    strtoll cs = some (Int64.ofIntClamp v) := by
  unfold decimalInteger at h
  split at h
  · rename_i hdec
    obtain ⟨hne, hall⟩ := hdec
    have htake : (unsigned cs).takeWhile Char.isDigit = unsigned cs :=
      takeWhile_of_all hall
    unfold strtoll
    dsimp only
    rw [dropWhile_of_decimal hne hall, htake, if_neg (fun h => hne (List.isEmpty_iff.mp h)), Option.some.inj h]
  · cases h

end Souxmar.Lib.Stream
