import Souxmar.Lib.MsvcArgs
import Mathlib.Data.List.TakeWhile

/-!
# The command line of a Windows child

`run_windows` joins the arguments to one command line, quoting those that need it. A child that splits it
by the rules of the Microsoft C runtime gets the arguments back.
-/

namespace Souxmar.PluginHost

open Souxmar.Lib.MsvcArgs

/-- The characters of `find_first_of(L" \t\n\v\"")`. -/
def needsQuotes (c : WChar) : Bool :=
  c = 0x20 || c = 0x09 || c = 0x0A || c = 0x0B || c = quotationMark

/-- The loop of the `quote` lambda, with `bs` backslashes counted. -/
def quoteLoop (bs : ℕ) : List WChar → List WChar
  | [] => List.replicate (bs * 2) backslash
  | c :: cs =>
    if c = backslash then quoteLoop (bs + 1) cs
    else if c = quotationMark then
      List.replicate (bs * 2 + 1) backslash ++ quotationMark :: quoteLoop 0 cs
    else List.replicate bs backslash ++ c :: quoteLoop 0 cs

def quote (arg : List WChar) : List WChar :=
  if !arg.isEmpty && !arg.any needsQuotes then arg
  else quotationMark :: (quoteLoop 0 arg ++ [quotationMark])

/-- The loop over `argv`, with a space before every argument but the first. -/
def commandLine (toWide : List UInt8 → List WChar) : List (List UInt8) → List WChar
  | [] => []
  | program :: args => quote (toWide program) ++ args.flatMap fun arg => 0x20 :: quote (toWide arg)

/-! ## What the child reads -/

theorem quote_bare {arg : List WChar} (h : (!arg.isEmpty && !arg.any needsQuotes) = true) :
    quote arg = arg ∧ arg ≠ [] ∧ quotationMark ∉ arg ∧ ∀ c ∈ arg, isBlank c = false := by
  have hquote : quote arg = arg := by rw [quote, if_pos h]
  rw [Bool.and_eq_true, Bool.not_eq_true', Bool.not_eq_true', List.any_eq_false] at h
  have hplain : ∀ c ∈ arg, needsQuotes c = false := fun c hc => Bool.eq_false_iff.mpr (h.2 c hc)
  refine ⟨hquote, ?_, ?_, ?_⟩
  · rintro rfl
    exact Bool.noConfusion h.1
  · intro hmem
    exact absurd (hplain _ hmem) (by decide)
  · intro c hc
    have hc := hplain c hc
    simp only [needsQuotes, Bool.or_eq_false_iff, decide_eq_false_iff_not] at hc
    simp [isBlank, hc]

theorem scan_quoteLoop (arg : List WChar) {bs : ℕ} {acc rest : List WChar}
    (hrest : EndsArgument rest) :
    scan true true 0 acc (quoteLoop bs arg ++ quotationMark :: rest) =
      scan true false 0 (acc ++ List.replicate bs backslash ++ arg) rest := by
  induction arg generalizing bs acc with
  | nil =>
    have heven : (0 + bs * 2) % 2 = 0 := by omega
    have hhalf : (0 + bs * 2) / 2 = bs := by omega
    rw [quoteLoop, scan_backslashes, scan_close heven hrest.head_ne, hhalf, List.append_nil]
  | cons c arg ih =>
    rw [quoteLoop]
    split_ifs with hslash hquote
    · rw [ih, hslash, List.replicate_succ']
      simp
    · have hodd : (0 + (bs * 2 + 1)) % 2 = 1 := by omega
      have hhalf : (0 + (bs * 2 + 1)) / 2 = bs := by omega
      rw [List.append_assoc, scan_backslashes, List.cons_append, scan_literal_quote hodd, hhalf, ih,
        hquote]
      simp
    · rw [List.append_assoc, scan_backslashes, List.cons_append, scan_char hslash hquote (Or.inl rfl),
        ih, Nat.zero_add]
      simp

theorem scan_quote (arg : List WChar) {rest : List WChar} (hrest : EndsArgument rest) :
    scan false false 0 [] (quote arg ++ rest) = arg :: scan false false 0 [] rest := by
  by_cases hbare : (!arg.isEmpty && !arg.any needsQuotes) = true
  · obtain ⟨hquote, hne, hmark, hblank⟩ := quote_bare hbare
    rw [hquote, scan_bare_argument hne hmark hblank hrest]
  · have hquote : quote arg = quotationMark :: (quoteLoop 0 arg ++ [quotationMark]) := by
      rw [quote, if_neg hbare]
    rw [hquote, List.cons_append, scan_open, List.append_assoc, List.singleton_append,
      scan_quoteLoop arg hrest, scan_end hrest]
    simp

theorem endsArgument_args (args : List (List WChar)) :
    EndsArgument (args.flatMap fun arg => 0x20 :: quote arg) := by
  cases args with
  | nil => simp [EndsArgument]
  | cons arg args =>
    intro c hc
    obtain rfl : 0x20 = c := by simpa using hc
    rfl

theorem scan_args (args : List (List WChar)) :
    scan false false 0 [] (args.flatMap fun arg => 0x20 :: quote arg) = args := by
  induction args with
  | nil => rfl
  | cons arg args ih =>
    have hspace : isBlank 0x20 = true := rfl
    rw [List.flatMap_cons, List.cons_append, scan_skip hspace, scan_quote arg (endsArgument_args args),
      ih]

theorem mem_quoteLoop {c : WChar} {arg : List WChar} {bs : ℕ} (h : c ∈ quoteLoop bs arg) :
    c = backslash ∨ c ∈ arg := by
  induction arg generalizing bs with
  | nil => exact Or.inl (List.eq_of_mem_replicate h)
  | cons d arg ih =>
    rw [quoteLoop] at h
    rw [List.mem_cons]
    split_ifs at h with hslash hquote
    · rcases ih h with hc | hc
      · exact Or.inl hc
      · exact Or.inr (Or.inr hc)
    · rw [List.mem_append, List.mem_cons] at h
      rcases h with hc | hc | hc
      · exact Or.inl (List.eq_of_mem_replicate hc)
      · exact Or.inr (Or.inl (hc.trans hquote.symm))
      · exact (ih hc).imp id Or.inr
    · rw [List.mem_append, List.mem_cons] at h
      rcases h with hc | hc | hc
      · exact Or.inl (List.eq_of_mem_replicate hc)
      · exact Or.inr (Or.inl hc)
      · exact (ih hc).imp id Or.inr

theorem mem_quote {c : WChar} {arg : List WChar} (h : c ∈ quote arg) :
    c = backslash ∨ c = quotationMark ∨ c ∈ arg := by
  rw [quote] at h
  split_ifs at h with hbare
  · exact Or.inr (Or.inr h)
  · simp only [List.mem_cons, List.mem_append, List.not_mem_nil, or_false] at h
    rcases h with hc | hc | hc
    · exact Or.inr (Or.inl hc)
    · exact (mem_quoteLoop hc).imp id Or.inr
    · exact Or.inr (Or.inl hc)

theorem programName_quote {program : List WChar} (hprogram : quotationMark ∉ program)
    {rest : List WChar} (hrest : EndsArgument rest) :
    scan false false 0 [] (programName false (quote program ++ rest)).2 =
      scan false false 0 [] rest := by
  by_cases hbare : (!program.isEmpty && !program.any needsQuotes) = true
  · obtain ⟨hquote, -, hmark, hblank⟩ := quote_bare hbare
    rw [hquote, programName_bare hmark hblank]
    exact (programName_end hrest).2
  · have hquote : quote program = quotationMark :: (quoteLoop 0 program ++ [quotationMark]) := by
      rw [quote, if_neg hbare]
    have hmark : quotationMark ∉ quoteLoop 0 program := by
      intro hmem
      rcases mem_quoteLoop hmem with hc | hc
      · exact absurd hc (by decide)
      · exact hprogram hc
    rw [hquote, List.cons_append, programName, if_pos rfl, List.append_assoc, List.singleton_append,
      Bool.not_false, programName_quoted hmark]
    exact (programName_end hrest).2

/-! ## The child gets its arguments -/

/-- What is used of `MultiByteToWideChar` for UTF-8: a null and a quotation mark come only from their own
bytes. -/
structure ReadsUtf8 (toWide : List UInt8 → List WChar) : Prop where
  null : ∀ s, 0 ∈ toWide s → 0 ∈ s
  mark : ∀ s, quotationMark ∈ toWide s → 0x22 ∈ s

theorem command_line_faithful {toWide : List UInt8 → List WChar} (hwide : ReadsUtf8 toWide)
    {program : List UInt8} {args : List (List UInt8)} (hnull : ∀ arg ∈ program :: args, 0 ∉ arg)
    (hprogram : 0x22 ∉ program) :
    (split (cString (commandLine toWide (program :: args)))).2 = args.map toWide := by
  have hline : commandLine toWide (program :: args) =
      quote (toWide program) ++ (args.map toWide).flatMap fun arg => 0x20 :: quote arg := by
    rw [commandLine, List.flatMap_map]
  have hnone : ∀ c ∈ commandLine toWide (program :: args), c ≠ 0 := by
    rintro c hc rfl
    have hquoted : ∀ arg ∈ program :: args, 0 ∉ quote (toWide arg) := by
      intro arg harg hzero
      rcases mem_quote hzero with hzero | hzero | hzero
      · exact absurd hzero (by decide)
      · exact absurd hzero (by decide)
      · exact hnull arg harg (hwide.null arg hzero)
    rw [commandLine, List.mem_append, List.mem_flatMap] at hc
    rcases hc with hc | ⟨arg, harg, hc⟩
    · exact hquoted program List.mem_cons_self hc
    · rw [List.mem_cons] at hc
      rcases hc with hc | hc
      · exact absurd hc (by decide)
      · exact hquoted arg (List.mem_cons_of_mem _ harg) hc
  have hwhole : cString (commandLine toWide (program :: args)) = commandLine toWide (program :: args) := by
    rw [cString, List.takeWhile_eq_self_iff]
    intro c hc
    exact decide_eq_true (hnone c hc)
  have hmark : quotationMark ∉ toWide program := fun hmem =>
    hprogram (hwide.mark program hmem)
  rw [hwhole, hline]
  show scan false false 0 [] (programName false _).2 = _
  rw [programName_quote hmark (endsArgument_args _), scan_args]

/-- ASCII text, one unit for each byte. -/
def widen (s : List UInt8) : List WChar := s.map UInt8.toUInt16

theorem widen_readsUtf8 : ReadsUtf8 widen := by
  have hbyte : ∀ (b : UInt8) (s : List UInt8), b.toUInt16 ∈ widen s → b ∈ s := by
    intro b s hb
    obtain ⟨c, hc, heq⟩ := List.mem_map.mp hb
    obtain rfl : c = b := UInt8.toUInt16_inj.mp heq
    exact hc
  exact ⟨fun s => hbyte 0 s, fun s => hbyte 0x22 s⟩

/-- The program `C:\a b\` with an empty argument, `c\` and `"d\"`. -/
theorem command_line_faithful_sample :
    (split (cString (commandLine widen [[0x43, 0x3A, 0x5C, 0x61, 0x20, 0x62, 0x5C], [], [0x63, 0x5C],
      [0x22, 0x64, 0x5C, 0x22]]))).2 = [[], [0x63, 0x5C], [0x22, 0x64, 0x5C, 0x22]] :=
  command_line_faithful widen_readsUtf8 (by decide) (by decide)

end Souxmar.PluginHost
