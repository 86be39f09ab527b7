import Souxmar.Ai.SessionBudget
import Souxmar.Lib.Decimal
import Souxmar.Lib.YamlFlow
import Souxmar.Pipeline.ContentHash
import Souxmar.Updater.Timestamps

/-!
# The audit log

`AuditLog::append` of `audit_log.cpp`: an entry becomes a line that is meant to be a YAML flow mapping.
-/

namespace Souxmar.Ai

open Souxmar.Lib Souxmar.Lib.YamlFlow Souxmar.Updater

/-- `iso_now`, at a time. -/
def isoNow (now : TimePoint) : String := formatRfc3339Utc now

def isPlainYaml (c : Char) : Bool :=
  c.isAlphanum || c = '_' || c = '.' || c = '/' || c = '-' || c = ':' || c = '+'

def escapeYaml (c : Char) : List Char :=
  if c = '"' then "\\\"".toList
  else if c = '\\' then "\\\\".toList
  else if c = '\n' then "\\n".toList
  else if c = '\r' then "\\r".toList
  else [c]

def quoteYaml (s : String) : String :=
  let plain := !s.isEmpty && s.toList.all isPlainYaml
  if plain then s else "\"" ++ String.ofList (s.toList.flatMap escapeYaml) ++ "\""

structure AuditLog.Entry where
  toolName : String := ""
  outcome : String := ""
  summary : String := ""
  inputHash : String := ""
  duration : ℤ := 0
  budget : Option SessionBudget := none
  heapBytesDelta : ℤ := 0
  heapSupported : Bool := false

namespace AuditLog

/-- What `append` writes. -/
def append (entry : Entry) (now : TimePoint) : String :=
  let os := "\x7bts: " ++ isoNow now ++ ", tool: " ++ quoteYaml entry.toolName ++
    ", outcome: " ++ quoteYaml entry.outcome ++ ", duration_ms: " ++ toString entry.duration ++
    ", input_hash: " ++ quoteYaml entry.inputHash
  let os := match entry.budget with
    | some budget => os ++ ", budget: \x7bin: " ++ toString budget.consumedInput.toNat ++
        ", out: " ++ toString budget.consumedOutput.toNat ++
        ", total: " ++ toString budget.consumedTotal.toNat ++
        ", max_total: " ++ toString budget.maxTotalTokens.toNat ++ "\x7d"
    | none => os
  let os := if entry.heapSupported then os ++ ", heap_bytes_delta: " ++ toString entry.heapBytesDelta else os
  let os := if entry.summary.isEmpty then os else os ++ ", summary: " ++ quoteYaml entry.summary
  os ++ "\x7d\n"

end AuditLog

/-! ## What an entry says -/

def strValue (s : String) : Value := .str s.toList

def numValue (n : ℤ) : Value := .num (toString n).toList

def budgetValue (b : SessionBudget) : Value :=
  .map [(strValue "in", numValue b.consumedInput.toNat), (strValue "out", numValue b.consumedOutput.toNat),
    (strValue "total", numValue b.consumedTotal.toNat), (strValue "max_total", numValue b.maxTotalTokens.toNat)]

/-- The mapping that the line of an entry stands for. An empty summary is not written, and a hash that is spelled
like a number is one. -/
def AuditLog.Entry.value (entry : Entry) (now : TimePoint) : Value :=
  .map <| [(strValue "ts", strValue (isoNow now)), (strValue "tool", strValue entry.toolName),
      (strValue "outcome", strValue entry.outcome), (strValue "duration_ms", numValue entry.duration),
      (strValue "input_hash", resolve entry.inputHash.toList)] ++
    (entry.budget.toList.map fun budget => (strValue "budget", budgetValue budget)) ++
    (if entry.heapSupported then [(strValue "heap_bytes_delta", numValue entry.heapBytesDelta)] else []) ++
    (if entry.summary.isEmpty then [] else [(strValue "summary", strValue entry.summary)])

/-- The text is one line, and read as a mapping it says what the entry says. -/
def AuditLog.Entry.WrittenBy (entry : Entry) (now : TimePoint) (text : String) : Prop :=
  ∃ line : List Char, text.toList = line ++ ['\n'] ∧ '\n' ∉ line ∧ '\r' ∉ line ∧
    readLine line = some (entry.value now)

/-- Which strings come back: a plain one has to be a scalar of a mapping and a string by the core schema, a
quoted one may not have control characters other than tabs and line breaks. -/
def ReadBack (s : String) : Prop :=
  if s.isEmpty = false ∧ s.toList.all isPlainYaml = true then
    s.toList ≠ ['-'] ∧ s.toList.getLast? ≠ some ':' ∧ resolve s.toList = strValue s
  else ∀ c ∈ s.toList, isQuotable c = true ∨ c = '\n' ∨ c = '\r'

/-! ## Strings -/

theorem range_of_isAlphanum {c : Char} (h : c.isAlphanum = true) : 0x30 ≤ c.toNat ∧ c.toNat ≤ 0x7A := by
  rcases Bool.or_eq_true_iff.mp h with halpha | hdigit
  · rcases Bool.or_eq_true_iff.mp halpha with hupper | hlower
    · have hbounds : 65 ≤ c.toNat ∧ c.toNat ≤ 90 := of_decide_eq_true hupper
      omega
    · have hbounds : 97 ≤ c.toNat ∧ c.toNat ≤ 122 := by
        obtain ⟨hlow, hhigh⟩ := Bool.and_eq_true_iff.mp hlower
        exact ⟨of_decide_eq_true hlow, of_decide_eq_true hhigh⟩
      omega
  · have hbounds : 48 ≤ c.toNat ∧ c.toNat ≤ 57 := Char.isDigit_iff_toNat.mp hdigit
    omega

theorem isWordChar_of_isAlphanum {c : Char} (h : c.isAlphanum = true) : isWordChar c = true := by
  have hindicator : c ∉ indicators := by
    have hall : ∀ d ∈ indicators, d.isAlphanum = false := by decide
    intro hmem
    rw [hall c hmem] at h
    cases h
  have hflow : c ∉ flowIndicators := fun hmem => hindicator (List.mem_append_right _ hmem)
  obtain ⟨hlow, hhigh⟩ := range_of_isAlphanum h
  have hns : isNsChar c = true := by
    simp only [isNsChar, Bool.or_eq_true, Bool.and_eq_true, decide_eq_true_eq]
    omega
  rw [isWordChar, plainSafe, hns, decide_eq_true hflow, decide_eq_true hindicator]
  rfl

theorem isWordChar_of_isPlainYaml {c : Char} (h : isPlainYaml c = true) : isWordChar c = true := by
  have hclass : c.isAlphanum = true ∨ c ∈ ['_', '.', '/', '-', ':', '+'] := by
    simpa only [isPlainYaml, Bool.or_eq_true, decide_eq_true_eq, or_assoc, List.mem_cons, List.not_mem_nil,
      or_false] using h
  rcases hclass with halnum | hmem
  · exact isWordChar_of_isAlphanum halnum
  · have hall : ∀ d ∈ ['_', '.', '/', '-', ':', '+'], isWordChar d = true := by decide
    exact hall c hmem

/-- The characters that come back from between quotation marks. -/
def isQuotedBack (c : Char) : Bool := isQuotable c || c = '\n' || c = '\r'

theorem readDouble_escapeYaml (c : Char) (rest : List Char) : readDouble 0 (escapeYaml c ++ rest) =
    if isQuotedBack c then (readDouble 0 rest).map fun r => (c :: r.1, r.2) else none := by
  by_cases hquote : c = '"'
  · subst hquote
    exact readDouble_escape (by decide) (by decide) rest
  by_cases hslash : c = '\\'
  · subst hslash
    exact readDouble_escape (by decide) (by decide) rest
  by_cases hnewline : c = '\n'
  · subst hnewline
    exact readDouble_escape (by decide) (by decide) rest
  by_cases hreturn : c = '\r'
  · subst hreturn
    exact readDouble_escape (by decide) (by decide) rest
  have hback : isQuotedBack c = isQuotable c := by
    rw [isQuotedBack, decide_eq_false hnewline, decide_eq_false hreturn, Bool.or_false, Bool.or_false]
  rw [escapeYaml, if_neg hquote, if_neg hslash, if_neg hnewline, if_neg hreturn, List.singleton_append,
    readDouble_plain hquote hslash, hback]

theorem readDouble_escaped (cs rest : List Char) : readDouble 0 (cs.flatMap escapeYaml ++ '"' :: rest) =
    (if cs.all isQuotedBack then some cs else none).map fun text => (text, rest) := by
  induction cs with
  | nil => exact readDouble_quote rest
  | cons c cs ih =>
    rw [List.flatMap_cons, List.append_assoc, readDouble_escapeYaml, ih, List.all_cons]
    cases isQuotedBack c with
    | false => rfl
    | true =>
      cases cs.all isQuotedBack with
      | false => rfl
      | true => rfl

/-- What becomes of a string: plain or quoted. -/
def outcomeOf (s : String) : Option Value :=
  if s.isEmpty = false ∧ s.toList.all isPlainYaml = true then
    if isPlainWord s.toList then some (resolve s.toList) else none
  else (if s.toList.all isQuotedBack then some s.toList else none).map .str

theorem toList_ne_nil {s : String} (h : s.isEmpty = false) : s.toList ≠ [] := by
  rw [Ne, String.toList_eq_nil_iff]
  rintro rfl
  cases h

theorem quoteYaml_plain {s : String} (h : s.isEmpty = false ∧ s.toList.all isPlainYaml = true) : quoteYaml s = s := by
  rw [quoteYaml, h.1, h.2]
  rfl

theorem quoteYaml_quoted {s : String} (h : ¬(s.isEmpty = false ∧ s.toList.all isPlainYaml = true)) :
    (quoteYaml s).toList = '"' :: (s.toList.flatMap escapeYaml ++ ['"']) := by
  have hplain : (!s.isEmpty && s.toList.all isPlainYaml) = false := by
    rw [← Bool.not_eq_true, Bool.and_eq_true, Bool.not_eq_true']
    exact h
  rw [quoteYaml, hplain, if_neg Bool.false_ne_true, String.toList_append, String.toList_append,
    String.toList_ofList (l := s.toList.flatMap escapeYaml)]
  rfl

theorem outcome_quoteYaml (s : String) : Outcome (quoteYaml s).toList (outcomeOf s) := by
  rw [outcomeOf]
  split_ifs with hplain
  · rw [quoteYaml_plain hplain]
    have houtcome := outcome_word (toList_ne_nil hplain.1) fun c hc =>
      isWordChar_of_isPlainYaml (List.all_eq_true.mp hplain.2 c hc)
    rwa [if_pos ‹_›] at houtcome
  · rw [quoteYaml_plain hplain]
    have houtcome := outcome_word (toList_ne_nil hplain.1) fun c hc =>
      isWordChar_of_isPlainYaml (List.all_eq_true.mp hplain.2 c hc)
    rwa [if_neg ‹_›] at houtcome
  · rw [quoteYaml_quoted hplain]
    have houtcome := outcome_quoted (readDouble_escaped s.toList)
    rwa [if_pos ‹_›] at houtcome
  · rw [quoteYaml_quoted hplain]
    have houtcome := outcome_quoted (readDouble_escaped s.toList)
    rwa [if_neg ‹_›] at houtcome

theorem outcomeOf_eq_iff (s : String) : outcomeOf s = some (strValue s) ↔ ReadBack s := by
  rw [outcomeOf, ReadBack]
  by_cases hplain : s.isEmpty = false ∧ s.toList.all isPlainYaml = true
  · rw [if_pos hplain, if_pos hplain]
    have hword : isPlainWord s.toList = true ↔ s.toList ≠ ['-'] ∧ s.toList.getLast? ≠ some ':' := by
      have hempty : s.toList.isEmpty = false := List.isEmpty_eq_false_iff.mpr (toList_ne_nil hplain.1)
      have hall : s.toList.all isWordChar = true := List.all_eq_true.mpr fun c hc =>
        isWordChar_of_isPlainYaml (List.all_eq_true.mp hplain.2 c hc)
      simp only [isPlainWord, hempty, hall, Bool.not_false, Bool.true_and, Bool.and_eq_true, decide_eq_true_eq]
    split_ifs with h
    · rw [Option.some.injEq, ← and_assoc, ← hword, and_iff_right h]
    · refine iff_of_false (fun hsome => ?_) (fun hback => h (hword.mpr ⟨hback.1, hback.2.1⟩))
      cases hsome
  · rw [if_neg hplain, if_neg hplain]
    have hback : s.toList.all isQuotedBack = true ↔ ∀ c ∈ s.toList, isQuotable c = true ∨ c = '\n' ∨ c = '\r' := by
      simp only [List.all_eq_true, isQuotedBack, Bool.or_eq_true, decide_eq_true_eq, or_assoc]
    rw [← hback]
    split_ifs with h
    · exact iff_of_true rfl h
    · refine iff_of_false (fun hsome => ?_) h
      cases hsome

/-! ## Lines -/

theorem beginsValue_word {text : List Char} (hne : text ≠ []) (hword : ∀ c ∈ text, isWordChar c = true) :
    BeginsValue text := by
  cases text with
  | nil => exact absurd rfl hne
  | cons c cs => exact ⟨c, cs, rfl, (wordChar (hword c List.mem_cons_self)).white⟩

theorem beginsValue_quoteYaml (s : String) : BeginsValue (quoteYaml s).toList := by
  by_cases hplain : s.isEmpty = false ∧ s.toList.all isPlainYaml = true
  · rw [quoteYaml_plain hplain]
    exact beginsValue_word (toList_ne_nil hplain.1) fun c hc =>
      isWordChar_of_isPlainYaml (List.all_eq_true.mp hplain.2 c hc)
  · rw [quoteYaml_quoted hplain]
    exact ⟨'"', _, rfl, by decide⟩

theorem unbroken_quoteYaml (s : String) : Unbroken (quoteYaml s).toList := by
  by_cases hplain : s.isEmpty = false ∧ s.toList.all isPlainYaml = true
  · rw [quoteYaml_plain hplain]
    exact unbroken_word fun c hc => isWordChar_of_isPlainYaml (List.all_eq_true.mp hplain.2 c hc)
  · rw [quoteYaml_quoted hplain]
    have hescape : ∀ d, Unbroken (escapeYaml d) := by
      intro d
      rw [escapeYaml]
      split_ifs with hquote hslash hnewline hreturn
      · unfold Unbroken
        decide
      · unfold Unbroken
        decide
      · unfold Unbroken
        decide
      · unfold Unbroken
        decide
      · intro c hc
        rw [List.mem_singleton.mp hc]
        exact ⟨hnewline, hreturn⟩
    intro c hc
    rcases List.mem_cons.mp hc with rfl | hc
    · decide
    rcases List.mem_append.mp hc with hc | hc
    · obtain ⟨d, -, hd⟩ := List.mem_flatMap.mp hc
      exact hescape d c hd
    · rw [List.mem_singleton.mp hc]
      decide

/-- A field of the line. -/
def textField (key : String) (s : String) : Field := ⟨key.toList, (quoteYaml s).toList, outcomeOf s⟩

def numField (key : String) (n : ℤ) : Field := ⟨key.toList, (toString n).toList, some (numValue n)⟩

/-- A key of the line: a word that is a string. -/
def IsKey (key : String) : Prop := isPlainWord key.toList = true ∧ resolve key.toList = .str key.toList

theorem wellFormed_textField {key : String} (hkey : IsKey key) (s : String) : (textField key s).WellFormed :=
  ⟨hkey.1, hkey.2, beginsValue_quoteYaml s, outcome_quoteYaml s, unbroken_quoteYaml s⟩

theorem wellFormed_numField {key : String} (hkey : IsKey key) (n : ℤ) : (numField key n).WellFormed := by
  obtain ⟨digits, hne, hdigits, htext⟩ := toList_toString_int n
  have hdigit : ∀ c ∈ digits, isWordChar c = true := fun c hc =>
    isWordChar_of_isAlphanum (Bool.or_eq_true_iff.mpr (Or.inr (hdigits c hc)))
  have hword : ∀ c ∈ (toString n).toList, isWordChar c = true := by
    intro c hc
    rcases htext with htext | htext
    · exact hdigit c (htext ▸ hc)
    · rw [htext] at hc
      rcases List.mem_cons.mp hc with rfl | hc
      · decide
      · exact hdigit c hc
  have hnonempty : (toString n).toList ≠ [] := by
    rcases htext with htext | htext
    · rw [htext]
      exact hne
    · rw [htext]
      exact List.cons_ne_nil _ _
  have hdash : (toString n).toList ≠ ['-'] := by
    rcases htext with htext | htext
    · rw [htext]
      rintro rfl
      exact absurd (hdigits '-' List.mem_cons_self) (by decide)
    · rw [htext]
      exact fun h => hne (List.cons.inj h).2
  have hcolon : (toString n).toList.getLast? ≠ some ':' := by
    intro hlast
    have hmem : ':' ∈ (toString n).toList := List.mem_of_getLast? hlast
    have hdigitColon : ':' ∈ digits → False := fun h => absurd (hdigits ':' h) (by decide)
    rcases htext with htext | htext
    · exact hdigitColon (htext ▸ hmem)
    · rw [htext] at hmem
      exact hdigitColon ((List.mem_cons.mp hmem).resolve_left (by decide))
  have hplain : isPlainWord (toString n).toList = true := by
    simp only [isPlainWord, List.isEmpty_eq_false_iff.mpr hnonempty, List.all_eq_true.mpr hword, Bool.not_false,
      Bool.true_and, Bool.and_eq_true, decide_eq_true_eq]
    exact ⟨hdash, hcolon⟩
  refine ⟨hkey.1, hkey.2, beginsValue_word hnonempty hword, ?_, unbroken_word hword⟩
  have houtcome := outcome_word hnonempty hword
  rwa [if_pos hplain, resolve_digits hne hdigits htext] at houtcome

theorem isWordChar_stamp (tm : Tm) : ∀ c ∈ stamp tm, isWordChar c = true := by
  have hdigit : ∀ v, isWordChar (digitChar v) = true := by
    have hdigits : ∀ n < 10, isWordChar (Char.ofNat ('0'.toNat + n)) = true := by decide
    exact fun v => hdigits _ (by omega)
  have hsep : ∀ c ∈ ['-', 'T', ':', 'Z'], isWordChar c = true := by decide
  simp only [stamp_eq, List.forall_mem_cons, List.not_mem_nil, IsEmpty.forall_iff, implies_true, and_true, hdigit,
    true_and] at hsep ⊢
  simp only [hsep, and_self]

theorem colon_mem_stamp (tm : Tm) : ':' ∈ stamp tm := by
  simp only [stamp_eq, List.mem_cons, true_or, or_true]

theorem getLast?_stamp (tm : Tm) : (stamp tm).getLast? = some 'Z' := by
  rw [stamp, List.getLast?_append, List.getLast?_singleton]
  rfl

theorem wellFormed_stampField {key : String} (hkey : IsKey key) (now : TimePoint) :
    Field.WellFormed ⟨key.toList, (isoNow now).toList, some (strValue (isoNow now))⟩ := by
  have htext : (isoNow now).toList = stamp (gmtime (toTimeT now)) := by
    rw [isoNow, formatRfc3339Utc_eq, String.toList_ofList]
  rw [strValue, htext]
  generalize gmtime (toTimeT now) = tm
  have hword := isWordChar_stamp tm
  have hlast := getLast?_stamp tm
  have hne : stamp tm ≠ [] := List.ne_nil_of_mem (colon_mem_stamp tm)
  have hdash : stamp tm ≠ ['-'] := by
    intro h
    rw [h] at hlast
    exact absurd hlast (by decide)
  have hplain : isPlainWord (stamp tm) = true := by
    simp only [isPlainWord, List.isEmpty_eq_false_iff.mpr hne, List.all_eq_true.mpr hword, hlast, Bool.not_false,
      Bool.true_and, Bool.and_eq_true, decide_eq_true_eq]
    exact ⟨hdash, by decide⟩
  refine ⟨hkey.1, hkey.2, beginsValue_word hne hword, ?_, unbroken_word hword⟩
  have houtcome := outcome_word hne hword
  rwa [if_pos hplain, resolve_of_colon (colon_mem_stamp tm)] at houtcome

theorem outcomeOf_hex (h : Pipeline.ContentHash) : outcomeOf h.hex = some (resolve h.hex.toList) := by
  have htext : h.hex.toList = h.bytes.flatMap Pipeline.hexByte := by
    rw [Pipeline.ContentHash.hex, String.toList_ofList]
  have hmem : ∀ c ∈ h.hex.toList, c ∈ Pipeline.kHex := by
    intro c hc
    rw [htext, List.mem_flatMap] at hc
    obtain ⟨b, -, hc⟩ := hc
    exact Pipeline.mem_hexByte hc
  have hne : h.hex.toList ≠ [] := by
    rw [htext]
    cases hbytes : h.bytes with
    | nil =>
      have hsize := h.size
      rw [hbytes] at hsize
      cases hsize
    | cons b bytes => exact List.cons_ne_nil _ _
  have hempty : h.hex.isEmpty = false := by
    rw [← Bool.not_eq_true, String.isEmpty_iff]
    intro h'
    exact hne (String.toList_eq_nil_iff.mpr h')
  have hplain : h.hex.toList.all isPlainYaml = true := by
    have hall : ∀ c ∈ Pipeline.kHex, isPlainYaml c = true := by decide
    exact List.all_eq_true.mpr fun c hc => hall c (hmem c hc)
  have hword : isPlainWord h.hex.toList = true := by
    have hall : ∀ c ∈ Pipeline.kHex, isWordChar c = true ∧ c ≠ '-' ∧ c ≠ ':' := by decide
    have hchars : h.hex.toList.all isWordChar = true :=
      List.all_eq_true.mpr fun c hc => (hall c (hmem c hc)).1
    simp only [isPlainWord, List.isEmpty_eq_false_iff.mpr hne, hchars, Bool.not_false, Bool.true_and,
      Bool.and_eq_true, decide_eq_true_eq]
    refine ⟨fun hdash => ?_, fun hlast => ?_⟩
    · have hin : '-' ∈ h.hex.toList := by
        rw [hdash]
        exact List.mem_cons_self
      exact (hall _ (hmem _ hin)).2.1 rfl
    · exact (hall _ (hmem _ (List.mem_of_getLast? hlast))).2.2 rfl
  rw [outcomeOf, if_pos ⟨hempty, hplain⟩, if_pos hword]

theorem isKeys : ∀ key ∈ ["ts", "tool", "outcome", "duration_ms", "input_hash", "budget", "in", "out", "total",
    "max_total", "heap_bytes_delta", "summary"], IsKey key := by
  have hkeys : ∀ key ∈ ["ts", "tool", "outcome", "duration_ms", "input_hash", "budget", "in", "out", "total",
      "max_total", "heap_bytes_delta", "summary"], isPlainWord key.toList = true ∧ key.toList ∉ wordSpellings ∧
      Fits intPattern key.toList = false ∧ Fits floatPattern key.toList = false := by
    decide
  intro key hkey
  obtain ⟨hword, hspelling, hint, hfloat⟩ := hkeys key hkey
  exact ⟨hword, resolve_str hspelling hint hfloat⟩

def budgetFields (b : SessionBudget) : List Field :=
  [numField "out" b.consumedOutput.toNat, numField "total" b.consumedTotal.toNat,
    numField "max_total" b.maxTotalTokens.toNat]

def budgetField (b : SessionBudget) : Field :=
  ⟨"budget".toList, mappingText (numField "in" b.consumedInput.toNat) (budgetFields b), some (budgetValue b)⟩

/-- The fields of every line, behind the time stamp. -/
def baseFields (entry : AuditLog.Entry) : List Field :=
  [textField "tool" entry.toolName, textField "outcome" entry.outcome, numField "duration_ms" entry.duration,
    textField "input_hash" entry.inputHash]

def heapFields (entry : AuditLog.Entry) : List Field :=
  if entry.heapSupported then [numField "heap_bytes_delta" entry.heapBytesDelta] else []

def summaryFields (entry : AuditLog.Entry) : List Field :=
  if entry.summary.isEmpty then [] else [textField "summary" entry.summary]

/-- The fields behind the time stamp. -/
def AuditLog.Entry.fields (entry : Entry) : List Field :=
  baseFields entry ++ entry.budget.toList.map budgetField ++ heapFields entry ++ summaryFields entry

/-! ### The line is the mapping of its fields -/

section

variable {label key : String} (hlabel : label.toList = ',' :: ' ' :: (key.toList ++ [':', ' '])) (os : String)
include hlabel

theorem toList_label (text : String) (outcome : Option Value) :
    (os ++ label ++ text).toList = os.toList ++ moreText [⟨key.toList, text.toList, outcome⟩] := by
  rw [String.toList_append, String.toList_append, hlabel, moreText, List.flatMap_cons, List.flatMap_nil, Field.text]
  simp only [List.append_assoc, List.cons_append, List.nil_append, List.append_nil]

theorem toList_textField (s : String) :
    (os ++ label ++ quoteYaml s).toList = os.toList ++ moreText [textField key s] :=
  toList_label hlabel os _ _

theorem toList_numField (n : ℤ) :
    (os ++ label ++ toString n).toList = os.toList ++ moreText [numField key n] :=
  toList_label hlabel os _ _

end

/-- The time stamp. -/
def stampField (now : TimePoint) : Field := ⟨"ts".toList, (isoNow now).toList, some (strValue (isoNow now))⟩

theorem toList_base (entry : AuditLog.Entry) (now : TimePoint) :
    ("\x7bts: " ++ isoNow now ++ ", tool: " ++ quoteYaml entry.toolName ++
      ", outcome: " ++ quoteYaml entry.outcome ++ ", duration_ms: " ++ toString entry.duration ++
      ", input_hash: " ++ quoteYaml entry.inputHash).toList =
      '{' :: ((stampField now).text ++ moreText (baseFields entry)) := by
  have hopen : "\x7bts: ".toList = '{' :: ("ts".toList ++ [':', ' ']) := by decide
  have htool : ", tool: ".toList = ',' :: ' ' :: ("tool".toList ++ [':', ' ']) := by decide
  have houtcome : ", outcome: ".toList = ',' :: ' ' :: ("outcome".toList ++ [':', ' ']) := by decide
  have hduration : ", duration_ms: ".toList = ',' :: ' ' :: ("duration_ms".toList ++ [':', ' ']) := by decide
  have hhash : ", input_hash: ".toList = ',' :: ' ' :: ("input_hash".toList ++ [':', ' ']) := by decide
  rw [toList_textField hhash, toList_numField hduration, toList_textField houtcome, toList_textField htool,
    String.toList_append, hopen]
  have hstamp : (stampField now).text = "ts".toList ++ ':' :: ' ' :: (isoNow now).toList := by
    simp only [stampField, Field.text]
  have hbase : moreText (baseFields entry) = moreText [textField "tool" entry.toolName] ++
      (moreText [textField "outcome" entry.outcome] ++ (moreText [numField "duration_ms" entry.duration] ++
        moreText [textField "input_hash" entry.inputHash])) := by
    rw [← moreText_append, ← moreText_append, ← moreText_append]
    rfl
  rw [hstamp, hbase]
  simp only [List.cons_append, List.append_assoc, List.nil_append]

theorem toList_budget (os : String) (b : SessionBudget) :
    (os ++ ", budget: \x7bin: " ++ toString b.consumedInput.toNat ++ ", out: " ++ toString b.consumedOutput.toNat ++
      ", total: " ++ toString b.consumedTotal.toNat ++ ", max_total: " ++ toString b.maxTotalTokens.toNat ++
      "\x7d").toList = os.toList ++ moreText [budgetField b] := by
  have hin : ", budget: \x7bin: ".toList =
      ',' :: ' ' :: ("budget".toList ++ ':' :: ' ' :: '{' :: ("in".toList ++ [':', ' '])) := by decide
  have hout : ", out: ".toList = ',' :: ' ' :: ("out".toList ++ [':', ' ']) := by decide
  have htotal : ", total: ".toList = ',' :: ' ' :: ("total".toList ++ [':', ' ']) := by decide
  have hmax : ", max_total: ".toList = ',' :: ' ' :: ("max_total".toList ++ [':', ' ']) := by decide
  have hclose : "\x7d".toList = ['}'] := by decide
  have hfields : moreText (budgetFields b) = moreText [numField "out" b.consumedOutput.toNat] ++
      (moreText [numField "total" b.consumedTotal.toNat] ++
        moreText [numField "max_total" b.maxTotalTokens.toNat]) := by
    rw [← moreText_append, ← moreText_append]
    rfl
  have hfield : moreText [budgetField b] = ',' :: ' ' :: ("budget".toList ++ ':' :: ' ' :: '{' ::
      ("in".toList ++ ':' :: ' ' :: (toString (b.consumedInput.toNat : ℤ)).toList ++
        moreText (budgetFields b) ++ ['}'])) := by
    rw [moreText, List.flatMap_cons, List.flatMap_nil, List.append_nil]
    rfl
  rw [String.toList_append, hclose, ← toString_natCast b.maxTotalTokens.toNat, toList_numField hmax,
    ← toString_natCast b.consumedTotal.toNat, toList_numField htotal,
    ← toString_natCast b.consumedOutput.toNat, toList_numField hout, String.toList_append, String.toList_append,
    hin, ← toString_natCast b.consumedInput.toNat, hfield, hfields]
  simp only [List.cons_append, List.append_assoc, List.nil_append]

theorem append_eq (entry : AuditLog.Entry) (now : TimePoint) :
    (AuditLog.append entry now).toList = mappingText (stampField now) entry.fields ++ ['\n'] := by
  have hheap : ", heap_bytes_delta: ".toList = ',' :: ' ' :: ("heap_bytes_delta".toList ++ [':', ' ']) := by decide
  have hsummary : ", summary: ".toList = ',' :: ' ' :: ("summary".toList ++ [':', ' ']) := by decide
  have hend : "\x7d\n".toList = ['}', '\n'] := by decide
  have hbase := toList_base entry now
  unfold AuditLog.append
  extract_lets base budgeted measured summed
  have hbudgeted : budgeted.toList = base.toList ++ moreText (entry.budget.toList.map budgetField) := by
    unfold budgeted
    cases entry.budget with
    | none => exact (List.append_nil _).symm
    | some b => exact toList_budget base b
  have hmeasured : measured.toList = budgeted.toList ++ moreText (heapFields entry) := by
    unfold measured
    rw [heapFields]
    split_ifs with h
    · exact toList_numField hheap budgeted _
    · exact (List.append_nil _).symm
  have hsummed : summed.toList = measured.toList ++ moreText (summaryFields entry) := by
    unfold summed
    rw [summaryFields]
    split_ifs with h
    · exact (List.append_nil _).symm
    · exact toList_textField hsummary measured _
  rw [String.toList_append, hend, hsummed, hmeasured, hbudgeted, hbase, AuditLog.Entry.fields, mappingText,
    moreText_append, moreText_append, moreText_append]
  simp only [List.cons_append, List.append_assoc, List.nil_append]

/-! ## What comes back -/

theorem wellFormed_budgetField (b : SessionBudget) : (budgetField b).WellFormed := by
  have hfields : ∀ g ∈ numField "in" b.consumedInput.toNat :: budgetFields b, g.WellFormed := by
    simp only [budgetFields, List.forall_mem_cons, List.not_mem_nil, IsEmpty.forall_iff, implies_true, and_true]
    exact ⟨wellFormed_numField (isKeys _ (by decide)) _, wellFormed_numField (isKeys _ (by decide)) _,
      wellFormed_numField (isKeys _ (by decide)) _, wellFormed_numField (isKeys _ (by decide)) _⟩
  have hkey : IsKey "budget" := isKeys _ (by decide)
  exact ⟨hkey.1, hkey.2, ⟨'{', _, rfl, by decide⟩, reads_mapping hfields rfl, unbroken_mapping hfields⟩

theorem wellFormed_fields (entry : AuditLog.Entry) (now : TimePoint) :
    ∀ f ∈ stampField now :: entry.fields, f.WellFormed := by
  have hbase : ∀ f ∈ baseFields entry, f.WellFormed := by
    simp only [baseFields, List.forall_mem_cons, List.not_mem_nil, IsEmpty.forall_iff, implies_true, and_true]
    exact ⟨wellFormed_textField (isKeys _ (by decide)) _, wellFormed_textField (isKeys _ (by decide)) _,
      wellFormed_numField (isKeys _ (by decide)) _, wellFormed_textField (isKeys _ (by decide)) _⟩
  have hbudget : ∀ f ∈ entry.budget.toList.map budgetField, f.WellFormed := by
    intro f hf
    obtain ⟨b, -, rfl⟩ := List.mem_map.mp hf
    exact wellFormed_budgetField b
  have hheap : ∀ f ∈ heapFields entry, f.WellFormed := by
    rw [heapFields]
    split_ifs
    · exact List.forall_mem_singleton.mpr (wellFormed_numField (isKeys _ (by decide)) _)
    · exact List.forall_mem_nil _
  have hsummary : ∀ f ∈ summaryFields entry, f.WellFormed := by
    rw [summaryFields]
    split_ifs
    · exact List.forall_mem_nil _
    · exact List.forall_mem_singleton.mpr (wellFormed_textField (isKeys _ (by decide)) _)
  refine List.forall_mem_cons.mpr ⟨wellFormed_stampField (isKeys _ (by decide)) now, ?_⟩
  rw [AuditLog.Entry.fields, List.forall_mem_append, List.forall_mem_append, List.forall_mem_append]
  exact ⟨⟨⟨hbase, hbudget⟩, hheap⟩, hsummary⟩

theorem readBack_empty {s : String} (h : s.isEmpty = true) : ReadBack s := by
  rw [String.isEmpty_iff.mp h, ReadBack, if_neg (fun h' => absurd h'.1 (by decide))]
  exact fun c hc => absurd hc List.not_mem_nil

/-- A field says an entry of the mapping. -/
def Tells (f : Field) (e : Value × Value) : Prop := e.1 = .str f.key ∧ f.outcome = some e.2

theorem tells_textField (key s : String) : Tells (textField key s) (strValue key, strValue s) ↔ ReadBack s :=
  (and_iff_right rfl).trans (outcomeOf_eq_iff s)

theorem tells_numField (key : String) (n : ℤ) : Tells (numField key n) (strValue key, numValue n) := ⟨rfl, rfl⟩

theorem forall₂_append_iff {fields more : List Field} {es es' : List (Value × Value)}
    (h : fields.length = es.length) : List.Forall₂ Tells (fields ++ more) (es ++ es') ↔
      List.Forall₂ Tells fields es ∧ List.Forall₂ Tells more es' := by
  induction fields generalizing es with
  | nil =>
    obtain rfl : es = [] := List.eq_nil_of_length_eq_zero h.symm
    exact (and_iff_right List.Forall₂.nil).symm
  | cons f fields ih =>
    cases es with
    | nil => cases h
    | cons e es =>
      rw [List.cons_append, List.cons_append, List.forall₂_cons, List.forall₂_cons, ih (Nat.succ.inj h), and_assoc]

theorem entries_fields_iff (entry : AuditLog.Entry) (h : Pipeline.ContentHash) (hhash : entry.inputHash = h.hex)
    (now : TimePoint) : (entries (stampField now :: entry.fields)).map .map = some (entry.value now) ↔
      ReadBack entry.toolName ∧ ReadBack entry.outcome ∧ ReadBack entry.summary := by
  have hmap : ∀ (o : Option (List (Value × Value))) (es : List (Value × Value)),
      o.map Value.map = some (Value.map es) ↔ o = some es := by
    intro o es
    cases o with
    | none => exact iff_of_false nofun nofun
    | some es' => rw [Option.map_some, Option.some.injEq, Option.some.injEq, Value.map.injEq]
  rw [AuditLog.Entry.value, hmap, entries_eq_some_iff]
  change List.Forall₂ Tells _ _ ↔ _
  have hstamp : Tells (stampField now) (strValue "ts", strValue (isoNow now)) := ⟨rfl, rfl⟩
  have hbase : List.Forall₂ Tells (baseFields entry) [(strValue "tool", strValue entry.toolName),
      (strValue "outcome", strValue entry.outcome), (strValue "duration_ms", numValue entry.duration),
      (strValue "input_hash", resolve entry.inputHash.toList)] ↔
      ReadBack entry.toolName ∧ ReadBack entry.outcome := by
    have hhex : Tells (textField "input_hash" entry.inputHash)
        (strValue "input_hash", resolve entry.inputHash.toList) := by
      rw [hhash]
      exact ⟨rfl, outcomeOf_hex h⟩
    rw [baseFields, List.forall₂_cons, List.forall₂_cons, List.forall₂_cons, List.forall₂_cons, tells_textField,
      tells_textField, and_iff_right (tells_numField _ _), and_iff_right hhex, and_iff_left List.Forall₂.nil]
  have hbudget : List.Forall₂ Tells (entry.budget.toList.map budgetField)
      (entry.budget.toList.map fun budget => (strValue "budget", budgetValue budget)) := by
    cases entry.budget with
    | none => exact List.Forall₂.nil
    | some b => exact List.Forall₂.cons ⟨rfl, rfl⟩ List.Forall₂.nil
  have hheap : List.Forall₂ Tells (heapFields entry)
      (if entry.heapSupported then [(strValue "heap_bytes_delta", numValue entry.heapBytesDelta)] else []) := by
    rw [heapFields]
    split_ifs
    · exact List.Forall₂.cons (tells_numField _ _) List.Forall₂.nil
    · exact List.Forall₂.nil
  have hsummary : List.Forall₂ Tells (summaryFields entry)
      (if entry.summary.isEmpty then [] else [(strValue "summary", strValue entry.summary)]) ↔
      ReadBack entry.summary := by
    rw [summaryFields]
    split_ifs with hempty
    · exact iff_of_true List.Forall₂.nil (readBack_empty hempty)
    · rw [List.forall₂_cons, tells_textField, and_iff_left List.Forall₂.nil]
  have hlength : (baseFields entry ++ entry.budget.toList.map budgetField).length =
      ([(strValue "tool", strValue entry.toolName), (strValue "outcome", strValue entry.outcome),
        (strValue "duration_ms", numValue entry.duration),
        (strValue "input_hash", resolve entry.inputHash.toList)] ++
        entry.budget.toList.map fun budget => (strValue "budget", budgetValue budget)).length := by
    rw [List.length_append, List.length_append, hbudget.length_eq]
    rfl
  have hlength' : (baseFields entry ++ entry.budget.toList.map budgetField ++ heapFields entry).length =
      ([(strValue "tool", strValue entry.toolName), (strValue "outcome", strValue entry.outcome),
        (strValue "duration_ms", numValue entry.duration),
        (strValue "input_hash", resolve entry.inputHash.toList)] ++
        entry.budget.toList.map (fun budget => (strValue "budget", budgetValue budget)) ++
        if entry.heapSupported then [(strValue "heap_bytes_delta", numValue entry.heapBytesDelta)] else []).length := by
    rw [List.length_append, hlength, hheap.length_eq, ← List.length_append]
  rw [List.cons_append, List.cons_append, List.cons_append, List.forall₂_cons, and_iff_right hstamp,
    AuditLog.Entry.fields, forall₂_append_iff hlength', forall₂_append_iff hlength, forall₂_append_iff rfl, hbase,
    hsummary, and_iff_left hbudget, and_iff_left hheap, and_assoc]

theorem writtenBy_append_iff (entry : AuditLog.Entry) (now : TimePoint) : entry.WrittenBy now (AuditLog.append entry now) ↔
      (entries (stampField now :: entry.fields)).map .map = some (entry.value now) := by
  have hwf := wellFormed_fields entry now
  rw [AuditLog.Entry.WrittenBy, append_eq, ← readLine_mapping hwf]
  constructor
  · rintro ⟨line, hline, -, -, hread⟩
    rwa [List.append_cancel_right hline]
  · intro hread
    have hunbroken := unbroken_mapping hwf
    exact ⟨_, rfl, fun hc => (hunbroken _ hc).1 rfl, fun hc => (hunbroken _ hc).2 rfl, hread⟩

/-- The line is read as the entry, exactly when the tool's name, the outcome and the summary come back. -/
theorem audit_line_iff (entry : AuditLog.Entry) (h : Pipeline.ContentHash) (hhash : entry.inputHash = h.hex)
    (now : TimePoint) : entry.WrittenBy now (AuditLog.append entry now) ↔
      ReadBack entry.toolName ∧ ReadBack entry.outcome ∧ ReadBack entry.summary :=
  (writtenBy_append_iff entry now).trans (entries_fields_iff entry h hhash now)

/-- A tool that measures its heap. -/
def boxEntry : AuditLog.Entry where
  toolName := "mesh.box"
  outcome := "executed"
  summary := "two \"boxes\""
  inputHash := (default : Pipeline.ContentHash).hex
  duration := 3
  heapBytesDelta := -5
  heapSupported := true

theorem audit_line_iff_box : boxEntry.WrittenBy 0 (AuditLog.append boxEntry 0) ↔
    ReadBack boxEntry.toolName ∧ ReadBack boxEntry.outcome ∧ ReadBack boxEntry.summary :=
  audit_line_iff boxEntry default rfl 0

/-- A name that ends in a colon is the key of a mapping of its own. -/
theorem colon_breaks_line : ∃ (entry : AuditLog.Entry) (h : Pipeline.ContentHash), entry.inputHash = h.hex ∧
    entry.toolName = "a:" ∧ ¬entry.WrittenBy 0 (AuditLog.append entry 0) := by
  refine ⟨{ boxEntry with toolName := "a:" }, default, rfl, rfl, ?_⟩
  rw [writtenBy_append_iff, entries_fields_iff _ default rfl]
  rintro ⟨hback, -, -⟩
  rw [ReadBack, if_pos (by decide)] at hback
  exact hback.2.1 (by decide)

end Souxmar.Ai
