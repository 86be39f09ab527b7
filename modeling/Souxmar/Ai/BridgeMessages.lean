import Souxmar.Ai.Bridge
import Souxmar.Ai.Render
import Souxmar.Lib.JsonText
import Souxmar.Lib.Regex

/-!
# The messages of a request to the bridge

`extract_string_field` and `extract_messages` of `c-bridge/provider.cpp`, which search the JSON text of a request
with regular expressions.
-/

namespace Souxmar.Ai

open Souxmar.Lib Souxmar.Lib.Regex Souxmar.Lib.Json

/-! ## The expressions -/

/-- `\s` in the classic locale. -/
def isRegexSpace (c : Char) : Bool := c = ' ' || (9 ≤ c.toNat && c.toNat ≤ 13)

def spaces : Regex := star (char isRegexSpace)

/-- `.` is no line terminator. -/
def dot : Regex := char fun c => c ≠ '\n' && c ≠ '\r'

/-- `(?:[^"\\]|\\.)*` -/
def quotedText : Regex := star (alt (char fun c => c ≠ '"' && c ≠ '\\') (seq (char (· = '\\')) dot))

/-- `"key"\s*:\s*"` -/
def keyAndQuote (key : String) : Regex :=
  seq (lit ('"' :: (key.toList ++ ['"']))) (seq spaces (seq (lit [':']) (seq spaces (lit ['"']))))

/-- The expression that `extract_string_field` builds, for a key without special characters. -/
def fieldPattern (key : String) : Pattern :=
  [{ regex := keyAndQuote key }, { regex := quotedText, captured := true }, { regex := lit ['"'] }]

def messagePattern : Pattern :=
  [{ regex := seq (lit ['{']) (seq spaces (keyAndQuote "role")) },
    { regex := plus (char (· ≠ '"')), captured := true },
    { regex := seq (lit ['"']) (seq spaces (seq (lit [',']) (seq spaces (keyAndQuote "content")))) },
    { regex := quotedText, captured := true },
    { regex := seq (lit ['"']) (seq spaces (lit ['}'])) }]

/-! ## What is extracted -/

def extractStringField (json key : String) : String :=
  match (fieldPattern key).search json.toList with
  | m :: _ => m.group 0
  | [] => ""

/-- Any other role stays the default. -/
def messageOf (m : Match) : ChatMessage :=
  let r := m.group 0
  let role :=
    if r = "system" then .system
    else if r = "user" then .user
    else if r = "assistant" then .assistant
    else if r = "tool" then .tool
    else .user
  { role, content := m.group 1 }

def extractMessages (json : String) : List ChatMessage :=
  (messagePattern.search json.toList).map messageOf

/-- The bridge, with the expressions that it reads its requests with. -/
def BridgeEnv.reading {ω : Type} (env : BridgeEnv ω) : BridgeEnv ω := 
  { env with extractStringField := Souxmar.Ai.extractStringField, extractMessages := Souxmar.Ai.extractMessages }

/-! ## What the expression matches -/

theorem mem_spaces {t : List Char} : t ∈ spaces.lang ↔ ∀ c ∈ t, isRegexSpace c = true := mem_star_char

theorem mem_keyAndQuote {key : String} {t : List Char} : t ∈ (keyAndQuote key).lang ↔
    ∃ w ∈ spaces.lang, ∃ w' ∈ spaces.lang, t = '"' :: (key.toList ++ '"' :: (w ++ ':' :: (w' ++ ['"']))) := by
  simp only [keyAndQuote, lang, Language.mem_mul, mem_lit]
  constructor
  · rintro ⟨_, rfl, _, ⟨w, hw, _, ⟨_, rfl, _, ⟨w', hw', _, rfl, rfl⟩, rfl⟩, rfl⟩, rfl⟩
    exact ⟨w, hw, w', hw', by simp only [List.cons_append, List.append_assoc, List.nil_append]⟩
  · rintro ⟨w, hw, w', hw', rfl⟩
    exact ⟨_, rfl, _, ⟨w, hw, _, ⟨_, rfl, _, ⟨w', hw', _, rfl, rfl⟩, rfl⟩, rfl⟩,
      by simp only [List.cons_append, List.append_assoc, List.nil_append]⟩

theorem enclosed_of_quotedText {t : List Char} (h : t ∈ quotedText.lang) : Enclosed t := by
  obtain ⟨words, rfl, hwords⟩ := Language.mem_kstar.mp h
  clear h
  induction words with
  | nil => exact .nil
  | cons w words ih =>
    have hrest := ih fun y hy => hwords y (List.mem_cons_of_mem _ hy)
    rcases hwords w List.mem_cons_self with ⟨c, hc, rfl⟩ | hescape
    · simp only [ne_eq, decide_not, Bool.and_eq_true, Bool.not_eq_true', decide_eq_false_iff_not] at hc
      exact .plain hc.1 hc.2 hrest
    · obtain ⟨_, ⟨c, hc, rfl⟩, _, ⟨d, -, rfl⟩, rfl⟩ := Language.mem_mul.mp hescape
      obtain rfl := of_decide_eq_true hc
      exact .escape hrest

theorem quotedText_of_stringBody {t : List Char} (h : StringBody t) : t ∈ quotedText.lang := by
  have hcons : ∀ {w t : List Char}, w ∈ (alt (char fun c => c ≠ '"' && c ≠ '\\') (seq (char (· = '\\')) dot)).lang →
      t ∈ quotedText.lang → w ++ t ∈ quotedText.lang := by
    intro w t hw ht
    obtain ⟨words, rfl, hwords⟩ := Language.mem_kstar.mp ht
    refine Language.mem_kstar.mpr ⟨w :: words, rfl, fun y hy => ?_⟩
    rcases List.mem_cons.mp hy with rfl | hy
    · exact hw
    · exact hwords y hy
  induction h with
  | nil => exact Language.nil_mem_kstar _
  | @plain c body hquote hslash _ _ ih =>
    refine hcons (Or.inl ⟨c, ?_, rfl⟩) ih
    exact Bool.and_eq_true_iff.mpr ⟨decide_eq_true hquote, decide_eq_true hslash⟩
  | @escape c body hcontrol _ ih =>
    have hline : c ≠ '\n' ∧ c ≠ '\r' := by
      constructor <;> (rintro rfl; exact absurd hcontrol (by decide))
    refine hcons (Or.inr (Language.mem_mul.mpr ⟨['\\'], ⟨'\\', rfl, rfl⟩, [c], ⟨c, ?_, rfl⟩, rfl⟩)) ih
    exact Bool.and_eq_true_iff.mpr ⟨decide_eq_true hline.1, decide_eq_true hline.2⟩

/-- The objects that the expression matches. -/
structure Matched (o : StringPair) : Prop where
  before : o.before = []
  behind : o.behind = []
  first : ∀ w ∈ [o.first.before, o.first.behindKey, o.first.beforeValue, o.first.behind], w ∈ spaces.lang
  second : ∀ w ∈ [o.second.before, o.second.behindKey, o.second.beforeValue, o.second.behind], w ∈ spaces.lang
  roleKey : o.first.key = "role".toList
  contentKey : o.second.key = "content".toList
  role : o.first.value ≠ [] ∧ '"' ∉ o.first.value
  content : o.second.value ∈ quotedText.lang

theorem mem_run_message {m : Match} {cs : List Char} : m ∈ messagePattern.run cs ↔
    ∃ o, Matched o ∧ cs = o.text ++ m.rest ∧ m.text = o.text ∧ m.groups = [o.first.value, o.second.value] := by
  simp only [messagePattern, Pattern.mem_run_cons, Pattern.mem_run_nil]
  constructor
  · rintro ⟨_, _, _, rfl, hopen, ⟨role, _, _, rfl, hrole, ⟨_, _, _, rfl, hmiddle, ⟨content, _, _, rfl, hcontent,
      ⟨_, _, _, rfl, hclose, rfl, rfl⟩, rfl⟩, rfl⟩, rfl⟩, rfl⟩
    simp only [lang, Language.mem_mul, mem_lit] at hopen hmiddle hclose
    obtain ⟨_, rfl, _, ⟨w₁, hw₁, _, hkey, rfl⟩, rfl⟩ := hopen
    obtain ⟨w₂, hw₂, w₃, hw₃, rfl⟩ := mem_keyAndQuote.mp hkey
    obtain ⟨_, rfl, _, ⟨w₄, hw₄, _, ⟨_, rfl, _, ⟨w₅, hw₅, _, hkey', rfl⟩, rfl⟩, rfl⟩, rfl⟩ := hmiddle
    obtain ⟨w₆, hw₆, w₇, hw₇, rfl⟩ := mem_keyAndQuote.mp hkey'
    obtain ⟨_, rfl, _, ⟨w₈, hw₈, _, rfl, rfl⟩, rfl⟩ := hclose
    obtain ⟨hne, hquotes⟩ := mem_plus_char.mp hrole
    refine ⟨⟨[], ⟨w₁, "role".toList, w₂, w₃, role, w₄⟩, ⟨w₅, "content".toList, w₆, w₇, content, w₈⟩, []⟩,
      ⟨rfl, rfl, ?_, ?_, rfl, rfl, ⟨hne, fun hmem => ?_⟩, hcontent⟩, ?_, ?_, ?_⟩
    · simp only [List.forall_mem_cons]
      exact ⟨hw₁, hw₂, hw₃, hw₄, fun w hw => absurd hw List.not_mem_nil⟩
    · simp only [List.forall_mem_cons]
      exact ⟨hw₅, hw₆, hw₇, hw₈, fun w hw => absurd hw List.not_mem_nil⟩
    · exact absurd (hquotes _ hmem) (by decide)
    · simp only [StringPair.text, StringMember.text, List.cons_append, List.append_assoc, List.nil_append]
    · simp only [StringPair.text, StringMember.text, List.cons_append, List.append_assoc, List.nil_append,
        List.append_nil]
    · rfl
  · rintro ⟨⟨before, ⟨w₁, key, w₂, w₃, role, w₄⟩, ⟨w₅, key', w₆, w₇, content, w₈⟩, behind⟩, ho, rfl, htext, hgroups⟩
    obtain ⟨rfl, rfl, hfirst, hsecond, rfl, rfl, ⟨hne, hquotes⟩, hcontent⟩ := ho
    simp only [List.forall_mem_cons] at hfirst hsecond
    obtain ⟨hw₁, hw₂, hw₃, hw₄, -⟩ := hfirst
    obtain ⟨hw₅, hw₆, hw₇, hw₈, -⟩ := hsecond
    have hrole : role ∈ (plus (char (· ≠ '"'))).lang := by
      refine mem_plus_char.mpr ⟨hne, fun c hc => decide_eq_true ?_⟩
      rintro rfl
      exact hquotes hc
    have hopen : '{' :: (w₁ ++ '"' :: ("role".toList ++ '"' :: (w₂ ++ ':' :: (w₃ ++ ['"'])))) ∈
        (seq (lit ['{']) (seq spaces (keyAndQuote "role"))).lang := by
      simp only [lang, Language.mem_mul, mem_lit]
      exact ⟨_, rfl, _, ⟨w₁, hw₁, _, mem_keyAndQuote.mpr ⟨w₂, hw₂, w₃, hw₃, rfl⟩, rfl⟩, rfl⟩
    have hmiddle : '"' :: (w₄ ++ ',' :: (w₅ ++ '"' :: ("content".toList ++ '"' :: (w₆ ++ ':' :: (w₇ ++ ['"']))))) ∈
        (seq (lit ['"']) (seq spaces (seq (lit [',']) (seq spaces (keyAndQuote "content"))))).lang := by
      simp only [lang, Language.mem_mul, mem_lit]
      exact ⟨_, rfl, _, ⟨w₄, hw₄, _, ⟨_, rfl, _, ⟨w₅, hw₅, _, mem_keyAndQuote.mpr ⟨w₆, hw₆, w₇, hw₇, rfl⟩, rfl⟩, rfl⟩,
        rfl⟩, rfl⟩
    have hclose : '"' :: (w₈ ++ ['}']) ∈ (seq (lit ['"']) (seq spaces (lit ['}']))).lang := by
      simp only [lang, Language.mem_mul, mem_lit]
      exact ⟨_, rfl, _, ⟨w₈, hw₈, _, rfl, rfl⟩, rfl⟩
    refine ⟨_, _, _, ?_, hopen, ⟨role, _, _, rfl, hrole, ⟨_, _, _, rfl, hmiddle, ⟨content, _, _, rfl, hcontent,
      ⟨_, m.rest, _, rfl, hclose, rfl, rfl⟩, rfl⟩, rfl⟩, rfl⟩, ?_⟩
    · simp only [StringPair.text, StringMember.text, List.cons_append, List.append_assoc, List.nil_append]
    · cases m
      simp only at htext hgroups
      rw [htext, hgroups]
      simp only [StringPair.text, StringMember.text, List.cons_append, List.append_assoc, List.nil_append,
        List.append_nil, if_true, Bool.false_eq_true, if_false]

/-! ## Where it matches in a JSON text -/

theorem isRegexSpace_of_isWs {c : Char} (h : isWs c = true) : isRegexSpace c = true := by
  simp only [isWs, Bool.or_eq_true, decide_eq_true_eq] at h
  rcases h with ((rfl | rfl) | rfl) | rfl
  iterate 4 decide

theorem spaces_of_blank {w : List Char} (h : Blank w) : w ∈ spaces.lang :=
  mem_spaces.mpr fun c hc => isRegexSpace_of_isWs (h c hc)

theorem spaces_unique {w w' : List Char} (hw : w ∈ spaces.lang) (hw' : w' ∈ spaces.lang) {c d : Char}
    (hc : isRegexSpace c = false) (hd : isRegexSpace d = false) {x y : List Char} (h : w ++ c :: x = w' ++ d :: y) :
    w = w' ∧ c = d ∧ x = y := by
  rw [mem_spaces] at hw hw'
  induction w generalizing w' with
  | nil =>
    cases w' with
    | nil =>
      obtain ⟨rfl, rfl⟩ := List.cons.inj h
      exact ⟨rfl, rfl, rfl⟩
    | cons e w' =>
      have he := hw' e List.mem_cons_self
      rw [← (List.cons.inj h).1, hc] at he
      cases he
  | cons e w ih =>
    cases w' with
    | nil =>
      have he := hw e List.mem_cons_self
      rw [(List.cons.inj h).1, hd] at he
      cases he
    | cons e' w' =>
      obtain ⟨rfl, htail⟩ := List.cons.inj h
      obtain ⟨rfl, rfl, rfl⟩ := ih (fun e he => hw e (List.mem_cons_of_mem _ he))
        (fun e he => hw' e (List.mem_cons_of_mem _ he)) htail
      exact ⟨rfl, rfl, rfl⟩

theorem member_key_unique {m m' : StringMember} {member : String × String} (h : m.Says member)
    (h' : ∀ w ∈ [m'.before, m'.behindKey, m'.beforeValue, m'.behind], w ∈ spaces.lang) (hkey : Enclosed m'.key)
    {x y : List Char} (hsame : m'.text ++ x = m.text ++ y) :
    m'.before = m.before ∧ m'.key = m.key ∧ m'.behindKey = m.behindKey ∧ m'.beforeValue = m.beforeValue ∧
      m'.value ++ '"' :: (m'.behind ++ x) = m.value ++ '"' :: (m.behind ++ y) := by
  simp only [List.forall_mem_cons] at h'
  simp only [StringMember.text, List.append_assoc, List.cons_append] at hsame
  obtain ⟨hbefore, -, hsame⟩ := spaces_unique h'.1 (spaces_of_blank h.before) (by decide) (by decide) hsame
  obtain ⟨hkeys, hsame⟩ := hkey.unique h.key.body.1.enclosed hsame
  obtain ⟨hbehindKey, -, hsame⟩ := spaces_unique h'.2.1 (spaces_of_blank h.behindKey) (by decide) (by decide) hsame
  obtain ⟨hbeforeValue, -, hsame⟩ :=
    spaces_unique h'.2.2.1 (spaces_of_blank h.beforeValue) (by decide) (by decide) hsame
  exact ⟨hbefore, hkeys, hbehindKey, hbeforeValue, hsame⟩

/-- The object without the white space around it. -/
def trimmed (o : StringPair) : StringPair := { o with before := [], behind := [] }

/-- What the search needs to see at an object to take it. -/
structure Taken (o : StringPair) : Prop where
  roleKey : o.first.key = "role".toList
  contentKey : o.second.key = "content".toList
  role : o.first.value ≠ [] ∧ '"' ∉ o.first.value

instance (o : StringPair) : Decidable (Taken o) :=
  decidable_of_iff (o.first.key = "role".toList ∧ o.second.key = "content".toList ∧ o.first.value ≠ [] ∧
    '"' ∉ o.first.value) ⟨fun h => ⟨h.1, h.2.1, h.2.2⟩, fun h => ⟨h.roleKey, h.contentKey, h.role⟩⟩

theorem ne_of_isRegexSpace {c : Char} (h : isRegexSpace c = true) : c ≠ '"' ∧ c ≠ '\\' := by
  constructor
  · rintro rfl
    exact absurd h (by decide)
  · rintro rfl
    exact absurd h (by decide)

theorem cons_ne_blank {w : List Char} (hw : Blank w) {c d : Char} (hc : isWs c = false) (hd : c ≠ d)
    {x y : List Char} : c :: x ≠ w ++ d :: y := by
  intro h
  cases w with
  | nil => exact hd (List.cons.inj h).1
  | cons e w =>
    have he := hw e List.mem_cons_self
    rw [← (List.cons.inj h).1, hc] at he
    cases he

theorem mem_run_object {o : StringPair} {members : (String × String) × String × String} (h : o.Says members)
    {more : List Char} {m : Match} : m ∈ messagePattern.run ((trimmed o).text ++ more) ↔
      Taken o ∧ m = ⟨(trimmed o).text, more, [o.first.value, o.second.value]⟩ := by
  rw [mem_run_message]
  constructor
  · rintro ⟨o', ho', hsame, htext, hgroups⟩
    simp only [StringPair.text, trimmed, ho'.before, ho'.behind, List.nil_append, List.cons_append,
      List.append_assoc, List.cons.injEq, true_and] at hsame
    have hroleKey : Enclosed o'.first.key := by
      rw [ho'.roleKey]
      exact .of_plain (by decide)
    have hcontentKey : Enclosed o'.second.key := by
      rw [ho'.contentKey]
      exact .of_plain (by decide)
    obtain ⟨hb₁, hk₁, hb₂, hb₃, hvalue⟩ := member_key_unique h.first ho'.first hroleKey hsame.symm
    have hfirst := ho'.first
    have hsecond := ho'.second
    simp only [List.forall_mem_cons] at hfirst hsecond
    have hrole : o'.first.value = o.first.value ∧ o'.first.behind ++ ',' :: (o'.second.text ++ '}' :: m.rest) =
        o.first.behind ++ ',' :: (o.second.text ++ '}' :: more) := by
      rcases h.first.value.body.1.enclosed.first_quote ho'.role.2 hvalue with hunique | ⟨-, body, hbody, hrest⟩
      · exact hunique
      · -- an escaped quotation mark: the key would have to begin behind the string
        have hplain : Enclosed (o'.first.behind ++ ',' :: o'.second.before) := by
          refine .of_plain fun c hc => ?_
          rcases List.mem_append.mp hc with hc | hc
          · exact ne_of_isRegexSpace (mem_spaces.mp hfirst.2.2.2.1 c hc)
          · rcases List.mem_cons.mp hc with rfl | hc
            · decide
            · exact ne_of_isRegexSpace (mem_spaces.mp hsecond.1 c hc)
        have hkey : (o'.first.behind ++ ',' :: o'.second.before) ++ '"' :: ("content".toList ++ '"' ::
            (o'.second.behindKey ++ ':' :: (o'.second.beforeValue ++ '"' :: (o'.second.value ++ '"' ::
              (o'.second.behind ++ '}' :: m.rest))))) =
            body ++ '"' :: (o.first.behind ++ ',' :: (o.second.text ++ '}' :: more)) := by
          rw [← hrest, StringMember.text, ho'.contentKey]
          simp only [List.cons_append, List.append_assoc]
        exact absurd (hplain.unique hbody hkey).2 (cons_ne_blank h.first.behind (by decide) (by decide))
    obtain ⟨hrole, hrest⟩ := hrole
    obtain ⟨hb₄, -, hrest⟩ := spaces_unique hfirst.2.2.2.1 (spaces_of_blank h.first.behind) (by decide) (by decide) hrest
    obtain ⟨hb₅, hk₂, hb₆, hb₇, hrest⟩ := member_key_unique h.second ho'.second hcontentKey hrest
    obtain ⟨hcontent, hrest⟩ := (enclosed_of_quotedText ho'.content).unique h.second.value.body.1.enclosed hrest
    obtain ⟨hb₈, -, hdone⟩ := spaces_unique hsecond.2.2.2.1 (spaces_of_blank h.second.behind) (by decide) (by decide) hrest
    have ho : o' = trimmed o := by
      obtain ⟨before, ⟨_, _, _, _, _, _⟩, ⟨_, _, _, _, _, _⟩, behind⟩ := o'
      obtain ⟨_, ⟨_, _, _, _, _, _⟩, ⟨_, _, _, _, _, _⟩, _⟩ := o
      have hbefore := ho'.before
      have hbehind := ho'.behind
      simp only at *
      subst_vars
      rfl
    subst ho
    refine ⟨⟨ho'.roleKey, ho'.contentKey, ho'.role⟩, ?_⟩
    cases m
    simp only at htext hgroups hdone
    rw [htext, hgroups, hdone]
    rfl
  · rintro ⟨ho, rfl⟩
    refine ⟨trimmed o, ⟨rfl, rfl, ?_, ?_, ho.roleKey, ho.contentKey, ho.role,
      quotedText_of_stringBody h.second.value.body.1⟩, rfl, rfl, rfl⟩
    · simp only [List.forall_mem_cons]
      exact ⟨spaces_of_blank h.first.before, spaces_of_blank h.first.behindKey, spaces_of_blank h.first.beforeValue,
        spaces_of_blank h.first.behind, fun w hw => absurd hw List.not_mem_nil⟩
    · simp only [List.forall_mem_cons]
      exact ⟨spaces_of_blank h.second.before, spaces_of_blank h.second.behindKey,
        spaces_of_blank h.second.beforeValue, spaces_of_blank h.second.behind, fun w hw => absurd hw List.not_mem_nil⟩

/-! ## What the search finds -/

theorem run_cons_of_ne {c : Char} (hc : c ≠ '{') (cs : List Char) : messagePattern.run (c :: cs) = [] := by
  rw [List.eq_nil_iff_forall_not_mem]
  intro m hm
  obtain ⟨o, ho, hsame, -⟩ := mem_run_message.mp hm
  rw [StringPair.text, ho.before, List.nil_append] at hsame
  exact hc (List.cons.inj hsame).1

theorem search_cons_of_ne {c : Char} (hc : c ≠ '{') (cs : List Char) :
    messagePattern.search (c :: cs) = messagePattern.search cs :=
  Pattern.search_cons_of_run_eq_nil (run_cons_of_ne hc cs)

theorem search_blank {w : List Char} (hw : Blank w) (cs : List Char) :
    messagePattern.search (w ++ cs) = messagePattern.search cs := by
  induction w with
  | nil => rfl
  | cons c w ih =>
    have hc : c ≠ '{' := by
      rintro rfl
      exact absurd (hw '{' List.mem_cons_self) (by decide)
    rw [List.cons_append, search_cons_of_ne hc, ih fun d hd => hw d (List.mem_cons_of_mem _ hd)]

theorem run_inside {body rest : List Char} (h : Enclosed body) (hrest : rest.head? ≠ some 'r') :
    messagePattern.run ('{' :: (body ++ '"' :: rest)) = [] := by
  rw [List.eq_nil_iff_forall_not_mem]
  intro m hm
  obtain ⟨o, ho, hsame, -⟩ := mem_run_message.mp hm
  have hfirst := ho.first
  simp only [List.forall_mem_cons] at hfirst
  have hplain : Enclosed o.first.before :=
    .of_plain fun c hc => ne_of_isRegexSpace (mem_spaces.mp hfirst.1 c hc)
  rw [StringPair.text, ho.before, List.nil_append, StringMember.text, ho.roleKey] at hsame
  simp only [List.cons_append, List.append_assoc, List.cons.injEq, true_and] at hsame
  obtain ⟨-, rfl⟩ := h.unique hplain hsame
  exact hrest rfl

theorem search_string {body rest : List Char} (h : Enclosed body) (hrest : rest.head? ≠ some 'r') :
    messagePattern.search (body ++ '"' :: rest) = messagePattern.search rest := by
  have hstep : ∀ {c : Char} {body : List Char}, Enclosed body →
      messagePattern.search (c :: (body ++ '"' :: rest)) = messagePattern.search (body ++ '"' :: rest) := by
    intro c body hbody
    by_cases hc : c = '{'
    · rw [hc]
      exact Pattern.search_cons_of_run_eq_nil (run_inside hbody hrest)
    · exact search_cons_of_ne hc _
  induction h with
  | nil => exact search_cons_of_ne (by decide) rest
  | plain _ _ hbody ih => exact (hstep hbody).trans ih
  | @escape c body hbody ih =>
    exact (search_cons_of_ne (by decide) (c :: (body ++ '"' :: rest))).trans ((hstep hbody).trans ih)

theorem search_member {m : StringMember} {member : String × String} (h : m.Says member) {c : Char}
    (hc : c ≠ 'r') (rest : List Char) : messagePattern.search (m.text ++ c :: rest) =
    messagePattern.search (c :: rest) := by
  have hhead : ∀ {w : List Char}, Blank w → ∀ {d : Char}, d ≠ 'r' → ∀ x, (w ++ d :: x).head? ≠ some 'r' := by
    intro w hw d hd x
    cases w with
    | nil => exact fun heq => hd (Option.some.inj heq)
    | cons e w =>
      intro heq
      obtain rfl : e = 'r' := Option.some.inj heq
      exact absurd (hw 'r' List.mem_cons_self) (by decide)
  simp only [StringMember.text, List.append_assoc, List.cons_append]
  rw [search_blank h.before, search_cons_of_ne (by decide),
    search_string h.key.body.1.enclosed (hhead h.behindKey (by decide) _), search_blank h.behindKey,
    search_cons_of_ne (by decide), search_blank h.beforeValue, search_cons_of_ne (by decide),
    search_string h.value.body.1.enclosed (hhead h.behind hc _), search_blank h.behind]

theorem search_object {o : StringPair} {members : (String × String) × String × String} (h : o.Says members)
    (more : List Char) : messagePattern.search (o.text ++ more) =
      (if Taken o then [⟨(trimmed o).text, o.behind ++ more, [o.first.value, o.second.value]⟩] else []) ++
        messagePattern.search more := by
  have htext : o.text ++ more = o.before ++ ((trimmed o).text ++ (o.behind ++ more)) := by
    simp only [StringPair.text, trimmed, List.append_assoc, List.cons_append, List.nil_append]
  rw [htext, search_blank h.before]
  by_cases ho : Taken o
  · have hne : (trimmed o).text ≠ [] := List.cons_ne_nil _ _
    rw [if_pos ho, Pattern.search_of_unique hne ((mem_run_object h).mpr ⟨ho, rfl⟩)
      fun m hm => ((mem_run_object h).mp hm).2, search_blank h.behind]
    rfl
  · rw [if_neg ho]
    have hnone : messagePattern.run ((trimmed o).text ++ (o.behind ++ more)) = [] := by
      rw [List.eq_nil_iff_forall_not_mem]
      exact fun m hm => ho ((mem_run_object h).mp hm).1
    have hopen : (trimmed o).text ++ (o.behind ++ more) =
        '{' :: (o.first.text ++ ',' :: (o.second.text ++ '}' :: (o.behind ++ more))) := by
      simp only [StringPair.text, trimmed, List.append_assoc, List.cons_append, List.nil_append]
    rw [hopen] at hnone ⊢
    rw [Pattern.search_cons_of_run_eq_nil hnone, search_member h.first (by decide),
      search_cons_of_ne (by decide), search_member h.second (by decide),
      search_cons_of_ne (by decide), search_blank h.behind]
    rfl

/-! ## The messages of an array -/

/-- What the search makes of an object: a role as the message has it, and a content. -/
def recovered (o : StringPair) : Option (String × String) :=
  if Taken o then
    let m := messageOf ⟨[], [], [o.first.value, o.second.value]⟩
    some (m.role.toString, m.content)
  else none

/-- A message as it is sent. -/
def sent (m : ChatMessage) : String × String := (m.role.toString, m.content)

theorem search_objects {objects : List StringPair} {members : List ((String × String) × String × String)}
    (h : List.Forall₂ StringPair.Says objects members) (rest : List Char) :
    (messagePattern.search (commaSeparated (objects.map StringPair.text) ++ rest)).map (sent ∘ messageOf) =
      objects.filterMap recovered ++ (messagePattern.search rest).map (sent ∘ messageOf) := by
  have hone : ∀ {o : StringPair} {member : (String × String) × String × String}, o.Says member → ∀ more,
      (messagePattern.search (o.text ++ more)).map (sent ∘ messageOf) =
        (recovered o).toList ++ (messagePattern.search more).map (sent ∘ messageOf) := by
    intro o member ho more
    rw [search_object ho, List.map_append, recovered]
    split_ifs with htaken
    · rfl
    · rfl
  induction h with
  | nil => rfl
  | @cons o member objects members ho hobjects ih =>
    have hcons : (o :: objects).filterMap recovered = (recovered o).toList ++ objects.filterMap recovered := by
      rw [List.filterMap_cons]
      cases recovered o <;> rfl
    rw [List.map_cons, commaSeparated_cons, hcons]
    cases hobjects with
    | nil =>
      rw [List.map_nil, List.flatMap_nil, List.append_nil, hone ho, List.filterMap_nil, List.append_nil]
    | @cons o' member' objects members ho' hobjects =>
      rw [List.map_cons, List.flatMap_cons, List.append_assoc, List.append_assoc, hone ho, List.cons_append,
        search_cons_of_ne (by decide), ← List.append_assoc, ← commaSeparated_cons, ← List.map_cons, ih,
        ← List.append_assoc]

theorem extractMessages_text {objects : List StringPair} {members : List ((String × String) × String × String)}
    (h : List.Forall₂ StringPair.Says objects members) {before opened behind : List Char} (hbefore : Blank before)
    (hopened : Blank opened) (hbehind : Blank behind) {json : String}
    (hjson : json.toList = before ++ '[' :: (opened ++ (commaSeparated (objects.map StringPair.text) ++ ']' :: behind))) :
    (extractMessages json).map sent = objects.filterMap recovered := by
  have hend : messagePattern.search (']' :: behind) = [] := by
    rw [search_cons_of_ne (by decide), ← List.append_nil behind, search_blank hbehind]
    rfl
  rw [extractMessages, List.map_map, hjson, search_blank hbefore, search_cons_of_ne (by decide),
    search_blank hopened, search_objects h, hend, List.map_nil, List.append_nil]

/-- The JSON text is the array of the objects with these roles and contents, the two keys in either order. -/
def Encodes (json : String) (messages : List (String × String)) : Prop :=
  ∃ members : List ((String × String) × String × String),
    List.Forall₂ (fun member m => member = (("role", m.1), ("content", m.2)) ∨
      member = (("content", m.2), ("role", m.1))) members messages ∧
    parse json.toList = some (.arr (members.map pairObject))

/-- The roles that the search tells from the default. -/
def namedRoles : List String := ["system", "assistant", "tool"]

/-- An object with its role in front, in which nothing is escaped that the search looks at or takes over. The
role `user` may be, since any text is taken for it that is none of the other roles. -/
structure WrittenPlainly (o : StringPair) (m : String × String) : Prop where
  members : o.Says (("role", m.1), ("content", m.2))
  keys : '\\' ∉ o.first.key ∧ '\\' ∉ o.second.key
  content : '\\' ∉ o.second.value
  role : m.1 = "user" ∨ m.1 ∈ namedRoles ∧ '\\' ∉ o.first.value

/-- The array consists of such objects. -/
def PlainlyWritten (json : String) (messages : List (String × String)) : Prop :=
  ∃ (objects : List StringPair) (before opened behind : List Char), Blank before ∧ Blank opened ∧ Blank behind ∧
    json.toList = before ++ '[' :: (opened ++ (commaSeparated (objects.map StringPair.text) ++ ']' :: behind)) ∧
    List.Forall₂ WrittenPlainly objects messages

theorem messageOf_role (role content : List Char) :
    (messageOf ⟨[], [], [role, content]⟩).role.toString =
      if String.ofList role ∈ namedRoles then String.ofList role else "user" := by
  have hgroup : Match.group ⟨[], [], [role, content]⟩ 0 = String.ofList role := rfl
  rw [messageOf, hgroup]
  generalize String.ofList role = r
  dsimp only
  by_cases hsystem : r = "system"
  · subst hsystem
    decide
  by_cases huser : r = "user"
  · subst huser
    decide
  by_cases hassistant : r = "assistant"
  · subst hassistant
    decide
  by_cases htool : r = "tool"
  · subst htool
    decide
  have hnamed : r ∉ namedRoles := by
    simp only [namedRoles, List.mem_cons, hsystem, hassistant, htool, List.not_mem_nil, or_self, not_false_eq_true]
  rw [if_neg hsystem, if_neg huser, if_neg hassistant, if_neg htool, if_neg hnamed]
  rfl

theorem recovered_eq_some_iff {o : StringPair} {m : String × String}
    {member : (String × String) × String × String} (h : o.Says member)
    (hmember : member = (("role", m.1), ("content", m.2)) ∨ member = (("content", m.2), ("role", m.1))) :
    recovered o = some m ↔ WrittenPlainly o m := by
  constructor
  · intro hrecovered
    rw [recovered] at hrecovered
    split_ifs at hrecovered with ho
    obtain ⟨hrole, hcontent⟩ := Prod.mk.inj (Option.some.inj hrecovered)
    rw [messageOf_role] at hrole
    rcases hmember with rfl | rfl
    · refine ⟨h, ⟨?_, ?_⟩, ?_, ?_⟩
      · rw [ho.roleKey]
        decide
      · rw [ho.contentKey]
        decide
      · refine h.second.value.toList_eq_iff.mp ?_
        rw [← hcontent]
        exact String.toList_ofList
      · split_ifs at hrole with hnamed
        · refine Or.inr ⟨hrole ▸ hnamed, h.first.value.toList_eq_iff.mp ?_⟩
          rw [← hrole, String.toList_ofList]
        · exact Or.inl hrole.symm
    · have hkey := h.first.key
      rw [ho.roleKey] at hkey
      have hne : ("content" : String) ≠ "role" := by decide
      exact absurd (hkey.unique (spelledBy_plain (by decide))) hne
  · intro hplain
    have hvalue := hplain.members.first.value
    have hnames : m.1 ∈ "user" :: namedRoles := by
      rcases hplain.role with huser | ⟨hnamed, -⟩
      · rw [huser]
        exact List.mem_cons_self
      · exact List.mem_cons_of_mem _ hnamed
    have hnames' : m.1.toList ≠ [] ∧ '"' ∉ m.1.toList := by
      have hall : ∀ name ∈ "user" :: namedRoles, name.toList ≠ [] ∧ '"' ∉ name.toList := by decide
      exact hall _ hnames
    have htaken : Taken o := by
      refine ⟨(hplain.members.first.key.toList_eq_iff.mpr hplain.keys.1).symm,
        (hplain.members.second.key.toList_eq_iff.mpr hplain.keys.2).symm, fun hempty => ?_,
        fun hquote => hnames'.2 (hvalue.body.2.1 hquote)⟩
      rw [hempty] at hvalue
      exact hnames'.1 (hvalue.toList_eq_iff.mpr List.not_mem_nil)
    have hcontent : String.ofList o.second.value = m.2 := by
      rw [← hplain.members.second.value.toList_eq_iff.mpr hplain.content]
      exact String.ofList_toList
    have hrole : (if String.ofList o.first.value ∈ namedRoles then String.ofList o.first.value else "user") = m.1 := by
      by_cases hslash : '\\' ∈ o.first.value
      · have huser : m.1 = "user" := hplain.role.resolve_right fun hnamed => hnamed.2 hslash
        have hnot : String.ofList o.first.value ∉ namedRoles := by
          intro hmem
          have hall : ∀ name ∈ namedRoles, '\\' ∉ name.toList := by decide
          refine hall _ hmem ?_
          rw [String.toList_ofList]
          exact hslash
        rw [if_neg hnot, huser]
      · have hsame : String.ofList o.first.value = m.1 := by
          rw [← hvalue.toList_eq_iff.mpr hslash]
          exact String.ofList_toList
        rw [hsame]
        split_ifs with hnamed
        · rfl
        · exact ((List.mem_cons.mp hnames).resolve_right hnamed).symm
    rw [recovered, if_pos htaken]
    simp only [messageOf_role, hrole]
    exact congrArg some (Prod.ext rfl hcontent)

theorem filterMap_eq_iff {α β : Type} {f : α → Option β} {l : List α} {l' : List β} (hlength : l.length = l'.length) :
    l.filterMap f = l' ↔ List.Forall₂ (fun a b => f a = some b) l l' := by
  induction l generalizing l' with
  | nil =>
    obtain rfl := List.eq_nil_of_length_eq_zero hlength.symm
    exact iff_of_true rfl .nil
  | cons a l ih =>
    cases l' with
    | nil => cases hlength
    | cons b l' =>
      rw [List.forall₂_cons, List.filterMap_cons, ← ih (Nat.succ.inj hlength)]
      cases hf : f a with
      | none =>
        refine iff_of_false (fun h => ?_) (fun h => ?_)
        · have hle := List.length_filterMap_le f l
          dsimp only at h
          rw [h, List.length_cons] at hle
          rw [List.length_cons, List.length_cons] at hlength
          omega
        · cases h.1
      | some c => rw [List.cons.injEq, Option.some.injEq]

/-- The messages of an array come back as they were sent exactly when the array is written plainly: the roles
first, and nothing escaped that the search compares or takes over. How deep the matcher of a library recurses on a long
content is left out. -/
theorem extract_messages_iff {json : String} {messages : List (String × String)} (h : Encodes json messages) :
    (extractMessages json).map sent = messages ↔ PlainlyWritten json messages := by
  constructor
  · intro hsent
    obtain ⟨members, hmembers, hparse⟩ := h
    obtain ⟨objects, before, opened, behind, hbefore, hopened, hbehind, hjson, hobjects⟩ := text_of_parse hparse
    rw [extractMessages_text hobjects hbefore hopened hbehind hjson,
      filterMap_eq_iff (hobjects.length_eq.trans hmembers.length_eq)] at hsent
    refine ⟨objects, before, opened, behind, hbefore, hopened, hbehind, hjson, ?_⟩
    clear hparse hjson
    induction hsent generalizing members with
    | nil => exact .nil
    | cons hone _ ih =>
      cases hobjects with
      | cons ho hobjects =>
        cases hmembers with
        | cons hmember hmembers => exact .cons ((recovered_eq_some_iff ho hmember).mp hone) (ih _ hmembers hobjects)
  · rintro ⟨objects, before, opened, behind, hbefore, hopened, hbehind, hjson, hplain⟩
    have hobjects : List.Forall₂ StringPair.Says objects
        (messages.map fun m => (("role", m.1), ("content", m.2))) := by
      rw [List.forall₂_map_right_iff]
      exact hplain.imp fun _ _ ho => ho.members
    rw [extractMessages_text hobjects hbefore hopened hbehind hjson, filterMap_eq_iff hplain.length_eq]
    exact hplain.imp fun _ _ ho => (recovered_eq_some_iff ho.members (Or.inl rfl)).mpr ho

/-- The text of an array with one message, without white space. -/
def oneMessage (role content : List Char) : List Char :=
  '[' :: ('{' :: '"' :: ("role".toList ++ '"' :: ':' :: ('"' :: (role ++ ['"']) ++
    ',' :: '"' :: ("content".toList ++ '"' :: ':' :: ('"' :: (content ++ ['"']) ++ ['}'])))) ++ [']'])

theorem encodes_oneMessage {role content : List Char} {m : String × String} (hrole : SpelledBy role m.1)
    (hcontent : SpelledBy content m.2) {json : String} (hjson : json.toList = oneMessage role content) :
    Encodes json [m] := by
  have hroleKey : PlainKey "role" := by decide
  have hcontentKey : PlainKey "content" := by decide
  have hobject := Writes.object hroleKey (Writes.str hrole) (.cons hcontentKey (Writes.str hcontent) .close)
  refine ⟨[(("role", m.1), ("content", m.2))], .cons (Or.inl rfl) .nil, ?_⟩
  rw [hjson]
  exact (Writes.array hobject .close).parse

/-- A greeting is written plainly and comes back. -/
theorem extract_messages_iff_greeting :
    (extractMessages "[\x7b\"role\":\"user\",\"content\":\"hi\"\x7d]").map sent = [("user", "hi")] ↔
      PlainlyWritten "[\x7b\"role\":\"user\",\"content\":\"hi\"\x7d]" [("user", "hi")] := by
  have huser : PlainKey "user" := by decide
  have hhi : PlainKey "hi" := by decide
  exact extract_messages_iff (encodes_oneMessage (spelledBy_plain huser) (spelledBy_plain hhi) (by decide))

/-- A line break in a message comes back as a backslash and an n. -/
theorem escaped_line_break_kept :
    ¬∀ (json : String) (messages : List (String × String)), Encodes json messages →
      (extractMessages json).map sent = messages := by
  intro h
  have huser : PlainKey "user" := by decide
  have hcontent : SpelledBy ['a', '\\', 'n', 'b'] "a\nb" := by
    intro more
    have hend : readUnits ('"' :: more) = some ([], more) := by
      rw [readUnits.eq_def]
      exact if_pos rfl
    have hunits : readUnits (['a', '\\', 'n', 'b'] ++ ['"'] ++ more) = some ([97, 10, 98], more) :=
      readUnits_plain (by decide) (by decide) (by decide) (readUnits_escape (by decide) rfl
        (readUnits_plain (by decide) (by decide) (by decide) hend))
    rw [readString, hunits]
    exact congrArg (fun s => some (s, more)) (by decide : String.ofList (joinUnits [97, 10, 98]) = "a\nb")
  have hencodes : Encodes "[\x7b\"role\":\"user\",\"content\":\"a\\nb\"\x7d]" [("user", "a\nb")] :=
    encodes_oneMessage (spelledBy_plain huser) hcontent (by decide)
  exact absurd (h _ _ hencodes) (by decide)

end Souxmar.Ai
