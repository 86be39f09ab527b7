import Mathlib.Data.List.TakeWhile
import Souxmar.Lib.Json

/-!
# How a JSON text writes its strings, members and elements

The converse of the lemmas that put texts together: what a text looks like of which the reader makes a string, an
array or an object. The body of a string is the text between its quotation marks.
-/

namespace Souxmar.Lib.Json

/-! ## White space -/

def Blank (text : List Char) : Prop := ∀ c ∈ text, isWs c = true

theorem blank_of_skipWs {cs : List Char} {c : Char} {rest : List Char} (h : skipWs cs = c :: rest) :
    ∃ blanks, Blank blanks ∧ cs = blanks ++ c :: rest := by
  refine ⟨cs.takeWhile isWs, fun d hd => List.mem_takeWhile_imp hd, ?_⟩
  rw [← h, skipWs, List.takeWhile_append_dropWhile]

theorem blank_of_expect {c : Char} {cs rest : List Char} (h : expect c cs = some rest) :
    ∃ blanks, Blank blanks ∧ cs = blanks ++ c :: rest := blank_of_skipWs (expect_eq_some.mp h)

theorem blank_of_skipWs_nil {cs : List Char} (h : skipWs cs = []) : Blank cs := by
  intro c hc
  rw [skipWs, List.dropWhile_eq_nil_iff] at h
  exact h c hc

/-! ## Strings -/

/-- The text between quotation marks: no quotation mark in it, unless a backslash escapes it. -/
inductive StringBody : List Char → Prop
  | nil : StringBody []
  | plain {c : Char} {body : List Char} (hquote : c ≠ '"') (hslash : c ≠ '\\') (hcontrol : 0x20 ≤ c.toNat)
      (h : StringBody body) : StringBody (c :: body)
  | escape {c : Char} {body : List Char} (hcontrol : 0x20 ≤ c.toNat) (h : StringBody body) :
      StringBody ('\\' :: c :: body)

/-- The text between quotation marks is the string. -/
def SpelledBy (body : List Char) (s : String) : Prop := Spells (body ++ ['"']) s

theorem hexVal_plain {c : Char} {d : ℕ} (h : hexVal c = some d) : c ≠ '"' ∧ c ≠ '\\' ∧ 0x20 ≤ c.toNat := by
  have hrange : 48 ≤ c.toNat ∧ c.toNat ≤ 57 ∨ 97 ≤ c.toNat ∧ c.toNat ≤ 102 ∨ 65 ≤ c.toNat ∧ c.toNat ≤ 70 := by
    rw [hexVal] at h
    split_ifs at h with hdigit hlower hupper
    · exact Or.inl hdigit
    · exact Or.inr (Or.inl hlower)
    · exact Or.inr (Or.inr hupper)
  refine ⟨?_, ?_, by omega⟩
  · rintro rfl
    have : '"'.toNat = 34 := rfl
    omega
  · rintro rfl
    have : '\\'.toNat = 92 := rfl
    omega

theorem hex4_digits {a b c d : Char} {unit : ℕ} (h : hex4 a b c d = some unit) :
    ∀ e ∈ [a, b, c, d], e ≠ '"' ∧ e ≠ '\\' ∧ 0x20 ≤ e.toNat := by
  obtain ⟨_, ha, h⟩ := Option.bind_eq_some_iff.mp h
  obtain ⟨_, hb, h⟩ := Option.bind_eq_some_iff.mp h
  obtain ⟨_, hc, h⟩ := Option.bind_eq_some_iff.mp h
  obtain ⟨_, hd, -⟩ := Option.map_eq_some_iff.mp h
  simp only [List.forall_mem_cons]
  exact ⟨hexVal_plain ha, hexVal_plain hb, hexVal_plain hc, hexVal_plain hd, fun e he => absurd he List.not_mem_nil⟩

theorem StringBody.append {plain : List Char} (h : ∀ c ∈ plain, c ≠ '"' ∧ c ≠ '\\' ∧ 0x20 ≤ c.toNat)
    {body : List Char} (hbody : StringBody body) : StringBody (plain ++ body) := by
  induction plain with
  | nil => exact hbody
  | cons c cs ih =>
    obtain ⟨hquote, hslash, hcontrol⟩ := h c List.mem_cons_self
    exact .plain hquote hslash hcontrol (ih fun d hd => h d (List.mem_cons_of_mem _ hd))

theorem unescape_control {c : Char} {unit : ℕ} (h : unescape c = some unit) : 0x20 ≤ c.toNat := by
  by_contra hcontrol
  have hne : ∀ d : Char, 0x20 ≤ d.toNat → c ≠ d := by
    rintro d hd rfl
    exact hcontrol hd
  rw [unescape, if_neg, if_neg (hne _ (by decide)), if_neg (hne _ (by decide)), if_neg (hne _ (by decide)),
    if_neg (hne _ (by decide)), if_neg (hne _ (by decide))] at h
  · cases h
  · rintro (h | h | h)
    · exact hne _ (by decide) h
    · exact hne _ (by decide) h
    · exact hne _ (by decide) h

/-- The characters of a string, with the units they are read as. -/
structure SpellsUnits (body : List Char) (units : List ℕ) : Prop where
  wellFormed : StringBody body
  read : ∀ more, readUnits (body ++ '"' :: more) = some (units, more)
  quotes : '"' ∈ body → '"'.toNat ∈ units
  length : units = body.map Char.toNat ∧ '\\' ∉ body ∨ units.length < body.length ∧ '\\' ∈ body

namespace SpellsUnits

variable {body : List Char} {units : List ℕ}

theorem length_le (h : SpellsUnits body units) : units.length ≤ body.length := by
  rcases h.length with ⟨hsame, -⟩ | ⟨hless, -⟩
  · rw [hsame, List.length_map]
  · exact hless.le

theorem nil : SpellsUnits [] [] := by
  refine ⟨.nil, fun more => ?_, fun h => absurd h List.not_mem_nil, Or.inl ⟨rfl, List.not_mem_nil⟩⟩
  rw [List.nil_append, readUnits.eq_def]
  exact if_pos rfl

theorem hex {a b c d : Char} {unit : ℕ} (hunit : hex4 a b c d = some unit) (h : SpellsUnits body units) :
    SpellsUnits ('\\' :: 'u' :: a :: b :: c :: d :: body) (unit :: units) := by
  refine ⟨.escape (by decide) (h.wellFormed.append (hex4_digits hunit)), fun more => readUnits_hex hunit (h.read more),
    fun hmem => ?_, Or.inr ⟨?_, List.mem_cons_self⟩⟩
  · have hmem : '"' ∈ '\\' :: 'u' :: ([a, b, c, d] ++ body) := hmem
    rcases List.mem_cons.mp hmem with heq | hmem
    · exact absurd heq (by decide)
    rcases List.mem_cons.mp hmem with heq | hmem
    · exact absurd heq (by decide)
    rcases List.mem_append.mp hmem with hmem | hmem
    · exact absurd rfl (hex4_digits hunit _ hmem).1
    · exact List.mem_cons_of_mem _ (h.quotes hmem)
  · have hlength := h.length_le
    simp only [List.length_cons]
    omega

theorem escape {e : Char} {unit : ℕ} (hu : e ≠ 'u') (hunit : unescape e = some unit) (h : SpellsUnits body units) :
    SpellsUnits ('\\' :: e :: body) (unit :: units) := by
  refine ⟨.escape (unescape_control hunit) h.wellFormed, fun more => readUnits_escape hu hunit (h.read more),
    fun hmem => ?_, Or.inr ⟨?_, List.mem_cons_self⟩⟩
  · rcases List.mem_cons.mp hmem with heq | hmem
    · exact absurd heq (by decide)
    · rcases List.mem_cons.mp hmem with rfl | hmem
      · obtain rfl : '"'.toNat = unit := Option.some.inj hunit
        exact List.mem_cons_self
      · exact List.mem_cons_of_mem _ (h.quotes hmem)
  · have hlength := h.length_le
    simp only [List.length_cons]
    omega

theorem plain {c : Char} (hquote : c ≠ '"') (hslash : c ≠ '\\') (hcontrol : 0x20 ≤ c.toNat)
    (h : SpellsUnits body units) : SpellsUnits (c :: body) (c.toNat :: units) := by
  refine ⟨.plain hquote hslash hcontrol h.wellFormed, fun more => readUnits_plain hquote hslash hcontrol (h.read more),
    fun hmem => ?_, ?_⟩
  · rcases List.mem_cons.mp hmem with heq | hmem
    · exact absurd heq.symm hquote
    · exact List.mem_cons_of_mem _ (h.quotes hmem)
  · rcases h.length with ⟨hsame, hnone⟩ | ⟨hless, hsome⟩
    · refine Or.inl ⟨by rw [hsame, List.map_cons], ?_⟩
      rw [List.mem_cons]
      rintro (heq | hmem)
      · exact hslash heq.symm
      · exact hnone hmem
    · refine Or.inr ⟨?_, List.mem_cons_of_mem _ hsome⟩
      simp only [List.length_cons]
      omega

end SpellsUnits

theorem readUnits_eq_some {cs : List Char} {units : List ℕ} {rest : List Char} (h : readUnits cs = some (units, rest)) :
    ∃ body, cs = body ++ '"' :: rest ∧ SpellsUnits body units := by
  induction hn : cs.length using Nat.strongRecOn generalizing cs units with
  | _ n ih =>
    cases cs with
    | nil => rw [readUnits.eq_def] at h; cases h
    | cons c cs =>
      rw [readUnits.eq_def] at h
      dsimp only at h
      split_ifs at h with hquote hslash hcontrol
      · obtain ⟨rfl, rfl⟩ := Prod.mk.inj (Option.some.inj h)
        exact ⟨[], by rw [hquote]; rfl, .nil⟩
      · subst hslash
        cases cs with
        | nil => cases h
        | cons e cs =>
          dsimp only at h
          split_ifs at h with hu
          · subst hu
            -- four hexadecimal digits follow
            rcases cs with - | ⟨a, - | ⟨b, - | ⟨c, - | ⟨d, cs⟩⟩⟩⟩
            iterate 4 cases h
            obtain ⟨unit, hunit, hmap⟩ := Option.bind_eq_some_iff.mp h
            obtain ⟨r, hr, heq⟩ := Option.map_eq_some_iff.mp hmap
            obtain ⟨rfl, rfl⟩ := Prod.mk.inj heq
            have hlt : cs.length < n := by
              simp only [List.length_cons] at hn
              omega
            obtain ⟨body, rfl, hbody⟩ := ih cs.length hlt hr rfl
            exact ⟨'\\' :: 'u' :: a :: b :: c :: d :: body, rfl, hbody.hex hunit⟩
          · obtain ⟨unit, hunit, hmap⟩ := Option.bind_eq_some_iff.mp h
            obtain ⟨r, hr, heq⟩ := Option.map_eq_some_iff.mp hmap
            obtain ⟨rfl, rfl⟩ := Prod.mk.inj heq
            have hlt : cs.length < n := by
              simp only [List.length_cons] at hn
              omega
            obtain ⟨body, rfl, hbody⟩ := ih cs.length hlt hr rfl
            exact ⟨'\\' :: e :: body, rfl, hbody.escape hu hunit⟩
      · obtain ⟨r, hr, heq⟩ := Option.map_eq_some_iff.mp h
        obtain ⟨rfl, rfl⟩ := Prod.mk.inj heq
        have hlt : cs.length < n := by
          simp only [List.length_cons] at hn
          omega
        obtain ⟨body, rfl, hbody⟩ := ih cs.length hlt hr rfl
        exact ⟨c :: body, rfl, hbody.plain hquote hslash (by omega)⟩

theorem length_joinUnits_le (units : List ℕ) : (joinUnits units).length ≤ units.length := by
  fun_induction joinUnits units with
  | case1 => exact Nat.le_refl _
  | case2 => exact Nat.le_refl _
  | case3 hi lo units hpair ih =>
    simp only [List.length_cons]
    omega
  | case4 hi lo units hpair ih =>
    simp only [List.length_cons] at ih ⊢
    omega

theorem mem_joinUnits {c : Char} (hc : c.toNat < 0xD800) {units : List ℕ} (h : c.toNat ∈ units) :
    c ∈ joinUnits units := by
  have hunit : unitChar c.toNat = c := unitChar_toNat c
  fun_induction joinUnits units with
  | case1 => cases h
  | case2 unit =>
    rw [← List.mem_singleton.mp h, hunit]
    exact List.mem_singleton_self c
  | case3 hi lo units hpair ih =>
    rcases List.mem_cons.mp h with rfl | h
    · omega
    · rcases List.mem_cons.mp h with rfl | h
      · omega
      · exact List.mem_cons_of_mem _ (ih h)
  | case4 hi lo units hpair ih =>
    rcases List.mem_cons.mp h with rfl | h
    · rw [hunit]
      exact List.mem_cons_self
    · exact List.mem_cons_of_mem _ (ih h)

theorem readString_eq_some {cs : List Char} {s : String} {rest : List Char} (h : readString cs = some (s, rest)) :
    ∃ body, cs = body ++ '"' :: rest ∧ SpelledBy body s := by
  obtain ⟨⟨units, rest⟩, hr, heq⟩ := Option.map_eq_some_iff.mp h
  obtain ⟨rfl, rfl⟩ := Prod.mk.inj heq
  obtain ⟨body, rfl, hbody⟩ := readUnits_eq_some hr
  refine ⟨body, rfl, fun more => ?_⟩
  rw [List.append_assoc, List.singleton_append, readString, hbody.read]
  rfl

theorem SpelledBy.body {body : List Char} {s : String} (h : SpelledBy body s) :
    StringBody body ∧ ('"' ∈ body → '"' ∈ s.toList) ∧
      (s.toList = body ∧ '\\' ∉ body ∨ s.toList.length < body.length ∧ '\\' ∈ body) := by
  obtain ⟨⟨units, rest⟩, hr, heq⟩ := Option.map_eq_some_iff.mp (h [])
  obtain ⟨rfl, rfl⟩ := Prod.mk.inj heq
  obtain ⟨body', hsame, hbody⟩ := readUnits_eq_some hr
  rw [List.append_nil] at hsame
  obtain rfl := List.append_cancel_right hsame
  rw [String.toList_ofList]
  refine ⟨hbody.wellFormed, fun hmem => mem_joinUnits (by decide) (hbody.quotes hmem), ?_⟩
  rcases hbody.length with ⟨rfl, hnone⟩ | ⟨hless, hsome⟩
  · exact Or.inl ⟨joinUnits_map_toNat body, hnone⟩
  · exact Or.inr ⟨(length_joinUnits_le units).trans_lt hless, hsome⟩

theorem SpelledBy.toList_eq_iff {body : List Char} {s : String} (h : SpelledBy body s) :
    s.toList = body ↔ '\\' ∉ body := by
  rcases h.body.2.2 with ⟨hsame, hnone⟩ | ⟨hless, hsome⟩
  · exact iff_of_true hsame hnone
  · refine iff_of_false (fun hsame => ?_) (fun hnone => hnone hsome)
    rw [hsame] at hless
    exact Nat.lt_irrefl _ hless

theorem SpelledBy.unique {body : List Char} {s s' : String} (h : SpelledBy body s) (h' : SpelledBy body s') : s = s' :=
  (Prod.mk.inj (Option.some.inj ((h []).symm.trans (h' [])))).1

theorem spelledBy_plain {key : String} (h : PlainKey key) : SpelledBy key.toList key := spells_plain h

/-! ### Where a quoted text ends -/

/-- A text that may stand between quotation marks, control characters included. -/
inductive Enclosed : List Char → Prop
  | nil : Enclosed []
  | plain {c : Char} {body : List Char} (hquote : c ≠ '"') (hslash : c ≠ '\\') (h : Enclosed body) :
      Enclosed (c :: body)
  | escape {c : Char} {body : List Char} (h : Enclosed body) : Enclosed ('\\' :: c :: body)

theorem StringBody.enclosed {body : List Char} (h : StringBody body) : Enclosed body := by
  induction h with
  | nil => exact .nil
  | plain hquote hslash _ _ ih => exact .plain hquote hslash ih
  | escape _ _ ih => exact .escape ih

theorem Enclosed.of_plain {body : List Char} (h : ∀ c ∈ body, c ≠ '"' ∧ c ≠ '\\') : Enclosed body := by
  induction body with
  | nil => exact .nil
  | cons c cs ih =>
    exact .plain (h c List.mem_cons_self).1 (h c List.mem_cons_self).2 (ih fun d hd => h d (List.mem_cons_of_mem _ hd))

theorem Enclosed.unique {body body' rest rest' : List Char} (h : Enclosed body) (h' : Enclosed body')
    (hsame : body ++ '"' :: rest = body' ++ '"' :: rest') : body = body' ∧ rest = rest' := by
  induction h generalizing body' with
  | nil =>
    cases h' with
    | nil => exact ⟨rfl, (List.cons.inj hsame).2⟩
    | plain hquote => exact absurd (List.cons.inj hsame).1.symm hquote
    | escape => exact absurd (List.cons.inj hsame).1 (by decide)
  | plain hquote hslash _ ih =>
    cases h' with
    | nil => exact absurd (List.cons.inj hsame).1 hquote
    | plain _ _ h' =>
      obtain ⟨rfl, htail⟩ := List.cons.inj hsame
      obtain ⟨rfl, rfl⟩ := ih h' htail
      exact ⟨rfl, rfl⟩
    | escape => exact absurd (List.cons.inj hsame).1 hslash
  | escape _ ih =>
    cases h' with
    | nil => exact absurd (List.cons.inj hsame).1 (by decide)
    | plain _ hslash => exact absurd (List.cons.inj hsame).1.symm hslash
    | escape h' =>
      obtain ⟨rfl, htail⟩ := List.cons.inj (List.cons.inj hsame).2
      obtain ⟨rfl, rfl⟩ := ih h' htail
      exact ⟨rfl, rfl⟩

/-- The first quotation mark behind the opening one is the closing one, or a backslash stands in front of it. -/
theorem Enclosed.first_quote {body upTo rest rest' : List Char} (h : Enclosed body) (hnone : '"' ∉ upTo)
    (hsame : upTo ++ '"' :: rest' = body ++ '"' :: rest) :
    upTo = body ∧ rest' = rest ∨ '\"' ∈ body ∧ ∃ body', Enclosed body' ∧ rest' = body' ++ '"' :: rest := by
  induction h generalizing upTo with
  | nil =>
    cases upTo with
    | nil => exact Or.inl ⟨rfl, (List.cons.inj hsame).2⟩
    | cons c upTo => exact absurd (List.mem_cons.mpr (Or.inl (List.cons.inj hsame).1.symm)) hnone
  | plain hquote _ _ ih =>
    cases upTo with
    | nil => exact absurd (List.cons.inj hsame).1.symm hquote
    | cons c upTo =>
      obtain ⟨rfl, htail⟩ := List.cons.inj hsame
      rcases ih (fun hmem => hnone (List.mem_cons_of_mem _ hmem)) htail with ⟨rfl, rfl⟩ | ⟨hmem, hbody⟩
      · exact Or.inl ⟨rfl, rfl⟩
      · exact Or.inr ⟨List.mem_cons_of_mem _ hmem, hbody⟩
  | @escape e body hbody ih =>
    cases upTo with
    | nil => exact absurd (List.cons.inj hsame).1 (by decide)
    | cons c upTo =>
      obtain ⟨rfl, htail⟩ := List.cons.inj hsame
      cases upTo with
      | nil =>
        obtain ⟨rfl, rfl⟩ := List.cons.inj htail
        exact Or.inr ⟨List.mem_cons_of_mem _ List.mem_cons_self, body, hbody, rfl⟩
      | cons c upTo =>
        obtain ⟨rfl, htail'⟩ := List.cons.inj htail
        have hnone' : '"' ∉ upTo := fun hmem => hnone (List.mem_cons_of_mem _ (List.mem_cons_of_mem _ hmem))
        rcases ih hnone' htail' with ⟨rfl, rfl⟩ | ⟨hmem, hbody⟩
        · exact Or.inl ⟨rfl, rfl⟩
        · exact Or.inr ⟨List.mem_cons_of_mem _ (List.mem_cons_of_mem _ hmem), hbody⟩

/-! ## Values -/

theorem readWord_eq_some {word : String} {v v' : Json} {cs rest : List Char}
    (h : readWord word v cs = some (v', rest)) : v' = v := by
  obtain ⟨_, -, heq⟩ := Option.map_eq_some_iff.mp h
  exact (Prod.mk.inj heq).1.symm

theorem readScalar_eq_some {cs : List Char} {v : Json} {rest : List Char} (h : readScalar cs = some (v, rest)) :
    v = .null ∨ (∃ b, v = .bool b) ∨ ∃ literal, v = .num literal := by
  cases cs with
  | nil => cases h
  | cons c cs =>
    rw [readScalar] at h
    split_ifs at h with ht hf hn
    · exact Or.inr (Or.inl ⟨_, readWord_eq_some h⟩)
    · exact Or.inr (Or.inl ⟨_, readWord_eq_some h⟩)
    · exact Or.inl (readWord_eq_some h)
    · obtain ⟨_, -, heq⟩ := Option.map_eq_some_iff.mp h
      exact Or.inr (Or.inr ⟨_, (Prod.mk.inj heq).1.symm⟩)

theorem readValue_eq_some {n : ℕ} {cs : List Char} {v : Json} {rest : List Char}
    (h : readValue n cs = some (v, rest)) : ∃ k c cs', n = k + 1 ∧ skipWs cs = c :: cs' ∧
      (c = '{' ∧ (expect '}' cs' = some rest ∧ v = .obj [] ∨
          ∃ members, readMembers k cs' = some (members, rest) ∧ v = .obj members) ∨
        c = '[' ∧ (expect ']' cs' = some rest ∧ v = .arr [] ∨
          ∃ items, readElements k cs' = some (items, rest) ∧ v = .arr items) ∨
        c = '"' ∧ (∃ s, readString cs' = some (s, rest) ∧ v = .str s) ∨
        readScalar (c :: cs') = some (v, rest)) := by
  cases n with
  | zero => rw [readValue] at h; cases h
  | succ k =>
    rw [readValue] at h
    cases hskip : skipWs cs with
    | nil => rw [hskip] at h; cases h
    | cons c cs' =>
      rw [hskip] at h
      dsimp only at h
      refine ⟨k, c, cs', rfl, rfl, ?_⟩
      split_ifs at h with hobj harr hstr
      · refine Or.inl ⟨hobj, ?_⟩
        cases hclose : expect '}' cs' with
        | some rest' =>
          rw [hclose] at h
          obtain ⟨rfl, rfl⟩ := Prod.mk.inj (Option.some.inj h)
          exact Or.inl ⟨rfl, rfl⟩
        | none =>
          rw [hclose] at h
          obtain ⟨⟨members, rest'⟩, hmembers, heq⟩ := Option.map_eq_some_iff.mp h
          obtain ⟨rfl, rfl⟩ := Prod.mk.inj heq
          exact Or.inr ⟨members, hmembers, rfl⟩
      · refine Or.inr (Or.inl ⟨harr, ?_⟩)
        cases hclose : expect ']' cs' with
        | some rest' =>
          rw [hclose] at h
          obtain ⟨rfl, rfl⟩ := Prod.mk.inj (Option.some.inj h)
          exact Or.inl ⟨rfl, rfl⟩
        | none =>
          rw [hclose] at h
          obtain ⟨⟨items, rest'⟩, hitems, heq⟩ := Option.map_eq_some_iff.mp h
          obtain ⟨rfl, rfl⟩ := Prod.mk.inj heq
          exact Or.inr ⟨items, hitems, rfl⟩
      · obtain ⟨⟨s, rest'⟩, hs, heq⟩ := Option.map_eq_some_iff.mp h
        obtain ⟨rfl, rfl⟩ := Prod.mk.inj heq
        exact Or.inr (Or.inr (Or.inl ⟨hstr, s, hs, rfl⟩))
      · exact Or.inr (Or.inr (Or.inr h))

section

variable {n : ℕ} {cs rest : List Char}

theorem readValue_str {s : String} (h : readValue n cs = some (.str s, rest)) :
    ∃ blanks body, cs = blanks ++ '"' :: (body ++ '"' :: rest) ∧ Blank blanks ∧ SpelledBy body s := by
  obtain ⟨k, c, cs', -, hskip, hvalue⟩ := readValue_eq_some h
  rcases hvalue with ⟨-, ⟨-, hv⟩ | ⟨members, -, hv⟩⟩ | ⟨-, ⟨-, hv⟩ | ⟨items, -, hv⟩⟩ | ⟨rfl, s', hs, hv⟩ | hscalar
  iterate 4 cases hv
  · obtain rfl := Json.str.inj hv
    obtain ⟨blanks, hblanks, rfl⟩ := blank_of_skipWs hskip
    obtain ⟨body, rfl, hbody⟩ := readString_eq_some hs
    exact ⟨blanks, body, rfl, hblanks, hbody⟩
  · rcases readScalar_eq_some hscalar with hv | ⟨b, hv⟩ | ⟨literal, hv⟩
    iterate 3 cases hv

theorem readValue_obj {members : List (String × Json)} (h : readValue n cs = some (.obj members, rest)) :
    ∃ k blanks cs', cs = blanks ++ '{' :: cs' ∧ Blank blanks ∧
      (members = [] ∧ expect '}' cs' = some rest ∨ readMembers k cs' = some (members, rest)) := by
  obtain ⟨k, c, cs', -, hskip, hvalue⟩ := readValue_eq_some h
  rcases hvalue with ⟨rfl, hobj⟩ | ⟨-, ⟨-, hv⟩ | ⟨items, -, hv⟩⟩ | ⟨-, s, -, hv⟩ | hscalar
  · obtain ⟨blanks, hblanks, rfl⟩ := blank_of_skipWs hskip
    refine ⟨k, blanks, cs', rfl, hblanks, ?_⟩
    rcases hobj with ⟨hclose, hv⟩ | ⟨members', hmembers, hv⟩
    · exact Or.inl ⟨Json.obj.inj hv, hclose⟩
    · exact Or.inr (Json.obj.inj hv ▸ hmembers)
  iterate 3 cases hv
  · rcases readScalar_eq_some hscalar with hv | ⟨b, hv⟩ | ⟨literal, hv⟩
    iterate 3 cases hv

theorem readValue_arr {items : List Json} (h : readValue n cs = some (.arr items, rest)) :
    ∃ k blanks cs', cs = blanks ++ '[' :: cs' ∧ Blank blanks ∧
      (items = [] ∧ expect ']' cs' = some rest ∨ readElements k cs' = some (items, rest)) := by
  obtain ⟨k, c, cs', -, hskip, hvalue⟩ := readValue_eq_some h
  rcases hvalue with ⟨-, ⟨-, hv⟩ | ⟨members, -, hv⟩⟩ | ⟨rfl, harr⟩ | ⟨-, s, -, hv⟩ | hscalar
  iterate 2 cases hv
  · obtain ⟨blanks, hblanks, rfl⟩ := blank_of_skipWs hskip
    refine ⟨k, blanks, cs', rfl, hblanks, ?_⟩
    rcases harr with ⟨hclose, hv⟩ | ⟨items', hitems, hv⟩
    · exact Or.inl ⟨Json.arr.inj hv, hclose⟩
    · exact Or.inr (Json.arr.inj hv ▸ hitems)
  · cases hv
  · rcases readScalar_eq_some hscalar with hv | ⟨b, hv⟩ | ⟨literal, hv⟩
    iterate 3 cases hv

theorem readKey_eq_some {key : String} (h : readKey cs = some (key, rest)) :
    ∃ before body behind, cs = before ++ '"' :: (body ++ '"' :: (behind ++ ':' :: rest)) ∧
      Blank before ∧ Blank behind ∧ SpelledBy body key := by
  obtain ⟨cs', hquote, h⟩ := Option.bind_eq_some_iff.mp h
  obtain ⟨⟨s, after⟩, hs, h⟩ := Option.bind_eq_some_iff.mp h
  obtain ⟨rest', hcolon, heq⟩ := Option.map_eq_some_iff.mp h
  obtain ⟨rfl, rfl⟩ := Prod.mk.inj heq
  obtain ⟨before, hbefore, rfl⟩ := blank_of_expect hquote
  obtain ⟨body, rfl, hbody⟩ := readString_eq_some hs
  obtain ⟨behind, hbehind, rfl⟩ := blank_of_expect hcolon
  exact ⟨before, body, behind, rfl, hbefore, hbehind, hbody⟩

theorem readMembers_eq_some {members : List (String × Json)} (h : readMembers n cs = some (members, rest)) :
    ∃ k key v more cs₁ cs₂, members = (key, v) :: more ∧ readKey cs = some (key, cs₁) ∧
      readValue k cs₁ = some (v, cs₂) ∧ (more = [] ∧ expect '}' cs₂ = some rest ∨
        more ≠ [] ∧ ∃ cs₃, expect ',' cs₂ = some cs₃ ∧ readMembers k cs₃ = some (more, rest)) := by
  induction n generalizing cs members with
  | zero => rw [readMembers] at h; cases h
  | succ n ih =>
    rw [readMembers] at h
    obtain ⟨⟨key, cs₁⟩, hkey, h⟩ := Option.bind_eq_some_iff.mp h
    obtain ⟨⟨v, cs₂⟩, hv, h⟩ := Option.bind_eq_some_iff.mp h
    dsimp only at h hv
    cases hcomma : expect ',' cs₂ with
    | some cs₃ =>
      rw [hcomma] at h
      obtain ⟨⟨more, rest'⟩, hmore, heq⟩ := Option.map_eq_some_iff.mp h
      obtain ⟨rfl, rfl⟩ := Prod.mk.inj heq
      refine ⟨n, key, v, more, cs₁, cs₂, rfl, hkey, hv, Or.inr ⟨?_, cs₃, hcomma, hmore⟩⟩
      obtain ⟨_, _, _, _, _, _, rfl, -⟩ := ih hmore
      exact List.cons_ne_nil _ _
    | none =>
      rw [hcomma] at h
      obtain ⟨rest', hclose, heq⟩ := Option.map_eq_some_iff.mp h
      obtain ⟨rfl, rfl⟩ := Prod.mk.inj heq
      exact ⟨n, key, v, [], cs₁, cs₂, rfl, hkey, hv, Or.inl ⟨rfl, hclose⟩⟩

theorem readElements_eq_some {items : List Json} (h : readElements n cs = some (items, rest)) :
    ∃ k v more cs₁, items = v :: more ∧ readValue k cs = some (v, cs₁) ∧
      (more = [] ∧ expect ']' cs₁ = some rest ∨
        more ≠ [] ∧ ∃ cs₂, expect ',' cs₁ = some cs₂ ∧ readElements k cs₂ = some (more, rest)) := by
  induction n generalizing cs items with
  | zero => rw [readElements] at h; cases h
  | succ n ih =>
    rw [readElements] at h
    obtain ⟨⟨v, cs₁⟩, hv, h⟩ := Option.bind_eq_some_iff.mp h
    dsimp only at h
    cases hcomma : expect ',' cs₁ with
    | some cs₂ =>
      rw [hcomma] at h
      obtain ⟨⟨more, rest'⟩, hmore, heq⟩ := Option.map_eq_some_iff.mp h
      obtain ⟨rfl, rfl⟩ := Prod.mk.inj heq
      refine ⟨n, v, more, cs₁, rfl, hv, Or.inr ⟨?_, cs₂, hcomma, hmore⟩⟩
      obtain ⟨_, _, _, _, rfl, -⟩ := ih hmore
      exact List.cons_ne_nil _ _
    | none =>
      rw [hcomma] at h
      obtain ⟨rest', hclose, heq⟩ := Option.map_eq_some_iff.mp h
      obtain ⟨rfl, rfl⟩ := Prod.mk.inj heq
      exact ⟨n, v, [], cs₁, rfl, hv, Or.inl ⟨rfl, hclose⟩⟩

end

/-! ## Objects of two strings -/

/-- A member whose value is a string, with the white space around its parts. -/
structure StringMember where
  before : List Char
  key : List Char
  behindKey : List Char
  beforeValue : List Char
  value : List Char
  behind : List Char

namespace StringMember

def text (m : StringMember) : List Char :=
  m.before ++ '"' :: (m.key ++ '"' :: (m.behindKey ++ ':' :: (m.beforeValue ++ '"' :: (m.value ++ '"' :: m.behind))))

/-- The member says this, and is written as a member may be. -/
structure Says (m : StringMember) (member : String × String) : Prop where
  before : Blank m.before
  key : SpelledBy m.key member.1
  behindKey : Blank m.behindKey
  beforeValue : Blank m.beforeValue
  value : SpelledBy m.value member.2
  behind : Blank m.behind

end StringMember

theorem stringMember_of_read {n : ℕ} {cs cs₁ cs₂ behind rest : List Char} {c : Char} {key s : String}
    (hkey : readKey cs = some (key, cs₁)) (hv : readValue n cs₁ = some (.str s, cs₂)) (hbehind : Blank behind)
    (hrest : cs₂ = behind ++ c :: rest) :
    ∃ m : StringMember, cs = m.text ++ c :: rest ∧ m.Says (key, s) := by
  obtain ⟨before, body, behindKey, rfl, hbefore, hbehindKey, hbody⟩ := readKey_eq_some hkey
  obtain ⟨beforeValue, value, rfl, hbeforeValue, hvalue⟩ := readValue_str hv
  refine ⟨⟨before, body, behindKey, beforeValue, value, behind⟩, ?_,
    ⟨hbefore, hbody, hbehindKey, hbeforeValue, hvalue, hbehind⟩⟩
  rw [hrest, StringMember.text]
  simp only [List.append_assoc, List.cons_append]

/-- An object with two members whose values are strings. -/
structure StringPair where
  before : List Char
  first : StringMember
  second : StringMember
  behind : List Char

namespace StringPair

def text (o : StringPair) : List Char :=
  o.before ++ '{' :: (o.first.text ++ ',' :: (o.second.text ++ '}' :: o.behind))

structure Says (o : StringPair) (members : (String × String) × String × String) : Prop where
  before : Blank o.before
  first : o.first.Says members.1
  second : o.second.Says members.2
  behind : Blank o.behind

end StringPair

/-- The object with these two members. -/
def pairObject (members : (String × String) × String × String) : Json :=
  .obj [(members.1.1, .str members.1.2), (members.2.1, .str members.2.2)]

theorem stringPair_of_read {n : ℕ} {cs cs₁ behind rest : List Char} {c : Char}
    {members : (String × String) × String × String} (h : readValue n cs = some (pairObject members, cs₁))
    (hbehind : Blank behind) (hrest : cs₁ = behind ++ c :: rest) :
    ∃ o : StringPair, cs = o.text ++ c :: rest ∧ o.Says members := by
  obtain ⟨k, before, cs', rfl, hbefore, ⟨hnil, -⟩ | hmembers⟩ := readValue_obj h
  · exact absurd hnil (List.cons_ne_nil _ _)
  obtain ⟨k', key, v, more, cs₂, cs₃, hsame, hkey, hv, ⟨hnil, -⟩ | ⟨-, cs₄, hcomma, hmore⟩⟩ :=
    readMembers_eq_some hmembers
  · rw [hnil] at hsame
    exact absurd (congrArg List.length hsame) (by simp)
  obtain ⟨hmember, rfl⟩ := List.cons.inj hsame
  obtain ⟨rfl, rfl⟩ := Prod.mk.inj hmember
  obtain ⟨behindFirst, hbehindFirst, hcs₃⟩ := blank_of_expect hcomma
  obtain ⟨first, rfl, hfirst⟩ := stringMember_of_read hkey hv hbehindFirst hcs₃
  obtain ⟨k'', key, v, more, cs₅, cs₆, hsame, hkey, hv, ⟨hnil, hclose⟩ | ⟨hne, -⟩⟩ := readMembers_eq_some hmore
  · subst hnil
    obtain ⟨rfl, rfl⟩ := Prod.mk.inj (List.cons.inj hsame).1
    obtain ⟨behindSecond, hbehindSecond, hcs₆⟩ := blank_of_expect hclose
    obtain ⟨second, rfl, hsecond⟩ := stringMember_of_read hkey hv hbehindSecond hcs₆
    refine ⟨⟨before, first, second, behind⟩, ?_, ⟨hbefore, hfirst, hsecond, hbehind⟩⟩
    rw [hrest, StringPair.text]
    simp only [List.append_assoc, List.cons_append]
  · exact absurd (List.cons.inj hsame).2.symm hne

theorem stringPairs_of_read {n : ℕ} {members : List ((String × String) × String × String)} {cs rest : List Char}
    (h : readElements n cs = some (members.map pairObject, rest)) :
    ∃ objects : List StringPair, cs = commaSeparated (objects.map StringPair.text) ++ ']' :: rest ∧
      List.Forall₂ StringPair.Says objects members := by
  induction members generalizing n cs with
  | nil =>
    obtain ⟨_, _, _, _, hsame, -⟩ := readElements_eq_some h
    cases hsame
  | cons member members ih =>
    obtain ⟨k, v, more, cs₁, hsame, hv, hmore⟩ := readElements_eq_some h
    obtain ⟨rfl, rfl⟩ := List.cons.inj hsame
    rcases hmore with ⟨hnil, hclose⟩ | ⟨hne, cs₂, hcomma, hmore⟩
    · obtain rfl := List.map_eq_nil_iff.mp hnil
      obtain ⟨behind, hbehind, hcs₁⟩ := blank_of_expect hclose
      obtain ⟨o, rfl, ho⟩ := stringPair_of_read hv hbehind hcs₁
      refine ⟨[o], ?_, .cons ho .nil⟩
      rw [List.map_singleton, commaSeparated, List.intercalate_singleton]
    · obtain ⟨behind, hbehind, hcs₁⟩ := blank_of_expect hcomma
      obtain ⟨o, rfl, ho⟩ := stringPair_of_read hv hbehind hcs₁
      obtain ⟨objects, rfl, hobjects⟩ := ih hmore
      refine ⟨o :: objects, ?_, .cons ho hobjects⟩
      cases hobjects with
      | nil => exact absurd rfl hne
      | cons _ _ =>
        rw [List.map_cons, List.map_cons, commaSeparated, commaSeparated, List.map_cons, List.intercalate_cons_cons]
        simp only [List.append_assoc, List.cons_append, List.nil_append]

/-- What a text looks like that is read as an array of such objects. -/
theorem text_of_parse {members : List ((String × String) × String × String)} {text : List Char}
    (h : parse text = some (.arr (members.map pairObject))) :
    ∃ (objects : List StringPair) (before opened behind : List Char), Blank before ∧ Blank opened ∧ Blank behind ∧
      text = before ++ '[' :: (opened ++ (commaSeparated (objects.map StringPair.text) ++ ']' :: behind)) ∧
      List.Forall₂ StringPair.Says objects members := by
  obtain ⟨⟨v, rest⟩, hread, hdone⟩ := Option.bind_eq_some_iff.mp h
  split_ifs at hdone with hskip
  obtain rfl := Option.some.inj hdone
  have hbehind := blank_of_skipWs_nil hskip
  obtain ⟨k, before, cs', rfl, hbefore, ⟨hnil, hclose⟩ | hitems⟩ := readValue_arr hread
  · obtain rfl := List.map_eq_nil_iff.mp hnil
    obtain ⟨opened, hopened, rfl⟩ := blank_of_expect hclose
    exact ⟨[], before, opened, rest, hbefore, hopened, hbehind, rfl, .nil⟩
  · obtain ⟨objects, rfl, hobjects⟩ := stringPairs_of_read hitems
    exact ⟨objects, before, [], rest, hbefore, by simp [Blank], hbehind, rfl, hobjects⟩

end Souxmar.Lib.Json
