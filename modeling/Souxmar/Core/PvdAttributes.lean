import Souxmar.Core.Pvd

/-!
# The attributes that the search finds

When the search for an attribute ends at the attribute itself, said of the attributes: `Shown`. The tag is cut into
segments, and in each of them the name does not begin (`Unmarked`).
-/

namespace Souxmar.Core.Pvd

/-- In the value of the attribute, its last quote included, a `name=` behind a blank, `<` or `/` has a quote after it. -/
def Attribute.Misleads (b : Attribute) (name : List Char) : Prop :=
  ∃ front c quote rest, b.value ++ [b.quote] = front ++ c :: (name ++ '=' :: quote :: rest) ∧
    startsName c = true ∧ isQuote quote = true

/-- No blanks stand around the equals sign of the attribute, no `>` in its value and in those of the attributes before
it, and none of these misleads. -/
def DataSet.Shows (e : DataSet) (a : Attribute) : Prop :=
  a.padBefore = [] ∧ a.padAfter = [] ∧ '>' ∉ a.value ∧
    ∃ before after, e.attributes = before ++ a :: after ∧ ∀ b ∈ before, '>' ∉ b.value ∧ ¬b.Misleads a.name

/-! ## Segments in which the name does not begin -/

variable {name past seg rest : List Char}

/-- The name, an equals sign and a quote, after this text and before that one. -/
def Marks (name front rest : List Char) : Prop :=
  (∀ c ∈ front.getLast?, startsName c = true) ∧ ∃ quote, isQuote quote = true ∧ name ++ ['=', quote] <+: rest

theorem opens_length_iff : Opens (past ++ rest) name past.length ↔ Marks name past rest := by
  refine and_congr ?_ (by rw [List.drop_left])
  rcases List.eq_nil_or_concat past with rfl | ⟨front, c, rfl⟩
  · simp
  · rw [List.concat_eq_append, List.length_append, List.length_singleton, Nat.add_sub_cancel, List.getLast?_concat,
      List.getD_eq_getElem?_getD, List.append_assoc, List.getElem?_append_right (Nat.le_refl _), Nat.sub_self]
    simp

/-- The name does not begin in the segment. -/
def Unmarked (name past seg rest : List Char) : Prop :=
  ∀ x y, seg = x ++ y → y ≠ [] → ¬Marks name (past ++ x) (y ++ rest)

theorem Unmarked.append {seg' : List Char} (h : Unmarked name past seg (seg' ++ rest))
    (h' : Unmarked name (past ++ seg) seg' rest) : Unmarked name past (seg ++ seg') rest := by
  intro x y hsplit hy
  rcases List.append_eq_append_iff.mp hsplit with ⟨more, rfl, rfl⟩ | ⟨more, rfl, rfl⟩
  · rw [← List.append_assoc]
    exact h' more y rfl hy
  · by_cases hmore : more = []
    · subst hmore
      have h'' := h' [] seg' rfl hy
      rw [List.append_nil, List.append_nil] at h''
      exact h''
    · rw [List.append_assoc]
      exact h x more rfl hmore

theorem Marks.head (hname : name ≠ []) (hplain : ∀ c ∈ name, isNameChar c = true) {c : Char} {front y : List Char}
    (h : Marks name front (c :: y)) : isNameChar c = true := by
  obtain ⟨-, quote, -, more, hmore⟩ := h
  cases name with
  | nil => exact absurd rfl hname
  | cons d name =>
    rw [← (List.cons.inj hmore).1]
    exact hplain d List.mem_cons_self

theorem unmarked_of_signs (hname : name ≠ []) (hplain : ∀ c ∈ name, isNameChar c = true)
    (hseg : ∀ c ∈ seg, isNameChar c = false) : Unmarked name past seg rest := by
  intro x y hsplit hy hmarks
  cases y with
  | nil => exact hy rfl
  | cons c y =>
    have hc := hseg c (hsplit ▸ List.mem_append_right _ List.mem_cons_self)
    rw [Marks.head hname hplain hmarks] at hc
    exact Bool.noConfusion hc

theorem startsName_of_nameChar {c : Char} (h : isNameChar c = true) : startsName c = false := by
  simp only [isNameChar, Bool.and_eq_true, Bool.not_eq_true', decide_eq_true_eq] at h
  simp only [startsName, Bool.or_eq_false_iff, decide_eq_false_iff_not]
  exact ⟨⟨h.1.1.1.1.1, h.1.1.2⟩, h.2⟩

theorem name_unique {word s t : List Char} {c d : Char} (hname : ∀ c ∈ name, isNameChar c = true)
    (hword : ∀ c ∈ word, isNameChar c = true) (hc : isNameChar c = false) (hd : isNameChar d = false)
    (h : name ++ c :: s = word ++ d :: t) : name = word := by
  have htake := congrArg (List.takeWhile isNameChar) h
  rw [List.takeWhile_append_of_pos hname, List.takeWhile_append_of_pos hword,
    List.takeWhile_cons_of_neg (by rw [hc]; exact Bool.noConfusion),
    List.takeWhile_cons_of_neg (by rw [hd]; exact Bool.noConfusion), List.append_nil, List.append_nil] at htake
  exact htake

theorem unmarked_of_word (hplain : ∀ c ∈ name, isNameChar c = true) (hseg : ∀ c ∈ seg, isNameChar c = true)
    (hne : seg ≠ name) {d : Char} (hd : isNameChar d = false) : Unmarked name past seg (d :: rest) := by
  rintro x y hsplit hy ⟨hlast, quote, -, more, hmore⟩
  rcases List.eq_nil_or_concat x with rfl | ⟨front, c, rfl⟩
  · rw [List.nil_append] at hsplit
    subst hsplit
    rw [List.append_assoc] at hmore
    exact hne (name_unique hseg hplain hd (by decide : isNameChar '=' = false) hmore.symm)
  · have hc := startsName_of_nameChar (hseg c (by rw [hsplit, List.concat_eq_append]; simp))
    rw [hlast c (by rw [List.concat_eq_append, ← List.append_assoc, List.getLast?_concat]; rfl)] at hc
    exact Bool.noConfusion hc

theorem not_nameChar_of_quote {c : Char} (h : isQuote c = true) : isNameChar c = false := by
  simp [isNameChar, h]

theorem startsName_of_quote {c : Char} (h : isQuote c = true) : startsName c = false := by
  simp only [isQuote, Bool.or_eq_true, decide_eq_true_eq] at h
  rcases h with rfl | rfl <;> rfl

theorem prefix_of_quote {word y rest : List Char} {c q : Char} (hq : q ∉ word) (h : word ++ [c] <+: y ++ q :: rest) :
    word ++ [c] <+: y ++ [q] := by
  rw [List.append_cons y q rest] at h
  refine List.prefix_of_prefix_length_le h (List.prefix_append _ _) ?_
  rw [List.length_append, List.length_append, List.length_singleton, List.length_singleton]
  by_contra hlt
  obtain ⟨more, hmore⟩ := h
  have hget : (word ++ [c] ++ more)[y.length]? = (y ++ [q] ++ rest)[y.length]? := by rw [hmore]
  rw [List.append_assoc, List.append_assoc, List.getElem?_append_left (by omega),
    List.getElem?_append_right (Nat.le_refl _), Nat.sub_self] at hget
  exact hq (List.mem_of_getElem? hget)

theorem Attribute.unmarked_value (b : Attribute) (hplain : ∀ c ∈ name, isNameChar c = true) (hnot : ¬b.Misleads name) :
    Unmarked name (past ++ [b.quote]) b.value (b.quote :: rest) := by
  rintro x y hsplit hy ⟨hlast, quote, hquote, hmore⟩
  rcases List.eq_nil_or_concat x with rfl | ⟨front, c, rfl⟩
  · have hq := hlast b.quote (by rw [List.append_nil, List.getLast?_concat]; rfl)
    rw [startsName_of_quote b.quote_is] at hq
    exact Bool.noConfusion hq
  · rw [List.concat_eq_append] at hsplit hlast
    have hc := hlast c (by rw [← List.append_assoc, List.getLast?_concat]; rfl)
    have hsign : b.quote ∉ name ++ ['='] := by
      intro hmem
      have hq := not_nameChar_of_quote b.quote_is
      rcases List.mem_append.mp hmem with hmem | hmem
      · rw [hplain _ hmem] at hq
        exact Bool.noConfusion hq
      · have hquote := b.quote_is
        rw [List.mem_singleton.mp hmem] at hquote
        exact Bool.noConfusion hquote
    rw [List.append_cons name '=' [quote]] at hmore
    obtain ⟨tail, htail⟩ := prefix_of_quote hsign hmore
    refine hnot ⟨front, c, quote, tail, ?_, hc, hquote⟩
    rw [hsplit, List.append_assoc, ← htail]
    simp only [List.append_assoc, List.cons_append, List.nil_append]

theorem not_nameChar_of_blank {c : Char} (h : isBlank c = true) : isNameChar c = false := by
  simp [isNameChar, h]

theorem Attribute.after_name (b : Attribute) (more : List Char) :
    ∃ d s, b.padBefore ++ '=' :: more = d :: s ∧ isNameChar d = false := by
  cases hpad : b.padBefore with
  | nil => exact ⟨'=', more, rfl, by decide⟩
  | cons d pad => exact ⟨d, pad ++ '=' :: more, rfl, not_nameChar_of_blank (b.padBefore_blank d (hpad ▸ List.mem_cons_self))⟩

section

variable (hname : name ≠ []) (hplain : ∀ c ∈ name, isNameChar c = true)

include hname hplain

theorem Attribute.unmarked (b : Attribute) (hne : b.name ≠ name) (hnot : ¬b.Misleads name) :
    Unmarked name past b.text rest := by
  have hsigns : ∀ {seg past rest : List Char}, (∀ c ∈ seg, isNameChar c = false) → Unmarked name past seg rest :=
    unmarked_of_signs hname hplain
  have hquote : ∀ c ∈ [b.quote], isNameChar c = false :=
    List.forall_mem_singleton.mpr (not_nameChar_of_quote b.quote_is)
  have htext : b.text = b.before ++ (b.name ++ (b.padBefore ++ '=' :: b.padAfter ++ ([b.quote] ++ (b.value ++ [b.quote])))) := by
    simp only [Attribute.text, List.append_assoc, List.cons_append, List.nil_append]
  rw [htext]
  refine (hsigns fun c hc => not_nameChar_of_blank (b.before_blank c hc)).append (.append ?_ (.append ?_ (.append ?_ ?_)))
  · obtain ⟨d, s, hds, hd⟩ := b.after_name (b.padAfter ++ ([b.quote] ++ (b.value ++ [b.quote])) ++ rest)
    have hrest : b.padBefore ++ '=' :: b.padAfter ++ ([b.quote] ++ (b.value ++ [b.quote])) ++ rest = d :: s := by
      rw [← hds]
      simp only [List.append_assoc, List.cons_append]
    rw [hrest]
    exact unmarked_of_word hplain b.name_plain hne hd
  · refine hsigns fun c hc => ?_
    rcases List.mem_append.mp hc with hc | hc
    · exact not_nameChar_of_blank (b.padBefore_blank c hc)
    · rcases List.mem_cons.mp hc with rfl | hc
      · decide
      · exact not_nameChar_of_blank (b.padAfter_blank c hc)
  · exact hsigns hquote
  · exact (b.unmarked_value hplain hnot).append (hsigns hquote)

theorem unmarked_attributes {before : List Attribute} (hne : ∀ b ∈ before, b.name ≠ name)
    (hnot : ∀ b ∈ before, ¬b.Misleads name) : Unmarked name past (before.flatMap Attribute.text) rest := by
  induction before generalizing past with
  | nil =>
    intro x y hsplit hy
    exact absurd (List.append_eq_nil_iff.mp hsplit.symm).2 hy
  | cons b before ih =>
    obtain ⟨hb, hne⟩ := List.forall_mem_cons.mp hne
    obtain ⟨hb', hnot⟩ := List.forall_mem_cons.mp hnot
    rw [List.flatMap_cons]
    exact (b.unmarked hname hplain hb hb').append (ih hne hnot)

theorem unmarked_openWord (hne : openWord.tail ≠ name) {c : Char} (hc : isBlank c = true) :
    Unmarked name past openWord (c :: rest) :=
  have hsign : Unmarked name past ['<'] (openWord.tail ++ c :: rest) :=
    unmarked_of_signs hname hplain (by decide)
  hsign.append (unmarked_of_word hplain (by decide) hne (not_nameChar_of_blank hc))

end

/-! ## Where the search ends -/

theorem leftmost_of_unmarked {quote : Char} {value : List Char}
    (hunmarked : Unmarked name [] seg (name ++ '=' :: quote :: rest))
    (hlast : ∀ c ∈ seg.getLast?, startsName c = true) (hquote : isQuote quote = true) {more : List Char}
    (hrest : rest = value ++ quote :: more) (hvalue : quote ∉ value) :
    Leftmost (seg ++ (name ++ '=' :: quote :: rest)) name value := by
  refine ⟨seg.length, quote, more, opens_length_iff.mpr ⟨hlast, quote, hquote, rest, ?_⟩, ?_, hvalue, fun j hj hopens => ?_⟩
  · rw [List.append_assoc]
    rfl
  · rw [List.drop_left, hrest]
  · have hsplit : seg = seg.take j ++ seg.drop j := (List.take_append_drop j seg).symm
    refine hunmarked (seg.take j) (seg.drop j) hsplit (fun hnil => ?_) ?_
    · rw [List.drop_eq_nil_iff] at hnil
      omega
    · rw [List.nil_append]
      refine opens_length_iff.mp ?_
      rw [← List.append_assoc, ← hsplit, List.length_take_of_le (Nat.le_of_lt hj)]
      exact hopens

theorem Attribute.close_notMem {b : Attribute} (h : '>' ∉ b.value) : '>' ∉ b.text := by
  intro hmem
  have hblank : ∀ {l : List Char}, (∀ c ∈ l, isBlank c = true) → '>' ∉ l := fun hl hin =>
    isBlank_ne (hl _ hin) (d := '>') rfl rfl
  have hquote : b.quote ≠ '>' := fun heq => by
    have hq := b.quote_is
    rw [heq] at hq
    exact Bool.noConfusion hq
  simp only [Attribute.text, List.mem_append, List.mem_cons, List.not_mem_nil, or_false] at hmem
  rcases hmem with ((hmem | hmem) | hmem) | hmem | hmem | hmem | hmem | hmem
  · exact hblank b.before_blank hmem
  · exact absurd (b.name_plain _ hmem) (by decide)
  · exact hblank b.padBefore_blank hmem
  · exact absurd hmem (by decide)
  · exact hblank b.padAfter_blank hmem
  · exact hquote hmem.symm
  · exact h hmem
  · exact hquote hmem.symm

theorem DataSet.tag_eq {e : DataSet} {front after : List Attribute} (hsplit : e.attributes = front ++ after)
    (hfront : ∀ b ∈ front, '>' ∉ b.value) : ∃ more, e.tag = openWord ++ (front.flatMap Attribute.text ++ more) := by
  have hclose : ∀ c ∈ front.flatMap Attribute.text, decide (c ≠ '>') = true := fun c hc => by
    obtain ⟨b, hb, hmem⟩ := List.mem_flatMap.mp hc
    exact decide_eq_true fun heq => Attribute.close_notMem (hfront b hb) (heq ▸ hmem)
  unfold DataSet.tag DataSet.inside
  rw [hsplit, List.flatMap_append, List.append_assoc, List.append_assoc, List.takeWhile_append_of_pos hclose,
    List.append_assoc]
  exact ⟨_, rfl⟩

/-- The names of the attributes are different. -/
theorem DataSet.name_ne (e : DataSet) {a : Attribute} {before after : List Attribute}
    (hsplit : e.attributes = before ++ a :: after) : ∀ b ∈ before, b.name ≠ a.name := by
  have hdistinct := e.distinct
  rw [hsplit, List.map_append, List.map_cons] at hdistinct
  intro b hb heq
  exact (List.nodup_append.mp hdistinct).2.2 _ (List.mem_map_of_mem hb) _ List.mem_cons_self heq

theorem DataSet.Shows.leftmost {e : DataSet} {a : Attribute} (h : e.Shows a) (hword : openWord.tail ≠ a.name) :
    Leftmost e.tag a.name a.value := by
  obtain ⟨hpad, hpad', hclose, before, after, hsplit, hbefore⟩ := h
  have hsplit' : e.attributes = (before ++ [a]) ++ after := by rw [hsplit, ← List.append_cons]
  obtain ⟨more, htag⟩ := e.tag_eq hsplit' fun b hb => by
    rcases List.mem_append.mp hb with hb | hb
    · exact (hbefore b hb).1
    · rw [List.mem_singleton.mp hb]
      exact hclose
  have htext : e.tag = openWord ++ (before.flatMap Attribute.text ++ a.before) ++
      (a.name ++ '=' :: a.quote :: (a.value ++ a.quote :: more)) := by
    rw [htag, List.flatMap_append, List.flatMap_singleton, Attribute.text, hpad, hpad']
    simp only [List.append_assoc, List.cons_append, List.nil_append]
  rw [htext]
  refine leftmost_of_unmarked ?_ (fun c hc => ?_) a.quote_is rfl a.value_unquoted
  · have hblanks : ∀ {past rest : List Char}, Unmarked a.name past a.before rest := fun {past rest} =>
      unmarked_of_signs a.name_ne a.name_plain fun c hc => not_nameChar_of_blank (a.before_blank c hc)
    refine Unmarked.append ?_ ((unmarked_attributes a.name_ne a.name_plain (e.name_ne hsplit)
      fun b hb => (hbefore b hb).2).append hblanks)
    -- The word that opens the element stands before a blank.
    obtain ⟨c, s, hhead, hc⟩ : ∃ c s, before.flatMap Attribute.text ++ a.before = c :: s ∧ isBlank c = true := by
      have hfirst : ∀ b : Attribute, ∃ c s, b.before = c :: s ∧ isBlank c = true := fun b => by
        obtain ⟨c, s, hcs⟩ := List.exists_cons_of_ne_nil b.before_ne
        exact ⟨c, s, hcs, b.before_blank c (hcs ▸ List.mem_cons_self)⟩
      cases before with
      | nil => exact hfirst a
      | cons b before =>
        obtain ⟨c, s, hcs, hc⟩ := hfirst b
        rw [List.flatMap_cons, Attribute.text, hcs]
        exact ⟨c, _, rfl, hc⟩
    rw [hhead]
    exact unmarked_openWord a.name_ne a.name_plain hword hc
  · have hne := a.before_ne
    rw [← List.append_assoc, List.getLast?_append_of_ne_nil _ hne] at hc
    have hblank := a.before_blank c (List.mem_of_getLast? hc)
    simp [startsName, hblank]

end Souxmar.Core.Pvd
