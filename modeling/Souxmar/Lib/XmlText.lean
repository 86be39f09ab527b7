import Souxmar.Lib.Xml

/-!
# Text that is read as XML

Tags and character data as they are written, and what the reader makes of them. The last section goes the other way:
what an attribute value in a document must look like.
-/

namespace Souxmar.Lib.Xml

/-! ## Runs -/

namespace State

theorem run_append (s : State) (xs ys : List Char) :
    s.run (xs ++ ys) = (s.run xs).bind fun r => (r.1.run ys).map fun t => (t.1, r.2 ++ t.2) := by
  induction xs generalizing s with
  | nil => simp [run]
  | cons c xs ih =>
    rw [List.cons_append, run, run]
    cases s.step c with
    | none => rfl
    | some r =>
      rw [Option.bind_some, Option.bind_some, ih]
      cases r.1.run xs with
      | none => rfl
      | some t => simp [Function.comp_def]

theorem run_trans {s t : State} {xs : List Char} {items : List Item} (h : s.run xs = some (t, items)) (ys : List Char) :
    s.run (xs ++ ys) = (t.run ys).map fun r => (r.1, items ++ r.2) := by
  rw [run_append, h, Option.bind_some]

theorem run_both {s t u : State} {xs ys : List Char} {items more : List Item} (h : s.run xs = some (t, items))
    (h' : t.run ys = some (u, more)) : s.run (xs ++ ys) = some (u, items ++ more) := by
  rw [run_trans h, h', Option.map_some]

theorem run_rest {s t u : State} {xs ys : List Char} {items all : List Item} (h : s.run xs = some (t, items))
    (hall : s.run (xs ++ ys) = some (u, all)) : ∃ more, t.run ys = some (u, more) ∧ all = items ++ more := by
  rw [run_trans h] at hall
  obtain ⟨⟨v, more⟩, hmore, heq⟩ := Option.map_eq_some_iff.mp hall
  obtain ⟨rfl, rfl⟩ := Prod.mk.inj heq
  exact ⟨more, hmore, rfl⟩

theorem run_cons {s t : State} {c : Char} {items : List Item} (h : s.step c = some (t, items)) (cs : List Char) :
    s.run (c :: cs) = (t.run cs).map fun r => (r.1, items ++ r.2) := by
  rw [run, h, Option.bind_some]

theorem run_one {s t : State} {c : Char} {items : List Item} (h : s.step c = some (t, items)) :
    s.run [c] = some (t, items) := by
  rw [run_cons h, run, Option.map_some, List.append_nil]

theorem run_collect {f : List Char → State} {cs : List Char} (h : ∀ v, ∀ c ∈ cs, (f v).step c = some (f (v ++ [c]), []))
    (v : List Char) : (f v).run cs = some (f (v ++ cs), []) := by
  induction cs generalizing v with
  | nil => rw [List.append_nil, run]
  | cons c cs ih =>
    rw [run_cons (h v c List.mem_cons_self), ih (fun v d hd => h v d (List.mem_cons_of_mem _ hd)), Option.map_some,
      List.append_assoc, List.singleton_append]
    rfl

end State

/-! ## Characters -/

theorem isChar_of_within {ranges : List (ℕ × ℕ)} {c : Char} (h : within ranges c = true)
    (hranges : ∀ r ∈ ranges, 0x20 ≤ r.1 ∧ r.2 ≤ 0xFFFD ∨ 0x10000 ≤ r.1) : isChar c = true := by
  obtain ⟨r, hr, hc⟩ := List.any_eq_true.mp h
  have hbounds := hranges r hr
  have hwithin := of_decide_eq_true hc
  have hlarge : 0x20 ≤ c.toNat ∧ c.toNat ≤ 0xFFFD ∨ 0x10000 ≤ c.toNat := by omega
  unfold isChar
  rcases hlarge with ⟨hlow, hhigh⟩ | hlarge
  · simp [hlow, hhigh]
  · simp [hlarge]

theorem isChar_of_isNameStart {c : Char} (h : isNameStart c = true) : isChar c = true :=
  isChar_of_within h (by decide)

theorem isChar_of_isNameChar {c : Char} (h : isNameChar c = true) : isChar c = true := by
  rcases Bool.or_eq_true_iff.mp h with h | h
  · exact isChar_of_isNameStart h
  · exact isChar_of_within h (by decide)

theorem isNameChar_of_isNameStart {c : Char} (h : isNameStart c = true) : isNameChar c = true :=
  Bool.or_eq_true_iff.mpr (Or.inl h)

theorem ne_of_isNameChar {c d : Char} (h : isNameChar c = true) (hd : isNameChar d = false) : c ≠ d := fun hcd => by
  rw [hcd, hd] at h
  exact Bool.noConfusion h

theorem isWhite_of_isNameChar {c : Char} (h : isNameChar c = true) : isWhite c = false := by
  have hne := fun d hd => @ne_of_isNameChar c d h hd
  unfold isWhite
  rw [decide_eq_false (hne ' ' rfl), decide_eq_false (hne '\t' rfl), decide_eq_false (hne '\n' rfl),
    decide_eq_false (hne '\r' rfl)]
  rfl

def isName : Name → Bool
  | [] => false
  | c :: cs => isNameStart c && cs.all isNameChar

/-- Characters that stand for themselves in an attribute value between double quotes. -/
def isPlain (c : Char) : Bool :=
  isChar c && !([('<'), '&', '"', '\t', '\n', '\r'].contains c)

/-- Characters that stand for themselves between tags. -/
def isData (c : Char) : Bool := isChar c && !(['<', '&', ']', '\r'].contains c)

theorem isPlain_iff {c : Char} : isPlain c = true ↔
    isChar c = true ∧ c ≠ '<' ∧ c ≠ '&' ∧ c ≠ '"' ∧ c ≠ '\t' ∧ c ≠ '\n' ∧ c ≠ '\r' := by
  simp [isPlain]

theorem isData_iff {c : Char} : isData c = true ↔
    isChar c = true ∧ c ≠ '<' ∧ c ≠ '&' ∧ c ≠ ']' ∧ c ≠ '\r' := by
  simp [isData]

theorem isWhite_of_isPlain {c : Char} (h : isPlain c = true) (hspace : c ≠ ' ') : isWhite c = false := by
  obtain ⟨-, -, -, -, htab, hfeed, hreturn⟩ := isPlain_iff.mp h
  unfold isWhite
  rw [decide_eq_false hspace, decide_eq_false htab, decide_eq_false hfeed, decide_eq_false hreturn]
  rfl

/-! ## Tags and data -/

def attributeText (a : Name × List Char) : List Char := ' ' :: a.1 ++ '=' :: '"' :: a.2 ++ ['"']

def startTag (n : Name) (attributes : Attributes) : List Char := '<' :: n ++ attributes.flatMap attributeText ++ ['>']

def endTag (n : Name) : List Char := '<' :: '/' :: n ++ ['>']

/-- A tag that can be written. -/
structure Writable (n : Name) (as : Attributes) : Prop where
  isName : isName n = true
  named : ∀ a ∈ as, Xml.isName a.1 = true
  plain : ∀ a ∈ as, ∀ c ∈ a.2, isPlain c = true
  once : (as.map Prod.fst).Nodup

/-- A tag that can be written, as a check. -/
def canWrite (n : Name) (as : Attributes) : Bool :=
  isName n && as.all (fun a => isName a.1 && a.2.all isPlain) && decide (as.map Prod.fst).Nodup

theorem writable_of_canWrite {n : Name} {as : Attributes} (h : canWrite n as = true) : Writable n as := by
  obtain ⟨h, honce⟩ := Bool.and_eq_true_iff.mp h
  obtain ⟨hname, hall⟩ := Bool.and_eq_true_iff.mp h
  have heach := fun a ha => Bool.and_eq_true_iff.mp (List.all_eq_true.mp hall a ha)
  exact ⟨hname, fun a ha => (heach a ha).1, fun a ha => List.all_eq_true.mp (heach a ha).2, of_decide_eq_true honce⟩

theorem Writable.bare {n : Name} (h : Xml.isName n = true) : Writable n [] :=
  ⟨h, List.forall_mem_nil _, List.forall_mem_nil _, List.nodup_nil⟩

namespace State

variable {p : List Name} {rooted : Bool} {n a : Name} {as : Attributes}

theorem step_of_isChar {c : Char} (h : isChar c = true) (s : State) : s.step c = s.move c := if_pos h

theorem run_name {k : ℕ} (hn : isName n = true) (hp : p ≠ [] ∨ rooted = false) :
    run ⟨.content k, p, rooted⟩ ('<' :: n) = some (⟨.startName n, p, rooted⟩, []) := by
  cases n with
  | nil => exact Bool.noConfusion hn
  | cons c cs =>
    obtain ⟨hc, hcs⟩ := Bool.and_eq_true_iff.mp hn
    have hchar := isChar_of_isNameStart hc
    have hne := fun d hd => @ne_of_isNameChar c d (isNameChar_of_isNameStart hc) hd
    have hmarkup : step ⟨.content k, p, rooted⟩ '<' = some (⟨.markup, p, rooted⟩, []) := rfl
    have hfirst : step ⟨.markup, p, rooted⟩ c = some (⟨.startName [c], p, rooted⟩, []) := by
      rw [step_of_isChar hchar, move, if_neg (hne '!' rfl), if_neg (hne '?' rfl), if_neg (hne '/' rfl), if_pos ⟨hc, hp⟩]
      rfl
    have hrest : ∀ v, ∀ d ∈ cs, step ⟨.startName v, p, rooted⟩ d = some (⟨.startName (v ++ [d]), p, rooted⟩, []) := by
      intro v d hd
      have hname := List.all_eq_true.mp hcs d hd
      exact (step_of_isChar (isChar_of_isNameChar hname) _).trans (if_pos hname)
    have hcollect := @run_collect (fun v => ⟨.startName v, p, rooted⟩) cs hrest [c]
    rw [run_cons hmarkup, run_cons hfirst, hcollect]
    rfl

theorem run_attribute {space : Bool} (ha : isName a = true) :
    run ⟨.tag n as (.between space), p, rooted⟩ (' ' :: a ++ ['=', '"']) =
      some (⟨.tag n as (.value a '"' []), p, rooted⟩, []) := by
  cases a with
  | nil => exact Bool.noConfusion ha
  | cons c cs =>
    obtain ⟨hc, hcs⟩ := Bool.and_eq_true_iff.mp ha
    have hne := fun d hd => @ne_of_isNameChar c d (isNameChar_of_isNameStart hc) hd
    have hwhite : ¬isWhite c = true := by
      rw [isWhite_of_isNameChar (isNameChar_of_isNameStart hc)]
      exact Bool.false_ne_true
    have hspace : step ⟨.tag n as (.between space), p, rooted⟩ ' ' =
        some (⟨.tag n as (.between true), p, rooted⟩, []) := rfl
    have hfirst : step ⟨.tag n as (.between true), p, rooted⟩ c = some (⟨.tag n as (.name [c]), p, rooted⟩, []) := by
      refine (step_of_isChar (isChar_of_isNameStart hc) _).trans ?_
      show tag _ n as (.between true) c = _
      rw [tag, if_neg hwhite, if_neg (hne '>' rfl), if_neg (hne '/' rfl), if_pos (by rw [hc]; rfl)]
      rfl
    have hrest : ∀ v, ∀ d ∈ cs, step ⟨.tag n as (.name v), p, rooted⟩ d =
        some (⟨.tag n as (.name (v ++ [d])), p, rooted⟩, []) := fun v d hd =>
      have hname := List.all_eq_true.mp hcs d hd
      (step_of_isChar (isChar_of_isNameChar hname) _).trans (if_pos hname)
    have hcollect := @run_collect (fun v => ⟨.tag n as (.name v), p, rooted⟩) cs hrest [c]
    have hequals : run ⟨.tag n as (.name (c :: cs)), p, rooted⟩ ['=', '"'] =
        some (⟨.tag n as (.value (c :: cs) '"' []), p, rooted⟩, []) := rfl
    have hbehind := run_both hcollect hequals
    rw [List.cons_append, List.cons_append, run_cons hspace, run_cons hfirst, hbehind]
    rfl

theorem run_value {v : List Char} (hv : ∀ c ∈ v, isPlain c = true) (ha : a ∉ as.map Prod.fst) :
    run ⟨.tag n as (.value a '"' []), p, rooted⟩ (v ++ ['"']) =
      some (⟨.tag n (as ++ [(a, v)]) (.between false), p, rooted⟩, []) := by
  have hkeep : ∀ w, ∀ c ∈ v, step ⟨.tag n as (.value a '"' w), p, rooted⟩ c =
      some (⟨.tag n as (.value a '"' (w ++ [c])), p, rooted⟩, []) := by
    intro w c hc
    have hplain := hv c hc
    obtain ⟨hchar, hless, hamp, hquote, -⟩ := isPlain_iff.mp hplain
    have hsame : (if isWhite c = true then ' ' else c) = c := by
      by_cases hspace : c = ' '
      · rw [hspace]
        rfl
      · rw [isWhite_of_isPlain hplain hspace, if_neg Bool.false_ne_true]
    refine (step_of_isChar hchar _).trans ?_
    show tag _ n as (.value a '"' w) c = _
    rw [tag, if_neg hquote, if_neg hless, if_neg hamp, hsame]
    rfl
  have hcollect := @run_collect (fun w => ⟨.tag n as (.value a '"' w), p, rooted⟩) v hkeep []
  have hclose : run ⟨.tag n as (.value a '"' v), p, rooted⟩ ['"'] =
      some (⟨.tag n (as ++ [(a, v)]) (.between false), p, rooted⟩, []) := run_one (if_neg ha)
  exact run_both hcollect hclose

theorem run_attributes {more : Attributes} (hnamed : ∀ a ∈ more, isName a.1 = true)
    (hplain : ∀ a ∈ more, ∀ c ∈ a.2, isPlain c = true) (honce : ((as ++ more).map Prod.fst).Nodup) :
    run ⟨.tag n as (.between false), p, rooted⟩ (more.flatMap attributeText) =
      some (⟨.tag n (as ++ more) (.between false), p, rooted⟩, []) := by
  induction more generalizing as with
  | nil => rw [List.append_nil, List.flatMap_nil, run]
  | cons a more ih =>
    obtain ⟨ha, hnamed⟩ := List.forall_mem_cons.mp hnamed
    obtain ⟨hvalue, hplain⟩ := List.forall_mem_cons.mp hplain
    have hnew : a.1 ∉ as.map Prod.fst := by
      rw [List.map_append, List.map_cons] at honce
      exact fun hmem => (List.nodup_append.mp honce).2.2 _ hmem _ List.mem_cons_self rfl
    have hregroup : as ++ a :: more = as ++ [a] ++ more := by rw [List.append_assoc, List.singleton_append]
    have htext : attributeText a = (' ' :: a.1 ++ ['=', '"']) ++ (a.2 ++ ['"']) := by simp [attributeText]
    have hone := run_both (@run_attribute p rooted n a.1 as false ha) (run_value hvalue hnew)
    rw [List.flatMap_cons, htext, hregroup]
    exact run_both hone (ih hnamed hplain (hregroup ▸ honce))

theorem run_inTag {k : ℕ} {d : Char} {ds : List Char} (hn : isName n = true) (hp : p ≠ [] ∨ rooted = false)
    (hd : isNameChar d = false) : run ⟨.content k, p, rooted⟩ ('<' :: n ++ as.flatMap attributeText ++ d :: ds) =
      run ⟨.tag n [] (.between false), p, rooted⟩ (as.flatMap attributeText ++ d :: ds) := by
  have hopen := @run_name p rooted n k hn hp
  have hbehind : ∀ c cs, isNameChar c = false →
      run ⟨.startName n, p, rooted⟩ (c :: cs) = run ⟨.tag n [] (.between false), p, rooted⟩ (c :: cs) := by
    intro c cs hc
    have hstep : step ⟨.startName n, p, rooted⟩ c = step ⟨.tag n [] (.between false), p, rooted⟩ c := by
      unfold step
      refine if_congr Iff.rfl ?_ rfl
      exact if_neg (by rw [hc]; exact Bool.false_ne_true)
    rw [run, run, hstep]
  rw [List.append_assoc, run_trans hopen]
  cases as with
  | nil =>
    rw [List.flatMap_nil, List.nil_append, hbehind d ds hd]
    exact Option.map_id'
  | cons a as =>
    obtain ⟨rest, hrest⟩ : ∃ rest, (a :: as).flatMap attributeText ++ d :: ds = ' ' :: rest := ⟨_, rfl⟩
    rw [hrest, hbehind ' ' rest rfl]
    exact Option.map_id'

theorem run_startTag {k : ℕ} (h : Writable n as) (hp : p ≠ [] ∨ rooted = false) :
    run ⟨.content k, p, rooted⟩ (startTag n as) = some (⟨.content 0, n :: p, true⟩, [.start (n :: p) as]) := by
  have hend : run ⟨.tag n as (.between false), p, rooted⟩ ['>'] =
      some (⟨.content 0, n :: p, true⟩, [.start (n :: p) as]) := rfl
  rw [startTag, run_inTag h.isName hp rfl]
  exact run_both (@run_attributes p rooted n [] as h.named h.plain h.once) hend

theorem run_opening {k : ℕ} (h : Writable n as) (hp : p ≠ [] ∨ rooted = false) (ha : isName a = true) :
    run ⟨.content k, p, rooted⟩ ('<' :: n ++ as.flatMap attributeText ++ (' ' :: a ++ ['=', '"'])) =
      some (⟨.tag n as (.value a '"' []), p, rooted⟩, []) := by
  have hcons : ' ' :: a ++ ['=', '"'] = ' ' :: (a ++ ['=', '"']) := rfl
  rw [hcons, run_inTag h.isName hp rfl]
  exact run_both (@run_attributes p rooted n [] as h.named h.plain h.once) (run_attribute ha)

theorem run_endTag {k : ℕ} (hn : isName n = true) :
    run ⟨.content k, n :: p, rooted⟩ (endTag n) = some (⟨.content 0, p, rooted⟩, [.stop (n :: p)]) := by
  cases n with
  | nil => exact Bool.noConfusion hn
  | cons c cs =>
    obtain ⟨hc, hcs⟩ := Bool.and_eq_true_iff.mp hn
    have hopen : run ⟨.content k, (c :: cs) :: p, rooted⟩ ['<', '/'] = some (⟨.endName [], (c :: cs) :: p, rooted⟩, []) :=
      rfl
    have hfirst : step ⟨.endName [], (c :: cs) :: p, rooted⟩ c = some (⟨.endName [c], (c :: cs) :: p, rooted⟩, []) :=
      (step_of_isChar (isChar_of_isNameStart hc) _).trans (if_pos hc)
    have hrest : ∀ v, ∀ d ∈ cs, step ⟨.endName (c :: v), (c :: cs) :: p, rooted⟩ d =
        some (⟨.endName (c :: (v ++ [d])), (c :: cs) :: p, rooted⟩, []) := fun v d hd =>
      have hname := List.all_eq_true.mp hcs d hd
      (step_of_isChar (isChar_of_isNameChar hname) _).trans (if_pos hname)
    have hcollect := @run_collect (fun v => ⟨.endName (c :: v), (c :: cs) :: p, rooted⟩) cs hrest []
    have hclose : run ⟨.endName (c :: cs), (c :: cs) :: p, rooted⟩ ['>'] =
        some (⟨.content 0, p, rooted⟩, [.stop ((c :: cs) :: p)]) :=
      run_one (show closed ⟨.endName (c :: cs), (c :: cs) :: p, rooted⟩ (c :: cs) = _ from if_pos rfl)
    have hname := run_both (run_both (run_one hfirst) hcollect) hclose
    exact run_both hopen hname

theorem run_data {cs : List Char} (hcs : ∀ c ∈ cs, isData c = true) (hp : p ≠ []) :
    run ⟨.content 0, p, rooted⟩ cs = some (⟨.content 0, p, rooted⟩, cs.map (.char p)) := by
  induction cs with
  | nil => rfl
  | cons c cs ih =>
    obtain ⟨hc, hcs⟩ := List.forall_mem_cons.mp hcs
    obtain ⟨hchar, hless, hamp, hbracket, -⟩ := isData_iff.mp hc
    have hstep : step ⟨.content 0, p, rooted⟩ c = some (⟨.content 0, p, rooted⟩, [.char p c]) := by
      refine (step_of_isChar hchar _).trans ?_
      show content _ 0 c = _
      have hlegal : ¬(c = '>' ∧ 0 = 2) := fun h => absurd h.2 (by decide)
      rw [content, if_neg hless, if_neg hp, if_neg hamp, if_neg hlegal, if_neg hbracket]
    rw [run_cons hstep, ih hcs]
    rfl

end State

/-! ## Documents -/

/-- What a document is written from. A leaf is an element with nothing but characters in it. -/
inductive Token
  | start (n : Name) (attributes : Attributes)
  | stop (n : Name)
  | data (cs : List Char)
  | leaf (n : Name) (attributes : Attributes) (cs : List Char)

namespace Token

def print : Token → List Char
  | start n attributes => startTag n attributes
  | stop n => endTag n
  | data cs => cs
  | leaf n attributes cs => startTag n attributes ++ cs ++ endTag n

def Fine : Token → Prop
  | start n attributes => Writable n attributes
  | stop n => isName n = true
  | data cs => ∀ c ∈ cs, isData c = true
  | leaf n attributes cs => Writable n attributes ∧ ∀ c ∈ cs, isData c = true

/-- The token opens an element of this name, to put other elements into it. -/
def opens (n : Name) : Token → Bool
  | start m _ => m = n
  | _ => false

theorem notMem_name {n : Name} (h : isName n = true) : '\r' ∉ n := by
  cases n with
  | nil => exact List.not_mem_nil
  | cons c cs =>
    obtain ⟨hc, hcs⟩ := Bool.and_eq_true_iff.mp h
    intro hmem
    rcases List.mem_cons.mp hmem with hmem | hmem
    · exact ne_of_isNameChar (isNameChar_of_isNameStart hc) (by decide) hmem.symm
    · exact ne_of_isNameChar (List.all_eq_true.mp hcs _ hmem) (by decide) rfl

theorem notMem_data {cs : List Char} (h : ∀ c ∈ cs, isData c = true) : '\r' ∉ cs := fun hmem =>
  (isData_iff.mp (h _ hmem)).2.2.2.2 rfl

theorem notMem_startTag {n : Name} {as : Attributes} (h : Writable n as) : '\r' ∉ startTag n as := by
  have hattributes : '\r' ∉ as.flatMap attributeText := by
    intro hmem
    obtain ⟨a, ha, hmem⟩ := List.mem_flatMap.mp hmem
    have hname := notMem_name (h.named a ha)
    have hvalue : '\r' ∉ a.2 := fun hc => (isPlain_iff.mp (h.plain a ha _ hc)).2.2.2.2.2.2 rfl
    simp [attributeText, hname, hvalue] at hmem
  have hname := notMem_name h.isName
  simp only [startTag, List.cons_append, List.mem_cons, List.mem_append, List.not_mem_nil, hattributes, hname,
    or_false, Char.reduceEq, not_false_eq_true]

theorem notMem_endTag {n : Name} (h : isName n = true) : '\r' ∉ endTag n := by
  have hname := notMem_name h
  simp [endTag, hname]

theorem Fine.notMem {t : Token} (h : t.Fine) : '\r' ∉ t.print := by
  cases t with
  | start n as => exact notMem_startTag h
  | stop n => exact notMem_endTag h
  | data cs => exact notMem_data h
  | leaf n as cs =>
    obtain ⟨htag, hcs⟩ := h
    simp [print, notMem_startTag htag, notMem_data hcs, notMem_endTag htag.isName]

end Token

/-- What tokens in an element are read as. -/
def play : List Name → List Token → Option (List Name × List Item)
  | p, [] => some (p, [])
  | p, .start n attributes :: ts => (play (n :: p) ts).map fun r => (r.1, .start (n :: p) attributes :: r.2)
  | p, .stop n :: ts =>
    if p.head? = some n ∧ p.tail ≠ [] then (play p.tail ts).map fun r => (r.1, .stop p :: r.2) else none
  | p, .data cs :: ts => (play p ts).map fun r => (r.1, cs.map (.char p) ++ r.2)
  | p, .leaf n attributes cs :: ts =>
    (play p ts).map fun r => (r.1, .start (n :: p) attributes :: (cs.map (.char (n :: p)) ++ .stop (n :: p) :: r.2))

theorem play_stop {n : Name} {p : List Name} (hp : p ≠ []) (ts : List Token) :
    play (n :: p) (.stop n :: ts) = (play p ts).map fun r => (r.1, .stop (n :: p) :: r.2) := if_pos ⟨rfl, hp⟩

/-- The leaves at one path. -/
def leaves (path : List Name) : List Name → List Token → List Element
  | _, [] => []
  | p, .start n _ :: ts => leaves path (n :: p) ts
  | p, .stop _ :: ts => leaves path p.tail ts
  | p, .data _ :: ts => leaves path p ts
  | p, .leaf n attributes cs :: ts =>
    if n :: p = path then ⟨path, attributes, cs⟩ :: leaves path p ts else leaves path p ts

theorem run_tokens {ts : List Token} {p q : List Name} {items : List Item} (hp : p ≠ [])
    (h : play p ts = some (q, items)) (hts : ∀ t ∈ ts, t.Fine) :
    State.run ⟨.content 0, p, true⟩ (ts.flatMap Token.print) = some (⟨.content 0, q, true⟩, items) := by
  induction ts generalizing p items with
  | nil =>
    obtain ⟨rfl, rfl⟩ := Prod.mk.inj (Option.some.inj h)
    rfl
  | cons t ts ih =>
    obtain ⟨ht, hrest⟩ := List.forall_mem_cons.mp hts
    rw [List.flatMap_cons]
    cases t with
    | start n as =>
      obtain ⟨⟨q', more⟩, hmore, heq⟩ := Option.map_eq_some_iff.mp h
      obtain ⟨rfl, rfl⟩ := Prod.mk.inj heq
      exact State.run_both (State.run_startTag ht (Or.inl hp)) (ih (List.cons_ne_nil _ _) hmore hrest)
    | stop n =>
      rw [play] at h
      split at h
      · rename_i hpath
        obtain ⟨⟨q', more⟩, hmore, heq⟩ := Option.map_eq_some_iff.mp h
        obtain ⟨rfl, rfl⟩ := Prod.mk.inj heq
        obtain ⟨hhead, htail⟩ := hpath
        obtain ⟨rest, rfl⟩ := List.head?_eq_some_iff.mp hhead
        exact State.run_both (State.run_endTag ht) (ih htail hmore hrest)
      · cases h
    | data cs =>
      obtain ⟨⟨q', more⟩, hmore, heq⟩ := Option.map_eq_some_iff.mp h
      obtain ⟨rfl, rfl⟩ := Prod.mk.inj heq
      exact State.run_both (State.run_data ht hp) (ih hp hmore hrest)
    | leaf n as cs =>
      obtain ⟨⟨q', more⟩, hmore, heq⟩ := Option.map_eq_some_iff.mp h
      obtain ⟨rfl, rfl⟩ := Prod.mk.inj heq
      obtain ⟨htag, hcs⟩ := ht
      have hopen := State.run_both (@State.run_startTag p true n as 0 htag (Or.inl hp))
        (State.run_data hcs (List.cons_ne_nil n p))
      have hleaf := State.run_both hopen (@State.run_endTag p true n 0 htag.isName)
      have hitems : .start (n :: p) as :: (cs.map (.char (n :: p)) ++ .stop (n :: p) :: more) =
          [.start (n :: p) as] ++ cs.map (.char (n :: p)) ++ [.stop (n :: p)] ++ more := by simp
      rw [hitems]
      exact State.run_both hleaf (ih hp hmore hrest)

theorem elements_tokens {n : Name} {path : List Name} {ts : List Token} {p q : List Name} {items : List Item}
    (h : play p ts = some (q, items)) (hts : ∀ t ∈ ts, t.opens n = false) (rest : List Item) :
    (elements (items ++ rest)).filter (fun e => decide (e.path = n :: path)) =
      leaves (n :: path) p ts ++ (elements rest).filter fun e => decide (e.path = n :: path) := by
  induction ts generalizing p items with
  | nil =>
    obtain ⟨rfl, rfl⟩ := Prod.mk.inj (Option.some.inj h)
    rfl
  | cons t ts ih =>
    obtain ⟨ht, htail⟩ := List.forall_mem_cons.mp hts
    cases t with
    | start m as =>
      obtain ⟨⟨q', more⟩, hmore, heq⟩ := Option.map_eq_some_iff.mp h
      obtain ⟨rfl, rfl⟩ := Prod.mk.inj heq
      have hother : ¬m :: p = n :: path := fun heq => of_decide_eq_false ht (List.cons.inj heq).1
      rw [List.cons_append, elements_start, List.filter_cons, if_neg (by simpa using hother), ih hmore htail, leaves]
    | stop m =>
      rw [play] at h
      split at h
      · obtain ⟨⟨q', more⟩, hmore, heq⟩ := Option.map_eq_some_iff.mp h
        obtain ⟨rfl, rfl⟩ := Prod.mk.inj heq
        rw [List.cons_append, elements_stop, ih hmore htail, leaves]
      · cases h
    | data cs =>
      obtain ⟨⟨q', more⟩, hmore, heq⟩ := Option.map_eq_some_iff.mp h
      obtain ⟨rfl, rfl⟩ := Prod.mk.inj heq
      rw [List.append_assoc, elements_chars, ih hmore htail, leaves]
    | leaf m as cs =>
      obtain ⟨⟨q', more⟩, hmore, heq⟩ := Option.map_eq_some_iff.mp h
      obtain ⟨rfl, rfl⟩ := Prod.mk.inj heq
      rw [List.cons_append, List.append_assoc, List.cons_append, elements_leaf, List.filter_cons, leaves]
      by_cases hpath : m :: p = n :: path
      · rw [if_pos (decide_eq_true hpath), if_pos hpath, ih hmore htail, hpath, List.cons_append]
      · rw [if_neg (by simpa using hpath), if_neg hpath, ih hmore htail]

theorem play_append {p q r : List Name} {ts us : List Token} {items more : List Item} (h : play p ts = some (q, items))
    (h' : play q us = some (r, more)) : play p (ts ++ us) = some (r, items ++ more) := by
  induction ts generalizing p items with
  | nil =>
    obtain ⟨rfl, rfl⟩ := Prod.mk.inj (Option.some.inj h)
    exact h'
  | cons t ts ih =>
    cases t with
    | start n as =>
      obtain ⟨⟨q', rest⟩, hrest, heq⟩ := Option.map_eq_some_iff.mp h
      obtain ⟨rfl, rfl⟩ := Prod.mk.inj heq
      rw [List.cons_append, play, ih hrest]
      rfl
    | stop n =>
      rw [play] at h
      split at h
      · rename_i hpath
        obtain ⟨⟨q', rest⟩, hrest, heq⟩ := Option.map_eq_some_iff.mp h
        obtain ⟨rfl, rfl⟩ := Prod.mk.inj heq
        rw [List.cons_append, play, if_pos hpath, ih hrest]
        rfl
      · cases h
    | data cs =>
      obtain ⟨⟨q', rest⟩, hrest, heq⟩ := Option.map_eq_some_iff.mp h
      obtain ⟨rfl, rfl⟩ := Prod.mk.inj heq
      rw [List.cons_append, play, ih hrest, Option.map_some, List.append_assoc]
    | leaf n as cs =>
      obtain ⟨⟨q', rest⟩, hrest, heq⟩ := Option.map_eq_some_iff.mp h
      obtain ⟨rfl, rfl⟩ := Prod.mk.inj heq
      rw [List.cons_append, play, ih hrest, Option.map_some, List.cons_append, List.append_assoc, List.cons_append]

theorem leaves_append {path p q : List Name} {ts : List Token} {items : List Item} (h : play p ts = some (q, items))
    (us : List Token) : leaves path p (ts ++ us) = leaves path p ts ++ leaves path q us := by
  induction ts generalizing p items with
  | nil =>
    obtain ⟨rfl, rfl⟩ := Prod.mk.inj (Option.some.inj h)
    rfl
  | cons t ts ih =>
    cases t with
    | start n as =>
      obtain ⟨⟨q', rest⟩, hrest, heq⟩ := Option.map_eq_some_iff.mp h
      obtain ⟨rfl, rfl⟩ := Prod.mk.inj heq
      exact ih hrest
    | stop n =>
      rw [play] at h
      split at h
      · obtain ⟨⟨q', rest⟩, hrest, heq⟩ := Option.map_eq_some_iff.mp h
        obtain ⟨rfl, rfl⟩ := Prod.mk.inj heq
        exact ih hrest
      · cases h
    | data cs =>
      obtain ⟨⟨q', rest⟩, hrest, heq⟩ := Option.map_eq_some_iff.mp h
      obtain ⟨rfl, rfl⟩ := Prod.mk.inj heq
      exact ih hrest
    | leaf n as cs =>
      obtain ⟨⟨q', rest⟩, hrest, heq⟩ := Option.map_eq_some_iff.mp h
      obtain ⟨rfl, rfl⟩ := Prod.mk.inj heq
      rw [List.cons_append, leaves, leaves, ih hrest]
      split
      · rfl
      · rfl

theorem run_front {root : Name} {as : Attributes} (h : Writable root as) :
    State.run ⟨.content 0, [], false⟩ ('\n' :: startTag root as) =
      some (⟨.content 0, [root], true⟩, [.start [root] as]) := by
  have hfeed : State.step ⟨.content 0, [], false⟩ '\n' = some (⟨.content 0, [], false⟩, []) := rfl
  rw [State.run_cons hfeed, State.run_startTag h (Or.inr rfl)]
  rfl

theorem run_back {root : Name} (h : isName root = true) :
    State.run ⟨.content 0, [root], true⟩ (endTag root ++ ['\n']) =
      some (⟨.content 0, [], true⟩, [.stop [root]]) := by
  have hfeed : State.run ⟨.content 0, [], true⟩ ['\n'] = some (⟨.content 0, [], true⟩, []) := rfl
  exact State.run_both (State.run_endTag h) hfeed

theorem read_declared (text : List Char) : read (xmlDeclaration ++ text) =
    (State.run ⟨.content 0, [], false⟩ (lines text)).bind fun r => if r.1.done then some r.2 else none := by
  have hdeclaration : '\r' ∉ xmlDeclaration := by decide
  rw [read, lines_append_of_notMem hdeclaration, if_pos (List.prefix_append _ _), List.drop_left]

theorem notMem_tokens {ts : List Token} (h : ∀ t ∈ ts, t.Fine) : '\r' ∉ ts.flatMap Token.print := fun hmem =>
  have ⟨t, ht, hmem⟩ := List.mem_flatMap.mp hmem
  (h t ht).notMem hmem

/-- A document with tokens in its root. -/
def document (root : Name) (attributes : Attributes) (ts : List Token) : List Char :=
  xmlDeclaration ++ ('\n' :: startTag root attributes ++ (ts.flatMap Token.print ++ (endTag root ++ ['\n'])))

theorem read_document {root : Name} {as : Attributes} {ts : List Token} {items : List Item} (hroot : Writable root as)
    (hplay : play [root] ts = some ([root], items)) (hts : ∀ t ∈ ts, t.Fine) :
    read (document root as ts) = some (.start [root] as :: (items ++ [.stop [root]])) := by
  have hfront : '\r' ∉ '\n' :: startTag root as := by
    simp [Token.notMem_startTag hroot]
  have hback : '\r' ∉ endTag root ++ ['\n'] := by
    simp [Token.notMem_endTag hroot.isName]
  have hlines : '\r' ∉ '\n' :: startTag root as ++ (ts.flatMap Token.print ++ (endTag root ++ ['\n'])) := fun hmem =>
    (List.mem_append.mp hmem).elim hfront fun hmem => (List.mem_append.mp hmem).elim (notMem_tokens hts) hback
  have hrun := State.run_both (run_front hroot)
    (State.run_both (run_tokens (List.cons_ne_nil _ _) hplay hts) (run_back hroot.isName))
  rw [document, read_declared, lines_of_notMem hlines, hrun]
  rfl

/-! ## What a value must look like -/

/-- An attribute value as it is written, and what it stands for. -/
inductive Means : List Char → List Char → Prop
  | nil : Means [] []
  | char {c r d} (hchar : isChar c = true) (hless : c ≠ '<') (hamp : c ≠ '&') :
    Means r d → Means (c :: r) ((if isWhite c then ' ' else c) :: d)
  | reference {e c r d} : Means r d → Means ('&' :: e ++ ';' :: r) (c :: d)

theorem Means.length_le {r d : List Char} (h : Means r d) : d.length ≤ r.length := by
  induction h with
  | nil => exact Nat.le_refl _
  | char hchar hless hamp h ih => exact Nat.succ_le_succ ih
  | reference h ih =>
    rw [List.length_cons, List.length_append, List.length_cons, List.length_cons]
    omega

theorem Means.of_length_eq {r d : List Char} (h : Means r d) (hlength : d.length = r.length) :
    d = r.map (fun c => if isWhite c then ' ' else c) ∧ ∀ c ∈ r, isChar c = true ∧ c ≠ '<' ∧ c ≠ '&' := by
  induction h with
  | nil => exact ⟨rfl, fun c hc => nomatch hc⟩
  | char hchar hless hamp h ih =>
    obtain ⟨hd, hr⟩ := ih (Nat.succ.inj hlength)
    exact ⟨by rw [List.map_cons, ← hd], List.forall_mem_cons.mpr ⟨⟨hchar, hless, hamp⟩, hr⟩⟩
  | @reference e c r d h ih =>
    have hle := h.length_le
    rw [List.length_cons, List.length_append, List.length_cons, List.length_cons] at hlength
    omega

theorem value_first {xs r rest rest' : List Char} (h : xs ++ '"' :: rest = r ++ '"' :: rest') (hr : '"' ∉ r) : r <+: xs := by
  rcases List.append_eq_append_iff.mp h with ⟨as, hr', has⟩ | ⟨cs, hxs, -⟩
  · cases as with
    | nil => exact ⟨[], by rw [hr']; simp⟩
    | cons c as =>
      rw [(List.cons.inj has).1] at hr
      exact absurd (hr' ▸ List.mem_append_right _ List.mem_cons_self) hr
  · exact ⟨cs, hxs.symm⟩

theorem isPlain_of_means {v r rest rest' : List Char} (h : lines v ++ '"' :: rest = r ++ '"' :: rest') (hr : '"' ∉ r)
    (hmeans : Means r v) : ∀ c ∈ v, isPlain c = true := by
  have hle := hmeans.length_le
  have hlines := length_lines_le v
  have hfirst := value_first h hr
  have hsame : r = lines v := hfirst.eq_of_length_le (by omega)
  rw [hsame] at hle
  obtain ⟨hv, hfree⟩ := hmeans.of_length_eq (by rw [hsame]; omega)
  have hwhite : ∀ c ∈ v, c = ' ' ∨ isWhite c = false := by
    intro c hc
    rw [hv] at hc
    obtain ⟨d, -, rfl⟩ := List.mem_map.mp hc
    cases hd : isWhite d with
    | true => exact Or.inl rfl
    | false => exact Or.inr hd
  have hreturn : '\r' ∉ v := fun hmem => by
    rcases hwhite _ hmem with heq | heq
    · exact absurd heq (by decide)
    · exact Bool.noConfusion heq
  rw [lines_of_notMem hreturn] at hsame
  subst hsame
  intro c hc
  obtain ⟨hchar, hless, hamp⟩ := hfree c hc
  have hcontrol : ∀ d, isWhite d = true → d ≠ ' ' → c ≠ d := by
    rintro d hd hspace rfl
    rcases hwhite c hc with heq | heq
    · exact hspace heq
    · rw [hd] at heq
      exact Bool.noConfusion heq
  exact isPlain_iff.mpr ⟨hchar, hless, hamp, fun hquote => hr (hquote ▸ hc), hcontrol '\t' rfl (by decide),
    hcontrol '\n' rfl (by decide), hcontrol '\r' rfl (by decide)⟩

namespace State

variable {p : List Name} {rooted : Bool} {n a : Name} {as : Attributes} {t : State} {items : List Item}

theorem run_cons_inv {s : State} {c : Char} {cs : List Char} (h : s.run (c :: cs) = some (t, items)) :
    isChar c = true ∧ ∃ u now later, s.move c = some (u, now) ∧ u.run cs = some (t, later) ∧ items = now ++ later := by
  rw [run] at h
  obtain ⟨⟨u, now⟩, hstep, h⟩ := Option.bind_eq_some_iff.mp h
  obtain ⟨⟨v, later⟩, hlater, heq⟩ := Option.map_eq_some_iff.mp h
  obtain ⟨rfl, rfl⟩ := Prod.mk.inj heq
  unfold step at hstep
  split at hstep
  · rename_i hchar
    exact ⟨hchar, u, now, later, hstep, hlater, rfl⟩
  · cases hstep

theorem goTo_inv {s u : State} {mode : Mode} {now : List Item} (h : s.goTo mode = some (u, now)) :
    u = { s with mode } ∧ now = [] := by
  obtain ⟨rfl, rfl⟩ := Prod.mk.inj (Option.some.inj h)
  exact ⟨rfl, rfl⟩

theorem run_reference_inv {q : Char} {v e cs : List Char} (hq : isReferenceChar q = false)
    (h : run ⟨.tag n as (.reference a q v e), p, rooted⟩ cs = some (t, items)) (ht : t.done = true) :
    ∃ e' r rest, cs = e' ++ ';' :: rest ∧ q ∉ e' ∧
      run ⟨.tag n as (.value a q (v ++ [r])), p, rooted⟩ rest = some (t, items) := by
  induction cs generalizing e with
  | nil =>
    obtain ⟨rfl, -⟩ := Prod.mk.inj (Option.some.inj h)
    exact Bool.noConfusion ht
  | cons c cs ih =>
    obtain ⟨-, u, now, later, hmove, hlater, rfl⟩ := run_cons_inv h
    change tag _ n as (.reference a q v e) c = some (u, now) at hmove
    rw [tag] at hmove
    split at hmove
    · rename_i hc
      obtain ⟨r, -, hgo⟩ := Option.bind_eq_some_iff.mp hmove
      obtain ⟨rfl, rfl⟩ := goTo_inv hgo
      exact ⟨[], r, cs, by rw [hc]; rfl, List.not_mem_nil, hlater⟩
    · split at hmove
      · rename_i hc
        obtain ⟨rfl, rfl⟩ := goTo_inv hmove
        obtain ⟨e', r, rest, rfl, hnot, hrest⟩ := ih hlater
        refine ⟨c :: e', r, rest, rfl, fun hmem => ?_, hrest⟩
        rcases List.mem_cons.mp hmem with rfl | hmem
        · rw [hq] at hc
          exact Bool.noConfusion hc
        · exact hnot hmem
      · cases hmove

theorem run_value_inv {q : Char} (hq : isReferenceChar q = false) (hsemicolon : q ≠ ';') {k : ℕ} {v cs : List Char}
    (hk : cs.length ≤ k)
    (h : run ⟨.tag n as (.value a q v), p, rooted⟩ cs = some (t, items)) (ht : t.done = true) :
    ∃ r d rest, cs = r ++ q :: rest ∧ q ∉ r ∧ Means r d ∧
      run ⟨.tag n (as ++ [(a, v ++ d)]) (.between false), p, rooted⟩ rest = some (t, items) := by
  induction k generalizing v cs with
  | zero =>
    rw [List.length_eq_zero_iff.mp (Nat.le_zero.mp hk)] at h
    obtain ⟨rfl, -⟩ := Prod.mk.inj (Option.some.inj h)
    exact Bool.noConfusion ht
  | succ k ih =>
    cases cs with
    | nil =>
      obtain ⟨rfl, -⟩ := Prod.mk.inj (Option.some.inj h)
      exact Bool.noConfusion ht
    | cons c cs =>
      rw [List.length_cons] at hk
      obtain ⟨hchar, u, now, later, hmove, hlater, rfl⟩ := run_cons_inv h
      change tag _ n as (.value a q v) c = some (u, now) at hmove
      rw [tag] at hmove
      split at hmove
      · rename_i hc
        split at hmove
        · cases hmove
        · obtain ⟨rfl, rfl⟩ := goTo_inv hmove
          exact ⟨[], [], cs, by rw [hc]; rfl, List.not_mem_nil, .nil, by rw [List.append_nil]; exact hlater⟩
      · rename_i hc
        split at hmove
        · cases hmove
        · rename_i hless
          split at hmove
          · rename_i hamp
            obtain ⟨rfl, rfl⟩ := goTo_inv hmove
            obtain ⟨e, c', rest, rfl, hnot, hrest⟩ := run_reference_inv hq hlater ht
            rw [List.length_append, List.length_cons] at hk
            obtain ⟨r, d, rest', rfl, hnot', hmeans, hrest'⟩ := ih (by omega) hrest
            refine ⟨'&' :: e ++ ';' :: r, c' :: d, rest', by simp [hamp], ?_, .reference hmeans, ?_⟩
            · have hampq : q ≠ '&' := fun heq => hc (by rw [heq, hamp])
              simp [hnot, hnot', hsemicolon, hampq]
            · rw [List.append_assoc] at hrest'
              exact hrest'
          · rename_i hamp
            obtain ⟨rfl, rfl⟩ := goTo_inv hmove
            obtain ⟨r, d, rest, rfl, hnot, hmeans, hrest⟩ := ih (by omega) hlater
            refine ⟨c :: r, _ :: d, rest, rfl, ?_, .char hchar hless hamp hmeans, ?_⟩
            · intro hmem
              rcases List.mem_cons.mp hmem with hmem | hmem
              · exact hc hmem.symm
              · exact hnot hmem
            · rw [List.append_assoc] at hrest
              exact hrest

theorem tag_inv {s u : State} {part : TagPart} {c : Char} {now : List Item} (h : s.tag n as part c = some (u, now)) :
    (∃ more part', u = { s with mode := .tag n (as ++ more) part' } ∧ now = []) ∨
    ∃ later, now = .start (n :: s.path) as :: later := by
  have hgo : ∀ {more part'}, s.goTo (.tag n (as ++ more) part') = some (u, now) →
      ∃ more part', u = { s with mode := .tag n (as ++ more) part' } ∧ now = [] := fun h => ⟨_, _, goTo_inv h⟩
  have hstay : ∀ {part'}, s.goTo (.tag n as part') = some (u, now) →
      ∃ more part', u = { s with mode := .tag n (as ++ more) part' } ∧ now = [] := fun h =>
    @hgo [] _ (by rw [List.append_nil]; exact h)
  cases part with
  | between space =>
    rw [tag] at h
    split at h
    · exact Or.inl (hstay h)
    split at h
    · obtain ⟨-, rfl⟩ := Prod.mk.inj (Option.some.inj h)
      exact Or.inr ⟨[], rfl⟩
    split at h
    · exact Or.inl (hstay h)
    split at h
    · exact Or.inl (hstay h)
    · cases h
  | name b =>
    rw [tag] at h
    split at h
    · exact Or.inl (hstay h)
    split at h
    · exact Or.inl (hstay h)
    split at h
    · exact Or.inl (hstay h)
    · cases h
  | equals b =>
    rw [tag] at h
    split at h
    · exact Or.inl (hstay h)
    split at h
    · exact Or.inl (hstay h)
    · cases h
  | quote b =>
    rw [tag] at h
    split at h
    · exact Or.inl (hstay h)
    split at h
    · exact Or.inl (hstay h)
    · cases h
  | value b q v =>
    rw [tag] at h
    split at h
    · split at h
      · cases h
      · exact Or.inl (hgo h)
    split at h
    · cases h
    split at h
    · exact Or.inl (hstay h)
    · exact Or.inl (hstay h)
  | reference b q v e =>
    rw [tag] at h
    split at h
    · obtain ⟨r, -, h⟩ := Option.bind_eq_some_iff.mp h
      exact Or.inl (hstay h)
    split at h
    · exact Or.inl (hstay h)
    · cases h
  | slash =>
    rw [tag] at h
    split at h
    · obtain ⟨-, rfl⟩ := Prod.mk.inj (Option.some.inj h)
      exact Or.inr ⟨[.stop (n :: s.path)], rfl⟩
    · cases h

theorem run_tag_inv {part : TagPart} {cs : List Char} (h : run ⟨.tag n as part, p, rooted⟩ cs = some (t, items))
    (ht : t.done = true) : ∃ more later, items = .start (n :: p) (as ++ more) :: later := by
  induction cs generalizing as part items with
  | nil =>
    obtain ⟨rfl, -⟩ := Prod.mk.inj (Option.some.inj h)
    exact Bool.noConfusion ht
  | cons c cs ih =>
    obtain ⟨-, u, now, later, hmove, hlater, rfl⟩ := run_cons_inv h
    change tag _ n as part c = some (u, now) at hmove
    rcases tag_inv hmove with ⟨more, part', rfl, rfl⟩ | ⟨rest, rfl⟩
    · obtain ⟨more', later', heq⟩ := ih hlater
      exact ⟨more ++ more', later', by rw [List.nil_append, heq, List.append_assoc]⟩
    · exact ⟨[], rest ++ later, by rw [List.append_nil, List.cons_append]⟩

/-- The value of an attribute in a document, and what its element begins with. -/
theorem run_opening_inv {k : ℕ} {cs : List Char} (hn : Writable n as) (hp : p ≠ []) (ha : isName a = true)
    (h : run ⟨.content k, p, rooted⟩ ('<' :: n ++ as.flatMap attributeText ++ (' ' :: a ++ ['=', '"']) ++ cs) =
      some (t, items)) (ht : t.done = true) :
    ∃ r d rest more later, cs = r ++ '"' :: rest ∧ '"' ∉ r ∧ Means r d ∧
      items = .start (n :: p) (as ++ [(a, d)] ++ more) :: later := by
  obtain ⟨items', hvalue, rfl⟩ := run_rest (@run_opening p rooted n a as k hn (Or.inl hp) ha) h
  obtain ⟨r, d, rest, hcs, hr, hmeans, htag⟩ := run_value_inv rfl (by decide) (Nat.le_refl _) hvalue ht
  obtain ⟨more, later, rfl⟩ := run_tag_inv htag ht
  exact ⟨r, d, rest, more, later, hcs, hr, hmeans, rfl⟩

end State

end Souxmar.Lib.Xml
