import Souxmar.Plugins.VtuWriter

/-!
# The document of the VTU writer

The text of the writer is that of a document: a piece with groups of data arrays in it. It is read back array by array
when the attributes and the numbers have no characters that are special in XML; and when it is well-formed at all, the
name of the first array in a group is a value that can stand there.
-/

namespace Souxmar.Plugins.Vtu

open Souxmar.Core Souxmar.Lib Souxmar.Lib.Xml

/-! ## Names -/

def vtkFile : Name := "VTKFile".toList

def unstructuredGrid : Name := "UnstructuredGrid".toList

def piece : Name := "Piece".toList

def dataArray : Name := "DataArray".toList

/-- Where the groups of data arrays are. -/
def place : List Name := [piece, unstructuredGrid, vtkFile]

theorem place_ne : place ≠ [] := List.cons_ne_nil _ _

def rootAttributes : Attributes :=
  [("type".toList, "UnstructuredGrid".toList), ("version".toList, "1.0".toList),
    ("byte_order".toList, "LittleEndian".toList)]

def pieceAttributes (numNodes numCells : ℕ) : Attributes :=
  [("NumberOfPoints".toList, decimal numNodes), ("NumberOfCells".toList, decimal numCells)]

/-! ## Groups -/

/-- A data array: its attributes, and the numbers as they are written. -/
structure DataArray where
  attributes : Attributes
  body : List Char

structure Group where
  name : Name
  arrays : List DataArray

def DataArray.text (a : DataArray) : List Char := "\n          ".toList ++ a.body ++ "\n        ".toList

def DataArray.tokens (a : DataArray) : List Token :=
  [.data "        ".toList, .leaf dataArray a.attributes a.text, .data "\n".toList]

def DataArray.element (group : Name) (a : DataArray) : Element := ⟨dataArray :: group :: place, a.attributes, a.text⟩

def Group.tokens (g : Group) : List Token :=
  .data "      ".toList :: .start g.name [] :: .data "\n".toList ::
    (g.arrays.flatMap DataArray.tokens ++ [.data "      ".toList, .stop g.name, .data "\n".toList])

def opening (numNodes numCells : ℕ) : List Token :=
  [.data "\n  ".toList, .start unstructuredGrid [], .data "\n    ".toList,
    .start piece (pieceAttributes numNodes numCells), .data "\n".toList]

def closing : List Token :=
  [.data "    ".toList, .stop piece, .data "\n  ".toList, .stop unstructuredGrid, .data "\n".toList]

def gridTokens (numNodes numCells : ℕ) (groups : List Group) : List Token :=
  opening numNodes numCells ++ groups.flatMap Group.tokens ++ closing

/-- The text of a grid with these groups. -/
def gridText (numNodes numCells : ℕ) (groups : List Group) : List Char :=
  document vtkFile rootAttributes (gridTokens numNodes numCells groups)

structure DataArray.Fine (a : DataArray) : Prop where
  writable : Writable dataArray a.attributes
  data : ∀ c ∈ a.body, isData c = true

structure Group.Fine (g : Group) : Prop where
  isName : isName g.name = true
  other : g.name ≠ dataArray
  arrays : ∀ a ∈ g.arrays, a.Fine

/-! ## Reading a grid -/

theorem isNumeral_range {c : Char} (h : isNumeral c = true) : 0x20 ≤ c.toNat ∧ c.toNat ≤ 0xFFFD := by
  simp only [isNumeral, Bool.or_eq_true, decide_eq_true_eq] at h
  rcases h with ((halnum | rfl) | rfl) | rfl
  · rcases Bool.or_eq_true_iff.mp halnum with halpha | hdigit
    · rcases Bool.or_eq_true_iff.mp halpha with hupper | hlower
      · have hbounds : 65 ≤ c.toNat ∧ c.toNat ≤ 90 := of_decide_eq_true hupper
        omega
      · have hbounds : 97 ≤ c.toNat ∧ c.toNat ≤ 122 := by
          obtain ⟨hlow, hhigh⟩ := Bool.and_eq_true_iff.mp hlower
          exact ⟨of_decide_eq_true hlow, of_decide_eq_true hhigh⟩
        omega
    · have hbounds : 48 ≤ c.toNat ∧ c.toNat ≤ 57 := Char.isDigit_iff_toNat.mp hdigit
      omega
  all_goals decide

theorem isChar_of_isNumeral {c : Char} (h : isNumeral c = true) : isChar c = true := by
  obtain ⟨hlow, hhigh⟩ := isNumeral_range h
  simp [isChar, hlow, hhigh]

theorem ne_of_isNumeral {c d : Char} (h : isNumeral c = true) (hd : isNumeral d = false) : c ≠ d := fun hcd => by
  rw [hcd, hd] at h
  exact Bool.noConfusion h

theorem isPlain_of_isNumeral {c : Char} (h : isNumeral c = true) : isPlain c = true := by
  have hne := fun d hd => @ne_of_isNumeral c d h hd
  exact isPlain_iff.mpr ⟨isChar_of_isNumeral h, hne '<' rfl, hne '&' rfl, hne '"' rfl, hne '\t' rfl, hne '\n' rfl,
    hne '\r' rfl⟩

theorem isData_of_isNumeral {c : Char} (h : isNumeral c = true) : isData c = true := by
  have hne := fun d hd => @ne_of_isNumeral c d h hd
  exact isData_iff.mpr ⟨isChar_of_isNumeral h, hne '<' rfl, hne '&' rfl, hne ']' rfl, hne '\r' rfl⟩

theorem isSpace_of_isNumeral {c : Char} (h : isNumeral c = true) : Stream.isSpace c = false := by
  have hne := fun d hd => @ne_of_isNumeral c d h hd
  unfold Stream.isSpace
  rw [decide_eq_false (hne ' ' rfl), decide_eq_false (hne '\t' rfl), decide_eq_false (hne '\n' rfl),
    decide_eq_false (hne '\x0b' rfl), decide_eq_false (hne '\x0c' rfl), decide_eq_false (hne '\r' rfl)]
  rfl

theorem isNumeral_decimal {n : ℕ} : ∀ c ∈ decimal n, isNumeral c = true := by
  intro c hc
  have hdigit : c.isDigit = true := Nat.isDigit_of_mem_toDigits (by omega) (by omega) hc
  simp [isNumeral, Char.isAlphanum, hdigit]

theorem isData_blank : (∀ c ∈ "\n          ".toList, isData c = true) ∧ ∀ c ∈ "\n        ".toList, isData c = true := by
  decide

theorem DataArray.Fine.tokens {a : DataArray} (h : a.Fine) : ∀ t ∈ a.tokens, t.Fine := by
  have hbefore : ∀ c ∈ "        ".toList, isData c = true := by decide
  have hbehind : ∀ c ∈ "\n".toList, isData c = true := by decide
  have htext : ∀ c ∈ a.text, isData c = true := by
    intro c hc
    rcases List.mem_append.mp hc with hc | hc
    · rcases List.mem_append.mp hc with hc | hc
      · exact isData_blank.1 c hc
      · exact h.data c hc
    · exact isData_blank.2 c hc
  exact List.forall_mem_cons.mpr ⟨hbefore, List.forall_mem_cons.mpr ⟨⟨h.writable, htext⟩,
    List.forall_mem_cons.mpr ⟨hbehind, fun t ht => nomatch ht⟩⟩⟩

theorem Group.Fine.tokens {g : Group} (h : g.Fine) : ∀ t ∈ g.tokens, t.Fine := by
  have hindent : ∀ c ∈ "      ".toList, isData c = true := by decide
  have hfeed : ∀ c ∈ "\n".toList, isData c = true := by decide
  have hstart : Writable g.name [] := .bare h.isName
  intro t ht
  rcases List.mem_cons.mp ht with rfl | ht
  · exact hindent
  rcases List.mem_cons.mp ht with rfl | ht
  · exact hstart
  rcases List.mem_cons.mp ht with rfl | ht
  · exact hfeed
  rcases List.mem_append.mp ht with ht | ht
  · obtain ⟨a, ha, ht⟩ := List.mem_flatMap.mp ht
    exact (h.arrays a ha).tokens t ht
  rcases List.mem_cons.mp ht with rfl | ht
  · exact hindent
  rcases List.mem_cons.mp ht with rfl | ht
  · exact h.isName
  · rw [List.mem_singleton.mp ht]
    exact hfeed

theorem writable_root : Writable vtkFile rootAttributes := writable_of_canWrite (by decide)

theorem writable_piece (numNodes numCells : ℕ) : Writable piece (pieceAttributes numNodes numCells) where
  isName := by decide
  named := List.forall_mem_cons.mpr ⟨show Xml.isName "NumberOfPoints".toList = true by decide,
    List.forall_mem_singleton.mpr (show Xml.isName "NumberOfCells".toList = true by decide)⟩
  plain := List.forall_mem_cons.mpr ⟨fun c hc => isPlain_of_isNumeral (isNumeral_decimal c hc),
    List.forall_mem_singleton.mpr fun c hc => isPlain_of_isNumeral (isNumeral_decimal c hc)⟩
  once := by
    show ["NumberOfPoints".toList, "NumberOfCells".toList].Nodup
    decide

theorem opening_fine (numNodes numCells : ℕ) : ∀ t ∈ opening numNodes numCells, t.Fine := by
  have hdata : ∀ c ∈ "\n  ".toList ++ "\n    ".toList ++ "\n".toList, isData c = true := by decide
  have hgrid : Writable unstructuredGrid [] := .bare (by decide)
  have hparts := fun c hc => hdata c (List.mem_append_left _ hc)
  exact List.forall_mem_cons.mpr ⟨fun c hc => hparts c (List.mem_append_left _ hc),
    List.forall_mem_cons.mpr ⟨hgrid, List.forall_mem_cons.mpr ⟨fun c hc => hparts c (List.mem_append_right _ hc),
      List.forall_mem_cons.mpr ⟨writable_piece numNodes numCells,
        List.forall_mem_singleton.mpr fun c hc => hdata c (List.mem_append_right _ hc)⟩⟩⟩⟩

theorem closing_fine : ∀ t ∈ closing, t.Fine := by
  have hdata : ∀ c ∈ "    ".toList ++ "\n  ".toList ++ "\n".toList, isData c = true := by decide
  have hparts := fun c hc => hdata c (List.mem_append_left _ hc)
  exact List.forall_mem_cons.mpr ⟨fun c hc => hparts c (List.mem_append_left _ hc),
    List.forall_mem_cons.mpr ⟨(by decide : isName piece = true),
      List.forall_mem_cons.mpr ⟨fun c hc => hparts c (List.mem_append_right _ hc),
        List.forall_mem_cons.mpr ⟨(by decide : isName unstructuredGrid = true),
          List.forall_mem_singleton.mpr fun c hc => hdata c (List.mem_append_right _ hc)⟩⟩⟩⟩

theorem play_arrays (p : List Name) (as : List DataArray) :
    ∃ items, play p (as.flatMap DataArray.tokens) = some (p, items) := by
  induction as with
  | nil => exact ⟨[], rfl⟩
  | cons a as ih =>
    obtain ⟨items, hitems⟩ := ih
    exact ⟨_, play_append (show play p a.tokens = some (p, _) from rfl) hitems⟩

theorem leaves_arrays (n m : Name) (as : List DataArray) :
    leaves (dataArray :: n :: place) (m :: place) (as.flatMap DataArray.tokens) =
      if m = n then as.map (DataArray.element n) else [] := by
  induction as with
  | nil => exact (ite_self []).symm
  | cons a as ih =>
    have hone : leaves (dataArray :: n :: place) (m :: place) a.tokens = if m = n then [a.element n] else [] := by
      rw [DataArray.tokens, leaves, leaves, leaves, leaves]
      refine if_congr ⟨fun h => (List.cons.inj (List.cons.inj h).2).1, fun h => by rw [h]⟩ rfl rfl
    rw [List.flatMap_cons, leaves_append (show play (m :: place) a.tokens = some (m :: place, _) from rfl), hone, ih]
    by_cases hname : m = n
    · rw [if_pos hname, if_pos hname, if_pos hname]
      rfl
    · rw [if_neg hname, if_neg hname, if_neg hname]
      rfl

theorem play_group (g : Group) : ∃ items, play place g.tokens = some (place, items) := by
  obtain ⟨items, hitems⟩ := play_arrays (g.name :: place) g.arrays
  obtain ⟨last, hlast⟩ : ∃ last, play (g.name :: place) [.data "      ".toList, .stop g.name, .data "\n".toList] =
      some (place, last) := by
    apply Exists.intro
    rw [play, play_stop place_ne]
    exact rfl
  have hinner := play_append hitems hlast
  apply Exists.intro
  rw [Group.tokens, play, play, play, hinner]
  exact rfl

/-- What a group has at a path. -/
def Group.elements (n : Name) (g : Group) : List Element := if g.name = n then g.arrays.map (DataArray.element n) else []

theorem leaves_group (n : Name) (g : Group) : leaves (dataArray :: n :: place) place g.tokens = g.elements n := by
  obtain ⟨items, hitems⟩ := play_arrays (g.name :: place) g.arrays
  rw [Group.tokens, leaves, leaves, leaves, leaves_append hitems, leaves_arrays]
  exact List.append_nil _

theorem play_groups (groups : List Group) : ∃ items, play place (groups.flatMap Group.tokens) = some (place, items) := by
  induction groups with
  | nil => exact ⟨[], rfl⟩
  | cons g groups ih =>
    obtain ⟨items, hitems⟩ := ih
    obtain ⟨first, hfirst⟩ := play_group g
    exact ⟨_, play_append hfirst hitems⟩

theorem leaves_groups (n : Name) (groups : List Group) :
    leaves (dataArray :: n :: place) place (groups.flatMap Group.tokens) = groups.flatMap (Group.elements n) := by
  induction groups with
  | nil => rfl
  | cons g groups ih =>
    obtain ⟨items, hitems⟩ := play_group g
    rw [List.flatMap_cons, leaves_append hitems, leaves_group, ih, List.flatMap_cons]

theorem play_opening (numNodes numCells : ℕ) : ∃ items, play [vtkFile] (opening numNodes numCells) = some (place, items) :=
  ⟨_, rfl⟩

theorem play_closing : ∃ items, play place closing = some ([vtkFile], items) := by
  apply Exists.intro
  rw [closing, play, place, play_stop (List.cons_ne_nil _ _), play, play_stop (List.cons_ne_nil _ _), play, play]
  exact rfl

theorem opens_tokens {numNodes numCells : ℕ} {groups : List Group} (h : ∀ g ∈ groups, g.name ≠ dataArray) :
    ∀ t ∈ gridTokens numNodes numCells groups, t.opens dataArray = false := by
  have harray : ∀ (a : DataArray), ∀ t ∈ a.tokens, t.opens dataArray = false := fun a => by
    simp [DataArray.tokens, Token.opens]
  have hgroup : ∀ g ∈ groups, ∀ t ∈ g.tokens, t.opens dataArray = false := by
    intro g hg
    have hname : Token.opens dataArray (.start g.name []) = false := decide_eq_false (h g hg)
    have harrays : ∀ t ∈ g.arrays.flatMap DataArray.tokens, t.opens dataArray = false := fun t ht =>
      have ⟨a, _, ht⟩ := List.mem_flatMap.mp ht
      harray a t ht
    have hend : ∀ t ∈ [Token.data "      ".toList, .stop g.name, .data "\n".toList], t.opens dataArray = false := by
      simp [Token.opens]
    exact List.forall_mem_cons.mpr ⟨rfl, List.forall_mem_cons.mpr ⟨hname, List.forall_mem_cons.mpr ⟨rfl,
      List.forall_mem_append.mpr ⟨harrays, hend⟩⟩⟩⟩
  have hopening : ∀ t ∈ opening numNodes numCells, t.opens dataArray = false := by
    have hgrid : ¬unstructuredGrid = dataArray := by decide
    have hpiece : ¬piece = dataArray := by decide
    simp [opening, Token.opens, hgrid, hpiece]
  have hclosing : ∀ t ∈ closing, t.opens dataArray = false := by simp [closing, Token.opens]
  intro t ht
  rcases List.mem_append.mp ht with ht | ht
  · rcases List.mem_append.mp ht with ht | ht
    · exact hopening t ht
    · obtain ⟨g, hg, ht⟩ := List.mem_flatMap.mp ht
      exact hgroup g hg t ht
  · exact hclosing t ht

theorem gridTokens_fine {numNodes numCells : ℕ} {groups : List Group} (h : ∀ g ∈ groups, g.Fine) :
    ∀ t ∈ gridTokens numNodes numCells groups, t.Fine := by
  have hgroups : ∀ t ∈ groups.flatMap Group.tokens, t.Fine := fun t ht =>
    have ⟨g, hg, ht⟩ := List.mem_flatMap.mp ht
    (h g hg).tokens t ht
  exact List.forall_mem_append.mpr ⟨List.forall_mem_append.mpr ⟨opening_fine numNodes numCells, hgroups⟩, closing_fine⟩

theorem arrays_front {ts : List Token} {q : List Name} {inner : List Item} (hplay : play [vtkFile] ts = some (q, inner))
    (hopens : ∀ t ∈ ts, t.opens dataArray = false) (attributes : Attributes) (n : Name) (rest : List Item) :
    arrays n (Xml.elements (.start [vtkFile] attributes :: (inner ++ rest))) =
      leaves (dataArray :: n :: place) [vtkFile] ts ++ arrays n (Xml.elements rest) := by
  have hroot : ¬[vtkFile] = dataArray :: n :: place := fun heq => List.cons_ne_nil _ _ (List.cons.inj heq).2.symm
  have helements := @elements_tokens dataArray (n :: place) _ _ _ _ hplay hopens rest
  show List.filter (fun e => decide (e.path = dataArray :: n :: place)) (Xml.elements (.start [vtkFile] _ :: _)) = _
  rw [elements_start, List.filter_cons, if_neg fun heq => hroot (of_decide_eq_true heq), helements]
  rfl

theorem read_grid {numNodes numCells : ℕ} {groups : List Group} (h : ∀ g ∈ groups, g.Fine) :
    ∃ items, Xml.read (gridText numNodes numCells groups) = some items ∧
      ∀ n, arrays n (Xml.elements items) = groups.flatMap (Group.elements n) := by
  obtain ⟨first, hfirst⟩ := play_opening numNodes numCells
  obtain ⟨inner, hinner⟩ := play_groups groups
  obtain ⟨last, hlast⟩ := play_closing
  have hfront := play_append hfirst hinner
  have hplay := play_append hfront hlast
  refine ⟨_, read_document writable_root hplay (gridTokens_fine h), fun n => ?_⟩
  have hopening : leaves (dataArray :: n :: place) [vtkFile] (opening numNodes numCells) = [] := rfl
  have hclosing : leaves (dataArray :: n :: place) place closing = [] := rfl
  rw [arrays_front hplay (opens_tokens fun g hg => (h g hg).other), leaves_append hfront, leaves_append hfirst, hopening,
    leaves_groups, hclosing, List.nil_append, List.append_nil]
  exact List.append_nil _

/-! ## The name of an array -/

/-- The tokens up to the first array of a group. -/
def upTo (numNodes numCells : ℕ) (before : List Group) (n : Name) : List Token :=
  opening numNodes numCells ++ before.flatMap Group.tokens ++
    [.data "      ".toList, .start n [], .data "\n".toList, .data "        ".toList]

theorem upTo_fine {numNodes numCells : ℕ} {before : List Group} {n : Name} (h : ∀ g ∈ before, g.Fine)
    (hn : isName n = true) : ∀ t ∈ upTo numNodes numCells before n, t.Fine := by
  have hdata : ∀ c ∈ "      ".toList ++ "\n".toList ++ "        ".toList, isData c = true := by decide
  have hparts := fun c hc => hdata c (List.mem_append_left _ hc)
  have hgrid := @gridTokens_fine numNodes numCells before h
  refine List.forall_mem_append.mpr ⟨fun t ht => hgrid t (List.mem_append_left _ ht), ?_⟩
  exact List.forall_mem_cons.mpr ⟨fun c hc => hparts c (List.mem_append_left _ hc),
    List.forall_mem_cons.mpr ⟨.bare hn, List.forall_mem_cons.mpr ⟨fun c hc => hparts c (List.mem_append_right _ hc),
      List.forall_mem_singleton.mpr fun c hc => hdata c (List.mem_append_right _ hc)⟩⟩⟩

theorem upTo_opens {numNodes numCells : ℕ} {before : List Group} {n : Name} (h : ∀ g ∈ before, g.name ≠ dataArray)
    (hn : n ≠ dataArray) : ∀ t ∈ upTo numNodes numCells before n, t.opens dataArray = false := by
  have hgrid := @opens_tokens numNodes numCells before h
  have hstart : Token.opens dataArray (.start n []) = false := decide_eq_false hn
  refine List.forall_mem_append.mpr ⟨fun t ht => hgrid t (List.mem_append_left _ ht), ?_⟩
  exact List.forall_mem_cons.mpr ⟨rfl, List.forall_mem_cons.mpr ⟨hstart, by simp [Token.opens]⟩⟩

theorem play_upTo (numNodes numCells : ℕ) (before : List Group) (n : Name) :
    ∃ items, play [vtkFile] (upTo numNodes numCells before n) = some (n :: place, items) := by
  obtain ⟨first, hfirst⟩ := play_opening numNodes numCells
  obtain ⟨inner, hinner⟩ := play_groups before
  have hend : play place [.data "      ".toList, .start n [], .data "\n".toList, .data "        ".toList] =
    some (n :: place, _) := rfl
  exact ⟨_, play_append (play_append hfirst hinner) hend⟩

theorem leaves_upTo (numNodes numCells : ℕ) {before : List Group} {n : Name} (h : ∀ b ∈ before, b.name ≠ n) :
    leaves (dataArray :: n :: place) [vtkFile] (upTo numNodes numCells before n) = [] := by
  obtain ⟨first, hfirst⟩ := play_opening numNodes numCells
  obtain ⟨inner, hinner⟩ := play_groups before
  have hnone : before.flatMap (Group.elements n) = [] := List.flatMap_eq_nil_iff.mpr fun b hb => if_neg (h b hb)
  have hopening : leaves (dataArray :: n :: place) [vtkFile] (opening numNodes numCells) = [] := rfl
  rw [upTo, leaves_append (play_append hfirst hinner), leaves_append hfirst, hopening, leaves_groups, hnone]
  rfl

theorem gridText_upTo (numNodes numCells : ℕ) (before after : List Group) {g : Group} {type : Name × List Char}
    {v body : List Char} {more : Attributes} {rest : List DataArray}
    (harrays : g.arrays = ⟨type :: ("Name".toList, v) :: more, body⟩ :: rest) :
    ∃ tail, gridText numNodes numCells (before ++ g :: after) = xmlDeclaration ++
      ('\n' :: startTag vtkFile rootAttributes ++ (upTo numNodes numCells before g.name).flatMap Token.print ++
        ('<' :: dataArray ++ [type].flatMap attributeText ++ (' ' :: "Name".toList ++ ['=', '"']) ++
          (v ++ '"' :: tail))) := by
  apply Exists.intro
  simp only [gridText, document, gridTokens, upTo, Group.tokens, DataArray.tokens, harrays, List.flatMap_append,
    List.flatMap_cons, List.flatMap_nil, List.cons_append, List.nil_append, List.append_assoc, Token.print, startTag,
    attributeText]
  rfl

/-- When the document is well-formed, the name of the first array in a group is one that can stand there. -/
theorem name_of_read {numNodes numCells : ℕ} {before after : List Group} {g : Group} {type : Name × List Char}
    {v body : List Char} {more : Attributes} {rest : List DataArray} {items : List Item}
    (hbefore : ∀ b ∈ before, b.Fine ∧ b.name ≠ g.name) (hname : isName g.name = true) (hgroup : g.name ≠ dataArray)
    (htype : Writable dataArray [type]) (harrays : g.arrays = ⟨type :: ("Name".toList, v) :: more, body⟩ :: rest)
    (hread : Xml.read (gridText numNodes numCells (before ++ g :: after)) = some items) :
    ∃ r d tail tail' more' later, lines v ++ '"' :: tail = r ++ '"' :: tail' ∧ '"' ∉ r ∧ Means r d ∧
      (arrays g.name (Xml.elements items)).map Element.attributes = (type :: ("Name".toList, d) :: more') :: later := by
  have hfine : ∀ b ∈ before, b.Fine := fun b hb => (hbefore b hb).1
  obtain ⟨tail, htext⟩ := gridText_upTo numNodes numCells before after harrays
  have hquote : lines (v ++ '"' :: tail) = lines v ++ '"' :: lines tail := by
    have htail : lines (['"'] ++ tail) = ['"'] ++ lines tail := lines_append_of_notMem (by decide) tail
    rw [lines_append v (by simp)]
    exact congrArg (lines v ++ ·) htail
  -- up to the value nothing is special
  have hfront : '\r' ∉ '\n' :: startTag vtkFile rootAttributes ++ (upTo numNodes numCells before g.name).flatMap Token.print := by
    have htokens := notMem_tokens (@upTo_fine numNodes numCells before g.name hfine hname)
    simp [Token.notMem_startTag writable_root, htokens]
  have hopen : '\r' ∉ '<' :: dataArray ++ [type].flatMap attributeText ++ (' ' :: "Name".toList ++ ['=', '"']) := by
    have htag := Token.notMem_startTag htype
    intro hmem
    rcases List.mem_append.mp hmem with hmem | hmem
    · exact htag (List.mem_append_left _ hmem)
    · simp at hmem
  rw [htext, read_declared, lines_append_of_notMem hfront, lines_append_of_notMem hopen, hquote] at hread
  obtain ⟨⟨t, all⟩, hrun, hdone⟩ := Option.bind_eq_some_iff.mp hread
  have ht : t.done = true := by
    by_contra hnot
    rw [if_neg hnot] at hdone
    cases hdone
  rw [if_pos ht] at hdone
  obtain rfl := Option.some.inj hdone
  obtain ⟨inner, hplay⟩ := play_upTo numNodes numCells before g.name
  have hrunFront := State.run_both (run_front writable_root)
    (run_tokens (List.cons_ne_nil _ _) hplay (upTo_fine hfine hname))
  obtain ⟨now, hrest, rfl⟩ := State.run_rest hrunFront hrun
  obtain ⟨r, d, tail', more', later, hsplit, hr, hmeans, rfl⟩ :=
    State.run_opening_inv htype (List.cons_ne_nil _ _) (by decide) hrest ht
  refine ⟨r, d, lines tail, tail', more', later.filterMap (Item.startAt (dataArray :: g.name :: place)), hsplit, hr, hmeans,
    ?_⟩
  rw [List.singleton_append, List.cons_append,
    arrays_front hplay (upTo_opens (fun b hb => (hfine b hb).other) hgroup),
    leaves_upTo numNodes numCells fun b hb => (hbefore b hb).2, List.nil_append]
  show List.map Element.attributes (List.filter (fun e => decide (e.path = dataArray :: g.name :: place)) _) = _
  rw [attributes_elements, List.filterMap_cons, Item.startAt, if_pos rfl]
  rfl

end Souxmar.Plugins.Vtu
