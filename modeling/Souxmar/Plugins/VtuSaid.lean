import Mathlib.Data.List.Forall2
import Souxmar.Plugins.VtuText

/-!
# What the file of the VTU writer says

The file is well-formed and says what the mesh and the field say exactly when the name of the field can stand in an
attribute as it is.
-/

namespace Souxmar.Plugins.Vtu

open Souxmar.Core Souxmar.Pipeline Souxmar.Lib Souxmar.Lib.Xml

/-! ## The numbers in an array -/

/-- What is taken of the output of a double: it is a word of letters, digits, signs and points. -/
def Numeral (w : List Char) : Prop := w ≠ [] ∧ ∀ c ∈ w, isNumeral c = true

theorem numeral_decimal (n : ℕ) : Numeral (decimal n) := ⟨Nat.toDigits_ne_nil, isNumeral_decimal⟩

def separator (width i : ℕ) : List Char := (if (i + 1) % width = 0 then "\n          " else " ").toList

theorem blank_separator (width i : ℕ) : separator width i ≠ [] ∧ (∀ c ∈ separator width i, Stream.isSpace c = true) ∧
    ∀ c ∈ separator width i, isData c = true := by
  have hbreak : ("\n          ".toList ≠ [] ∧ ∀ c ∈ "\n          ".toList, Stream.isSpace c = true) ∧
    ∀ c ∈ "\n          ".toList, isData c = true := by decide
  have hblank : (" ".toList ≠ [] ∧ ∀ c ∈ " ".toList, Stream.isSpace c = true) ∧ ∀ c ∈ " ".toList, isData c = true := by
    decide
  unfold separator
  split
  · exact ⟨hbreak.1.1, hbreak.1.2, hbreak.2⟩
  · exact ⟨hblank.1.1, hblank.1.2, hblank.2⟩

theorem spaced {w white : List Char} (hw : Numeral w) (hne : white ≠ []) (hwhite : ∀ c ∈ white, Stream.isSpace c = true) :
    Stream.Spaced w white :=
  ⟨hw.1, fun c hc => isSpace_of_isNumeral (hw.2 c hc), hne, hwhite⟩

theorem blank_text : (∀ c ∈ "\n          ".toList, Stream.isSpace c = true) ∧
    ∀ c ∈ "\n        ".toList, Stream.isSpace c = true := by
  decide

theorem tokens_decimals (as : Attributes) (values : List ℕ) :
    Stream.tokens (DataArray.text ⟨as, values.flatMap fun i => decimal i ++ [' ']⟩) = values.map decimal := by
  have hwords := @Stream.tokens_words (values.map fun i => (decimal i, [' '])) "\n          ".toList "\n        ".toList
    (fun w hw => by
      obtain ⟨i, -, rfl⟩ := List.mem_map.mp hw
      exact spaced (numeral_decimal i) (List.cons_ne_nil _ _) (List.forall_mem_singleton.mpr rfl))
    blank_text.1 blank_text.2
  rw [List.flatMap_map, List.map_map, ← List.append_assoc] at hwords
  exact hwords

theorem tokens_numbers (as : Attributes) (width : ℕ) {texts : List (List Char)} (h : ∀ w ∈ texts, Numeral w) (c : Prop)
    [Decidable c] : Stream.tokens (DataArray.text ⟨as, numbers width texts ++ (if c then "\n          " else "").toList⟩) =
      texts := by
  have htrail : ∀ d ∈ (if c then "\n          " else "").toList ++ "\n        ".toList, Stream.isSpace d = true := by
    have hempty : ∀ d ∈ "".toList, Stream.isSpace d = true := by decide
    refine List.forall_mem_append.mpr ⟨?_, blank_text.2⟩
    split
    · exact blank_text.1
    · exact hempty
  have hwords := @Stream.tokens_words (texts.zipIdx.map fun x => (x.1, separator width x.2)) "\n          ".toList _
    (fun w hw => by
      obtain ⟨x, hx, rfl⟩ := List.mem_map.mp hw
      exact spaced (h x.1 (List.fst_mem_of_mem_zipIdx hx)) (blank_separator width x.2).1 (blank_separator width x.2).2.1)
    blank_text.1 htrail
  have hfirst : (texts.zipIdx.map fun x => (x.1, separator width x.2)).map Prod.fst = texts := by
    rw [List.map_map]
    exact List.zipIdx_map_fst 0 texts
  rw [hfirst, List.flatMap_map] at hwords
  refine Eq.trans (congrArg Stream.tokens ?_) hwords
  unfold DataArray.text numbers separator
  simp only [List.append_assoc]

theorem data_numbers {width : ℕ} {texts : List (List Char)} (h : ∀ w ∈ texts, Numeral w) (p : Prop) [Decidable p] :
    ∀ c ∈ numbers width texts ++ (if p then "\n          " else "").toList, isData c = true := by
  have hempty : ∀ d ∈ "".toList, isData d = true := by decide
  refine List.forall_mem_append.mpr ⟨fun c hc => ?_, ?_⟩
  · obtain ⟨x, hx, hc⟩ := List.mem_flatMap.mp hc
    rcases List.mem_append.mp hc with hc | hc
    · exact isData_of_isNumeral ((h x.1 (List.fst_mem_of_mem_zipIdx hx)).2 c hc)
    · exact (blank_separator width x.2).2.2 c hc
  · split
    · exact isData_blank.1
    · exact hempty

/-! ## The groups are fine -/

section

variable {format : ℕ → UInt64 → List Char} {mesh : Mesh}

theorem pointsGroup_fine (hformat : ∀ p x, Numeral (format p x)) : (pointsGroup format mesh).Fine where
  isName := by
    show isName "Points".toList = true
    decide
  other := by
    show "Points".toList ≠ dataArray
    decide
  arrays := List.forall_mem_singleton.mpr ⟨writable_of_canWrite (by
      show canWrite dataArray [("type".toList, "Float64".toList), ("NumberOfComponents".toList, "3".toList),
        ("format".toList, "ascii".toList)] = true
      decide),
    data_numbers (fun w hw => by
      obtain ⟨x, -, rfl⟩ := List.mem_map.mp hw
      exact hformat 6 x) _⟩

theorem cellsArray_fine {type name : String} (h : canWrite dataArray (cellsArray type name []).attributes = true)
    (values : List ℕ) : (cellsArray type name values).Fine where
  writable := writable_of_canWrite h
  data := by
    intro c hc
    obtain ⟨i, -, hc⟩ := List.mem_flatMap.mp hc
    rcases List.mem_append.mp hc with hc | hc
    · exact isData_of_isNumeral (isNumeral_decimal c hc)
    · rw [List.mem_singleton.mp hc]
      rfl

theorem cellsGroup_fine : (cellsGroup mesh).Fine where
  isName := by
    show isName "Cells".toList = true
    decide
  other := by
    show "Cells".toList ≠ dataArray
    decide
  arrays := List.forall_mem_cons.mpr ⟨cellsArray_fine (by decide) _,
    List.forall_mem_cons.mpr ⟨cellsArray_fine (by decide) _,
      List.forall_mem_singleton.mpr (cellsArray_fine (by decide) _)⟩⟩

theorem plain_suffix (t : ℕ) : ∀ c ∈ suffix t, isPlain c = true := by
  have hmark : ∀ c ∈ "_t".toList, isPlain c = true := by decide
  unfold suffix
  split
  · exact List.forall_mem_append.mpr ⟨hmark, fun c hc => isPlain_of_isNumeral (isNumeral_decimal c hc)⟩
  · exact List.forall_mem_nil _

theorem stepArray_fine {field : Field} (hformat : ∀ p x, Numeral (format p x)) (hname : ∀ c ∈ field.name, isPlain c = true)
    (t : ℕ) : (stepArray format field t).Fine where
  writable :=
    { isName := by decide
      named := by
        have hnamed : ["type".toList, "Name".toList, "NumberOfComponents".toList, "format".toList].all isName = true := by
          decide
        intro a ha
        refine List.all_eq_true.mp hnamed a.1 ?_
        exact List.mem_map_of_mem (f := Prod.fst) ha
      plain := by
        have htype : ∀ c ∈ typeAttribute.2, isPlain c = true := by decide
        have hascii : ∀ c ∈ "ascii".toList, isPlain c = true := by decide
        have hfield : ∀ c ∈ fieldName field ++ suffix t, isPlain c = true :=
          List.forall_mem_append.mpr ⟨fun c hc => hname c ((List.takeWhile_prefix _).subset hc), plain_suffix t⟩
        exact List.forall_mem_cons.mpr ⟨htype, List.forall_mem_cons.mpr ⟨hfield, List.forall_mem_cons.mpr
          ⟨fun c hc => isPlain_of_isNumeral (isNumeral_decimal c hc), List.forall_mem_singleton.mpr hascii⟩⟩⟩
      once := by
        show ["type".toList, "Name".toList, "NumberOfComponents".toList, "format".toList].Nodup
        decide }
  data := data_numbers (fun w hw => by
    obtain ⟨x, -, rfl⟩ := List.mem_map.mp hw
    exact hformat 17 x) _

theorem fieldGroups_cases (field : Field) :
    (field.location = .nodal ∧ fieldGroups format (some field) = [fieldGroup format "PointData".toList field]) ∨
    (field.location = .cell ∧ fieldGroups format (some field) = [fieldGroup format "CellData".toList field]) ∨
    (¬field.Written ∧ fieldGroups format (some field) = []) := by
  unfold fieldGroups Field.Written
  dsimp only
  cases field.location with
  | nodal => exact Or.inl ⟨rfl, rfl⟩
  | cell => exact Or.inr (Or.inl ⟨rfl, rfl⟩)
  | face => exact Or.inr (Or.inr ⟨by simp, rfl⟩)
  | gaussPoint => exact Or.inr (Or.inr ⟨by simp, rfl⟩)

theorem fieldGroup_fine {field : Field} {n : Name} (hformat : ∀ p x, Numeral (format p x))
    (hname : ∀ c ∈ field.name, isPlain c = true) (hn : isName n = true) (hother : n ≠ dataArray) :
    (fieldGroup format n field).Fine where
  isName := hn
  other := hother
  arrays := by
    intro a ha
    obtain ⟨t, -, rfl⟩ := List.mem_map.mp ha
    exact stepArray_fine hformat hname t

theorem groupsOf_fine {field : Option Field} (hformat : ∀ p x, Numeral (format p x))
    (hname : ∀ f ∈ field, f.Written → ∀ c ∈ f.name, isPlain c = true) : ∀ g ∈ groupsOf format mesh field, g.Fine := by
  have hrest : ∀ g ∈ fieldGroups format field, g.Fine := by
    cases field with
    | none => exact List.forall_mem_nil _
    | some field =>
      rcases fieldGroups_cases field with ⟨hlocation, hgroups⟩ | ⟨hlocation, hgroups⟩ | ⟨-, hgroups⟩
      · rw [hgroups]
        exact List.forall_mem_singleton.mpr
          (fieldGroup_fine hformat (hname field rfl (Or.inl hlocation)) (by decide) (by decide))
      · rw [hgroups]
        exact List.forall_mem_singleton.mpr
          (fieldGroup_fine hformat (hname field rfl (Or.inr hlocation)) (by decide) (by decide))
      · rw [hgroups]
        exact List.forall_mem_nil _
  exact List.forall_mem_cons.mpr ⟨pointsGroup_fine hformat, List.forall_mem_cons.mpr ⟨cellsGroup_fine, hrest⟩⟩

/-! ## What is read -/

theorem elements_of_ne {g : Group} {n : Name} (h : g.name ≠ n) : g.elements n = [] := if_neg h

theorem elements_self (g : Group) : g.elements g.name = g.arrays.map (DataArray.element g.name) := if_pos rfl

theorem cells_read (field : Option Field) : (groupsOf format mesh field).flatMap (Group.elements "Cells".toList) =
    (cellsGroup mesh).arrays.map (DataArray.element "Cells".toList) := by
  have hpoints : (pointsGroup format mesh).name ≠ "Cells".toList := by
    show "Points".toList ≠ "Cells".toList
    decide
  have hrest : (fieldGroups format field).flatMap (Group.elements "Cells".toList) = [] := by
    have hnodal : "PointData".toList ≠ "Cells".toList := by decide
    have hcell : "CellData".toList ≠ "Cells".toList := by decide
    cases field with
    | none => rfl
    | some field =>
      rcases fieldGroups_cases field with ⟨-, hgroups⟩ | ⟨-, hgroups⟩ | ⟨-, hgroups⟩
      · rw [hgroups, List.flatMap_singleton]
        exact elements_of_ne hnodal
      · rw [hgroups, List.flatMap_singleton]
        exact elements_of_ne hcell
      · rw [hgroups]
        rfl
  have hcells : (cellsGroup mesh).elements "Cells".toList = _ := elements_self (cellsGroup mesh)
  rw [groupsOf, List.flatMap_cons, List.flatMap_cons, elements_of_ne hpoints, hrest, hcells, List.nil_append,
    List.append_nil]
  rfl

theorem field_read {field : Option Field} {n : Name} {f : Field} (hgroups : fieldGroups format field = [fieldGroup format n f])
    (hpoints : "Points".toList ≠ n) (hcells : "Cells".toList ≠ n) :
    (groupsOf format mesh field).flatMap (Group.elements n) =
      (List.range f.numTimeSteps).map fun t => (stepArray format f t).element n := by
  have hfield : (fieldGroup format n f).elements n = _ := elements_self (fieldGroup format n f)
  have hfirst : (pointsGroup format mesh).elements n = [] := elements_of_ne hpoints
  have hsecond : (cellsGroup mesh).elements n = [] := elements_of_ne hcells
  rw [groupsOf, List.flatMap_cons, List.flatMap_cons, hfirst, hsecond, hgroups, List.flatMap_singleton, hfield]
  exact List.map_map

theorem lists_cellsArray {type name : String} (htype : "Name".toList ≠ "type".toList) (values : List ℕ) :
    Lists name values ((cellsArray type name values).element "Cells".toList) where
  name := by
    show List.lookup "Name".toList (("type".toList, _) :: ("Name".toList, name.toList) :: _) = some name.toList
    rw [List.lookup_cons, beq_eq_false_iff_ne.mpr htype]
    exact List.lookup_cons_self
  values := tokens_decimals _ values

theorem cellsSaid_of_read {field : Option Field} {elements : List Element} (h : arrays "Cells".toList elements =
    (groupsOf format mesh field).flatMap (Group.elements "Cells".toList)) : CellsSaid mesh elements := by
  have hkey : "Name".toList ≠ "type".toList := by decide
  have hrows : (rows mesh).length = mesh.cells.length := List.length_map _
  refine ⟨(rows mesh).flatten, offsetsOf mesh, typesOf mesh, ?_, List.length_map _, Ragged.split_offsets (rows mesh), ?_⟩
  · rw [offsetsOf, List.length_tail, Ragged.length_offsets, Nat.add_sub_cancel, hrows]
  · rw [h, cells_read]
    exact .cons (lists_cellsArray hkey _) (.cons (lists_cellsArray hkey _) (.cons (lists_cellsArray hkey _) .nil))

theorem nameOf_step {field : Field} {t : ℕ} (n : Name) :
    nameOf ((stepArray format field t).element n) = some (fieldName field ++ suffix t) := by
  have hkey : "Name".toList ≠ "type".toList := by decide
  show List.lookup "Name".toList (("type".toList, _) :: ("Name".toList, _) :: _) = _
  rw [List.lookup_cons, beq_eq_false_iff_ne.mpr hkey]
  exact List.lookup_cons_self

theorem fieldName_of_plain {field : Field} (h : ∀ c ∈ field.name, isPlain c = true) : fieldName field = field.name := by
  refine Stream.takeWhile_of_all (List.all_eq_true.mpr fun c hc => decide_eq_true ?_)
  rintro rfl
  exact Bool.noConfusion (h _ hc)

theorem stepsSaid_of_read {field : Field} (hformat : ∀ p x, Numeral (format p x))
    (hname : ∀ c ∈ field.name, isPlain c = true)
    (hdata : field.data.length = field.count * field.components * field.numTimeSteps) (n : Name) :
    StepsSaid format field ((List.range field.numTimeSteps).map fun t => (stepArray format field t).element n) := by
  refine List.forall₂_map_right_iff.mpr (List.forall₂_same.mpr fun t ht => ?_)
  have htokens : Stream.tokens ((stepArray format field t).element n).text = (field.step t).map (format 17) :=
    tokens_numbers _ 6 (fun w hw => by
      obtain ⟨x, -, rfl⟩ := List.mem_map.mp hw
      exact hformat 17 x) _
  refine ⟨?_, ?_, htokens⟩
  · rw [nameOf_step, fieldName_of_plain hname]
  · rw [htokens, List.length_map, length_step hdata (List.mem_range.mp ht)]

theorem plain_of_said {field : Field} {before : List Group} {n : Name} {numNodes numCells : ℕ} {items : List Item}
    (hbefore : ∀ b ∈ before, b.Fine ∧ b.name ≠ n) (hname : isName n = true) (hother : n ≠ dataArray)
    (hread : Xml.read (gridText numNodes numCells (before ++ [fieldGroup format n field])) = some items)
    (hsaid : StepsSaid format field (arrays n (Xml.elements items))) : ∀ c ∈ field.name, isPlain c = true := by
  obtain ⟨steps, hsteps⟩ := Nat.exists_eq_succ_of_ne_zero (Nat.ne_of_gt field.numTimeSteps_pos)
  have harrays : (fieldGroup format n field).arrays =
      stepArray format field 0 :: ((List.range steps).map Nat.succ).map (stepArray format field) := by
    show (List.range field.numTimeSteps).map _ = _
    rw [hsteps, List.range_succ_eq_map, List.map_cons]
  have htype : Writable dataArray [typeAttribute] := writable_of_canWrite (by decide)
  obtain ⟨r, d, tail, tail', more, later, hsplit, hr, hmeans, hattributes⟩ :=
    @name_of_read _ _ before [] (fieldGroup format n field) _ _ _ _ _ _ hbefore hname hother htype harrays hread
  -- the first array has the name of the field, and the value that was read
  have hd : d = field.name := by
    unfold StepsSaid at hsaid
    rw [hsteps, List.range_succ_eq_map] at hsaid
    obtain ⟨e, es, hfirst, -, hes⟩ := List.forall₂_cons_left_iff.mp hsaid
    have heq := hattributes
    rw [show (fieldGroup format n field).name = n from rfl, hes, List.map_cons] at heq
    have hvalue : nameOf e = some d := by
      have hkey : "Name".toList ≠ "type".toList := by decide
      unfold nameOf
      rw [(List.cons.inj heq).1, typeAttribute, List.lookup_cons, beq_eq_false_iff_ne.mpr hkey]
      exact List.lookup_cons_self
    have hzero : field.name ++ suffix 0 = field.name := List.append_nil _
    rw [← hzero]
    exact Option.some.inj (hvalue.symm.trans hfirst.name)
  have hzero : fieldName field ++ suffix 0 = fieldName field := List.append_nil _
  rw [hzero] at hsplit
  rw [hd] at hmeans
  have hwritten : fieldName field = field.name := by
    refine (List.takeWhile_prefix _).eq_of_length_le ?_
    have hle := hmeans.length_le
    have hfirst := (value_first hsplit hr).length_le
    have hlines := length_lines_le (fieldName field)
    unfold fieldName cString at hfirst hlines
    omega
  rw [hwritten] at hsplit
  exact isPlain_of_means hsplit hr hmeans

/-! ## The file -/

theorem vtuWrite_ok {sink : Sink} {field : Option Field} {inputs : Option Value} {path text : List Char}
    (h : vtuWrite format sink (some mesh) field inputs = .ok (path, text)) : blob format mesh field = .ok text := by
  unfold vtuWrite at h
  dsimp only at h
  split at h
  · split at h
    · split at h
      · cases h
      · obtain ⟨text', htext, h⟩ := bind_ok_iff.mp h
        split at h
        · cases h
        · split at h
          · cases h
          · obtain ⟨-, rfl⟩ := Prod.mk.inj (Except.ok.inj h)
            exact htext
    · cases h
  · cases h

/-- When the write goes through, the file is well-formed XML and says what the mesh and the field say, if and only if the
name of a field on nodes or cells has no `<`, no `&`, no `"`, no tab, no line end, and no character that XML excludes. -/
theorem vtuWrite_said_iff {sink : Sink} {field : Option Field} {inputs : Option Value} {path text : List Char}
    (hformat : ∀ p x, Numeral (format p x)) (hheld : Held mesh)
    (h : vtuWrite format sink (some mesh) field inputs = .ok (path, text)) :
    Said format mesh field text ↔ ∀ f ∈ field, f.Written → ∀ c ∈ f.name, isPlain c = true := by
  obtain ⟨-, hdata, rfl⟩ := blob_ok hheld (vtuWrite_ok h)
  constructor
  · rintro ⟨items, hread, -, hfield⟩ f hf hwritten
    obtain rfl : field = some f := hf
    have hsaid := hfield f rfl
    have hfirst : ∀ {n}, "Points".toList ≠ n → "Cells".toList ≠ n →
        ∀ b ∈ [pointsGroup format mesh, cellsGroup mesh], b.Fine ∧ b.name ≠ n := fun hpoints hcells =>
      List.forall_mem_cons.mpr ⟨⟨pointsGroup_fine hformat, hpoints⟩,
        List.forall_mem_singleton.mpr ⟨cellsGroup_fine, hcells⟩⟩
    unfold FieldSaid at hsaid
    rcases @fieldGroups_cases format f with ⟨hlocation, hgroups⟩ | ⟨hlocation, hgroups⟩ | ⟨hnot, -⟩
    · rw [hlocation] at hsaid
      rw [groupsOf, hgroups] at hread
      exact plain_of_said (hfirst (by decide) (by decide)) (by decide) (by decide) hread
        hsaid
    · rw [hlocation] at hsaid
      rw [groupsOf, hgroups] at hread
      exact plain_of_said (hfirst (by decide) (by decide)) (by decide) (by decide) hread
        hsaid
    · exact absurd hwritten hnot
  · intro hname
    obtain ⟨items, hread, harrays⟩ := read_grid (groupsOf_fine hformat hname)
    refine ⟨items, hread, cellsSaid_of_read (harrays _), fun f hf => ?_⟩
    obtain rfl : field = some f := hf
    unfold FieldSaid
    rcases @fieldGroups_cases format f with ⟨hlocation, hgroups⟩ | ⟨hlocation, hgroups⟩ | ⟨hnot, -⟩
    · have hwritten : f.Written := Or.inl hlocation
      rw [hlocation]
      dsimp only
      rw [harrays, field_read hgroups (by decide) (by decide)]
      exact stepsSaid_of_read hformat (hname f rfl hwritten) (hdata f rfl hwritten) _
    · have hwritten : f.Written := Or.inr hlocation
      rw [hlocation]
      dsimp only
      rw [harrays, field_read hgroups (by decide) (by decide)]
      exact stepsSaid_of_read hformat (hname f rfl hwritten) (hdata f rfl hwritten) _
    · unfold Field.Written at hnot
      cases hlocation : f.location with
      | nodal => exact absurd (Or.inl hlocation) hnot
      | cell => exact absurd (Or.inr hlocation) hnot
      | face => trivial
      | gaussPoint => trivial

end

/-! ### An edge with a value on each of its ends -/

def one : UInt64 := 0x3FF0000000000000

/-- The output of the doubles 0 and 1. -/
def sampleFormat (_ : ℕ) (x : UInt64) : List Char := if x = one then ['1'] else ['0']

def sampleMesh : Mesh := { nodes := [(0, 0, 0), (one, 0, 0)], cells := [⟨.edge2, [0, 1], 0⟩] }

def sampleField (name : List Char) : Field where
  name := name
  location := .nodal
  kind := .scalar
  count := 2
  numTimeSteps := 2
  data := [0, one, one, 0]
  count_lt := by decide
  numTimeSteps_lt := by decide
  numTimeSteps_pos := by decide
  allocated := by decide

def sampleWrite (name : List Char) : Except Halt (List Char × List Char) :=
  vtuWrite sampleFormat ⟨fun _ => true, fun _ => true⟩ (some sampleMesh) (some (sampleField name))
    (some (.map [("path", .string "out.vtu")]))

theorem numeral_sampleFormat (p : ℕ) (x : UInt64) : Numeral (sampleFormat p x) := by
  unfold sampleFormat Numeral
  split
  · decide
  · decide

theorem held_sampleMesh : Held sampleMesh := ⟨by unfold Mesh.Valid; decide, by decide, by decide⟩

theorem sampleWrite_ok {name : List Char} (h : (sampleWrite name).toOption.isSome = true) :
    ∃ written, sampleWrite name = .ok written := by
  cases hwrite : sampleWrite name with
  | ok written => exact ⟨written, rfl⟩
  | error e =>
    rw [hwrite] at h
    cases h

theorem vtuWrite_said_iff_edge : ∃ path text, sampleWrite "u".toList = .ok (path, text) ∧
    (Said sampleFormat sampleMesh (some (sampleField "u".toList)) text ↔
      ∀ f ∈ some (sampleField "u".toList), f.Written → ∀ c ∈ f.name, isPlain c = true) := by
  obtain ⟨⟨path, text⟩, hwrite⟩ := @sampleWrite_ok "u".toList (by decide)
  exact ⟨path, text, hwrite, vtuWrite_said_iff numeral_sampleFormat held_sampleMesh hwrite⟩

/-- A field with the name `p<q` is written, and the file is not well-formed. -/
theorem vtuWrite_not_said : Held sampleMesh ∧ (∀ p x, Numeral (sampleFormat p x)) ∧
    ∃ path text, sampleWrite "p<q".toList = .ok (path, text) ∧
      ¬Said sampleFormat sampleMesh (some (sampleField "p<q".toList)) text := by
  obtain ⟨⟨path, text⟩, hwrite⟩ := @sampleWrite_ok "p<q".toList (by decide)
  have hread : ((sampleWrite "p<q".toList).toOption.bind fun written => Xml.read written.2) = none := by decide +kernel
  rw [hwrite] at hread
  refine ⟨held_sampleMesh, numeral_sampleFormat, path, text, hwrite, ?_⟩
  rintro ⟨items, hitems, -⟩
  exact Option.some_ne_none items (hitems.symm.trans hread)

end Souxmar.Plugins.Vtu
