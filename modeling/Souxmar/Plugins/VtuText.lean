import Mathlib.Data.List.Induction
import Souxmar.Lib.Loop
import Souxmar.Plugins.VtuDocument

/-!
# The text of the VTU writer

The text that the writer commits is that of a grid: the points, the cells, and the field when it is on nodes or cells. A
field whose sizes wrap is read outside its values, and no run that goes through writes it.
-/

namespace Souxmar.Plugins.Vtu

open Souxmar.Core Souxmar.Lib Souxmar.Lib.Xml

/-- What holds of every mesh: the cells have the nodes of their types, and a vector of 64-bit values has at most `2 ^ 60`
entries. -/
structure Held (mesh : Mesh) : Prop where
  valid : mesh.Valid
  nodes : mesh.nodes.length ≤ 2 ^ 60
  cells : mesh.cells.length ≤ 2 ^ 60

/-! ## The groups -/

def pointsArray (format : ℕ → UInt64 → List Char) (mesh : Mesh) : DataArray where
  attributes := [("type".toList, "Float64".toList), ("NumberOfComponents".toList, "3".toList),
    ("format".toList, "ascii".toList)]
  body :=
    let coords := mesh.nodes.flatMap fun p => [p.1, p.2.1, p.2.2]
    numbers 9 (coords.map (format 6)) ++ (if coords.length = 0 then "\n          " else "").toList

def cellsArray (type name : String) (values : List ℕ) : DataArray where
  attributes := [("type".toList, type.toList), ("Name".toList, name.toList), ("format".toList, "ascii".toList)]
  body := values.flatMap fun i => decimal i ++ [' ']

def offsetsOf (mesh : Mesh) : List ℕ := (Ragged.offsets (rows mesh)).tail

def typesOf (mesh : Mesh) : List ℕ := mesh.cells.map fun cell => souxmarToVtkCellType cell.type

def pointsGroup (format : ℕ → UInt64 → List Char) (mesh : Mesh) : Group := ⟨"Points".toList, [pointsArray format mesh]⟩

def cellsGroup (mesh : Mesh) : Group :=
  ⟨"Cells".toList, [cellsArray "Int64" "connectivity" (rows mesh).flatten, cellsArray "Int64" "offsets" (offsetsOf mesh),
    cellsArray "UInt8" "types" (typesOf mesh)]⟩

def typeAttribute : Name × List Char := ("type".toList, "Float64".toList)

def stepArray (format : ℕ → UInt64 → List Char) (field : Field) (t : ℕ) : DataArray where
  attributes := typeAttribute :: ("Name".toList, fieldName field ++ suffix t) ::
    [("NumberOfComponents".toList, decimal field.components), ("format".toList, "ascii".toList)]
  body := numbers 6 ((field.step t).map (format 17)) ++
    (if field.count * field.components = 0 then "\n          " else "").toList

def fieldGroup (format : ℕ → UInt64 → List Char) (n : Name) (field : Field) : Group :=
  ⟨n, (List.range field.numTimeSteps).map (stepArray format field)⟩

def fieldGroups (format : ℕ → UInt64 → List Char) : Option Field → List Group
  | none => []
  | some field =>
    match field.location with
    | .nodal => [fieldGroup format "PointData".toList field]
    | .cell => [fieldGroup format "CellData".toList field]
    | .face => []
    | .gaussPoint => []

def groupsOf (format : ℕ → UInt64 → List Char) (mesh : Mesh) (field : Option Field) : List Group :=
  pointsGroup format mesh :: cellsGroup mesh :: fieldGroups format field

/-! ## The text of an array -/

theorem array_text {head : List Char} {as : Attributes} (h : head = "        ".toList ++ startTag dataArray as ++ "\n".toList)
    (body : List Char) : head ++ "          ".toList ++ body ++ "\n        </DataArray>\n".toList =
      (DataArray.tokens ⟨as, body⟩).flatMap Token.print := by
  have hindent : "\n          ".toList = "\n".toList ++ "          ".toList := by decide
  have hclose : "\n        </DataArray>\n".toList = "\n        ".toList ++ endTag dataArray ++ "\n".toList := by
    decide
  have htokens : (DataArray.tokens ⟨as, body⟩).flatMap Token.print = "        ".toList ++ (startTag dataArray as ++
      ("\n          ".toList ++ body ++ "\n        ".toList) ++ endTag dataArray ++ ("\n".toList ++ [])) := rfl
  rw [htokens, h, hclose, hindent, List.append_nil]
  simp only [List.append_assoc]

theorem points_head : "        <DataArray type=\"Float64\" NumberOfComponents=\"3\" format=\"ascii\">\n".toList =
    "        ".toList ++ startTag dataArray [("type".toList, "Float64".toList), ("NumberOfComponents".toList, "3".toList),
      ("format".toList, "ascii".toList)] ++ "\n".toList := by
  decide

theorem step_head (name components : List Char) :
    "        <DataArray type=\"Float64\" Name=\"".toList ++ name ++ "\" NumberOfComponents=\"".toList ++ components ++
      "\" format=\"ascii\">\n".toList =
    "        ".toList ++ startTag dataArray (typeAttribute :: ("Name".toList, name) ::
      [("NumberOfComponents".toList, components), ("format".toList, "ascii".toList)]) ++ "\n".toList := by
  have hfirst : "        <DataArray type=\"Float64\" Name=\"".toList =
      "        ".toList ++ '<' :: (dataArray ++ (attributeText typeAttribute ++ ' ' :: ("Name".toList ++ ['=', '"']))) := by
    decide
  have hsecond : "\" NumberOfComponents=\"".toList = '"' :: ' ' :: ("NumberOfComponents".toList ++ ['=', '"']) := by
    decide
  have hthird : "\" format=\"ascii\">\n".toList =
      '"' :: (attributeText ("format".toList, "ascii".toList) ++ '>' :: "\n".toList) := by
    decide
  rw [hfirst, hsecond, hthird]
  simp only [startTag, List.flatMap_cons, List.flatMap_nil, List.append_assoc, List.append_nil, List.cons_append,
    List.nil_append]
  simp only [attributeText, List.append_assoc, List.cons_append, List.nil_append]

/-! ## The values of a field -/

theorem readValue_ok {field : Field} {base i : ℕ} {x : UInt64} :
    readValue field base i = .ok x ↔ field.data[(base + i) % 2 ^ 64]? = some x := by
  unfold readValue
  cases field.data[(base + i) % 2 ^ 64]? with
  | none => exact ⟨fun h => (nomatch h), fun h => (nomatch h)⟩
  | some y => exact ⟨fun h => congrArg some (Except.ok.inj h), fun h => congrArg Except.ok (Option.some.inj h)⟩

theorem index_wraps (t count components i : ℕ) :
    (t * count % 2 ^ 64 * components % 2 ^ 64 + i) % 2 ^ 64 = (t * (count * components) + i) % 2 ^ 64 := by
  rw [Nat.mod_mul_mod, Nat.mod_add_mod, Nat.mul_assoc]

section

variable {format : ℕ → UInt64 → List Char} {field : Field}

theorem length_data (hsize : field.count * field.components < 2 ^ 64)
    (h : ∀ t < field.numTimeSteps, ∃ text, emitFieldArray format field t = .ok text) :
    field.data.length = field.count * field.components * field.numTimeSteps := by
  have hread : ∀ t < field.numTimeSteps, ∀ i < field.count * field.components,
      (t * (field.count * field.components) + i) % 2 ^ 64 < field.data.length := by
    intro t ht i hi
    obtain ⟨text, htext⟩ := h t ht
    unfold emitFieldArray at htext
    obtain ⟨values, hvalues, -⟩ := bind_ok_iff.mp htext
    rw [Nat.mod_eq_of_lt hsize] at hvalues
    obtain ⟨x, hx⟩ := (mapM_ok_iff _ _).mp ⟨values, hvalues⟩ i (List.mem_range.mpr hi)
    rw [readValue_ok, index_wraps] at hx
    exact (List.getElem?_eq_some_iff.mp hx).1
  have hallocated : field.data.length = field.count * field.components * field.numTimeSteps % 2 ^ 64 := field.allocated
  by_cases hwrap : field.count * field.components * field.numTimeSteps < 2 ^ 64
  · rw [hallocated, Nat.mod_eq_of_lt hwrap]
  · -- the position behind the last value is read in some step
    have hless : field.data.length < field.count * field.components * field.numTimeSteps := by omega
    have hpos : 0 < field.count * field.components := by
      rcases Nat.eq_zero_or_pos (field.count * field.components) with hzero | hpos
      · rw [hzero, Nat.zero_mul] at hless
        omega
      · exact hpos
    have hat := hread (field.data.length / (field.count * field.components)) (Nat.div_lt_of_lt_mul hless)
      (field.data.length % (field.count * field.components)) (Nat.mod_lt _ hpos)
    rw [Nat.div_add_mod', Nat.mod_eq_of_lt (by omega)] at hat
    exact absurd hat (Nat.lt_irrefl _)

theorem map_step {n t : ℕ} {data : List UInt64} (h : (t + 1) * n ≤ data.length) :
    (List.range n).map (fun i => data.getD (t * n + i) 0) = (data.drop (t * n)).take n := by
  have hle : t * n + n ≤ data.length := by rwa [Nat.succ_mul] at h
  apply List.ext_getElem
  · rw [List.length_map, List.length_range, List.length_take, List.length_drop]
    omega
  · intro i hi hi'
    rw [List.length_map, List.length_range] at hi
    rw [List.getElem_map, List.getElem_range, List.getElem_take, List.getElem_drop, List.getD_eq_getElem _ _ (by omega)]

theorem emitFieldArray_eq (hsize : field.count * field.components < 2 ^ 64)
    (hdata : field.data.length = field.count * field.components * field.numTimeSteps) {t : ℕ} (ht : t < field.numTimeSteps) :
    emitFieldArray format field t = .ok ((stepArray format field t).tokens.flatMap Token.print) := by
  have hfits : field.data.length < 2 ^ 64 := by
    have hallocated : field.data.length = field.count * field.components * field.numTimeSteps % 2 ^ 64 := field.allocated
    omega
  have hle : (t + 1) * (field.count * field.components) ≤ field.data.length := by
    rw [hdata, Nat.mul_comm]
    exact Nat.mul_le_mul_left _ ht
  have hvalues : (List.range (field.count * field.components)).mapM
      (readValue field (t * field.count % 2 ^ 64 * field.components % 2 ^ 64)) = .ok (field.step t) := by
    rw [Field.step, ← map_step hle]
    refine mapM_ok_map fun i hi => ?_
    have hindex : t * (field.count * field.components) + i < field.data.length := by
      rw [Nat.succ_mul] at hle
      have hlt := List.mem_range.mp hi
      omega
    rw [readValue_ok, index_wraps, Nat.mod_eq_of_lt (by omega), List.getElem?_eq_getElem hindex,
      List.getD_eq_getElem _ _ hindex]
  have harray : emitFieldArray format field t = ((List.range (field.count * field.components % 2 ^ 64)).mapM
      (readValue field (t * field.count % 2 ^ 64 * field.components % 2 ^ 64))).bind fun values =>
      .ok ("        <DataArray type=\"Float64\" Name=\"".toList ++ fieldName field ++ suffix t ++
        "\" NumberOfComponents=\"".toList ++ decimal field.components ++ "\" format=\"ascii\">\n".toList ++
        "          ".toList ++ numbers 6 (values.map (format 17)) ++
        (if field.count * field.components % 2 ^ 64 = 0 then "\n          " else "").toList ++
        "\n        </DataArray>\n".toList) := rfl
  rw [harray, Nat.mod_eq_of_lt hsize, hvalues, stepArray, ← array_text (step_head _ _)]
  refine congrArg Except.ok ?_
  simp only [List.append_assoc]

theorem length_step (hdata : field.data.length = field.count * field.components * field.numTimeSteps) {t : ℕ}
    (ht : t < field.numTimeSteps) : (field.step t).length = field.count * field.components := by
  have hle : (t + 1) * (field.count * field.components) ≤ field.data.length := by
    rw [hdata, Nat.mul_comm]
    exact Nat.mul_le_mul_left _ ht
  rw [Nat.succ_mul] at hle
  rw [Field.step, List.length_take, List.length_drop]
  omega

theorem emitFieldArrays_ok {text : List Char} (hsize : field.count * field.components < 2 ^ 64)
    (h : emitFieldArrays format field = .ok text) :
    field.data.length = field.count * field.components * field.numTimeSteps ∧
    text = (((List.range field.numTimeSteps).map (stepArray format field)).flatMap DataArray.tokens).flatMap
      Token.print := by
  unfold emitFieldArrays at h
  obtain ⟨arrays, harrays, htext⟩ := bind_ok_iff.mp h
  have hsteps := (mapM_ok_iff _ _).mp ⟨arrays, harrays⟩
  have hdata := length_data hsize fun t ht => hsteps t (List.mem_range.mpr ht)
  have hall := mapM_ok_map (l := List.range field.numTimeSteps) fun t ht =>
    @emitFieldArray_eq format field hsize hdata t (List.mem_range.mp ht)
  rw [hall] at harrays
  obtain rfl := Except.ok.inj harrays
  obtain rfl := Except.ok.inj htext
  refine ⟨hdata, ?_⟩
  rw [List.flatMap_map, List.flatMap_assoc]
  rfl

end

/-! ## The text of a group -/

theorem group_text {opened closed : List Char} {n : Name} (hopened : opened = "      ".toList ++ startTag n [] ++ "\n".toList)
    (hclosed : closed = "      ".toList ++ endTag n ++ "\n".toList) (as : List DataArray) :
    opened ++ (as.flatMap DataArray.tokens).flatMap Token.print ++ closed =
      (Group.tokens ⟨n, as⟩).flatMap Token.print := by
  have htokens : (Group.tokens ⟨n, as⟩).flatMap Token.print = "      ".toList ++ (startTag n [] ++ ("\n".toList ++
      (as.flatMap DataArray.tokens ++ [Token.data "      ".toList, .stop n, .data "\n".toList]).flatMap Token.print)) := rfl
  have hend : [Token.data "      ".toList, .stop n, .data "\n".toList].flatMap Token.print =
      "      ".toList ++ (endTag n ++ ("\n".toList ++ [])) := rfl
  rw [htokens, List.flatMap_append, hend, hopened, hclosed, List.append_nil]
  simp only [List.append_assoc]

theorem emitPoints_eq (format : ℕ → UInt64 → List Char) (mesh : Mesh) :
    emitPoints format mesh = (pointsGroup format mesh).tokens.flatMap Token.print := by
  have hopened : "      <Points>\n".toList = "      ".toList ++ startTag "Points".toList [] ++ "\n".toList := by
    decide
  have hclosed : "      </Points>\n".toList = "      ".toList ++ endTag "Points".toList ++ "\n".toList := by decide
  have harray := array_text points_head (pointsArray format mesh).body
  have harrays : [pointsArray format mesh].flatMap DataArray.tokens = (pointsArray format mesh).tokens := List.append_nil _
  rw [pointsGroup, ← group_text hopened hclosed, harrays]
  refine Eq.trans ?_ (congrArg (fun text => "      <Points>\n".toList ++ text ++ "      </Points>\n".toList) harray)
  unfold emitPoints pointsArray
  simp only [List.append_assoc]

/-! ## The cells -/

theorem foldl_add {cells : List Cell} (h : ∀ cell ∈ cells, cell.nodes ≠ []) :
    cells.foldl Cells.add {} = {
      connectivity := (cells.map Cell.nodes).flatten.flatMap fun i => decimal i ++ [' ']
      offsets := (Ragged.offsets (cells.map Cell.nodes)).tail
      runningOffset := (cells.map Cell.nodes).flatten.length } := by
  induction cells using List.reverseRecOn with
  | nil => rfl
  | append_singleton cells cell ih =>
    obtain ⟨hcells, hcell⟩ := List.forall_mem_append.mp h
    have hne : ¬cell.nodes.length = 0 := fun hzero =>
      hcell cell List.mem_cons_self (List.length_eq_zero_iff.mp hzero)
    have hoffsets : Ragged.offsets (cells.map Cell.nodes) ≠ [] := fun hnil => by
      have hlength := Ragged.length_offsets (cells.map Cell.nodes)
      rw [hnil] at hlength
      cases hlength
    rw [List.foldl_append, ih hcells, List.foldl_cons, List.foldl_nil, Cells.add, if_neg hne, List.map_append,
      List.map_singleton, Ragged.offsets_concat, List.tail_append_of_ne_nil hoffsets, List.flatten_append,
      List.flatten_singleton, List.flatMap_append, List.length_append]

theorem emitType_ok {cell : Cell} {text : List Char} (h : emitType cell = .ok text) : souxmarToVtkCellType cell.type ≠ 0 := by
  intro hzero
  unfold emitType at h
  rw [if_pos hzero] at h
  cases h

theorem numNodes_pos {type : ElementType} (h : souxmarToVtkCellType type ≠ 0) : 0 < type.numNodes := by
  cases type with
  | unknown => exact absurd rfl h
  | _ => decide

theorem Held.nodes_ne {mesh : Mesh} (h : Held mesh) (htypes : ∀ cell ∈ mesh.cells, souxmarToVtkCellType cell.type ≠ 0) :
    ∀ cell ∈ mesh.cells, cell.nodes ≠ [] := by
  intro cell hcell hnil
  have hpos := numNodes_pos (htypes cell hcell)
  rw [← (h.valid cell hcell).1, hnil] at hpos
  exact Nat.lt_irrefl _ hpos

theorem emitCells_ok {mesh : Mesh} (hheld : Held mesh) {text : List Char} (h : emitCells mesh = .ok text) :
    (∀ cell ∈ mesh.cells, souxmarToVtkCellType cell.type ≠ 0) ∧
    text = (cellsGroup mesh).tokens.flatMap Token.print := by
  have hcells : emitCells mesh = (mesh.cells.mapM emitType).bind fun types => .ok ("      <Cells>\n".toList ++
    "        <DataArray type=\"Int64\" Name=\"connectivity\" format=\"ascii\">\n".toList ++ "          ".toList ++
    (mesh.cells.foldl Cells.add {}).connectivity ++ "\n        </DataArray>\n".toList ++
    "        <DataArray type=\"Int64\" Name=\"offsets\" format=\"ascii\">\n".toList ++ "          ".toList ++
    ((mesh.cells.foldl Cells.add {}).offsets.flatMap fun o => decimal o ++ [' ']) ++ "\n        </DataArray>\n".toList ++
    "        <DataArray type=\"UInt8\" Name=\"types\" format=\"ascii\">\n".toList ++ "          ".toList ++
    types.flatten ++ "\n        </DataArray>\n".toList ++ "      </Cells>\n".toList) := rfl
  rw [hcells] at h
  obtain ⟨types, hmap, htext⟩ := bind_ok_iff.mp h
  have hall := (mapM_ok_iff _ _).mp ⟨types, hmap⟩
  have htypes : ∀ cell ∈ mesh.cells, souxmarToVtkCellType cell.type ≠ 0 := fun cell hcell =>
    have ⟨_, hcell⟩ := hall cell hcell
    emitType_ok hcell
  refine ⟨htypes, ?_⟩
  have heach : mesh.cells.mapM emitType =
      .ok (mesh.cells.map fun cell => decimal (souxmarToVtkCellType cell.type) ++ [' ']) :=
    mapM_ok_map fun cell hcell => if_neg (htypes cell hcell)
  rw [heach] at hmap
  obtain rfl := Except.ok.inj hmap
  obtain rfl := Except.ok.inj htext
  have hopened : "      <Cells>\n".toList = "      ".toList ++ startTag "Cells".toList [] ++ "\n".toList := by
    decide
  have hclosed : "      </Cells>\n".toList = "      ".toList ++ endTag "Cells".toList ++ "\n".toList := by decide
  have hconnectivity : "        <DataArray type=\"Int64\" Name=\"connectivity\" format=\"ascii\">\n".toList =
      "        ".toList ++ startTag dataArray (cellsArray "Int64" "connectivity" []).attributes ++ "\n".toList := by
    decide
  have hoffsets : "        <DataArray type=\"Int64\" Name=\"offsets\" format=\"ascii\">\n".toList =
      "        ".toList ++ startTag dataArray (cellsArray "Int64" "offsets" []).attributes ++ "\n".toList := by
    decide
  have hkinds : "        <DataArray type=\"UInt8\" Name=\"types\" format=\"ascii\">\n".toList =
      "        ".toList ++ startTag dataArray (cellsArray "UInt8" "types" []).attributes ++ "\n".toList := by
    decide
  have harrays : ([cellsArray "Int64" "connectivity" (rows mesh).flatten, cellsArray "Int64" "offsets" (offsetsOf mesh),
      cellsArray "UInt8" "types" (typesOf mesh)].flatMap DataArray.tokens).flatMap Token.print =
      (cellsArray "Int64" "connectivity" (rows mesh).flatten).tokens.flatMap Token.print ++
        ((cellsArray "Int64" "offsets" (offsetsOf mesh)).tokens.flatMap Token.print ++
          (cellsArray "UInt8" "types" (typesOf mesh)).tokens.flatMap Token.print) := by
    simp only [List.flatMap_cons, List.flatMap_nil, List.append_nil, List.flatMap_append]
  rw [cellsGroup, ← group_text hopened hclosed, harrays, foldl_add (hheld.nodes_ne htypes)]
  have htypesText : (mesh.cells.map fun cell => decimal (souxmarToVtkCellType cell.type) ++ [' ']).flatten =
      (cellsArray "UInt8" "types" (typesOf mesh)).body := by
    show _ = (mesh.cells.map _).flatMap _
    rw [List.flatMap_map, List.flatMap_def]
  have hfirst := array_text hconnectivity (cellsArray "Int64" "connectivity" (rows mesh).flatten).body
  have hsecond := array_text hoffsets (cellsArray "Int64" "offsets" (offsetsOf mesh)).body
  have hthird := array_text hkinds (cellsArray "UInt8" "types" (typesOf mesh)).body
  rw [htypesText]
  refine Eq.trans ?_ (congrArg (fun text => "      <Cells>\n".toList ++ text ++ "      </Cells>\n".toList)
    (congr (congrArg HAppend.hAppend hfirst) (congr (congrArg HAppend.hAppend hsecond) hthird)))
  simp only [List.append_assoc]
  rfl

/-! ## The whole text -/

theorem opening_text (numNodes numCells : ℕ) : "<?xml version=\"1.0\"?>\n".toList ++
    "<VTKFile type=\"UnstructuredGrid\" version=\"1.0\" byte_order=\"LittleEndian\">\n".toList ++
    "  <UnstructuredGrid>\n".toList ++ "    <Piece NumberOfPoints=\"".toList ++ decimal numNodes ++
    "\" NumberOfCells=\"".toList ++ decimal numCells ++ "\">\n".toList =
    xmlDeclaration ++ ('\n' :: startTag vtkFile rootAttributes ++ (opening numNodes numCells).flatMap Token.print) := by
  have hfirst : "<?xml version=\"1.0\"?>\n".toList ++
      "<VTKFile type=\"UnstructuredGrid\" version=\"1.0\" byte_order=\"LittleEndian\">\n".toList ++
      "  <UnstructuredGrid>\n".toList ++ "    <Piece NumberOfPoints=\"".toList =
      xmlDeclaration ++ ('\n' :: startTag vtkFile rootAttributes ++ ("\n  ".toList ++ (startTag unstructuredGrid [] ++
        ("\n    ".toList ++ '<' :: (piece ++ ' ' :: ("NumberOfPoints".toList ++ ['=', '"'])))))) := by
    decide
  have hsecond : "\" NumberOfCells=\"".toList = '"' :: ' ' :: ("NumberOfCells".toList ++ ['=', '"']) := by decide
  have hthird : "\">\n".toList = '"' :: '>' :: "\n".toList := by decide
  have htokens : (opening numNodes numCells).flatMap Token.print = "\n  ".toList ++ (startTag unstructuredGrid [] ++
      ("\n    ".toList ++ (startTag piece (pieceAttributes numNodes numCells) ++ ("\n".toList ++ [])))) := rfl
  have hpiece : startTag piece (pieceAttributes numNodes numCells) = '<' :: piece ++
      (attributeText ("NumberOfPoints".toList, decimal numNodes) ++
        (attributeText ("NumberOfCells".toList, decimal numCells) ++ [])) ++ ['>'] := rfl
  rw [hfirst, hsecond, hthird, htokens, hpiece]
  simp only [attributeText, List.append_assoc, List.cons_append, List.nil_append, List.append_nil]

theorem closing_text : "    </Piece>\n".toList ++ "  </UnstructuredGrid>\n".toList ++ "</VTKFile>\n".toList =
    closing.flatMap Token.print ++ (endTag vtkFile ++ ['\n']) := by
  decide

section

variable {format : ℕ → UInt64 → List Char} {mesh : Mesh}

theorem components_le (field : Field) : field.components ≤ 9 := by
  unfold Field.components
  cases field.kind with
  | _ => decide

theorem fieldGroup_ok {field : Field} {n : Name} {opened closed text : List Char}
    (hsize : field.count * field.components < 2 ^ 64) (hopened : opened = "      ".toList ++ startTag n [] ++ "\n".toList)
    (hclosed : closed = "      ".toList ++ endTag n ++ "\n".toList)
    (h : (emitFieldArrays format field).map (fun arrays => opened ++ arrays ++ closed) = .ok text) :
    field.data.length = field.count * field.components * field.numTimeSteps ∧
    text = ([fieldGroup format n field].flatMap Group.tokens).flatMap Token.print := by
  cases harrays : emitFieldArrays format field with
  | error e =>
    rw [harrays] at h
    cases h
  | ok arrays =>
    rw [harrays] at h
    obtain ⟨hdata, rfl⟩ := emitFieldArrays_ok hsize harrays
    obtain rfl := Except.ok.inj h
    refine ⟨hdata, (group_text hopened hclosed _).trans ?_⟩
    rw [List.flatMap_singleton]
    rfl

/-- The field as its arrays, when it is written. -/
theorem emitField_ok (hheld : Held mesh) {field : Option Field} {text : List Char}
    (h : emitField format mesh field = .ok text) :
    (∀ f ∈ field, f.Written → f.data.length = f.count * f.components * f.numTimeSteps) ∧
    text = ((fieldGroups format field).flatMap Group.tokens).flatMap Token.print := by
  cases field with
  | none => exact ⟨fun f hf => (nomatch hf), (Except.ok.inj h).symm⟩
  | some field =>
    have hsmall : ∀ {n}, field.count = n → n ≤ 2 ^ 60 → field.count * field.components < 2 ^ 64 := by
      intro n hcount hn
      have hmul := Nat.mul_le_mul (show field.count ≤ 2 ^ 60 by omega) (components_le field)
      omega
    have hself : ∀ {P : Field → Prop}, P field → ∀ f ∈ some field, f.Written → P f :=
      fun hP f hf _ => Option.some.inj hf ▸ hP
    unfold emitField at h
    unfold fieldGroups
    dsimp only at h ⊢
    cases hlocation : field.location with
    | nodal =>
      rw [hlocation] at h
      dsimp only at h
      split at h
      · cases h
      · rename_i hcount
        have hopened : "      <PointData>\n".toList = "      ".toList ++ startTag "PointData".toList [] ++ "\n".toList := by
          decide
        have hclosed : "      </PointData>\n".toList = "      ".toList ++ endTag "PointData".toList ++ "\n".toList := by
          decide
        obtain ⟨hdata, htext⟩ := fieldGroup_ok (hsmall (not_not.mp hcount) hheld.nodes) hopened hclosed h
        exact ⟨hself hdata, htext⟩
    | cell =>
      rw [hlocation] at h
      dsimp only at h
      split at h
      · cases h
      · rename_i hcount
        have hopened : "      <CellData>\n".toList = "      ".toList ++ startTag "CellData".toList [] ++ "\n".toList := by
          decide
        have hclosed : "      </CellData>\n".toList = "      ".toList ++ endTag "CellData".toList ++ "\n".toList := by
          decide
        obtain ⟨hdata, htext⟩ := fieldGroup_ok (hsmall (not_not.mp hcount) hheld.cells) hopened hclosed h
        exact ⟨hself hdata, htext⟩
    | face =>
      rw [hlocation] at h
      refine ⟨fun f hf hwritten => ?_, (Except.ok.inj h).symm⟩
      obtain rfl := Option.some.inj hf
      rcases hwritten with hwritten | hwritten
      · rw [hlocation] at hwritten
        cases hwritten
      · rw [hlocation] at hwritten
        cases hwritten
    | gaussPoint =>
      rw [hlocation] at h
      refine ⟨fun f hf hwritten => ?_, (Except.ok.inj h).symm⟩
      obtain rfl := Option.some.inj hf
      rcases hwritten with hwritten | hwritten
      · rw [hlocation] at hwritten
        cases hwritten
      · rw [hlocation] at hwritten
        cases hwritten

theorem blob_ok (hheld : Held mesh) {field : Option Field} {text : List Char} (h : blob format mesh field = .ok text) :
    (∀ cell ∈ mesh.cells, souxmarToVtkCellType cell.type ≠ 0) ∧
    (∀ f ∈ field, f.Written → f.data.length = f.count * f.components * f.numTimeSteps) ∧
    text = gridText mesh.nodes.length mesh.cells.length (groupsOf format mesh field) := by
  unfold blob at h
  obtain ⟨cells, hcells, h⟩ := bind_ok_iff.mp h
  obtain ⟨arrays, harrays, h⟩ := bind_ok_iff.mp h
  obtain ⟨htypes, rfl⟩ := emitCells_ok hheld hcells
  obtain ⟨hdata, rfl⟩ := emitField_ok hheld harrays
  refine ⟨htypes, hdata, ?_⟩
  have hgrid : gridText mesh.nodes.length mesh.cells.length (groupsOf format mesh field) =
      xmlDeclaration ++ ('\n' :: startTag vtkFile rootAttributes ++
        (opening mesh.nodes.length mesh.cells.length).flatMap Token.print) ++
      ((pointsGroup format mesh).tokens.flatMap Token.print ++ ((cellsGroup mesh).tokens.flatMap Token.print ++
        ((fieldGroups format field).flatMap Group.tokens).flatMap Token.print)) ++
      (closing.flatMap Token.print ++ (endTag vtkFile ++ ['\n'])) := by
    simp only [gridText, document, gridTokens, groupsOf, List.flatMap_append, List.flatMap_cons, List.append_assoc,
      List.cons_append]
  rw [hgrid, ← opening_text, ← closing_text, ← emitPoints_eq, ← Except.ok.inj h]
  simp only [List.append_assoc]

end

end Souxmar.Plugins.Vtu
