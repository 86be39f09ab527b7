import Souxmar.Core.MeshRepresentation
import Souxmar.Plugins.ObjReader

/-!
# What an OBJ file says

The triangles of a text under the rules of OBJ (`trianglesFrom`): the vertices that a face names, counted from the
vertices read so far, the fan around the first of them, and the rank of the material in use. `parseObj_mesh` says that
a text that is accepted gives these triangles, and that the mesh is built from them without a refusal.
-/

namespace Souxmar.Plugins.Obj

open Souxmar.Lib Souxmar.Lib.Stream Souxmar.Core

/-! ## The rules -/

/-- The vertex that a reference names, counted from 0, when there are `n` so far. -/
def namedVertex (n : ℕ) (k : ℤ) : Option ℕ :=
  if 0 < k ∧ k ≤ n then some (k - 1).toNat
  else if k < 0 ∧ 0 ≤ n + k then some (n + k).toNat
  else none

/-- The vertex of a reference of a face after `n` vertices. -/
def referenced (n : ℕ) (tok : List Char) : Option ℕ := (decimalInteger (fieldHead tok)).bind (namedVertex n)

def lineKeyword (line : List Char) : Option (Keyword × List Char) :=
  (statement line).bind fun t => (keywordOf t.1).map fun k => (k, t.2)

def vertexCount (lines : List (List Char)) : ℕ :=
  lines.countP fun line => decide ((lineKeyword line).map Prod.fst = some .vertex)

/-- The references of a face. -/
def faceTokens (line : List Char) : Option (List (List Char)) :=
  (lineKeyword line).bind fun t => if t.1 = .face then some (tokens t.2) else none

/-- The material of a `usemtl` line, which may be missing. -/
def materialLine (line : List Char) : Option (Option (List Char)) :=
  (lineKeyword line).bind fun t => if t.1 = .usemtl then some ((token t.2).map Prod.fst) else none

def materials (lines : List (List Char)) : List (List Char) := lines.filterMap fun line => (materialLine line).join

/-- The material of the last `usemtl` line. -/
def activeMaterial (lines : List (List Char)) : Option (List Char) := (lines.filterMap materialLine).getLast?.join

/-- 1 for the material that comes up first. -/
def rank (lines : List (List Char)) (name : List Char) : ℕ := Intern.number (materials lines) name + 1

def activeTag (lines : List (List Char)) : ℤ :=
  match activeMaterial lines with
  | none => -1
  | some name => rank lines name

/-- The triangles around the first vertex of a face. -/
def fan : List ℕ → List (ℕ × ℕ × ℕ)
  | [] => []
  | first :: rest => (rest.zip rest.tail).map fun p => (first, p.1, p.2)

theorem length_fan (ids : List ℕ) : (fan ids).length = ids.length - 2 := by
  cases ids with
  | nil => rfl
  | cons first rest =>
    rw [fan, List.length_map, List.length_zip, List.length_tail, List.length_cons]
    omega

/-- The triangles of a line after the lines `before`, each with its tag. -/
def lineTriangles (before : List (List Char)) (line : List Char) : Option (List ((ℕ × ℕ × ℕ) × ℤ)) :=
  match faceTokens line with
  | none => some []
  | some toks =>
    (toks.mapM (referenced (vertexCount before))).map fun ids =>
      (fan ids).map fun t => (t, activeTag before)

/-- The triangles of all lines, in the order of the text. -/
def trianglesFrom (before : List (List Char)) : List (List Char) → Option (List ((ℕ × ℕ × ℕ) × ℤ))
  | [] => some []
  | line :: lines => do
    let here ← lineTriangles before line
    let more ← trianglesFrom (before ++ [line]) lines
    some (here ++ more)

def corners (t : (ℕ × ℕ × ℕ) × ℤ) : List ℕ := [t.1.1, t.1.2.1, t.1.2.2]

/-- What stands before the first slash is a decimal integer of at most 63 characters that fits in 64 bits. -/
def PlainReference (tok : List Char) : Prop :=
  (fieldHead tok).length ≤ 63 ∧ ∃ k : ℤ, decimalInteger (fieldHead tok) = some k ∧ -2 ^ 63 ≤ k ∧ k < 2 ^ 63

instance (tok : List Char) : Decidable (PlainReference tok) :=
  inferInstanceAs (Decidable
    ((fieldHead tok).length ≤ 63 ∧ ∃ k ∈ decimalInteger (fieldHead tok), -2 ^ 63 ≤ k ∧ k < 2 ^ 63))

/-- The texts whose faces have such references only. -/
def PlainFaces (text : List Char) : Prop :=
  ∀ line ∈ getLines text, ∀ toks ∈ faceTokens line, ∀ tok ∈ toks, PlainReference tok

instance (text : List Char) : Decidable (PlainFaces text) :=
  inferInstanceAs (Decidable (∀ line ∈ getLines text, ∀ toks ∈ faceTokens line, ∀ tok ∈ toks, PlainReference tok))

/-! ## References -/

theorem namedVertex_lt {n i : ℕ} {k : ℤ} (h : namedVertex n k = some i) : i < n := by
  unfold namedVertex at h
  split at h
  · have hi := Option.some.inj h
    omega
  · split at h
    · have hi := Option.some.inj h
      omega
    · cases h

theorem parseFaceField_plain {tok : List Char} (h : PlainReference tok) :
    ∃ k : ℤ, decimalInteger (fieldHead tok) = some k ∧ (parseFaceField tok).toInt = k := by
  obtain ⟨hlen, k, hk, hlo, hhi⟩ := h
  refine ⟨k, hk, ?_⟩
  have hne : ¬(fieldHead tok).isEmpty = true := by
    intro hempty
    rw [List.isEmpty_iff.mp hempty] at hk
    cases hk
  unfold parseFaceField
  dsimp only
  rw [if_neg hne, List.take_of_length_le hlen, strtoll_decimal hk, Option.getD_some]
  exact Int64.toInt_ofIntClamp hlo (Int.le_of_lt_add_one hhi)

theorem resolveIndex_named {n : ℕ} (hn : n < 2 ^ 62) (k : Int64) :
    (resolveIndex k n).toInt = (namedVertex n k.toInt).elim (-1) (fun i => (i : ℤ)) := by
  have hlo := k.le_toInt
  have hhi := k.toInt_lt
  have hzero : (0 : Int64).toInt = 0 := rfl
  have hone : (1 : Int64).toInt = 1 := rfl
  have hcast : (Int64.ofNat n).toInt = n := Int64.toInt_ofNat_of_lt (by omega)
  have hsub : (k - 1).toInt = (k.toInt - 1).bmod (2 ^ 64) := by rw [Int64.toInt_sub, hone]
  have hadd : (Int64.ofNat n + k).toInt = (n + k.toInt).bmod (2 ^ 64) := by rw [Int64.toInt_add, hcast]
  unfold resolveIndex namedVertex
  by_cases hpos : 0 < k.toInt
  · have hexact : (k - 1).toInt = k.toInt - 1 := by rw [hsub, Int.bmod_eq_of_le (by omega) (by omega)]
    rw [if_pos (Int64.lt_iff_toInt_lt.mpr (hzero ▸ hpos))]
    dsimp only
    by_cases hin : k.toInt ≤ n
    · rw [if_neg (fun h => by rw [ge_iff_le, Int64.le_iff_toInt_le, hcast, hexact] at h; omega), if_pos ⟨hpos, hin⟩, hexact]
      show k.toInt - 1 = ((k.toInt - 1).toNat : ℤ)
      omega
    · rw [if_pos (by rw [ge_iff_le, Int64.le_iff_toInt_le, hcast, hexact]; omega), if_neg (fun h => hin h.2),
        if_neg (fun h => absurd h.1 (by omega))]
      rfl
  · have hnotpos : ¬k > 0 := fun h => hpos (hzero ▸ Int64.lt_iff_toInt_lt.mp h)
    have hnotfront : ¬(0 < k.toInt ∧ k.toInt ≤ n) := fun h => hpos h.1
    rw [if_neg hnotpos, if_neg hnotfront]
    by_cases hneg : k.toInt < 0
    · have hexact : (Int64.ofNat n + k).toInt = n + k.toInt := by rw [hadd, Int.bmod_eq_of_le (by omega) (by omega)]
      rw [if_pos (Int64.lt_iff_toInt_lt.mpr (hzero ▸ hneg))]
      dsimp only
      by_cases hin : 0 ≤ n + k.toInt
      · rw [if_neg (fun h => by rw [Int64.lt_iff_toInt_lt, hexact, hzero] at h; omega), if_pos ⟨hneg, hin⟩, hexact]
        show n + k.toInt = ((n + k.toInt).toNat : ℤ)
        omega
      · rw [if_pos (by rw [Int64.lt_iff_toInt_lt, hexact, hzero]; omega), if_neg (fun h => hin h.2)]
        rfl
    · have hnotneg : ¬k < 0 := fun h => hneg (hzero ▸ Int64.lt_iff_toInt_lt.mp h)
      have hnotback : ¬(k.toInt < 0 ∧ 0 ≤ n + k.toInt) := fun h => hneg h.1
      rw [if_neg hnotneg, if_neg hnotback]
      rfl

theorem pushIndex_ok {n : ℕ} (hn : n < 2 ^ 62) {tok : List Char} (hplain : PlainReference tok) {acc acc' : List Int64}
    (h : pushIndex n acc tok = .ok acc') : ∃ id, referenced n tok = some id ∧ acc' = acc ++ [Int64.ofNat id] := by
  obtain ⟨k, hk, hfield⟩ := parseFaceField_plain hplain
  unfold pushIndex at h
  dsimp only at h
  split at h
  · cases h
  · split at h
    · cases h
    · rename_i hneg
      have hresolved := resolveIndex_named hn (parseFaceField tok)
      rw [hfield] at hresolved
      have hzero : (0 : Int64).toInt = 0 := rfl
      rw [Int64.lt_iff_toInt_lt, hresolved, hzero] at hneg
      cases hname : namedVertex n k with
      | none =>
        rw [hname] at hneg
        exact absurd (by decide) hneg
      | some id =>
        have hlt := namedVertex_lt hname
        rw [hname] at hresolved
        have hidx : resolveIndex (parseFaceField tok) n = Int64.ofNat id :=
          Int64.toInt_inj.mp (hresolved.trans (Int64.toInt_ofNat_of_lt (by omega)).symm)
        rw [hidx] at h
        exact ⟨id, by rw [referenced, hk, Option.bind_some, hname], (Except.ok.inj h).symm⟩

theorem referenced_lt {n id : ℕ} {tok : List Char} (h : referenced n tok = some id) : id < n := by
  obtain ⟨k, -, hk⟩ := Option.bind_eq_some_iff.mp h
  exact namedVertex_lt hk

theorem pushIndex_face {n : ℕ} (hn : n < 2 ^ 62) {toks : List (List Char)} (hplain : ∀ tok ∈ toks, PlainReference tok)
    {acc idx : List Int64} (h : toks.foldlM (pushIndex n) acc = .ok idx) :
    ∃ ids, toks.mapM (referenced n) = some ids ∧ idx = acc ++ ids.map Int64.ofNat ∧ ∀ id ∈ ids, id < n := by
  induction toks generalizing acc with
  | nil =>
    cases h
    exact ⟨[], rfl, (List.append_nil _).symm, fun id hid => absurd hid List.not_mem_nil⟩
  | cons tok toks ih =>
    obtain ⟨htok, htoks⟩ := List.forall_mem_cons.mp hplain
    rw [List.foldlM_cons] at h
    cases hstep : pushIndex n acc tok with
    | error e =>
      rw [hstep] at h
      cases h
    | ok acc' =>
      rw [hstep] at h
      obtain ⟨id, hid, rfl⟩ := pushIndex_ok hn htok hstep
      obtain ⟨ids, hids, rfl, hlt⟩ := ih htoks h
      refine ⟨id :: ids, ?_, ?_, List.forall_mem_cons.mpr ⟨referenced_lt hid, hlt⟩⟩
      · rw [List.mapM_cons, hid, hids]
        rfl
      · rw [List.map_cons, List.append_assoc, List.singleton_append]

theorem fanNodes_eq (ids : List ℕ) (tag : ℤ) :
    fanNodes (ids.map Int64.ofNat) = (((fan ids).map fun t => (t, tag)).flatMap corners).map UInt64.ofNat := by
  have hget : ∀ i, ((ids.map Int64.ofNat).getD i 0).toUInt64 = UInt64.ofNat (ids.getD i 0) := by
    intro i
    rw [← Int64.toUInt64_ofNat']
    exact congrArg Int64.toUInt64 (List.getD_map ids 0 Int64.ofNat)
  have hfan : fan ids = (List.range' 1 (ids.length - 2)).map fun i => (ids.getD 0 0, ids.getD i 0, ids.getD (i + 1) 0) := by
    cases ids with
    | nil => rfl
    | cons first rest =>
      apply List.ext_getElem
      · rw [length_fan, List.length_map, List.length_range']
      · intro i hi hi'
        rw [length_fan, List.length_cons] at hi
        have hlast : i + 1 < rest.length := by omega
        simp only [fan, List.getElem_map, List.getElem_zip, List.getElem_tail, List.getElem_range', Nat.one_mul]
        rw [Nat.add_comm 1 i, List.getD_cons_zero, List.getD_cons_succ, List.getD_cons_succ,
          List.getD_eq_getElem _ _ (by omega), List.getD_eq_getElem _ _ hlast]
  unfold fanNodes
  simp only [hget, List.length_map, hfan, List.map_flatMap, List.flatMap_map, corners, List.map_cons, List.map_nil]

/-! ## Lines -/

section

variable {readCoords : List Char → Option (UInt64 × UInt64 × UInt64)}

/-- The steps of the parser, by what is on the line. -/
inductive Moves (s : Parser) : Option (Keyword × List Char) → Parser → Prop
  | passed : Moves s none s
  | vertex (iss : List Char) (p : UInt64 × UInt64 × UInt64) (hroom : s.flatCoords.length + 3 ≤ maxDoubles) :
    Moves s (some (.vertex, iss)) { s with flatCoords := s.flatCoords ++ [p.1, p.2.1, p.2.2] }
  | face (iss : List Char) (idx : List Int64) (hlen : 3 ≤ idx.length)
    (hidx : (tokens iss).foldlM (pushIndex (s.flatCoords.length / 3)) [] = .ok idx) :
    Moves s (some (.face, iss)) (s.addFace idx)
  | noMaterial (iss : List Char) (hname : token iss = none) :
    Moves s (some (.usemtl, iss)) { s with currentTag := -1 }
  | material (iss name more : List Char) (hname : token iss = some (name, more)) :
    Moves s (some (.usemtl, iss)) (s.useMaterial name)

theorem parseLine_moves {s s' : Parser} {line : List Char} (h : parseLine readCoords s line = .ok s') :
    Moves s (lineKeyword line) s' := by
  unfold parseLine at h
  unfold lineKeyword
  cases hstatement : statement line with
  | none =>
    rw [hstatement] at h
    cases h
    exact .passed
  | some t =>
    obtain ⟨head, iss⟩ := t
    rw [hstatement] at h
    dsimp only [Option.bind_some] at h ⊢
    cases hkey : keywordOf head with
    | none =>
      rw [hkey] at h
      cases h
      exact .passed
    | some key =>
      rw [hkey] at h
      cases key with
      | vertex =>
        dsimp only at h
        cases hread : readCoords iss with
        | none =>
          rw [hread] at h
          cases h
        | some p =>
          rw [hread] at h
          dsimp only at h
          split at h
          · cases h
          · rename_i hroom
            cases h
            exact .vertex iss p (Nat.not_lt.mp hroom)
      | face =>
        dsimp only at h
        cases hidx : (tokens iss).foldlM (pushIndex (s.flatCoords.length / 3)) [] with
        | error e =>
          rw [hidx] at h
          cases h
        | ok idx =>
          rw [hidx] at h
          dsimp only [bind, Except.bind] at h
          split at h
          · cases h
          · rename_i hlen
            cases h
            exact .face iss idx (Nat.not_lt.mp hlen) hidx
      | usemtl =>
        dsimp only at h
        cases hname : token iss with
        | none =>
          rw [hname] at h
          cases h
          exact .noMaterial iss hname
        | some t =>
          obtain ⟨name, more⟩ := t
          rw [hname] at h
          cases h
          exact .material iss name more hname

/-! ## The invariant -/

/-- The triangles of the parser are those of the lines `before`; their corners exist, and their tags are ranks. -/
def TrianglesRead (before : List (List Char)) (s : Parser) : Prop :=
  ∃ tris, trianglesFrom [] before = some tris ∧
    s.triNodes = (tris.flatMap corners).map UInt64.ofNat ∧ s.triTags = tris.map (fun t => Int32.ofInt t.2) ∧
    (∀ i ∈ tris.flatMap corners, i < vertexCount before) ∧
    ∀ t ∈ tris, -1 ≤ t.2 ∧ t.2 ≤ (Intern.interned (materials before)).length

/-- What the parser has after the lines `before`. -/
structure Read (before : List (List Char)) (s : Parser) : Prop where
  coords : s.flatCoords.length = 3 * vertexCount before
  room : s.flatCoords.length ≤ maxDoubles
  numbered : s.materialTag.entries.length = (Intern.interned (materials before)).length
  lookup : ∀ name, s.materialTag.lookup name =
    if name ∈ materials before then some (Int32.ofNat (rank before name)) else none
  tag : s.currentTag = Int32.ofInt (activeTag before)
  triangles : TrianglesRead before s

theorem trianglesFrom_cons (before : List (List Char)) (line : List Char) (lines : List (List Char)) :
    trianglesFrom before (line :: lines) =
      (lineTriangles before line).bind fun tris => (trianglesFrom (before ++ [line]) lines).map (tris ++ ·) := by
  rw [trianglesFrom]
  cases lineTriangles before line with
  | none => rfl
  | some tris => cases trianglesFrom (before ++ [line]) lines <;> rfl

theorem trianglesFrom_concat (start before : List (List Char)) (line : List Char) :
    trianglesFrom start (before ++ [line]) =
      (trianglesFrom start before).bind fun tris => (lineTriangles (start ++ before) line).map (tris ++ ·) := by
  induction before generalizing start with
  | nil =>
    rw [List.nil_append, trianglesFrom_cons, List.append_nil]
    cases lineTriangles start line with
    | none => rfl
    | some tris => exact congrArg some (List.append_nil tris)
  | cons first before ih =>
    rw [List.cons_append, trianglesFrom_cons, trianglesFrom_cons, ih, List.append_assoc, List.singleton_append]
    cases lineTriangles start first with
    | none => rfl
    | some tris =>
      cases trianglesFrom (start ++ [first]) before with
      | none => rfl
      | some more =>
        cases lineTriangles (start ++ first :: before) line with
        | none => rfl
        | some last => exact congrArg some (List.append_assoc tris more last).symm

theorem read_start : Read [] {} where
  coords := rfl
  room := Nat.zero_le _
  numbered := rfl
  lookup _ := rfl
  tag := rfl
  triangles := ⟨[], rfl, rfl, rfl, fun _ hi => absurd hi List.not_mem_nil, fun _ ht => absurd ht List.not_mem_nil⟩

theorem vertexCount_concat (before : List (List Char)) (line : List Char) :
    vertexCount (before ++ [line]) =
      vertexCount before + if (lineKeyword line).map Prod.fst = some .vertex then 1 else 0 := by
  unfold vertexCount
  rw [List.countP_append, List.countP_singleton]
  congr 1
  exact if_congr decide_eq_true_iff rfl rfl

theorem materials_concat (before : List (List Char)) (line : List Char) :
    materials (before ++ [line]) = materials before ++ (materialLine line).join.toList := by
  unfold materials
  have hone : [line].filterMap (fun line => (materialLine line).join) = (materialLine line).join.toList := by
    rw [List.filterMap_cons]
    cases (materialLine line).join <;> rfl
  rw [List.filterMap_append, hone]

theorem activeMaterial_concat (before : List (List Char)) (line : List Char) :
    activeMaterial (before ++ [line]) = (materialLine line).elim (activeMaterial before) id := by
  unfold activeMaterial
  rw [List.filterMap_append, List.filterMap_cons, List.filterMap_nil]
  cases materialLine line with
  | none => exact congrArg (fun l : List _ => l.getLast?.join) (List.append_nil _)
  | some name => exact congrArg Option.join List.getLast?_concat

theorem length_interned_concat_le (before : List (List Char)) (line : List Char) :
    (Intern.interned (materials before)).length ≤ (Intern.interned (materials (before ++ [line]))).length := by
  rw [materials_concat]
  cases (materialLine line).join with
  | none => exact le_of_eq (congrArg (fun l => (Intern.interned l).length) (List.append_nil _).symm)
  | some name =>
    rw [Option.toList_some, Intern.interned_concat]
    exact (Intern.prefix_intern _ name).length_le

theorem TrianglesRead.idle {before : List (List Char)} {s s' : Parser} (h : TrianglesRead before s) {line : List Char}
    (hface : faceTokens line = none) (hnodes : s'.triNodes = s.triNodes) (htags : s'.triTags = s.triTags) :
    TrianglesRead (before ++ [line]) s' := by
  obtain ⟨tris, htris, hn, ht, hlt, hrank⟩ := h
  have hline : lineTriangles ([] ++ before) line = some [] := by rw [lineTriangles, hface]
  refine ⟨tris, ?_, hnodes.trans hn, htags.trans ht, fun i hi => ?_, fun t ht => ?_⟩
  · rw [trianglesFrom_concat, htris, Option.bind_some, hline]
    exact congrArg some (List.append_nil tris)
  · rw [vertexCount_concat]
    exact (hlt i hi).trans_le (Nat.le_add_right ..)
  · have hmore := length_interned_concat_le before line
    obtain ⟨hlo, hhi⟩ := hrank t ht
    exact ⟨hlo, Int.le_trans hhi (Int.ofNat_le.mpr hmore)⟩

theorem rank_le {before : List (List Char)} {name : List Char} (h : name ∈ materials before) :
    rank before name ≤ (Intern.interned (materials before)).length :=
  Intern.number_lt h

theorem activeMaterial_mem {before : List (List Char)} {name : List Char} (h : activeMaterial before = some name) :
    name ∈ materials before := by
  obtain hlast := Option.join_eq_some_iff.mp h
  obtain ⟨line, hline, hname⟩ := List.mem_filterMap.mp (List.mem_of_getLast? hlast)
  exact List.mem_filterMap.mpr ⟨line, hline, by rw [hname]; rfl⟩

theorem activeTag_bounds (before : List (List Char)) :
    -1 ≤ activeTag before ∧ activeTag before ≤ (Intern.interned (materials before)).length := by
  unfold activeTag
  cases hactive : activeMaterial before with
  | none =>
    dsimp only
    omega
  | some name =>
    have hle := rank_le (activeMaterial_mem hactive)
    dsimp only
    omega

theorem materials_idle {line : List Char} (h : materialLine line = none) (before : List (List Char)) :
    materials (before ++ [line]) = materials before ∧ activeTag (before ++ [line]) = activeTag before := by
  have hmaterials : materials (before ++ [line]) = materials before := by
    rw [materials_concat, h]
    exact List.append_nil _
  have hactive : activeMaterial (before ++ [line]) = activeMaterial before := by rw [activeMaterial_concat, h]; rfl
  refine ⟨hmaterials, ?_⟩
  unfold activeTag
  rw [hactive]
  unfold rank
  rw [hmaterials]

theorem Read.idle {before : List (List Char)} {s s' : Parser} (h : Read before s) {line : List Char}
    (hmaterial : materialLine line = none) (htable : s'.materialTag = s.materialTag) (htag : s'.currentTag = s.currentTag)
    (hcoords : s'.flatCoords.length = 3 * vertexCount (before ++ [line])) (hroom : s'.flatCoords.length ≤ maxDoubles)
    (htriangles : TrianglesRead (before ++ [line]) s') : Read (before ++ [line]) s' := by
  obtain ⟨hmaterials, hactive⟩ := materials_idle hmaterial before
  refine ⟨hcoords, hroom, ?_, fun name => ?_, ?_, htriangles⟩
  · rw [htable, hmaterials]
    exact h.numbered
  · unfold rank
    rw [htable, hmaterials]
    exact h.lookup name
  · rw [htag, hactive]
    exact h.tag

theorem TrianglesRead.face {before : List (List Char)} {s : Parser} (h : Read before s) {line : List Char}
    {toks : List (List Char)} (hface : faceTokens line = some toks) (hplain : ∀ tok ∈ toks, PlainReference tok)
    {idx : List Int64} (hidx : toks.foldlM (pushIndex (s.flatCoords.length / 3)) [] = .ok idx) :
    TrianglesRead (before ++ [line]) (s.addFace idx) := by
  have hcount : s.flatCoords.length / 3 = vertexCount before := by rw [h.coords, Nat.mul_div_cancel_left _ (by decide)]
  have hsmall : vertexCount before < 2 ^ 62 := by
    have hroom := h.room
    rw [h.coords, maxDoubles] at hroom
    omega
  rw [hcount] at hidx
  obtain ⟨ids, hids, rfl, hlt⟩ := pushIndex_face hsmall hplain hidx
  rw [List.nil_append]
  obtain ⟨tris, htris, hnodes, htags, hbelow, hrank⟩ := h.triangles
  have hline : lineTriangles ([] ++ before) line = some ((fan ids).map fun t => (t, activeTag before)) := by
    rw [lineTriangles, hface, List.nil_append]
    dsimp only
    rw [hids]
    rfl
  have hmore := length_interned_concat_le before line
  have hcorner : ∀ t ∈ fan ids, t.1 ∈ ids ∧ t.2.1 ∈ ids ∧ t.2.2 ∈ ids := by
    intro t ht
    cases ids with
    | nil => cases ht
    | cons first rest =>
      obtain ⟨p, hp, rfl⟩ := List.mem_map.mp ht
      obtain ⟨hp₁, hp₂⟩ := List.of_mem_zip hp
      exact ⟨List.mem_cons_self, List.mem_cons_of_mem _ hp₁, List.mem_cons_of_mem _ (List.mem_of_mem_tail hp₂)⟩
  refine ⟨tris ++ (fan ids).map fun t => (t, activeTag before), ?_, ?_, ?_, fun i hi => ?_, fun t ht => ?_⟩
  · rw [trianglesFrom_concat, htris, Option.bind_some, hline]
    rfl
  · show s.triNodes ++ fanNodes (ids.map Int64.ofNat) = _
    rw [fanNodes_eq ids (activeTag before), hnodes, List.flatMap_append, List.map_append]
  · show s.triTags ++ List.replicate ((ids.map Int64.ofNat).length - 2) s.currentTag = _
    rw [htags, h.tag, List.length_map, List.map_append, List.map_map, ← length_fan]
    exact congrArg _ List.map_const'.symm
  · rw [vertexCount_concat]
    refine Nat.lt_of_lt_of_le ?_ (Nat.le_add_right ..)
    rw [List.flatMap_append] at hi
    rcases List.mem_append.mp hi with hi | hi
    · exact hbelow i hi
    · obtain ⟨t, ht, hi⟩ := List.mem_flatMap.mp hi
      obtain ⟨triangle, hin, rfl⟩ := List.mem_map.mp ht
      obtain ⟨h₁, h₂, h₃⟩ := hcorner triangle hin
      simp only [corners, List.mem_cons, List.not_mem_nil, or_false] at hi
      rcases hi with rfl | rfl | rfl
      · exact hlt _ h₁
      · exact hlt _ h₂
      · exact hlt _ h₃
  · rcases List.mem_append.mp ht with ht | ht
    · obtain ⟨hlo, hhi⟩ := hrank t ht
      exact ⟨hlo, Int.le_trans hhi (Int.ofNat_le.mpr hmore)⟩
    · obtain ⟨t, -, rfl⟩ := List.mem_map.mp ht
      obtain ⟨hlo, hhi⟩ := activeTag_bounds before
      exact ⟨hlo, Int.le_trans hhi (Int.ofNat_le.mpr hmore)⟩

theorem Read.material {before : List (List Char)} {s : Parser} (h : Read before s) {line name : List Char}
    (hmaterial : materialLine line = some (some name)) (hface : faceTokens line = none)
    (hvertex : vertexCount (before ++ [line]) = vertexCount before) : Read (before ++ [line]) (s.useMaterial name) := by
  have hmaterials : materials (before ++ [line]) = materials before ++ [name] := by rw [materials_concat, hmaterial]; rfl
  have hactive : activeTag (before ++ [line]) = rank (before ++ [line]) name := by
    unfold activeTag
    rw [activeMaterial_concat, hmaterial]
    rfl
  have hlookup := h.lookup name
  unfold Parser.useMaterial
  by_cases hmem : name ∈ materials before
  · -- A material that is known: the table stays.
    have hinterned : Intern.interned (materials (before ++ [line])) = Intern.interned (materials before) := by
      rw [hmaterials, Intern.interned_concat_of_mem hmem]
    have hrank : ∀ other, rank (before ++ [line]) other = rank before other := fun other => by
      rw [rank, rank, hmaterials, Intern.number_concat_of_mem hmem]
    rw [if_pos hmem] at hlookup
    rw [hlookup]
    refine ⟨by rw [hvertex]; exact h.coords, h.room, ?_, fun other => ?_, ?_, h.triangles.idle hface rfl rfl⟩
    · rw [hinterned]
      exact h.numbered
    · rw [hrank, hmaterials]
      refine (h.lookup other).trans ?_
      by_cases hother : other ∈ materials before
      · rw [if_pos hother, if_pos (List.mem_append_left _ hother)]
      · have hnot : other ∉ materials before ++ [name] := fun hin =>
          (List.mem_append.mp hin).elim hother fun hlast => hother (List.mem_singleton.mp hlast ▸ hmem)
        rw [if_neg hother, if_neg hnot]
    · rw [hactive, Int32.ofInt_eq_ofNat, hrank]
  · -- A new one takes the next tag.
    have hnext : rank (before ++ [line]) name = s.materialTag.entries.length + 1 := by
      unfold rank
      rw [hmaterials, Intern.number_concat hmem, h.numbered]
    rw [if_neg hmem] at hlookup
    have hnotin : name ∉ s.materialTag := AList.lookup_eq_none.mp hlookup
    rw [hlookup]
    refine ⟨by rw [hvertex]; exact h.coords, h.room, ?_, fun other => ?_, ?_, h.triangles.idle hface rfl rfl⟩
    · dsimp only [Dict.emplace]
      rw [if_neg hnotin, AList.insert_of_notMem hnotin, hmaterials, Intern.length_interned_concat hmem, ← h.numbered]
      rfl
    · dsimp only
      rw [Dict.lookup_emplace, hlookup, Option.getD_none, ← hnext, hmaterials]
      by_cases hlast : other = name
      · rw [if_pos hlast, if_pos (List.mem_append_right _ (List.mem_singleton.mpr hlast)), hlast]
      · rw [if_neg hlast, h.lookup other]
        by_cases hother : other ∈ materials before
        · rw [if_pos hother, if_pos (List.mem_append_left _ hother)]
          unfold rank
          rw [hmaterials, Intern.number_append hother]
        · have hnot : other ∉ materials before ++ [name] := fun hin =>
            (List.mem_append.mp hin).elim hother fun hin => hlast (List.mem_singleton.mp hin)
          rw [if_neg hother, if_neg hnot]
    · rw [hactive, Int32.ofInt_eq_ofNat, hnext]

theorem Read.step {before : List (List Char)} {s s' : Parser} {line : List Char} (h : Read before s)
    (hplain : ∀ toks, faceTokens line = some toks → ∀ tok ∈ toks, PlainReference tok)
    (hmove : Moves s (lineKeyword line) s') : Read (before ++ [line]) s' := by
  have hvertexCount := vertexCount_concat before line
  have hfaceTokens : faceTokens line =
      (lineKeyword line).bind fun t => if t.1 = .face then some (tokens t.2) else none := rfl
  have hmaterialLine : materialLine line =
      (lineKeyword line).bind fun t => if t.1 = .usemtl then some ((token t.2).map Prod.fst) else none := rfl
  generalize lineKeyword line = key at hmove hvertexCount hfaceTokens hmaterialLine
  cases hmove with
  | passed => exact h.idle hmaterialLine rfl rfl (hvertexCount ▸ h.coords) h.room (h.triangles.idle hfaceTokens rfl rfl)
  | vertex iss p hroom =>
    have hmore : vertexCount (before ++ [line]) = vertexCount before + 1 := hvertexCount
    refine h.idle hmaterialLine rfl rfl ?_ ?_ (h.triangles.idle hfaceTokens rfl rfl)
    · rw [hmore, List.length_append, h.coords]
      rfl
    · rw [List.length_append]
      exact hroom
  | face iss idx hlen hidx =>
    have hsame : vertexCount (before ++ [line]) = vertexCount before := hvertexCount
    have htoks : faceTokens line = some (tokens iss) := hfaceTokens
    exact h.idle hmaterialLine rfl rfl (hsame ▸ h.coords) h.room (TrianglesRead.face h htoks (hplain _ htoks) hidx)
  | noMaterial iss hname =>
    have hsame : vertexCount (before ++ [line]) = vertexCount before := hvertexCount
    have hmaterial : materialLine line = some none := by
      rw [hmaterialLine, Option.bind_some, if_pos rfl, hname]
      rfl
    have hmaterials : materials (before ++ [line]) = materials before := by
      rw [materials_concat, hmaterial]
      exact List.append_nil _
    have hactive : activeMaterial (before ++ [line]) = none := by
      rw [activeMaterial_concat, hmaterial]
      rfl
    refine ⟨hsame ▸ h.coords, h.room, hmaterials ▸ h.numbered, fun name => ?_, ?_, h.triangles.idle hfaceTokens rfl rfl⟩
    · unfold rank
      rw [hmaterials]
      exact h.lookup name
    · unfold activeTag
      rw [hactive]
      rfl
  | material iss name more hname =>
    have hmaterial : materialLine line = some (some name) := by
      rw [hmaterialLine, Option.bind_some, if_pos rfl, hname]
      rfl
    exact h.material hmaterial hfaceTokens hvertexCount

theorem read_of_parsed {text : List Char} (hplain : PlainFaces text) {s : Parser}
    (h : (getLines text).foldlM (parseLine readCoords) {} = .ok s) : Read (getLines text) s := by
  exact foldlM_ok_invariant (P := Read) (fun hline hread hstep => hread.step (hplain _ hline) (parseLine_moves hstep))
    read_start h

end

/-! ## The mesh -/

theorem length_addNodeAt (s : Parser) (mesh : MeshImpl) (i : ℕ) :
    (addNodeAt s mesh i).nodes.length = mesh.nodes.length + 3 := by
  unfold addNodeAt MeshImpl.addNode
  rw [grow_all fun _ => rfl]
  simp only [List.foldl_cons, List.foldl_nil, MeshImpl.pushNode, List.length_append, List.length_singleton]

theorem length_addNodes (s : Parser) : (addNodes s).nodes.length = s.flatCoords.length / 3 * 3 := by
  have hrun : ∀ (is : List ℕ) (mesh : MeshImpl),
      (is.foldl (addNodeAt s) mesh).nodes.length = mesh.nodes.length + is.length * 3 := by
    intro is
    induction is with
    | nil => exact fun mesh => rfl
    | cons i is ih =>
      intro mesh
      rw [List.foldl_cons, ih, length_addNodeAt, List.length_cons]
      omega
  unfold addNodes
  rw [hrun, List.length_range]
  exact Nat.zero_add _

theorem addTriangle_ok {s : Parser} {mesh : MeshImpl} {i : ℕ} (hi : i * 3 + 2 < s.triNodes.length)
    (hnodes : ∀ node ∈ s.triNodes, node.toNat < mesh.nodes.length / 3) :
    (∃ cell, (addTriangle s mesh i).1 = .ok cell) ∧ (addTriangle s mesh i).2.nodes = mesh.nodes := by
  have hcorner : ∀ k, k < s.triNodes.length → s.triNodes.getD k 0 ∈ s.triNodes := fun k hk => by
    rw [List.getD_eq_getElem _ _ hk]
    exact List.getElem_mem hk
  have hrange : ¬∃ node ∈ [s.triNodes.getD (i * 3) 0, s.triNodes.getD (i * 3 + 1) 0, s.triNodes.getD (i * 3 + 2) 0],
      node.toNat ≥ mesh.nodes.length / 3 := by
    rintro ⟨node, hnode, hge⟩
    simp only [List.mem_cons, List.not_mem_nil, or_false] at hnode
    have hin : node ∈ s.triNodes := by
      rcases hnode with rfl | rfl | rfl
      · exact hcorner _ (by omega)
      · exact hcorner _ (by omega)
      · exact hcorner _ (by omega)
    exact absurd (hnodes node hin) (Nat.not_lt.mpr hge)
  unfold addTriangle MeshImpl.addCell
  rw [if_neg (by simp [ElementType.numNodes]), if_neg hrange, grow_all fun _ => rfl]
  exact ⟨⟨_, rfl⟩, rfl⟩

theorem objRead_ok {s : Parser} (hnodes : ∀ node ∈ s.triNodes, node.toNat < s.flatCoords.length / 3) :
    (objRead s).2.length = s.triNodes.length / 3 ∧ ∀ answer ∈ (objRead s).2, ∃ cell, answer = .ok cell := by
  have hrun : ∀ (is : List ℕ) (state : MeshImpl × List (Except Exception UInt64)),
      (∀ i ∈ is, i * 3 + 2 < s.triNodes.length) → state.1.nodes.length = s.flatCoords.length / 3 * 3 →
      (∀ answer ∈ state.2, ∃ cell, answer = .ok cell) →
      (is.foldl (addCellAt s) state).2.length = state.2.length + is.length ∧
        ∀ answer ∈ (is.foldl (addCellAt s) state).2, ∃ cell, answer = .ok cell := by
    intro is
    induction is with
    | nil => exact fun state _ _ hanswers => ⟨rfl, hanswers⟩
    | cons i is ih =>
      intro state hin hlen hanswers
      obtain ⟨hi, his⟩ := List.forall_mem_cons.mp hin
      have hthere : ∀ node ∈ s.triNodes, node.toNat < state.1.nodes.length / 3 := by
        rw [hlen, Nat.mul_div_cancel _ (by decide)]
        exact hnodes
      obtain ⟨hok, hsame⟩ := addTriangle_ok hi hthere
      have hmore : ∀ answer ∈ (addCellAt s state i).2, ∃ cell, answer = .ok cell := by
        intro answer hanswer
        rcases List.mem_append.mp hanswer with hanswer | hanswer
        · exact hanswers answer hanswer
        · rw [List.mem_singleton.mp hanswer]
          exact hok
      have hnext := ih (addCellAt s state i) his ((congrArg List.length hsame).trans hlen) hmore
      rw [List.foldl_cons]
      refine ⟨hnext.1.trans ?_, hnext.2⟩
      show (state.2 ++ [_]).length + is.length = _
      rw [List.length_append, List.length_singleton, List.length_cons]
      omega
  have hin : ∀ i ∈ List.range (s.triNodes.length / 3), i * 3 + 2 < s.triNodes.length := by
    intro i hi
    have hlt := List.mem_range.mp hi
    omega
  have h := hrun _ (addNodes s, []) hin (length_addNodes s) fun answer hanswer => absurd hanswer List.not_mem_nil
  rw [List.length_nil, Nat.zero_add, List.length_range] at h
  exact h

theorem length_flatMap_corners (tris : List ((ℕ × ℕ × ℕ) × ℤ)) : (tris.flatMap corners).length = 3 * tris.length := by
  induction tris with
  | nil => rfl
  | cons t tris ih =>
    rw [List.flatMap_cons, List.length_append, ih, List.length_cons]
    show 3 + 3 * tris.length = _
    omega

/-- A text that is accepted gives the triangles that the rules of OBJ give: their corners are vertices of the file,
their tags the ranks of the materials, and every call of `add_cell` succeeds. -/
theorem parseObj_mesh {readCoords : List Char → Option (UInt64 × UInt64 × UInt64)} {text : List Char}
    (hplain : PlainFaces text) {s : Parser} (h : parseObj readCoords text = .ok s) :
    ∃ tris, trianglesFrom [] (getLines text) = some tris ∧
      s.triNodes.map UInt64.toNat = tris.flatMap corners ∧
      s.triTags.length = tris.length ∧
      ((Intern.interned (materials (getLines text))).length < 2 ^ 31 → s.triTags.map Int32.toInt = tris.map Prod.snd) ∧
      s.flatCoords.length = 3 * vertexCount (getLines text) ∧
      (∀ node ∈ s.triNodes, node.toNat < vertexCount (getLines text)) ∧
      (objRead s).2.length = tris.length ∧ ∀ answer ∈ (objRead s).2, ∃ cell, answer = .ok cell := by
  have hlines : (getLines text).foldlM (parseLine readCoords) {} = .ok s := by
    unfold parseObj at h
    cases hlines : (getLines text).foldlM (parseLine readCoords) {} with
    | error e =>
      rw [hlines] at h
      cases h
    | ok t =>
      rw [hlines] at h
      dsimp only [bind, Except.bind] at h
      split at h
      · cases h
      · split at h
        · cases h
        · split at h
          · cases h
          · exact h
  have hread := read_of_parsed hplain hlines
  obtain ⟨tris, htris, hnodes, htags, hbelow, hrank⟩ := hread.triangles
  have hsmall : vertexCount (getLines text) < 2 ^ 60 := by
    have hroom := hread.room
    rw [hread.coords, maxDoubles] at hroom
    omega
  have hword : ∀ i ∈ tris.flatMap corners, (UInt64.ofNat i).toNat = i := fun i hi =>
    UInt64.toNat_ofNat_of_lt' ((hbelow i hi).trans (hsmall.trans (by decide)))
  have hcorners : s.triNodes.map UInt64.toNat = tris.flatMap corners := by
    rw [hnodes, List.map_map]
    exact List.map_congr_left hword |>.trans (List.map_id _)
  have hthere : ∀ node ∈ s.triNodes, node.toNat < vertexCount (getLines text) := by
    intro node hnode
    apply hbelow
    rw [← hcorners]
    exact List.mem_map_of_mem hnode
  have hcells := objRead_ok (s := s) (by
    rw [hread.coords, Nat.mul_div_cancel_left _ (by decide)]
    exact hthere)
  refine ⟨tris, htris, hcorners, by rw [htags, List.length_map], fun hfew => ?_, hread.coords, hthere, ?_, hcells.2⟩
  · rw [htags, List.map_map]
    apply List.map_congr_left
    intro t ht
    obtain ⟨hlo, hhi⟩ := hrank t ht
    exact Int32.toInt_ofInt_of_le (by omega) (by omega)
  · rw [hcells.1, hnodes, List.length_map, length_flatMap_corners, Nat.mul_div_cancel_left _ (by decide)]

/-- Coordinates that are 0 or 1. -/
def unitCoords (cs : List Char) : Option (UInt64 × UInt64 × UInt64) :=
  match (cs.filter Char.isDigit).map fun c => if c = '1' then (0x3FF0000000000000 : UInt64) else 0 with
  | [x, y, z] => some (x, y, z)
  | _ => none

/-- A square of one material, with references of all kinds. -/
def square : List Char :=
  "v 0 0 0\nv 1 0 0\nv 1 1 0\nv 0 1 0\nusemtl steel\nf 1/1 +2//3 -2 -1/4/4\n".toList

theorem parseObj_mesh_square :
    ∃ s, parseObj unitCoords square = .ok s ∧ s.triNodes.map UInt64.toNat = [0, 1, 2, 0, 2, 3] ∧
      s.triTags.map Int32.toInt = [1, 1] := by
  have hok : (parseObj unitCoords square).isOk = true := by decide
  have hplain : PlainFaces square := by decide
  have hrules : trianglesFrom [] (getLines square) = some [((0, 1, 2), 1), ((0, 2, 3), 1)] := by decide
  have hfew : (Intern.interned (materials (getLines square))).length < 2 ^ 31 := by decide
  cases hparse : parseObj unitCoords square with
  | error e =>
    rw [hparse] at hok
    cases hok
  | ok s =>
    obtain ⟨tris, htris, hnodes, -, htags, -⟩ := parseObj_mesh hplain hparse
    rw [hrules] at htris
    obtain rfl := Option.some.inj htris
    exact ⟨s, rfl, hnodes, htags hfew⟩

/-! ## Too many materials -/

def materialName (i : ℕ) : List Char := Nat.toDigits 10 i

def useLine (i : ℕ) : List Char := ['u', 's', 'e', 'm', 't', 'l', ' '] ++ materialName i

def vertexLines : List (List Char) := ["v 0 0 0".toList, "v 1 0 0".toList, "v 0 1 0".toList]

def faceLine : List Char := "f 1 2 3".toList

/-- One line for each of `n` materials, and a triangle. -/
def manyMaterials (n : ℕ) : List (List Char) := (List.range n).map useLine ++ vertexLines ++ [faceLine]

def manyText (n : ℕ) : List Char := (manyMaterials n).flatMap (· ++ ['\n'])

theorem isDigit_of_mem_materialName {i : ℕ} {c : Char} (h : c ∈ materialName i) : c.isDigit = true :=
  Nat.isDigit_of_mem_toDigits (by omega) (by omega) h

theorem materialName_ne_nil (i : ℕ) : materialName i ≠ [] := Nat.toDigits_ne_nil

theorem isSpace_of_isDigit {c : Char} (h : c.isDigit = true) : isSpace c = false := by
  rw [Bool.eq_false_iff]
  intro hspace
  simp only [isSpace, Bool.or_eq_true, decide_eq_true_eq] at hspace
  rcases hspace with ((((rfl | rfl) | rfl) | rfl) | rfl) | rfl
  all_goals exact absurd h (by decide)

theorem statement_useLine (i : ℕ) :
    statement (useLine i) = some (['u', 's', 'e', 'm', 't', 'l'], ' ' :: materialName i) := by
  have hlast : (useLine i).getLast? ≠ some '\r' := by
    intro hlast
    rw [useLine, List.getLast?_append_of_ne_nil _ (materialName_ne_nil i)] at hlast
    exact absurd (isDigit_of_mem_materialName (List.mem_of_getLast? hlast)) (by decide)
  have hcr : stripCr (useLine i) = useLine i := by
    rw [stripCr, if_neg hlast]
  have hword : token (['u', 's', 'e', 'm', 't', 'l'] ++ ' ' :: materialName i) =
      some (['u', 's', 'e', 'm', 't', 'l'], ' ' :: materialName i) :=
    token_append (by decide) (by decide) (fun c hc => by rw [← Option.some.inj hc]; rfl)
  unfold statement
  dsimp only
  rw [hcr, ← hword]
  rfl

theorem keywordOf_usemtl : keywordOf ['u', 's', 'e', 'm', 't', 'l'] = some .usemtl := by decide

theorem token_materialName (i : ℕ) : token (' ' :: materialName i) = some (materialName i, []) := by
  have hword : ∀ c ∈ materialName i, isSpace c = false := fun c hc => isSpace_of_isDigit (isDigit_of_mem_materialName hc)
  rw [token_cons rfl, ← List.append_nil (materialName i), token_append (materialName_ne_nil i) hword (by intro c hc; cases hc),
    List.append_nil]

theorem materialLine_useLine (i : ℕ) : materialLine (useLine i) = some (some (materialName i)) := by
  rw [materialLine, lineKeyword, statement_useLine, Option.bind_some, keywordOf_usemtl, Option.map_some, Option.bind_some,
    if_pos rfl, token_materialName]
  rfl

theorem faceTokens_useLine (i : ℕ) : faceTokens (useLine i) = none := by
  rw [faceTokens, lineKeyword, statement_useLine, Option.bind_some, keywordOf_usemtl, Option.map_some, Option.bind_some]
  exact if_neg (by intro h; cases h)

theorem materials_useLines (n : ℕ) : materials ((List.range n).map useLine) = (List.range n).map materialName := by
  unfold materials
  rw [List.filterMap_map]
  have h : (fun line => (materialLine line).join) ∘ useLine = fun i => some (materialName i) := by
    funext i
    rw [Function.comp_apply, materialLine_useLine]
    rfl
  rw [h]
  exact congrFun List.filterMap_eq_map _

theorem nodup_materialNames (n : ℕ) : ((List.range n).map materialName).Nodup := by
  refine List.Nodup.map (fun i j h => ?_) List.nodup_range
  have hvalue := congrArg (Nat.ofDigitChars 10 · 0) h
  dsimp only [materialName] at hvalue
  rwa [Nat.ofDigitChars_toDigits (by omega) (by omega), Nat.ofDigitChars_toDigits (by omega) (by omega)] at hvalue

theorem activeTag_useLines (n : ℕ) : activeTag ((List.range (n + 1)).map useLine) = (n : ℤ) + 1 := by
  have hconcat : (List.range (n + 1)).map useLine = (List.range n).map useLine ++ [useLine n] := by
    rw [List.range_succ, List.map_append, List.map_singleton]
  have hactive : activeMaterial ((List.range (n + 1)).map useLine) = some (materialName n) := by
    rw [hconcat, activeMaterial_concat, materialLine_useLine]
    rfl
  have hnew : materialName n ∉ (List.range n).map materialName := by
    have hnodup := nodup_materialNames (n + 1)
    rw [List.range_succ, List.map_append, List.map_singleton] at hnodup
    obtain ⟨-, -, hdisjoint⟩ := List.nodup_append.mp hnodup
    exact fun hin => hdisjoint _ hin _ (List.mem_singleton.mpr rfl) rfl
  unfold activeTag
  rw [hactive]
  dsimp only
  rw [rank, materials_useLines, List.range_succ, List.map_append, List.map_singleton, Intern.number_concat hnew,
    Intern.interned_of_nodup (nodup_materialNames n), List.length_map, List.length_range]
  rfl

theorem foldlM_useLines {readCoords : List Char → Option (UInt64 × UInt64 × UInt64)} (is : List ℕ) (table tag) :
    ∃ table' tag', (is.map useLine).foldlM (parseLine readCoords) { materialTag := table, currentTag := tag } =
      .ok { materialTag := table', currentTag := tag' } := by
  induction is generalizing table tag with
  | nil => exact ⟨table, tag, rfl⟩
  | cons i is ih =>
    have hline : parseLine readCoords { materialTag := table, currentTag := tag } (useLine i) =
        .ok (Parser.useMaterial { materialTag := table, currentTag := tag } (materialName i)) := by
      unfold parseLine
      rw [statement_useLine]
      dsimp only
      rw [keywordOf_usemtl]
      dsimp only
      rw [token_materialName]
    obtain ⟨table', tag', hstep⟩ : ∃ table' tag', Parser.useMaterial { materialTag := table, currentTag := tag }
        (materialName i) = { materialTag := table', currentTag := tag' } := by
      unfold Parser.useMaterial
      dsimp only
      cases table.lookup (materialName i) with
      | none => exact ⟨_, _, rfl⟩
      | some known => exact ⟨table, known, rfl⟩
    rw [List.map_cons, List.foldlM_cons, hline, hstep]
    exact ih table' tag'

theorem forall_manyMaterials {P : List Char → Prop} {n : ℕ} (huse : ∀ i, P (useLine i))
    (hvertex : ∀ line ∈ vertexLines, P line) (hface : P faceLine) : ∀ line ∈ manyMaterials n, P line := by
  intro line hline
  rcases List.mem_append.mp hline with hline | hline
  · rcases List.mem_append.mp hline with hline | hline
    · obtain ⟨i, -, rfl⟩ := List.mem_map.mp hline
      exact huse i
    · exact hvertex line hline
  · rw [List.mem_singleton.mp hline]
    exact hface

theorem getLines_manyText (n : ℕ) : getLines (manyText n) = manyMaterials n := by
  have huse : ∀ i, '\n' ∉ useLine i := by
    intro i h
    rcases List.mem_append.mp h with h | h
    · exact absurd h (by decide)
    · exact absurd (isDigit_of_mem_materialName h) (by decide)
  exact getLines_ended (forall_manyMaterials huse (by decide) (by decide))

theorem plainFaces_manyText (n : ℕ) : PlainFaces (manyText n) := by
  unfold PlainFaces
  rw [getLines_manyText]
  refine forall_manyMaterials (fun i toks htoks => ?_) (by decide) (by decide)
  rw [faceTokens_useLine] at htoks
  cases htoks

theorem parseObj_manyText (n : ℕ) : ∃ s, parseObj unitCoords (manyText n) = .ok s := by
  obtain ⟨table, tag, huse⟩ := @foldlM_useLines unitCoords (List.range n) ∅ (-1)
  have hrest : (vertexLines ++ [faceLine]).foldlM (parseLine unitCoords) { materialTag := table, currentTag := tag } =
      .ok { flatCoords := [0, 0, 0, 0x3FF0000000000000, 0, 0, 0, 0x3FF0000000000000, 0], triNodes := [0, 1, 2],
            triTags := [tag], numFaces := 1, materialTag := table, currentTag := tag } := by
    with_unfolding_all rfl
  unfold parseObj
  rw [getLines_manyText, manyMaterials, List.append_assoc, List.foldlM_append, huse]
  dsimp only [bind, Except.bind]
  rw [hrest]
  exact ⟨_, rfl⟩

theorem trianglesFrom_idle (start : List (List Char)) {lines : List (List Char)} (h : ∀ line ∈ lines, faceTokens line = none) :
    trianglesFrom start lines = some [] := by
  induction lines generalizing start with
  | nil => rfl
  | cons line lines ih =>
    obtain ⟨hline, hlines⟩ := List.forall_mem_cons.mp h
    rw [trianglesFrom_cons, lineTriangles, hline, Option.bind_some, ih _ hlines]
    rfl

theorem activeTag_idle (before : List (List Char)) {lines : List (List Char)}
    (h : ∀ line ∈ lines, materialLine line = none) : activeTag (before ++ lines) = activeTag before := by
  induction lines using List.reverseRecOn with
  | nil => rw [List.append_nil]
  | append_singleton lines line ih =>
    have hline := h line (List.mem_append_right _ (List.mem_singleton.mpr rfl))
    rw [← List.append_assoc, (materials_idle hline (before ++ lines)).2,
      ih fun line hline => h line (List.mem_append_left _ hline)]

theorem trianglesFrom_manyMaterials (n : ℕ) :
    trianglesFrom [] (manyMaterials (n + 1)) = some [((0, 1, 2), (n : ℤ) + 1)] := by
  have hidle : ∀ line ∈ (List.range (n + 1)).map useLine ++ vertexLines, faceTokens line = none := by
    intro line hline
    rcases List.mem_append.mp hline with hline | hline
    · obtain ⟨i, -, rfl⟩ := List.mem_map.mp hline
      exact faceTokens_useLine i
    · exact (by decide : ∀ line ∈ vertexLines, faceTokens line = none) line hline
  have hcount : vertexCount ((List.range (n + 1)).map useLine ++ vertexLines) = 3 := by
    have hnone : vertexCount ((List.range (n + 1)).map useLine) = 0 := by
      refine List.countP_eq_zero.mpr fun line hline => ?_
      obtain ⟨i, -, rfl⟩ := List.mem_map.mp hline
      rw [lineKeyword, statement_useLine, Option.bind_some, keywordOf_usemtl]
      exact Bool.false_ne_true
    have hthree : vertexCount vertexLines = 3 := by decide
    unfold vertexCount at hnone hthree ⊢
    rw [List.countP_append, hnone, hthree]
  have hactive : activeTag ((List.range (n + 1)).map useLine ++ vertexLines) = (n : ℤ) + 1 := by
    rw [← activeTag_useLines]
    exact activeTag_idle _ (by decide)
  have hface : lineTriangles ((List.range (n + 1)).map useLine ++ vertexLines) faceLine =
      some [((0, 1, 2), (n : ℤ) + 1)] := by
    have htoks : faceTokens faceLine = some [['1'], ['2'], ['3']] := by decide
    have hids : [['1'], ['2'], ['3']].mapM (referenced 3) = some [0, 1, 2] := by decide
    rw [lineTriangles, htoks]
    dsimp only
    rw [hcount, hids, hactive]
    rfl
  rw [manyMaterials, trianglesFrom_concat, trianglesFrom_idle _ hidle, Option.bind_some, List.nil_append, hface]
  rfl

/-- A text of 2^31 materials is accepted with a tag that is no rank. -/
theorem parseObj_rank_wraps :
    ¬∀ (text : List Char) (s : Parser), PlainFaces text → parseObj unitCoords text = .ok s →
      ∃ tris, trianglesFrom [] (getLines text) = some tris ∧ s.triTags.map Int32.toInt = tris.map Prod.snd := by
  intro h
  obtain ⟨n, hn⟩ : ∃ n : ℕ, n + 1 = 2 ^ 31 := ⟨2 ^ 31 - 1, rfl⟩
  obtain ⟨s, hs⟩ := parseObj_manyText (n + 1)
  obtain ⟨tris, htris, htags⟩ := h (manyText (n + 1)) s (plainFaces_manyText (n + 1)) hs
  rw [getLines_manyText, trianglesFrom_manyMaterials] at htris
  obtain rfl := Option.some.inj htris
  have hmem : (n : ℤ) + 1 ∈ s.triTags.map Int32.toInt := by rw [htags]; exact List.mem_singleton.mpr rfl
  obtain ⟨tag, -, htag⟩ := List.mem_map.mp hmem
  have hlt := tag.toInt_lt
  omega

end Souxmar.Plugins.Obj
