import Mathlib.Data.Nat.Notation
import Souxmar.Lib.Dict
import Souxmar.Lib.Intern
import Souxmar.Lib.Stream

/-!
# The STL reader

`stl_reader.cpp`: the parser of ASCII STL. It goes through the text line by line, keeps flags for the facet and the
loop it is in, and numbers the vertices by their keys.
-/

namespace Souxmar.Plugins

open Souxmar.Lib Souxmar.Lib.Stream

/-- A vertex, once its coordinates are divided by `kDedupQuantum` and rounded. -/
structure Vec3Key where
  qx : Int64
  qy : Int64
  qz : Int64
deriving DecidableEq, Repr

namespace Stl

inductive Keyword
  | solid
  | endsolid
  | facet
  | endfacet
  | outer
  | endloop
  | vertex
deriving DecidableEq, Repr

def Keyword.word : Keyword → String
  | solid => "solid"
  | endsolid => "endsolid"
  | facet => "facet"
  | endfacet => "endfacet"
  | outer => "outer"
  | endloop => "endloop"
  | vertex => "vertex"

/-- The keywords in the order in which the parser tries them. -/
def keywords : List Keyword := [.solid, .endsolid, .facet, .endfacet, .outer, .endloop, .vertex]

def keywordOf (head : List Char) : Option Keyword := keywords.find? fun k => ieq head k.word.toList

/-- What the parser has so far: the numbers of the keys, three coordinates a node, three nodes a triangle. -/
structure Parser (R : Type) where
  byKey : Dict Vec3Key ℕ := ∅
  flatCoords : List R := []
  triNodes : List ℕ := []
  sawSolid : Bool := false
  inFacet : Bool := false
  inLoop : Bool := false
  currentTri : List ℕ := []

section

/-! The coordinates are of any type. `readCoords` is `iss >> x >> y >> z` on the rest of a line, and `llround` is
`std::llround(x / kDedupQuantum)`. -/

variable {R : Type} (readCoords : List Char → Option (R × R × R)) (llround : R → Int64)

def quantize (p : R × R × R) : Vec3Key := ⟨llround p.1, llround p.2.1, llround p.2.2⟩

/-- A vertex with a new key is a new node. -/
def Parser.addVertex (s : Parser R) (p : R × R × R) : Parser R :=
  let key := quantize llround p
  match s.byKey.lookup key with
  | none =>
    let nodeId := s.flatCoords.length / 3
    { s with
      flatCoords := s.flatCoords ++ [p.1, p.2.1, p.2.2]
      byKey := s.byKey.emplace key nodeId
      currentTri := s.currentTri ++ [nodeId] }
  | some nodeId => { s with currentTri := s.currentTri ++ [nodeId] }

/-- One line. A line with another keyword is passed over. -/
def parseLine (s : Parser R) (line : List Char) : Except String (Parser R) :=
  match token line with
  | none => .ok s
  | some (head, iss) =>
    match keywordOf head with
    | some .solid => .ok { s with sawSolid := true }
    | some .endsolid => .ok s
    | some .facet =>
      if s.inFacet then .error "nested 'facet' (missing endfacet)"
      else .ok { s with inFacet := true, currentTri := [] }
    | some .endfacet =>
      if !s.inFacet then .error "'endfacet' without preceding 'facet'"
      else if s.currentTri.length ≠ 3 then .error "STL facet did not carry exactly 3 vertices"
      else .ok { s with triNodes := s.triNodes ++ s.currentTri, inFacet := false }
    | some .outer =>
      let maybeLoop := ((token iss).map Prod.fst).getD []
      if ieq maybeLoop "loop".toList then .ok { s with inLoop := true } else .error "expected 'outer loop'"
    | some .endloop => .ok { s with inLoop := false }
    | some .vertex =>
      if !s.inFacet || !s.inLoop then .error "'vertex' outside an 'outer loop' block"
      else
        match readCoords iss with
        | none => .error "vertex line missing x y z"
        | some p => .ok (s.addVertex llround p)
    | none => .ok s

/-- The status of an error is `SOUXMAR_E_IO`, with the message. -/
def parseAsciiStl (text : List Char) : Except String (Parser R) := do
  let s ← (getLines text).foldlM (parseLine readCoords llround) {}
  if !s.sawSolid then .error "no 'solid' header — not an ASCII STL file"
  else if s.inFacet then .error "stream ended inside a facet (missing endfacet)"
  else if s.triNodes.isEmpty then .error "STL produced zero facets"
  else .ok s

/-! ## What the lines of a text are -/

/-- The lines that open and close the blocks, and the vertices. -/
inductive Mark
  | facet
  | endfacet
  | outer
  | endloop
  | vertex
deriving DecidableEq, Repr

def Keyword.mark : Keyword → Option Mark
  | solid => none
  | endsolid => none
  | facet => some .facet
  | endfacet => some .endfacet
  | outer => some .outer
  | endloop => some .endloop
  | vertex => some .vertex

def markOf (line : List Char) : Option Mark :=
  (token line).bind fun t => (keywordOf t.1).bind Keyword.mark

def marks (text : List Char) : List Mark := (getLines text).filterMap markOf

def vertexOf (line : List Char) : Option (R × R × R) :=
  (token line).bind fun t => if keywordOf t.1 = some .vertex then readCoords t.2 else none

/-- The coordinates on the vertex lines, in the order of the text. -/
def vertices (text : List Char) : List (R × R × R) := (getLines text).filterMap (vertexOf readCoords)

end

/-- Every vertex stands in a loop of its own facet, and every facet is one loop of three vertices. -/
inductive WellNested : List Mark → Prop
  | nil : WellNested []
  | outer {ms} : WellNested ms → WellNested (.outer :: ms)
  | endloop {ms} : WellNested ms → WellNested (.endloop :: ms)
  | facet {ms} : WellNested ms →
      WellNested (.facet :: .outer :: .vertex :: .vertex :: .vertex :: .endloop :: .endfacet :: ms)

/-- What stands between each `facet` and the next `endfacet`. -/
def bodies : List Mark → List (List Mark)
  | [] => []
  | .facet :: ms => ms.takeWhile (fun m => decide (m ≠ .endfacet)) :: bodies ms
  | _ :: ms => bodies ms

/-- A facet begins with `outer loop` and ends with `endloop`, and has no other line of these two. -/
structure OneLoop (body : List Mark) : Prop where
  first : body.head? = some .outer
  last : body.getLast? = some .endloop
  opened : body.count .outer = 1
  closed : body.count .endloop = 1

/-! ## What a line does -/

section

variable {R : Type} {readCoords : List Char → Option (R × R × R)} {llround : R → Int64}

/-- The steps of the parser, one for each mark. -/
inductive Moves (llround : R → Int64) (s : Parser R) : Option Mark → Option (R × R × R) → Parser R → Prop
  | passed (saw : Bool) : Moves llround s none none { s with sawSolid := saw }
  | facet (h : s.inFacet = false) : Moves llround s (some .facet) none { s with inFacet := true, currentTri := [] }
  | endfacet (h : s.inFacet = true) (hthree : s.currentTri.length = 3) :
    Moves llround s (some .endfacet) none { s with triNodes := s.triNodes ++ s.currentTri, inFacet := false }
  | outer : Moves llround s (some .outer) none { s with inLoop := true }
  | endloop : Moves llround s (some .endloop) none { s with inLoop := false }
  | vertex (hfacet : s.inFacet = true) (hloop : s.inLoop = true) (p : R × R × R) :
    Moves llround s (some .vertex) (some p) (s.addVertex llround p)

theorem parseLine_moves {s s' : Parser R} {line : List Char} (h : parseLine readCoords llround s line = .ok s') :
    Moves llround s (markOf line) (vertexOf readCoords line) s' := by
  unfold parseLine at h
  unfold markOf vertexOf
  cases htoken : token line with
  | none =>
    rw [htoken] at h
    cases h
    exact .passed s.sawSolid
  | some t =>
    obtain ⟨head, iss⟩ := t
    rw [htoken] at h
    dsimp only [Option.bind_some] at h ⊢
    cases hkey : keywordOf head with
    | none =>
      rw [hkey] at h
      cases h
      exact .passed s.sawSolid
    | some key =>
      rw [hkey] at h
      cases key with
      | solid =>
        cases h
        exact .passed true
      | endsolid =>
        cases h
        exact .passed s.sawSolid
      | facet =>
        dsimp only at h
        split at h
        · cases h
        · rename_i hout
          cases h
          exact .facet (Bool.eq_false_iff.mpr hout)
      | endfacet =>
        dsimp only at h
        split at h
        · cases h
        · split at h
          · cases h
          · rename_i hin hthree
            cases h
            exact .endfacet (by simpa using hin) (not_not.mp hthree)
      | outer =>
        dsimp only at h
        split at h
        · cases h
          exact .outer
        · cases h
      | endloop =>
        cases h
        exact .endloop
      | vertex =>
        dsimp only at h
        split at h
        · cases h
        · rename_i hinside
          simp only [Bool.or_eq_true, Bool.not_eq_true', not_or, Bool.not_eq_false] at hinside
          cases hread : readCoords iss with
          | none =>
            rw [hread] at h
            cases h
          | some p =>
            rw [hread] at h
            cases h
            rw [if_pos rfl]
            exact .vertex hinside.1 hinside.2 p

/-! ## The flags along a text -/

/-- What the flags make of the marks, from a facet or none, a loop or none, and the vertices of the facet. -/
def Reads : Bool → Bool → ℕ → List Mark → Prop
  | inFacet, _, _, [] => inFacet = false
  | inFacet, inLoop, _, .facet :: ms => inFacet = false ∧ Reads true inLoop 0 ms
  | inFacet, inLoop, n, .endfacet :: ms => inFacet = true ∧ n = 3 ∧ Reads false inLoop n ms
  | inFacet, _, n, .outer :: ms => Reads inFacet true n ms
  | inFacet, _, n, .endloop :: ms => Reads inFacet false n ms
  | inFacet, inLoop, n, .vertex :: ms => inFacet = true ∧ Reads inFacet inLoop (n + 1) ms

theorem addVertex_flags (s : Parser R) (p : R × R × R) :
    (s.addVertex llround p).inFacet = s.inFacet ∧ (s.addVertex llround p).inLoop = s.inLoop ∧
      (s.addVertex llround p).currentTri.length = s.currentTri.length + 1 := by
  unfold Parser.addVertex
  dsimp only
  split
  · exact ⟨rfl, rfl, by rw [List.length_append, List.length_singleton]⟩
  · exact ⟨rfl, rfl, by rw [List.length_append, List.length_singleton]⟩

theorem reads_of_parsed {lines : List (List Char)} {s t : Parser R}
    (h : lines.foldlM (parseLine readCoords llround) s = .ok t) (hend : t.inFacet = false) :
    Reads s.inFacet s.inLoop s.currentTri.length (lines.filterMap markOf) := by
  induction lines generalizing s with
  | nil =>
    cases h
    exact hend
  | cons line lines ih =>
    rw [List.foldlM_cons] at h
    cases hstep : parseLine readCoords llround s line with
    | error e =>
      rw [hstep] at h
      cases h
    | ok s' =>
      rw [hstep] at h
      have hrest := ih h
      have hmove := parseLine_moves hstep
      rw [List.filterMap_cons]
      generalize markOf line = mark at hmove ⊢
      generalize vertexOf readCoords line = v at hmove
      cases hmove with
      | passed saw => exact hrest
      | facet hout => exact ⟨hout, hrest⟩
      | endfacet hin hthree => exact ⟨hin, hthree, hrest⟩
      | outer => exact hrest
      | endloop => exact hrest
      | vertex hfacet hloop p =>
        obtain ⟨hf, hl, hn⟩ := @addVertex_flags _ llround s p
        rw [hf, hl, hn] at hrest
        exact ⟨hfacet, hrest⟩

theorem Reads.body {inLoop : Bool} {n : ℕ} {ms : List Mark} (h : Reads true inLoop n ms) :
    ∃ body rest inLoop', ms = body ++ .endfacet :: rest ∧ .facet ∉ body ∧ .endfacet ∉ body ∧
      n + body.count .vertex = 3 ∧ Reads false inLoop' 3 rest := by
  induction ms generalizing inLoop n with
  | nil => cases h
  | cons m ms ih =>
    have grow : ∀ {inLoop' n'}, m ≠ .facet → m ≠ .endfacet → n' = n + [m].count .vertex → Reads true inLoop' n' ms →
        ∃ body rest inLoop', m :: ms = body ++ .endfacet :: rest ∧ .facet ∉ body ∧ .endfacet ∉ body ∧
          n + body.count .vertex = 3 ∧ Reads false inLoop' 3 rest := by
      intro inLoop' n' hfacet hend hn hreads
      obtain ⟨body, rest, b, rfl, hf, he, hcount, hrest⟩ := ih hreads
      refine ⟨m :: body, rest, b, rfl, ?_, ?_, ?_, hrest⟩
      · exact List.mem_cons.not.mpr (not_or.mpr ⟨hfacet.symm, hf⟩)
      · exact List.mem_cons.not.mpr (not_or.mpr ⟨hend.symm, he⟩)
      · rw [← List.singleton_append, List.count_append]
        omega
    cases m with
    | facet => exact absurd h.1 Bool.noConfusion
    | endfacet =>
      obtain ⟨-, rfl, hrest⟩ := h
      exact ⟨[], ms, inLoop, rfl, List.not_mem_nil, List.not_mem_nil, rfl, hrest⟩
    | outer => exact grow (by decide) (by decide) rfl h
    | endloop => exact grow (by decide) (by decide) rfl h
    | vertex => exact grow (by decide) (by decide) rfl h.2

/-! ## Nesting -/

theorem takeWhile_body {body rest : List Mark} (hend : .endfacet ∉ body) :
    (body ++ .endfacet :: rest).takeWhile (fun m => decide (m ≠ .endfacet)) = body := by
  have hall : ∀ m ∈ body, decide (m ≠ Mark.endfacet) = true := fun m hm => decide_eq_true fun h => hend (h ▸ hm)
  rw [List.takeWhile_append_of_pos hall]
  exact List.append_nil body

theorem bodies_append {body rest : List Mark} (hfacet : .facet ∉ body) : bodies (body ++ rest) = bodies rest := by
  induction body with
  | nil => rfl
  | cons m body ih =>
    obtain ⟨hm, hbody⟩ := not_or.mp (List.mem_cons.not.mp hfacet)
    rw [List.cons_append, ← ih hbody]
    cases m with
    | facet => exact absurd rfl hm
    | endfacet | outer | endloop | vertex => rfl

theorem bodies_facet {body rest : List Mark} (hfacet : .facet ∉ body) (hend : .endfacet ∉ body) :
    bodies (.facet :: (body ++ .endfacet :: rest)) = body :: bodies rest := by
  rw [bodies, takeWhile_body hend, bodies_append hfacet]
  rfl

theorem OneLoop.eq {body : List Mark} (h : OneLoop body) (hfacet : .facet ∉ body) (hend : .endfacet ∉ body) :
    body = .outer :: (List.replicate (body.count .vertex) .vertex ++ [.endloop]) := by
  obtain ⟨tail, rfl⟩ : ∃ tail, body = .outer :: tail := List.head?_eq_some_iff.mp h.first
  have hlast := h.last
  cases tail using List.reverseRecOn with
  | nil => cases hlast
  | append_singleton inner m =>
    rw [← List.cons_append, List.getLast?_concat] at hlast
    obtain rfl := Option.some.inj hlast
    have hopened := h.opened
    have hclosed := h.closed
    rw [← List.cons_append, List.count_append, List.count_cons_self] at hopened
    rw [← List.cons_append, List.count_append, List.count_singleton_self] at hclosed
    have hall : ∀ m ∈ inner, m = .vertex := by
      intro m hm
      have hin : m ∈ Mark.outer :: (inner ++ [.endloop]) :=
        List.mem_cons_of_mem _ (List.mem_append_left _ hm)
      cases m with
      | facet => exact absurd hin hfacet
      | endfacet => exact absurd hin hend
      | outer =>
        have hpos := List.count_pos_iff.mpr hm
        omega
      | endloop =>
        have hpos := List.count_pos_iff.mpr (List.mem_cons_of_mem Mark.outer hm)
        omega
      | vertex => rfl
    obtain hinner := List.eq_replicate_of_mem hall
    have hcount : (Mark.outer :: (inner ++ [.endloop])).count .vertex = inner.length := by
      rw [← List.cons_append, List.count_append, List.count_cons_of_ne (by decide), hinner, List.count_replicate_self,
        List.length_replicate]
      rfl
    rw [hcount, ← hinner]

theorem WellNested.oneLoop {ms : List Mark} (h : WellNested ms) : ∀ body ∈ bodies ms, OneLoop body := by
  induction h with
  | nil => exact fun body hbody => absurd hbody List.not_mem_nil
  | outer _ ih => exact ih
  | endloop _ ih => exact ih
  | facet _ ih =>
    refine List.forall_mem_cons.mpr ⟨?_, ih⟩
    exact ⟨rfl, rfl, rfl, rfl⟩

theorem Reads.wellNested {inLoop : Bool} {n : ℕ} {ms : List Mark} (h : Reads false inLoop n ms)
    (hloops : ∀ body ∈ bodies ms, OneLoop body) : WellNested ms := by
  induction hlen : ms.length using Nat.strong_induction_on generalizing ms inLoop n with
  | _ length ih =>
    cases ms with
    | nil => exact .nil
    | cons m ms =>
      have hshort : ms.length < length := by rw [← hlen]; exact Nat.lt_succ_self _
      cases m with
      | facet =>
        obtain ⟨body, rest, b, rfl, hfacet, hend, hcount, hrest⟩ := h.2.body
        rw [bodies_facet hfacet hend, List.forall_mem_cons] at hloops
        have hbody := hloops.1.eq hfacet hend
        rw [Nat.zero_add] at hcount
        rw [hcount] at hbody
        rw [hbody]
        refine .facet (ih rest.length ?_ hrest hloops.2 rfl)
        rw [List.length_append, List.length_cons] at hshort
        omega
      | endfacet => exact absurd h.1 Bool.noConfusion
      | outer => exact .outer (ih ms.length hshort h hloops rfl)
      | endloop => exact .endloop (ih ms.length hshort h hloops rfl)
      | vertex => exact absurd h.1 Bool.noConfusion

/-! ## Numbering -/

/-- The nodes are the keys of the vertices so far in the order of their first occurrence. -/
structure Numbered (llround : R → Int64) (vs : List (R × R × R)) (s : Parser R) : Prop where
  lookup : ∀ k, s.byKey.lookup k =
    if k ∈ vs.map (quantize llround) then some (Intern.number (vs.map (quantize llround)) k) else none
  coords : s.flatCoords.length = 3 * (Intern.interned (vs.map (quantize llround))).length
  nodes : s.triNodes ++ (if s.inFacet then s.currentTri else []) =
    vs.map fun v => Intern.number (vs.map (quantize llround)) (quantize llround v)

theorem numbered_start : Numbered llround [] ({} : Parser R) := ⟨fun _ => rfl, rfl, rfl⟩

theorem nodes_concat (vs : List (R × R × R)) (p : R × R × R) :
    ((vs ++ [p]).map fun v => Intern.number ((vs ++ [p]).map (quantize llround)) (quantize llround v)) =
      (vs.map fun v => Intern.number (vs.map (quantize llround)) (quantize llround v)) ++
        [Intern.number (vs.map (quantize llround) ++ [quantize llround p]) (quantize llround p)] := by
  rw [List.map_append (f := quantize llround), List.map_append]
  congr 1
  apply List.map_congr_left
  intro v hv
  exact Intern.number_append (List.mem_map_of_mem hv) _

theorem Numbered.vertex {vs : List (R × R × R)} {s : Parser R} (h : Numbered llround vs s) (hfacet : s.inFacet = true)
    (p : R × R × R) : Numbered llround (vs ++ [p]) (s.addVertex llround p) := by
  have hnodes := h.nodes
  rw [if_pos hfacet] at hnodes
  have hlookup := h.lookup (quantize llround p)
  have hkeys : (vs ++ [p]).map (quantize llround) = vs.map (quantize llround) ++ [quantize llround p] := by
    rw [List.map_append, List.map_singleton]
  unfold Parser.addVertex
  by_cases hmem : quantize llround p ∈ vs.map (quantize llround)
  · -- A vertex that is there already: neither the keys nor their numbers change.
    rw [if_pos hmem] at hlookup
    dsimp only
    rw [hlookup]
    refine ⟨fun k => ?_, ?_, ?_⟩
    · rw [h.lookup k, hkeys, Intern.number_concat_of_mem hmem]
      by_cases hk : k ∈ vs.map (quantize llround)
      · rw [if_pos hk, if_pos (List.mem_append_left _ hk)]
      · have hnew : k ∉ vs.map (quantize llround) ++ [quantize llround p] := fun hin =>
          (List.mem_append.mp hin).elim hk fun hlast => hk (List.mem_singleton.mp hlast ▸ hmem)
        rw [if_neg hk, if_neg hnew]
    · rw [hkeys, Intern.interned_concat_of_mem hmem]
      exact h.coords
    · rw [nodes_concat, ← hnodes, Intern.number_concat_of_mem hmem]
      dsimp only
      rw [if_pos hfacet, List.append_assoc]
  · -- A new vertex takes the next number.
    rw [if_neg hmem] at hlookup
    have hnext : s.flatCoords.length / 3 = Intern.number (vs.map (quantize llround) ++ [quantize llround p])
        (quantize llround p) := by
      rw [h.coords, Nat.mul_div_cancel_left _ (by decide), Intern.number_concat hmem]
    dsimp only
    rw [hlookup]
    refine ⟨fun k => ?_, ?_, ?_⟩
    · dsimp only
      rw [Dict.lookup_emplace, hlookup, Option.getD_none, h.lookup k, hkeys, hnext]
      by_cases hlast : k = quantize llround p
      · subst hlast
        rw [if_pos rfl, if_pos (List.mem_append_right _ (List.mem_singleton.mpr rfl))]
      · rw [if_neg hlast]
        by_cases hk : k ∈ vs.map (quantize llround)
        · rw [if_pos hk, if_pos (List.mem_append_left _ hk), Intern.number_append hk]
        · have hnew : k ∉ vs.map (quantize llround) ++ [quantize llround p] := fun hin =>
            (List.mem_append.mp hin).elim hk fun hk' => hlast (List.mem_singleton.mp hk')
          rw [if_neg hk, if_neg hnew]
    · rw [hkeys, Intern.length_interned_concat hmem, List.length_append, h.coords]
      rfl
    · rw [nodes_concat, ← hnodes, ← hnext]
      dsimp only
      rw [if_pos hfacet, List.append_assoc]

theorem Numbered.moves {vs : List (R × R × R)} {s s' : Parser R} {mark : Option Mark} {v : Option (R × R × R)}
    (h : Numbered llround vs s) (hmove : Moves llround s mark v s') : Numbered llround (vs ++ v.toList) s' := by
  have hnone : vs ++ (none : Option (R × R × R)).toList = vs := List.append_nil vs
  cases hmove with
  | passed saw =>
    rw [hnone]
    exact ⟨h.lookup, h.coords, h.nodes⟩
  | facet hout =>
    have hnodes := h.nodes
    rw [hout] at hnodes
    rw [hnone]
    exact ⟨h.lookup, h.coords, hnodes⟩
  | endfacet hin hthree =>
    have hnodes := h.nodes
    rw [if_pos hin] at hnodes
    rw [hnone]
    exact ⟨h.lookup, h.coords, (List.append_nil _).trans hnodes⟩
  | outer =>
    rw [hnone]
    exact ⟨h.lookup, h.coords, h.nodes⟩
  | endloop =>
    rw [hnone]
    exact ⟨h.lookup, h.coords, h.nodes⟩
  | vertex hfacet hloop p => exact h.vertex hfacet p

theorem numbered_of_parsed {lines : List (List Char)} {t : Parser R}
    (h : lines.foldlM (parseLine readCoords llround) {} = .ok t) :
    Numbered llround (lines.filterMap (vertexOf readCoords)) t := by
  have hstart : Numbered llround (([] : List (List Char)).filterMap (vertexOf readCoords)) ({} : Parser R) := numbered_start
  refine foldlM_ok_invariant (P := fun before s => Numbered llround (before.filterMap (vertexOf readCoords)) s)
    (fun {before line s s'} _ hs hstep => ?_) hstart h
  have hone : [line].filterMap (vertexOf readCoords) = (vertexOf readCoords line).toList := by
    rw [List.filterMap_cons]
    cases vertexOf readCoords line <;> rfl
  rw [List.filterMap_append, hone]
  exact hs.moves (parseLine_moves hstep)

/-- The nodes of the triangles are those of the vertices in the order of the text. They exist, and two vertices share
one when they have one key. -/
def NodesByKey (llround : R → Int64) (vs : List (R × R × R)) (t : Parser R) : Prop :=
  ∃ nodeOf : R × R × R → ℕ, t.triNodes = vs.map nodeOf ∧ (∀ v ∈ vs, nodeOf v < t.flatCoords.length / 3) ∧
    ∀ u ∈ vs, ∀ v ∈ vs, nodeOf u = nodeOf v ↔ quantize llround u = quantize llround v

theorem Numbered.nodesByKey {vs : List (R × R × R)} {t : Parser R} (h : Numbered llround vs t) (hend : t.inFacet = false) :
    NodesByKey llround vs t := by
  have hnodes := h.nodes
  rw [hend] at hnodes
  refine ⟨fun v => Intern.number (vs.map (quantize llround)) (quantize llround v), ?_, ?_, ?_⟩
  · rw [← hnodes]
    exact (List.append_nil _).symm
  · intro v hv
    rw [h.coords, Nat.mul_div_cancel_left _ (by decide)]
    exact Intern.number_lt (List.mem_map_of_mem hv)
  · intro u hu v _
    exact Intern.number_inj (List.mem_map_of_mem hu)

/-- A text that is accepted numbers its vertices by their keys. Its facets are well nested exactly when each begins
with `outer loop`, ends with `endloop`, and has no other line of these two. -/
theorem accepted_nested_iff {text : List Char} {t : Parser R} (h : parseAsciiStl readCoords llround text = .ok t) :
    WellNested (marks text) ∧ NodesByKey llround (vertices readCoords text) t ↔
      ∀ body ∈ bodies (marks text), OneLoop body := by
  unfold parseAsciiStl at h
  cases hlines : (getLines text).foldlM (parseLine readCoords llround) {} with
  | error e =>
    rw [hlines] at h
    cases h
  | ok s =>
    rw [hlines] at h
    dsimp only [bind, Except.bind] at h
    split at h
    · cases h
    · split at h
      · cases h
      · rename_i hout
        split at h
        · cases h
        · cases h
          have hend : t.inFacet = false := Bool.eq_false_iff.mpr hout
          have hreads : Reads false false 0 (marks text) := reads_of_parsed hlines hend
          have hnodes := (numbered_of_parsed hlines).nodesByKey hend
          exact ⟨fun hnested => hnested.1.oneLoop, fun hloops => ⟨hreads.wellNested hloops, hnodes⟩⟩

end

/-- Coordinates of one digit. -/
def digitCoords (cs : List Char) : Option (ℤ × ℤ × ℤ) :=
  match cs.filter Char.isDigit with
  | [x, y, z] => some (x.toNat - 48, y.toNat - 48, z.toNat - 48)
  | _ => none

def llroundDigits (x : ℤ) : Int64 := Int64.ofInt (x * 10000000)

/-- A facet as it should be. -/
def oneFacet : List Char :=
  "solid a\nfacet normal 0 0 1\nouter loop\nvertex 0 0 0\nvertex 1 0 0\nvertex 0 1 0\nendloop\nendfacet\n".toList

/-- The loop of the first facet is not closed, and the second facet has none. -/
def openLoop : List Char :=
  ("solid a\nfacet normal 0 0 1\nouter loop\nvertex 0 0 0\nvertex 1 0 0\nvertex 0 1 0\nendfacet\n" ++
    "facet normal 0 0 1\nvertex 0 0 0\nvertex 0 1 0\nvertex 1 1 0\nendfacet\n").toList

theorem accepted_nested_iff_oneFacet :
    ∃ t, parseAsciiStl digitCoords llroundDigits oneFacet = .ok t ∧ WellNested (marks oneFacet) ∧
      NodesByKey llroundDigits (vertices digitCoords oneFacet) t := by
  have hok : (parseAsciiStl digitCoords llroundDigits oneFacet).isOk = true := by decide
  have hbodies : bodies (marks oneFacet) = [[.outer, .vertex, .vertex, .vertex, .endloop]] := rfl
  cases hparse : parseAsciiStl digitCoords llroundDigits oneFacet with
  | error e =>
    rw [hparse] at hok
    cases hok
  | ok t =>
    refine ⟨t, rfl, (accepted_nested_iff hparse).mpr ?_⟩
    rw [hbodies]
    exact List.forall_mem_singleton.mpr ⟨rfl, rfl, rfl, rfl⟩

theorem accepted_not_nested :
    ¬∀ (text : List Char) (t : Parser ℤ), parseAsciiStl digitCoords llroundDigits text = .ok t →
      WellNested (marks text) := by
  intro h
  have hok : (parseAsciiStl digitCoords llroundDigits openLoop).isOk = true := by decide +kernel
  have hmarks : marks openLoop = [.facet, .outer, .vertex, .vertex, .vertex, .endfacet, .facet, .vertex, .vertex,
    .vertex, .endfacet] := by decide +kernel
  cases hparse : parseAsciiStl digitCoords llroundDigits openLoop with
  | error e =>
    rw [hparse] at hok
    cases hok
  | ok t =>
    have hnested := h openLoop t hparse
    rw [hmarks] at hnested
    cases hnested

end Stl

end Souxmar.Plugins
