import Souxmar.Core.BoundaryFaces
import Souxmar.OpenFoam.PolyMesh

/-!
# The face map of the translator

The faces of the cells are visited in order. Under a key the map has what `entryOf` makes of the visited faces with
that key: the first one is the owner's, the last one the neighbour's.
-/

namespace Souxmar.OpenFoam

open Souxmar.Core Souxmar.Lib

/-! ## Visited faces -/

/-- A face of a cell. -/
structure CellFace where
  cell : ℕ
  verts : List ℕ
  localFace : ℕ
deriving DecidableEq

def CellFace.key (f : CellFace) : List ℕ := faceKey f.verts

def CellFace.ofCell (c : ℕ) (cell : Cell) : List CellFace := (facesOf cell).map fun f => ⟨c, f.1, f.2⟩

/-- The faces of cells that are numbered from `c`. -/
def cellFaces : ℕ → List Cell → List CellFace
  | _, [] => []
  | c, cell :: cells => CellFace.ofCell c cell ++ cellFaces (c + 1) cells

/-- The entry of the faces with one key, in the order of the visits. -/
def entryOf : List CellFace → Option FaceEntry
  | [] => none
  | f :: rest =>
    some
      { vertsOwner := f.verts
        owner := f.cell
        neighbour := (rest.getLast?.map fun g => (g.cell : ℤ)).getD (-1)
        ownerLocalFace := f.localFace }

/-- The visited faces with a key. -/
def claimants (k : List ℕ) (visited : List CellFace) : List CellFace := visited.filter fun f => f.key = k

theorem claimants_append (k : List ℕ) (l l' : List CellFace) :
    claimants k (l ++ l') = claimants k l ++ claimants k l' := List.filter_append l l'

theorem mem_claimants {k : List ℕ} {visited : List CellFace} {f : CellFace} :
    f ∈ claimants k visited ↔ f ∈ visited ∧ f.key = k := by
  rw [claimants, List.mem_filter, decide_eq_true_eq]

theorem length_claimants (k : List ℕ) (visited : List CellFace) :
    (claimants k visited).length = tally CellFace.key k visited := List.countP_eq_length_filter.symm

/-- The map after these visits. -/
def Visited (m : FaceMap) (visited : List CellFace) : Prop := ∀ k, m.lookup k = entryOf (claimants k visited)

theorem visited_start : Visited ∅ [] := fun _ => rfl

/-- One more face of the same cell or a later one. -/
theorem Visited.visitFace {m : FaceMap} {visited : List CellFace} (h : Visited m visited) {c : ℕ}
    (hc : ∀ f ∈ visited, f.cell ≤ c) (f : List ℕ × ℕ) :
    Visited (visitFace c m f) (visited ++ [⟨c, f.1, f.2⟩]) := by
  intro k
  rw [claimants_append]
  by_cases hk : k = faceKey f.1
  · have hnew : claimants k [⟨c, f.1, f.2⟩] = [⟨c, f.1, f.2⟩] := List.filter_cons_of_pos (decide_eq_true hk.symm)
    rw [hnew]
    unfold OpenFoam.visitFace
    have hlook := h k
    rw [← hk]
    cases hclaim : claimants k visited with
    | nil =>
      rw [hclaim] at hlook
      rw [hlook]
      exact AList.lookup_insert m
    | cons g rest =>
      rw [hclaim] at hlook
      rw [hlook]
      have hg : g ∈ claimants k visited := by
        rw [hclaim]
        exact List.mem_cons_self
      have hle : ¬(g.cell : ℤ) > c := by
        have hcell := hc g (mem_claimants.mp hg).1
        omega
      dsimp only [entryOf]
      rw [AList.lookup_insert, if_neg hle]
      have hlast : (rest ++ [(⟨c, f.1, f.2⟩ : CellFace)]).getLast? = some ⟨c, f.1, f.2⟩ := List.getLast?_concat
      rw [List.cons_append]
      dsimp only [entryOf]
      rw [hlast]
      rfl
  · have hnew : claimants k [⟨c, f.1, f.2⟩] = [] := by
      rw [claimants, List.filter_cons_of_neg (by rw [decide_eq_true_eq]; exact Ne.symm hk)]
      rfl
    rw [hnew, List.append_nil, ← h k]
    unfold OpenFoam.visitFace
    cases m.lookup (faceKey f.1) with
    | none => exact AList.lookup_insert_ne hk
    | some e => exact AList.lookup_insert_ne hk

theorem Visited.visitFaces {m : FaceMap} {visited : List CellFace} (h : Visited m visited) {c : ℕ}
    (hc : ∀ f ∈ visited, f.cell ≤ c) (more : List (List ℕ × ℕ)) :
    Visited (more.foldl (OpenFoam.visitFace c) m) (visited ++ more.map fun f => ⟨c, f.1, f.2⟩) := by
  induction more generalizing m visited with
  | nil => rwa [List.map_nil, List.append_nil]
  | cons f more ih =>
    rw [List.map_cons, List.append_cons]
    apply ih (h.visitFace hc f)
    intro g hg
    rcases List.mem_append.mp hg with hg | hg
    · exact hc g hg
    · rw [List.mem_singleton.mp hg]

/-- The whole walk. -/
theorem Visited.visitCells {cells : List Cell} {m : FaceMap} {visited : List CellFace} (h : Visited m visited) {c : ℕ}
    (hc : ∀ f ∈ visited, f.cell ≤ c) : Visited (visitCells c cells m) (visited ++ cellFaces c cells) := by
  induction cells generalizing m visited c with
  | nil => rwa [cellFaces, List.append_nil]
  | cons cell cells ih =>
    rw [cellFaces, ← List.append_assoc]
    apply ih (h.visitFaces hc (facesOf cell))
    intro g hg
    rcases List.mem_append.mp hg with hg | hg
    · exact (hc g hg).trans (Nat.le_succ c)
    · obtain ⟨f, -, rfl⟩ := List.mem_map.mp hg
      exact Nat.le_succ c

theorem visited_mesh (cells : List Cell) : Visited (visitCells 0 cells ∅) (cellFaces 0 cells) := by
  have h : Visited (visitCells 0 cells ∅) ([] ++ cellFaces 0 cells) :=
    visited_start.visitCells fun f hf => absurd hf List.not_mem_nil
  rwa [List.nil_append] at h

/-! ## The entries -/

/-- What the map says of a key with visits. -/
structure EntryFor (visited : List CellFace) (k : List ℕ) (e : FaceEntry) : Prop where
  key : faceKey e.vertsOwner = k
  first : ∃ f ∈ claimants k visited, (claimants k visited).head? = some f ∧ e.vertsOwner = f.verts ∧
    e.owner = f.cell ∧ e.ownerLocalFace = f.localFace
  alone : e.neighbour < 0 ↔ tally CellFace.key k visited = 1
  last : 0 ≤ e.neighbour → ∃ g ∈ claimants k visited, (claimants k visited).getLast? = some g ∧
    e.neighbour = g.cell

theorem entryFor_of_entryOf {visited : List CellFace} {k : List ℕ} {e : FaceEntry}
    (h : entryOf (claimants k visited) = some e) : EntryFor visited k e := by
  cases hclaim : claimants k visited with
  | nil =>
    rw [hclaim] at h
    cases h
  | cons f rest =>
    rw [hclaim] at h
    obtain rfl := Option.some.inj h
    have hin : f ∈ claimants k visited := by
      rw [hclaim]
      exact List.mem_cons_self
    have hlength := length_claimants k visited
    rw [hclaim, List.length_cons] at hlength
    refine ⟨(mem_claimants.mp hin).2, ?_, ?_, ?_⟩
    · exact ⟨f, hin, by rw [hclaim]; rfl, rfl, rfl, rfl⟩
    · cases hlast : rest.getLast? with
      | none =>
        rw [List.getLast?_eq_none_iff] at hlast
        rw [hlast] at hlength
        exact iff_of_true (by decide : (-1 : ℤ) < 0) hlength.symm
      | some g =>
        have hpos : 0 < rest.length := List.length_pos_of_mem (List.mem_of_getLast? hlast)
        refine iff_of_false (Int.not_lt.mpr ?_) ?_
        · exact Int.natCast_nonneg g.cell
        · omega
    · intro hnb
      cases hlast : rest.getLast? with
      | none =>
        dsimp only at hnb
        rw [hlast] at hnb
        exact absurd hnb (by decide : ¬(0 : ℤ) ≤ -1)
      | some g =>
        refine ⟨g, hclaim ▸ List.mem_cons_of_mem f (List.mem_of_getLast? hlast), ?_, ?_⟩
        · rw [hclaim, List.getLast?_cons, hlast]
          rfl
        · rfl

section

variable {m : FaceMap} {visited : List CellFace}

theorem Visited.mem_values (h : Visited m visited) (e : FaceEntry) :
    e ∈ m.entries.map (fun x => x.2) ↔ ∃ k, entryOf (claimants k visited) = some e := by
  rw [List.mem_map]
  constructor
  · rintro ⟨x, hx, rfl⟩
    exact ⟨x.1, (h x.1).symm.trans (AList.mem_lookup_iff.mpr hx)⟩
  · rintro ⟨k, hk⟩
    exact ⟨⟨k, e⟩, AList.mem_lookup_iff.mp ((h k).trans hk), rfl⟩

theorem Visited.nodup_keys (h : Visited m visited) :
    ((m.entries.map fun x => x.2).map fun e => faceKey e.vertsOwner).Nodup := by
  have hkeys : (m.entries.map fun x => x.2).map (fun e => faceKey e.vertsOwner) = m.entries.map fun x => x.1 := by
    rw [List.map_map]
    apply List.map_congr_left
    intro x hx
    exact (entryFor_of_entryOf ((h x.1).symm.trans (AList.mem_lookup_iff.mpr hx))).key
  rw [hkeys]
  exact m.nodupKeys

end

end Souxmar.OpenFoam
