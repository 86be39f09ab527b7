import Mathlib.Data.UInt
import Souxmar.Am.Extractors
import Souxmar.Core.BoundaryFaces

/-!
# The extractors agree

On a mesh of linear solid cells the surface stream, the slicer and the checker select the faces whose key occurs
once, the slicer by a count of 32 bits. The keys differ, but they tell the same faces apart.
-/

namespace Souxmar.Am

open Souxmar.Core Souxmar.Lib

/-! ## Keys -/

/-- A face as a solid cell has it: three or four nodes, none of them `UINT64_MAX`. -/
def IsFace (f : List ℕ) : Prop := (f.length = 3 ∨ f.length = 4) ∧ ∀ n ∈ f, n < unusedSlot

theorem slicerKey_eq_iff {f g : List ℕ} (hf : IsFace f) (hg : IsFace g) :
    Slicer.faceKey f = Slicer.faceKey g ↔ Core.faceKey f = Core.faceKey g := by
  have hlength : ∀ f : List ℕ, (Core.faceKey f).length = f.length := fun f => List.length_insertionSort _ f
  -- a slot that no node fills is in the key of three nodes, and in no key of four
  have hslot : ∀ {f g : List ℕ}, f.length = 3 → g.length = 4 → (∀ n ∈ g, n < unusedSlot) →
      Slicer.faceKey f ≠ Slicer.faceKey g := by
    intro f g hthree hfour hbound hkey
    have hin : unusedSlot ∈ Slicer.faceKey f := by
      rw [Slicer.faceKey, hthree]
      exact List.mem_append_right _ List.mem_cons_self
    rw [hkey, Slicer.faceKey, hfour, List.replicate_zero, List.append_nil, List.mem_insertionSort] at hin
    exact Nat.lt_irrefl _ (hbound _ hin)
  have hsame : f.length = g.length → (Slicer.faceKey f = Slicer.faceKey g ↔ Core.faceKey f = Core.faceKey g) := by
    intro hlen
    rw [Slicer.faceKey, Slicer.faceKey, hlen]
    exact List.append_left_inj _
  have hdiff : f.length ≠ g.length → Core.faceKey f ≠ Core.faceKey g := by
    intro hlen hkey
    rw [← hlength f, ← hlength g, hkey] at hlen
    exact hlen rfl
  rcases hf.1 with hf3 | hf4
  · rcases hg.1 with hg3 | hg4
    · exact hsame (hf3.trans hg3.symm)
    · exact iff_of_false (hslot hf3 hg4 hg.2) (hdiff (by omega))
  · rcases hg.1 with hg3 | hg4
    · exact iff_of_false (fun h => hslot hg3 hf4 hf.2 h.symm) (hdiff (by omega))
    · exact hsame (hf4.trans hg4.symm)

theorem checkerKey_eq {f : List ℕ} (h : IsFace f) : Manufacturability.faceKey f = Slicer.faceKey f := by
  apply List.Perm.eq_of_pairwise (fun _ _ _ _ => Nat.le_antisymm) (List.pairwise_insertionSort _ _)
  · rw [Slicer.faceKey, List.pairwise_append]
    refine ⟨List.pairwise_insertionSort _ f, List.pairwise_replicate.mpr (Or.inr le_rfl), fun a ha b hb => ?_⟩
    rw [List.eq_of_mem_replicate hb]
    exact (h.2 a ((List.mem_insertionSort _).mp ha)).le
  · exact (List.perm_insertionSort _ _).trans ((List.perm_insertionSort _ f).symm.append_right _)

theorem tally_slicerKey {faces : List (List ℕ)} (h : ∀ f ∈ faces, IsFace f) {f : List ℕ} (hf : IsFace f) :
    tally Slicer.faceKey (Slicer.faceKey f) faces = tally Core.faceKey (Core.faceKey f) faces := by
  apply List.countP_congr
  intro g hg
  rw [decide_eq_true_eq, decide_eq_true_eq]
  exact slicerKey_eq_iff (h g hg) hf

/-! ## Tables -/

theorem topoFor_solid : ∀ t ∈ solidTypes, Slicer.topoFor t = ⟨t.numNodes, faceNodeTable t, true, false⟩ := by
  simp only [solidTypes, List.forall_mem_cons, List.not_mem_nil, IsEmpty.forall_iff, implies_true, and_true]
  exact ⟨rfl, rfl, rfl, rfl⟩

theorem localFaceTable_solid : ∀ t ∈ solidTypes,
    Manufacturability.localFaceTable t = ⟨faceNodeTable t, t.numNodes, false⟩ := by
  simp only [solidTypes, List.forall_mem_cons, List.not_mem_nil, IsEmpty.forall_iff, implies_true, and_true]
  exact ⟨rfl, rfl, rfl, rfl⟩

/-- A cell that every extractor takes. -/
structure Sound (mesh : Mesh) (cell : Cell) : Prop where
  solid : cell.type ∈ solidTypes
  arity : cell.nodes.length = cell.type.numNodes
  bound : ∀ n ∈ cell.nodes, n < mesh.nodes.length

theorem numNodes_solid : ∀ t ∈ solidTypes, 0 < t.numNodes ∧ t.numNodes ≤ 8 := by decide

section

variable {mesh : Mesh} {cell : Cell}

theorem Sound.take (h : Sound mesh cell) : cell.nodes.take cell.type.numNodes = cell.nodes := by
  rw [← h.arity, List.take_length]

theorem Sound.in_range (h : Sound mesh cell) :
    ((cell.nodes.take cell.type.numNodes).any fun n => decide (n ≥ mesh.nodes.length)) = false := by
  rw [h.take, List.any_eq_false]
  intro n hn
  rw [decide_eq_true_eq]
  exact Nat.not_le.mpr (h.bound n hn)

/-- A run of steps that succeed. -/
theorem foldlM_ok {σ ι ε : Type} {step : σ → ι → Except ε σ} {next : σ → ι → σ} {l : List ι}
    (h : ∀ i ∈ l, ∀ s, step s i = .ok (next s i)) (s : σ) : l.foldlM step s = .ok (l.foldl next s) := by
  induction l generalizing s with
  | nil => rfl
  | cons i l ih =>
    rw [List.foldlM_cons, h i List.mem_cons_self]
    exact ih (fun j hj => h j (List.mem_cons_of_mem i hj)) (next s i)

/-! ## The slicer -/

theorem loadCell_sound (h : Sound mesh cell) :
    Slicer.loadCell mesh.nodes.length cell (Slicer.topoFor cell.type) = .ok (some cell.nodes) := by
  have hlarge := (numNodes_solid cell.type h.solid).2
  have hskip : (decide (cell.nodes.length < cell.type.numNodes) ||
      decide (cell.nodes.length > kMaxCellNodes)) = false := by
    rw [h.arity, Bool.or_eq_false_iff, decide_eq_false_iff_not, decide_eq_false_iff_not, kMaxCellNodes]
    omega
  rw [Slicer.loadCell, topoFor_solid cell.type h.solid, hskip, h.in_range]
  rfl

theorem countCell_sound (h : Sound mesh cell) (m : Dict (List ℕ) UInt32) :
    Slicer.countCell mesh.nodes.length m cell = .ok ((cell.faces.map Slicer.faceKey).foldl Slicer.increment m) := by
  rw [Slicer.countCell, loadCell_sound h, topoFor_solid cell.type h.solid, Cell.faces, List.map_map]
  rfl

theorem emitCell_sound (h : Sound mesh cell) (m : Dict (List ℕ) UInt32) (bm : Slicer.BoundaryMesh) :
    Slicer.emitCell mesh.nodes.length m bm cell = .ok (cell.faces.foldl (Slicer.emitIfOnce m) bm) := by
  rw [Slicer.emitCell, loadCell_sound h, topoFor_solid cell.type h.solid, Cell.faces]
  rfl

/-- The counts of these keys. -/
structure Counts (m : Dict (List ℕ) UInt32) (keys : List (List ℕ)) : Prop where
  counted : ∀ k ∈ keys, m.lookup k = some (UInt32.ofNat (keys.count k))
  others : ∀ k, k ∉ keys → m.lookup k = none

theorem counts_start : Counts ∅ [] where
  counted _ hk := absurd hk List.not_mem_nil
  others _ _ := rfl

theorem Counts.found {m : Dict (List ℕ) UInt32} {keys : List (List ℕ)} (h : Counts m keys) (k : List ℕ) :
    (m.lookup k).getD 0 = UInt32.ofNat (keys.count k) := by
  by_cases hk : k ∈ keys
  · rw [h.counted k hk]
    rfl
  · rw [h.others k hk, List.count_eq_zero.mpr hk]
    rfl

theorem Counts.increment {m : Dict (List ℕ) UInt32} {keys : List (List ℕ)} (h : Counts m keys) (k : List ℕ) :
    Counts (Slicer.increment m k) (keys ++ [k]) where
  counted k' hk' := by
    rw [Slicer.increment, List.count_append]
    by_cases heq : k' = k
    · rw [heq, AList.lookup_insert, h.found k, List.count_singleton_self, UInt32.ofNat_add]
      rfl
    · have hold : k' ∈ keys := (List.mem_append.mp hk').resolve_right fun hin => heq (List.mem_singleton.mp hin)
      rw [AList.lookup_insert_ne heq, h.counted k' hold, List.count_eq_zero.mpr (mt List.mem_singleton.mp heq)]
      rfl
  others k' hk' := by
    rw [List.mem_append, List.mem_singleton, not_or] at hk'
    rw [Slicer.increment, AList.lookup_insert_ne hk'.2, h.others k' hk'.1]

theorem Counts.increments {m : Dict (List ℕ) UInt32} {keys : List (List ℕ)} (h : Counts m keys)
    (more : List (List ℕ)) : Counts (more.foldl Slicer.increment m) (keys ++ more) := by
  induction more generalizing keys m with
  | nil => rwa [List.append_nil]
  | cons k more ih =>
    rw [List.append_cons]
    exact ih (h.increment k)

theorem facets_emitFace {f : List ℕ} (h : f.length = 3 ∨ f.length = 4) (bm : Slicer.BoundaryMesh) :
    (Slicer.emitFace f bm).facets = bm.facets ++ [f] := by
  rcases h with h | h
  · obtain ⟨a, b, c, rfl⟩ := List.length_eq_three.mp h
    rfl
  · obtain ⟨a, b, c, d, rfl⟩ := List.length_eq_four.mp h
    rfl

theorem facets_emitIfOnce {faces : List (List ℕ)} (h : ∀ f ∈ faces, f.length = 3 ∨ f.length = 4)
    (m : Dict (List ℕ) UInt32) (bm : Slicer.BoundaryMesh) : (faces.foldl (Slicer.emitIfOnce m) bm).facets =
      bm.facets ++ faces.filter fun f => m.lookup (Slicer.faceKey f) = some 1 := by
  induction faces generalizing bm with
  | nil => exact (List.append_nil _).symm
  | cons f faces ih =>
    rw [List.foldl_cons, ih (fun g hg => h g (List.mem_cons_of_mem f hg)), List.filter_cons, Slicer.emitIfOnce]
    by_cases hone : m.lookup (Slicer.faceKey f) = some 1
    · rw [if_pos hone, if_pos (decide_eq_true hone), facets_emitFace (h f List.mem_cons_self), List.append_assoc,
        List.singleton_append]
    · rw [if_neg hone, if_neg (by rwa [decide_eq_true_eq])]

end

/-- A mesh of linear solid cells, at least one, with distinct nodes each and finite coordinates. -/
structure LinearSolid (mesh : Mesh) : Prop where
  valid : mesh.Valid
  nonempty : mesh.cells ≠ []
  linear : ∀ cell ∈ mesh.cells, cell.type ∈ solidTypes
  distinct : ∀ cell ∈ mesh.cells, cell.nodes.Nodup
  finite : ∀ p ∈ mesh.nodes, Slicer.finitePoint p
  size : mesh.nodes.length < 2 ^ 64

section

variable {mesh : Mesh}

theorem LinearSolid.sound (h : LinearSolid mesh) {cell : Cell} (hcell : cell ∈ mesh.cells) : Sound mesh cell :=
  ⟨h.linear cell hcell, (h.valid cell hcell).1, (h.valid cell hcell).2⟩

theorem LinearSolid.nodes (h : LinearSolid mesh) : mesh.nodes ≠ [] := by
  obtain ⟨cell, hcell⟩ := List.exists_mem_of_ne_nil _ h.nonempty
  have hsound := h.sound hcell
  have hpos : 0 < cell.nodes.length := by
    rw [hsound.arity]
    exact (numNodes_solid cell.type hsound.solid).1
  intro hnil
  have hlt := hsound.bound _ (List.getElem_mem hpos)
  rw [hnil] at hlt
  exact Nat.not_lt_zero _ hlt

theorem LinearSolid.solidFaces (h : LinearSolid mesh) : mesh.solidFaces = mesh.faces := by
  have hall : (mesh.cells.filter fun cell => cell.type ∈ solidTypes) = mesh.cells :=
    List.filter_eq_self.mpr fun cell hcell => decide_eq_true (h.linear cell hcell)
  rw [Mesh.solidFaces, hall, Mesh.faces]

theorem LinearSolid.isFace (h : LinearSolid mesh) {f : List ℕ} (hf : f ∈ mesh.faces) : IsFace f := by
  rw [← h.solidFaces] at hf
  obtain ⟨hlength, hbound⟩ := length_solidFaces h.valid hf
  have hsize := h.size
  refine ⟨hlength, fun n hn => ?_⟩
  have hlt := hbound n hn
  rw [unusedSlot]
  omega

theorem LinearSolid.slicer (h : LinearSolid mesh) : ∃ bm, Slicer.extractBoundary mesh = .ok bm ∧
    bm.facets = mesh.faces.filter fun f => tally Core.faceKey (Core.faceKey f) mesh.faces % 2 ^ 32 = 1 := by
  have hcount : mesh.cells.foldlM (Slicer.countCell mesh.nodes.length) ∅ =
      .ok ((mesh.faces.map Slicer.faceKey).foldl Slicer.increment ∅) := by
    rw [foldlM_ok fun cell hcell m => countCell_sound (h.sound hcell) m, Mesh.faces, List.map_flatMap,
      List.foldl_flatMap]
  have hcounts := counts_start.increments (mesh.faces.map Slicer.faceKey)
  rw [List.nil_append] at hcounts
  generalize (mesh.faces.map Slicer.faceKey).foldl Slicer.increment ∅ = counts at hcount hcounts
  have hemit : ∀ bm, mesh.cells.foldlM (Slicer.emitCell mesh.nodes.length counts) bm =
      .ok (mesh.faces.foldl (Slicer.emitIfOnce counts) bm) := by
    intro bm
    rw [foldlM_ok fun cell hcell m => emitCell_sound (h.sound hcell) counts m, Mesh.faces, List.foldl_flatMap]
  have hfacets := facets_emitIfOnce (fun f hf => (h.isFace hf).1) counts
  have hselect : (mesh.faces.filter fun f => counts.lookup (Slicer.faceKey f) = some 1) =
      mesh.faces.filter fun f => tally Core.faceKey (Core.faceKey f) mesh.faces % 2 ^ 32 = 1 := by
    apply List.filter_congr
    intro f hf
    have htally : (mesh.faces.map Slicer.faceKey).count (Slicer.faceKey f) =
        tally Core.faceKey (Core.faceKey f) mesh.faces := by
      rw [count_map, tally_slicerKey (fun g hg => h.isFace hg) (h.isFace hf)]
    rw [hcounts.counted _ (List.mem_map_of_mem hf), htally, decide_eq_decide, Option.some.injEq, ← UInt32.toNat_inj,
      UInt32.toNat_ofNat']
    rfl
  have hvolume : (mesh.cells.any fun cell => (Slicer.topoFor cell.type).volume) = true := by
    obtain ⟨cell, hcell⟩ := List.exists_mem_of_ne_nil _ h.nonempty
    refine List.any_eq_true.mpr ⟨cell, hcell, ?_⟩
    rw [topoFor_solid cell.type (h.linear cell hcell)]
  have hfinite : ¬∃ p ∈ mesh.nodes, ¬Slicer.finitePoint p := by
    rintro ⟨p, hp, hbad⟩
    exact hbad (h.finite p hp)
  have hvolume' : ∃ bm, Slicer.extractVolume mesh = .ok bm ∧
      bm.facets = mesh.faces.filter fun f => counts.lookup (Slicer.faceKey f) = some 1 := by
    let interior := (counts.entries.filter fun e => e.2 > 1).length
    let bm := mesh.faces.foldl (Slicer.emitIfOnce counts) { interiorFaces := interior }
    refine ⟨{ bm with manifold := if bm.triangles = [] then .unknown else .closed }, ?_, hfacets _⟩
    rw [Slicer.extractVolume, hcount]
    change (mesh.cells.foldlM (Slicer.emitCell mesh.nodes.length counts) { interiorFaces := interior } >>= _) = _
    rw [hemit]
    rfl
  obtain ⟨bm, hrun, hbm⟩ := hvolume'
  rw [Slicer.extractBoundary, if_neg h.nodes, if_neg hfinite, if_pos hvolume]
  exact ⟨bm, hrun, hbm.trans hselect⟩

end

/-! ## The checker -/

open Manufacturability

/-- The index of the keys of these candidates. -/
structure Indexed (x : Collected) (cfs : List CandidateFace) : Prop where
  candidates : x.candidates = cfs
  claimed : ∀ cf ∈ cfs, (x.faceIndex.lookup cf.key).map Prod.snd = some (tally CandidateFace.key cf.key cfs)
  others : ∀ k, (∀ cf ∈ cfs, cf.key ≠ k) → x.faceIndex.lookup k = none

theorem Indexed.found {x : Collected} {cfs : List CandidateFace} (h : Indexed x cfs) (k : List ℕ) :
    ((x.faceIndex.lookup k).map Prod.snd).getD 0 = tally CandidateFace.key k cfs := by
  by_cases hk : ∃ cf ∈ cfs, cf.key = k
  · obtain ⟨cf, hcf, rfl⟩ := hk
    rw [h.claimed cf hcf]
    rfl
  · have hnone : ∀ cf ∈ cfs, cf.key ≠ k := fun cf hcf hkey => hk ⟨cf, hcf, hkey⟩
    rw [h.others k hnone, tally_eq_zero_iff.mpr hnone]
    rfl

theorem lookup_addCandidate (x : Collected) (cf : CandidateFace) (k : List ℕ) :
    ((addCandidate x cf).faceIndex.lookup k).map Prod.snd =
      if k = cf.key then some (((x.faceIndex.lookup cf.key).map Prod.snd).getD 0 + 1)
      else (x.faceIndex.lookup k).map Prod.snd := by
  rw [addCandidate]
  split_ifs with heq
  · rw [heq]
    cases hlook : x.faceIndex.lookup cf.key with
    | none =>
      dsimp only
      rw [AList.lookup_insert]
      rfl
    | some e =>
      dsimp only
      rw [AList.lookup_insert]
      rfl
  · cases hlook : x.faceIndex.lookup cf.key with
    | none =>
      dsimp only
      rw [AList.lookup_insert_ne heq]
    | some e =>
      dsimp only
      rw [AList.lookup_insert_ne heq]

theorem Indexed.add {x : Collected} {cfs : List CandidateFace} (h : Indexed x cfs) (cf : CandidateFace) :
    Indexed (addCandidate x cf) (cfs ++ [cf]) where
  candidates := by rw [addCandidate, h.candidates]
  claimed cf' hcf' := by
    rw [lookup_addCandidate, tally_append, tally_singleton]
    by_cases heq : cf'.key = cf.key
    · rw [if_pos heq, if_pos heq.symm, h.found, heq]
    · have hold : cf' ∈ cfs := by
        refine (List.mem_append.mp hcf').resolve_right fun hin => heq ?_
        rw [List.mem_singleton.mp hin]
      rw [if_neg heq, if_neg (Ne.symm heq), h.claimed cf' hold, Nat.add_zero]
  others k hk := by
    have hne : k ≠ cf.key := fun heq => hk cf (List.mem_append_right _ List.mem_cons_self) heq.symm
    have hlook := lookup_addCandidate x cf k
    rw [if_neg hne, h.others k fun cf' hcf' => hk cf' (List.mem_append_left _ hcf')] at hlook
    exact Option.map_eq_none_iff.mp hlook

theorem Indexed.adds {x : Collected} {cfs : List CandidateFace} (h : Indexed x cfs) (more : List CandidateFace) :
    Indexed (more.foldl addCandidate x) (cfs ++ more) := by
  induction more generalizing x cfs with
  | nil => rwa [List.append_nil]
  | cons cf more ih =>
    rw [List.append_cons]
    exact ih (h.add cf)

section

variable {mesh : Mesh} {cell : Cell}

theorem visitCell_sound (h : Sound mesh cell) (c : ℕ) (x : Collected) :
    ∃ x', Manufacturability.visitCell mesh.nodes.length c cell x = .ok x' ∧ ∀ cfs, Indexed x cfs →
      Indexed x' (cfs ++ candidatesOf c cell (localFaceTable cell.type)) := by
  obtain ⟨hpos, hlarge⟩ := numNodes_solid cell.type h.solid
  have hempty : cell.nodes ≠ [] := by
    rw [← List.length_pos_iff, h.arity]
    exact hpos
  have hfaces : (faceNodeTable cell.type).isEmpty = false := by
    have hall : ∀ t ∈ solidTypes, (faceNodeTable t).isEmpty = false := by decide
    exact hall cell.type h.solid
  have hskip : (decide (cell.nodes = []) || decide (cell.nodes.length > kMaxCellNodes) ||
      (faceNodeTable cell.type).isEmpty || decide (cell.type.numNodes > cell.nodes.length)) = false := by
    simp only [Bool.or_eq_false_iff, decide_eq_false_iff_not, hfaces, h.arity, kMaxCellNodes]
    refine ⟨⟨⟨hempty, ?_⟩, trivial⟩, ?_⟩
    · omega
    · omega
  have htable := localFaceTable_solid cell.type h.solid
  refine ⟨(candidatesOf c cell (localFaceTable cell.type)).foldl addCandidate
    { x with geometry.numVolumeCells := x.geometry.numVolumeCells + 1 }, ?_, fun cfs hcfs => ?_⟩
  · rw [Manufacturability.visitCell, htable, hskip, h.in_range]
    rfl
  · have hcount : Indexed { x with geometry.numVolumeCells := x.geometry.numVolumeCells + 1 } cfs :=
      ⟨hcfs.candidates, hcfs.claimed, hcfs.others⟩
    exact hcount.adds _

/-- The candidates of cells that are numbered from `c`. -/
def allCandidates : ℕ → List Cell → List CandidateFace
  | _, [] => []
  | c, cell :: cells => candidatesOf c cell (localFaceTable cell.type) ++ allCandidates (c + 1) cells

theorem visitCells_sound {cells : List Cell} (h : ∀ cell ∈ cells, Sound mesh cell) (c : ℕ) {x : Collected}
    {cfs : List CandidateFace} (hcfs : Indexed x cfs) :
    ∃ x', Manufacturability.visitCells mesh.nodes.length c cells x = .ok x' ∧ Indexed x' (cfs ++ allCandidates c cells) := by
  induction cells generalizing c x cfs with
  | nil =>
    refine ⟨x, rfl, ?_⟩
    rwa [allCandidates, List.append_nil]
  | cons cell cells ih =>
    obtain ⟨x₁, hcell, hindexed⟩ := visitCell_sound (h cell List.mem_cons_self) c x
    obtain ⟨x', hrest, hindexed'⟩ := ih (fun cell' h' => h cell' (List.mem_cons_of_mem cell h')) (c + 1)
      (hindexed cfs hcfs)
    refine ⟨x', ?_, ?_⟩
    · rw [Manufacturability.visitCells, hcell]
      exact hrest
    · rwa [allCandidates, ← List.append_assoc]

theorem candidatesOf_sound (h : Sound mesh cell) {c : ℕ} (hget : mesh.cells[c]? = some cell) :
    (candidatesOf c cell (localFaceTable cell.type)).map (fun cf => cf.face.nodes mesh) = cell.faces ∧
      ∀ cf ∈ candidatesOf c cell (localFaceTable cell.type),
        cf.key = Manufacturability.faceKey (cf.face.nodes mesh) := by
  have htable := localFaceTable_solid cell.type h.solid
  have hnodes : ∀ f ∈ (localFaceTable cell.type).faces.zipIdx,
      BoundaryFace.nodes mesh ⟨c, f.2⟩ = f.1.corners.map fun i => cell.nodes.getD i 0 := by
    intro f hf
    have hface := List.mk_mem_zipIdx_iff_getElem?.mp hf
    unfold BoundaryFace.nodes
    dsimp only
    rw [hget]
    dsimp only
    rw [hface]
  constructor
  · rw [candidatesOf, List.map_map, Cell.faces]
    have hmap : ((localFaceTable cell.type).faces.zipIdx.map fun f => f.1.corners.map fun i => cell.nodes.getD i 0) =
        (faceNodeTable cell.type).map (faceVerts cell) := by
      have hfst : faceNodeTable cell.type = (localFaceTable cell.type).faces.zipIdx.map Prod.fst := by
        rw [List.zipIdx_map_fst, htable]
      rw [hfst, List.map_map]
      rfl
    rw [← hmap]
    exact List.map_congr_left fun f hf => hnodes f hf
  · intro cf hcf
    obtain ⟨f, hf, rfl⟩ := List.mem_map.mp hcf
    dsimp only
    rw [hnodes f hf]

theorem allCandidates_sound {pre cells : List Cell} (hsplit : mesh.cells = pre ++ cells)
    (h : ∀ cell ∈ cells, Sound mesh cell) :
    (allCandidates pre.length cells).map (fun cf => cf.face.nodes mesh) = cells.flatMap Cell.faces ∧
      ∀ cf ∈ allCandidates pre.length cells, cf.key = Manufacturability.faceKey (cf.face.nodes mesh) := by
  induction cells generalizing pre with
  | nil => exact ⟨rfl, fun cf hcf => absurd hcf List.not_mem_nil⟩
  | cons cell cells ih =>
    have hget : mesh.cells[pre.length]? = some cell := by
      rw [hsplit, List.getElem?_append_right le_rfl, Nat.sub_self]
      rfl
    obtain ⟨hfaces, hkeys⟩ := candidatesOf_sound (h cell List.mem_cons_self) hget
    have hmore : mesh.cells = (pre ++ [cell]) ++ cells := by rw [hsplit, List.append_cons]
    obtain ⟨hfaces', hkeys'⟩ := ih hmore fun cell' h' => h cell' (List.mem_cons_of_mem cell h')
    rw [List.length_append, List.length_singleton] at hfaces' hkeys'
    rw [allCandidates, List.map_append, List.flatMap_cons, hfaces, hfaces']
    refine ⟨rfl, fun cf hcf => ?_⟩
    rcases List.mem_append.mp hcf with hcf | hcf
    · exact hkeys cf hcf
    · exact hkeys' cf hcf

theorem LinearSolid.checker (h : LinearSolid mesh) : ∃ g, buildMeshGeometry mesh = .ok g ∧
    ∀ f, f ∈ g.faces mesh ↔ f ∈ mesh.faces ∧ tally Core.faceKey (Core.faceKey f) mesh.faces = 1 := by
  have hstart : Indexed { geometry := { numNodes := mesh.nodes.length, numCells := mesh.cells.length } } [] :=
    ⟨rfl, fun cf hcf => absurd hcf List.not_mem_nil, fun _ _ => rfl⟩
  obtain ⟨x, hrun, hindexed⟩ := visitCells_sound (fun cell hcell => h.sound hcell) 0 hstart
  rw [List.nil_append] at hindexed
  have hsplit : mesh.cells = [] ++ mesh.cells := rfl
  obtain ⟨hfaces, hkeys⟩ := allCandidates_sound hsplit fun cell hcell => h.sound hcell
  rw [List.length_nil] at hfaces hkeys
  generalize allCandidates 0 mesh.cells = cfs at hindexed hfaces hkeys
  have hface : ∀ cf ∈ cfs, IsFace (cf.face.nodes mesh) := by
    intro cf hcf
    refine h.isFace ?_
    rw [Mesh.faces, ← hfaces]
    exact List.mem_map_of_mem hcf
  have hselect : ∀ cf ∈ cfs, claimedOnce x.faceIndex cf = true ↔
      tally Core.faceKey (Core.faceKey (cf.face.nodes mesh)) mesh.faces = 1 := by
    intro cf hcf
    have htally : tally CandidateFace.key cf.key cfs =
        tally Core.faceKey (Core.faceKey (cf.face.nodes mesh)) mesh.faces := by
      rw [Mesh.faces, ← hfaces, tally, tally, List.countP_map]
      apply List.countP_congr
      intro cf' hcf'
      rw [Function.comp_apply, decide_eq_true_eq, decide_eq_true_eq, hkeys cf hcf, hkeys cf' hcf',
        checkerKey_eq (hface cf hcf), checkerKey_eq (hface cf' hcf')]
      exact slicerKey_eq_iff (hface cf' hcf') (hface cf hcf)
    have hclaimed := hindexed.claimed cf hcf
    rw [htally] at hclaimed
    obtain ⟨e, he, hcount⟩ := Option.map_eq_some_iff.mp hclaimed
    rw [claimedOnce, he, Option.any_some, decide_eq_true_eq, hcount]
  refine ⟨{ x.geometry with
    boundaryFaces := (x.candidates.filter (claimedOnce x.faceIndex)).map CandidateFace.face }, ?_, fun f => ?_⟩
  · rw [buildMeshGeometry, if_neg h.nodes, if_neg h.nonempty, hrun]
    rfl
  · rw [MeshGeometry.faces, List.map_map, hindexed.candidates, List.mem_map]
    constructor
    · rintro ⟨cf, hcf, rfl⟩
      obtain ⟨hin, hone⟩ := List.mem_filter.mp hcf
      refine ⟨?_, (hselect cf hin).mp hone⟩
      rw [Mesh.faces, ← hfaces]
      exact List.mem_map_of_mem hin
    · rintro ⟨hf, hone⟩
      rw [Mesh.faces, ← hfaces] at hf
      obtain ⟨cf, hin, rfl⟩ := List.mem_map.mp hf
      exact ⟨cf, List.mem_filter.mpr ⟨hin, (hselect cf hin).mpr hone⟩, rfl⟩

/-! ## Agreement -/

/-- The surface stream, the slicer and the checker select the same faces. -/
def Agree (order : WalkOrder) (mesh : Mesh) : Prop :=
  ∃ bm g, Slicer.extractBoundary mesh = .ok bm ∧ buildMeshGeometry mesh = .ok g ∧
    (∀ f, f ∈ bm.facets ↔ f ∈ extractBoundaryFaces order mesh) ∧
    ∀ f, f ∈ g.faces mesh ↔ f ∈ extractBoundaryFaces order mesh

theorem LinearSolid.stream (h : LinearSolid mesh) (order : WalkOrder) (f : List ℕ) :
    f ∈ extractBoundaryFaces order mesh ↔
      f ∈ mesh.faces ∧ tally Core.faceKey (Core.faceKey f) mesh.faces = 1 := by
  have hcells : mesh.surfaceCells = [] := by
    rw [Mesh.surfaceCells, List.map_eq_nil_iff, List.filter_eq_nil_iff]
    intro cell hcell hsurface
    exact not_isSurface_of_solid (h.linear cell hcell) (of_decide_eq_true hsurface)
  rw [(extractBoundaryFaces_perm order h.valid).mem_iff, Mesh.surfaceFaces, hcells, List.nil_append,
    Mesh.boundaryFaces, h.solidFaces, mem_once]

/-- The extractors agree, exactly when no face occurs more than once but counts as one in 32 bits. -/
theorem extractors_agree_iff (h : LinearSolid mesh) (order : WalkOrder) : Agree order mesh ↔
    ∀ f ∈ mesh.faces, tally Core.faceKey (Core.faceKey f) mesh.faces % 2 ^ 32 = 1 →
      tally Core.faceKey (Core.faceKey f) mesh.faces = 1 := by
  obtain ⟨bm, hslicer, hfacets⟩ := h.slicer
  obtain ⟨g, hchecker, hfaces⟩ := h.checker
  have hmem : ∀ f, f ∈ bm.facets ↔
      f ∈ mesh.faces ∧ tally Core.faceKey (Core.faceKey f) mesh.faces % 2 ^ 32 = 1 := by
    intro f
    rw [hfacets, List.mem_filter, decide_eq_true_eq]
  constructor
  · rintro ⟨bm', g', hslicer', -, hsame, -⟩ f hf hone
    obtain rfl : bm' = bm := Except.ok.inj (hslicer'.symm.trans hslicer)
    exact ((h.stream order f).mp ((hsame f).mp ((hmem f).mpr ⟨hf, hone⟩))).2
  · intro hall
    refine ⟨bm, g, hslicer, hchecker, fun f => ?_, fun f => ?_⟩
    · rw [hmem, h.stream]
      constructor
      · rintro ⟨hf, hone⟩
        exact ⟨hf, hall f hf hone⟩
      · rintro ⟨hf, hone⟩
        refine ⟨hf, ?_⟩
        rw [hone]
        decide
    · rw [hfaces, h.stream]

end

theorem twoTets_linearSolid : LinearSolid twoTets where
  valid := twoTets_solid.valid
  nonempty := by decide
  linear := twoTets_solid.linear
  distinct := twoTets_solid.distinct
  finite p hp := by
    rw [List.eq_of_mem_replicate hp]
    decide
  size := by decide

theorem extractors_agree_iff_two : Agree entryOrder twoTets ↔
    ∀ f ∈ twoTets.faces, tally Core.faceKey (Core.faceKey f) twoTets.faces % 2 ^ 32 = 1 →
      tally Core.faceKey (Core.faceKey f) twoTets.faces = 1 :=
  extractors_agree_iff twoTets_linearSolid entryOrder

/-- A tetrahedron, as often as it takes for its faces to count as one. -/
def manyTets : Mesh where
  nodes := List.replicate 4 (0, 0, 0)
  cells := List.replicate (2 ^ 32 + 1) ⟨.tet4, [0, 1, 2, 3], 0⟩

theorem manyTets_linearSolid : LinearSolid manyTets where
  valid := by
    intro cell hcell
    rw [List.eq_of_mem_replicate hcell]
    exact ⟨rfl, by decide⟩
  nonempty := List.cons_ne_nil _ _
  linear cell hcell := by
    rw [List.eq_of_mem_replicate hcell]
    decide
  distinct cell hcell := by
    rw [List.eq_of_mem_replicate hcell]
    decide
  finite p hp := by
    rw [List.eq_of_mem_replicate hp]
    decide
  size := by decide

theorem tally_replicate (k : List ℕ) (cell : Cell) (n : ℕ) :
    tally Core.faceKey k ((List.replicate n cell).flatMap Cell.faces) = n * tally Core.faceKey k cell.faces := by
  induction n with
  | zero => exact (Nat.zero_mul _).symm
  | succ n ih =>
    rw [List.replicate_succ, List.flatMap_cons, tally_append, ih, Nat.succ_mul, Nat.add_comm]

/-- The slicer prints a face that the stream does not show. -/
theorem manyTets_disagree : LinearSolid manyTets ∧ ¬Agree entryOrder manyTets := by
  have htally : tally Core.faceKey (Core.faceKey [1, 2, 3]) manyTets.faces = 2 ^ 32 + 1 := by
    have hone : tally Core.faceKey (Core.faceKey [1, 2, 3]) (Cell.faces ⟨.tet4, [0, 1, 2, 3], 0⟩) = 1 := by decide
    rw [Mesh.faces, manyTets, tally_replicate, hone, Nat.mul_one]
  have hface : [1, 2, 3] ∈ manyTets.faces :=
    List.mem_flatMap.mpr ⟨⟨.tet4, [0, 1, 2, 3], 0⟩, List.mem_cons_self, List.mem_cons_self⟩
  refine ⟨manyTets_linearSolid, fun hagree => ?_⟩
  obtain ⟨bm, g, hslicer, -, hsame, -⟩ := hagree
  obtain ⟨bm', hslicer', hfacets⟩ := manyTets_linearSolid.slicer
  obtain rfl : bm = bm' := Except.ok.inj (hslicer.symm.trans hslicer')
  have hprinted : [1, 2, 3] ∈ bm.facets := by
    rw [hfacets, List.mem_filter, htally]
    exact ⟨hface, by decide⟩
  have hshown := (manyTets_linearSolid.stream entryOrder _).mp ((hsame _).mp hprinted)
  rw [htally] at hshown
  exact absurd hshown.2 (by decide)

end Souxmar.Am
