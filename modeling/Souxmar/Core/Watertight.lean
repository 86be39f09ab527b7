import Mathlib.Data.List.Sigma
import Mathlib.Data.Finset.Dedup
import Souxmar.Core.SurfaceStream

/-!
# The surface is watertight

Every cell's table is a closed surface: its directed edges are balanced. In a mesh whose shared faces lie against
each other in opposite order the edges of both occurrences are balanced too, so those of the remaining faces must
be. Cutting quadrilaterals adds each diagonal in both directions, and numbering the nodes renames them.
-/

namespace Souxmar.Core

open Souxmar.Lib

/-! ## Meshes of solid cells -/

def Cell.faces (cell : Cell) : List (List ℕ) := (faceNodeTable cell.type).map (faceVerts cell)

def Mesh.faces (mesh : Mesh) : List (List ℕ) := mesh.cells.flatMap Cell.faces

def solidTypes : List ElementType := [.tet4, .hex8, .prism6, .pyramid5]

/-- Linear three-dimensional cells with distinct nodes; no vertex set is in more than two faces, and two faces on
the same vertices run around them in opposite order. -/
structure Solid (mesh : Mesh) : Prop where
  valid : mesh.Valid
  linear : ∀ cell ∈ mesh.cells, cell.type ∈ solidTypes
  distinct : ∀ cell ∈ mesh.cells, cell.nodes.Nodup
  twice : ∀ f ∈ mesh.faces, mesh.faces.countP (fun g => g.toFinset = f.toFinset) ≤ 2
  opposed : mesh.faces.Pairwise fun f g => f.toFinset = g.toFinset → g.IsRotated f.reverse

/-! ## The face tables -/

theorem table_balanced : ∀ t ∈ solidTypes, Balanced ((faceNodeTable t).flatMap fun lf => sides lf.corners) := by
  decide

/-- A face has three or four different corners, and the cell has a node for each. -/
theorem table_corners : ∀ t ∈ solidTypes, ∀ lf ∈ faceNodeTable t,
    (lf.corners.length = 3 ∨ lf.corners.length = 4) ∧ lf.corners.Nodup ∧
      ∀ i ∈ lf.corners, i < t.numNodes := by
  decide

theorem faces_balanced {cell : Cell} (h : cell.type ∈ solidTypes) : Balanced (cell.faces.flatMap sides) := by
  have hnames : cell.faces.flatMap sides =
      ((faceNodeTable cell.type).flatMap fun lf => sides lf.corners).map
        (Prod.map (fun i => cell.nodes.getD i 0) fun i => cell.nodes.getD i 0) := by
    rw [Cell.faces, List.flatMap_map, List.map_flatMap]
    apply List.flatMap_congr
    intro lf _
    exact sides_map _ lf.corners
  rw [hnames]
  exact (table_balanced cell.type h).map _

theorem getD_nodes_inj {cell : Cell} (harity : cell.nodes.length = cell.type.numNodes) (hnodup : cell.nodes.Nodup)
    {i j : ℕ} (hi : i < cell.type.numNodes) (hj : j < cell.type.numNodes)
    (h : cell.nodes.getD i 0 = cell.nodes.getD j 0) : i = j := by
  rw [← harity] at hi hj
  rw [List.getD_eq_getElem _ _ hi, List.getD_eq_getElem _ _ hj] at h
  exact hnodup.getElem_inj_iff.mp h

theorem faceVerts_nodup {cell : Cell} (hsolid : cell.type ∈ solidTypes)
    (harity : cell.nodes.length = cell.type.numNodes) (hnodup : cell.nodes.Nodup) {lf : LocalFace}
    (hlf : lf ∈ faceNodeTable cell.type) :
    ((faceVerts cell lf).length = 3 ∨ (faceVerts cell lf).length = 4) ∧ (faceVerts cell lf).Nodup := by
  obtain ⟨hlen, hcorners, hlt⟩ := table_corners cell.type hsolid lf hlf
  refine ⟨by rwa [faceVerts, List.length_map], ?_⟩
  apply List.Nodup.map_on _ hcorners
  intro i hi j hj hsame
  exact getD_nodes_inj harity hnodup (hlt i hi) (hlt j hj) hsame

section

variable {mesh : Mesh}

theorem Solid.balanced (h : Solid mesh) : Balanced (mesh.faces.flatMap sides) := by
  rw [Mesh.faces, List.flatMap_assoc]
  exact Balanced.flatMap fun cell hcell => faces_balanced (h.linear cell hcell)

theorem Solid.face (h : Solid mesh) {f : List ℕ} (hf : f ∈ mesh.faces) :
    (f.length = 3 ∨ f.length = 4) ∧ f.Nodup := by
  obtain ⟨cell, hcell, hmem⟩ := List.mem_flatMap.mp hf
  obtain ⟨lf, hlf, rfl⟩ := List.mem_map.mp hmem
  exact faceVerts_nodup (h.linear cell hcell) (h.valid cell hcell).1 (h.distinct cell hcell) hlf

end

/-! ## Keys -/

theorem faceKey_perm (f : List ℕ) : (faceKey f).Perm f := List.perm_insertionSort _ f

theorem faceKey_eq_iff {f g : List ℕ} (hf : f.Nodup) (hg : g.Nodup) :
    faceKey f = faceKey g ↔ f.toFinset = g.toFinset := by
  constructor
  · intro hkey
    have hperm : f.Perm g := (faceKey_perm f).symm.trans (hkey ▸ faceKey_perm g)
    exact List.toFinset_eq_of_perm f g hperm
  · intro hset
    have hperm : f.Perm g := List.perm_of_nodup_nodup_toFinset_eq hf hg hset
    exact ((faceKey_perm f).trans (hperm.trans (faceKey_perm g).symm)).eq_of_pairwise
      (fun _ _ _ _ => Nat.le_antisymm) (List.pairwise_insertionSort _ f) (List.pairwise_insertionSort _ g)

/-- What `Solid` says of shared faces, in terms of the keys. -/
structure Matched (faces : List (List ℕ)) : Prop where
  twice : ∀ k, faces.countP (fun f => faceKey f = k) ≤ 2
  opposed : faces.Pairwise fun f g => faceKey f = faceKey g → g.IsRotated f.reverse

theorem Matched.prefix {faces rest : List (List ℕ)} (h : Matched (faces ++ rest)) : Matched faces where
  twice k := by
    have hle := h.twice k
    rw [List.countP_append] at hle
    omega
  opposed := (List.pairwise_append.mp h.opposed).1

theorem Solid.matched {mesh : Mesh} (h : Solid mesh) : Matched mesh.faces where
  twice k := by
    by_cases hk : ∃ f ∈ mesh.faces, faceKey f = k
    · obtain ⟨f, hf, rfl⟩ := hk
      have hsame : mesh.faces.countP (fun g => faceKey g = faceKey f) =
          mesh.faces.countP (fun g => g.toFinset = f.toFinset) := by
        apply List.countP_congr
        intro g hg
        have hiff := faceKey_eq_iff (h.face hg).2 (h.face hf).2
        simp only [decide_eq_true_eq]
        exact hiff
      rw [hsame]
      exact h.twice f hf
    · have hzero : mesh.faces.countP (fun g => faceKey g = k) = 0 := by
        rw [List.countP_eq_zero]
        intro g hg hkey
        exact hk ⟨g, hg, of_decide_eq_true hkey⟩
      omega
  opposed := by
    apply h.opposed.imp_of_mem
    intro f g hf hg hopp hkey
    exact hopp ((faceKey_eq_iff (h.face hf).2 (h.face hg).2).mp hkey)

/-! ## Matching the faces -/

/-- The faces seen once so far. -/
def openFaces (entries : List (Sigma fun _ : List ℕ => FaceEntry)) : List (List ℕ) :=
  (entries.filter fun e => e.2.neighbour < 0).map fun e => e.2.vertsOwner

/-- The map after some faces: its entries are among these, an entry with a neighbour was met twice, and the sides of
all faces are those of the open ones and balanced pairs. -/
structure Walked (faces : List (List ℕ)) (m : FaceMap) : Prop where
  owner : ∀ k e, m.lookup k = some e → e.vertsOwner ∈ faces ∧ faceKey e.vertsOwner = k
  seen : ∀ f ∈ faces, faceKey f ∈ m
  met : ∀ k e, m.lookup k = some e → 0 ≤ e.neighbour → 2 ≤ faces.countP fun f => faceKey f = k
  split : ∃ shared, Balanced shared ∧ (faces.flatMap sides).Perm ((openFaces m.entries).flatMap sides ++ shared)

theorem walked_start : Walked [] ∅ where
  owner _ _ hk := nomatch hk
  seen _ hf := nomatch hf
  met _ _ hk := nomatch hk
  split := ⟨[], Balanced.nil, List.Perm.refl _⟩

theorem openFaces_cons_open {k : List ℕ} {e : FaceEntry} (h : e.neighbour < 0)
    (entries : List (Sigma fun _ : List ℕ => FaceEntry)) :
    openFaces (⟨k, e⟩ :: entries) = e.vertsOwner :: openFaces entries := by
  simp [openFaces, h]

theorem openFaces_cons_met {k : List ℕ} {e : FaceEntry} (h : 0 ≤ e.neighbour)
    (entries : List (Sigma fun _ : List ℕ => FaceEntry)) :
    openFaces (⟨k, e⟩ :: entries) = openFaces entries := by
  simp [openFaces, Int.not_lt.mpr h]

theorem openFaces_perm {entries entries' : List (Sigma fun _ : List ℕ => FaceEntry)} (h : entries.Perm entries') :
    (openFaces entries).Perm (openFaces entries') := (h.filter _).map _

theorem entries_perm {m : FaceMap} {k : List ℕ} {e : FaceEntry} (h : m.lookup k = some e) :
    m.entries.Perm (⟨k, e⟩ :: m.entries.kerase k) := by
  have hmem : k ∈ m.entries.keys := AList.mem_keys.mp (AList.lookup_isSome.mp (by rw [h]; rfl))
  obtain ⟨e', l₁, l₂, hnot, hentries, herase⟩ := List.exists_of_kerase hmem
  have hfound : m.lookup k = some e' := by
    rw [← Option.mem_def, AList.mem_lookup_iff, hentries]
    exact List.mem_append_right _ List.mem_cons_self
  obtain rfl : e' = e := Option.some.inj (hfound.symm.trans h)
  rw [herase, hentries]
  exact List.perm_middle

section

variable {faces : List (List ℕ)} {m : FaceMap}

theorem Walked.first (h : Walked faces m) {f : List ℕ} (hnone : m.lookup (faceKey f) = none) :
    Walked (faces ++ [f]) (m.insert (faceKey f) { vertsOwner := f }) where
  owner k e hk := by
    obtain ⟨rfl, rfl⟩ | ⟨_, hk⟩ := Dict.of_lookup_insert hk
    · exact ⟨List.mem_append_right _ List.mem_cons_self, rfl⟩
    · have hold := h.owner k e hk
      exact ⟨List.mem_append_left _ hold.1, hold.2⟩
  seen g hg := by
    rw [AList.mem_insert]
    rcases List.mem_append.mp hg with hg | hg
    · exact Or.inr (h.seen g hg)
    · exact Or.inl (by rw [List.mem_singleton.mp hg])
  met k e hk hnb := by
    obtain ⟨rfl, rfl⟩ | ⟨_, hk⟩ := Dict.of_lookup_insert hk
    · have hopen : ¬(0 : ℤ) ≤ -1 := by decide
      exact absurd hnb hopen
    · have hold := h.met k e hk hnb
      rw [List.countP_append]
      omega
  split := by
    obtain ⟨shared, hbal, hperm⟩ := h.split
    refine ⟨shared, hbal, ?_⟩
    have hnew : openFaces (m.insert (faceKey f) { vertsOwner := f }).entries = f :: openFaces m.entries := by
      rw [AList.entries_insert_of_notMem (AList.lookup_eq_none.mp hnone)]
      exact openFaces_cons_open (show (-1 : ℤ) < 0 by decide) _
    rw [hnew, List.flatMap_append, List.flatMap_singleton, List.flatMap_cons, List.append_assoc]
    exact (hperm.append_right (sides f)).trans List.perm_append_comm

theorem Walked.second (h : Walked faces m) {f : List ℕ} (hmatch : Matched (faces ++ [f])) {e : FaceEntry}
    (hsome : m.lookup (faceKey f) = some e) (c : ℕ) :
    Walked (faces ++ [f]) (m.insert (faceKey f) { e with neighbour := c }) where
  owner k e' hk := by
    obtain ⟨rfl, rfl⟩ | ⟨_, hk⟩ := Dict.of_lookup_insert hk
    · have hold := h.owner _ e hsome
      exact ⟨List.mem_append_left _ hold.1, hold.2⟩
    · have hold := h.owner k e' hk
      exact ⟨List.mem_append_left _ hold.1, hold.2⟩
  seen g hg := by
    rw [AList.mem_insert]
    rcases List.mem_append.mp hg with hg | hg
    · exact Or.inr (h.seen g hg)
    · exact Or.inl (by rw [List.mem_singleton.mp hg])
  met k e' hk hnb := by
    rw [List.countP_append]
    obtain ⟨rfl, rfl⟩ | ⟨_, hk⟩ := Dict.of_lookup_insert hk
    · have hold := h.owner _ e hsome
      have hfirst : 0 < faces.countP fun g => faceKey g = faceKey f :=
        List.countP_pos_iff.mpr ⟨e.vertsOwner, hold.1, decide_eq_true hold.2⟩
      have hlast : 0 < [f].countP fun g => faceKey g = faceKey f :=
        List.countP_pos_iff.mpr ⟨f, List.mem_cons_self, decide_eq_true rfl⟩
      omega
    · have hold := h.met k e' hk hnb
      omega
  split := by
    obtain ⟨shared, hbal, hperm⟩ := h.split
    obtain ⟨hmem, hkey⟩ := h.owner _ e hsome
    -- a third face on these vertices would be needed for the entry to have a neighbour already
    have hopen : e.neighbour < 0 := by
      by_contra hnb
      have htwo := h.met _ e hsome (by omega)
      have hlast : 0 < [f].countP fun g => faceKey g = faceKey f :=
        List.countP_pos_iff.mpr ⟨f, List.mem_cons_self, decide_eq_true rfl⟩
      have hle := hmatch.twice (faceKey f)
      rw [List.countP_append] at hle
      omega
    have hopp : f.IsRotated e.vertsOwner.reverse :=
      (List.pairwise_append.mp hmatch.opposed).2.2 _ hmem f List.mem_cons_self hkey
    have hold : (openFaces m.entries).Perm (e.vertsOwner :: openFaces (m.entries.kerase (faceKey f))) := by
      have hsplit := openFaces_perm (entries_perm hsome)
      rwa [openFaces_cons_open hopen] at hsplit
    have hnew : openFaces (m.insert (faceKey f) { e with neighbour := c }).entries =
        openFaces (m.entries.kerase (faceKey f)) := by
      rw [AList.entries_insert]
      exact openFaces_cons_met (Int.natCast_nonneg c) _
    refine ⟨shared ++ (sides e.vertsOwner ++ sides f), hbal.append (Balanced.opposed hopp), ?_⟩
    rw [hnew, List.flatMap_append, List.flatMap_singleton]
    have hsides := hold.flatMap_right sides
    rw [List.flatMap_cons] at hsides
    rw [List.perm_iff_count]
    intro x
    have h1 := hperm.count_eq x
    have h2 := hsides.count_eq x
    simp only [List.count_append] at h1 h2 ⊢
    omega

/-- One face. -/
theorem Walked.visitFace (h : Walked faces m) {f : List ℕ} (hmatch : Matched (faces ++ [f])) (c : ℕ) :
    Walked (faces ++ [f]) (visitFace c m f) := by
  unfold Core.visitFace
  cases hlook : m.lookup (faceKey f) with
  | none => exact h.first hlook
  | some e => exact h.second hmatch hlook c

/-- The faces of a cell. -/
theorem Walked.visitFaces {more : List (List ℕ)} (h : Walked faces m) (hmatch : Matched (faces ++ more)) (c : ℕ) :
    Walked (faces ++ more) (more.foldl (Core.visitFace c) m) := by
  induction more generalizing faces m with
  | nil => rwa [List.append_nil]
  | cons f more ih =>
    have hassoc : faces ++ f :: more = faces ++ [f] ++ more := List.append_cons faces f more
    rw [hassoc] at hmatch ⊢
    exact ih (h.visitFace hmatch.prefix c) hmatch

end

theorem visitCell_solid {cell : Cell} (h : cell.type ∈ solidTypes) (c : ℕ) (x : Extraction) :
    visitCell c cell x = { x with faceMap := cell.faces.foldl (visitFace c) x.faceMap } := by
  have htri : cell.type ≠ .tri3 := fun heq => absurd (heq ▸ h) (by decide)
  have hquad : cell.type ≠ .quad4 := fun heq => absurd (heq ▸ h) (by decide)
  rw [visitCell, if_neg htri, if_neg hquad]
  rfl

theorem walked_cells {cells : List Cell} (hlinear : ∀ cell ∈ cells, cell.type ∈ solidTypes)
    {faces : List (List ℕ)} {x : Extraction} (hmatch : Matched (faces ++ cells.flatMap Cell.faces))
    (h : Walked faces x.faceMap) (c : ℕ) :
    Walked (faces ++ cells.flatMap Cell.faces) (visitCells c cells x).faceMap ∧
      (visitCells c cells x).out = x.out := by
  induction cells generalizing faces x c with
  | nil =>
    rw [List.flatMap_nil, List.append_nil]
    exact ⟨h, rfl⟩
  | cons cell cells ih =>
    rw [List.flatMap_cons, ← List.append_assoc] at hmatch ⊢
    have hcell := hlinear cell List.mem_cons_self
    have hnext : Walked (faces ++ cell.faces) (visitCell c cell x).faceMap := by
      rw [visitCell_solid hcell]
      exact h.visitFaces hmatch.prefix c
    have hout : (visitCell c cell x).out = x.out := by rw [visitCell_solid hcell]
    have hrest := ih (fun cell' h' => hlinear cell' (List.mem_cons_of_mem cell h')) hmatch hnext (c + 1)
    rw [hout] at hrest
    exact hrest

section

variable {mesh : Mesh}

/-- What the extraction leaves: faces of the mesh whose sides are balanced. -/
theorem Solid.boundary (h : Solid mesh) (order : WalkOrder) :
    Balanced ((extractBoundaryFaces order mesh).flatMap sides) ∧
      ∀ f ∈ extractBoundaryFaces order mesh, f ∈ mesh.faces := by
  obtain ⟨hwalk, hout⟩ := walked_cells h.linear (x := {}) h.matched walked_start 0
  rw [List.nil_append] at hwalk
  have hperm : (extractBoundaryFaces order mesh).Perm (openFaces (visitCells 0 mesh.cells {}).faceMap.entries) := by
    show ((visitCells 0 mesh.cells {}).out ++ _).Perm _
    rw [hout]
    have hvalues := ((order.perm (visitCells 0 mesh.cells {}).faceMap).filter fun fe => fe.neighbour < 0).map
      FaceEntry.vertsOwner
    rw [List.filter_map, List.map_map] at hvalues
    exact hvalues
  constructor
  · obtain ⟨shared, hbal, hsplit⟩ := hwalk.split
    have hopen := Balanced.of_append (h.balanced.perm hsplit) hbal
    exact hopen.perm (hperm.symm.flatMap_right sides)
  · intro f hf
    obtain ⟨e, he, rfl⟩ := List.mem_map.mp (hperm.mem_iff.mp hf)
    exact (hwalk.owner e.1 e.2 (AList.mem_lookup_iff.mpr (List.mem_of_mem_filter he))).1

end

/-! ## Cutting into triangles -/

/-- The triangles of a face. -/
def fan {α : Type} : List α → List (List α)
  | [a, b, c] => [[a, b, c]]
  | [a, b, c, d] => [[a, b, c], [a, c, d]]
  | _ => []

theorem fan_sides {f : List ℕ} (h : f.length = 3 ∨ f.length = 4) :
    ∃ cut, Balanced cut ∧ ((fan f).flatMap sides).Perm (sides f ++ cut) := by
  rcases h with h | h
  · obtain ⟨a, b, c, rfl⟩ := List.length_eq_three.mp h
    refine ⟨[], Balanced.nil, ?_⟩
    simp [fan]
  · obtain ⟨a, b, c, d, rfl⟩ : ∃ a b c d, f = [a, b, c, d] := by
      match f, h with
      | [a, b, c, d], _ => exact ⟨a, b, c, d, rfl⟩
    refine ⟨[(c, a), (a, c)], Balanced.pair c a, ?_⟩
    have hcut : (fan [a, b, c, d]).flatMap sides = [(a, b), (b, c)] ++ [(c, a), (a, c)] ++ [(c, d), (d, a)] := rfl
    have hwhole : sides [a, b, c, d] = [(a, b), (b, c)] ++ [(c, d), (d, a)] := rfl
    rw [hcut, hwhole, List.append_assoc, List.append_assoc]
    exact List.perm_append_comm.append_left _

theorem fan_balanced {boundary : List (List ℕ)} (h : Balanced (boundary.flatMap sides))
    (hlen : ∀ f ∈ boundary, f.length = 3 ∨ f.length = 4) : Balanced ((boundary.flatMap fan).flatMap sides) := by
  have hcuts : ∃ cuts, Balanced cuts ∧
      ((boundary.flatMap fan).flatMap sides).Perm (boundary.flatMap sides ++ cuts) := by
    clear h
    induction boundary with
    | nil => exact ⟨[], Balanced.nil, List.Perm.refl _⟩
    | cons f boundary ih =>
      obtain ⟨cut, hcut, hperm⟩ := fan_sides (hlen f List.mem_cons_self)
      obtain ⟨cuts, hcuts, hrest⟩ := ih fun g hg => hlen g (List.mem_cons_of_mem f hg)
      refine ⟨cut ++ cuts, hcut.append hcuts, ?_⟩
      rw [List.flatMap_cons, List.flatMap_append, List.flatMap_cons, List.perm_iff_count]
      intro x
      have h1 := hperm.count_eq x
      have h2 := hrest.count_eq x
      simp only [List.count_append] at h1 h2 ⊢
      omega
  obtain ⟨cuts, hbal, hperm⟩ := hcuts
  exact (h.append hbal).perm hperm.symm

/-! ## Numbering the nodes -/

/-- The compact number of a node, and the node that number is read back as. -/
def CompactIds.num (ids : CompactIds) (node : ℕ) : UInt32 := (ids.nodeToCompact.lookup node).getD 0

def CompactIds.read (ids : CompactIds) (node : ℕ) : Option ℕ := ids.vertexIds[(ids.num node).toNat]?

theorem mem_addVertex (ids : CompactIds) (node node' : ℕ) :
    node' ∈ (addVertex ids node).nodeToCompact ↔ node' = node ∨ node' ∈ ids.nodeToCompact := by
  unfold addVertex
  split_ifs with h
  · constructor
    · exact Or.inr
    · rintro (rfl | hold)
      · exact h
      · exact hold
  · exact AList.mem_insert _

theorem mem_compactIds {boundary : List (List ℕ)} {f : List ℕ} (hf : f ∈ boundary) {node : ℕ} (hnode : node ∈ f) :
    node ∈ (compactIds boundary).nodeToCompact := by
  have hfold : ∀ (nodes : List ℕ) (ids : CompactIds), node ∈ nodes ∨ node ∈ ids.nodeToCompact →
      node ∈ (nodes.foldl addVertex ids).nodeToCompact := by
    intro nodes
    induction nodes with
    | nil =>
      intro ids h
      exact h.resolve_left List.not_mem_nil
    | cons n nodes ih =>
      intro ids h
      apply ih
      rw [mem_addVertex]
      rcases h with h | h
      · rcases List.mem_cons.mp h with h | h
        · exact Or.inr (Or.inl h)
        · exact Or.inl h
      · exact Or.inr (Or.inr h)
  exact hfold boundary.flatten {} (Or.inl (List.mem_flatten.mpr ⟨f, hf, hnode⟩))

theorem CompactIds.at_ok {ids : CompactIds} {node : ℕ} (h : node ∈ ids.nodeToCompact) :
    ids.at node = .ok (ids.num node) := by
  obtain ⟨v, hv⟩ := Option.isSome_iff_exists.mp (AList.lookup_isSome.mpr h)
  unfold CompactIds.at CompactIds.num
  rw [hv]
  rfl

theorem CompactIds.mapM_at {ids : CompactIds} {f : List ℕ} (h : ∀ node ∈ f, node ∈ ids.nodeToCompact) :
    f.mapM ids.at = .ok (f.map ids.num) := by
  induction f with
  | nil => rfl
  | cons node f ih =>
    rw [List.mapM_cons, CompactIds.at_ok (h node List.mem_cons_self),
      ih fun n hn => h n (List.mem_cons_of_mem node hn)]
    rfl

theorem compactIds_read {boundary : List (List ℕ)} (h : (compactIds boundary).vertexIds.length ≤ 2 ^ 32)
    {f : List ℕ} (hf : f ∈ boundary) {node : ℕ} (hnode : node ∈ f) :
    (compactIds boundary).read node = some node := by
  have hfold : ∀ (nodes : List ℕ) (ids : CompactIds),
      (∀ n v, ids.nodeToCompact.lookup n = some v → ∃ i : ℕ, v = UInt32.ofNat i ∧ ids.vertexIds[i]? = some n) →
      ∀ n v, (nodes.foldl addVertex ids).nodeToCompact.lookup n = some v →
        ∃ i : ℕ, v = UInt32.ofNat i ∧ (nodes.foldl addVertex ids).vertexIds[i]? = some n := by
    intro nodes
    induction nodes with
    | nil =>
      intro ids hids
      exact hids
    | cons m nodes ih =>
      intro ids hids
      apply ih
      intro n v hv
      unfold addVertex at hv ⊢
      split_ifs at hv ⊢ with hmem
      · exact hids n v hv
      · obtain ⟨rfl, rfl⟩ | ⟨_, hv⟩ := Dict.of_lookup_insert hv
        · exact ⟨ids.vertexIds.length, rfl, List.getElem?_concat_length⟩
        · obtain ⟨i, hi, hget⟩ := hids n v hv
          have hlt : i < ids.vertexIds.length := (List.getElem?_eq_some_iff.mp hget).1
          exact ⟨i, hi, by rw [List.getElem?_append_left hlt, hget]⟩
  obtain ⟨v, hv⟩ := Option.isSome_iff_exists.mp (AList.lookup_isSome.mpr (mem_compactIds hf hnode))
  obtain ⟨i, hi, hget⟩ := hfold boundary.flatten {} (fun _ _ hnone => nomatch hnone) node v hv
  have hlt : i < (compactIds boundary).vertexIds.length := (List.getElem?_eq_some_iff.mp hget).1
  have hnum : ((compactIds boundary).num node).toNat = i := by
    rw [CompactIds.num, hv, hi]
    exact UInt32.toNat_ofNat_of_lt' (show i < 2 ^ 32 by omega)
  rw [CompactIds.read, hnum]
  exact hget

/-! ## The emitted triangles -/

/-- Three indices for each triangle. -/
def SurfaceStream.Whole (s : SurfaceStream) : Prop := s.indices.length = 3 * s.faceIds.length

theorem triangles_emitTriangle {s : SurfaceStream} (h : s.Whole) (a b c fid : UInt32) :
    (s.emitTriangle a b c fid).triangles = s.triangles ++ [[a, b, c].map fun v => s.vertexIds[v.toNat]?] := by
  unfold SurfaceStream.Whole at h
  have hlen : (s.emitTriangle a b c fid).faceIds.length = s.faceIds.length + 1 := by
    simp [SurfaceStream.emitTriangle]
  have hold : ∀ t ∈ List.range s.faceIds.length, (s.emitTriangle a b c fid).triangle t = s.triangle t := by
    intro t ht
    have ht' : t < s.faceIds.length := List.mem_range.mp ht
    have hcorner : ∀ i < 3 * s.faceIds.length, (s.emitTriangle a b c fid).corner i = s.corner i := by
      intro i hi
      unfold SurfaceStream.corner SurfaceStream.emitTriangle
      rw [List.getElem?_append_left (by omega)]
    unfold SurfaceStream.triangle
    rw [hcorner (3 * t) (by omega), hcorner (3 * t + 1) (by omega), hcorner (3 * t + 2) (by omega)]
  have hnew : (s.emitTriangle a b c fid).triangle s.faceIds.length =
      [a, b, c].map fun v => s.vertexIds[v.toNat]? := by
    have hcorner : ∀ k v, [a, b, c][k]? = some v →
        (s.emitTriangle a b c fid).corner (3 * s.faceIds.length + k) = s.vertexIds[v.toNat]? := by
      intro k v hk
      unfold SurfaceStream.corner SurfaceStream.emitTriangle
      have hget : (s.indices ++ [a, b, c])[3 * s.faceIds.length + k]? = [a, b, c][k]? := by
        rw [← h, List.getElem?_append_right (by omega), Nat.add_sub_cancel_left]
      show (s.indices ++ [a, b, c])[3 * s.faceIds.length + k]?.bind _ = _
      rw [hget, hk]
      rfl
    have h0 := hcorner 0 a rfl
    have h1 := hcorner 1 b rfl
    have h2 := hcorner 2 c rfl
    unfold SurfaceStream.triangle
    rw [← Nat.add_zero (3 * s.faceIds.length), h0, Nat.add_zero, h1, h2]
    rfl
  unfold SurfaceStream.triangles
  rw [hlen, List.range_succ, List.map_append, List.map_congr_left hold, List.map_singleton, hnew]

theorem whole_emitTriangle {s : SurfaceStream} (h : s.Whole) (a b c fid : UInt32) :
    (s.emitTriangle a b c fid).Whole := by
  unfold SurfaceStream.Whole SurfaceStream.emitTriangle at *
  simp only [List.length_append, List.length_cons, List.length_nil]
  omega

theorem emitFace_spec {s : SurfaceStream} (h : s.Whole) (faceIdx : ℕ) (ci : List UInt32) :
    (emitFace faceIdx ci s).Whole ∧ (emitFace faceIdx ci s).vertexIds = s.vertexIds ∧
      (emitFace faceIdx ci s).triangles =
        s.triangles ++ (fan ci).map (List.map fun v => s.vertexIds[v.toNat]?) := by
  unfold emitFace
  match ci with
  | [a, b, c] => exact ⟨whole_emitTriangle h a b c _, rfl, triangles_emitTriangle h a b c _⟩
  | [a, b, c, d] =>
    have hone := whole_emitTriangle h a b c (UInt32.ofNat (faceIdx + 1))
    refine ⟨whole_emitTriangle hone a c d _, rfl, ?_⟩
    show ((s.emitTriangle a b c _).emitTriangle a c d _).triangles = _
    rw [triangles_emitTriangle hone, triangles_emitTriangle h, List.append_assoc]
    rfl
  | [] | [_] | [_, _] | _ :: _ :: _ :: _ :: _ :: _ => exact ⟨h, rfl, (List.append_nil _).symm⟩

theorem fan_map {α β : Type} (f : α → β) (l : List α) : fan (l.map f) = (fan l).map (List.map f) := by
  match l with
  | [a, b, c] => rfl
  | [a, b, c, d] => rfl
  | [] | [_] | [_, _] | _ :: _ :: _ :: _ :: _ :: _ => rfl

theorem emitFaces_ok {ids : CompactIds} {boundary : List (List ℕ)}
    (hids : ∀ f ∈ boundary, ∀ node ∈ f, node ∈ ids.nodeToCompact) {s : SurfaceStream} (hwhole : s.Whole)
    (hvertex : s.vertexIds = ids.vertexIds) (faceIdx : ℕ) :
    ∃ s', emitFaces ids faceIdx boundary s = .ok s' ∧
      s'.triangles = s.triangles ++ (boundary.flatMap fan).map (List.map ids.read) := by
  induction boundary generalizing s faceIdx with
  | nil => exact ⟨s, rfl, (List.append_nil _).symm⟩
  | cons f boundary ih =>
    obtain ⟨hnext, hsame, htriangles⟩ := emitFace_spec hwhole faceIdx (f.map ids.num)
    obtain ⟨s', hrun, hrest⟩ := ih (fun g hg => hids g (List.mem_cons_of_mem f hg)) hnext (hsame.trans hvertex)
      (faceIdx + 1)
    refine ⟨s', ?_, ?_⟩
    · rw [emitFaces, CompactIds.mapM_at (hids f List.mem_cons_self)]
      exact hrun
    · have hface : (fan (f.map ids.num)).map (List.map fun v => s.vertexIds[v.toNat]?) =
          (fan f).map (List.map ids.read) := by
        rw [fan_map, List.map_map, hvertex]
        apply List.map_congr_left
        intro t _
        exact List.map_map
      rw [hrest, htriangles, hface, List.flatMap_cons, List.map_append, List.append_assoc]

/-! ## Counting -/

theorem count_sides {a b : ℕ} (h : a ≠ b) {t : List (Option ℕ)} (ht : t.length = 3) :
    (sides t).count (some a, some b) = if Traverses a b t then 1 else 0 := by
  obtain ⟨x, y, z, rfl⟩ := List.length_eq_three.mp ht
  have hsides : sides [x, y, z] = [(x, y), (y, z), (z, x)] := rfl
  have hmem : Traverses a b [x, y, z] ↔ (x = some a ∧ y = some b) ∨ (y = some a ∧ z = some b) ∨
      (z = some a ∧ x = some b) := by
    unfold Traverses
    rw [hsides]
    simp [eq_comm]
  have hne : some a ≠ some b := fun heq => h (Option.some.inj heq)
  rw [hsides]
  simp only [hmem, List.count_cons, List.count_nil, beq_iff_eq, Prod.mk.injEq]
  grind

theorem countP_traverses {a b : ℕ} (h : a ≠ b) {ts : List (List (Option ℕ))} (hts : ∀ t ∈ ts, t.length = 3) :
    ts.countP (Traverses a b) = (ts.flatMap sides).count (some a, some b) := by
  induction ts with
  | nil => rfl
  | cons t ts ih =>
    have hone := count_sides h (hts t List.mem_cons_self)
    have hrest := ih fun t' ht' => hts t' (List.mem_cons_of_mem t ht')
    rw [List.flatMap_cons, List.count_append, List.countP_cons, hone, hrest, Nat.add_comm]
    simp only [decide_eq_true_eq]

theorem length_fan {α : Type} {f t : List α} (h : t ∈ fan f) : t.length = 3 := by
  match f with
  | [a, b, c] =>
    rw [List.mem_singleton.mp h]
    rfl
  | [a, b, c, d] =>
    rcases List.mem_pair.mp h with rfl | rfl <;> rfl

/-- Every edge of the surface of a solid mesh is run along as often in one direction as in the other. -/
theorem surface_watertight (order : WalkOrder) {mesh : Mesh} (h : Solid mesh) (a b : ℕ) :
    ∃ s, SurfaceStream.build order mesh = .ok s ∧
      s.triangles.countP (Traverses a b) = s.triangles.countP (Traverses b a) := by
  obtain ⟨hbal, hfaces⟩ := h.boundary order
  unfold SurfaceStream.build
  by_cases hempty : extractBoundaryFaces order mesh = []
  · exact ⟨{}, if_pos hempty, rfl⟩
  · let boundary := extractBoundaryFaces order mesh
    have hids : ∀ f ∈ boundary, ∀ node ∈ f, node ∈ (compactIds boundary).nodeToCompact :=
      fun f hf node hnode => mem_compactIds hf hnode
    obtain ⟨s, hrun, htriangles⟩ := emitFaces_ok hids
      (s := { vertexIds := (compactIds boundary).vertexIds }) rfl rfl 0
    refine ⟨s, (if_neg hempty).trans hrun, ?_⟩
    have hstart : s.triangles = (boundary.flatMap fan).map (List.map (compactIds boundary).read) := htriangles
    by_cases hab : a = b
    · rw [hab]
    · have hthree : ∀ t ∈ s.triangles, t.length = 3 := by
        intro t ht
        rw [hstart] at ht
        obtain ⟨t', ht', rfl⟩ := List.mem_map.mp ht
        obtain ⟨f, _, hfan⟩ := List.mem_flatMap.mp ht'
        rw [List.length_map]
        exact length_fan hfan
      have hsides : s.triangles.flatMap sides =
          ((boundary.flatMap fan).flatMap sides).map
            (Prod.map (compactIds boundary).read (compactIds boundary).read) := by
        rw [hstart, List.flatMap_map, List.map_flatMap]
        apply List.flatMap_congr
        intro t _
        exact sides_map _ t
      have hall : Balanced (s.triangles.flatMap sides) := by
        rw [hsides]
        exact (fan_balanced hbal fun f hf => (h.face (hfaces f hf)).1).map _
      rw [countP_traverses hab hthree, countP_traverses (Ne.symm hab) hthree]
      exact hall.count_eq _ _

/-- Two tetrahedra that share a face. -/
def twoTets : Mesh where
  nodes := List.replicate 5 (0, 0, 0)
  cells := [⟨.tet4, [0, 1, 2, 3], 0⟩, ⟨.tet4, [4, 1, 3, 2], 0⟩]

theorem twoTets_solid : Solid twoTets where
  valid := by unfold Mesh.Valid; decide
  linear := by decide
  distinct := by decide
  twice := by decide
  opposed := by decide

def entryOrder : WalkOrder where
  walk m := m.entries.map fun e => e.2
  perm _ := List.Perm.refl _

theorem surface_watertight_two : Solid twoTets ∧ ∃ s, SurfaceStream.build entryOrder twoTets = .ok s ∧
    s.triangles.countP (Traverses 1 2) = s.triangles.countP (Traverses 2 1) :=
  ⟨twoTets_solid, surface_watertight entryOrder twoTets_solid 1 2⟩

end Souxmar.Core
