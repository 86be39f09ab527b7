import Mathlib.Data.List.Dedup
import Souxmar.OpenFoam.PolyMesh

/-!
# The layout of the patches

There is one patch for each tag of the boundary faces: `patchTags` is their order and `patchOf` the patch of a tag.
The boundary faces are laid out tag by tag.
-/

namespace Souxmar.OpenFoam

open Souxmar.Lib

/-! ## Grouping -/

/-- The faces with a tag. -/
def facesWith (tagged : List (ℤ × ℕ)) (tag : ℤ) : List ℕ := (tagged.filter fun p => p.1 = tag).map Prod.snd

theorem facesWith_append (l l' : List (ℤ × ℕ)) (tag : ℤ) :
    facesWith (l ++ l') tag = facesWith l tag ++ facesWith l' tag := by
  rw [facesWith, List.filter_append, List.map_append]
  rfl

theorem facesWith_ne_nil {tagged : List (ℤ × ℕ)} {tag : ℤ} :
    facesWith tagged tag ≠ [] ↔ tag ∈ tagged.map Prod.fst := by
  rw [facesWith, Ne, List.map_eq_nil_iff, List.filter_eq_nil_iff, List.mem_map]
  simp only [decide_eq_true_eq, not_forall, not_not, exists_prop]

/-- The groups of these faces. -/
structure GroupedBy (g : Grouped) (tagged : List (ℤ × ℕ)) : Prop where
  found : ∀ tag ≠ faceUntagged, facesWith tagged tag ≠ [] → g.facesByTag.lookup tag = some (facesWith tagged tag)
  missing : ∀ tag, tag = faceUntagged ∨ facesWith tagged tag = [] → g.facesByTag.lookup tag = none
  untagged : g.untaggedFaces = facesWith tagged faceUntagged

theorem groupedBy_start : GroupedBy {} [] where
  found _ _ h := absurd rfl h
  missing _ _ := rfl
  untagged := rfl

section

variable {g : Grouped} {tagged : List (ℤ × ℕ)}

theorem GroupedBy.getD (h : GroupedBy g tagged) {tag : ℤ} (htag : tag ≠ faceUntagged) :
    (g.facesByTag.lookup tag).getD [] = facesWith tagged tag := by
  by_cases hnil : facesWith tagged tag = []
  · rw [h.missing tag (Or.inr hnil), hnil]
    rfl
  · rw [h.found tag htag hnil]
    rfl

theorem GroupedBy.groupFace (h : GroupedBy g tagged) (face : ℤ × ℕ) :
    GroupedBy (groupFace g face) (tagged ++ [face]) := by
  have hother : ∀ tag ≠ face.1, facesWith (tagged ++ [face]) tag = facesWith tagged tag := by
    intro tag hne
    have hnew : facesWith [face] tag = [] := by
      rw [← not_ne_iff, facesWith_ne_nil, List.map_singleton, List.mem_singleton]
      exact hne
    rw [facesWith_append, hnew, List.append_nil]
  have hsame : facesWith (tagged ++ [face]) face.1 = facesWith tagged face.1 ++ [face.2] := by
    have hnew : facesWith [face] face.1 = [face.2] := by
      rw [facesWith, List.filter_cons, if_pos (decide_eq_true rfl)]
      rfl
    rw [facesWith_append, hnew]
  have hfull : facesWith (tagged ++ [face]) face.1 ≠ [] := by
    rw [hsame]
    exact List.append_ne_nil_of_right_ne_nil _ (List.cons_ne_nil _ _)
  unfold OpenFoam.groupFace
  split_ifs with hface
  · refine ⟨fun tag htag hne => ?_, fun tag hnone => ?_, ?_⟩
    · rw [hother tag (hface ▸ htag)] at hne ⊢
      exact h.found tag htag hne
    · by_cases htag : tag = faceUntagged
      · exact h.missing tag (Or.inl htag)
      · have hne : tag ≠ face.1 := hface ▸ htag
        rw [hother tag hne] at hnone
        exact h.missing tag hnone
    · dsimp only
      rw [h.untagged, ← hface, hsame]
  · refine ⟨fun tag htag hne => ?_, fun tag hnone => ?_, ?_⟩
    · by_cases heq : tag = face.1
      · rw [heq, AList.lookup_insert, h.getD hface, hsame]
      · rw [hother tag heq] at hne ⊢
        rw [AList.lookup_insert_ne heq]
        exact h.found tag htag hne
    · have hne : tag ≠ face.1 := by
        rintro rfl
        exact hnone.elim hface hfull
      rw [hother tag hne] at hnone
      rw [AList.lookup_insert_ne hne]
      exact h.missing tag hnone
    · rw [hother faceUntagged (Ne.symm hface)]
      exact h.untagged

theorem GroupedBy.groupFaces (h : GroupedBy g tagged) (more : List (ℤ × ℕ)) :
    GroupedBy (more.foldl OpenFoam.groupFace g) (tagged ++ more) := by
  induction more generalizing g tagged with
  | nil => rwa [List.append_nil]
  | cons face more ih =>
    rw [List.append_cons]
    exact ih (h.groupFace face)

theorem GroupedBy.mem_iff (h : GroupedBy g tagged) (tag : ℤ) :
    tag ∈ g.facesByTag ↔ tag ≠ faceUntagged ∧ tag ∈ tagged.map Prod.fst := by
  rw [← AList.lookup_isSome, ← facesWith_ne_nil]
  constructor
  · intro hsome
    by_contra hnot
    rw [not_and_or, not_ne_iff, not_ne_iff] at hnot
    rw [h.missing tag hnot] at hsome
    cases hsome
  · rintro ⟨htag, hne⟩
    rw [h.found tag htag hne]
    rfl

end

/-! ## Patches by tag -/

/-- The patch that stands for a tag. -/
def patchOf (bcs : List ParsedBC) (tag : ℤ) (faces : List ℕ) : BoundaryPatch :=
  if tag = faceUntagged then wallsPatch faces
  else
    match bcs.find? fun bc => bc.tagId = some tag with
    | some bc => ⟨patchName bc tag, openfoamTypeForBc bc.bcType, bc.bcType, some bc, faces⟩
    | none => ⟨"tag_" ++ toString tag, "wall", "", none, faces⟩

/-- The tag of a boundary condition comes next, when it is among the tags and new. -/
def addTag (present : List ℤ) (tags : List ℤ) (bc : ParsedBC) : List ℤ :=
  match bc.tagId with
  | none => tags
  | some tag => if tag ≠ faceUntagged ∧ tag ∈ present ∧ tag ∉ tags then tags ++ [tag] else tags

/-- The tags of the patches of boundary conditions. -/
def bcTags (present : List ℤ) (bcs : List ParsedBC) : List ℤ := bcs.foldl (addTag present) []

def unmatchedTags (present : List ℤ) (bcs : List ParsedBC) : List ℤ :=
  (present.dedup.filter fun tag => tag ≠ faceUntagged ∧ tag ∉ bcTags present bcs).insertionSort (· ≤ ·)

/-- The tags of all patches. -/
def patchTags (present : List ℤ) (bcs : List ParsedBC) : List ℤ :=
  bcTags present bcs ++ unmatchedTags present bcs ++ if faceUntagged ∈ present then [faceUntagged] else []

theorem bcTags_concat (present : List ℤ) (bcs : List ParsedBC) (bc : ParsedBC) :
    bcTags present (bcs ++ [bc]) = addTag present (bcTags present bcs) bc := List.foldl_concat ..

theorem mem_addTag {present tags : List ℤ} {bc : ParsedBC} {tag : ℤ} : tag ∈ addTag present tags bc ↔
    tag ∈ tags ∨ bc.tagId = some tag ∧ tag ≠ faceUntagged ∧ tag ∈ present := by
  unfold addTag
  cases bc.tagId with
  | none => exact (or_iff_left (fun h => nomatch h.1)).symm
  | some new =>
    dsimp only
    rw [Option.some.injEq]
    split_ifs with h
    · rw [List.mem_append, List.mem_singleton]
      constructor
      · rintro (hin | rfl)
        · exact Or.inl hin
        · exact Or.inr ⟨rfl, h.1, h.2.1⟩
      · rintro (hin | ⟨rfl, -⟩)
        · exact Or.inl hin
        · exact Or.inr rfl
    · refine (or_iff_left_of_imp ?_).symm
      rintro ⟨rfl, htag, hin⟩
      by_contra hnot
      exact h ⟨htag, hin, hnot⟩

theorem mem_bcTags {present : List ℤ} {bcs : List ParsedBC} {tag : ℤ} : tag ∈ bcTags present bcs ↔
    tag ≠ faceUntagged ∧ tag ∈ present ∧ ∃ bc ∈ bcs, bc.tagId = some tag := by
  induction bcs using List.reverseRecOn with
  | nil =>
    refine iff_of_false List.not_mem_nil ?_
    rintro ⟨-, -, bc, hbc, -⟩
    exact List.not_mem_nil hbc
  | append_singleton bcs bc ih =>
    rw [bcTags_concat, mem_addTag, ih]
    constructor
    · rintro (⟨htag, hin, bc', hbc', hid⟩ | ⟨hid, htag, hin⟩)
      · exact ⟨htag, hin, bc', List.mem_append_left _ hbc', hid⟩
      · exact ⟨htag, hin, bc, List.mem_append_right _ List.mem_cons_self, hid⟩
    · rintro ⟨htag, hin, bc', hbc', hid⟩
      rcases List.mem_append.mp hbc' with hbc' | hbc'
      · exact Or.inl ⟨htag, hin, bc', hbc', hid⟩
      · rw [List.mem_singleton.mp hbc'] at hid
        exact Or.inr ⟨hid, htag, hin⟩

theorem nodup_bcTags (present : List ℤ) (bcs : List ParsedBC) : (bcTags present bcs).Nodup := by
  induction bcs using List.reverseRecOn with
  | nil => exact List.nodup_nil
  | append_singleton bcs bc ih =>
    rw [bcTags_concat]
    unfold addTag
    cases bc.tagId with
    | none => exact ih
    | some tag =>
      dsimp only
      split_ifs with h
      · exact List.nodup_append.mpr ⟨ih, List.nodup_singleton tag, fun a ha b hb hab =>
          h.2.2 (List.mem_singleton.mp hb ▸ hab ▸ ha)⟩
      · exact ih

theorem mem_unmatchedTags {present : List ℤ} {bcs : List ParsedBC} {tag : ℤ} : tag ∈ unmatchedTags present bcs ↔
    tag ∈ present ∧ tag ≠ faceUntagged ∧ tag ∉ bcTags present bcs := by
  rw [unmatchedTags, List.mem_insertionSort, List.mem_filter, List.mem_dedup, decide_eq_true_eq]

/-- The patches stand for the tags of the boundary faces. -/
theorem mem_patchTags {present : List ℤ} {bcs : List ParsedBC} {tag : ℤ} :
    tag ∈ patchTags present bcs ↔ tag ∈ present := by
  rw [patchTags, List.mem_append, List.mem_append, mem_unmatchedTags]
  by_cases htag : tag = faceUntagged
  · have hbc : tag ∉ bcTags present bcs := fun h => (mem_bcTags.mp h).1 htag
    rw [or_iff_left (fun h => h.2.1 htag) |>.trans (iff_of_false hbc not_false) |>.or Iff.rfl, false_or, htag]
    split_ifs with hin
    · exact iff_of_true List.mem_cons_self hin
    · exact iff_of_false List.not_mem_nil hin
  · have hnot : tag ∉ if faceUntagged ∈ present then [faceUntagged] else [] := by
      split_ifs
      · exact mt List.mem_singleton.mp htag
      · exact List.not_mem_nil
    rw [or_iff_left hnot]
    constructor
    · rintro (h | h)
      · exact (mem_bcTags.mp h).2.1
      · exact h.1
    · intro hin
      by_cases hbc : tag ∈ bcTags present bcs
      · exact Or.inl hbc
      · exact Or.inr ⟨hin, htag, hbc⟩

theorem nodup_patchTags (present : List ℤ) (bcs : List ParsedBC) : (patchTags present bcs).Nodup := by
  have hunmatched : (unmatchedTags present bcs).Nodup :=
    (List.perm_insertionSort _ _).nodup_iff.mpr ((List.nodup_dedup present).filter _)
  have hwalls : (if faceUntagged ∈ present then [faceUntagged] else []).Nodup := by
    split_ifs
    · exact List.nodup_singleton _
    · exact List.nodup_nil
  rw [patchTags, List.nodup_append, List.nodup_append]
  refine ⟨⟨nodup_bcTags present bcs, hunmatched, ?_⟩, hwalls, ?_⟩
  · rintro a ha b hb rfl
    exact (mem_unmatchedTags.mp hb).2.2 ha
  · intro a ha b hb hab
    have hb' : b = faceUntagged := by
      split_ifs at hb
      · exact List.mem_singleton.mp hb
      · exact absurd hb List.not_mem_nil
    rcases List.mem_append.mp ha with ha | ha
    · exact (mem_bcTags.mp ha).1 (hab.trans hb')
    · exact (mem_unmatchedTags.mp ha).2.1 (hab.trans hb')

theorem patchTags_congr {present present' : List ℤ} (h : ∀ tag, tag ∈ present ↔ tag ∈ present')
    (bcs : List ParsedBC) : patchTags present bcs = patchTags present' bcs := by
  have hadd : addTag present = addTag present' := by
    funext tags bc
    unfold addTag
    simp only [h]
  have hbc : bcTags present bcs = bcTags present' bcs := by
    rw [bcTags, hadd]
    rfl
  have hperm : (present.dedup.filter fun tag => tag ≠ faceUntagged ∧ tag ∉ bcTags present bcs).Perm
      (present'.dedup.filter fun tag => tag ≠ faceUntagged ∧ tag ∉ bcTags present' bcs) := by
    rw [hbc]
    apply List.Perm.filter
    rw [List.perm_ext_iff_of_nodup (List.nodup_dedup _) (List.nodup_dedup _)]
    intro tag
    rw [List.mem_dedup, List.mem_dedup, h]
  have hunmatched : unmatchedTags present bcs = unmatchedTags present' bcs :=
    ((List.perm_insertionSort _ _).trans (hperm.trans (List.perm_insertionSort _ _).symm)).eq_of_pairwise
      (fun _ _ _ _ => Int.le_antisymm) (List.pairwise_insertionSort _ _) (List.pairwise_insertionSort _ _)
  rw [patchTags, patchTags, hbc, hunmatched]
  simp only [h]

/-! ## Building the patches -/

/-- The patches of the boundary conditions so far. -/
structure BcPatches (tagged : List (ℤ × ℕ)) (bcs : List ParsedBC) (st : Patches) : Prop where
  patches : st.patches = (bcTags (tagged.map Prod.fst) bcs).map fun tag => patchOf bcs tag (facesWith tagged tag)
  numbered : ∀ tag, tag ∈ st.tagToPatch ↔ tag ∈ bcTags (tagged.map Prod.fst) bcs

theorem patchOf_concat {bcs : List ParsedBC} {tag : ℤ} (h : ∃ bc ∈ bcs, bc.tagId = some tag) (bc : ParsedBC)
    (faces : List ℕ) : patchOf (bcs ++ [bc]) tag faces = patchOf bcs tag faces := by
  have hfind : ((bcs ++ [bc]).find? fun bc => bc.tagId = some tag) = bcs.find? fun bc => bc.tagId = some tag := by
    obtain ⟨bc', hbc', hid⟩ := h
    have hsome : (bcs.find? fun bc => bc.tagId = some tag).isSome :=
      List.find?_isSome.mpr ⟨bc', hbc', decide_eq_true hid⟩
    obtain ⟨found, hfound⟩ := Option.isSome_iff_exists.mp hsome
    rw [List.find?_append, hfound]
    rfl
  rw [patchOf, patchOf, hfind]

theorem patchOf_first {bcs : List ParsedBC} {tag : ℤ} (htag : tag ≠ faceUntagged)
    (h : ¬∃ bc ∈ bcs, bc.tagId = some tag) {bc : ParsedBC} (hid : bc.tagId = some tag) (faces : List ℕ) :
    patchOf (bcs ++ [bc]) tag faces =
      ⟨patchName bc tag, openfoamTypeForBc bc.bcType, bc.bcType, some bc, faces⟩ := by
  have hnone : (bcs.find? fun bc => bc.tagId = some tag) = none := by
    rw [List.find?_eq_none]
    intro bc' hbc' hid'
    exact h ⟨bc', hbc', of_decide_eq_true hid'⟩
  rw [patchOf, if_neg htag, List.find?_append, hnone, List.find?_cons, decide_eq_true hid]
  rfl

theorem patchOf_unmatched {bcs : List ParsedBC} {tag : ℤ} (htag : tag ≠ faceUntagged)
    (h : ¬∃ bc ∈ bcs, bc.tagId = some tag) (faces : List ℕ) :
    patchOf bcs tag faces = ⟨"tag_" ++ toString tag, "wall", "", none, faces⟩ := by
  have hnone : (bcs.find? fun bc => bc.tagId = some tag) = none := by
    rw [List.find?_eq_none]
    intro bc' hbc' hid'
    exact h ⟨bc', hbc', of_decide_eq_true hid'⟩
  rw [patchOf, if_neg htag, hnone]

section

variable {g : Grouped} {tagged : List (ℤ × ℕ)}

theorem bcPatches_start : BcPatches tagged [] {} where
  patches := rfl
  numbered _ := iff_of_false (AList.notMem_empty _) List.not_mem_nil

theorem BcPatches.addBcPatch (hg : GroupedBy g tagged) {bcs : List ParsedBC} {st : Patches}
    (h : BcPatches tagged bcs st) (bc : ParsedBC) :
    BcPatches tagged (bcs ++ [bc]) (addBcPatch g.facesByTag st bc) := by
  have hkeep : ∀ tag ∈ bcTags (tagged.map Prod.fst) bcs,
      patchOf (bcs ++ [bc]) tag (facesWith tagged tag) = patchOf bcs tag (facesWith tagged tag) :=
    fun tag htag => patchOf_concat (mem_bcTags.mp htag).2.2 bc _
  -- a boundary condition that adds no tag
  have hsame : addTag (tagged.map Prod.fst) (bcTags (tagged.map Prod.fst) bcs) bc = bcTags (tagged.map Prod.fst) bcs →
      BcPatches tagged (bcs ++ [bc]) st := by
    intro heq
    refine ⟨?_, fun tag => ?_⟩
    · rw [bcTags_concat, heq, List.map_congr_left hkeep]
      exact h.patches
    · rw [bcTags_concat, heq]
      exact h.numbered tag
  unfold OpenFoam.addBcPatch
  cases hid : bc.tagId with
  | none =>
    apply hsame
    unfold addTag
    rw [hid]
  | some tag =>
    dsimp only
    by_cases hin : tag ≠ faceUntagged ∧ tag ∈ tagged.map Prod.fst
    · rw [hg.found tag hin.1 (facesWith_ne_nil.mpr hin.2)]
      dsimp only
      by_cases hnew : tag ∈ bcTags (tagged.map Prod.fst) bcs
      · rw [if_pos ((h.numbered tag).mpr hnew)]
        apply hsame
        unfold addTag
        rw [hid]
        dsimp only
        rw [if_neg fun hnot => hnot.2.2 hnew]
      · rw [if_neg (mt (h.numbered tag).mp hnew)]
        have htags : addTag (tagged.map Prod.fst) (bcTags (tagged.map Prod.fst) bcs) bc =
            bcTags (tagged.map Prod.fst) bcs ++ [tag] := by
          unfold addTag
          rw [hid]
          dsimp only
          rw [if_pos ⟨hin.1, hin.2, hnew⟩]
        have hfirst : ¬∃ bc ∈ bcs, bc.tagId = some tag := fun hex => hnew (mem_bcTags.mpr ⟨hin.1, hin.2, hex⟩)
        refine ⟨?_, fun tag' => ?_⟩
        · rw [bcTags_concat, htags, List.map_append, List.map_congr_left hkeep, List.map_singleton,
            patchOf_first hin.1 hfirst hid]
          dsimp only
          rw [h.patches]
        · rw [bcTags_concat, htags, List.mem_append, List.mem_singleton, ← h.numbered, or_comm]
          exact AList.mem_insert _
    · have hnone : g.facesByTag.lookup tag = none := by
        rw [AList.lookup_eq_none, hg.mem_iff]
        exact hin
      rw [hnone]
      apply hsame
      unfold addTag
      rw [hid]
      dsimp only
      rw [if_neg fun hnot => hin ⟨hnot.1, hnot.2.1⟩]

theorem bcPatches_all (hg : GroupedBy g tagged) (bcs : List ParsedBC) :
    BcPatches tagged bcs (bcs.foldl (OpenFoam.addBcPatch g.facesByTag) {}) := by
  induction bcs using List.reverseRecOn with
  | nil => exact bcPatches_start
  | append_singleton bcs bc ih =>
    rw [List.foldl_concat]
    exact ih.addBcPatch hg bc

theorem buildPatches_eq (choices : Choices) (hg : GroupedBy g tagged) (bcs : List ParsedBC) :
    buildPatches choices g bcs =
      (patchTags (tagged.map Prod.fst) bcs).map fun tag => patchOf bcs tag (facesWith tagged tag) := by
  have hbc := bcPatches_all hg bcs
  rw [buildPatches]
  generalize bcs.foldl (OpenFoam.addBcPatch g.facesByTag) {} = st at hbc
  have hunmatched : ((choices.tags g.facesByTag).filter fun tag => tag ∉ st.tagToPatch).insertionSort (· ≤ ·) =
      unmatchedTags (tagged.map Prod.fst) bcs := by
    have hperm : ((choices.tags g.facesByTag).filter fun tag => tag ∉ st.tagToPatch).Perm
        ((tagged.map Prod.fst).dedup.filter fun tag => tag ≠ faceUntagged ∧ tag ∉ bcTags (tagged.map Prod.fst) bcs) := by
      have hnodup : (choices.tags g.facesByTag).Nodup :=
        (choices.tags_perm g.facesByTag).nodup_iff.mpr g.facesByTag.nodupKeys
      rw [List.perm_ext_iff_of_nodup (hnodup.filter _) ((List.nodup_dedup _).filter _)]
      intro tag
      rw [List.mem_filter, List.mem_filter, (choices.tags_perm g.facesByTag).mem_iff, List.mem_dedup,
        decide_eq_true_eq, decide_eq_true_eq, hbc.numbered]
      have hmem : tag ∈ g.facesByTag.keys ↔ _ := AList.mem_keys.symm.trans (hg.mem_iff tag)
      rw [hmem]
      tauto
    exact ((List.perm_insertionSort _ _).trans (hperm.trans (List.perm_insertionSort _ _).symm)).eq_of_pairwise
      (fun _ _ _ _ => Int.le_antisymm) (List.pairwise_insertionSort _ _) (List.pairwise_insertionSort _ _)
  have htags : (unmatchedTags (tagged.map Prod.fst) bcs).map (tagPatch g.facesByTag) =
      (unmatchedTags (tagged.map Prod.fst) bcs).map fun tag => patchOf bcs tag (facesWith tagged tag) := by
    apply List.map_congr_left
    intro tag htag
    obtain ⟨hin, hne, hnot⟩ := mem_unmatchedTags.mp htag
    rw [tagPatch, hg.getD hne, patchOf_unmatched hne fun hex => hnot (mem_bcTags.mpr ⟨hne, hin, hex⟩)]
  have hwalls : (if g.untaggedFaces = [] then [] else [wallsPatch g.untaggedFaces]) =
      (if faceUntagged ∈ tagged.map Prod.fst then [faceUntagged] else []).map
        fun tag => patchOf bcs tag (facesWith tagged tag) := by
    rw [hg.untagged]
    by_cases hin : faceUntagged ∈ tagged.map Prod.fst
    · rw [if_neg (facesWith_ne_nil.mpr hin), if_pos hin, List.map_singleton, patchOf, if_pos rfl]
    · rw [if_pos (not_ne_iff.mp (mt facesWith_ne_nil.mp hin)), if_neg hin, List.map_nil]
  rw [hunmatched, htags, hwalls, hbc.patches, patchTags, List.map_append, List.map_append]

end

end Souxmar.OpenFoam
