import Souxmar.Lib.Decimal
import Souxmar.OpenFoam.ValidCase

/-!
# Patch names

Names come from the tag strings of boundary conditions, from their types with a number, from tags without a
condition, and from the untagged faces. They are words and differ when the conditions' strings keep clear of each other
and of the names that the translator makes itself.
-/

namespace Souxmar.OpenFoam

open Souxmar.Lib

/-- A letter, and behind it letters, digits and underscores. -/
def IsWord (name : String) : Prop :=
  (∃ c, name.toList.head? = some c ∧ c.isAlpha = true) ∧ ∀ c ∈ name.toList, c.isAlphanum = true ∨ c = '_'

/-- The sections of `0/U` and `0/p`: `write_initial_U` and `write_initial_p` write one for each patch. -/
def boundaryField (text : BoundaryPatch → String) (patches : List BoundaryPatch) : List (String × String) :=
  patches.map fun p => (p.name, text p)

/-- The names are different words, and every patch finds its own section under its name. -/
structure WellNamed (patches : List BoundaryPatch) : Prop where
  distinct : (patches.map BoundaryPatch.name).Nodup
  words : ∀ p ∈ patches, IsWord p.name
  sections : ∀ (text : BoundaryPatch → String), ∀ p ∈ patches,
    (boundaryField text patches).filter (fun entry => entry.1 = p.name) = [(p.name, text p)]

/-! ## Numbered names -/

/-- The name from a type and a number. -/
def numbered (type : String) (tag : ℤ) : String := type ++ "_" ++ toString tag

theorem toList_numbered (type : String) (tag : ℤ) :
    (numbered type tag).toList = type.toList ++ '_' :: (toString tag).toList := by
  rw [numbered, String.toList_append, String.toList_append, List.append_assoc]
  rfl

theorem underscore_mem_numbered (type : String) (tag : ℤ) : '_' ∈ (numbered type tag).toList := by
  rw [toList_numbered]
  exact List.mem_append_right _ List.mem_cons_self

theorem numbered_ne_empty (type : String) (tag : ℤ) : numbered type tag ≠ "" := by
  intro h
  have hmem := underscore_mem_numbered type tag
  rw [h] at hmem
  exact List.not_mem_nil hmem

theorem numbered_ne_walls (type : String) (tag : ℤ) : numbered type tag ≠ "walls" := by
  intro h
  have hmem := underscore_mem_numbered type tag
  rw [h] at hmem
  exact absurd hmem (by decide)

theorem underscore_notMem_toString (n : ℤ) : '_' ∉ (toString n).toList := fun h =>
  absurd (isDigit_of_mem_toString h) (by decide)

theorem numbered_inj {type type' : String} {tag tag' : ℤ} (h : numbered type tag = numbered type' tag') :
    tag = tag' := by
  have hrev := congrArg List.reverse (congrArg String.toList h)
  rw [toList_numbered, toList_numbered, List.reverse_append, List.reverse_append, List.reverse_cons,
    List.reverse_cons, List.append_assoc, List.append_assoc] at hrev
  have hspan : ∀ (n : ℤ) (rest : List Char),
      ((toString n).toList.reverse ++ (['_'] ++ rest)).takeWhile (· ≠ '_') = (toString n).toList.reverse := by
    intro n rest
    rw [List.takeWhile_append_of_pos]
    · exact List.append_nil _
    · intro c hc
      refine decide_eq_true ?_
      rintro rfl
      exact underscore_notMem_toString n (List.mem_reverse.mp hc)
  have hdigits := congrArg (List.takeWhile (· ≠ '_')) hrev
  rw [hspan, hspan] at hdigits
  exact toString_int_inj (String.toList_inj.mp (List.reverse_injective hdigits))

theorem isWord_numbered {type : String} (h : type ≠ "") (tag : ℤ) :
    IsWord (numbered type tag) ↔ IsWord type ∧ 0 ≤ tag := by
  have hne : type.toList ≠ [] := fun hnil => h (String.toList_eq_nil_iff.mp hnil)
  have hhead : (numbered type tag).toList.head? = type.toList.head? := by
    rw [toList_numbered]
    exact List.head?_append_of_ne_nil _ hne
  unfold IsWord
  rw [hhead, toList_numbered, and_assoc]
  apply and_congr_right
  intro _
  rw [List.forall_mem_append, List.forall_mem_cons]
  apply and_congr_right
  intro _
  rw [and_iff_right (Or.inr rfl)]
  constructor
  · intro hall
    by_contra hneg
    exact absurd (hall '-' (minus_mem_toString.mpr (by omega))) (by decide)
  · intro hpos c hc
    rcases isDigit_of_mem_toString hc with hdigit | rfl
    · exact Or.inl (Bool.or_eq_true_iff.mpr (Or.inr hdigit))
    · exact absurd (minus_mem_toString.mp hc) (Int.not_lt.mpr hpos)

theorem isWord_tag (tag : ℤ) : IsWord (numbered "tag" tag) ↔ 0 ≤ tag := by
  have hword : IsWord "tag" := by
    refine ⟨⟨'t', rfl, rfl⟩, ?_⟩
    decide
  rw [isWord_numbered (by decide) tag, and_iff_right hword]

theorem isWord_walls : IsWord "walls" := by
  refine ⟨⟨'w', rfl, rfl⟩, ?_⟩
  decide

theorem isWord_sanitise {name : String} (h : sanitisePatchName name ≠ "") : IsWord (sanitisePatchName name) := by
  unfold sanitisePatchName at h ⊢
  dsimp only at h ⊢
  split_ifs at h ⊢ with hhead
  · refine ⟨?_, ?_⟩
    · rw [String.toList_ofList]
      cases hlist : (name.toList.flatMap sanitiseChar).head? with
      | none =>
        rw [hlist] at hhead
        cases hhead
      | some c =>
        rw [hlist] at hhead
        exact ⟨c, rfl, hhead⟩
    · rw [String.toList_ofList]
      intro c hc
      obtain ⟨d, -, hd⟩ := List.mem_flatMap.mp hc
      unfold sanitiseChar at hd
      split_ifs at hd with hclass
      · rw [List.mem_singleton.mp hd]
        exact (Bool.or_eq_true_iff.mp hclass).imp id of_decide_eq_true
      · exact Or.inr (List.eq_of_mem_replicate hd)
  · exact absurd rfl h

/-! ## The name of a tag -/

/-- The name of the patch of a tag. -/
def nameOf (bcs : List ParsedBC) (tag : ℤ) : String := (patchOf bcs tag []).name

theorem name_patchOf (bcs : List ParsedBC) (tag : ℤ) (faces : List ℕ) :
    (patchOf bcs tag faces).name = nameOf bcs tag := by
  unfold nameOf patchOf wallsPatch
  split_ifs
  · rfl
  · cases bcs.find? fun bc => bc.tagId = some tag with
    | none => rfl
    | some bc => rfl

/-- The type that a name is made from. -/
def typeName (bc : ParsedBC) : String := if bc.bcType = "" then "tag" else bc.bcType

theorem patchName_sanitised {bc : ParsedBC} (h : sanitisePatchName bc.tagName ≠ "") (tag : ℤ) :
    patchName bc tag = sanitisePatchName bc.tagName := if_neg h

theorem patchName_numbered {bc : ParsedBC} (h : sanitisePatchName bc.tagName = "") (tag : ℤ) :
    patchName bc tag = numbered (typeName bc) tag := if_pos h

theorem typeName_ne_empty (bc : ParsedBC) : typeName bc ≠ "" := by
  unfold typeName
  split_ifs with h
  · decide
  · exact h

theorem isWord_typeName (bc : ParsedBC) : IsWord (typeName bc) ↔ bc.bcType = "" ∨ IsWord bc.bcType := by
  unfold typeName
  split_ifs with h
  · refine iff_of_true ⟨⟨'t', rfl, rfl⟩, ?_⟩ (Or.inl h)
    decide
  · exact (or_iff_right h).symm

/-! ## The condition -/

/-- A face of a cell that no other face has the nodes of has this tag. -/
def TaggedMesh.BoundaryTag (mesh : TaggedMesh) (tag : ℤ) : Prop :=
  ∃ f ∈ cellFaces 0 mesh.cells, tally CellFace.key f.key (cellFaces 0 mesh.cells) = 1 ∧
    mesh.faceTag f.cell f.localFace = tag

/-- The first boundary condition for a tag of boundary faces. -/
def Used (mesh : TaggedMesh) (bcs : List ParsedBC) (bc : ParsedBC) (tag : ℤ) : Prop :=
  mesh.BoundaryTag tag ∧ tag ≠ faceUntagged ∧ bcs.find? (fun bc => bc.tagId = some tag) = some bc

/-- A tag of boundary faces without a boundary condition. -/
def Unmatched (mesh : TaggedMesh) (bcs : List ParsedBC) (tag : ℤ) : Prop :=
  mesh.BoundaryTag tag ∧ tag ≠ faceUntagged ∧ ∀ bc ∈ bcs, bc.tagId ≠ some tag

/-- Tag strings that do not start with a letter stand at numbers that are not negative, with types that are words;
tags without a condition are not negative; tag strings are different after sanitising, from each other and from the
names that are made of numbers and for the untagged faces. -/
structure NamesApart (mesh : TaggedMesh) (bcs : List ParsedBC) : Prop where
  types : ∀ bc tag, Used mesh bcs bc tag → sanitisePatchName bc.tagName = "" →
    (bc.bcType = "" ∨ IsWord bc.bcType) ∧ 0 ≤ tag
  numbers : ∀ tag, Unmatched mesh bcs tag → 0 ≤ tag
  strings : ∀ bc tag bc' tag', Used mesh bcs bc tag → Used mesh bcs bc' tag' → tag ≠ tag' →
    sanitisePatchName bc.tagName ≠ "" → sanitisePatchName bc.tagName ≠ sanitisePatchName bc'.tagName
  types_apart : ∀ bc tag bc' tag', Used mesh bcs bc tag → Used mesh bcs bc' tag' → tag ≠ tag' →
    sanitisePatchName bc'.tagName = "" → sanitisePatchName bc.tagName ≠ numbered (typeName bc') tag'
  numbers_apart : ∀ bc tag tag', Used mesh bcs bc tag → Unmatched mesh bcs tag' →
    sanitisePatchName bc.tagName ≠ numbered "tag" tag'
  walls_apart : ∀ bc tag, Used mesh bcs bc tag → mesh.BoundaryTag faceUntagged →
    sanitisePatchName bc.tagName ≠ "walls"

section

variable {choices : Choices} {mesh : TaggedMesh} {bcs : List ParsedBC}

theorem mem_tagsPresent {tag : ℤ} : tag ∈ tagsPresent choices mesh ↔ mesh.BoundaryTag tag := by
  rw [tagsPresent, List.mem_map]
  constructor
  · rintro ⟨e, he, rfl⟩
    obtain ⟨f, hf, hone, rfl⟩ := mem_boundaryFaces_alone.mp he
    exact ⟨f, hf, hone, rfl⟩
  · rintro ⟨f, hf, hone, rfl⟩
    exact ⟨_, mem_boundaryFaces_alone.mpr ⟨f, hf, hone, rfl⟩, rfl⟩

theorem nameOf_untagged (bcs : List ParsedBC) : nameOf bcs faceUntagged = "walls" := rfl

theorem nameOf_used {bc : ParsedBC} {tag : ℤ} (h : Used mesh bcs bc tag) : nameOf bcs tag = patchName bc tag := by
  rw [nameOf, patchOf, if_neg h.2.1, h.2.2]

theorem nameOf_unmatched {tag : ℤ} (h : Unmatched mesh bcs tag) : nameOf bcs tag = numbered "tag" tag := by
  have hnone : ¬∃ bc ∈ bcs, bc.tagId = some tag := fun hex => by
    obtain ⟨bc, hbc, hid⟩ := hex
    exact h.2.2 bc hbc hid
  rw [nameOf, patchOf_unmatched h.2.1 hnone]
  rfl

theorem boundaryTag_cases (bcs : List ParsedBC) {tag : ℤ} (h : mesh.BoundaryTag tag) :
    tag = faceUntagged ∨ (∃ bc, Used mesh bcs bc tag) ∨ Unmatched mesh bcs tag := by
  by_cases htag : tag = faceUntagged
  · exact Or.inl htag
  · cases hfind : bcs.find? fun bc => bc.tagId = some tag with
    | none =>
      rw [List.find?_eq_none] at hfind
      exact Or.inr (Or.inr ⟨h, htag, fun bc hbc hid => hfind bc hbc (decide_eq_true hid)⟩)
    | some bc => exact Or.inr (Or.inl ⟨bc, h, htag, hfind⟩)

theorem used_ne_unmatched {bc : ParsedBC} {tag tag' : ℤ} (h : Used mesh bcs bc tag) (h' : Unmatched mesh bcs tag') :
    tag ≠ tag' := by
  rintro rfl
  have hid := List.find?_some h.2.2
  exact h'.2.2 bc (List.mem_of_find?_eq_some h.2.2) (of_decide_eq_true hid)

/-! ## Names under the condition -/

theorem NamesApart.word (h : NamesApart mesh bcs) {tag : ℤ} (htag : mesh.BoundaryTag tag) :
    IsWord (nameOf bcs tag) := by
  obtain rfl | ⟨bc, hbc⟩ | hun := boundaryTag_cases bcs htag
  · rw [nameOf_untagged]
    exact isWord_walls
  · rw [nameOf_used hbc]
    by_cases hname : sanitisePatchName bc.tagName = ""
    · obtain ⟨htype, hpos⟩ := h.types bc tag hbc hname
      rw [patchName_numbered hname, isWord_numbered (typeName_ne_empty bc), isWord_typeName]
      exact ⟨htype, hpos⟩
    · rw [patchName_sanitised hname]
      exact isWord_sanitise hname
  · rw [nameOf_unmatched hun, isWord_tag]
    exact h.numbers tag hun

theorem NamesApart.used_walls (h : NamesApart mesh bcs) {bc : ParsedBC} {tag : ℤ} (hbc : Used mesh bcs bc tag)
    (hwalls : mesh.BoundaryTag faceUntagged) : nameOf bcs tag ≠ "walls" := by
  rw [nameOf_used hbc]
  by_cases hname : sanitisePatchName bc.tagName = ""
  · rw [patchName_numbered hname]
    exact numbered_ne_walls _ tag
  · rw [patchName_sanitised hname]
    exact h.walls_apart bc tag hbc hwalls

theorem NamesApart.used_unmatched (h : NamesApart mesh bcs) {bc : ParsedBC} {tag tag' : ℤ}
    (hbc : Used mesh bcs bc tag) (hun : Unmatched mesh bcs tag') : nameOf bcs tag ≠ nameOf bcs tag' := by
  rw [nameOf_used hbc, nameOf_unmatched hun]
  by_cases hname : sanitisePatchName bc.tagName = ""
  · rw [patchName_numbered hname]
    exact fun heq => used_ne_unmatched hbc hun (numbered_inj heq)
  · rw [patchName_sanitised hname]
    exact h.numbers_apart bc tag tag' hbc hun

theorem NamesApart.used_used (h : NamesApart mesh bcs) {bc bc' : ParsedBC} {tag tag' : ℤ}
    (hbc : Used mesh bcs bc tag) (hbc' : Used mesh bcs bc' tag') (hne : tag ≠ tag') :
    nameOf bcs tag ≠ nameOf bcs tag' := by
  rw [nameOf_used hbc, nameOf_used hbc']
  by_cases hname : sanitisePatchName bc.tagName = ""
  · rw [patchName_numbered hname]
    by_cases hname' : sanitisePatchName bc'.tagName = ""
    · rw [patchName_numbered hname']
      exact fun heq => hne (numbered_inj heq)
    · rw [patchName_sanitised hname']
      exact (h.types_apart bc' tag' bc tag hbc' hbc hne.symm hname).symm
  · rw [patchName_sanitised hname]
    by_cases hname' : sanitisePatchName bc'.tagName = ""
    · rw [patchName_numbered hname']
      exact h.types_apart bc tag bc' tag' hbc hbc' hne hname'
    · rw [patchName_sanitised hname']
      exact h.strings bc tag bc' tag' hbc hbc' hne hname

theorem NamesApart.distinct (h : NamesApart mesh bcs) {tag tag' : ℤ} (htag : mesh.BoundaryTag tag)
    (htag' : mesh.BoundaryTag tag') (hne : tag ≠ tag') : nameOf bcs tag ≠ nameOf bcs tag' := by
  obtain rfl | ⟨bc, hbc⟩ | hun := boundaryTag_cases bcs htag
  · rw [nameOf_untagged]
    obtain rfl | ⟨bc', hbc'⟩ | hun' := boundaryTag_cases bcs htag'
    · exact absurd rfl hne
    · exact (h.used_walls hbc' htag).symm
    · rw [nameOf_unmatched hun']
      exact (numbered_ne_walls _ tag').symm
  · obtain rfl | ⟨bc', hbc'⟩ | hun' := boundaryTag_cases bcs htag'
    · exact h.used_walls hbc htag'
    · exact h.used_used hbc hbc' hne
    · exact h.used_unmatched hbc hun'
  · obtain rfl | ⟨bc', hbc'⟩ | hun' := boundaryTag_cases bcs htag'
    · rw [nameOf_unmatched hun]
      exact numbered_ne_walls _ tag
    · exact (h.used_unmatched hbc' hun).symm
    · rw [nameOf_unmatched hun, nameOf_unmatched hun']
      exact fun heq => hne (numbered_inj heq)

theorem namesApart_of_names (hwords : ∀ tag, mesh.BoundaryTag tag → IsWord (nameOf bcs tag))
    (hdistinct : ∀ tag tag', mesh.BoundaryTag tag → mesh.BoundaryTag tag' → tag ≠ tag' →
      nameOf bcs tag ≠ nameOf bcs tag') : NamesApart mesh bcs where
  types bc tag hbc hname := by
    have hword := hwords tag hbc.1
    rwa [nameOf_used hbc, patchName_numbered hname, isWord_numbered (typeName_ne_empty bc), isWord_typeName] at hword
  numbers tag hun := by
    have hword := hwords tag hun.1
    rwa [nameOf_unmatched hun, isWord_tag] at hword
  strings bc tag bc' tag' hbc hbc' hne hname heq := by
    apply hdistinct tag tag' hbc.1 hbc'.1 hne
    rw [nameOf_used hbc, nameOf_used hbc', patchName_sanitised hname, patchName_sanitised (heq ▸ hname), heq]
  types_apart bc tag bc' tag' hbc hbc' hne hname heq := by
    have hname' : sanitisePatchName bc.tagName ≠ "" := heq ▸ numbered_ne_empty _ tag'
    apply hdistinct tag tag' hbc.1 hbc'.1 hne
    rw [nameOf_used hbc, nameOf_used hbc', patchName_sanitised hname', patchName_numbered hname, heq]
  numbers_apart bc tag tag' hbc hun heq := by
    have hname : sanitisePatchName bc.tagName ≠ "" := heq ▸ numbered_ne_empty _ tag'
    apply hdistinct tag tag' hbc.1 hun.1 (used_ne_unmatched hbc hun)
    rw [nameOf_used hbc, nameOf_unmatched hun, patchName_sanitised hname, heq]
  walls_apart bc tag hbc hwalls heq := by
    have hname : sanitisePatchName bc.tagName ≠ "" := heq ▸ (by decide)
    apply hdistinct tag faceUntagged hbc.1 hwalls hbc.2.1
    rw [nameOf_used hbc, nameOf_untagged, patchName_sanitised hname, heq]

/-! ## The written names -/

theorem sections_of_distinct {patches : List BoundaryPatch} (h : (patches.map BoundaryPatch.name).Nodup)
    (text : BoundaryPatch → String) : ∀ p ∈ patches,
      (boundaryField text patches).filter (fun entry => entry.1 = p.name) = [(p.name, text p)] := by
  induction patches with
  | nil => exact List.forall_mem_nil _
  | cons q patches ih =>
    rw [List.map_cons, List.nodup_cons] at h
    have hother : ∀ name ∉ patches.map BoundaryPatch.name,
        (boundaryField text patches).filter (fun entry => entry.1 = name) = [] := by
      intro name hname
      rw [List.filter_eq_nil_iff]
      intro entry hentry heq
      obtain ⟨p, hp, rfl⟩ := List.mem_map.mp hentry
      exact hname (List.mem_map.mpr ⟨p, hp, of_decide_eq_true heq⟩)
    rw [List.forall_mem_cons, boundaryField, List.map_cons]
    refine ⟨?_, fun p hp => ?_⟩
    · rw [List.filter_cons, if_pos (decide_eq_true rfl)]
      exact congrArg _ (hother q.name h.1)
    · have hne : q.name ≠ p.name := fun heq => h.1 (heq ▸ List.mem_map_of_mem hp)
      rw [List.filter_cons, if_neg (by rwa [decide_eq_true_eq])]
      exact ih h.2 p hp

/-- The names of a written mesh are different words exactly when the boundary conditions keep them apart. -/
theorem patch_names_iff {out : PolyMesh} (h : writePolymeshFromMesh choices mesh bcs = .ok out) :
    WellNamed out.patches ↔ NamesApart mesh bcs := by
  obtain rfl := Except.ok.inj ((write_eq (accepted_of_write h)).symm.trans h)
  have hnames : (patchList choices mesh bcs).map BoundaryPatch.name =
      (patchTags (tagsPresent choices mesh) bcs).map (nameOf bcs) := by
    rw [patchList, List.map_map]
    apply List.map_congr_left
    intro tag _
    exact name_patchOf bcs tag _
  have hmem : ∀ tag, tag ∈ patchTags (tagsPresent choices mesh) bcs ↔ mesh.BoundaryTag tag := fun tag =>
    mem_patchTags.trans mem_tagsPresent
  have hdistinct : ((patchList choices mesh bcs).map BoundaryPatch.name).Nodup ↔ ∀ tag tag', mesh.BoundaryTag tag →
      mesh.BoundaryTag tag' → tag ≠ tag' → nameOf bcs tag ≠ nameOf bcs tag' := by
    rw [hnames, List.nodup_map_iff_inj_on (nodup_patchTags _ bcs)]
    constructor
    · intro hinj tag tag' htag htag' hne heq
      exact hne (hinj tag ((hmem tag).mpr htag) tag' ((hmem tag').mpr htag') heq)
    · intro hdiff tag htag tag' htag' heq
      by_contra hne
      exact hdiff tag tag' ((hmem tag).mp htag) ((hmem tag').mp htag') hne heq
  have hwords : (∀ p ∈ patchList choices mesh bcs, IsWord p.name) ↔
      ∀ tag, mesh.BoundaryTag tag → IsWord (nameOf bcs tag) := by
    rw [← List.forall_mem_map (f := BoundaryPatch.name) (P := IsWord), hnames, List.forall_mem_map]
    exact forall_congr' fun tag => imp_congr_left (hmem tag)
  constructor
  · intro hwell
    exact namesApart_of_names (hwords.mp hwell.words) (hdistinct.mp hwell.distinct)
  · intro hapart
    have hnodup := hdistinct.mpr fun tag tag' => hapart.distinct
    exact ⟨hnodup, hwords.mpr fun tag => hapart.word, sections_of_distinct hnodup⟩

end

theorem patch_names_iff_tets : ∃ out,
    writePolymeshFromMesh plainChoices taggedTets [⟨some 7, "in let", "inlet"⟩] = .ok out ∧
      (WellNamed out.patches ↔ NamesApart taggedTets [⟨some 7, "in let", "inlet"⟩]) :=
  ⟨_, write_eq taggedTets_linear.accepted, patch_names_iff (write_eq taggedTets_linear.accepted)⟩

/-- Two tag strings that differ in one replaced character. -/
theorem names_collide : ∃ out,
    writePolymeshFromMesh plainChoices taggedTets [⟨some 7, "in let", "inlet"⟩, ⟨some 5, "in-let", "outlet"⟩] =
      .ok out ∧ ¬WellNamed out.patches := by
  refine ⟨_, write_eq taggedTets_linear.accepted, fun h => ?_⟩
  exact absurd h.distinct (by decide)

end Souxmar.OpenFoam
