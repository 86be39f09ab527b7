import Mathlib.Data.Set.Function
import Souxmar.Pipeline.CacheKey
import Souxmar.Pipeline.Sha256Digest

/-!
# Plugins without hidden state

Plugins are `Hermetic` when what they answer depends on what they are handed and, for a reader, on the file that it
reads, and when the only file that changes is the one a writer writes. The outcome of a dispatch is then a function of
what the key of the stage stands for.
-/

namespace Souxmar.Pipeline

open Souxmar.Lib Souxmar.PluginHost

variable {M G F : Type}

/-- The file that a path names gets new contents. -/
def Files.write (path : Option String) (data : List UInt8) (files : Files) : Files :=
  fun q => if path = some q then some data else files q

@[simp] theorem Files.write_none (data : List UInt8) (files : Files) : files.write none data = files := rfl

theorem Files.write_self (path : String) (data : List UInt8) (files : Files) :
    files.write (some path) data path = some data := if_pos rfl

theorem Files.write_other {path q : String} (h : path ≠ q) (data : List UInt8) (files : Files) :
    files.write (some path) data q = files q := if_neg fun heq => h (Option.some.inj heq)

theorem Files.write_same {path : String} {data : List UInt8} {files : Files} (h : files path = some data) :
    files.write (some path) data = files := by
  funext q
  by_cases hq : path = q
  · subst hq
    rw [write_self, h]
  · exact write_other hq data files

/-- Plugins that see what they are handed only. A writer that succeeds leaves `content` at its path. -/
structure Hermetic (r : PluginRegistry M G F) (content : String → M → Option F → Value → List UInt8) : Prop where
  mesher : ∀ capabilityId meshFn userData, findVtable .mesher r capabilityId = some (meshFn, userData) →
    ∃ answer : Option G → MesherOptions → PluginCall (Option M), ∀ geometry options files,
      meshFn geometry options userData files = (answer geometry options, files)
  solver : ∀ capabilityId solveFn userData, findVtable .solver r capabilityId = some (solveFn, userData) →
    ∃ answer : M → Value → SolverOptions → PluginCall (Option F), ∀ mesh input options files,
      solveFn mesh input options userData files = (answer mesh input options, files)
  postproc : ∀ capabilityId computeFn userData, findVtable .postproc r capabilityId = some (computeFn, userData) →
    ∃ answer : M → F → Value → SolverOptions → PluginCall (Option F), ∀ mesh field input options files,
      computeFn mesh field input options userData files = (answer mesh field input options, files)
  reader : ∀ capabilityId readFn userData, findVtable .reader r capabilityId = some (readFn, userData) →
    ∃ answer : Option (List UInt8) → Value → PluginCall (Option M × Option G), ∀ path input files,
      readFn path input userData files = (answer (files path) input, files)
  writer : ∀ capabilityId writeFn userData, findVtable .writer r capabilityId = some (writeFn, userData) →
    ∃ answer : M → Option F → Value → PluginCall Unit, ∀ mesh field input files,
      (writeFn mesh field input userData files).1 = answer mesh field input ∧
        ∀ message, answer mesh field input = .returned 0 message () → (writeFn mesh field input userData files).2 =
          files.write (pathInput input) (content capabilityId mesh field input)

/-! ## What a dispatch sees of the upstream outputs -/

theorem mem_collectStageRefs_of_extractStageRef {input : Value} {key id : String}
    (h : extractStageRef input key = some id) : id ∈ collectStageRefs input := by
  unfold extractStageRef at h
  split at h
  · rename_i stageId hfind
    obtain rfl := Option.some.inj h
    cases input with
    | map fields =>
      obtain ⟨before, after, hfields, -⟩ := List.lookup_eq_some_iff.mp hfind
      exact mem_collectStageRefs_map.mpr ⟨(key, .stage stageId), by simp [hfields], List.mem_singleton.mpr rfl⟩
    | null | boolean | number | string | stage | list => cases hfind
  · cases h

section

variable {input : Value} {upstream upstream' : Outputs (StageOutput M G F)}
  (h : ∀ id ∈ collectStageRefs input, upstream.lookup id = upstream'.lookup id)

include h

theorem requiredUpstream_congr {α : Type} (role capabilityId key : String) (expected : StageOutput M G F → Option α)
    (article : String) : requiredUpstream role capabilityId key expected article input upstream =
      requiredUpstream role capabilityId key expected article input upstream' := by
  unfold requiredUpstream
  split
  · rfl
  · rename_i stageId href
    unfold upstreamAs
    rw [h stageId (mem_collectStageRefs_of_extractStageRef href)]

theorem optionalUpstream_congr {α : Type} (key : String) (expected : StageOutput M G F → Option α)
    (article : String) : optionalUpstream key expected article input upstream =
      optionalUpstream key expected article input upstream' := by
  unfold optionalUpstream
  split
  · rfl
  · rename_i stageId href
    unfold upstreamAs
    rw [h stageId (mem_collectStageRefs_of_extractStageRef href)]

end

/-! ## The outcome of a dispatch -/

/-- What a writer stage writes, once its upstream outputs are there. -/
def writtenData (content : String → M → Option F → Value → List UInt8) (capabilityId : String) (input : Value)
    (upstream : Outputs (StageOutput M G F)) : Option (List UInt8) :=
  (requiredUpstream "writer" capabilityId "mesh" StageOutput.asMesh "Mesh" input upstream).toOption.bind fun mesh =>
    (optionalUpstream "field" StageOutput.asField "Field" input upstream).toOption.map fun field =>
      content capabilityId mesh field input

theorem writtenData_congr (content : String → M → Option F → Value → List UInt8) (capabilityId : String)
    {input : Value} {upstream upstream' : Outputs (StageOutput M G F)}
    (h : ∀ id ∈ collectStageRefs input, upstream.lookup id = upstream'.lookup id) :
    writtenData content capabilityId input upstream = writtenData content capabilityId input upstream' := by
  unfold writtenData
  rw [requiredUpstream_congr h, optionalUpstream_congr h]

theorem checkCall_ok {α : Type} {role capabilityId : String} {call : PluginCall α} {out : α}
    (h : checkCall role capabilityId call = .ok out) : ∃ message, call = .returned 0 message out := by
  cases call with
  | raised detail => cases h
  | returned code message out' =>
    unfold checkCall at h
    dsimp only at h
    split_ifs at h with hcode
    obtain rfl := Except.ok.inj h
    rw [not_not] at hcode
    exact ⟨message, by rw [hcode]⟩

namespace Hermetic

variable {r : PluginRegistry M G F} {content : String → M → Option F → Value → List UInt8} (hr : Hermetic r content)
  {capabilityId : String} {input : Value} {upstream upstream' : Outputs (StageOutput M G F)} (files files' : Files)
  {baseDir baseDir' : String}

include hr

theorem dispatchMesher_eq (h : ∀ id ∈ collectStageRefs input, upstream.lookup id = upstream'.lookup id) :
    (dispatchMesher r capabilityId input upstream files).1 = (dispatchMesher r capabilityId input upstream' files').1 ∧
      (dispatchMesher r capabilityId input upstream files).2 = files := by
  unfold dispatchMesher
  rw [optionalUpstream_congr h]
  cases hfind : findVtable .mesher r capabilityId with
  | none => exact ⟨rfl, rfl⟩
  | some found =>
    obtain ⟨meshFn, userData⟩ := found
    obtain ⟨answer, hanswer⟩ := hr.mesher _ _ _ hfind
    dsimp only
    cases optionalUpstream "geometry" StageOutput.asGeometry "Geometry" input upstream' with
    | error err => exact ⟨rfl, rfl⟩
    | ok geometry =>
      dsimp only
      rw [hanswer, hanswer]
      cases checkCall "mesher" capabilityId (answer geometry (mesherOptions input)) with
      | error err => exact ⟨rfl, rfl⟩
      | ok out => cases out <;> exact ⟨rfl, rfl⟩

theorem dispatchSolver_eq (h : ∀ id ∈ collectStageRefs input, upstream.lookup id = upstream'.lookup id) :
    (dispatchSolver r capabilityId input upstream files).1 = (dispatchSolver r capabilityId input upstream' files').1 ∧
      (dispatchSolver r capabilityId input upstream files).2 = files := by
  unfold dispatchSolver
  rw [requiredUpstream_congr h]
  cases hfind : findVtable .solver r capabilityId with
  | none => exact ⟨rfl, rfl⟩
  | some found =>
    obtain ⟨solveFn, userData⟩ := found
    obtain ⟨answer, hanswer⟩ := hr.solver _ _ _ hfind
    dsimp only
    cases requiredUpstream "solver" capabilityId "mesh" StageOutput.asMesh "Mesh" input upstream' with
    | error err => exact ⟨rfl, rfl⟩
    | ok mesh =>
      dsimp only
      rw [hanswer, hanswer]
      exact ⟨rfl, rfl⟩

theorem dispatchPostproc_eq (h : ∀ id ∈ collectStageRefs input, upstream.lookup id = upstream'.lookup id) :
    (dispatchPostproc r capabilityId input upstream files).1 =
        (dispatchPostproc r capabilityId input upstream' files').1 ∧
      (dispatchPostproc r capabilityId input upstream files).2 = files := by
  unfold dispatchPostproc
  rw [requiredUpstream_congr h, requiredUpstream_congr h]
  cases hfind : findVtable .postproc r capabilityId with
  | none => exact ⟨rfl, rfl⟩
  | some found =>
    obtain ⟨computeFn, userData⟩ := found
    obtain ⟨answer, hanswer⟩ := hr.postproc _ _ _ hfind
    dsimp only
    cases requiredUpstream "postproc" capabilityId "mesh" StageOutput.asMesh "Mesh" input upstream' with
    | error err => exact ⟨rfl, rfl⟩
    | ok mesh =>
      dsimp only
      cases requiredUpstream "postproc" capabilityId "field" StageOutput.asField "Field" input upstream' with
      | error err => exact ⟨rfl, rfl⟩
      | ok field =>
        dsimp only
        rw [hanswer, hanswer]
        exact ⟨rfl, rfl⟩

theorem dispatchReader_eq (h : ∀ path, pathInput input = some path →
      files (resolveReaderPath baseDir path) = files' (resolveReaderPath baseDir' path)) :
    (dispatchReader r capabilityId input files baseDir).1 = (dispatchReader r capabilityId input files' baseDir').1 ∧
      (dispatchReader r capabilityId input files baseDir).2 = files := by
  unfold dispatchReader
  cases hfind : findVtable .reader r capabilityId with
  | none => exact ⟨rfl, rfl⟩
  | some found =>
    obtain ⟨readFn, userData⟩ := found
    obtain ⟨answer, hanswer⟩ := hr.reader _ _ _ hfind
    dsimp only
    cases hpath : pathInput input with
    | none => exact ⟨rfl, rfl⟩
    | some path =>
      dsimp only
      rw [hanswer, hanswer, h path hpath]
      exact ⟨rfl, rfl⟩

theorem dispatchWriter_eq (h : ∀ id ∈ collectStageRefs input, upstream.lookup id = upstream'.lookup id) :
    (dispatchWriter r capabilityId input upstream files).1 =
      (dispatchWriter r capabilityId input upstream' files').1 := by
  unfold dispatchWriter
  rw [requiredUpstream_congr h, optionalUpstream_congr h]
  cases hfind : findVtable .writer r capabilityId with
  | none => rfl
  | some found =>
    obtain ⟨writeFn, userData⟩ := found
    obtain ⟨answer, hanswer⟩ := hr.writer _ _ _ hfind
    dsimp only
    cases requiredUpstream "writer" capabilityId "mesh" StageOutput.asMesh "Mesh" input upstream' with
    | error err => rfl
    | ok mesh =>
      dsimp only
      cases optionalUpstream "field" StageOutput.asField "Field" input upstream' with
      | error err => rfl
      | ok field =>
        dsimp only
        rw [(hanswer mesh field input files).1, (hanswer mesh field input files').1]
        cases checkCall "writer" capabilityId (answer mesh field input) <;> rfl

theorem dispatchWriter_files {out : StageOutput M G F}
    (hout : (dispatchWriter r capabilityId input upstream files).1 = .ok out) :
    ∃ data, writtenData content capabilityId input upstream = some data ∧
      (dispatchWriter r capabilityId input upstream files).2 = files.write (pathInput input) data := by
  unfold dispatchWriter at hout ⊢
  unfold writtenData
  cases hfind : findVtable .writer r capabilityId with
  | none =>
    rw [hfind] at hout
    cases hout
  | some found =>
    obtain ⟨writeFn, userData⟩ := found
    obtain ⟨answer, hanswer⟩ := hr.writer _ _ _ hfind
    rw [hfind] at hout
    dsimp only at hout ⊢
    cases hmesh : requiredUpstream "writer" capabilityId "mesh" StageOutput.asMesh "Mesh" input upstream with
    | error err =>
      rw [hmesh] at hout
      cases hout
    | ok mesh =>
      rw [hmesh] at hout
      dsimp only at hout ⊢
      cases hfield : optionalUpstream "field" StageOutput.asField "Field" input upstream with
      | error err =>
        rw [hfield] at hout
        cases hout
      | ok field =>
        rw [hfield] at hout
        dsimp only at hout ⊢
        obtain ⟨hcall, hwrite⟩ := hanswer mesh field input files
        refine ⟨content capabilityId mesh field input, rfl, ?_⟩
        cases hcheck : checkCall "writer" capabilityId (writeFn mesh field input userData files).1 with
        | error err =>
          rw [hcheck] at hout
          cases hout
        | ok u =>
          obtain ⟨message, hreturned⟩ := checkCall_ok hcheck
          exact hwrite message (hcall.symm.trans hreturned)

end Hermetic

theorem startsWith_head {pre s : String} {c : Char} (hpre : pre.toList.head? = some c) (h : startsWith pre s = true) :
    s.toList.head? = some c := by
  obtain ⟨rest, hrest⟩ := List.isPrefixOf_iff_prefix.mp h
  rw [← hrest, List.head?_append, hpre]
  rfl

theorem dispatch_writer {r : PluginRegistry M G F} {capabilityId : String}
    (h : startsWith "writer." capabilityId = true) (input : Value) (upstream : Outputs (StageOutput M G F))
    (files : Files) (baseDir : String) :
    dispatch r capabilityId input upstream files baseDir = dispatchWriter r capabilityId input upstream files := by
  have hhead : capabilityId.toList.head? = some 'w' := startsWith_head (by decide) h
  have hmesher : ¬startsWith "mesher." capabilityId = true := fun hm => by
    have hm' : capabilityId.toList.head? = some 'm' := startsWith_head (by decide) hm
    rw [hhead] at hm'
    exact absurd (Option.some.inj hm') (by decide)
  have hsolver : ¬startsWith "solver." capabilityId = true := fun hs => by
    have hs' : capabilityId.toList.head? = some 's' := startsWith_head (by decide) hs
    rw [hhead] at hs'
    exact absurd (Option.some.inj hs') (by decide)
  unfold dispatch
  rw [if_neg hmesher, if_neg hsolver, if_pos h]

namespace Hermetic

variable {r : PluginRegistry M G F} {content : String → M → Option F → Value → List UInt8} (hr : Hermetic r content)
  {capabilityId : String} {input : Value} {upstream upstream' : Outputs (StageOutput M G F)} {files files' : Files}
  {baseDir baseDir' : String}

include hr

/-- The outcome depends on the capability, the input, what it refers to, and for a reader the file. -/
theorem dispatch_congr (h : ∀ id ∈ collectStageRefs input, upstream.lookup id = upstream'.lookup id)
    (hread : startsWith "reader." capabilityId = true → ∀ path, pathInput input = some path →
      files (resolveReaderPath baseDir path) = files' (resolveReaderPath baseDir' path)) :
    (dispatch r capabilityId input upstream files baseDir).1 =
      (dispatch r capabilityId input upstream' files' baseDir').1 := by
  unfold dispatch
  split_ifs with hmesher hsolver hwriter hpostproc hreader
  · exact (hr.dispatchMesher_eq files files' h).1
  · exact (hr.dispatchSolver_eq files files' h).1
  · exact hr.dispatchWriter_eq files files' h
  · exact (hr.dispatchPostproc_eq files files' h).1
  · exact (hr.dispatchReader_eq files files' (hread hreader)).1
  · rfl

theorem dispatch_files (h : startsWith "writer." capabilityId = false) :
    (dispatch r capabilityId input upstream files baseDir).2 = files := by
  unfold dispatch
  split_ifs with hmesher hsolver hwriter hpostproc hreader
  · exact (hr.dispatchMesher_eq files files fun _ _ => rfl).2
  · exact (hr.dispatchSolver_eq files files fun _ _ => rfl).2
  · rw [h] at hwriter
    cases hwriter
  · exact (hr.dispatchPostproc_eq files files fun _ _ => rfl).2
  · exact (hr.dispatchReader_eq files files fun _ _ => rfl).2
  · rfl

end Hermetic

/-! ## The file behind an extra -/

theorem hashFile_bytes (data : List UInt8) : (hashFile data).bytes = sha256 data := by
  have hchunks := hashChunks_eq (data.length + 1) {} (Nat.lt_succ_self data.length)
  unfold hashFile
  rw [hchunks]
  rfl

theorem hexByte_inj {a b : UInt8} (h : hexByte a = hexByte b) : a = b := by
  have hdigit : ∀ i < 16, ∀ j < 16, kHex.getD i '0' = kHex.getD j '0' → i = j := by decide
  have hhigh : ∀ c : UInt8, (c >>> 4).toNat = c.toNat / 16 := fun c => by
    rw [UInt8.toNat_shiftRight, Nat.shiftRight_eq_div_pow]
    rfl
  have hlow : ∀ c : UInt8, (c &&& 0xF).toNat = c.toNat % 16 := fun c => by
    rw [UInt8.toNat_and]
    exact Nat.and_two_pow_sub_one_eq_mod c.toNat 4
  have hlt : ∀ c : UInt8, c.toNat < 256 := UInt8.toNat_lt
  have hlta := hlt a
  have hltb := hlt b
  unfold hexByte at h
  obtain ⟨hfirst, hsecond⟩ := List.cons.inj h
  rw [hhigh, hhigh] at hfirst
  rw [hlow, hlow] at hsecond
  have hdiv := hdigit _ (by omega) _ (by omega) hfirst
  have hmod := hdigit _ (by omega) _ (by omega) (List.cons.inj hsecond).1
  exact UInt8.toNat_inj.mp (by omega)

theorem ContentHash.hex_inj {ch ch' : ContentHash} (h : ch.hex = ch'.hex) : ch = ch' := by
  have hflat : ∀ {xs ys : List UInt8}, xs.flatMap hexByte = ys.flatMap hexByte → xs = ys := by
    intro xs
    induction xs with
    | nil =>
      intro ys hys
      cases ys with
      | nil => rfl
      | cons y ys => cases hys
    | cons x xs ih =>
      intro ys hys
      cases ys with
      | nil => cases hys
      | cons y ys =>
        rw [List.flatMap_cons, List.flatMap_cons] at hys
        obtain ⟨hxy, hrest⟩ := List.append_inj hys rfl
        rw [hexByte_inj hxy, ih hrest]
  have hlist := congrArg String.toList h
  unfold hex at hlist
  rw [String.toList_ofList, String.toList_ofList] at hlist
  exact ContentHash.ext (hflat hlist)

theorem hex_ne_unreadable (ch : ContentHash) : ch.hex ≠ "unreadable" := by
  intro h
  have hmem : 'u' ∈ ch.hex.toList := by
    rw [h]
    decide
  rw [ContentHash.hex, String.toList_ofList, List.mem_flatMap] at hmem
  obtain ⟨b, -, hb⟩ := hmem
  exact absurd (mem_hexByte hb) (by decide)

/-- Over digests without collisions one extra is that of one file. -/
theorem file_of_cacheKeyExtra {D : Set (List UInt8)} (hD : Set.InjOn sha256 D) {capabilityId path : String}
    {input : Value} {files files' : Files} {baseDir baseDir' : String}
    (hreader : startsWith "reader." capabilityId = true) (hpath : pathInput input = some path)
    (hdata : ∀ data, files (resolveReaderPath baseDir path) = some data → data ∈ D)
    (hdata' : ∀ data, files' (resolveReaderPath baseDir' path) = some data → data ∈ D)
    (h : cacheKeyExtra capabilityId input files baseDir = cacheKeyExtra capabilityId input files' baseDir') :
    files (resolveReaderPath baseDir path) = files' (resolveReaderPath baseDir' path) := by
  unfold cacheKeyExtra at h
  rw [hreader, hpath] at h
  simp only [Bool.not_true, Bool.false_eq_true, if_false] at h
  cases hfile : files (resolveReaderPath baseDir path) with
  | none =>
    cases hfile' : files' (resolveReaderPath baseDir' path) with
    | none => rfl
    | some data' =>
      rw [hfile, hfile'] at h
      exact absurd h.symm (hex_ne_unreadable _)
  | some data =>
    cases hfile' : files' (resolveReaderPath baseDir' path) with
    | none =>
      rw [hfile, hfile'] at h
      exact absurd h (hex_ne_unreadable _)
    | some data' =>
      rw [hfile, hfile'] at h
      have hsha : sha256 data = sha256 data' := by
        rw [← hashFile_bytes, ← hashFile_bytes, ContentHash.hex_inj h]
      rw [hD (hdata data hfile) (hdata' data' hfile') hsha]

end Souxmar.Pipeline
