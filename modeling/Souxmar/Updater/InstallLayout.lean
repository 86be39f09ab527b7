import Mathlib.Data.List.DropRight
import Souxmar.Lib.Dict
import Souxmar.Updater.FileWrite
import Souxmar.Updater.Version

/-!
# The install layout

The install root of `install_layout.cpp`: the two marker files, the version directories with their
payloads, and the rollback log. The `staging/` directory is left out, since nothing reads it back.
A version name is taken as the name of one directory under `versions/`.

Every operation takes the faults of its file-system steps, and `{}` is the run in which none fails.
The step lemmas say, for each operation, which parts of the layout it can change.
-/

namespace Souxmar.Updater

open Souxmar.Lib

/-- `none` is a missing file; a version directory maps to its payload, `none` when it has none. -/
structure InstallLayout where
  root : String := ""
  current : Option FileText := none
  previous : Option FileText := none
  versions : Dict String (Option (List UInt8)) := ∅
  log : Option FileText := none

/-! ### Marker files -/

def isAsciiWs (c : Char) : Bool := c = ' ' || c = '\t' || c = '\n' || c = '\r'

/-- The two trimming loops of `read_one_line`. -/
def stripAsciiWs (s : FileText) : FileText := (s.dropWhile isAsciiWs).rdropWhile isAsciiWs

def readOneLine (file : Option FileText) : String :=
  String.ofList (stripAsciiWs (file.getD []))

def writeMarkerAtomic (f : WriteFaults) (file : Option FileText) (content : String) :
    Bool × Option FileText :=
  writeTmpRename f file (content.toList ++ ['\n'])

/-- A text `read_one_line` gives back unchanged. -/
def Stripped (s : String) : Prop := stripAsciiWs s.toList = s.toList

theorem stripped_of_forall {s : String} (h : ∀ c ∈ s.toList, isAsciiWs c = false) : Stripped s := by
  have hdrop : s.toList.dropWhile isAsciiWs = s.toList := by
    rw [List.dropWhile_eq_self_iff]
    intro hpos
    simp [h _ (List.getElem_mem hpos)]
  have hrdrop : s.toList.rdropWhile isAsciiWs = s.toList := by
    rw [List.rdropWhile_eq_self_iff]
    intro hne
    simp [h _ (List.getLast_mem hne)]
  rw [Stripped, stripAsciiWs, hdrop, hrdrop]

theorem stripped_of_versionOf {s : String} {v : Version} (h : versionOf s = some v) :
    Stripped s := by
  refine stripped_of_forall fun c hc => ?_
  rcases chars_of_versionOf h c hc with rfl | hdigit
  · decide
  · by_contra hws
    simp only [isAsciiWs, Bool.or_eq_false_iff, decide_eq_false_iff_not, not_and_or, not_not] at hws
    rcases hws with ((rfl | rfl) | rfl) | rfl <;> exact absurd hdigit (by decide)

theorem stripped_readOneLine (file : Option FileText) : Stripped (readOneLine file) := by
  have hdrop : ∀ l : List Char, ((l.dropWhile isAsciiWs).rdropWhile isAsciiWs).dropWhile isAsciiWs =
      (l.dropWhile isAsciiWs).rdropWhile isAsciiWs := by
    intro l
    rw [List.dropWhile_eq_self_iff]
    intro hpos
    have hprefix := List.rdropWhile_prefix isAsciiWs (l := l.dropWhile isAsciiWs)
    have hne : l.dropWhile isAsciiWs ≠ [] := by
      intro he
      simp [he] at hpos
    rw [List.IsPrefix.getElem hprefix hpos, ← List.head_eq_getElem_zero hne]
    simp [List.head_dropWhile_not isAsciiWs hne]
  rw [Stripped, readOneLine, String.toList_ofList, stripAsciiWs, stripAsciiWs, hdrop,
    List.rdropWhile_idempotent]

theorem Stripped.lists {s : String} (h : Stripped s) :
    s.toList.dropWhile isAsciiWs = s.toList ∧ s.toList.rdropWhile isAsciiWs = s.toList := by
  have hlist : (s.toList.dropWhile isAsciiWs).rdropWhile isAsciiWs = s.toList := h
  have hdrop : s.toList.dropWhile isAsciiWs = s.toList := by
    refine (List.dropWhile_suffix isAsciiWs).eq_of_length (le_antisymm ?_ ?_)
    · exact (List.dropWhile_suffix isAsciiWs).length_le
    · conv_lhs => rw [← hlist]
      exact (List.rdropWhile_prefix isAsciiWs _).length_le
  exact ⟨hdrop, by rw [hdrop] at hlist; exact hlist⟩

/-- A marker is read back as it was written. -/
theorem readOneLine_marker {s : String} (h : Stripped s) :
    readOneLine (some (s.toList ++ ['\n'])) = s := by
  obtain ⟨hdrop, hrdrop⟩ := h.lists
  have hnl : isAsciiWs '\n' = true := by decide
  rw [readOneLine, Option.getD_some, stripAsciiWs, List.dropWhile_append, hdrop]
  cases hs : s.toList with
  | nil =>
    rw [← String.ofList_toList (s := s), hs]
    decide
  | cons c cs =>
    rw [← hs, if_neg (by simp [hs]), List.rdropWhile_concat_pos _ _ _ hnl, hrdrop,
      String.ofList_toList]

/-! ### Payload directories -/

/-- How `fs::remove_all` ends on a version directory: gone, not touched, or emptied of its payload
before it failed. -/
inductive RemoveFault
  | done
  | untouched
  | emptied
deriving DecidableEq, Repr

/-- Which steps of `write_payload_atomic` fail. -/
structure PayloadFaults where
  staging : Bool := false
  scratch : Bool := false
  openPayload : Bool := false
  write : Bool := false
  /-- How much reaches the scratch file when the last flush fails, in the destructor of the stream. -/
  flush : Option ℕ := none
  removeOld : RemoveFault := .done
  rename : Bool := false
deriving DecidableEq, Repr

/-- A step before the final directory is touched fails. -/
def PayloadFaults.early (f : PayloadFaults) : Bool :=
  f.staging || f.scratch || f.openPayload || f.write

/-- What the scratch payload holds once its stream is closed. -/
def PayloadFaults.written (f : PayloadFaults) (bytes : List UInt8) : List UInt8 :=
  match f.flush with
  | none => bytes
  | some n => bytes.take n

@[simp] theorem PayloadFaults.written_ok (bytes : List UInt8) :
    ({} : PayloadFaults).written bytes = bytes := rfl

def removeAll (f : RemoveFault) (version : String) (versions : Dict String (Option (List UInt8))) :
    Bool × Dict String (Option (List UInt8)) :=
  if version ∈ versions then
    match f with
    | .done => (true, versions.erase version)
    | .untouched => (false, versions)
    | .emptied => (false, versions.insert version none)
  else (true, versions)

def writePayloadAtomic (f : PayloadFaults) (version : String) (bytes : List UInt8)
    (versions : Dict String (Option (List UInt8))) :
    Bool × Dict String (Option (List UInt8)) :=
  if f.staging then (false, versions)
  else if f.scratch then (false, versions)
  else if f.openPayload then (false, versions)
  else if f.write then (false, versions)
  else
    let (removed, versions) := removeAll f.removeOld version versions
    if !removed then (false, versions)
    else if f.rename then (false, versions)
    else (true, versions.insert version (some (f.written bytes)))

namespace InstallLayout

def readCurrentVersion (l : InstallLayout) : String := readOneLine l.current

def readPreviousVersion (l : InstallLayout) : String := readOneLine l.previous

/-- The payload bytes of a version, if it has a payload file. -/
def payload (l : InstallLayout) (version : String) : Option (List UInt8) :=
  (l.versions.lookup version).join

/-- The payload exists and is not empty. -/
def hasVersionPayload (l : InstallLayout) (version : String) : Bool :=
  (l.payload version).any fun bytes => decide (bytes.length > 0)

def listVersions (l : InstallLayout) : List String := l.versions.keys

def stageVersion (f : PayloadFaults) (version : String) (payload : List UInt8)
    (l : InstallLayout) : Bool × InstallLayout :=
  if version = "" then (false, l)
  else
    let (ok, versions) := writePayloadAtomic f version payload l.versions
    (ok, { l with versions })

/-- The faults of the two marker writes of a switch. -/
structure SwitchFaults where
  previous : WriteFaults := {}
  current : WriteFaults := {}
deriving DecidableEq, Repr

def atomicSwitchTo (f : SwitchFaults) (fromVersion toVersion : String) (l : InstallLayout) :
    Bool × InstallLayout :=
  if toVersion = "" then (false, l)
  else if !l.hasVersionPayload toVersion then (false, l)
  else
    let (wrote, previous) :=
      if fromVersion ≠ "" then writeMarkerAtomic f.previous l.previous fromVersion
      else (true, l.previous)
    if !wrote then (false, { l with previous })
    else
      let (ok, current) := writeMarkerAtomic f.current l.current toVersion
      (ok, { l with previous, current })

def removeVersion (f : RemoveFault) (version : String) (l : InstallLayout) :
    Bool × InstallLayout :=
  if version = "" then (false, l)
  else if version = l.readCurrentVersion then (false, l)
  else if version = l.readPreviousVersion then (false, l)
  else
    let (ok, versions) := removeAll f version l.versions
    (ok, { l with versions })

/-- The loop over the listed versions; `reaped` is built in the order they are listed. -/
def gcLoop (f : String → RemoveFault) (protectVersions : List String) (current previous : String) :
    List String → InstallLayout → List String × InstallLayout
  | [], l => ([], l)
  | v :: vs, l =>
    if v = current ∨ v = previous then gcLoop f protectVersions current previous vs l
    else if v ∈ protectVersions then gcLoop f protectVersions current previous vs l
    else
      let (ok, l) := removeVersion (f v) v l
      let (reaped, l) := gcLoop f protectVersions current previous vs l
      (if ok then v :: reaped else reaped, l)

def gcUnreferenced (f : String → RemoveFault) (protectVersions : List String)
    (l : InstallLayout) : List String × InstallLayout :=
  gcLoop f protectVersions l.readCurrentVersion l.readPreviousVersion l.listVersions l

/-! ### What each operation can change -/

/-- Same markers and same log; only the version directories may differ. -/
structure SameFiles (l l' : InstallLayout) : Prop where
  root : l'.root = l.root
  current : l'.current = l.current
  previous : l'.previous = l.previous
  log : l'.log = l.log

theorem SameFiles.refl (l : InstallLayout) : SameFiles l l := ⟨rfl, rfl, rfl, rfl⟩

theorem SameFiles.trans {l l' l'' : InstallLayout} (h : SameFiles l l') (h' : SameFiles l' l'') :
    SameFiles l l'' :=
  ⟨h'.root.trans h.root, h'.current.trans h.current, h'.previous.trans h.previous,
    h'.log.trans h.log⟩

theorem stageVersion_sameFiles (f : PayloadFaults) (version : String) (bytes : List UInt8)
    (l : InstallLayout) : SameFiles l (l.stageVersion f version bytes).2 := by
  unfold stageVersion
  split_ifs
  · exact SameFiles.refl l
  · exact ⟨rfl, rfl, rfl, rfl⟩

theorem removeVersion_sameFiles (f : RemoveFault) (version : String) (l : InstallLayout) :
    SameFiles l (l.removeVersion f version).2 := by
  unfold removeVersion
  split_ifs
  · exact SameFiles.refl l
  · exact SameFiles.refl l
  · exact SameFiles.refl l
  · exact ⟨rfl, rfl, rfl, rfl⟩

theorem gcLoop_sameFiles (f : String → RemoveFault) (protectVersions : List String)
    (current previous : String) (vs : List String) (l : InstallLayout) :
    SameFiles l (gcLoop f protectVersions current previous vs l).2 := by
  induction vs generalizing l with
  | nil => exact SameFiles.refl l
  | cons v vs ih =>
    unfold gcLoop
    split_ifs
    · exact ih l
    · exact ih l
    · exact (removeVersion_sameFiles _ _ _).trans (ih _)

theorem gcUnreferenced_sameFiles (f : String → RemoveFault) (protectVersions : List String)
    (l : InstallLayout) : SameFiles l (l.gcUnreferenced f protectVersions).2 :=
  gcLoop_sameFiles _ _ _ _ _ _

theorem lookup_removeAll_ne (f : RemoveFault) {version v : String} (hv : v ≠ version)
    (versions : Dict String (Option (List UInt8))) :
    (removeAll f version versions).2.lookup v = versions.lookup v := by
  unfold removeAll
  split_ifs
  · cases f with
    | done => exact AList.lookup_erase_ne hv
    | untouched => rfl
    | emptied => exact AList.lookup_insert_ne hv
  · rfl

theorem join_lookup_removeAll (f : RemoveFault) (version : String)
    (versions : Dict String (Option (List UInt8))) :
    ((removeAll f version versions).2.lookup version).join =
      if f = .untouched then (versions.lookup version).join else none := by
  unfold removeAll
  by_cases hmem : version ∈ versions
  · cases f <;> simp [hmem]
  · simp [hmem, AList.lookup_eq_none.mpr hmem]

/-- Staging succeeds exactly when none of its steps fails; an old directory must go first. -/
theorem stageVersion_fst (f : PayloadFaults) (version : String) (bytes : List UInt8)
    (l : InstallLayout) :
    (l.stageVersion f version bytes).1 = true ↔
      version ≠ "" ∧ f.early = false ∧ (version ∈ l.versions → f.removeOld = .done) ∧
        f.rename = false := by
  obtain ⟨staging, scratch, openPayload, write, flush, removeOld, rename⟩ := f
  by_cases hver : version = ""
  · simp [stageVersion, hver]
  · by_cases hmem : version ∈ l.versions
    · cases staging <;> cases scratch <;> cases openPayload <;> cases write <;> cases rename <;>
        cases removeOld <;>
        simp [stageVersion, hver, hmem, writePayloadAtomic, removeAll, PayloadFaults.early]
    · cases staging <;> cases scratch <;> cases openPayload <;> cases write <;> cases rename <;>
        simp [stageVersion, hver, hmem, writePayloadAtomic, removeAll, PayloadFaults.early]

/-- When staging succeeds the payload is in place, as far as it was flushed, and no other version was
touched. -/
theorem stageVersion_payload {f : PayloadFaults} {version : String} {bytes : List UInt8}
    {l : InstallLayout} (h : (l.stageVersion f version bytes).1 = true) (v : String) :
    (l.stageVersion f version bytes).2.payload v =
      if v = version then some (f.written bytes) else l.payload v := by
  obtain ⟨hver, hearly, hold, hrename⟩ := (stageVersion_fst f version bytes l).mp h
  simp only [PayloadFaults.early, Bool.or_eq_false_iff] at hearly
  obtain ⟨⟨⟨hstaging, hscratch⟩, hopen⟩, hwrite⟩ := hearly
  have hremoved : (removeAll f.removeOld version l.versions).1 = true := by
    by_cases hmem : version ∈ l.versions
    · simp [removeAll, hmem, hold hmem]
    · simp [removeAll, hmem]
  simp only [stageVersion, hver, if_false, writePayloadAtomic, hstaging, hscratch, hopen, hwrite,
    hremoved, hrename, payload, Bool.false_eq_true, Bool.not_true]
  by_cases hv : v = version
  · subst hv
    simp
  · rw [if_neg hv, AList.lookup_insert_ne hv, lookup_removeAll_ne _ hv]

theorem stageVersion_hasVersionPayload {f : PayloadFaults} {version : String}
    {bytes : List UInt8} {l : InstallLayout} (h : (l.stageVersion f version bytes).1 = true)
    (v : String) :
    (l.stageVersion f version bytes).2.hasVersionPayload v =
      if v = version then decide ((f.written bytes).length > 0) else l.hasVersionPayload v := by
  rw [hasVersionPayload, stageVersion_payload h]
  split_ifs <;> rfl

/-- When staging fails the old payload is either still there or gone. -/
theorem stageVersion_failed {f : PayloadFaults} {version : String} {bytes : List UInt8}
    {l : InstallLayout} (h : (l.stageVersion f version bytes).1 = false) (v : String) :
    (l.stageVersion f version bytes).2.payload v =
      if v = version ∧ version ≠ "" ∧ f.early = false ∧ f.removeOld ≠ .untouched then none
      else l.payload v := by
  by_cases hver : version = ""
  · simp [stageVersion, hver]
  by_cases hearly : f.early = true
  · have hsame : (l.stageVersion f version bytes).2 = l := by
      simp only [PayloadFaults.early, Bool.or_eq_true] at hearly
      rcases hearly with ((hs | hs) | hs) | hs <;>
        simp [stageVersion, hver, writePayloadAtomic, hs]
    simp [hsame, hearly]
  have hearly : f.early = false := by simpa using hearly
  have hvers : (l.stageVersion f version bytes).2.versions =
      (removeAll f.removeOld version l.versions).2 := by
    have hflags := hearly
    simp only [PayloadFaults.early, Bool.or_eq_false_iff] at hflags
    obtain ⟨⟨⟨hstaging, hscratch⟩, hopen⟩, hwrite⟩ := hflags
    revert h
    simp only [stageVersion, hver, if_false, writePayloadAtomic, hstaging, hscratch, hopen, hwrite,
      Bool.false_eq_true]
    split_ifs <;> simp
  by_cases hv : v = version
  · subst hv
    simp only [payload, hvers, join_lookup_removeAll, hearly]
    by_cases hf : f.removeOld = .untouched <;> simp [hf, hver]
  · simp [payload, hvers, hv, lookup_removeAll_ne _ hv]

theorem removeVersion_payload (f : RemoveFault) (version : String) (l : InstallLayout)
    (v : String) :
    (l.removeVersion f version).2.payload v = l.payload v ∨
      (l.removeVersion f version).2.payload v = none := by
  unfold removeVersion
  split_ifs
  · exact Or.inl rfl
  · exact Or.inl rfl
  · exact Or.inl rfl
  · by_cases hv : v = version
    · subst hv
      simp only [payload, join_lookup_removeAll]
      by_cases hf : f = .untouched <;> simp [hf]
    · exact Or.inl (by simp [payload, lookup_removeAll_ne _ hv])

theorem gcLoop_payload (f : String → RemoveFault) (protectVersions : List String)
    (current previous : String) (vs : List String) (l : InstallLayout) (v : String) :
    (gcLoop f protectVersions current previous vs l).2.payload v = l.payload v ∨
      (gcLoop f protectVersions current previous vs l).2.payload v = none := by
  induction vs generalizing l with
  | nil => exact Or.inl rfl
  | cons w vs ih =>
    unfold gcLoop
    split_ifs
    · exact ih l
    · exact ih l
    · rcases ih (removeVersion (f w) w l).2 with h | h
      · rcases removeVersion_payload (f w) w l v with h' | h'
        · exact Or.inl (h.trans h')
        · exact Or.inr (h.trans h')
      · exact Or.inr h

theorem hasVersionPayload_gcUnreferenced {f : String → RemoveFault} {protectVersions : List String}
    {l : InstallLayout} {v : String}
    (h : (l.gcUnreferenced f protectVersions).2.hasVersionPayload v = true) :
    l.hasVersionPayload v = true := by
  rcases gcLoop_payload f protectVersions l.readCurrentVersion l.readPreviousVersion l.listVersions
    l v with hsame | hgone
  · rw [hasVersionPayload, gcUnreferenced, hsame] at h
    exact h
  · simp [hasVersionPayload, gcUnreferenced, hgone] at h

/-- A switch never touches the version directories, the log or the root. -/
theorem atomicSwitchTo_frame (f : SwitchFaults) (fromVersion toVersion : String)
    (l : InstallLayout) :
    (l.atomicSwitchTo f fromVersion toVersion).2.versions = l.versions ∧
      (l.atomicSwitchTo f fromVersion toVersion).2.log = l.log ∧
      (l.atomicSwitchTo f fromVersion toVersion).2.root = l.root := by
  unfold atomicSwitchTo
  split_ifs
  · exact ⟨rfl, rfl, rfl⟩
  · exact ⟨rfl, rfl, rfl⟩
  · dsimp only
    split_ifs <;> exact ⟨rfl, rfl, rfl⟩
  · dsimp only
    split_ifs <;> exact ⟨rfl, rfl, rfl⟩

/-- A switch with no fault succeeds when the target has a payload, and writes both markers. -/
theorem atomicSwitchTo_ok (fromVersion : String) {toVersion : String} {l : InstallLayout}
    (hto : toVersion ≠ "") (hpay : l.hasVersionPayload toVersion = true) :
    l.atomicSwitchTo {} fromVersion toVersion =
      (true, { l with
        previous := if fromVersion ≠ "" then some (fromVersion.toList ++ ['\n']) else l.previous
        current := some (toVersion.toList ++ ['\n']) }) := by
  by_cases hfrom : fromVersion = "" <;>
    simp [atomicSwitchTo, hto, hpay, hfrom, writeMarkerAtomic]

theorem atomicSwitchTo_refused (f : SwitchFaults) (fromVersion : String) {toVersion : String}
    {l : InstallLayout} (h : toVersion = "" ∨ l.hasVersionPayload toVersion = false) :
    l.atomicSwitchTo f fromVersion toVersion = (false, l) := by
  rcases h with h | h <;> simp [atomicSwitchTo, h]

end InstallLayout

end Souxmar.Updater
