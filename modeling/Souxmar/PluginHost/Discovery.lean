import Mathlib.Data.List.DropRight
import Souxmar.PluginHost.PluginManifest

/-!
# Plugin discovery

`discovery.cpp`: where plugins are looked for, which directories are plugins, and which file of a plugin
is its binary. The file system is a parameter: it lists a directory in an order of its own, and a test of
a path may fail with an error instead of an answer. A listing comes to its end: an iterator that fails between two
entries, on which the range-for throws, is left out.

The loop over a directory keeps one error code for its tests. A test that fails is only seen when the
loop comes to the next entry, which it then takes for an error of the iteration: the plugins that are
found are those before such an entry (`scan_loaded`).
-/

namespace Souxmar.PluginHost

/-! ## Paths -/

/-- `lhs / rhs` on POSIX: an absolute right-hand side replaces the left-hand one. -/
def joinPath (lhs rhs : String) : String :=
  if rhs.toList.head? = some '/' then rhs
  else if lhs = "" ∨ lhs.toList.getLast? = some '/' then lhs ++ rhs
  else lhs ++ "/" ++ rhs

/-- `filename()`. -/
def filename (path : String) : String := String.ofList (path.toList.rtakeWhile (· ≠ '/'))

def endsWith (s suffix : String) : Bool := suffix.toList.isSuffixOf s.toList

/-- What a test of a path with an error code answers: a failed one says no and sets the code. -/
inductive Check
  | yes
  | no
  | failed (message : String)
deriving DecidableEq, Repr

structure DirectoryEntry where
  path : String
  isDirectory : Check
deriving DecidableEq, Repr

structure FileSystem where
  /-- What the iterator gives for a path that is a directory. -/
  entries : String → Option (List DirectoryEntry)
  pathExists : String → Check
  /-- The text of a file that can be opened. -/
  read : String → Option String

/-- What the operating system tells the program. -/
structure HostEnvironment where
  pathSeparator : Char := ':'
  /-- `$SOUXMAR_PLUGIN_PATH`. -/
  pluginPath : Option String := none
  userPluginsDir : Option String := none
  currentPath : String := ""
  /-- `kBinaryExtensions`, the one of the platform first. -/
  binaryExtensions : List String := [".so", ".dylib", ".dll"]
deriving DecidableEq, Repr

/-! ## Search paths -/

def splitPathEnv (separator : Char) (env : Option String) : List String :=
  ((((env.getD "").toList.splitOn separator).filter (· ≠ [])).map String.ofList)

structure DiscoveryOptions where
  includeEnvPath : Bool := true
  includeInstallPrefix : Bool := true
  includeUserPrefix : Bool := true
  includeCwd : Bool := false
  installPrefix : String := ""
deriving DecidableEq, Repr

/-- The loop that keeps the first of equal paths. -/
def dedupe (paths : List String) : List String :=
  paths.foldl (fun deduped p => if p ∈ deduped then deduped else deduped ++ [p]) []

def defaultSearchPaths (env : HostEnvironment) (opts : DiscoveryOptions) : List String :=
  dedupe <|
    (if opts.includeEnvPath then splitPathEnv env.pathSeparator env.pluginPath else []) ++
    (if opts.includeInstallPrefix && opts.installPrefix ≠ "" then
      [joinPath (joinPath (joinPath opts.installPrefix "lib") "souxmar") "plugins"] else []) ++
    (if opts.includeUserPrefix then env.userPluginsDir.toList else []) ++
    (if opts.includeCwd then [joinPath env.currentPath "plugins"] else [])

/-- `discover_with_overrides` of the command line: its paths come first, and may repeat a default. -/
def searchPathsWithOverrides (env : HostEnvironment) (extraPaths : List String) : List String :=
  extraPaths ++ defaultSearchPaths env { includeInstallPrefix := false }

/-! ## The binary of a plugin -/

/-- The declared name without its extension, if it is one of the known ones. -/
def binaryStem (extensions : List String) (declared : String) : String :=
  match extensions.find? (endsWith declared ·) with
  | none => declared
  | some ext => String.ofList (declared.toList.take (declared.length - ext.length))

/-- The stem as it is, without a leading `lib`, and with one more. -/
def candidateStems (stem : String) : List String :=
  [stem, if "lib".toList.isPrefixOf stem.toList then String.ofList (stem.toList.drop 3) else stem,
    "lib" ++ stem]

def candidateNames (extensions : List String) (stem : String) : List String :=
  extensions.flatMap fun ext => ((candidateStems stem).filter (· ≠ "")).map (· ++ ext)

def resolvePluginBinary (env : HostEnvironment) (fs : FileSystem) (dir declared : String) :
    Option String :=
  if fs.pathExists (joinPath dir declared) = .yes then some (joinPath dir declared)
  else
    let stem := binaryStem env.binaryExtensions declared
    if stem = "" then none
    else ((candidateNames env.binaryExtensions stem).map (joinPath dir)).find? fun candidate =>
      fs.pathExists candidate = .yes

def plausiblePluginBinaryName (name : String) : Bool :=
  endsWith name ".so" || endsWith name ".dylib" || endsWith name ".dll"

/-! ## Discovery -/

inductive DiscoveryRejectionCode
  | unknown
  | cannotIterateSearchPath
  | manifestParseFailed
  | binaryNotFound
  | binaryUnrecognisedExtension
deriving DecidableEq, Repr

structure DiscoveryRejection where
  candidatePath : String
  reason : String
  code : DiscoveryRejectionCode := .unknown
  manifestCode : Option ManifestRejection := none
deriving DecidableEq, Repr

/-- `DiscoveredPlugin`, with all of its fields. -/
structure FoundPlugin where
  manifestPath : String
  binaryPath : String
  manifest : PluginManifest
deriving DecidableEq

/-- What of it the loader reads. -/
def FoundPlugin.forLoader (p : FoundPlugin) : DiscoveredPlugin where
  binaryPath := p.binaryPath
  manifest := p.manifest.forLoader

structure DiscoveryReport where
  loaded : List FoundPlugin := []
  rejected : List DiscoveryRejection := []
deriving DecidableEq

/-- The TOML library. -/
structure TomlLibrary where
  parse : String → Except TomlError TomlNode
  valueInt64 : TomlNode → Option Int64

section

variable (env : HostEnvironment) (toml : TomlLibrary) (fs : FileSystem)

def parseManifestFile (path : String) : Except ParseError PluginManifest :=
  match fs.read path with
  | none => .error { code := .fileIo, message := "cannot open manifest '" ++ path ++ "'" }
  | some text => parseManifest toml.parse toml.valueInt64 text

def manifestPathOf (dir : String) : String := joinPath dir "souxmar-plugin.toml"

/-- A directory with a manifest: a plugin, or why it is none. -/
def examine (dir : String) : Except DiscoveryRejection FoundPlugin :=
  match parseManifestFile toml fs (manifestPathOf dir) with
  | .error err => .error
      { candidatePath := manifestPathOf dir, reason := err.message, code := .manifestParseFailed
        manifestCode := some err.code }
  | .ok manifest =>
    match resolvePluginBinary env fs dir manifest.binaryFile with
    | none => .error
        { candidatePath := manifestPathOf dir
          reason := "declared binary '" ++ manifest.binaryFile ++ "' does not exist at '" ++
            joinPath dir manifest.binaryFile ++ "'"
          code := .binaryNotFound }
    | some binaryPath =>
      if plausiblePluginBinaryName (filename binaryPath) then
        .ok { manifestPath := manifestPathOf dir, binaryPath, manifest }
      else .error
        { candidatePath := manifestPathOf dir
          reason := "binary '" ++ manifest.binaryFile ++
            "' has unrecognised extension; expected .so / .dylib / .dll"
          code := .binaryUnrecognisedExtension }

/-- The tests of an entry, up to the first that does not say yes. -/
def DirectoryEntry.check (e : DirectoryEntry) : Check :=
  match e.isDirectory with
  | .yes => fs.pathExists (manifestPathOf e.path)
  | answer => answer

def DiscoveryReport.add (report : DiscoveryReport) :
    Except DiscoveryRejection FoundPlugin → DiscoveryReport
  | .error r => { report with rejected := report.rejected ++ [r] }
  | .ok p => { report with loaded := report.loaded ++ [p] }

def cannotIterate (root message : String) : DiscoveryRejection where
  candidatePath := root
  reason := "cannot iterate: " ++ message
  code := .cannotIterateSearchPath

/-- The loop over the entries of a search path, with the error code that the last test has left. -/
def scan (root : String) : Option String → List DirectoryEntry → DiscoveryReport → DiscoveryReport
  | _, [], report => report
  | some message, _ :: _, report => report.add (.error (cannotIterate root message))
  | none, e :: es, report =>
    match e.check fs with
    | .failed message => scan root (some message) es report
    | .no => scan root none es report
    | .yes => scan root none es (report.add (examine env toml fs e.path))

/-- A search path that is missing or no directory holds no plugins. -/
def discoverIn (report : DiscoveryReport) (root : String) : DiscoveryReport :=
  match fs.entries root with
  | none => report
  | some es => scan env toml fs root none es report

def discoverPlugins (searchPaths : List String) : DiscoveryReport :=
  searchPaths.foldl (discoverIn env toml fs) {}

end

/-! ## What is found -/

/-- The test did not fail. -/
def Check.answered : Check → Bool
  | .failed _ => false
  | _ => true

section

variable (env : HostEnvironment) (toml : TomlLibrary) (fs : FileSystem)

/-- The plugin in a directory entry, if it is one. -/
def pluginAt (e : DirectoryEntry) : Option FoundPlugin :=
  if e.check fs = .yes then (examine env toml fs e.path).toOption else none

/-- The plugins of a search path are those before the first entry whose test fails. -/
theorem scan_loaded (root : String) (es : List DirectoryEntry) (report : DiscoveryReport) :
    (scan env toml fs root none es report).loaded =
      report.loaded ++ (es.takeWhile fun e => (e.check fs).answered).filterMap (pluginAt env toml fs) := by
  induction es generalizing report with
  | nil => simp [scan]
  | cons e es ih =>
    rw [scan, List.takeWhile_cons]
    cases hcheck : e.check fs with
    | failed message => cases es <;> simp [scan, DiscoveryReport.add, Check.answered]
    | no =>
      dsimp only
      rw [ih]
      simp [Check.answered, pluginAt, hcheck]
    | yes =>
      dsimp only
      rw [ih]
      cases hexamine : examine env toml fs e.path with
      | error r => simp [Check.answered, pluginAt, hcheck, hexamine, DiscoveryReport.add, Except.toOption]
      | ok p => simp [Check.answered, pluginAt, hcheck, hexamine, DiscoveryReport.add, Except.toOption]

/-- The plugins under one search path. -/
def pluginsUnder (root : String) : List FoundPlugin :=
  (((fs.entries root).getD []).takeWhile fun e => (e.check fs).answered).filterMap (pluginAt env toml fs)

theorem discoverIn_loaded (report : DiscoveryReport) (root : String) :
    (discoverIn env toml fs report root).loaded = report.loaded ++ pluginsUnder env toml fs root := by
  unfold discoverIn pluginsUnder
  cases fs.entries root with
  | none => simp
  | some es => exact scan_loaded env toml fs root es report

theorem discoverPlugins_loaded (searchPaths : List String) :
    (discoverPlugins env toml fs searchPaths).loaded =
      searchPaths.flatMap (pluginsUnder env toml fs) := by
  have hfold : ∀ (paths : List String) (report : DiscoveryReport),
      (paths.foldl (discoverIn env toml fs) report).loaded =
        report.loaded ++ paths.flatMap (pluginsUnder env toml fs) := by
    intro paths
    induction paths with
    | nil => simp
    | cons root paths ih =>
      intro report
      rw [List.foldl_cons, ih, discoverIn_loaded, List.flatMap_cons, List.append_assoc]
  exact hfold searchPaths {}

/-! ### What is rejected -/

/-- Why a directory entry with a manifest is no plugin. -/
def rejectionAt (e : DirectoryEntry) : Option DiscoveryRejection :=
  if e.check fs = .yes then
    match examine env toml fs e.path with
    | .error r => some r
    | .ok _ => none
  else none

/-- The loop stops at an entry that comes behind one whose test fails. -/
def stopAt (root : String) : List DirectoryEntry → List DiscoveryRejection
  | e :: _ :: _ =>
    match e.check fs with
    | .failed message => [cannotIterate root message]
    | _ => []
  | _ => []

theorem scan_rejected (root : String) (es : List DirectoryEntry) (report : DiscoveryReport) :
    (scan env toml fs root none es report).rejected = report.rejected ++
      (es.takeWhile fun e => (e.check fs).answered).filterMap (rejectionAt env toml fs) ++
      stopAt fs root (es.dropWhile fun e => (e.check fs).answered) := by
  induction es generalizing report with
  | nil => simp [scan, stopAt]
  | cons e es ih =>
    rw [scan, List.takeWhile_cons, List.dropWhile_cons]
    cases hcheck : e.check fs with
    | failed message => cases es <;> simp [scan, DiscoveryReport.add, Check.answered, stopAt, hcheck]
    | no =>
      dsimp only
      rw [ih]
      simp [Check.answered, rejectionAt, hcheck]
    | yes =>
      dsimp only
      rw [ih]
      cases hexamine : examine env toml fs e.path with
      | error r => simp [Check.answered, rejectionAt, hcheck, hexamine, DiscoveryReport.add]
      | ok p => simp [Check.answered, rejectionAt, hcheck, hexamine, DiscoveryReport.add]

/-- The rejections under one search path. -/
def rejectionsUnder (root : String) : List DiscoveryRejection :=
  (((fs.entries root).getD []).takeWhile fun e => (e.check fs).answered).filterMap
      (rejectionAt env toml fs) ++
    stopAt fs root (((fs.entries root).getD []).dropWhile fun e => (e.check fs).answered)

theorem discoverIn_rejected (report : DiscoveryReport) (root : String) :
    (discoverIn env toml fs report root).rejected =
      report.rejected ++ rejectionsUnder env toml fs root := by
  unfold discoverIn rejectionsUnder
  cases fs.entries root with
  | none => simp [stopAt]
  | some es => exact (scan_rejected env toml fs root es report).trans (List.append_assoc ..)

theorem discoverPlugins_rejected (searchPaths : List String) :
    (discoverPlugins env toml fs searchPaths).rejected =
      searchPaths.flatMap (rejectionsUnder env toml fs) := by
  have hfold : ∀ (paths : List String) (report : DiscoveryReport),
      (paths.foldl (discoverIn env toml fs) report).rejected =
        report.rejected ++ paths.flatMap (rejectionsUnder env toml fs) := by
    intro paths
    induction paths with
    | nil => simp
    | cons root paths ih =>
      intro report
      rw [List.foldl_cons, ih, discoverIn_rejected, List.flatMap_cons, List.append_assoc]
  exact hfold searchPaths {}

end

/-! ### Exactness -/

/-- The loop comes to the entry: no test before it fails. -/
def Reached (fs : FileSystem) (root : String) (e : DirectoryEntry) : Prop :=
  ∃ before after, fs.entries root = some (before ++ e :: after) ∧
    ∀ e' ∈ before, (e'.check fs).answered = true

/-- The first test that fails is not the one of the last entry. -/
def Stopped (fs : FileSystem) (root message : String) : Prop :=
  ∃ before e e' after, fs.entries root = some (before ++ e :: e' :: after) ∧
    (∀ e' ∈ before, (e'.check fs).answered = true) ∧ e.check fs = .failed message

theorem mem_takeWhile_iff {α : Type} {p : α → Bool} {l : List α} {a : α} :
    a ∈ l.takeWhile p ↔
      ∃ before after, l = before ++ a :: after ∧ (∀ b ∈ before, p b = true) ∧ p a = true := by
  constructor
  · intro h
    obtain ⟨before, after, hsplit⟩ := List.append_of_mem h
    have hall : ∀ b ∈ l.takeWhile p, p b = true := fun b hb => List.mem_takeWhile_imp hb
    refine ⟨before, after ++ l.dropWhile p, ?_, fun b hb => hall b ?_, hall a h⟩
    · calc
        l = l.takeWhile p ++ l.dropWhile p := List.takeWhile_append_dropWhile.symm
        _ = before ++ a :: (after ++ l.dropWhile p) := by simp [hsplit]
    · rw [hsplit]
      exact List.mem_append_left _ hb
  · rintro ⟨before, after, rfl, hbefore, ha⟩
    rw [List.takeWhile_append_of_pos hbefore, List.takeWhile_cons, if_pos ha]
    exact List.mem_append_right _ List.mem_cons_self

section

variable (env : HostEnvironment) (toml : TomlLibrary) (fs : FileSystem)

theorem mem_reached {root : String} {e : DirectoryEntry} (hcheck : e.check fs = .yes) :
    e ∈ ((fs.entries root).getD []).takeWhile (fun e => (e.check fs).answered) ↔ Reached fs root e := by
  rw [mem_takeWhile_iff]
  constructor
  · rintro ⟨before, after, hes, hbefore, -⟩
    cases hentries : fs.entries root with
    | none => simp [hentries] at hes
    | some es =>
      rw [hentries, Option.getD_some] at hes
      exact ⟨before, after, by rw [hentries, hes], hbefore⟩
  · rintro ⟨before, after, hes, hbefore⟩
    exact ⟨before, after, by rw [hes, Option.getD_some], hbefore, by rw [hcheck]; rfl⟩

theorem mem_stopAt {root : String} {r : DiscoveryRejection} :
    r ∈ stopAt fs root (((fs.entries root).getD []).dropWhile fun e => (e.check fs).answered) ↔
      ∃ message, Stopped fs root message ∧ r = cannotIterate root message := by
  constructor
  · intro h
    obtain ⟨rest, hrest⟩ :
        ∃ rest, ((fs.entries root).getD []).dropWhile (fun e => (e.check fs).answered) = rest := ⟨_, rfl⟩
    have hsplit := List.takeWhile_append_dropWhile (p := fun e => (e.check fs).answered)
      (l := (fs.entries root).getD [])
    rw [hrest] at h hsplit
    cases rest with
    | nil => cases h
    | cons e rest =>
      cases rest with
      | nil => cases h
      | cons e' after =>
        cases hcheck : e.check fs with
        | yes | no => simp [stopAt, hcheck] at h
        | failed message =>
          have hbefore : ∀ b ∈ ((fs.entries root).getD []).takeWhile (fun e => (e.check fs).answered),
              (b.check fs).answered = true := fun b hb =>
            List.mem_takeWhile_imp (p := fun e : DirectoryEntry => (e.check fs).answered) hb
          refine ⟨message, ⟨_, e, e', after, ?_, hbefore, hcheck⟩, by simpa [stopAt, hcheck] using h⟩
          cases hentries : fs.entries root with
          | none => simp [hentries] at hsplit
          | some es =>
            rw [hentries, Option.getD_some] at hsplit
            rw [Option.getD_some, hsplit]
  · rintro ⟨message, ⟨before, e, e', after, hes, hbefore, hcheck⟩, rfl⟩
    have hanswered : (e.check fs).answered = false := by rw [hcheck]; rfl
    rw [hes, Option.getD_some, List.dropWhile_append_of_pos hbefore, List.dropWhile_cons, hanswered]
    simp [stopAt, hcheck]

/-- **Discovery is exact.** The report has the plugins and the rejections of the directories that the loop
comes to, and one more rejection for each search path in which a test fails before the last entry. -/
theorem discovery_exact (searchPaths : List String) :
    (∀ p, p ∈ (discoverPlugins env toml fs searchPaths).loaded ↔ ∃ root ∈ searchPaths, ∃ e,
      Reached fs root e ∧ e.check fs = .yes ∧ examine env toml fs e.path = .ok p) ∧
    ∀ r, r ∈ (discoverPlugins env toml fs searchPaths).rejected ↔ ∃ root ∈ searchPaths,
      (∃ e, Reached fs root e ∧ e.check fs = .yes ∧ examine env toml fs e.path = .error r) ∨
        ∃ message, Stopped fs root message ∧ r = cannotIterate root message := by
  constructor
  · intro p
    rw [discoverPlugins_loaded, List.mem_flatMap]
    refine exists_congr fun root => and_congr_right fun _ => ?_
    rw [pluginsUnder, List.mem_filterMap]
    refine exists_congr fun e => ?_
    unfold pluginAt
    by_cases hcheck : e.check fs = .yes
    · rw [if_pos hcheck, mem_reached fs hcheck]
      cases examine env toml fs e.path <;> simp [Except.toOption, hcheck]
    · simp [hcheck]
  · intro r
    rw [discoverPlugins_rejected, List.mem_flatMap]
    refine exists_congr fun root => and_congr_right fun _ => ?_
    rw [rejectionsUnder, List.mem_append, List.mem_filterMap, mem_stopAt]
    refine or_congr_left (exists_congr fun e => ?_)
    unfold rejectionAt
    by_cases hcheck : e.check fs = .yes
    · rw [if_pos hcheck, mem_reached fs hcheck]
      cases examine env toml fs e.path <;> simp [hcheck]
    · simp [hcheck]

end

end Souxmar.PluginHost
