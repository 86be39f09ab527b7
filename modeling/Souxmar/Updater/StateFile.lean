import Souxmar.Updater.LogFormat
import Souxmar.Updater.ReportedWrites

/-!
# The state file

`load_update_state` of `update_state.cpp` reads the per-user state back through toml++. `load_saved` is the
round trip with `save_update_state`, for texts that need no escapes; `ReadsStates` says what is asked of
the TOML reader.
-/

namespace Souxmar.Updater

/-- A missing file is a fresh install. -/
def loadUpdateState (parse : TomlReader) (path : String) (file : Option FileText) :
    Except String UpdateState :=
  match file with
  | none => .ok {}
  | some text =>
    match parse text with
    | .error description => .error (path ++ ": " ++ description)
    | .ok root =>
      match root.lookup "schema" with
      | none => .error (path ++ ": missing required field 'schema'")
      | some node =>
        match node.valueInt with
        | none => .error (path ++ ": 'schema' must be an integer")
        | some schema =>
          if schema ≠ kUpdateStateSchemaV1 then
            .error (path ++ ": unsupported state-file schema " ++ toString schema ++
              " (this client understands " ++ toString kUpdateStateSchemaV1 ++ ")")
          else .ok
            { currentInstalledVersion := readStringField root "current_installed_version"
              maxVersionEverSeen := readStringField root "max_version_ever_seen"
              lastCheckAt := readStringField root "last_check_at"
              lastApplyAt := readStringField root "last_apply_at" }

structure UpdateState.Plain (s : UpdateState) : Prop where
  currentInstalledVersion : PlainText s.currentInstalledVersion
  maxVersionEverSeen : PlainText s.maxVersionEverSeen
  lastCheckAt : PlainText s.lastCheckAt
  lastApplyAt : PlainText s.lastApplyAt

/-- The fields of a state file. -/
def stateTable (s : UpdateState) : TomlTable :=
  [("schema", .int kUpdateStateSchemaV1),
    ("current_installed_version", .str s.currentInstalledVersion),
    ("max_version_ever_seen", .str s.maxVersionEverSeen),
    ("last_check_at", .str s.lastCheckAt), ("last_apply_at", .str s.lastApplyAt)]

/-- The reader finds the fields of a state whose texts need no escapes. -/
def ReadsStates (parse : TomlReader) : Prop :=
  ∀ s : UpdateState, s.Plain → ∃ root, parse (renderUpdateState s) = .ok root ∧
    ∀ field ∈ stateTable s, root.lookup field.1 = some field.2

/-- What is saved is loaded again. -/
theorem load_saved {parse : TomlReader} (hparse : ReadsStates parse) (path : String)
    {s : UpdateState} (hs : s.Plain) :
    loadUpdateState parse path (some (renderUpdateState s)) = .ok s := by
  obtain ⟨root, hroot, hfields⟩ := hparse s hs
  have hschema : root.lookup "schema" = some (.int kUpdateStateSchemaV1) :=
    hfields ("schema", _) (by simp [stateTable])
  have hstr : ∀ key v, (key, TomlNode.str v) ∈ stateTable s → readStringField root key = v := by
    intro key v hmem
    rw [readStringField, hfields _ hmem]
    rfl
  have hcurrent := hstr "current_installed_version" s.currentInstalledVersion (by simp [stateTable])
  have hmax := hstr "max_version_ever_seen" s.maxVersionEverSeen (by simp [stateTable])
  have hcheck := hstr "last_check_at" s.lastCheckAt (by simp [stateTable])
  have happly := hstr "last_apply_at" s.lastApplyAt (by simp [stateTable])
  have hint : (TomlNode.int kUpdateStateSchemaV1).valueInt = some kUpdateStateSchemaV1 := rfl
  simp only [loadUpdateState, hroot, hschema, hint, hcurrent, hmax, hcheck, happly]
  rfl

/-! ### The fragment reader -/

/-- The lines of a state file. -/
def stateLines (s : UpdateState) : List (List Char) :=
  ["# souxmar auto-updater per-user state. Schema is locked by".toList,
    "# ADR-0013; do not hand-edit unless you also bump `schema`.".toList,
    "schema                    = 1".toList,
    fieldLine "current_installed_version " s.currentInstalledVersion,
    fieldLine "max_version_ever_seen     " s.maxVersionEverSeen,
    fieldLine "last_check_at             " s.lastCheckAt,
    fieldLine "last_apply_at             " s.lastApplyAt]

theorem splitOn_renderUpdateState {s : UpdateState} (hs : s.Plain) :
    (renderUpdateState s).splitOn '\n' = stateLines s ++ [[]] := by
  have hnl : ∀ s : String, (s ++ "\n").toList = s.toList ++ ['\n'] := fun s => by
    rw [String.toList_append]
    rfl
  have hone := hnl "# souxmar auto-updater per-user state. Schema is locked by"
  have htwo := hnl "# ADR-0013; do not hand-edit unless you also bump `schema`."
  have hschema : "schema                    = 1".toList =
      "schema                    = ".toList ++ (toString kUpdateStateSchemaV1).toList := by decide
  have htext : renderUpdateState s = (stateLines s).flatMap (· ++ ['\n']) ++ [] := by
    unfold renderUpdateState stateLines
    rw [show "# souxmar auto-updater per-user state. Schema is locked by\n" =
        "# souxmar auto-updater per-user state. Schema is locked by" ++ "\n" from rfl,
      show "# ADR-0013; do not hand-edit unless you also bump `schema`.\n" =
        "# ADR-0013; do not hand-edit unless you also bump `schema`." ++ "\n" from rfl, hone, htwo,
      hschema]
    simp only [renderField_eq, List.flatMap_cons, List.flatMap_nil, List.append_assoc,
      List.append_nil]
  rw [htext, splitOn_lines]
  · rfl
  · intro line hline
    simp only [stateLines, List.mem_cons, List.not_mem_nil, or_false] at hline
    rcases hline with rfl | rfl | rfl | rfl | rfl | rfl | rfl
    · decide
    · decide
    · decide
    · exact notMem_newline_fieldLine (by decide) (notMem_newline_of_plain hs.currentInstalledVersion)
    · exact notMem_newline_fieldLine (by decide) (notMem_newline_of_plain hs.maxVersionEverSeen)
    · exact notMem_newline_fieldLine (by decide) (notMem_newline_of_plain hs.lastCheckAt)
    · exact notMem_newline_fieldLine (by decide) (notMem_newline_of_plain hs.lastApplyAt)

theorem tomlLine_named (key : String) (n : ℕ) {name : String} (value : String)
    (acc : TomlTable × List TomlNode)
    (hname : name.toList = key.toList ++ List.replicate (n + 1) ' ')
    (hkey : ∀ d ∈ key.toList, d ≠ ' ')
    (hhead : ∃ c, key.toList.head? = some c ∧ c ≠ '#' ∧ c ≠ '[') :
    tomlLine (fieldLine name value) acc = ((key, .str value) :: acc.1, acc.2) := by
  obtain ⟨c, hhead, hc⟩ := hhead
  cases hlist : key.toList with
  | nil => simp [hlist] at hhead
  | cons d ds =>
    rw [hlist] at hname hkey hhead
    obtain rfl := Option.some.inj hhead
    rw [tomlLine_field hname hkey hc, ← hlist, String.ofList_toList]

theorem foldr_tomlLine (lines : List (List Char)) :
    (lines ++ [[]]).foldr tomlLine ([], []) = lines.foldr tomlLine ([], []) := by
  rw [List.foldr_append]
  rfl

theorem foldr_stateLines (s : UpdateState) :
    (stateLines s).foldr tomlLine ([], []) = (stateTable s, []) := by
  have hcomment : ∀ acc,
      tomlLine "# souxmar auto-updater per-user state. Schema is locked by".toList acc = acc :=
    fun _ => rfl
  have hcomment' : ∀ acc,
      tomlLine "# ADR-0013; do not hand-edit unless you also bump `schema`.".toList acc = acc :=
    fun _ => rfl
  have hschema : ∀ acc, tomlLine "schema                    = 1".toList acc =
      (("schema", .int kUpdateStateSchemaV1) :: acc.1, acc.2) := fun _ => rfl
  rw [stateLines]
  simp only [List.foldr_cons, List.foldr_nil]
  rw [hcomment, hcomment', hschema,
    tomlLine_named "current_installed_version" 0 _ _ (by decide) (by decide) ⟨'c', rfl, by decide⟩,
    tomlLine_named "max_version_ever_seen" 4 _ _ (by decide) (by decide) ⟨'m', rfl, by decide⟩,
    tomlLine_named "last_check_at" 12 _ _ (by decide) (by decide) ⟨'l', rfl, by decide⟩,
    tomlLine_named "last_apply_at" 12 _ _ (by decide) (by decide) ⟨'l', rfl, by decide⟩]
  rfl

theorem tomlLines_readsStates : ReadsStates tomlLines := by
  intro s hs
  refine ⟨stateTable s ++ [("event", .arr [])], ?_, fun field hfield => ?_⟩
  · rw [tomlLines, splitOn_renderUpdateState hs, foldr_tomlLine, foldr_stateLines]
  · simp only [stateTable, List.mem_cons, List.not_mem_nil, or_false] at hfield
    rcases hfield with rfl | rfl | rfl | rfl | rfl <;> rfl

end Souxmar.Updater
