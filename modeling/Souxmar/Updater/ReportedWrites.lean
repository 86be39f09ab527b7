import Souxmar.Updater.Apply
import Souxmar.Updater.Fetcher

/-!
# What a reported write has written

Four functions of the updater put a temporary in the place of a file: by `rename`, or else by a copy.
`Delivers` is the condition on the steps that fail under which the file then holds the whole new content; each of
the four functions keeps its word exactly when it is met by the calls that report success.
-/

namespace Souxmar.Updater

/-! ## Saving the state -/

def kUpdateStateSchemaV1 : ℤ := 1

def renderUpdateState (s : UpdateState) : FileText :=
  "# souxmar auto-updater per-user state. Schema is locked by\n".toList ++
  "# ADR-0013; do not hand-edit unless you also bump `schema`.\n".toList ++
  "schema                    = ".toList ++ (toString kUpdateStateSchemaV1).toList ++ ['\n'] ++
  renderField "current_installed_version " s.currentInstalledVersion ++
  renderField "max_version_ever_seen     " s.maxVersionEverSeen ++
  renderField "last_check_at             " s.lastCheckAt ++
  renderField "last_apply_at             " s.lastApplyAt

/-- The faults of one save: creating the directory, and the write of the file. -/
structure StateFaults where
  createDir : Bool := false
  file : WriteFaults := {}
deriving DecidableEq, Repr

def saveUpdateState (f : StateFaults) (file : Option FileText) (s : UpdateState) : Bool × Option FileText :=
  if f.createDir then (false, file) else writeTmpRename f.file file (renderUpdateState s)

/-! ## Putting a temporary in place -/

/-- The target ends up with `content` when the temporary holds `tmp`. -/
def Delivers {α : Type} (rename : Bool) (copy : CopyFault) (old : Option (List α)) (tmp content : List α) :
    Prop :=
  match rename, copy with
  | false, _ => tmp = content
  | true, .done => tmp = content
  | true, .untouched => old = some content
  | true, .cut n => tmp.take n = content

theorem delivers_iff {α : Type} (rename : Bool) (copy : CopyFault) (old : Option (List α))
    (tmp content : List α) : Delivers rename copy old tmp content ↔
      (if rename then copyFile copy old tmp else some tmp) = some content := by
  cases rename with
  | false => simp [Delivers]
  | true => cases copy <;> simp [Delivers, copyFile]

/-- The write puts the whole content in place. -/
def WriteFaults.Delivers (f : WriteFaults) (old : Option FileText) (content : FileText) : Prop :=
  Updater.Delivers f.rename f.copy old (f.written content) content

theorem writeTmpRename_delivers_iff (f : WriteFaults) (old : Option FileText) (content : FileText) :
    ((writeTmpRename f old content).1 = true → (writeTmpRename f old content).2 = some content) ↔
      (f.reports = true → f.Delivers old content) := by
  rw [writeTmpRename_fst]
  refine imp_congr_right fun hreports => ?_
  have htmp : f.openTmp = false ∧ f.write = false := by
    unfold WriteFaults.reports at hreports
    cases hopen : f.openTmp <;> cases hwrite : f.write <;> simp_all
  unfold WriteFaults.Delivers writeTmpRename
  rw [delivers_iff, htmp.1, htmp.2, if_neg Bool.false_ne_true, if_neg Bool.false_ne_true]
  cases f.rename <;> rfl

/-! ## The four functions -/

theorem writeMarkerAtomic_delivers_iff (f : WriteFaults) (old : Option FileText) (content : String) :
    ((writeMarkerAtomic f old content).1 = true →
      (writeMarkerAtomic f old content).2 = some (content.toList ++ ['\n'])) ↔
    (f.reports = true → f.Delivers old (content.toList ++ ['\n'])) :=
  writeTmpRename_delivers_iff f old _

theorem saveUpdateState_delivers_iff (f : StateFaults) (old : Option FileText) (s : UpdateState) :
    ((saveUpdateState f old s).1 = true → (saveUpdateState f old s).2 = some (renderUpdateState s)) ↔
    (f.createDir = false → f.file.reports = true → f.file.Delivers old (renderUpdateState s)) := by
  unfold saveUpdateState
  cases f.createDir with
  | true => simp
  | false =>
    rw [if_neg Bool.false_ne_true, writeTmpRename_delivers_iff]
    exact ⟨fun h _ => h, fun h => h rfl⟩

theorem appendRollbackEvent_delivers_iff (parse : TomlReader) (f : LogFaults) (path : String)
    (old : Option FileText) (event : RollbackEvent) :
    ((appendRollbackEvent parse f path old event).1 = true →
      ∃ events, loadRollbackLog parse path old = .ok events ∧
        (appendRollbackEvent parse f path old event).2 = some (renderRollbackLog (events ++ [event]))) ↔
    (∀ events, loadRollbackLog parse path old = .ok events → f.createDir = false → f.file.reports = true →
      f.file.Delivers old (renderRollbackLog (events ++ [event]))) := by
  unfold appendRollbackEvent
  cases hload : loadRollbackLog parse path old with
  | error e =>
    exact ⟨(fun _ events hevents => nomatch hevents), (fun _ h => nomatch h)⟩
  | ok events =>
    have hone : ∀ {P : List RollbackEvent → Prop},
        (∀ events', (Except.ok events : Except String _) = .ok events' → P events') ↔ P events :=
      ⟨fun h => h events rfl, fun h events' heq => Except.ok.inj heq ▸ h⟩
    have hsome : ∀ {P : List RollbackEvent → Prop},
        (∃ events', (Except.ok events : Except String _) = .ok events' ∧ P events') ↔ P events :=
      ⟨fun ⟨events', heq, h⟩ => Except.ok.inj heq ▸ h, fun h => ⟨events, rfl, h⟩⟩
    rw [hone, hsome]
    dsimp only
    cases f.createDir with
    | true => simp
    | false =>
      rw [if_neg Bool.false_ne_true, writeTmpRename_delivers_iff]
      exact ⟨fun h _ => h, fun h => h rfl⟩

theorem fetchToFile_delivers_iff (opts : FetcherOptions) (url parent dest : String) (d : Download)
    (old : Option (List UInt8)) :
    ((∃ got, (fetchToFile opts url parent dest d old).1 = .ok got) →
      (fetchToFile opts url parent dest d old).2 = some d.body) ↔
    (∀ bytes, d.Arrives opts url → d.Places bytes → Delivers d.rename d.copy old bytes d.body) := by
  by_cases harrives : d.Arrives opts url
  · rw [fetchToFile_arrives harrives parent]
    constructor
    · intro h bytes _ hplaces
      have hplaced : placeDownload d dest old = (.ok ⟨dest, bytes.length⟩,
          if d.rename then copyFile d.copy old bytes else some bytes) :=
        placeDownload_ok_iff.mpr ⟨bytes, hplaces, rfl, rfl⟩
      have hbody := h ⟨⟨dest, bytes.length⟩, congrArg Prod.fst hplaced⟩
      rw [hplaced] at hbody
      exact (delivers_iff ..).mpr hbody
    · rintro h ⟨got, hgot⟩
      obtain ⟨bytes, hplaces, -, hfile⟩ := placeDownload_ok_iff.mp (Prod.ext hgot rfl)
      exact hfile.trans ((delivers_iff ..).mp (h bytes harrives hplaces))
  · obtain ⟨e, he⟩ := @fetchToFile_not_arrives d dest old opts url harrives parent
    rw [he]
    exact ⟨fun _ _ h => absurd h harrives, fun _ h => nomatch h⟩

/-- Whenever success is reported the file holds the new content: so it is for exactly those faults. -/
theorem reported_writes_iff (parse : TomlReader) (opts : FetcherOptions) (f : WriteFaults) (stateFaults : StateFaults)
    (logFaults : LogFaults) (d : Download) (content path url parent dest : String) (state : UpdateState)
    (event : RollbackEvent) (old : Option FileText) (oldBytes : Option (List UInt8)) :
    (((writeMarkerAtomic f old content).1 = true →
        (writeMarkerAtomic f old content).2 = some (content.toList ++ ['\n'])) ↔
      (f.reports = true → f.Delivers old (content.toList ++ ['\n']))) ∧
    (((saveUpdateState stateFaults old state).1 = true →
        (saveUpdateState stateFaults old state).2 = some (renderUpdateState state)) ↔
      (stateFaults.createDir = false → stateFaults.file.reports = true →
        stateFaults.file.Delivers old (renderUpdateState state))) ∧
    (((appendRollbackEvent parse logFaults path old event).1 = true →
        ∃ events, loadRollbackLog parse path old = .ok events ∧
          (appendRollbackEvent parse logFaults path old event).2 = some (renderRollbackLog (events ++ [event]))) ↔
      (∀ events, loadRollbackLog parse path old = .ok events → logFaults.createDir = false →
        logFaults.file.reports = true → logFaults.file.Delivers old (renderRollbackLog (events ++ [event])))) ∧
    (((∃ got, (fetchToFile opts url parent dest d oldBytes).1 = .ok got) →
        (fetchToFile opts url parent dest d oldBytes).2 = some d.body) ↔
      (∀ bytes, d.Arrives opts url → d.Places bytes → Delivers d.rename d.copy oldBytes bytes d.body)) :=
  ⟨writeMarkerAtomic_delivers_iff f old content, saveUpdateState_delivers_iff stateFaults old state,
    appendRollbackEvent_delivers_iff parse logFaults path old event,
    fetchToFile_delivers_iff opts url parent dest d oldBytes⟩

/-- The copy fails and the temporary is removed; the disk is full when the stream is closed; curl is killed
in the middle of a download. -/
theorem reported_write_lost :
    writeMarkerAtomic { rename := true, copy := .untouched } none "2.0.0" = (true, none) ∧
    (saveUpdateState { file := { flush := some 0 } } none {}).1 = true ∧
    (saveUpdateState { file := { flush := some 0 } } none {}).2 = some [] ∧
    renderUpdateState {} ≠ [] ∧
    fetchToFile {} "https://example.com/a" "" "a" { body := [1, 2], ending := .killed 9, temporary := some [1] }
      none = (.ok ⟨"a", 1⟩, some [1]) :=
  ⟨rfl, rfl, rfl, by decide, by decide⟩

end Souxmar.Updater
