import Souxmar.Updater.LogFormat
import Souxmar.Updater.Session

/-!
# The layout between calls

When every file-system step succeeds, an install is in one of three phases: nothing is installed, one
version is and there is nothing to go back to, or two versions are, the current and the previous one
(`Phase`). An apply moves to the next phase and collects what neither marker names; a rollback swaps the
two versions. `layout_invariant` reads the markers, the version directories and the update state off the
phase.
-/

namespace Souxmar.Updater

open Souxmar.Lib

/-! ### Garbage collection without faults -/

namespace InstallLayout

theorem lookup_removeAll_done (version v : String) (versions : Dict String (Option (List UInt8))) :
    (removeAll .done version versions).2.lookup v =
      if v = version then none else versions.lookup v := by
  unfold removeAll
  by_cases hv : v = version
  · subst hv
    by_cases hmem : v ∈ versions
    · simp [hmem]
    · simp [hmem, AList.lookup_eq_none.mpr hmem]
  · rw [if_neg hv]
    split_ifs
    · exact AList.lookup_erase_ne hv
    · rfl

/-- The versions that a garbage collection leaves alone. -/
def Referenced (l : InstallLayout) (v : String) : Prop :=
  v = "" ∨ v = l.readCurrentVersion ∨ v = l.readPreviousVersion

instance (l : InstallLayout) (v : String) : Decidable (l.Referenced v) :=
  inferInstanceAs (Decidable (v = "" ∨ v = l.readCurrentVersion ∨ v = l.readPreviousVersion))

theorem lookup_removeVersion_done (version v : String) (l : InstallLayout)
    (hver : ¬l.Referenced version) :
    (l.removeVersion .done version).2.versions.lookup v =
      if v = version then none else l.versions.lookup v := by
  unfold Referenced at hver
  push Not at hver
  unfold removeVersion
  rw [if_neg hver.1, if_neg hver.2.1, if_neg hver.2.2]
  exact lookup_removeAll_done version v l.versions

theorem removeVersion_referenced (f : RemoveFault) {version : String} {l : InstallLayout}
    (hver : l.Referenced version) : (l.removeVersion f version).2 = l := by
  unfold removeVersion
  rcases hver with h | h | h
  · rw [if_pos h]
  · split_ifs <;> rfl
  · split_ifs <;> rfl

theorem SameFiles.referenced {l l' : InstallLayout} (h : SameFiles l l') (v : String) :
    l'.Referenced v ↔ l.Referenced v := by
  unfold Referenced readCurrentVersion readPreviousVersion
  rw [h.current, h.previous]

theorem lookup_gcLoop_done (vs : List String) (l : InstallLayout) (v : String) :
    (gcLoop (fun _ => .done) [] l.readCurrentVersion l.readPreviousVersion vs l).2.versions.lookup v =
      if v ∈ vs ∧ ¬l.Referenced v then none else l.versions.lookup v := by
  induction vs generalizing l with
  | nil => simp [gcLoop]
  | cons w vs ih =>
    unfold gcLoop
    by_cases hmarked : w = l.readCurrentVersion ∨ w = l.readPreviousVersion
    · have href : l.Referenced w := .inr hmarked
      rw [if_pos hmarked, ih]
      refine if_congr ?_ rfl rfl
      by_cases hv : v = w
      · subst hv
        simp [href]
      · simp [hv]
    · rw [if_neg hmarked, if_neg List.not_mem_nil]
      have hfiles := removeVersion_sameFiles .done w l
      have hcurrent : (l.removeVersion .done w).2.readCurrentVersion = l.readCurrentVersion := by
        rw [readCurrentVersion, hfiles.current, readCurrentVersion]
      have hprevious : (l.removeVersion .done w).2.readPreviousVersion = l.readPreviousVersion := by
        rw [readPreviousVersion, hfiles.previous, readPreviousVersion]
      have hrest := ih (l.removeVersion .done w).2
      rw [hcurrent, hprevious] at hrest
      dsimp only
      rw [hrest]
      by_cases href : l.Referenced w
      · rw [removeVersion_referenced .done href]
        refine if_congr ?_ rfl rfl
        by_cases hv : v = w
        · subst hv
          simp [href]
        · simp [hv]
      · rw [lookup_removeVersion_done w v l href]
        by_cases hv : v = w
        · subst hv
          simp [href]
        · rw [if_neg hv]
          refine if_congr ?_ rfl rfl
          simp [hv, hfiles.referenced]

theorem lookup_gc_done (l : InstallLayout) (v : String) :
    (l.gcUnreferenced (fun _ => .done) []).2.versions.lookup v =
      if l.Referenced v then l.versions.lookup v else none := by
  unfold gcUnreferenced
  rw [lookup_gcLoop_done]
  by_cases href : l.Referenced v
  · simp [href]
  · by_cases hmem : v ∈ l.listVersions
    · simp [href, hmem]
    · have hnone : l.versions.lookup v = none := AList.lookup_eq_none.mpr hmem
      simp [href, hmem, hnone]

theorem lookup_stage_ok {version : String} (hver : version ≠ "") (bytes : List UInt8)
    (l : InstallLayout) (v : String) :
    (l.stageVersion {} version bytes).2.versions.lookup v =
      if v = version then some (some bytes) else l.versions.lookup v := by
  have hremoved : (removeAll .done version l.versions).1 = true := by
    unfold removeAll
    split_ifs <;> rfl
  simp only [stageVersion, if_neg hver, writePayloadAtomic, hremoved, Bool.false_eq_true, if_false,
    Bool.not_true]
  by_cases hv : v = version
  · subst hv
    simp
  · rw [if_neg hv, AList.lookup_insert_ne hv, lookup_removeAll_done, if_neg hv]

end InstallLayout

/-! ### Calls without faults -/

/-- What an apply appends to the log. -/
def applyEvent (ctx : ApplyContext) (u : UpdateApply) (fromVersion : String) : RollbackEvent where
  timestamp := formatRfc3339Utc ctx.clock.atEvent
  type := .apply
  fromVersion := fromVersion
  toVersion := u.version
  artifactSha256 := u.artifact.sha256
  publicKeyId := ctx.manifest.signing.publicKeyId

/-- What a rollback appends to the log. -/
def rollbackEvent (now : TimePoint) (current target : String) : RollbackEvent where
  timestamp := formatRfc3339Utc now
  type := .rollback
  fromVersion := current
  toVersion := target

/-- A file that holds a version as a marker. -/
def markerText (version : String) : Option FileText := some (version.toList ++ ['\n'])

/-- What an apply of a verified artifact leaves behind when no step fails. -/
structure AppliedCleanly (env : Env) (ctx : ApplyContext) (u : UpdateApply) (s s' : Host) : Prop where
  state : s'.state = { s.state with
    currentInstalledVersion := u.version
    maxVersionEverSeen := raiseFloor u.version s.state.maxVersionEverSeen
    lastApplyAt := formatRfc3339Utc ctx.clock.atEvent }
  current : s'.layout.current = markerText u.version
  previous : s'.layout.previous =
    if s.layout.readCurrentVersion ≠ "" then markerText s.layout.readCurrentVersion
    else s.layout.previous
  log : s'.layout.log = (appendRollbackEvent env.parse {} (rollbackLogPath s.layout) s.layout.log
    (applyEvent ctx u s.layout.readCurrentVersion)).2
  versions : ∀ v, s'.layout.versions.lookup v =
    if s'.layout.Referenced v then
      if v = u.version then some (some ctx.artifactBytes) else s.layout.versions.lookup v
    else none

theorem applyUpdate_clean {env : Env} {ctx : ApplyContext} {s : Host} {u : UpdateApply}
    (hu : Verified env ctx s.state u) (hbytes : ctx.artifactBytes ≠ []) :
    AppliedCleanly env ctx u s (applyUpdate env {} ctx s).2 := by
  rw [applyUpdate_verified hu]
  have hne := hu.version_ne_empty
  have hstaged : (s.layout.stageVersion {} u.version ctx.artifactBytes).1 = true :=
    (InstallLayout.stageVersion_fst _ _ _ _).mpr ⟨hne, rfl, fun _ => rfl, rfl⟩
  have hlookup := InstallLayout.lookup_stage_ok hne ctx.artifactBytes s.layout
  have hfiles := InstallLayout.stageVersion_sameFiles {} u.version ctx.artifactBytes s.layout
  obtain ⟨layout, hlayout⟩ :
      ∃ layout, (s.layout.stageVersion {} u.version ctx.artifactBytes).2 = layout := ⟨_, rfl⟩
  rw [hlayout] at hlookup hfiles
  have hpay : layout.hasVersionPayload u.version = true := by
    rw [InstallLayout.hasVersionPayload, InstallLayout.payload, hlookup, if_pos rfl]
    simpa [List.length_pos_iff] using hbytes
  have hcurrent : layout.readCurrentVersion = s.layout.readCurrentVersion := by
    rw [InstallLayout.readCurrentVersion, hfiles.current, InstallLayout.readCurrentVersion]
  have hswitch := InstallLayout.atomicSwitchTo_ok layout.readCurrentVersion hne hpay
  have hpath : rollbackLogPath layout = rollbackLogPath s.layout := by
    rw [rollbackLogPath, hfiles.root, rollbackLogPath]
  simp only [applyVerified, hstaged, hlayout, hswitch, Bool.not_true, Bool.false_eq_true, if_false]
  -- what the garbage collection finds
  obtain ⟨switched, hswitched⟩ : ∃ l : InstallLayout, { layout with
      previous := if layout.readCurrentVersion ≠ "" then
        some (layout.readCurrentVersion.toList ++ ['\n']) else layout.previous
      current := some (u.version.toList ++ ['\n']) } = l := ⟨_, rfl⟩
  rw [hswitched]
  have hlog := InstallLayout.gcUnreferenced_sameFiles (fun _ => .done) []
    { switched with log := (appendRollbackEvent env.parse {} (rollbackLogPath switched) switched.log
        (applyEvent ctx u layout.readCurrentVersion)).2 }
  subst hswitched
  refine ⟨rfl, hlog.current, ?_, ?_, fun v => ?_⟩
  · refine hlog.previous.trans ?_
    rw [hcurrent, hfiles.previous]
    rfl
  · refine hlog.log.trans ?_
    show (appendRollbackEvent env.parse {} (rollbackLogPath layout) layout.log
      (applyEvent ctx u layout.readCurrentVersion)).2 = _
    rw [hcurrent, hfiles.log, hpath]
  · refine (InstallLayout.lookup_gc_done _ v).trans ?_
    rw [← hlookup v]
    exact if_congr (hlog.referenced v).symm rfl rfl

theorem rollback_clean {env : Env} {s : Host} {target : String} (now : TimePoint)
    (hcurrent : s.layout.readCurrentVersion ≠ "") (hprevious : s.layout.readPreviousVersion = target)
    (hne : target ≠ "") (hpay : s.layout.hasVersionPayload target = true) :
    (rollback env {} now s).2 =
      { layout := { s.layout with
          current := markerText target
          previous := markerText s.layout.readCurrentVersion
          log := (appendRollbackEvent env.parse {} (rollbackLogPath s.layout) s.layout.log
            (rollbackEvent now s.layout.readCurrentVersion target)).2 }
        state := { s.state with
          currentInstalledVersion := target
          lastApplyAt := formatRfc3339Utc now } } := by
  have htarget : rollbackTarget env s.layout = .ok target := by
    rw [rollbackTarget, hprevious, if_pos hne]
  have hswitch := InstallLayout.atomicSwitchTo_ok s.layout.readCurrentVersion hne hpay
  simp only [rollback, if_neg hcurrent, htarget, rollbackTo, hpay, hswitch, Bool.not_true,
    Bool.false_eq_true, if_false]
  simp only [finishRollback, if_pos hcurrent]
  rfl

/-! ### The phases of an install -/

/-- A call all of whose file-system steps succeed. -/
def Op.Clean : Op → Prop
  | .check _ _ _ _ saved => saved = true
  | .apply ctx f saved => f = {} ∧ saved = true ∧ PlainText ctx.manifest.signing.publicKeyId
  | .rollback _ f saved => f = {} ∧ saved = true

/-- An apply is given bytes, and the update state's own version as the current one. -/
def Op.Current (s : Host) : Op → Prop
  | .apply ctx _ _ =>
    ctx.artifactBytes ≠ [] ∧ ctx.currentVersion = s.state.currentInstalledVersion
  | _ => True

/-- A marker file with a version on its line. -/
structure Marks (file : Option FileText) (version : String) : Prop where
  text : file = markerText version
  version : ∃ x, versionOf version = some x

theorem Marks.read {file : Option FileText} {version : String} (h : Marks file version) :
    readOneLine file = version := by
  obtain ⟨x, hx⟩ := h.version
  rw [h.text, markerText, readOneLine_marker (stripped_of_versionOf hx)]

theorem Marks.ne_empty {file : Option FileText} {version : String} (h : Marks file version) :
    version ≠ "" := by
  obtain ⟨x, hx⟩ := h.version
  exact ne_empty_of_versionOf hx

/-- What is installed, and what there is to go back to. -/
inductive Phase (s : Host) : Prop
  | fresh (current : s.layout.current = none) (previous : s.layout.previous = none)
    (versions : ∀ v, s.layout.versions.lookup v = none) (log : s.layout.log = logText [])
    (state : s.state.currentInstalledVersion = "")
  | first (c : String) (e : RollbackEvent) (current : Marks s.layout.current c)
    (previous : s.layout.previous = none)
    (versions : ∀ v, v ∈ s.layout.versions ↔ v = c)
    (payload : s.layout.hasVersionPayload c = true) (log : s.layout.log = logText [e])
    (plain : e.Plain) (fromVersion : e.fromVersion = "")
    (state : s.state.currentInstalledVersion = c)
  | both (c p : String) (current : Marks s.layout.current c) (previous : Marks s.layout.previous p)
    (distinct : p ≠ c) (versions : ∀ v, v ∈ s.layout.versions ↔ v = c ∨ v = p)
    (payload : s.layout.hasVersionPayload c = true) (payload' : s.layout.hasVersionPayload p = true)
    (state : s.state.currentInstalledVersion = c)

theorem Phase.current_eq {s : Host} (h : Phase s) :
    s.layout.readCurrentVersion = s.state.currentInstalledVersion := by
  unfold InstallLayout.readCurrentVersion
  cases h with
  | fresh current previous versions log state =>
    rw [current, state]
    decide
  | first c e current previous versions payload log plain fromVersion state =>
    rw [current.read, state]
  | both c p current previous distinct versions payload payload' state =>
    rw [current.read, state]

theorem Phase.of_same {s s' : Host} (h : Phase s) (hlayout : s'.layout = s.layout)
    (hstate : s'.state.currentInstalledVersion = s.state.currentInstalledVersion) : Phase s' := by
  cases h with
  | fresh current previous versions log state =>
    exact .fresh (hlayout ▸ current) (hlayout ▸ previous) (hlayout ▸ versions) (hlayout ▸ log)
      (hstate.trans state)
  | first c e current previous versions payload log plain fromVersion state =>
    exact .first c e (hlayout ▸ current) (hlayout ▸ previous) (hlayout ▸ versions)
      (hlayout ▸ payload) (hlayout ▸ log) plain fromVersion (hstate.trans state)
  | both c p current previous distinct versions payload payload' state =>
    exact .both c p (hlayout ▸ current) (hlayout ▸ previous) distinct (hlayout ▸ versions)
      (hlayout ▸ payload) (hlayout ▸ payload') (hstate.trans state)

section

variable {env : Env} {ctx : ApplyContext} {u : UpdateApply} {s s' : Host}

theorem Verified.marks (hu : Verified env ctx s.state u) : Marks (markerText u.version) u.version :=
  ⟨rfl, hu.accepts.floor.1⟩

theorem Verified.newer (hu : Verified env ctx s.state u) {c : String}
    (hcurrent : ctx.currentVersion = c) (hne : c ≠ "") : c ≠ u.version := by
  obtain ⟨v, hv, hcur, -⟩ := hu.accepts.offered
  rw [← hu.accepts.version] at hv
  rcases hcur with hempty | ⟨x, hx, hlt⟩
  · exact absurd (hcurrent.symm.trans hempty) hne
  · intro heq
    rw [show ctx.currentVersion = u.version from hcurrent.trans heq] at hx
    obtain rfl := Option.some.inj (hv.symm.trans hx)
    exact lt_irrefl _ hlt

theorem applyEvent_plain (hu : Verified env ctx s.state u)
    (hhex : ∀ bytes, PlainText (env.sha256Hex bytes))
    (hkey : PlainText ctx.manifest.signing.publicKeyId) {fromVersion : String}
    (hfrom : PlainText fromVersion) : (applyEvent ctx u fromVersion).Plain where
  timestamp := plainText_formatRfc3339Utc _
  fromVersion := hfrom
  toVersion := by
    obtain ⟨x, hx⟩ := hu.accepts.floor.1
    exact plainText_of_versionOf hx
  artifactSha256 := by
    show PlainText u.artifact.sha256
    rw [← hu.sha256]
    exact hhex ctx.artifactBytes
  publicKeyId := hkey

theorem AppliedCleanly.both (h : AppliedCleanly env ctx u s s') (hu : Verified env ctx s.state u)
    {c : String} (hcurrent : Marks s.layout.current c) (hdistinct : c ≠ u.version)
    (hbytes : ctx.artifactBytes ≠ []) (hempty : "" ∉ s.layout.versions)
    (hpay : s.layout.hasVersionPayload c = true) : Phase s' := by
  have hc : s.layout.readCurrentVersion = c := hcurrent.read
  have hcurrent' : Marks s'.layout.current u.version := ⟨h.current, hu.accepts.floor.1⟩
  have hprevious' : Marks s'.layout.previous c := by
    refine ⟨?_, hcurrent.version⟩
    rw [h.previous, hc, if_pos hcurrent.ne_empty]
  have href : ∀ v, s'.layout.Referenced v ↔ v = "" ∨ v = u.version ∨ v = c := by
    intro v
    unfold InstallLayout.Referenced InstallLayout.readCurrentVersion
      InstallLayout.readPreviousVersion
    rw [hcurrent'.read, hprevious'.read]
  have hlookup : ∀ v, s'.layout.versions.lookup v = if v = "" ∨ v = u.version ∨ v = c then
      if v = u.version then some (some ctx.artifactBytes) else s.layout.versions.lookup v
      else none := fun v => (h.versions v).trans (if_congr (href v) rfl rfl)
  have hmemc : c ∈ s.layout.versions := by
    by_contra hnot
    rw [InstallLayout.hasVersionPayload, InstallLayout.payload, AList.lookup_eq_none.mpr hnot] at hpay
    cases hpay
  refine .both u.version c hcurrent' hprevious' hdistinct (fun v => ?_) ?_ ?_ ?_
  · rw [← AList.lookup_isSome, hlookup]
    by_cases hvu : v = u.version
    · simp [hvu]
    · by_cases hvc : v = c
      · simp [hvc, hdistinct, AList.lookup_isSome, hmemc]
      · by_cases hve : v = ""
        · have hnone := AList.lookup_eq_none.mpr hempty
          have hne := hu.version_ne_empty
          subst hve
          simp [hne.symm, hcurrent.ne_empty.symm, hnone]
        · simp [hvu, hvc, hve]
  · rw [InstallLayout.hasVersionPayload, InstallLayout.payload, hlookup, if_pos (.inr (.inl rfl)),
      if_pos rfl]
    simpa [List.length_pos_iff] using hbytes
  · rw [InstallLayout.hasVersionPayload, InstallLayout.payload, hlookup, if_pos (.inr (.inr rfl)),
      if_neg hdistinct]
    exact hpay
  · rw [h.state]

theorem AppliedCleanly.first (h : AppliedCleanly env ctx u s s') (hu : Verified env ctx s.state u)
    (hreads : ReadsLogs env.parse) (hhex : ∀ bytes, PlainText (env.sha256Hex bytes))
    (hkey : PlainText ctx.manifest.signing.publicKeyId) (hbytes : ctx.artifactBytes ≠ [])
    (hcurrent : s.layout.current = none) (hprevious : s.layout.previous = none)
    (hversions : ∀ v, s.layout.versions.lookup v = none) (hlog : s.layout.log = logText []) :
    Phase s' := by
  have hc : s.layout.readCurrentVersion = "" := by
    rw [InstallLayout.readCurrentVersion, hcurrent]
    decide
  have hcurrent' : Marks s'.layout.current u.version := ⟨h.current, hu.accepts.floor.1⟩
  have hprevious' : s'.layout.previous = none := by
    rw [h.previous, hc, if_neg (by decide), hprevious]
  have href : ∀ v, s'.layout.Referenced v ↔ v = "" ∨ v = u.version := by
    intro v
    unfold InstallLayout.Referenced InstallLayout.readCurrentVersion
      InstallLayout.readPreviousVersion
    rw [hcurrent'.read, hprevious', show readOneLine none = "" by decide]
    tauto
  have hlookup : ∀ v, s'.layout.versions.lookup v =
      if v = u.version then some (some ctx.artifactBytes) else none := by
    intro v
    rw [h.versions v, hversions]
    by_cases hv : v = u.version
    · simp [hv, href]
    · simp [hv]
  refine .first u.version (applyEvent ctx u "") hcurrent' hprevious' (fun v => ?_) ?_ ?_ ?_ rfl ?_
  · rw [← AList.lookup_isSome, hlookup]
    by_cases hv : v = u.version <;> simp [hv]
  · rw [InstallLayout.hasVersionPayload, InstallLayout.payload, hlookup, if_pos rfl]
    simpa [List.length_pos_iff] using hbytes
  · have hnil : ∀ e ∈ ([] : List RollbackEvent), e.Plain := fun _ he => by cases he
    rw [h.log, hlog, hc, append_logText hreads _ hnil, List.nil_append]
  · exact applyEvent_plain hu hhex hkey plainText_empty
  · rw [h.state]

end

theorem rollbackTarget_first {env : Env} (hreads : ReadsLogs env.parse) {l : InstallLayout}
    {e : RollbackEvent} (hprevious : l.previous = none) (hlog : l.log = logText [e]) (hplain : e.Plain)
    (hfrom : e.fromVersion = "") : ∃ detail, rollbackTarget env l = .error detail := by
  have hp : l.readPreviousVersion = "" := by
    rw [InstallLayout.readPreviousVersion, hprevious]
    decide
  have hload : loadRollbackLog env.parse (rollbackLogPath l) l.log = .ok [e] := by
    rw [hlog]
    exact load_logText hreads _ fun e' he' => List.mem_singleton.mp he' ▸ hplain
  have hfind : findRollbackTarget [e] l.readCurrentVersion = "" := by
    simp [findRollbackTarget, hfrom]
  refine ⟨"no Apply event in rollback log names '" ++ l.readCurrentVersion ++ "' as to_version", ?_⟩
  rw [rollbackTarget, if_neg (by simp [hp])]
  simp only [hload, hfind]

theorem phase_step {env : Env} (hreads : ReadsLogs env.parse)
    (hhex : ∀ bytes, PlainText (env.sha256Hex bytes)) {s : Host} {op : Op} (h : Phase s)
    (hclean : op.Clean) (hcurrent : op.Current s) : Phase (step env s op) := by
  cases op with
  | check m currentVersion host clock saved =>
    obtain rfl : saved = true := hclean
    exact h.of_same rfl (cmdUpdateCheck_floor m currentVersion host clock s.state).1
  | apply ctx f saved =>
    obtain ⟨rfl, rfl, hkey⟩ := hclean
    obtain ⟨hbytes, hgiven⟩ := hcurrent
    rw [step_apply_saved]
    by_cases hver : ∃ u, Verified env ctx s.state u
    · obtain ⟨u, hu⟩ := hver
      have happlied := applyUpdate_clean hu hbytes
      cases h with
      | fresh current previous versions log state =>
        exact happlied.first hu hreads hhex hkey hbytes current previous versions log
      | first c e current previous versions payload log plain fromVersion state =>
        have hempty : "" ∉ s.layout.versions := fun hmem =>
          current.ne_empty ((versions "").mp hmem).symm
        exact happlied.both hu current (hu.newer (hgiven.trans state) current.ne_empty) hbytes hempty
          payload
      | both c p current previous distinct versions payload payload' state =>
        have hempty : "" ∉ s.layout.versions := fun hmem =>
          ((versions "").mp hmem).elim (fun h => current.ne_empty h.symm)
            fun h => previous.ne_empty h.symm
        exact happlied.both hu current (hu.newer (hgiven.trans state) current.ne_empty) hbytes hempty
          payload
    · rw [(applyUpdate_unverified hver {}).2]
      exact h
  | rollback now f saved =>
    obtain ⟨rfl, rfl⟩ := hclean
    rw [step_rollback_saved]
    cases h with
    | fresh current previous versions log state =>
      have hc : s.layout.readCurrentVersion = "" := by
        rw [InstallLayout.readCurrentVersion, current]
        decide
      rw [rollback, if_pos hc]
      exact .fresh current previous versions log state
    | first c e current previous versions payload log plain fromVersion state =>
      obtain ⟨detail, hnone⟩ := rollbackTarget_first hreads previous log plain fromVersion
      have hkept : (rollback env {} now s).2 = s := by
        unfold rollback
        rw [hnone]
        split_ifs <;> rfl
      rw [hkept]
      exact .first c e current previous versions payload log plain fromVersion state
    | both c p current previous distinct versions payload payload' state =>
      have hc : s.layout.readCurrentVersion = c := current.read
      rw [rollback_clean now (hc ▸ current.ne_empty) previous.read previous.ne_empty payload', hc]
      exact .both p c ⟨rfl, previous.version⟩ ⟨rfl, current.version⟩ distinct.symm
        (fun v => (versions v).trans or_comm) payload' payload rfl

/-! ### The invariant -/

/-- Markers, version directories and update state fit together. -/
structure LayoutInvariant (s : Host) : Prop where
  current : s.layout.readCurrentVersion ≠ "" →
    s.layout.hasVersionPayload s.layout.readCurrentVersion = true
  previous : s.layout.readPreviousVersion ≠ "" →
    s.layout.readPreviousVersion ≠ s.layout.readCurrentVersion ∧
      s.layout.hasVersionPayload s.layout.readPreviousVersion = true
  state : s.layout.readCurrentVersion = s.state.currentInstalledVersion
  versions : ∀ v, v ∈ s.layout.versions ↔
    v ≠ "" ∧ (v = s.layout.readCurrentVersion ∨ v = s.layout.readPreviousVersion)

theorem Phase.invariant {s : Host} (h : Phase s) : LayoutInvariant s := by
  have hstate := h.current_eq
  have hnone : readOneLine none = "" := by decide
  cases h with
  | fresh current previous versions log state =>
    have hc : s.layout.readCurrentVersion = "" := by rw [InstallLayout.readCurrentVersion, current, hnone]
    have hp : s.layout.readPreviousVersion = "" := by
      rw [InstallLayout.readPreviousVersion, previous, hnone]
    refine ⟨fun hne => absurd hc hne, fun hne => absurd hp hne, hstate, fun v => ?_⟩
    rw [hc, hp, ← AList.lookup_isSome, versions]
    simp
  | first c e current previous versions payload log plain fromVersion state =>
    have hc : s.layout.readCurrentVersion = c := current.read
    have hp : s.layout.readPreviousVersion = "" := by
      rw [InstallLayout.readPreviousVersion, previous, hnone]
    refine ⟨fun _ => by rw [hc, payload], fun hne => absurd hp hne, hstate, fun v => ?_⟩
    rw [hc, hp, versions]
    constructor
    · intro hv
      exact ⟨hv ▸ current.ne_empty, .inl hv⟩
    · rintro ⟨hne, hv⟩
      exact hv.resolve_right hne
  | both c p current previous distinct versions payload payload' state =>
    have hc : s.layout.readCurrentVersion = c := current.read
    have hp : s.layout.readPreviousVersion = p := previous.read
    refine ⟨fun _ => by rw [hc, payload], fun _ => by rw [hc, hp]; exact ⟨distinct, payload'⟩, hstate,
      fun v => ?_⟩
    rw [hc, hp, versions]
    constructor
    · rintro (hv | hv)
      · exact ⟨hv ▸ current.ne_empty, .inl hv⟩
      · exact ⟨hv ▸ previous.ne_empty, .inr hv⟩
    · exact And.right

theorem Phase.rollback_outcome {env : Env} (hreads : ReadsLogs env.parse) {s : Host} (h : Phase s)
    (f : RollbackFaults) (now : TimePoint) :
    (rollback env f now s).1.outcome ≠ .targetPayloadMissing := by
  have hfinish : ∀ current target host,
      (finishRollback env f now current target host).1.outcome ≠ .targetPayloadMissing := by
    intro current target host
    unfold finishRollback
    dsimp only
    split_ifs <;> exact RollbackOutcome.noConfusion
  unfold rollback
  split_ifs with hcur
  · exact RollbackOutcome.noConfusion
  · split
    · exact RollbackOutcome.noConfusion
    · rename_i target htarget
      have hpay : s.layout.hasVersionPayload target = true := by
        cases h with
        | fresh current previous versions log state =>
          rw [InstallLayout.readCurrentVersion, current] at hcur
          exact absurd (by decide) hcur
        | first c e current previous versions payload log plain fromVersion state =>
          obtain ⟨detail, hnone⟩ := rollbackTarget_first hreads previous log plain fromVersion
          rw [hnone] at htarget
          cases htarget
        | both c p current previous distinct versions payload payload' state =>
          have hp : s.layout.readPreviousVersion = p := previous.read
          rw [rollbackTarget, hp, if_pos previous.ne_empty] at htarget
          exact Except.ok.inj htarget ▸ payload'
      unfold rollbackTo
      simp only [hpay, Bool.not_true, Bool.false_eq_true, if_false]
      split_ifs
      · exact RollbackOutcome.noConfusion
      · exact hfinish _ _ _

/-- **Markers, payloads and state stay together.** -/
theorem layout_invariant {env : Env} (hreads : ReadsLogs env.parse)
    (hhex : ∀ bytes, PlainText (env.sha256Hex bytes)) (root : String) {ops : List Op}
    (hops : Along (step env) (fun _ s op => op.Clean ∧ op.Current s) [] { layout := { root } } ops) :
    LayoutInvariant (run (step env) { layout := { root } } ops) ∧
      ∀ f now, (rollback env f now (run (step env) { layout := { root } } ops)).1.outcome ≠
        .targetPayloadMissing := by
  have hstart : Phase { layout := { root } } := .fresh rfl rfl (fun _ => rfl) rfl rfl
  have hend := Along.invariant (P := fun _ s => Phase s)
    (fun _ s op h hop => phase_step hreads hhex h hop.1 hop.2) hstart hops
  exact ⟨hend.invariant, fun f now => hend.rollback_outcome hreads f now⟩

theorem sampleEnv_sha256Hex_plain (bytes : List UInt8) : PlainText (sampleEnv.sha256Hex bytes) := by
  have hone : PlainText "4bf5122f344554c53bde2ebb8cd2b7e3d1600ad631c385a5d7cce23c7785459a" := by
    unfold PlainText
    decide
  have htwo : PlainText "dbc1b4c900ffe48d575b5da5c638040125f65db0fe3e24494b76ea986457d986" := by
    unfold PlainText
    decide
  show PlainText (if bytes = [1] then _ else _)
  split_ifs
  · exact hone
  · exact htwo

/-- Two installs, and back. -/
theorem layout_invariant_two_installs :
    let ops := [.apply (sampleContext "1.0.0" "" [1]) {} true,
      .apply (sampleContext "2.0.0" "1.0.0" [2]) {} true, .rollback (fromTimeT 1778580000) {} true]
    LayoutInvariant (run (step sampleEnv) { layout := { root := "/opt/souxmar" } } ops) ∧
      ∀ f now, (rollback sampleEnv f now (run (step sampleEnv) { layout := { root := "/opt/souxmar" } } ops)).1.outcome ≠
        .targetPayloadMissing := by
  have hkey : PlainText "souxmar-dev-key" := by
    unfold PlainText
    decide
  intro ops
  have hops : Along (step sampleEnv) (fun _ s op => op.Clean ∧ op.Current s) []
      { layout := { root := "/opt/souxmar" } } ops := by
    refine ⟨?_, ?_, ?_, trivial⟩
    · exact ⟨⟨rfl, rfl, hkey⟩, by decide, rfl⟩
    · exact ⟨⟨rfl, rfl, hkey⟩, by decide, by decide⟩
    · exact ⟨⟨rfl, rfl⟩, trivial⟩
  exact layout_invariant tomlLines_reads sampleEnv_sha256Hex_plain "/opt/souxmar" hops

/-- The id of a signing key whose text goes on with an event of its own. -/
def injectedKeyId : String :=
  "k\"\n\n[[event]]\ntype = \"apply\"\nfrom_version = \"0.9.0\"\nto_version = \"1.0.0"

/-- The log does not escape what it writes: with such a key id a rollback after the first install looks
for a version that was never there. -/
theorem injected_target_is_missing :
    let ctx := { sampleContext "1.0.0" "" [1] with
      manifest := { sampleManifest "1.0.0" "" [1] with signing := ⟨"ed25519", injectedKeyId⟩ } }
    let s := run (step sampleEnv) { layout := { root := "/opt/souxmar" } } [.apply ctx {} true]
    ctx.artifactBytes ≠ [] ∧ ctx.currentVersion = ({} : UpdateState).currentInstalledVersion ∧
      (rollback sampleEnv {} (fromTimeT 1778580000) s).1.outcome = .targetPayloadMissing := by
  decide

end Souxmar.Updater
