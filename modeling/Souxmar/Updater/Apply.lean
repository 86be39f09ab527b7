import Souxmar.Updater.Gate
import Souxmar.Updater.InstallLayout
import Souxmar.Updater.RollbackLog

/-!
# Check, apply and rollback

The three operations that write the update state: `cmd_update_check` (its state half), and
`apply_update` and `rollback` of `apply.cpp`. They act on a `Host`, the install layout together with
the per-user state. `sha256_hex` is libsodium's and the TOML reader is toml++'s; both are fields of
`Env`.

Each operation is followed by what it can do: `applyUpdate_verified` and `applyUpdate_unverified`
split an apply at its verification steps, `rollback_eq` names the target of a rollback first.
-/

namespace Souxmar.Updater

/-! ### State -/

structure UpdateState where
  currentInstalledVersion : String := ""
  maxVersionEverSeen : String := ""
  lastCheckAt : String := ""
  lastApplyAt : String := ""
deriving DecidableEq, Repr

/-- The install root and the per-user state. -/
structure Host where
  layout : InstallLayout := {}
  state : UpdateState := {}

/-- What the updater takes from its libraries. -/
structure Env where
  sha256Hex : List UInt8 → String
  parse : TomlReader

/-- Raising `max_version_ever_seen`, as `cmd_update_check` and `apply_update` both do it. -/
def raiseFloor (version floor : String) : String :=
  if floor = "" then version
  else if (compareVersions version floor).any (0 < ·) then version
  else floor

def rollbackLogPath (l : InstallLayout) : String := l.root ++ "/rollback.log"

/-! ### Check -/

/-- `clock.now()` is read twice, by the gate and for the timestamp. -/
structure Clock where
  atGate : TimePoint
  atEvent : TimePoint
deriving DecidableEq, Repr

def cmdUpdateCheck (m : Manifest) (currentVersion : String) (host : HostPlatform) (clock : Clock)
    (s : UpdateState) : UpdateDecision × UpdateState :=
  let decision := applyGate m ⟨currentVersion, s.maxVersionEverSeen, host⟩ clock.atGate
  let s := { s with lastCheckAt := formatRfc3339Utc clock.atEvent }
  match decision with
  | .apply u => (decision, { s with maxVersionEverSeen := raiseFloor u.version s.maxVersionEverSeen })
  | .refusal _ => (decision, s)

/-! ### Apply -/

inductive ApplyOutcome
  | applied
  | refusedByGate
  | artifactHashMismatch
  | artifactSizeMismatch
  | stageFailed
  | switchFailed
  | appliedButLogWriteFailed
deriving DecidableEq, Repr

structure ApplyResult where
  outcome : ApplyOutcome := .refusedByGate
  refusal : RefusalReason := .malformedOfferedVersion
  appliedVersion : String := ""
  detail : String := ""
deriving DecidableEq, Repr

structure ApplyContext where
  manifest : Manifest
  artifactBytes : List UInt8
  clock : Clock
  platform : HostPlatform
  currentVersion : String
deriving DecidableEq, Repr

/-- Which file-system steps of one apply fail; `gc` says it for each version directory. -/
structure ApplyFaults where
  payload : PayloadFaults := {}
  switch : InstallLayout.SwitchFaults := {}
  log : LogFaults := {}
  gc : String → RemoveFault := fun _ => .done

/-- Steps 5 to 7, after the switch: the log, the state, the garbage. -/
def finishApply (env : Env) (f : ApplyFaults) (ctx : ApplyContext) (u : UpdateApply)
    (fromVersion : String) (s : Host) : ApplyResult × Host :=
  let eventTimestamp := formatRfc3339Utc ctx.clock.atEvent
  let (logOk, log) := appendRollbackEvent env.parse f.log (rollbackLogPath s.layout) s.layout.log
    { timestamp := eventTimestamp
      type := .apply
      fromVersion := fromVersion
      toVersion := u.version
      artifactSha256 := u.artifact.sha256
      publicKeyId := ctx.manifest.signing.publicKeyId }
  let state := { s.state with
    currentInstalledVersion := u.version
    maxVersionEverSeen := raiseFloor u.version s.state.maxVersionEverSeen
    lastApplyAt := eventTimestamp }
  let (_, layout) := ({ s.layout with log }).gcUnreferenced f.gc []
  ({ outcome := if logOk then .applied else .appliedButLogWriteFailed
     appliedVersion := u.version
     detail := if logOk then "applied" else "applied; rollback-log append failed (audit gap)" },
    { layout, state })

/-- Steps 3 to 7, once the gate and the two artifact checks passed. -/
def applyVerified (env : Env) (f : ApplyFaults) (ctx : ApplyContext) (u : UpdateApply) (s : Host) :
    ApplyResult × Host :=
  let (staged, layout) := s.layout.stageVersion f.payload u.version ctx.artifactBytes
  if !staged then
    ({ outcome := .stageFailed
       detail := "stage_version(" ++ u.version ++
        ") failed; check that the install root is writable + has free space" },
      { s with layout })
  else
    let fromVersion := layout.readCurrentVersion
    let (switched, layout) := layout.atomicSwitchTo f.switch fromVersion u.version
    if !switched then
      ({ outcome := .switchFailed
         detail := "atomic_switch_to(" ++ u.version ++ ") failed" }, { s with layout })
    else finishApply env f ctx u fromVersion { s with layout }

def applyUpdate (env : Env) (f : ApplyFaults) (ctx : ApplyContext) (s : Host) :
    ApplyResult × Host :=
  match applyGate ctx.manifest ⟨ctx.currentVersion, s.state.maxVersionEverSeen, ctx.platform⟩
      ctx.clock.atGate with
  | .refusal r => ({ outcome := .refusedByGate, refusal := r.reason, detail := r.detail }, s)
  | .apply u =>
    if ctx.artifactBytes.length ≠ u.artifact.size then
      ({ outcome := .artifactSizeMismatch
         detail := "artifact bytes are " ++ toString ctx.artifactBytes.length ++
          " bytes, manifest expects " ++ toString u.artifact.size }, s)
    else if env.sha256Hex ctx.artifactBytes ≠ u.artifact.sha256 then
      ({ outcome := .artifactHashMismatch
         detail := "artifact sha256 " ++ env.sha256Hex ctx.artifactBytes ++ " != manifest " ++
          u.artifact.sha256 }, s)
    else applyVerified env f ctx u s

/-! ### Rollback -/

inductive RollbackOutcome
  | rolledBack
  | noCurrentInstall
  | noRollbackTarget
  | targetPayloadMissing
  | switchFailed
  | rolledBackButLogWriteFailed
deriving DecidableEq, Repr

structure RollbackResult where
  outcome : RollbackOutcome := .noRollbackTarget
  fromVersion : String := ""
  toVersion : String := ""
  detail : String := ""
deriving DecidableEq, Repr

structure RollbackFaults where
  switch : InstallLayout.SwitchFaults := {}
  log : LogFaults := {}
deriving DecidableEq, Repr

/-- previous.txt names the target, or else the log does; the error is the result's detail. -/
def rollbackTarget (env : Env) (l : InstallLayout) : Except String String :=
  if l.readPreviousVersion ≠ "" then .ok l.readPreviousVersion
  else
    match loadRollbackLog env.parse (rollbackLogPath l) l.log with
    | .error message => .error ("rollback-log unreadable: " ++ message)
    | .ok events =>
      match findRollbackTarget events l.readCurrentVersion with
      | "" => .error
          ("no Apply event in rollback log names '" ++ l.readCurrentVersion ++ "' as to_version")
      | target => .ok target

/-- After the switch: the log and the state; `max_version_ever_seen` is not touched. -/
def finishRollback (env : Env) (f : RollbackFaults) (now : TimePoint) (current target : String)
    (s : Host) : RollbackResult × Host :=
  let eventTimestamp := formatRfc3339Utc now
  let (logOk, log) := appendRollbackEvent env.parse f.log (rollbackLogPath s.layout) s.layout.log
    { timestamp := eventTimestamp, type := .rollback, fromVersion := current, toVersion := target }
  ({ outcome := if logOk then .rolledBack else .rolledBackButLogWriteFailed
     fromVersion := current, toVersion := target
     detail := if logOk then "rolled back" else "rolled back; rollback-log append failed" },
    { layout := { s.layout with log }
      state := { s.state with
        currentInstalledVersion := target
        lastApplyAt := eventTimestamp } })

/-- The switch to the target, then the log and the state. -/
def rollbackTo (env : Env) (f : RollbackFaults) (now : TimePoint) (target : String) (s : Host) :
    RollbackResult × Host :=
  let current := s.layout.readCurrentVersion
  if !s.layout.hasVersionPayload target then
    ({ outcome := .targetPayloadMissing, fromVersion := current, toVersion := target
       detail := "rollback target '" ++ target ++
        "' has no payload on disk (was it gc'd, or never staged?)" }, s)
  else
    let (switched, layout) := s.layout.atomicSwitchTo f.switch current target
    if !switched then
      ({ outcome := .switchFailed, fromVersion := current, toVersion := target
         detail := "atomic_switch_to(" ++ target ++ ") failed" }, { s with layout })
    else finishRollback env f now current target { s with layout }

def rollback (env : Env) (f : RollbackFaults) (now : TimePoint) (s : Host) :
    RollbackResult × Host :=
  if s.layout.readCurrentVersion = "" then
    ({ outcome := .noCurrentInstall
       detail := "current.txt is empty; nothing to roll back from" }, s)
  else
    match rollbackTarget env s.layout with
    | .error detail => ({ outcome := .noRollbackTarget, detail }, s)
    | .ok target => rollbackTo env f now target s

/-! ### A sample release -/

/-- The digests of the payloads `[1]` and `[2]`, and the reader of the updater's own TOML. -/
def sampleEnv : Env where
  sha256Hex bytes :=
    if bytes = [1] then "4bf5122f344554c53bde2ebb8cd2b7e3d1600ad631c385a5d7cce23c7785459a"
    else "dbc1b4c900ffe48d575b5da5c638040125f65db0fe3e24494b76ea986457d986"
  parse := tomlLines

/-- A release whose one artifact is `payload`, for Linux. -/
def sampleManifest (version expiresAt : String) (payload : List UInt8) : Manifest where
  channel := { expiresAt }
  release := { version }
  artifacts :=
    [⟨.linux, .x86_64, "souxmar.tar.gz", sampleEnv.sha256Hex payload, payload.length⟩]
  signing := ⟨"ed25519", "souxmar-dev-key"⟩

def sampleContext (version currentVersion : String) (payload : List UInt8) : ApplyContext where
  manifest := sampleManifest version "" payload
  artifactBytes := payload
  clock := ⟨fromTimeT 1778580000, fromTimeT 1778580000⟩
  platform := ⟨.linux, .x86_64⟩
  currentVersion := currentVersion

/-! ### What an apply does -/

/-- The outcomes after which the install is on the offered version. -/
def ApplyOutcome.installs : ApplyOutcome → Bool
  | .applied | .appliedButLogWriteFailed => true
  | _ => false

/-- The outcomes after which the install is back on the target. -/
def RollbackOutcome.moves : RollbackOutcome → Bool
  | .rolledBack | .rolledBackButLogWriteFailed => true
  | _ => false

/-- Everything `apply_update` checks before it touches a file. -/
structure Verified (env : Env) (ctx : ApplyContext) (s : UpdateState) (u : UpdateApply) :
    Prop where
  gate : applyGate ctx.manifest ⟨ctx.currentVersion, s.maxVersionEverSeen, ctx.platform⟩
    ctx.clock.atGate = .apply u
  size : ctx.artifactBytes.length = u.artifact.size
  sha256 : env.sha256Hex ctx.artifactBytes = u.artifact.sha256

theorem applyUpdate_verified {env : Env} {ctx : ApplyContext} {s : Host} {u : UpdateApply}
    (h : Verified env ctx s.state u) (f : ApplyFaults) :
    applyUpdate env f ctx s = applyVerified env f ctx u s := by
  simp [applyUpdate, h.gate, h.size, h.sha256]

theorem applyUpdate_unverified {env : Env} {ctx : ApplyContext} {s : Host}
    (h : ¬ ∃ u, Verified env ctx s.state u) (f : ApplyFaults) :
    (applyUpdate env f ctx s).1.outcome.installs = false ∧ (applyUpdate env f ctx s).2 = s := by
  unfold applyUpdate
  split
  · exact ⟨rfl, rfl⟩
  · rename_i u hgate
    split_ifs with hsize hsha
    · exact ⟨rfl, rfl⟩
    · exact ⟨rfl, rfl⟩
    · exact absurd ⟨u, hgate, not_not.mp hsize, not_not.mp hsha⟩ h

theorem Verified.accepts {env : Env} {ctx : ApplyContext} {s : UpdateState} {u : UpdateApply}
    (h : Verified env ctx s u) :
    Accepts ctx.manifest ⟨ctx.currentVersion, s.maxVersionEverSeen, ctx.platform⟩
      ctx.clock.atGate u :=
  (applyGate_apply_iff _ _ _ _).mp h.gate

theorem Verified.version_ne_empty {env : Env} {ctx : ApplyContext} {s : UpdateState}
    {u : UpdateApply} (h : Verified env ctx s u) : u.version ≠ "" := by
  obtain ⟨v, hv, _⟩ := h.accepts.offered
  rw [h.accepts.version]
  exact ne_empty_of_versionOf hv

theorem finishApply_fst (env : Env) (f : ApplyFaults) (ctx : ApplyContext) (u : UpdateApply)
    (fromVersion : String) (s : Host) :
    (finishApply env f ctx u fromVersion s).1.outcome.installs = true ∧
      (finishApply env f ctx u fromVersion s).1.appliedVersion = u.version := by
  unfold finishApply
  refine ⟨?_, rfl⟩
  simp only
  split_ifs <;> rfl

theorem finishApply_state (env : Env) (f : ApplyFaults) (ctx : ApplyContext) (u : UpdateApply)
    (fromVersion : String) (s : Host) :
    (finishApply env f ctx u fromVersion s).2.state =
      { s.state with
        currentInstalledVersion := u.version
        maxVersionEverSeen := raiseFloor u.version s.state.maxVersionEverSeen
        lastApplyAt := formatRfc3339Utc ctx.clock.atEvent } := rfl

theorem finishApply_layout (env : Env) (f : ApplyFaults) (ctx : ApplyContext) (u : UpdateApply)
    (fromVersion : String) (s : Host) :
    ∃ log, (finishApply env f ctx u fromVersion s).2.layout =
      (({ s.layout with log }).gcUnreferenced f.gc []).2 := ⟨_, rfl⟩

theorem finishApply_payload {env : Env} {f : ApplyFaults} {ctx : ApplyContext} {u : UpdateApply}
    {fromVersion : String} {s : Host} {v : String}
    (h : (finishApply env f ctx u fromVersion s).2.layout.hasVersionPayload v = true) :
    s.layout.hasVersionPayload v = true := by
  obtain ⟨log, hlog⟩ := finishApply_layout env f ctx u fromVersion s
  rw [hlog] at h
  exact (InstallLayout.hasVersionPayload_gcUnreferenced h :)

/-- Whatever fails, an apply ends in one of two ways: nothing was installed and the state is as it
was, or a verified version was installed and recorded. -/
theorem applyUpdate_state (env : Env) (f : ApplyFaults) (ctx : ApplyContext) (s : Host) :
    ((applyUpdate env f ctx s).1.outcome.installs = false ∧
      (applyUpdate env f ctx s).2.state = s.state) ∨
    ∃ u, Verified env ctx s.state u ∧ (applyUpdate env f ctx s).1.outcome.installs = true ∧
      (applyUpdate env f ctx s).1.appliedVersion = u.version ∧
      (applyUpdate env f ctx s).2.state = { s.state with
        currentInstalledVersion := u.version
        maxVersionEverSeen := raiseFloor u.version s.state.maxVersionEverSeen
        lastApplyAt := formatRfc3339Utc ctx.clock.atEvent } := by
  by_cases hver : ∃ u, Verified env ctx s.state u
  · obtain ⟨u, hu⟩ := hver
    rw [applyUpdate_verified hu, applyVerified]
    dsimp only
    split_ifs
    · exact Or.inl ⟨rfl, rfl⟩
    · exact Or.inl ⟨rfl, rfl⟩
    · exact Or.inr ⟨u, hu, (finishApply_fst ..).1, (finishApply_fst ..).2, finishApply_state ..⟩
  · obtain ⟨houtcome, hsame⟩ := applyUpdate_unverified hver f
    exact Or.inl ⟨houtcome, by rw [hsame]⟩

/-! ### Steps whose files are written -/

/-- Staging and both marker writes succeed; the log and the garbage collection may fail. -/
structure ApplyFaults.Persists (f : ApplyFaults) : Prop where
  payload : f.payload = {}
  switch : f.switch = {}

/-- How an apply ends when staging and switch succeed. -/
inductive ApplyEffect (env : Env) (ctx : ApplyContext) (s : Host) (r : ApplyResult) (s' : Host) :
    Prop
  /-- Nothing was installed: no version gained a payload, the markers and the state stay. -/
  | refused (outcome : r.outcome.installs = false) (state : s'.state = s.state)
      (files : s.layout.SameFiles s'.layout)
      (payload : ∀ v, s'.layout.hasVersionPayload v = true → s.layout.hasVersionPayload v = true)
  | installed (u : UpdateApply) (verified : Verified env ctx s.state u)
      (outcome : r.outcome.installs = true) (version : r.appliedVersion = u.version)
      (state : s'.state = { s.state with
        currentInstalledVersion := u.version
        maxVersionEverSeen := raiseFloor u.version s.state.maxVersionEverSeen
        lastApplyAt := formatRfc3339Utc ctx.clock.atEvent })
      (current : s'.layout.current = some (u.version.toList ++ ['\n']))
      (previous : s'.layout.previous =
        if s.layout.readCurrentVersion ≠ "" then some (s.layout.readCurrentVersion.toList ++ ['\n'])
        else s.layout.previous)
      (payload : ∀ v, s'.layout.hasVersionPayload v = true →
        v = u.version ∨ s.layout.hasVersionPayload v = true)

theorem applyUpdate_effect (env : Env) {f : ApplyFaults} (hf : f.Persists) (ctx : ApplyContext)
    (s : Host) :
    ApplyEffect env ctx s (applyUpdate env f ctx s).1 (applyUpdate env f ctx s).2 := by
  by_cases hver : ∃ u, Verified env ctx s.state u
  · obtain ⟨u, hu⟩ := hver
    rw [applyUpdate_verified hu]
    have hstaged : (s.layout.stageVersion {} u.version ctx.artifactBytes).1 = true :=
      (InstallLayout.stageVersion_fst _ _ _ _).mpr
        ⟨hu.version_ne_empty, rfl, fun _ => rfl, rfl⟩
    have hpay := InstallLayout.stageVersion_hasVersionPayload hstaged
    have hfiles := InstallLayout.stageVersion_sameFiles {} u.version ctx.artifactBytes s.layout
    obtain ⟨layout, hlayout⟩ :
        ∃ layout, (s.layout.stageVersion {} u.version ctx.artifactBytes).2 = layout := ⟨_, rfl⟩
    rw [hlayout] at hpay hfiles
    have hcurrent : layout.readCurrentVersion = s.layout.readCurrentVersion := by
      rw [InstallLayout.readCurrentVersion, hfiles.current, InstallLayout.readCurrentVersion]
    by_cases hbytes : layout.hasVersionPayload u.version = true
    · have hswitch := InstallLayout.atomicSwitchTo_ok layout.readCurrentVersion
        hu.version_ne_empty hbytes
      simp only [applyVerified, hf.payload, hf.switch, hstaged, hlayout, hswitch, Bool.not_true,
        Bool.false_eq_true, if_false]
      obtain ⟨log, hfinish⟩ := finishApply_layout env f ctx u layout.readCurrentVersion
        { s with layout := { layout with
            previous := if layout.readCurrentVersion ≠ "" then
              some (layout.readCurrentVersion.toList ++ ['\n']) else layout.previous
            current := some (u.version.toList ++ ['\n']) } }
      have hgc := InstallLayout.gcUnreferenced_sameFiles f.gc []
        { layout with
          previous := if layout.readCurrentVersion ≠ "" then
            some (layout.readCurrentVersion.toList ++ ['\n']) else layout.previous
          current := some (u.version.toList ++ ['\n'])
          log := log }
      refine .installed u hu (finishApply_fst ..).1 (finishApply_fst ..).2
        (finishApply_state ..) ?_ ?_ fun v hv => ?_
      · rw [hfinish]
        exact hgc.current
      · rw [hfinish]
        refine hgc.previous.trans ?_
        rw [hcurrent, hfiles.previous]
      · have hv : layout.hasVersionPayload v = true := finishApply_payload hv
        rw [hpay] at hv
        by_cases hvu : v = u.version
        · exact Or.inl hvu
        · exact Or.inr (by simpa [hvu] using hv)
    · -- the staged payload is empty, so the switch refuses it
      have hswitch := InstallLayout.atomicSwitchTo_refused {} layout.readCurrentVersion
        (Or.inr (by simpa using hbytes) : u.version = "" ∨ _)
      simp only [applyVerified, hf.payload, hf.switch, hstaged, hlayout, hswitch, Bool.not_true,
        Bool.not_false, Bool.false_eq_true, if_false, if_true]
      refine .refused rfl rfl hfiles fun v hv => ?_
      by_cases hvu : v = u.version
      · subst hvu
        exact absurd hv hbytes
      · simpa [hpay, hvu] using hv
  · obtain ⟨houtcome, hsame⟩ := applyUpdate_unverified hver f
    rw [hsame]
    exact .refused houtcome rfl (.refl _) fun v hv => hv

theorem applyUpdate_installs {env : Env} {f : ApplyFaults} (hf : f.Persists) {ctx : ApplyContext}
    {s : Host} {u : UpdateApply} (hu : Verified env ctx s.state u)
    (hbytes : ctx.artifactBytes ≠ []) :
    (applyUpdate env f ctx s).1.outcome.installs = true := by
  rw [applyUpdate_verified hu]
  have hstaged : (s.layout.stageVersion {} u.version ctx.artifactBytes).1 = true :=
    (InstallLayout.stageVersion_fst _ _ _ _).mpr
      ⟨hu.version_ne_empty, rfl, fun _ => rfl, rfl⟩
  have hpay : (s.layout.stageVersion {} u.version ctx.artifactBytes).2.hasVersionPayload
      u.version = true := by
    rw [InstallLayout.stageVersion_hasVersionPayload hstaged, if_pos rfl]
    simpa [List.length_pos_iff] using hbytes
  have hswitch := InstallLayout.atomicSwitchTo_ok
    (s.layout.stageVersion {} u.version ctx.artifactBytes).2.readCurrentVersion
    hu.version_ne_empty hpay
  simp only [applyVerified, hf.payload, hf.switch, hstaged, hswitch, Bool.not_true,
    Bool.false_eq_true, if_false]
  exact (finishApply_fst ..).1

theorem rollbackTarget_ne_empty {env : Env} {l : InstallLayout} {target : String}
    (h : rollbackTarget env l = .ok target) : target ≠ "" := by
  unfold rollbackTarget at h
  split_ifs at h with hprev
  · obtain rfl := Except.ok.inj h
    exact hprev
  · split at h
    · simp at h
    · split at h
      · simp at h
      · rename_i hne
        obtain rfl := Except.ok.inj h
        exact fun he => hne he

theorem finishRollback_moves (env : Env) (f : RollbackFaults) (now : TimePoint)
    (current target : String) (s : Host) :
    (finishRollback env f now current target s).1.outcome.moves = true := by
  unfold finishRollback
  dsimp only
  split_ifs <;> rfl

/-- Whatever fails, a rollback leaves the state as it was, or has moved off the current version to
a target that has a payload. -/
theorem rollback_state (env : Env) (f : RollbackFaults) (now : TimePoint) (s : Host) :
    ((rollback env f now s).1.outcome.moves = false ∧ (rollback env f now s).2.state = s.state) ∨
    ∃ target, s.layout.hasVersionPayload target = true ∧
      (rollback env f now s).1.outcome.moves = true ∧
      (rollback env f now s).1.fromVersion = s.layout.readCurrentVersion ∧
      (rollback env f now s).2.state = { s.state with
        currentInstalledVersion := target
        lastApplyAt := formatRfc3339Utc now } := by
  unfold rollback
  split_ifs
  · exact Or.inl ⟨rfl, rfl⟩
  · split
    · exact Or.inl ⟨rfl, rfl⟩
    · rename_i target _
      unfold rollbackTo
      dsimp only
      split_ifs with hpay
      · exact Or.inl ⟨rfl, rfl⟩
      · exact Or.inl ⟨rfl, rfl⟩
      · exact Or.inr ⟨target, by simpa using hpay, finishRollback_moves .., rfl, rfl⟩

/-- How a rollback ends when both marker writes succeed. -/
inductive RollbackEffect (now : TimePoint) (s : Host) (r : RollbackResult) (s' : Host) : Prop
  | refused (outcome : r.outcome.moves = false) (same : s' = s)
  | moved (target : String) (outcome : r.outcome.moves = true)
      (payload : s.layout.hasVersionPayload target = true)
      (fromVersion : r.fromVersion = s.layout.readCurrentVersion)
      (toVersion : r.toVersion = target)
      (state : s'.state = { s.state with
        currentInstalledVersion := target
        lastApplyAt := formatRfc3339Utc now })
      (current : s'.layout.current = some (target.toList ++ ['\n']))
      (previous : s'.layout.previous = some (s.layout.readCurrentVersion.toList ++ ['\n']))
      (versions : s'.layout.versions = s.layout.versions)

theorem rollback_effect (env : Env) {f : RollbackFaults} (hf : f.switch = {}) (now : TimePoint)
    (s : Host) : RollbackEffect now s (rollback env f now s).1 (rollback env f now s).2 := by
  unfold rollback
  split_ifs with hcur
  · exact .refused rfl rfl
  · split
    · exact .refused rfl rfl
    · rename_i target htarget
      unfold rollbackTo
      by_cases hpay : s.layout.hasVersionPayload target = true
      · have hswitch := InstallLayout.atomicSwitchTo_ok
          s.layout.readCurrentVersion (rollbackTarget_ne_empty htarget) hpay
        simp only [hpay, hf, hswitch, Bool.not_true, Bool.false_eq_true, if_false]
        exact .moved target (finishRollback_moves ..) hpay rfl rfl rfl rfl (if_pos hcur) rfl
      · simp only [hpay, Bool.not_false, if_true]
        exact .refused rfl rfl

end Souxmar.Updater
