import Souxmar.Updater.ManifestParser
import Souxmar.Updater.ManifestValidation
import Souxmar.Updater.StateFile
import Souxmar.Updater.Verifier

/-!
# The update commands

`souxmar update check`, `apply` and `rollback` of `cli/main.cpp`, from their flags to the files they leave.
`update_preflight` reads the manifest and its detached signature, and lets a command go on only if the
signature is that of a trusted key. Between two commands the files that are read may change as they like.

A machine is its install roots and its state files, under their paths; two spellings of one path are not
told apart here. What is printed is left out.
-/

namespace Souxmar.Updater.Cli

/-- The `kExit…` constants. -/
inductive ExitCode
  | ok
  | usage
  | inputData
  | internal
  | updateRefused
  | signatureBad
deriving DecidableEq, Repr

/-- The flags that the three commands read; an empty path or text is one that was not given. -/
structure UpdateFlags where
  manifestPath : String := ""
  signaturePath : String := ""
  statePathOverride : String := ""
  trustedKeys : List (String × String) := []
  currentVersionOverride : String := ""
  platformOverride : String := ""
  asOfOverride : String := ""
  dryRun : Bool := false
  artifactPath : String := ""
  targetRoot : String := ""
deriving DecidableEq, Repr

/-- What a build of the program is made with. -/
structure Build where
  env : Env
  toml : Toml
  sodium : Sodium
  versionString : String
  kEmbeddedReleaseKeyId : String
  kEmbeddedReleasePubkeyHex : String
  defaultUpdateStatePath : String
  /-- `detect_host_platform`. -/
  host : HostPlatform

/-- The files that can be opened, with their bytes. -/
abbrev Files : Type := String → Option (List UInt8)

/-- `UpdatePreflight`, without what only the messages use. -/
structure UpdatePreflight where
  manifest : Manifest
  state : UpdateState
  statePath : String
  currentVersion : String
  host : HostPlatform
  clock : Clock
deriving DecidableEq, Repr

/-! ## The preflight -/

def orExit {α : Type} (code : ExitCode) : Option α → Except ExitCode α
  | none => .error code
  | some a => .ok a

def exitIf (condition : Bool) (code : ExitCode) : Except ExitCode Unit :=
  if condition then .error code else .ok ()

/-- A file of ASCII text. -/
def asciiText (bytes : List UInt8) : FileText := bytes.map fun b => Char.ofNat b.toNat

def embeddedTrustStore (b : Build) : TrustStore :=
  (TrustStore.addHex b.kEmbeddedReleaseKeyId b.kEmbeddedReleasePubkeyHex []).getD []

/-- The loop over `--trusted-key`. -/
def addTrustedKeys : List (String × String) → TrustStore → Option TrustStore
  | [], trust => some trust
  | key :: keys, trust => (trust.addHex key.1 key.2).bind (addTrustedKeys keys)

def trustStore (b : Build) (f : UpdateFlags) : Option TrustStore :=
  if f.trustedKeys.isEmpty then some (embeddedTrustStore b) else addTrustedKeys f.trustedKeys []

def parseHostPlatform (osArch : String) : Option HostPlatform :=
  if '/' ∈ osArch.toList then
    let os := String.ofList (osArch.toList.takeWhile (· ≠ '/'))
    let arch := String.ofList ((osArch.toList.dropWhile (· ≠ '/')).drop 1)
    (parseOs os).bind fun os => (parseArch arch).map fun arch => ⟨os, arch⟩
  else none

/-- `--platform`, or else the host's. -/
def hostPlatform (b : Build) (f : UpdateFlags) : Option HostPlatform :=
  if f.platformOverride = "" then some b.host else parseHostPlatform f.platformOverride

def statePath (b : Build) (f : UpdateFlags) : String :=
  if f.statePathOverride = "" then b.defaultUpdateStatePath else f.statePathOverride

/-- The state that a command works with; a file that cannot be read counts as a fresh install. -/
def loadedState (parse : TomlReader) (path : String) (file : Option FileText) : UpdateState :=
  match loadUpdateState parse path file with
  | .error _ => {}
  | .ok s => s

def currentVersion (b : Build) (f : UpdateFlags) (s : UpdateState) : String :=
  if f.currentVersionOverride ≠ "" then f.currentVersionOverride
  else if s.currentInstalledVersion ≠ "" then s.currentInstalledVersion
  else b.versionString

/-- `--as-of`, or else the clock of the system. -/
def clockOf (f : UpdateFlags) (system : Clock) : Option Clock :=
  if f.asOfOverride = "" then some system
  else (parseRfc3339Utc f.asOfOverride).map fun t => ⟨t, t⟩

/-- The part of the preflight up to the signature. -/
def verifiedManifest (b : Build) (f : UpdateFlags) (files : Files) : Except ExitCode Manifest := do
  exitIf (f.manifestPath = "" || f.signaturePath = "") .usage
  let manifestText ← orExit .inputData (files f.manifestPath)
  let signatureText ← orExit .inputData (files f.signaturePath)
  let signatureBytes ← orExit .inputData (hexDecode (stripAsciiWs (asciiText signatureText)))
  let manifest ← orExit .inputData (parseManifestString b.toml manifestText).toOption
  exitIf (decide (¬NoErrors (validateManifest manifest))) .inputData
  let trust ← orExit .usage (trustStore b f)
  exitIf (verifyManifestSignature b.sodium manifestText signatureBytes
    manifest.signing.publicKeyId trust ≠ .ok) .signatureBad
  return manifest

def updatePreflight (b : Build) (f : UpdateFlags) (files : Files) (system : Clock)
    (stateFile : Option FileText) : Except ExitCode UpdatePreflight := do
  let manifest ← verifiedManifest b f files
  let state := loadedState b.env.parse (statePath b f) stateFile
  let host ← orExit .usage (hostPlatform b f)
  let clock ← orExit .usage (clockOf f system)
  return {
    manifest, state, host, clock
    statePath := statePath b f
    currentVersion := currentVersion b f state }

/-! ## The commands -/

structure Machine where
  roots : String → InstallLayout
  states : String → Option FileText

def Machine.layoutAt (m : Machine) (root : String) : InstallLayout := { m.roots root with root }

/-- What a command is called with, and which of its file-system steps fail. -/
structure Invocation where
  flags : UpdateFlags
  files : Files
  clock : Clock
  applyFaults : ApplyFaults := {}
  rollbackFaults : RollbackFaults := {}
  stateFaults : StateFaults := {}

def Machine.saveState (m : Machine) (f : StateFaults) (path : String) (s : UpdateState) : Machine :=
  { m with states := Function.update m.states path (saveUpdateState f (m.states path) s).2 }

def Machine.setRoot (m : Machine) (root : String) (l : InstallLayout) : Machine :=
  { m with roots := Function.update m.roots root l }

def decisionExit : UpdateDecision → ExitCode
  | .apply _ => .ok
  | .refusal r => if r.reason = .alreadyOnOrAheadOfOffered then .ok else .updateRefused

def cmdUpdateCheck (b : Build) (i : Invocation) (m : Machine) : ExitCode × Machine :=
  match updatePreflight b i.flags i.files i.clock (m.states (statePath b i.flags)) with
  | .error code => (code, m)
  | .ok pf =>
    let (decision, state) :=
      Updater.cmdUpdateCheck pf.manifest pf.currentVersion pf.host pf.clock pf.state
    (decisionExit decision, m.saveState i.stateFaults pf.statePath state)

def applyExit : ApplyOutcome → ExitCode
  | .applied | .appliedButLogWriteFailed => .ok
  | .refusedByGate => .updateRefused
  | .artifactHashMismatch | .artifactSizeMismatch => .inputData
  | .stageFailed | .switchFailed => .internal

def applyContext (pf : UpdatePreflight) (artifactBytes : List UInt8) : ApplyContext where
  manifest := pf.manifest
  artifactBytes := artifactBytes
  clock := pf.clock
  platform := pf.host
  currentVersion := pf.currentVersion

def cmdUpdateApply (b : Build) (i : Invocation) (m : Machine) : ExitCode × Machine :=
  if i.flags.dryRun then cmdUpdateCheck b i m
  else if i.flags.targetRoot = "" || i.flags.artifactPath = "" then (.usage, m)
  else
    match updatePreflight b i.flags i.files i.clock (m.states (statePath b i.flags)) with
    | .error code => (code, m)
    | .ok pf =>
      match i.files i.flags.artifactPath with
      | none => (.inputData, m)
      | some artifactBytes =>
        let (result, host) := applyUpdate b.env i.applyFaults (applyContext pf artifactBytes)
          ⟨m.layoutAt i.flags.targetRoot, pf.state⟩
        (applyExit result.outcome,
          (m.setRoot i.flags.targetRoot host.layout).saveState i.stateFaults pf.statePath host.state)

def rollbackExit : RollbackOutcome → ExitCode
  | .rolledBack | .rolledBackButLogWriteFailed => .ok
  | .noCurrentInstall | .noRollbackTarget | .targetPayloadMissing => .updateRefused
  | .switchFailed => .internal

/-- A rollback needs no manifest: what it goes back to was verified when it was applied. -/
def cmdUpdateRollback (b : Build) (i : Invocation) (m : Machine) : ExitCode × Machine :=
  if i.flags.targetRoot = "" then (.usage, m)
  else
    let path := statePath b i.flags
    match clockOf i.flags i.clock with
    | none => (.usage, m)
    | some clock =>
      let (result, host) := rollback b.env i.rollbackFaults clock.atEvent
        ⟨m.layoutAt i.flags.targetRoot, loadedState b.env.parse path (m.states path)⟩
      (rollbackExit result.outcome,
        (m.setRoot i.flags.targetRoot host.layout).saveState i.stateFaults path host.state)

inductive Command
  | check
  | apply
  | rollback
deriving DecidableEq, Repr

def Command.run (b : Build) (i : Invocation) (m : Machine) : Command → ExitCode × Machine
  | .check => cmdUpdateCheck b i m
  | .apply => cmdUpdateApply b i m
  | .rollback => cmdUpdateRollback b i m

def cliStep (b : Build) (m : Machine) (c : Command × Invocation) : Machine := (c.1.run b c.2 m).2

/-! ## What the preflight has checked -/

theorem orExit_eq_ok {α : Type} {code : ExitCode} {x : Option α} {a : α} :
    orExit code x = .ok a ↔ x = some a := by
  cases x <;> simp [orExit]

theorem exitIf_eq_ok {condition : Bool} {code : ExitCode} {u : Unit} :
    exitIf condition code = .ok u ↔ condition = false := by
  cases condition <;> simp [exitIf]

theorem bind_eq_ok {α β : Type} {x : Except ExitCode α} {f : α → Except ExitCode β} {c : β} :
    x >>= f = .ok c ↔ ∃ a, x = .ok a ∧ f a = .ok c := by
  cases x <;> simp [bind, Except.bind]

/-- The key was given on the command line, or it is the embedded one and none was given. -/
def Trusts (b : Build) (f : UpdateFlags) (key : TrustedKey) : Prop :=
  ∃ k ∈ (if f.trustedKeys.isEmpty then [(b.kEmbeddedReleaseKeyId, b.kEmbeddedReleasePubkeyHex)]
      else f.trustedKeys),
    key.publicKeyId = k.1 ∧ k.2.toList = hexEncode key.publicKey

theorem addTrustedKeys_mem {keys : List (String × String)} {trust trust' : TrustStore}
    (h : addTrustedKeys keys trust = some trust') {key : TrustedKey} (hkey : key ∈ trust') :
    key ∈ trust ∨ ∃ k ∈ keys, key.publicKeyId = k.1 ∧ k.2.toList = hexEncode key.publicKey := by
  induction keys generalizing trust with
  | nil =>
    obtain rfl := Option.some.inj h
    exact .inl hkey
  | cons k keys ih =>
    obtain ⟨added, hadded, hrest⟩ := Option.bind_eq_some_iff.mp h
    obtain ⟨new, rfl, hid, hhex⟩ := TrustStore.addHex_eq_some hadded
    rcases ih hrest with hmem | ⟨k', hk', hfrom⟩
    · rcases List.mem_append.mp hmem with hmem | hmem
      · exact .inl hmem
      · obtain rfl := List.mem_singleton.mp hmem
        exact .inr ⟨k, List.mem_cons_self, hid, hhex⟩
    · exact .inr ⟨k', List.mem_cons_of_mem _ hk', hfrom⟩

theorem trusts_of_mem {b : Build} {f : UpdateFlags} {trust : TrustStore}
    (h : trustStore b f = some trust) {key : TrustedKey} (hkey : key ∈ trust) : Trusts b f key := by
  unfold trustStore at h
  unfold Trusts
  split_ifs at h ⊢ with hempty
  · obtain rfl := Option.some.inj h
    unfold embeddedTrustStore at hkey
    cases hadd : TrustStore.addHex b.kEmbeddedReleaseKeyId b.kEmbeddedReleasePubkeyHex [] with
    | none => simp [hadd] at hkey
    | some trust =>
      obtain ⟨new, rfl, hid, hhex⟩ := TrustStore.addHex_eq_some hadd
      rw [hadd] at hkey
      obtain rfl : key = new := by simpa using hkey
      exact ⟨_, List.mem_singleton_self _, hid, hhex⟩
  · rcases addTrustedKeys_mem h hkey with hmem | hmem
    · exact absurd hmem (List.not_mem_nil)
    · exact hmem

/-- The manifest is what toml++ reads in the file that `--manifest` names, and the file that
`--signature` names holds a signature of these very bytes under a trusted key that goes by the key id
of the manifest. -/
structure SignedManifest (b : Build) (f : UpdateFlags) (files : Files) (m : Manifest)
    (text signature : List UInt8) (key : TrustedKey) : Prop where
  manifest : files f.manifestPath = some text
  parsed : parseManifestString b.toml text = .ok m
  spelled : ∃ signatureText, files f.signaturePath = some signatureText ∧
    stripAsciiWs (asciiText signatureText) = hexEncode signature
  signed : Signed b.sodium text signature key
  trusted : Trusts b f key
  keyId : m.signing.publicKeyId = key.publicKeyId

/-- What the preflight lets through: a signed manifest without errors. -/
def Approved (b : Build) (f : UpdateFlags) (files : Files) (m : Manifest) : Prop :=
  NoErrors (validateManifest m) ∧
    ∃ text signature key, SignedManifest b f files m text signature key

theorem verifiedManifest_eq_ok {b : Build} {f : UpdateFlags} {files : Files} {m : Manifest}
    (h : verifiedManifest b f files = .ok m) : Approved b f files m := by
  simp only [verifiedManifest, bind_eq_ok, orExit_eq_ok, exitIf_eq_ok] at h
  obtain ⟨_, -, text, htext, signatureText, hsignatureText, signature, hsignature, manifest,
    hmanifest, _, hvalid, trust, htrust, _, hverified, h⟩ := h
  obtain rfl := Except.ok.inj h
  have hparsed : parseManifestString b.toml text = .ok manifest := by
    cases hparse : parseManifestString b.toml text with
    | error e => simp [hparse, Except.toOption] at hmanifest
    | ok parsed =>
      rw [hparse] at hmanifest
      rw [Option.some.inj hmanifest]
  obtain ⟨key, hkey, hsigned⟩ := (verifyManifestSignature_ok_iff _ _ _ _ _).mp
    (by simpa using hverified)
  obtain ⟨hmem, hid⟩ := TrustStore.find_eq_some hkey
  exact ⟨by simpa using hvalid, text, signature, key, htext, hparsed,
    ⟨signatureText, hsignatureText, hexDecode_eq_some_iff.mp hsignature⟩, hsigned,
    trusts_of_mem htrust hmem, hid.symm⟩

theorem updatePreflight_eq_ok {b : Build} {f : UpdateFlags} {files : Files} {system : Clock}
    {stateFile : Option FileText} {pf : UpdatePreflight}
    (h : updatePreflight b f files system stateFile = .ok pf) :
    verifiedManifest b f files = .ok pf.manifest ∧
      pf.state = loadedState b.env.parse (statePath b f) stateFile ∧
      pf.statePath = statePath b f ∧ hostPlatform b f = some pf.host := by
  simp only [updatePreflight, bind_eq_ok, orExit_eq_ok] at h
  obtain ⟨manifest, hmanifest, host, hhost, clock, -, h⟩ := h
  obtain rfl := Except.ok.inj h
  exact ⟨hmanifest, rfl, rfl, hhost⟩

end Souxmar.Updater.Cli
