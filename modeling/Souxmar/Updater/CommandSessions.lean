import Mathlib.Data.List.ReduceOption
import Souxmar.Updater.Session
import Souxmar.Updater.UpdateCommands

/-!
# Sessions of update commands

Commands one after the other on one machine, with any flags, files, clocks and faults.
`payloads_are_signed` follows every payload under an install root back to the command that brought it
and to the signature it came with. `commands_refine_sessions` says that what the commands do to an
install root and a state file is a session of the updater's operations, each on a signed manifest.
-/

namespace Souxmar.Updater.Cli

open Souxmar.Lib

/-! ## Where payloads come from -/

theorem applyUpdate_payload {env : Env} {f : ApplyFaults} {ctx : ApplyContext} {s : Host} {v : String}
    {bytes : List UInt8} (h : (applyUpdate env f ctx s).2.layout.payload v = some bytes) :
    s.layout.payload v = some bytes ∨
      ∃ u, Verified env ctx s.state u ∧ v = u.version ∧
        bytes = f.payload.written ctx.artifactBytes := by
  by_cases hver : ∃ u, Verified env ctx s.state u
  swap
  · rw [(applyUpdate_unverified hver f).2] at h
    exact .inl h
  obtain ⟨u, hu⟩ := hver
  rw [applyUpdate_verified hu, applyVerified] at h
  cases hstaged : (s.layout.stageVersion f.payload u.version ctx.artifactBytes).1 with
  | false =>
    simp only [hstaged, Bool.not_false, if_true] at h
    rw [InstallLayout.stageVersion_failed hstaged] at h
    split_ifs at h
    exact .inl h
  | true =>
    have hpay := InstallLayout.stageVersion_payload hstaged v
    obtain ⟨layout, hlayout⟩ : ∃ layout,
        (s.layout.stageVersion f.payload u.version ctx.artifactBytes).2 = layout := ⟨_, rfl⟩
    rw [hlayout] at hpay
    simp only [hstaged, hlayout, Bool.not_true, Bool.false_eq_true, if_false] at h
    have hframe := (InstallLayout.atomicSwitchTo_frame f.switch layout.readCurrentVersion u.version
      layout).1
    have hkept : layout.payload v = some bytes → s.layout.payload v = some bytes ∨
        ∃ u, Verified env ctx s.state u ∧ v = u.version ∧
          bytes = f.payload.written ctx.artifactBytes := by
      intro h
      rw [hpay] at h
      split_ifs at h with hv
      · exact .inr ⟨u, hu, hv, (Option.some.inj h).symm⟩
      · exact .inl h
    apply hkept
    cases hswitch : (layout.atomicSwitchTo f.switch layout.readCurrentVersion u.version).1 with
    | false =>
      simp only [hswitch, Bool.not_false, if_true] at h
      rw [InstallLayout.payload, hframe] at h
      exact h
    | true =>
      simp only [hswitch, Bool.not_true, Bool.false_eq_true, if_false] at h
      obtain ⟨log, hlog⟩ := finishApply_layout env f ctx u layout.readCurrentVersion
        { s with layout := (layout.atomicSwitchTo f.switch layout.readCurrentVersion u.version).2 }
      rw [hlog] at h
      rcases InstallLayout.gcLoop_payload f.gc [] _ _ _ _ v with hsame | hgone
      · rw [InstallLayout.gcUnreferenced, hsame, InstallLayout.payload, hframe] at h
        exact h
      · rw [InstallLayout.gcUnreferenced, hgone] at h
        cases h

theorem rollback_versions (env : Env) (f : RollbackFaults) (now : TimePoint) (s : Host) :
    (rollback env f now s).2.layout.versions = s.layout.versions := by
  unfold rollback
  split_ifs
  · rfl
  · split
    · rfl
    · rename_i target _
      have hframe := (InstallLayout.atomicSwitchTo_frame f.switch s.layout.readCurrentVersion target
        s.layout).1
      unfold rollbackTo
      dsimp only
      split_ifs
      · rfl
      · exact hframe
      · exact hframe

/-- The command is an apply that was given these bytes as the artifact, and an approved manifest whose
release is the version and which names, for the platform, the size and the digest of the bytes. -/
structure Delivers (b : Build) (root version : String) (bytes : List UInt8)
    (c : Command × Invocation) : Prop where
  apply : c.1 = .apply
  root : c.2.flags.targetRoot = root
  artifact : c.2.files c.2.flags.artifactPath = some bytes
  approved : ∃ m platform a, Approved b c.2.flags c.2.files m ∧ m.release.version = version ∧
    hostPlatform b c.2.flags = some platform ∧ pickArtifact m platform = some a ∧
    a.size = bytes.length ∧ a.sha256 = b.env.sha256Hex bytes

theorem cmdUpdateCheck_roots (b : Build) (i : Invocation) (m : Machine) :
    (cmdUpdateCheck b i m).2.roots = m.roots := by
  unfold cmdUpdateCheck
  split <;> rfl

theorem payload_of_update {roots : String → InstallLayout} {target root v : String} {l : InstallLayout}
    {bytes : List UInt8} (h : ((Function.update roots target l) root).payload v = some bytes) :
    (roots root).payload v = some bytes ∨ (target = root ∧ l.payload v = some bytes) := by
  by_cases hroot : root = target
  · rw [hroot, Function.update_self] at h
    exact .inr ⟨hroot.symm, h⟩
  · rw [Function.update_of_ne hroot] at h
    exact .inl h

theorem cmdUpdateApply_payload {b : Build} {m : Machine} {i : Invocation} {root v : String}
    {bytes : List UInt8} (h : ((cmdUpdateApply b i m).2.roots root).payload v = some bytes) :
    (m.roots root).payload v = some bytes ∨
      ∃ artifact, Delivers b root v artifact (.apply, i) ∧ bytes = i.applyFaults.payload.written artifact := by
  rw [cmdUpdateApply] at h
  split_ifs at h with hdry husage
  · rw [cmdUpdateCheck_roots] at h
    exact .inl h
  · exact .inl h
  · cases hpre : updatePreflight b i.flags i.files i.clock (m.states (statePath b i.flags)) with
    | error code =>
      rw [hpre] at h
      exact .inl h
    | ok pf =>
      rw [hpre] at h
      dsimp only at h
      cases hartifact : i.files i.flags.artifactPath with
      | none =>
        rw [hartifact] at h
        exact .inl h
      | some artifactBytes =>
        rw [hartifact] at h
        rcases payload_of_update h with hold | ⟨hroot, hnew⟩
        · exact .inl hold
        · rcases applyUpdate_payload hnew with hold | ⟨u, hu, hv, hbytes⟩
          · exact .inl (hroot ▸ hold)
          · obtain ⟨hmanifest, -, -, hplatform⟩ := updatePreflight_eq_ok hpre
            have hdelivers : Delivers b root v artifactBytes (.apply, i) :=
              ⟨rfl, hroot, hartifact, pf.manifest, pf.host, u.artifact,
                verifiedManifest_eq_ok hmanifest, hu.accepts.version.symm.trans hv.symm, hplatform,
                hu.accepts.artifact, hu.size.symm, hu.sha256.symm⟩
            exact .inr ⟨artifactBytes, hdelivers, hbytes⟩

theorem cmdUpdateRollback_payload {b : Build} {m : Machine} {i : Invocation} {root v : String}
    {bytes : List UInt8} (h : ((cmdUpdateRollback b i m).2.roots root).payload v = some bytes) :
    (m.roots root).payload v = some bytes := by
  rw [cmdUpdateRollback] at h
  split_ifs at h with husage
  · exact h
  · dsimp only at h
    cases hclock : clockOf i.flags i.clock with
    | none =>
      rw [hclock] at h
      exact h
    | some clock =>
      rw [hclock] at h
      rcases payload_of_update h with hold | ⟨hroot, hnew⟩
      · exact hold
      · rw [InstallLayout.payload, rollback_versions] at hnew
        exact hroot ▸ hnew

theorem cliStep_payload {b : Build} {m : Machine} {c : Command × Invocation} {root v : String}
    {bytes : List UInt8} (h : ((cliStep b m c).roots root).payload v = some bytes) :
    (m.roots root).payload v = some bytes ∨
      ∃ artifact, Delivers b root v artifact c ∧ bytes = c.2.applyFaults.payload.written artifact := by
  obtain ⟨command, i⟩ := c
  cases command with
  | check =>
    rw [cliStep, Command.run, cmdUpdateCheck_roots] at h
    exact .inl h
  | apply => exact cmdUpdateApply_payload h
  | rollback => exact .inl (cmdUpdateRollback_payload h)

/-! ### The signature file -/

theorem mem_of_mem_hexEncode {bytes : List UInt8} {c : Char} (hc : c ∈ hexEncode bytes) :
    c ∈ kHexDigits := by
  obtain ⟨b, -, hc⟩ := List.mem_flatMap.mp hc
  have hb := b.toNat_lt
  have hdigits : ∀ n < 16, kHexDigits.getD n '0' ∈ kHexDigits := by decide
  rcases List.mem_cons.mp hc with rfl | hc
  · exact hdigits _ (by omega)
  · obtain rfl := List.mem_singleton.mp hc
    exact hdigits _ (by omega)

/-- A signature in hexadecimal, on a line of its own. -/
def signatureLine (signature : List UInt8) : List UInt8 :=
  (hexEncode signature ++ ['\n']).map fun c => UInt8.ofNat c.toNat

theorem asciiText_signatureLine (signature : List UInt8) :
    asciiText (signatureLine signature) = hexEncode signature ++ ['\n'] := by
  have hdigits : ∀ c ∈ kHexDigits ++ ['\n'], Char.ofNat (UInt8.ofNat c.toNat).toNat = c := by decide
  rw [asciiText, signatureLine, List.map_map]
  refine (List.map_congr_left fun c hc => ?_).trans (List.map_id _)
  refine hdigits c ?_
  rcases List.mem_append.mp hc with hc | hc
  · exact List.mem_append_left _ (mem_of_mem_hexEncode hc)
  · exact List.mem_append_right _ hc

theorem hexDecode_signatureLine (signature : List UInt8) :
    hexDecode (stripAsciiWs (asciiText (signatureLine signature))) = some signature := by
  have hspace : ∀ c ∈ kHexDigits, isAsciiWs c = false := by decide
  have hstripped : Stripped (String.ofList (hexEncode signature)) := by
    refine stripped_of_forall fun c hc => ?_
    rw [String.toList_ofList] at hc
    exact hspace c (mem_of_mem_hexEncode hc)
  have hline := readOneLine_marker hstripped
  rw [readOneLine, String.toList_ofList] at hline
  rw [asciiText_signatureLine, hexDecode_eq_some_iff]
  exact String.ofList_inj.mp hline

/-! ### A signed release -/

def asciiBytes (s : String) : List UInt8 := s.toList.map fun c => UInt8.ofNat c.toNat

def sampleManifestText : List UInt8 := asciiBytes <|
  "schema = 1\n" ++
  "[channel]\n" ++
  "name = \"stable\"\n" ++
  "[release]\n" ++
  "version = \"1.0.0\"\n" ++
  "[[artifact]]\n" ++
  "os = \"linux\"\n" ++
  "arch = \"x86_64\"\n" ++
  "url = \"https://dl.souxmar.invalid/1.0.0/linux-x86_64.tar.zst\"\n" ++
  "sha256 = \"4bf5122f344554c53bde2ebb8cd2b7e3d1600ad631c385a5d7cce23c7785459a\"\n" ++
  "size = 1\n" ++
  "[signing]\n" ++
  "algorithm = \"ed25519\"\n" ++
  "public_key_id = \"release-2026\"\n"

/-- What toml++ reads in it. -/
def sampleTable : TomlTable :=
  [("schema", .int 1), ("channel", .table [("name", .str "stable")]),
    ("release", .table [("version", .str "1.0.0")]),
    ("artifact", .arr [.table
      [("os", .str "linux"), ("arch", .str "x86_64"),
        ("url", .str "https://dl.souxmar.invalid/1.0.0/linux-x86_64.tar.zst"),
        ("sha256", .str "4bf5122f344554c53bde2ebb8cd2b7e3d1600ad631c385a5d7cce23c7785459a"),
        ("size", .int 1)]]),
    ("signing", .table [("algorithm", .str "ed25519"), ("public_key_id", .str "release-2026")])]

def samplePublicKey : List UInt8 :=
  [0x42, 0x48, 0x95, 0x71, 0x25, 0x41, 0x70, 0xd5, 0x8f, 0x9b, 0x61, 0x09, 0xe8, 0xb6, 0xc0, 0xed,
    0x2c, 0x90, 0xc4, 0xe6, 0xce, 0xe2, 0xf5, 0x56, 0x4c, 0x57, 0x7e, 0xca, 0x36, 0x19, 0xd1, 0xba]

/-- The signature of the text under the key. -/
def sampleSignature : List UInt8 :=
  [0xd3, 0x29, 0xda, 0x1f, 0xbf, 0x8b, 0x9f, 0x23, 0x08, 0x6c, 0xb7, 0x6c, 0x2b, 0xd9, 0xc5, 0xa0,
    0xf9, 0x82, 0xd9, 0x67, 0x3a, 0x4b, 0x1e, 0xb6, 0x7e, 0x90, 0x3c, 0xb7, 0xc6, 0xd5, 0xff, 0x67,
    0x6e, 0xfb, 0x64, 0xbc, 0xa0, 0x17, 0xde, 0xa5, 0x5b, 0xf9, 0xc7, 0x56, 0x38, 0x37, 0xab, 0x35,
    0x22, 0x62, 0xa2, 0xcf, 0x9b, 0x51, 0x7b, 0x6e, 0x14, 0xd3, 0xf8, 0xae, 0x97, 0xfd, 0x77, 0x02]

def sampleBuild : Build where
  env := sampleEnv
  toml :=
    { parse := fun text => if text = sampleManifestText then .ok sampleTable else .error "error"
      valueBool := fun _ => none }
  sodium :=
    { ready := true
      verifyDetached := fun signature message key =>
        signature = sampleSignature ∧ message = sampleManifestText ∧ key = samplePublicKey }
  versionString := "0.9.0"
  kEmbeddedReleaseKeyId := "release-2026"
  kEmbeddedReleasePubkeyHex := String.ofList (hexEncode samplePublicKey)
  defaultUpdateStatePath := "update-state.toml"
  host := ⟨.linux, .x86_64⟩

/-- `souxmar update apply` of the release. -/
def sampleApply : Invocation where
  flags :=
    { manifestPath := "manifest.toml", signaturePath := "manifest.toml.sig"
      artifactPath := "linux-x86_64.tar.zst", targetRoot := "/opt/souxmar" }
  files := fun path =>
    if path = "manifest.toml" then some sampleManifestText
    else if path = "manifest.toml.sig" then some (signatureLine sampleSignature)
    else if path = "linux-x86_64.tar.zst" then some [1]
    else none
  clock := ⟨fromTimeT 1778580000, fromTimeT 1778580000⟩

/-- Nothing is installed. -/
def freshMachine : Machine where
  roots _ := {}
  states _ := none

/-- What the parser makes of the table. -/
def sampleRelease : Manifest where
  release := { version := "1.0.0" }
  artifacts :=
    [⟨.linux, .x86_64, "https://dl.souxmar.invalid/1.0.0/linux-x86_64.tar.zst",
      "4bf5122f344554c53bde2ebb8cd2b7e3d1600ad631c385a5d7cce23c7785459a", 1⟩]
  signing := ⟨"ed25519", "release-2026"⟩

theorem parseManifestString_sample :
    parseManifestString sampleBuild.toml sampleManifestText = .ok sampleRelease := by
  have hparse : sampleBuild.toml.parse sampleManifestText = .ok sampleTable := by simp [sampleBuild]
  have hroot : parseRoot sampleBuild.toml sampleTable = .ok sampleRelease := by decide +kernel
  rw [parseManifestString, hparse]
  dsimp only
  rw [hroot]

/-- The key that the program comes with. -/
def sampleKey : TrustedKey where
  publicKeyId := "release-2026"
  publicKey := samplePublicKey
  named := by decide
  size := rfl

theorem trustStore_sample : trustStore sampleBuild sampleApply.flags = some [sampleKey] := by
  have hdecode : hexDecode sampleBuild.kEmbeddedReleasePubkeyHex.toList = some samplePublicKey := by
    rw [sampleBuild, String.toList_ofList, hexDecode_hexEncode]
  rw [trustStore, embeddedTrustStore, TrustStore.addHex, hdecode]
  rfl

theorem signed_sample : Signed sampleBuild.sodium sampleManifestText sampleSignature sampleKey where
  size := rfl
  nonempty h := by
    rw [sampleManifestText, asciiBytes, List.map_eq_nil_iff, String.toList_eq_nil_iff] at h
    exact absurd h (by decide)
  ready := rfl
  verified := by simp [sampleBuild, sampleKey]

theorem verifiedManifest_sampleApply :
    verifiedManifest sampleBuild sampleApply.flags sampleApply.files = .ok sampleRelease := by
  have hmanifest : sampleApply.files sampleApply.flags.manifestPath = some sampleManifestText := by
    simp [sampleApply]
  have hsignature : sampleApply.files sampleApply.flags.signaturePath =
      some (signatureLine sampleSignature) := by
    simp [sampleApply]
  simp only [verifiedManifest, bind_eq_ok, orExit_eq_ok, exitIf_eq_ok]
  refine ⟨(), by decide, sampleManifestText, hmanifest, signatureLine sampleSignature, hsignature,
    sampleSignature, hexDecode_signatureLine sampleSignature, sampleRelease, ?_, (), ?_, _,
    trustStore_sample, (), ?_, rfl⟩
  · rw [parseManifestString_sample]
    rfl
  · decide
  · rw [decide_eq_false_iff_not, not_not, verifyManifestSignature_ok_iff]
    exact ⟨sampleKey, rfl, signed_sample⟩

def samplePreflight : UpdatePreflight where
  manifest := sampleRelease
  state := {}
  statePath := "update-state.toml"
  currentVersion := "0.9.0"
  host := ⟨.linux, .x86_64⟩
  clock := ⟨fromTimeT 1778580000, fromTimeT 1778580000⟩

theorem updatePreflight_sampleApply :
    updatePreflight sampleBuild sampleApply.flags sampleApply.files sampleApply.clock none =
      .ok samplePreflight := by
  rw [updatePreflight, verifiedManifest_sampleApply]
  rfl

theorem artifact_sampleApply :
    sampleApply.files sampleApply.flags.artifactPath = some [1] := by
  simp [sampleApply]

theorem cliStep_apply {b : Build} {i : Invocation} (m : Machine) {pf : UpdatePreflight}
    {artifactBytes : List UInt8} (hdry : i.flags.dryRun = false) (hroot : i.flags.targetRoot ≠ "")
    (hpath : i.flags.artifactPath ≠ "")
    (hpre : updatePreflight b i.flags i.files i.clock (m.states (statePath b i.flags)) = .ok pf)
    (hartifact : i.files i.flags.artifactPath = some artifactBytes) :
    (cliStep b m (.apply, i)).roots i.flags.targetRoot =
      (applyUpdate b.env i.applyFaults (applyContext pf artifactBytes)
        ⟨m.layoutAt i.flags.targetRoot, pf.state⟩).2.layout := by
  rw [cliStep, Command.run, cmdUpdateApply, if_neg (by simp [hdry]), if_neg (by simp [hroot, hpath]), hpre]
  dsimp only
  rw [hartifact]
  exact Function.update_self ..

/-! ### Sessions -/

/-- **Every payload is signed.** In every session of commands a payload under an install root was
there at the beginning, or one of the commands has delivered it. A payload falls short of its artifact
only where the last flush of its file was lost. -/
theorem payloads_are_signed (b : Build) (m : Machine) (session : List (Command × Invocation))
    {root v : String} {bytes : List UInt8}
    (h : ((run (cliStep b) m session).roots root).payload v = some bytes) :
    (m.roots root).payload v = some bytes ∨ ∃ c ∈ session, ∃ artifact,
      Delivers b root v artifact c ∧ bytes = c.2.applyFaults.payload.written artifact := by
  induction session generalizing m with
  | nil => exact .inl h
  | cons c session ih =>
    rcases ih (cliStep b m c) h with hstep | ⟨c', hc', hdelivers⟩
    · rcases cliStep_payload hstep with hold | hdelivers
      · exact .inl hold
      · exact .inr ⟨c, List.mem_cons_self, hdelivers⟩
    · exact .inr ⟨c', List.mem_cons_of_mem _ hc', hdelivers⟩

theorem payloads_are_signed_release : ∃ artifact,
    Delivers sampleBuild "/opt/souxmar" "1.0.0" artifact (.apply, sampleApply) ∧
      [1] = sampleApply.applyFaults.payload.written artifact := by
  have htarget : sampleApply.flags.targetRoot = "/opt/souxmar" := rfl
  have hroot := cliStep_apply freshMachine rfl (by decide) (by decide) updatePreflight_sampleApply
    artifact_sampleApply
  have hpay : ((run (cliStep sampleBuild) freshMachine [(.apply, sampleApply)]).roots
      sampleApply.flags.targetRoot).payload "1.0.0" = some [1] := by
    rw [run_cons, run_nil, hroot]
    decide +kernel
  rw [← htarget]
  rcases payloads_are_signed sampleBuild freshMachine [(.apply, sampleApply)] hpay with h | ⟨c, hc, h⟩
  · cases h
  · obtain rfl := List.mem_singleton.mp hc
    exact h

/-! ## Sessions on one install root and one state file -/

/-- An install root and a state file, as the updater sees them. -/
def hostOf (b : Build) (root path : String) (m : Machine) : Host where
  layout := m.layoutAt root
  state := loadedState b.env.parse path (m.states path)

/-- A save puts the whole state in place or leaves the file as it was. -/
def Whole (f : StateFaults) : Prop :=
  f.createDir = true ∨ f.file.openTmp = true ∨ f.file.write = true ∨
    (f.file.flush = none ∧ (f.file.rename = true → ∀ n, f.file.copy ≠ .cut n))

theorem saveUpdateState_whole {f : StateFaults} (hf : Whole f) (old : Option FileText)
    (s : UpdateState) :
    (saveUpdateState f old s).2 = old ∨
      (saveUpdateState f old s).2 = some (renderUpdateState s) := by
  obtain ⟨createDir, openTmp, write, flush, rename, copy, removeTmp⟩ := f
  unfold saveUpdateState writeTmpRename WriteFaults.written
  cases createDir with
  | true => exact .inl rfl
  | false =>
    cases openTmp with
    | true => exact .inl rfl
    | false =>
      cases write with
      | true => exact .inl rfl
      | false =>
        obtain ⟨hflush, hcopy⟩ : flush = none ∧ (rename = true → ∀ n, copy ≠ .cut n) := by
          rcases hf with h | h | h | h
          · cases h
          · cases h
          · cases h
          · exact h
        subst hflush
        cases rename with
        | false => exact .inr rfl
        | true =>
          cases copy with
          | done => exact .inr rfl
          | untouched => exact .inl rfl
          | cut n => exact absurd rfl (hcopy rfl n)

/-- Texts that the state file carries: those of the state, and the versions that may get into it. -/
structure PlainHost (h : Host) : Prop where
  state : h.state.Plain
  versions : ∀ v bytes, h.layout.payload v = some bytes → PlainText v

theorem raiseFloor_plain {version floor : String} (hversion : PlainText version)
    (hfloor : PlainText floor) : PlainText (raiseFloor version floor) := by
  unfold raiseFloor
  split_ifs
  · exact hversion
  · exact hversion
  · exact hfloor

theorem Accepts.plain {m : Manifest} {install : CurrentInstall} {now : TimePoint} {u : UpdateApply}
    (h : Accepts m install now u) : PlainText u.version := by
  obtain ⟨v, hv, -⟩ := h.offered
  exact plainText_of_versionOf (h.version ▸ hv)

theorem hasVersionPayload_payload {l : InstallLayout} {v : String}
    (h : l.hasVersionPayload v = true) : ∃ bytes, l.payload v = some bytes := by
  unfold InstallLayout.hasVersionPayload at h
  cases hpay : l.payload v with
  | none => simp [hpay] at h
  | some bytes => exact ⟨bytes, rfl⟩

theorem cmdUpdateCheck_plain (m : Manifest) (currentVersion : String) (host : HostPlatform)
    (clock : Clock) {s : UpdateState} (hs : s.Plain) :
    (Updater.cmdUpdateCheck m currentVersion host clock s).2.Plain := by
  have hstamp := plainText_formatRfc3339Utc clock.atEvent
  unfold Updater.cmdUpdateCheck
  dsimp only
  split
  · rename_i u hgate
    have hu := Accepts.plain ((applyGate_apply_iff _ _ _ _).mp hgate)
    exact ⟨hs.currentInstalledVersion, raiseFloor_plain hu hs.maxVersionEverSeen, hstamp,
      hs.lastApplyAt⟩
  · exact ⟨hs.currentInstalledVersion, hs.maxVersionEverSeen, hstamp, hs.lastApplyAt⟩

theorem applyUpdate_plain {env : Env} {f : ApplyFaults} {ctx : ApplyContext} {h : Host}
    (hh : PlainHost h) : PlainHost (applyUpdate env f ctx h).2 := by
  refine ⟨?_, fun v bytes hpay => ?_⟩
  · rcases applyUpdate_state env f ctx h with ⟨-, hstate⟩ | ⟨u, hu, -, -, hstate⟩
    · rw [hstate]
      exact hh.state
    · rw [hstate]
      exact ⟨Accepts.plain hu.accepts,
        raiseFloor_plain (Accepts.plain hu.accepts) hh.state.maxVersionEverSeen,
        hh.state.lastCheckAt, plainText_formatRfc3339Utc _⟩
  · rcases applyUpdate_payload hpay with hold | ⟨u, hu, rfl, -⟩
    · exact hh.versions v bytes hold
    · exact Accepts.plain hu.accepts

theorem rollback_plain {env : Env} {f : RollbackFaults} {now : TimePoint} {h : Host}
    (hh : PlainHost h) : PlainHost (rollback env f now h).2 := by
  refine ⟨?_, fun v bytes hpay => ?_⟩
  · rcases rollback_state env f now h with ⟨-, hstate⟩ | ⟨target, htarget, -, -, hstate⟩
    · rw [hstate]
      exact hh.state
    · rw [hstate]
      obtain ⟨bytes, hbytes⟩ := hasVersionPayload_payload htarget
      exact ⟨hh.versions target bytes hbytes, hh.state.maxVersionEverSeen, hh.state.lastCheckAt,
        plainText_formatRfc3339Utc _⟩
  · rw [InstallLayout.payload, rollback_versions] at hpay
    exact hh.versions v bytes hpay

theorem applyUpdate_root (env : Env) (f : ApplyFaults) (ctx : ApplyContext) (h : Host) :
    (applyUpdate env f ctx h).2.layout.root = h.layout.root := by
  by_cases hver : ∃ u, Verified env ctx h.state u
  swap
  · rw [(applyUpdate_unverified hver f).2]
  obtain ⟨u, hu⟩ := hver
  have hstage := (InstallLayout.stageVersion_sameFiles f.payload u.version ctx.artifactBytes
    h.layout).root
  rw [applyUpdate_verified hu, applyVerified]
  dsimp only
  split_ifs
  · exact hstage
  · exact (InstallLayout.atomicSwitchTo_frame _ _ _ _).2.2.trans hstage
  · obtain ⟨log, hlog⟩ := finishApply_layout env f ctx u
      (h.layout.stageVersion f.payload u.version ctx.artifactBytes).2.readCurrentVersion
      { h with layout := ((h.layout.stageVersion f.payload u.version
        ctx.artifactBytes).2.atomicSwitchTo f.switch (h.layout.stageVersion f.payload u.version
        ctx.artifactBytes).2.readCurrentVersion u.version).2 }
    rw [hlog]
    exact (InstallLayout.gcUnreferenced_sameFiles _ _ _).root.trans
      ((InstallLayout.atomicSwitchTo_frame _ _ _ _).2.2.trans hstage)

theorem rollback_root (env : Env) (f : RollbackFaults) (now : TimePoint) (h : Host) :
    (rollback env f now h).2.layout.root = h.layout.root := by
  unfold rollback
  split_ifs
  · rfl
  · split
    · rfl
    · rename_i target _
      have hframe := (InstallLayout.atomicSwitchTo_frame f.switch h.layout.readCurrentVersion target
        h.layout).2.2
      unfold rollbackTo
      dsimp only
      split_ifs
      · rfl
      · exact hframe
      · exact hframe

/-- The operation that a command goes on to: a check or an apply on an approved manifest, or a
rollback. -/
def Performs (b : Build) (c : Command × Invocation) : Op → Prop
  | .check m _ host _ _ => c.1 ≠ .rollback ∧ Approved b c.2.flags c.2.files m ∧
    hostPlatform b c.2.flags = some host
  | .apply ctx f _ => c.1 = .apply ∧ Approved b c.2.flags c.2.files ctx.manifest ∧
    hostPlatform b c.2.flags = some ctx.platform ∧
    c.2.files c.2.flags.artifactPath = some ctx.artifactBytes ∧ f = c.2.applyFaults
  | .rollback _ f _ => c.1 = .rollback ∧ f = c.2.rollbackFaults

/-- The command works on this install root and this state file, or on neither. -/
def Bound (b : Build) (root path : String) (c : Command × Invocation) : Prop :=
  c.1 = .check ∨ (statePath b c.2.flags = path ↔ c.2.flags.targetRoot = root)

section

variable {b : Build} {root path : String} {m : Machine}

theorem hostOf_saveState (root path : String) (m : Machine) (hparse : ReadsStates b.env.parse)
    {f : StateFaults} (hf : Whole f) {s : UpdateState} (hs : s.Plain) : ∃ saved : Bool,
    hostOf b root path (m.saveState f path s) =
      ⟨m.layoutAt root, keepState saved (hostOf b root path m).state s⟩ := by
  have hfile : (m.saveState f path s).states path = (saveUpdateState f (m.states path) s).2 :=
    Function.update_self ..
  rw [hostOf, hfile]
  rcases saveUpdateState_whole hf (m.states path) s with hold | hnew
  · exact ⟨false, by rw [hold]; rfl⟩
  · refine ⟨true, ?_⟩
    rw [hnew, loadedState, load_saved hparse path hs]
    rfl

theorem saveState_other {f : StateFaults} {path' : String} (hpath : path' ≠ path) {s : UpdateState} :
    (m.saveState f path' s).states path = m.states path :=
  Function.update_of_ne hpath.symm ..

theorem layoutAt_setRoot {l : InstallLayout} (hl : l.root = root) :
    (m.setRoot root l).layoutAt root = l := by
  have hroot : (m.setRoot root l).roots root = l := Function.update_self ..
  rw [Machine.layoutAt, hroot, ← hl]

theorem hostOf_eq {m' : Machine} (hroots : m'.roots root = m.roots root)
    (hstates : m'.states path = m.states path) : hostOf b root path m' = hostOf b root path m := by
  rw [hostOf, Machine.layoutAt, hroots, hstates, hostOf, Machine.layoutAt]

/-- A command either leaves the host as it is or performs one operation on it. -/
inductive Moves (b : Build) (root path : String) (m m' : Machine) (c : Command × Invocation) : Prop
  | stays (same : hostOf b root path m' = hostOf b root path m)
  | performs (op : Op) (performed : Performs b c op)
    (step : hostOf b root path m' = step b.env (hostOf b root path m) op)

theorem cmdUpdateCheck_moves (hparse : ReadsStates b.env.parse)
    (hplain : PlainHost (hostOf b root path m)) (i : Invocation) (hwhole : Whole i.stateFaults)
    {command : Command} (hcommand : command ≠ .rollback) :
    Moves b root path m (cmdUpdateCheck b i m).2 (command, i) := by
  unfold cmdUpdateCheck
  cases hpre : updatePreflight b i.flags i.files i.clock (m.states (statePath b i.flags)) with
  | error code => exact .stays rfl
  | ok pf =>
    dsimp only
    obtain ⟨hmanifest, hstate, hpath, hhost⟩ := updatePreflight_eq_ok hpre
    by_cases hp : pf.statePath = path
    · subst hp
      rw [← hpath] at hstate
      have hs : pf.state.Plain := hstate ▸ hplain.state
      have hnew := cmdUpdateCheck_plain pf.manifest pf.currentVersion pf.host pf.clock hs
      obtain ⟨saved, hsaved⟩ := hostOf_saveState root pf.statePath m hparse hwhole hnew
      refine .performs (.check pf.manifest pf.currentVersion pf.host pf.clock saved)
        ⟨hcommand, verifiedManifest_eq_ok hmanifest, hhost⟩ ?_
      have hin : (hostOf b root pf.statePath m).state = pf.state := hstate.symm
      rw [hsaved, step, hin]
      rfl
    · exact .stays (hostOf_eq rfl (saveState_other hp))

theorem cmdUpdateApply_moves (hparse : ReadsStates b.env.parse) (hplain : PlainHost (hostOf b root path m))
    (i : Invocation) (hbound : statePath b i.flags = path ↔ i.flags.targetRoot = root)
    (hwhole : Whole i.stateFaults) : Moves b root path m (cmdUpdateApply b i m).2 (.apply, i) := by
  rw [cmdUpdateApply]
  split_ifs with hdry husage
  · exact cmdUpdateCheck_moves hparse hplain i hwhole (by simp)
  · exact .stays rfl
  · cases hpre : updatePreflight b i.flags i.files i.clock (m.states (statePath b i.flags)) with
    | error code => exact .stays rfl
    | ok pf =>
      dsimp only
      cases hartifact : i.files i.flags.artifactPath with
      | none => exact .stays rfl
      | some artifactBytes =>
        dsimp only
        obtain ⟨hmanifest, hstate, hpath, hhost⟩ := updatePreflight_eq_ok hpre
        rw [← hpath] at hbound hstate
        by_cases hp : pf.statePath = path
        · have hr := hbound.mp hp
          subst hp hr
          have hin : (⟨m.layoutAt i.flags.targetRoot, pf.state⟩ : Host) =
              hostOf b i.flags.targetRoot pf.statePath m := by
            rw [hstate]
            rfl
          rw [hin]
          obtain ⟨host, hhostEq⟩ : ∃ host, (applyUpdate b.env i.applyFaults
            (applyContext pf artifactBytes) (hostOf b i.flags.targetRoot pf.statePath m)).2 = host :=
            ⟨_, rfl⟩
          have hnew : PlainHost host := hhostEq ▸ applyUpdate_plain hplain
          have hroot : host.layout.root = i.flags.targetRoot := hhostEq ▸ applyUpdate_root ..
          rw [hhostEq]
          obtain ⟨saved, hsaved⟩ := hostOf_saveState i.flags.targetRoot pf.statePath
            (m.setRoot i.flags.targetRoot host.layout) hparse hwhole hnew.state
          refine .performs (.apply (applyContext pf artifactBytes) i.applyFaults saved)
            ⟨rfl, verifiedManifest_eq_ok hmanifest, hhost, hartifact, rfl⟩ ?_
          rw [hsaved, layoutAt_setRoot hroot, step, hhostEq]
          rfl
        · have hr : i.flags.targetRoot ≠ root := fun h => hp (hbound.mpr h)
          exact .stays (hostOf_eq (Function.update_of_ne hr.symm _ _) (saveState_other hp))

theorem cmdUpdateRollback_moves (hparse : ReadsStates b.env.parse) (hplain : PlainHost (hostOf b root path m))
    (i : Invocation) (hbound : statePath b i.flags = path ↔ i.flags.targetRoot = root)
    (hwhole : Whole i.stateFaults) : Moves b root path m (cmdUpdateRollback b i m).2 (.rollback, i) := by
  rw [cmdUpdateRollback]
  split_ifs with husage
  · exact .stays rfl
  · dsimp only
    cases hclock : clockOf i.flags i.clock with
    | none => exact .stays rfl
    | some clock =>
      dsimp only
      by_cases hp : statePath b i.flags = path
      · have hr := hbound.mp hp
        subst hp hr
        obtain ⟨host, hhostEq⟩ : ∃ host, (rollback b.env i.rollbackFaults clock.atEvent
          (hostOf b i.flags.targetRoot (statePath b i.flags) m)).2 = host := ⟨_, rfl⟩
        have hnew : PlainHost host := hhostEq ▸ rollback_plain hplain
        have hroot : host.layout.root = i.flags.targetRoot := hhostEq ▸ rollback_root ..
        rw [show (⟨m.layoutAt i.flags.targetRoot, loadedState b.env.parse (statePath b i.flags)
          (m.states (statePath b i.flags))⟩ : Host) =
            hostOf b i.flags.targetRoot (statePath b i.flags) m from rfl, hhostEq]
        obtain ⟨saved, hsaved⟩ := hostOf_saveState i.flags.targetRoot
          (statePath b i.flags) (m.setRoot i.flags.targetRoot host.layout) hparse hwhole
          hnew.state
        refine .performs (.rollback clock.atEvent i.rollbackFaults saved) ⟨rfl, rfl⟩ ?_
        rw [hsaved, layoutAt_setRoot hroot, step, hhostEq]
        rfl
      · have hr : i.flags.targetRoot ≠ root := fun h => hp (hbound.mpr h)
        exact .stays (hostOf_eq (Function.update_of_ne hr.symm _ _) (saveState_other hp))

theorem cliStep_moves (hparse : ReadsStates b.env.parse)
    (hplain : PlainHost (hostOf b root path m)) {c : Command × Invocation}
    (hbound : Bound b root path c) (hwhole : Whole c.2.stateFaults) :
    Moves b root path m (cliStep b m c) c := by
  obtain ⟨command, i⟩ := c
  cases command with
  | check => exact cmdUpdateCheck_moves hparse hplain i hwhole (by simp)
  | apply => exact cmdUpdateApply_moves hparse hplain i (hbound.resolve_left (by simp)) hwhole
  | rollback => exact cmdUpdateRollback_moves hparse hplain i (hbound.resolve_left (by simp)) hwhole

end

theorem keepState_plain {saved : Bool} {s s' : UpdateState} (hs : s.Plain) (hs' : s'.Plain) :
    (keepState saved s s').Plain := by
  cases saved
  · exact hs
  · exact hs'

theorem step_plain {env : Env} {h : Host} (hh : PlainHost h) (op : Op) : PlainHost (step env h op) := by
  cases op with
  | check m currentVersion host clock saved =>
    exact ⟨keepState_plain hh.state (cmdUpdateCheck_plain m currentVersion host clock hh.state),
      hh.versions⟩
  | apply ctx f saved =>
    have hnew : PlainHost (applyUpdate env f ctx h).2 := applyUpdate_plain hh
    exact ⟨keepState_plain hh.state hnew.state, hnew.versions⟩
  | rollback now f saved =>
    have hnew : PlainHost (rollback env f now h).2 := rollback_plain hh
    exact ⟨keepState_plain hh.state hnew.state, hnew.versions⟩

/-- **Commands refine sessions.** What a session of commands makes of an install root and of the state
file that goes with it is what a session of the updater's operations makes of them: at most one for each
command, in the order of the commands, and each check and apply on a manifest that was signed. -/
theorem commands_refine_sessions {b : Build} (hparse : ReadsStates b.env.parse) {root path : String}
    {m : Machine} (hplain : PlainHost (hostOf b root path m))
    {session : List (Command × Invocation)} (hbound : ∀ c ∈ session, Bound b root path c)
    (hwhole : ∀ c ∈ session, Whole c.2.stateFaults) :
    ∃ ops : List (Option Op), List.Forall₂ (fun c op => ∀ o ∈ op, Performs b c o) session ops ∧
      hostOf b root path (run (cliStep b) m session) =
        run (step b.env) (hostOf b root path m) ops.reduceOption := by
  induction session generalizing m with
  | nil => exact ⟨[], .nil, rfl⟩
  | cons c session ih =>
    have hmoves := cliStep_moves hparse hplain (hbound c List.mem_cons_self)
      (hwhole c List.mem_cons_self)
    have hrest := @ih (cliStep b m c)
    cases hmoves with
    | stays same =>
      rw [same] at hrest
      obtain ⟨ops, hops, hrun⟩ := hrest hplain (fun c' hc' => hbound c' (List.mem_cons_of_mem _ hc'))
        fun c' hc' => hwhole c' (List.mem_cons_of_mem _ hc')
      refine ⟨none :: ops, .cons (fun o ho => ?_) hops, ?_⟩
      · cases ho
      · rw [List.reduceOption_cons_of_none]
        exact hrun
    | performs op performed hstep =>
      rw [hstep] at hrest
      obtain ⟨ops, hops, hrun⟩ := hrest (step_plain hplain op)
        (fun c' hc' => hbound c' (List.mem_cons_of_mem _ hc'))
        fun c' hc' => hwhole c' (List.mem_cons_of_mem _ hc')
      refine ⟨some op :: ops, .cons (fun o ho => ?_) hops, ?_⟩
      · obtain rfl := Option.some.inj ho
        exact performed
      · rw [List.reduceOption_cons_of_some]
        exact hrun

theorem commands_refine_sessions_release : ∃ ops : List (Option Op),
    List.Forall₂ (fun c op => ∀ o ∈ op, Performs sampleBuild c o) [(Command.apply, sampleApply)] ops ∧
      hostOf sampleBuild "/opt/souxmar" "update-state.toml"
          (run (cliStep sampleBuild) freshMachine [(.apply, sampleApply)]) =
        run (step sampleEnv) { layout := { root := "/opt/souxmar" } } ops.reduceOption := by
  have hplain : PlainHost (hostOf sampleBuild "/opt/souxmar" "update-state.toml" freshMachine) :=
    ⟨⟨plainText_empty, plainText_empty, plainText_empty, plainText_empty⟩,
      fun v bytes h => by cases h⟩
  refine commands_refine_sessions tomlLines_readsStates hplain (fun c hc => ?_) fun c hc => ?_
  · obtain rfl := List.mem_singleton.mp hc
    exact .inr ⟨fun _ => rfl, fun _ => rfl⟩
  · obtain rfl := List.mem_singleton.mp hc
    exact .inr (.inr (.inr ⟨rfl, fun h => by cases h⟩))

end Souxmar.Updater.Cli
