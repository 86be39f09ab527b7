import Souxmar.Updater.Manifest
import Souxmar.Updater.Rfc3339
import Souxmar.Updater.Version

/-!
# The apply gate

`applyGate` decides whether a manifest would be applied now, and with which artifact
(`state_machine.cpp`). The checks run in the source's order and the first failing one is reported.

`applyGate_apply_iff` is the specification of the accepting side: what holds of the three versions,
the clock and the artifact list when the gate says yes.
-/

namespace Souxmar.Updater

structure HostPlatform where
  os : Os
  arch : Arch
deriving DecidableEq, Repr

/-- What the gate knows of the running install; an empty version means "none". -/
structure CurrentInstall where
  currentVersion : String
  maxVersionEverSeen : String
  platform : HostPlatform
deriving DecidableEq, Repr

inductive RefusalReason
  | alreadyOnOrAheadOfOffered
  | expired
  | expiredInvalidTime
  | belowMinPrevious
  | replayDowngrade
  | noArtifactForPlatform
  | malformedOfferedVersion
  | malformedCurrentVersion
  | malformedReplayFloor
deriving DecidableEq, Repr

structure UpdateRefusal where
  reason : RefusalReason
  detail : String
deriving DecidableEq, Repr

structure UpdateApply where
  version : String
  artifact : Artifact
  mandatory : Bool
deriving DecidableEq, Repr

inductive UpdateDecision
  | apply (u : UpdateApply)
  | refusal (r : UpdateRefusal)
deriving DecidableEq, Repr

def refuse (reason : RefusalReason) (detail : String) : UpdateDecision := .refusal ⟨reason, detail⟩

/-- The artifact loop at the end of the gate. -/
def pickArtifact (m : Manifest) (platform : HostPlatform) : Option Artifact :=
  m.artifacts.find? fun a => a.os = platform.os && a.arch = platform.arch

/-- Steps 8 and 9 of the gate: the replay floor, then the artifact. -/
def gateReplay (m : Manifest) (install : CurrentInstall) : UpdateDecision :=
  if install.maxVersionEverSeen ≠ "" ∧
      (compareVersions m.release.version install.maxVersionEverSeen).any (· < 0) then
    refuse .replayDowngrade
      ("offered " ++ m.release.version ++ " < highest-seen " ++ install.maxVersionEverSeen)
  else
    match pickArtifact m install.platform with
    | some a => .apply ⟨m.release.version, a, m.release.mandatory⟩
    | none => refuse .noArtifactForPlatform
        ("no artifact for " ++ install.platform.os.toStr ++ "/" ++ install.platform.arch.toStr ++
          " in " ++ toString m.artifacts.length ++ " manifest entries")

/-- Steps 7 to 9: the minimum previous version, then the rest. -/
def gateMinPrevious (m : Manifest) (install : CurrentInstall) : UpdateDecision :=
  if m.release.minPreviousVersion ≠ "" ∧ install.currentVersion ≠ "" then
    match compareVersions install.currentVersion m.release.minPreviousVersion with
    | none => refuse .malformedOfferedVersion
        ("release.min_previous_version '" ++ m.release.minPreviousVersion ++
          "' is not MAJOR.MINOR.PATCH numeric")
    | some cmp =>
      if cmp < 0 then
        refuse .belowMinPrevious
          ("current " ++ install.currentVersion ++ " < min_previous_version " ++
            m.release.minPreviousVersion)
      else gateReplay m install
  else gateReplay m install

/-- Steps 5 to 9: the freshness window, then the rest. -/
def gateFreshness (m : Manifest) (install : CurrentInstall) (now : TimePoint) : UpdateDecision :=
  if m.channel.expiresAt ≠ "" then
    match parseRfc3339Utc m.channel.expiresAt with
    | none => refuse .expiredInvalidTime
        ("channel.expires_at '" ++ m.channel.expiresAt ++
          "' is not in canonical RFC-3339 UTC form")
    | some expires =>
      if now ≥ expires then
        refuse .expired
          ("channel.expires_at " ++ m.channel.expiresAt ++
            " is in the past relative to wall clock")
      else gateMinPrevious m install
  else gateMinPrevious m install

def applyGate (m : Manifest) (install : CurrentInstall) (now : TimePoint) : UpdateDecision :=
  if splitVersion m.release.version = none then
    refuse .malformedOfferedVersion
      ("release.version '" ++ m.release.version ++ "' is not MAJOR.MINOR.PATCH numeric")
  else if install.currentVersion ≠ "" ∧ splitVersion install.currentVersion = none then
    refuse .malformedCurrentVersion
      ("current_version '" ++ install.currentVersion ++ "' is not MAJOR.MINOR.PATCH numeric")
  else if install.maxVersionEverSeen ≠ "" ∧ splitVersion install.maxVersionEverSeen = none then
    refuse .malformedReplayFloor
      ("max_version_ever_seen '" ++ install.maxVersionEverSeen ++
        "' is not MAJOR.MINOR.PATCH numeric")
  else if install.currentVersion ≠ "" ∧
      (compareVersions install.currentVersion m.release.version).any (· ≥ 0) then
    refuse .alreadyOnOrAheadOfOffered
      ("current " ++ install.currentVersion ++ " >= offered " ++ m.release.version)
  else gateFreshness m install now

/-! ### What an acceptance says -/

/-- The freshness window is open: no `expires_at`, or one that lies after `now`. -/
def Fresh (m : Manifest) (now : TimePoint) : Prop :=
  m.channel.expiresAt = "" ∨ ∃ expires, parseRfc3339Utc m.channel.expiresAt = some expires ∧
    now < expires

/-- The install satisfies the manifest's `min_previous_version`, when both are set. -/
def MinPreviousMet (m : Manifest) (install : CurrentInstall) : Prop :=
  m.release.minPreviousVersion = "" ∨ install.currentVersion = "" ∨
    ∃ c, compareVersions install.currentVersion m.release.minPreviousVersion = some c ∧ 0 ≤ c

/-- Version string `s` is empty or denotes a version related to `offered` by `r`. -/
def EmptyOr (r : Version → Version → Prop) (s : String) (offered : Version) : Prop :=
  s = "" ∨ ∃ v, versionOf s = some v ∧ r v offered

/-- Everything the gate checks before it accepts. -/
structure Accepts (m : Manifest) (install : CurrentInstall) (now : TimePoint)
    (u : UpdateApply) : Prop where
  offered : ∃ v, versionOf m.release.version = some v ∧
    EmptyOr (· < ·) install.currentVersion v ∧ EmptyOr (· ≤ ·) install.maxVersionEverSeen v
  fresh : Fresh m now
  minPrevious : MinPreviousMet m install
  artifact : pickArtifact m install.platform = some u.artifact
  version : u.version = m.release.version
  mandatory : u.mandatory = m.release.mandatory

theorem refuse_ne_apply (r : RefusalReason) (d : String) (u : UpdateApply) :
    refuse r d ≠ .apply u := by
  simp [refuse]

theorem gateReplay_apply_iff (m : Manifest) (install : CurrentInstall) (u : UpdateApply) :
    gateReplay m install = .apply u ↔
      ¬ (install.maxVersionEverSeen ≠ "" ∧
        (compareVersions m.release.version install.maxVersionEverSeen).any (· < 0)) ∧
      pickArtifact m install.platform = some u.artifact ∧ u.version = m.release.version ∧
      u.mandatory = m.release.mandatory := by
  unfold gateReplay
  split_ifs with hfloor
  · simp [refuse_ne_apply, hfloor]
  · cases hp : pickArtifact m install.platform with
    | none => simp [refuse_ne_apply]
    | some a =>
      obtain ⟨version, artifact, mandatory⟩ := u
      simp only [UpdateDecision.apply.injEq, UpdateApply.mk.injEq, Option.some.injEq, hfloor,
        not_false_eq_true, true_and]
      constructor <;> rintro ⟨rfl, rfl, rfl⟩ <;> exact ⟨rfl, rfl, rfl⟩

theorem gateMinPrevious_apply_iff (m : Manifest) (install : CurrentInstall) (u : UpdateApply) :
    gateMinPrevious m install = .apply u ↔
      MinPreviousMet m install ∧ gateReplay m install = .apply u := by
  unfold gateMinPrevious MinPreviousMet
  by_cases hset : m.release.minPreviousVersion ≠ "" ∧ install.currentVersion ≠ ""
  · rw [if_pos hset]
    cases hc : compareVersions install.currentVersion m.release.minPreviousVersion with
    | none => simp [refuse_ne_apply, hset.1, hset.2]
    | some c =>
      by_cases hneg : c < 0
      · simp [hneg, refuse_ne_apply, hset.1, hset.2]
      · simp [hneg, hset.1, hset.2, not_lt.mp hneg]
  · rw [if_neg hset]
    have hempty : m.release.minPreviousVersion = "" ∨ install.currentVersion = "" := by tauto
    constructor
    · intro h
      exact ⟨hempty.imp id Or.inl, h⟩
    · exact And.right

theorem gateFreshness_apply_iff (m : Manifest) (install : CurrentInstall) (now : TimePoint)
    (u : UpdateApply) :
    gateFreshness m install now = .apply u ↔
      Fresh m now ∧ gateMinPrevious m install = .apply u := by
  unfold gateFreshness Fresh
  by_cases hset : m.channel.expiresAt = ""
  · simp [hset]
  · cases hp : parseRfc3339Utc m.channel.expiresAt with
    | none => simp [hset, refuse_ne_apply]
    | some expires =>
      by_cases hnow : now ≥ expires
      · simp [hset, hnow, refuse_ne_apply, Int64.not_lt.mpr hnow]
      · simp [hset, hnow, Int64.not_le.mp hnow]

theorem ahead_iff {a b : String} {x y : Version} (ha : versionOf a = some x)
    (hb : versionOf b = some y) : (compareVersions a b).any (· ≥ 0) = true ↔ y ≤ x := by
  obtain ⟨c, hc, hlt, _⟩ := compareVersions_spec ha hb
  rw [hc, Option.any_some, decide_eq_true_eq, ge_iff_le, ← not_lt, hlt, not_lt]

theorem below_iff {a b : String} {x y : Version} (ha : versionOf a = some x)
    (hb : versionOf b = some y) : (compareVersions a b).any (· < 0) = true ↔ x < y := by
  obtain ⟨c, hc, hlt, _⟩ := compareVersions_spec ha hb
  simp [hc, hlt]

/-- **The gate accepts exactly what it promises to accept.** -/
theorem applyGate_apply_iff (m : Manifest) (install : CurrentInstall) (now : TimePoint)
    (u : UpdateApply) : applyGate m install now = .apply u ↔ Accepts m install now u := by
  unfold applyGate
  cases hoff : versionOf m.release.version with
  | none =>
    rw [if_pos ((splitVersion_eq_none_iff _).mpr hoff)]
    refine ⟨fun h => absurd h (refuse_ne_apply _ _ _), fun h => ?_⟩
    obtain ⟨v, hv, _⟩ := h.offered
    simp [hoff] at hv
  | some offered =>
    rw [if_neg (by simp [splitVersion_eq_none_iff, hoff])]
    by_cases hcurbad : install.currentVersion ≠ "" ∧ splitVersion install.currentVersion = none
    · rw [if_pos hcurbad]
      refine ⟨fun h => absurd h (refuse_ne_apply _ _ _), fun h => ?_⟩
      obtain ⟨v, _, hcur, _⟩ := h.offered
      rcases hcur with hcur | ⟨c, hc, _⟩
      · exact absurd hcur hcurbad.1
      · simp [(splitVersion_eq_none_iff _).mp hcurbad.2] at hc
    rw [if_neg hcurbad]
    by_cases hmaxbad : install.maxVersionEverSeen ≠ "" ∧
        splitVersion install.maxVersionEverSeen = none
    · rw [if_pos hmaxbad]
      refine ⟨fun h => absurd h (refuse_ne_apply _ _ _), fun h => ?_⟩
      obtain ⟨v, _, _, hmax⟩ := h.offered
      rcases hmax with hmax | ⟨c, hc, _⟩
      · exact absurd hmax hmaxbad.1
      · simp [(splitVersion_eq_none_iff _).mp hmaxbad.2] at hc
    rw [if_neg hmaxbad]
    have hcur : (¬ (install.currentVersion ≠ "" ∧
        (compareVersions install.currentVersion m.release.version).any (· ≥ 0))) ↔
        EmptyOr (· < ·) install.currentVersion offered := by
      by_cases he : install.currentVersion = ""
      · simp [he, EmptyOr]
      · obtain ⟨c, hc⟩ : ∃ c, versionOf install.currentVersion = some c := by
          refine Option.ne_none_iff_exists'.mp fun hn => hcurbad ⟨he, ?_⟩
          exact (splitVersion_eq_none_iff _).mpr hn
        rw [ahead_iff hc hoff]
        simp [EmptyOr, he, hc]
    have hmax : (¬ (install.maxVersionEverSeen ≠ "" ∧
        (compareVersions m.release.version install.maxVersionEverSeen).any (· < 0))) ↔
        EmptyOr (· ≤ ·) install.maxVersionEverSeen offered := by
      by_cases he : install.maxVersionEverSeen = ""
      · simp [he, EmptyOr]
      · obtain ⟨c, hc⟩ : ∃ c, versionOf install.maxVersionEverSeen = some c := by
          refine Option.ne_none_iff_exists'.mp fun hn => hmaxbad ⟨he, ?_⟩
          exact (splitVersion_eq_none_iff _).mpr hn
        rw [below_iff hoff hc]
        simp [EmptyOr, he, hc]
    by_cases hahead : install.currentVersion ≠ "" ∧
        (compareVersions install.currentVersion m.release.version).any (· ≥ 0)
    · rw [if_pos hahead]
      refine ⟨fun h => absurd h (refuse_ne_apply _ _ _), fun h => ?_⟩
      obtain ⟨v, hv, hlt, _⟩ := h.offered
      obtain rfl : offered = v := by simpa [hoff] using hv
      exact absurd hahead (hcur.mpr hlt)
    · rw [if_neg hahead, gateFreshness_apply_iff, gateMinPrevious_apply_iff, gateReplay_apply_iff,
        hmax]
      constructor
      · rintro ⟨hfresh, hmin, hfloor, hart, hver, hmand⟩
        exact ⟨⟨offered, hoff, hcur.mp hahead, hfloor⟩, hfresh, hmin, hart, hver, hmand⟩
      · rintro ⟨⟨v, hv, _, hfloor⟩, hfresh, hmin, hart, hver, hmand⟩
        obtain rfl : offered = v := by simpa [hoff] using hv
        exact ⟨hfresh, hmin, hfloor, hart, hver, hmand⟩

end Souxmar.Updater
