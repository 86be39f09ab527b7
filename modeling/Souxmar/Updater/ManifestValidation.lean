import Souxmar.Updater.GateDecision
import Souxmar.Updater.Timestamps
import Mathlib.Data.List.Count
import Mathlib.Data.UInt

/-!
# What the validator lets through

`validate_manifest` of `manifest.cpp`, and its version check against the one of the gate. The validator
counts dots; the gate also wants a number before, between and behind them.
-/

namespace Souxmar.Updater

/-! ## The validator -/

inductive ManifestIssueSeverity
  | error
  | warning
deriving DecidableEq, Repr

structure ManifestValidationIssue where
  severity : ManifestIssueSeverity
  field : String
  message : String
deriving DecidableEq, Repr

def issueIf (condition : Bool) (severity : ManifestIssueSeverity) (field message : String) :
    List ManifestValidationIssue :=
  if condition then [⟨severity, field, message⟩] else []

def looksLikeHttpUrl (s : String) : Bool :=
  if s.utf8ByteSize < 8 then false
  else
    let https := "https://".toList.isPrefixOf s.toList
    let http := "http://".toList.isPrefixOf s.toList
    if !https && !http then false
    else
      let prefixLen := if https then 8 else 7
      if s.utf8ByteSize ≤ prefixLen then false else s.toList[prefixLen]? != some '/'

def isLowercaseHex64 (s : String) : Bool :=
  if s.utf8ByteSize ≠ 64 then false
  else s.toList.all fun c => ('0' ≤ c && c ≤ '9') || ('a' ≤ c && c ≤ 'f')

/-- The loop of `looks_semverish`. -/
def looksSemverishLoop : List Char → ℕ → Bool
  | [], dots => dots = 2
  | c :: cs, dots =>
    if c = '.' then if dots + 1 > 2 then false else looksSemverishLoop cs (dots + 1)
    else if notDigit c then false
    else looksSemverishLoop cs dots

def looksSemverish (v : String) : Bool :=
  if v.isEmpty then false else looksSemverishLoop v.toList 0

def Os.code : Os → UInt8
  | .linux => 0
  | .macos => 1
  | .windows => 2

def Arch.code : Arch → UInt8
  | .x86_64 => 0
  | .aarch64 => 1

/-- `(os << 8) | arch`. -/
def packPair (os : Os) (arch : Arch) : UInt16 := (os.code.toUInt16 <<< 8) ||| arch.code.toUInt16

def Artifact.pair (a : Artifact) : UInt16 := packPair a.os a.arch

def artifactField (i : ℕ) (field : String) : String := "artifacts[" ++ toString i ++ "]." ++ field

def validateArtifacts (seenPairs : List UInt16) (i : ℕ) : List Artifact → List ManifestValidationIssue
  | [] => []
  | a :: rest =>
    issueIf (seenPairs.contains a.pair) .error (artifactField i "os+arch")
      ("duplicate (os, arch) pair (" ++ a.os.toStr ++ ", " ++ a.arch.toStr ++
        ") — each platform tuple must appear exactly once") ++
    issueIf (!looksLikeHttpUrl a.url) .error (artifactField i "url")
      ("url must start with http:// or https:// (got: '" ++ a.url ++ "')") ++
    issueIf (!isLowercaseHex64 a.sha256) .error (artifactField i "sha256")
      ("sha256 must be exactly 64 lowercase hex characters (got: '" ++ a.sha256 ++ "', " ++
        toString a.sha256.utf8ByteSize ++ " chars)") ++
    issueIf (a.size = 0) .error (artifactField i "size")
      "size must be > 0 (got 0) — the pre-flight disk-space check cannot proceed against a zero-byte artifact declaration" ++
    validateArtifacts (a.pair :: seenPairs) (i + 1) rest

def validateManifest (m : Manifest) : List ManifestValidationIssue :=
  issueIf (m.signing.algorithm ≠ "ed25519") .error "signing.algorithm"
    ("unsupported signing algorithm '" ++ m.signing.algorithm ++ "' (v1 manifest must be 'ed25519')") ++
  issueIf m.signing.publicKeyId.isEmpty .error "signing.public_key_id"
    "public_key_id must not be empty — the verifier needs an id to look up the trust-store key" ++
  issueIf (!looksSemverish m.release.version) .error "release.version"
    ("version must look like MAJOR.MINOR.PATCH (got: '" ++ m.release.version ++ "')") ++
  issueIf m.release.rollbackTarget.isEmpty .warning "release.rollback_target"
    "rollback_target is empty — rollback will be disabled for this release; confirm this is intentional" ++
  issueIf m.release.minPreviousVersion.isEmpty .warning "release.min_previous_version"
    "min_previous_version is empty — clients at any earlier version may apply this update" ++
  issueIf m.channel.expiresAt.isEmpty .warning "channel.expires_at"
    "channel.expires_at is empty — the freshness check loses its grip on this manifest" ++
  validateArtifacts [] 0 m.artifacts

/-! ## What it asks for -/

/-- No issue of the list is an error. -/
def NoErrors (issues : List ManifestValidationIssue) : Prop :=
  ∀ issue ∈ issues, issue.severity ≠ .error

instance (issues : List ManifestValidationIssue) : Decidable (NoErrors issues) :=
  List.decidableBAll _ issues

theorem noErrors_append (a b : List ManifestValidationIssue) :
    NoErrors (a ++ b) ↔ NoErrors a ∧ NoErrors b := List.forall_mem_append

theorem noErrors_error (condition : Bool) (field message : String) :
    NoErrors (issueIf condition .error field message) ↔ condition = false := by
  cases condition <;> simp [issueIf, NoErrors]

theorem noErrors_warning (condition : Bool) (field message : String) :
    NoErrors (issueIf condition .warning field message) := by
  cases condition <;> simp [issueIf, NoErrors]

/-- What an artifact has to look like by itself. -/
structure Artifact.Sound (a : Artifact) : Prop where
  url : looksLikeHttpUrl a.url = true
  sha256 : isLowercaseHex64 a.sha256 = true
  size : a.size ≠ 0

/-- A manifest that may be published. -/
structure Publishable (m : Manifest) : Prop where
  algorithm : m.signing.algorithm = "ed25519"
  publicKeyId : m.signing.publicKeyId ≠ ""
  version : looksSemverish m.release.version = true
  sound : ∀ a ∈ m.artifacts, a.Sound
  platforms : (m.artifacts.map fun a => (a.os, a.arch)).Nodup

theorem packPair_inj {os os' : Os} {arch arch' : Arch} :
    packPair os arch = packPair os' arch' ↔ (os, arch) = (os', arch') := by
  cases os <;> cases arch <;> cases os' <;> cases arch' <;> decide

theorem noErrors_artifacts (seenPairs : List UInt16) (i : ℕ) (artifacts : List Artifact) :
    NoErrors (validateArtifacts seenPairs i artifacts) ↔
      (∀ a ∈ artifacts, a.Sound) ∧ (artifacts.map Artifact.pair).Nodup ∧
        ∀ a ∈ artifacts, a.pair ∉ seenPairs := by
  induction artifacts generalizing seenPairs i with
  | nil => simp [validateArtifacts, NoErrors]
  | cons a rest ih =>
    have hsound : a.Sound ↔
        looksLikeHttpUrl a.url = true ∧ isLowercaseHex64 a.sha256 = true ∧ a.size ≠ 0 :=
      ⟨fun h => ⟨h.url, h.sha256, h.size⟩, fun ⟨hurl, hhash, hsize⟩ => ⟨hurl, hhash, hsize⟩⟩
    simp only [validateArtifacts, noErrors_append, noErrors_error, ih, List.contains_eq_mem,
      decide_eq_false_iff_not, Bool.not_eq_false', List.mem_cons, forall_eq_or_imp, List.map_cons,
      List.nodup_cons, List.mem_map, hsound, not_or, not_exists, not_and]
    constructor
    · rintro ⟨⟨⟨⟨hnew, hurl⟩, hhash⟩, hsize⟩, hrest, hnodup, hseen⟩
      exact ⟨⟨⟨hurl, hhash, hsize⟩, hrest⟩, ⟨fun b hb => (hseen b hb).1, hnodup⟩, hnew,
        fun b hb => (hseen b hb).2⟩
    · rintro ⟨⟨⟨hurl, hhash, hsize⟩, hrest⟩, ⟨hfirst, hnodup⟩, hnew, hseen⟩
      exact ⟨⟨⟨⟨hnew, hurl⟩, hhash⟩, hsize⟩, hrest, hnodup, fun b hb => ⟨hfirst b hb, hseen b hb⟩⟩

theorem nodup_pairs_iff (artifacts : List Artifact) :
    (artifacts.map Artifact.pair).Nodup ↔ (artifacts.map fun a => (a.os, a.arch)).Nodup := by
  unfold List.Nodup
  rw [List.pairwise_map, List.pairwise_map]
  simp only [ne_eq, Artifact.pair, packPair_inj]

theorem noErrors_iff (m : Manifest) : NoErrors (validateManifest m) ↔ Publishable m := by
  simp only [validateManifest, noErrors_append, noErrors_error, noErrors_warning, noErrors_artifacts,
    and_true, ne_eq, decide_eq_false_iff_not, not_not, Bool.not_eq_false', List.not_mem_nil,
    not_false_eq_true, implies_true, nodup_pairs_iff, String.isEmpty_eq_false_iff]
  constructor
  · rintro ⟨⟨⟨halgorithm, hkey⟩, hversion⟩, hsound, hplatforms⟩
    exact ⟨halgorithm, hkey, hversion, hsound, hplatforms⟩
  · intro h
    exact ⟨⟨⟨h.algorithm, h.publicKeyId⟩, h.version⟩, h.sound, h.platforms⟩

/-! ## Two readers of versions -/

/-- Three runs of digits with dots between them; a run may be empty. -/
structure Dotted (s : String) (major minor patch : List Char) : Prop where
  text : s.toList = major ++ '.' :: (minor ++ '.' :: patch)
  isDigit : ∀ part ∈ [major, minor, patch], ∀ c ∈ part, c.isDigit

/-- A run of digits that is a number of 32 bits. -/
def Readable (part : List Char) : Prop := part ≠ [] ∧ decimal part < 2 ^ 32

/-- Wherever the string is three runs of digits with dots between them, each run is a number. -/
def ComponentsFit (s : String) : Prop :=
  ∀ major minor patch, Dotted s major minor patch → ∀ part ∈ [major, minor, patch], Readable part

theorem looksSemverishLoop_iff (l : List Char) {dots : ℕ} (hdots : dots ≤ 2) :
    looksSemverishLoop l dots = true ↔
      (∀ c ∈ l, c = '.' ∨ c.isDigit = true) ∧ dots + l.count '.' = 2 := by
  induction l generalizing dots with
  | nil => simp [looksSemverishLoop]
  | cons c cs ih =>
    rw [looksSemverishLoop, List.forall_mem_cons]
    by_cases hdot : c = '.'
    · rw [if_pos hdot, hdot, List.count_cons_self]
      by_cases hmany : dots + 1 > 2
      · rw [if_pos hmany]
        simp only [Bool.false_eq_true, false_iff, not_and]
        omega
      · rw [if_neg hmany, ih (by omega)]
        simp only [true_or, true_and]
        refine and_congr_right fun _ => ?_
        omega
    · rw [if_neg hdot, List.count_cons_of_ne hdot]
      by_cases hdigit : c.isDigit = true
      · rw [(notDigit_eq_false_iff c).mpr hdigit, if_neg Bool.false_ne_true, ih hdots]
        simp only [hdigit, or_true, true_and]
      · have hnot : notDigit c = true := by
          rw [← Bool.not_eq_false, notDigit_eq_false_iff]
          exact hdigit
        rw [if_pos hnot]
        simp [hdot, hdigit]

theorem split_at_dot {l : List Char} {n : ℕ} (hcount : l.count '.' = n + 1) :
    ∃ a b, l = a ++ '.' :: b ∧ '.' ∉ a ∧ b.count '.' = n := by
  have hmem : '.' ∈ l := List.count_pos_iff.mp (by omega)
  obtain ⟨a, b, rfl, ha⟩ := List.eq_append_cons_of_mem hmem
  refine ⟨a, b, rfl, ha, ?_⟩
  rw [List.count_append, List.count_cons_self, List.count_eq_zero.mpr ha] at hcount
  omega

theorem not_mem_of_digits {part : List Char} (h : ∀ c ∈ part, c.isDigit = true) : '.' ∉ part := by
  intro hdot
  exact absurd (h '.' hdot) (by decide)

theorem looksSemverish_iff (s : String) :
    looksSemverish s = true ↔ ∃ major minor patch, Dotted s major minor patch := by
  have hloop : looksSemverish s = looksSemverishLoop s.toList 0 := by
    unfold looksSemverish
    by_cases hempty : s = ""
    · rw [hempty]
      rfl
    · rw [(String.isEmpty_eq_false_iff).mpr hempty, if_neg Bool.false_ne_true]
  rw [hloop, looksSemverishLoop_iff _ (Nat.zero_le 2), Nat.zero_add]
  constructor
  · rintro ⟨hchars, hcount⟩
    obtain ⟨major, rest, hs, hmajor, hrest⟩ := split_at_dot hcount
    obtain ⟨minor, patch, rfl, hminor, hpatch⟩ := split_at_dot hrest
    have hdigits : ∀ part : List Char, (∀ c ∈ part, c ∈ s.toList) → '.' ∉ part →
        ∀ c ∈ part, c.isDigit = true := by
      intro part hpart hdot c hc
      refine (hchars c (hpart c hc)).resolve_left fun heq => hdot ?_
      rwa [heq] at hc
    refine ⟨major, minor, patch, hs, ?_⟩
    simp only [List.forall_mem_cons, List.not_mem_nil, IsEmpty.forall_iff, implies_true, and_true]
    refine ⟨hdigits _ ?_ hmajor, hdigits _ ?_ hminor, hdigits _ ?_ (List.count_eq_zero.mp hpatch)⟩
    all_goals
      intro c hc
      simp [hs, hc]
  · rintro ⟨major, minor, patch, hs, hdigits⟩
    simp only [List.forall_mem_cons, List.not_mem_nil, IsEmpty.forall_iff, implies_true,
      and_true] at hdigits
    obtain ⟨hmajor, hminor, hpatch⟩ := hdigits
    refine ⟨fun c hc => ?_, ?_⟩
    · rw [hs] at hc
      simp only [List.mem_append, List.mem_cons] at hc
      rcases hc with hc | hc | hc | hc | hc
      · exact Or.inr (hmajor c hc)
      · exact Or.inl hc
      · exact Or.inr (hminor c hc)
      · exact Or.inl hc
      · exact Or.inr (hpatch c hc)
    · rw [hs, List.count_append, List.count_cons_self, List.count_append, List.count_cons_self,
        List.count_eq_zero.mpr (not_mem_of_digits hmajor),
        List.count_eq_zero.mpr (not_mem_of_digits hminor),
        List.count_eq_zero.mpr (not_mem_of_digits hpatch)]

theorem Dotted.unique {s : String} {major minor patch major' minor' patch' : List Char}
    (h : Dotted s major minor patch) (h' : Dotted s major' minor' patch') :
    [major, minor, patch] = [major', minor', patch'] := by
  have hmajor := not_mem_of_digits (h.isDigit major (by simp))
  have hmajor' := not_mem_of_digits (h'.isDigit major' (by simp))
  have hminor := not_mem_of_digits (h.isDigit minor (by simp))
  have hminor' := not_mem_of_digits (h'.isDigit minor' (by simp))
  have hcut := cutAtDot_append hmajor (minor ++ '.' :: patch)
  rw [← h.text, h'.text, cutAtDot_append hmajor'] at hcut
  obtain ⟨rfl, hrest⟩ := Prod.mk.inj (Option.some.inj hcut)
  have hcut := cutAtDot_append hminor patch
  rw [← hrest, cutAtDot_append hminor'] at hcut
  obtain ⟨rfl, rfl⟩ := Prod.mk.inj (Option.some.inj hcut)
  rfl

theorem numeral_iff (part : List Char) :
    (∃ n, Numeral part n) ↔ (∀ c ∈ part, c.isDigit = true) ∧ Readable part := by
  constructor
  · rintro ⟨n, hn⟩
    refine ⟨hn.isDigit, hn.nonempty, ?_⟩
    rw [hn.value]
    exact hn.small
  · rintro ⟨hdigits, hnonempty, hsmall⟩
    exact ⟨decimal part, hnonempty, hdigits, rfl, hsmall⟩

theorem wellFormed_iff (s : String) : WellFormed s ↔
    ∃ major minor patch, Dotted s major minor patch ∧ ∀ part ∈ [major, minor, patch], Readable part := by
  constructor
  · rintro ⟨v, major, minor, patch, hs, hmajor, hminor, hpatch⟩
    obtain ⟨hmajor, hmajor'⟩ := (numeral_iff major).mp ⟨_, hmajor⟩
    obtain ⟨hminor, hminor'⟩ := (numeral_iff minor).mp ⟨_, hminor⟩
    obtain ⟨hpatch, hpatch'⟩ := (numeral_iff patch).mp ⟨_, hpatch⟩
    refine ⟨major, minor, patch, ⟨hs, ?_⟩, ?_⟩
    · simp only [List.forall_mem_cons]
      exact ⟨hmajor, hminor, hpatch, by simp⟩
    · simp only [List.forall_mem_cons]
      exact ⟨hmajor', hminor', hpatch', by simp⟩
  · rintro ⟨major, minor, patch, hdotted, hreadable⟩
    obtain ⟨x, hx⟩ := (numeral_iff major).mpr ⟨hdotted.isDigit _ (by simp), hreadable _ (by simp)⟩
    obtain ⟨y, hy⟩ := (numeral_iff minor).mpr ⟨hdotted.isDigit _ (by simp), hreadable _ (by simp)⟩
    obtain ⟨z, hz⟩ := (numeral_iff patch).mpr ⟨hdotted.isDigit _ (by simp), hreadable _ (by simp)⟩
    exact ⟨toLex (x, toLex (y, z)), major, minor, patch, hdotted.text, hx, hy, hz⟩

theorem splitVersion_isSome_iff (s : String) : (splitVersion s).isSome = true ↔ WellFormed s := by
  rw [Option.isSome_iff_ne_none, ne_eq, splitVersion_eq_none_iff_not_wellFormed, not_not]

theorem wellFormed_iff_componentsFit {s : String} (h : looksSemverish s = true) :
    WellFormed s ↔ ComponentsFit s := by
  obtain ⟨major, minor, patch, hdotted⟩ := (looksSemverish_iff s).mp h
  rw [wellFormed_iff]
  constructor
  · rintro ⟨major', minor', patch', hdotted', hreadable⟩ major'' minor'' patch'' hdotted''
    rw [hdotted''.unique hdotted']
    exact hreadable
  · intro hfit
    exact ⟨major, minor, patch, hdotted, hfit major minor patch hdotted⟩

theorem looksSemverish_of_wellFormed {s : String} (h : WellFormed s) : looksSemverish s = true := by
  obtain ⟨major, minor, patch, hdotted, -⟩ := (wellFormed_iff s).mp h
  exact (looksSemverish_iff s).mpr ⟨major, minor, patch, hdotted⟩

/-! ## When the gate calls the manifest malformed -/

/-- The decision is a refusal for this reason. -/
def Reports (d : UpdateDecision) (reason : RefusalReason) : Prop :=
  ∃ detail, d = .refusal ⟨reason, detail⟩

theorem reports_refusal (r : UpdateRefusal) (reason : RefusalReason) :
    Reports (.refusal r) reason ↔ r.reason = reason := by
  constructor
  · rintro ⟨detail, h⟩
    rw [UpdateDecision.refusal.inj h]
  · rintro rfl
    exact ⟨r.detail, rfl⟩

section

variable {m : Manifest} {install : CurrentInstall} {now : TimePoint} {d : UpdateDecision}

theorem Follows.reports_cons {check : GateCheck} {checks : List GateCheck}
    (h : Follows m install now (check :: checks) d)
    (hother : (check.refusal m install).reason ≠ .malformedOfferedVersion) :
    Reports d .malformedOfferedVersion ↔ check.Passes m install now ∧
      (Follows m install now checks d ∧ Reports d .malformedOfferedVersion) := by
  by_cases hpass : check.Passes m install now
  · simp only [hpass, h.1 hpass, true_and]
  · rw [h.2 hpass, reports_refusal]
    simp only [hpass, hother, false_and]

/-- The checks before the one of `min_previous_version`. -/
def GateCheck.beforeMinPrevious : List GateCheck :=
  [currentWellFormed, floorWellFormed, newer, fresh]

theorem fresh_refusal : (GateCheck.fresh.refusal m install).reason ≠ .malformedOfferedVersion := by
  rw [GateCheck.refusal]
  split <;> simp

theorem Follows.reports_minPrevious (h : Follows m install now [.minPrevious, .aboveFloor, .artifact] d) :
    Reports d .malformedOfferedVersion ↔ install.currentVersion ≠ "" ∧
      m.release.minPreviousVersion ≠ "" ∧ ¬WellFormed m.release.minPreviousVersion := by
  by_cases hpass : GateCheck.minPrevious.Passes m install now
  · have hrest : ¬Reports d .malformedOfferedVersion := by
      rw [(h.1 hpass).reports_cons (by simp [GateCheck.refusal])]
      rintro ⟨-, hfollows, hreports⟩
      rw [hfollows.reports_cons (by simp [GateCheck.refusal])] at hreports
      obtain ⟨-, ⟨a, -, rfl⟩, detail, hd⟩ := hreports
      simp at hd
    simp only [hrest, false_iff, not_and, not_not]
    intro hcurrent hmin
    obtain ⟨x, -, hx, -⟩ := (hpass.resolve_left hmin).resolve_left hcurrent
    exact ⟨x, hx⟩
  · have hset := hpass
    rw [GateCheck.Passes, not_or, not_or] at hset
    rw [h.2 hpass, reports_refusal, GateCheck.refusal]
    simp only [ne_eq, hset.1, hset.2.1, not_false_eq_true, true_and]
    rw [← splitVersion_eq_none_iff_not_wellFormed]
    by_cases hbad : splitVersion m.release.minPreviousVersion = none
    · simp only [hbad, if_true]
    · simp [hbad]

theorem applyGate_reports_iff : Reports (applyGate m install now) .malformedOfferedVersion ↔
    ¬WellFormed m.release.version ∨
      (∀ check ∈ GateCheck.beforeMinPrevious, check.Passes m install now) ∧
        install.currentVersion ≠ "" ∧ m.release.minPreviousVersion ≠ "" ∧
          ¬WellFormed m.release.minPreviousVersion := by
  have h := applyGate_follows m install now
  by_cases hoffered : WellFormed m.release.version
  · have h1 := h.1 hoffered
    rw [h1.reports_cons (by simp [GateCheck.refusal])]
    simp only [hoffered, not_true_eq_false, false_or, GateCheck.beforeMinPrevious, List.forall_mem_cons,
      List.not_mem_nil, IsEmpty.forall_iff, implies_true, and_true, and_assoc]
    refine and_congr_right fun hcurrent => ?_
    have h2 := h1.1 hcurrent
    rw [h2.reports_cons (by simp [GateCheck.refusal])]
    simp only [h2, true_and]
    refine and_congr_right fun hfloor => ?_
    have h3 := h2.1 hfloor
    rw [h3.reports_cons (by simp [GateCheck.refusal])]
    simp only [h3, true_and]
    refine and_congr_right fun hnewer => ?_
    have h4 := h3.1 hnewer
    rw [h4.reports_cons fresh_refusal]
    simp only [h4, true_and]
    refine and_congr_right fun hfresh => ?_
    have h5 := h4.1 hfresh
    rw [h5.reports_minPrevious]
    simp only [h5, true_and]
  · rw [h.2 hoffered, reports_refusal]
    simp only [GateCheck.refusal, hoffered, not_false_eq_true, true_or]

end

/-- The version `0.0.0` is written in the manifest. -/
def OffersZero (m : Manifest) : Prop := Denotes m.release.version (toLex (0, toLex (0, 0)))

/-- A `min_previous_version` that the gate would call malformed, on a manifest of which some install gets as
far as that check. -/
def MinPreviousReached (m : Manifest) : Prop :=
  m.release.minPreviousVersion ≠ "" ∧ ¬WellFormed m.release.minPreviousVersion ∧ ¬OffersZero m ∧
    (m.channel.expiresAt = "" ∨ (parseRfc3339Utc m.channel.expiresAt).isSome = true)

theorem denotes_zero : Denotes "0.0.0" (toLex (0, toLex (0, 0))) :=
  (versionOf_eq_some_iff _ _).mp (by decide)

theorem never_malformed_iff (m : Manifest) :
    (∀ install now, ¬Reports (applyGate m install now) .malformedOfferedVersion) ↔
      WellFormed m.release.version ∧ ¬MinPreviousReached m := by
  simp only [applyGate_reports_iff, not_or, not_not]
  constructor
  · intro h
    have hwell := (h ⟨"", "", ⟨.linux, .x86_64⟩⟩ 0).1
    refine ⟨hwell, fun ⟨hset, hbad, hzero, hexpires⟩ => ?_⟩
    obtain ⟨offered, hoffered⟩ := hwell
    -- an install of 0.0.0 that has seen nothing else, before the manifest expires
    have hpositive : toLex (0, toLex (0, 0)) < offered := by
      refine lt_of_le_of_ne (version_zero_le offered) fun heq => hzero ?_
      rw [OffersZero, heq]
      exact hoffered
    obtain ⟨now, hnow⟩ : ∃ now, Fresh m now := by
      rcases hexpires with hexpires | hexpires
      · exact ⟨0, Or.inl hexpires⟩
      · obtain ⟨expires, hparse⟩ := Option.isSome_iff_exists.mp hexpires
        exact ⟨Int64.minValue, Or.inr ⟨expires, hparse, minValue_lt_of_parse hparse⟩⟩
    refine (h ⟨"0.0.0", "", ⟨.linux, .x86_64⟩⟩ now).2 ⟨?_, by simp, hset, hbad⟩
    simp only [GateCheck.beforeMinPrevious, List.forall_mem_cons]
    refine ⟨Or.inr ⟨_, denotes_zero⟩, Or.inl rfl, Or.inr ⟨_, _, denotes_zero, hoffered, hpositive⟩,
      hnow, by simp⟩
  · rintro ⟨hwell, hreached⟩ install now
    refine ⟨hwell, ?_⟩
    rintro ⟨hpasses, hcurrent, hset, hbad⟩
    simp only [GateCheck.beforeMinPrevious, List.forall_mem_cons] at hpasses
    obtain ⟨-, -, hnewer, hfresh, -⟩ := hpasses
    refine hreached ⟨hset, hbad, fun hzero => ?_, ?_⟩
    · obtain ⟨x, y, -, hy, hlt⟩ := hnewer.resolve_left hcurrent
      rw [hy.unique hzero] at hlt
      exact absurd hlt (not_lt.mpr (version_zero_le x))
    · refine hfresh.imp id fun ⟨expires, hparse, _⟩ => ?_
      rw [hparse]
      rfl

/-! ## The two together -/

/-- The validator's version check and the gate's parser agree on a string exactly when the components it has
are numbers of 32 bits; and a manifest without errors is never called malformed by the gate exactly when its
version is such a string and its `min_previous_version` is fine or never looked at. -/
theorem version_checks_agree_iff (s : String) (m : Manifest) :
    ((looksSemverish s = true ↔ (splitVersion s).isSome = true) ↔ ComponentsFit s) ∧
    (NoErrors (validateManifest m) →
      ((∀ install now, ¬Reports (applyGate m install now) .malformedOfferedVersion) ↔
        ComponentsFit m.release.version ∧ ¬MinPreviousReached m)) := by
  constructor
  · rw [splitVersion_isSome_iff]
    constructor
    · intro hagree major minor patch hdotted
      have hlooks := (looksSemverish_iff s).mpr ⟨major, minor, patch, hdotted⟩
      exact (wellFormed_iff_componentsFit hlooks).mp (hagree.mp hlooks) major minor patch hdotted
    · intro hfit
      exact ⟨fun hlooks => (wellFormed_iff_componentsFit hlooks).mpr hfit, looksSemverish_of_wellFormed⟩
  · intro hnone
    rw [never_malformed_iff, wellFormed_iff_componentsFit ((noErrors_iff m).mp hnone).version]

/-- A release that may be published, but not installed: a component of its version is missing. -/
def dotsRelease : Manifest where
  release := { version := "1..2" }
  artifacts := []
  signing := ⟨"ed25519", "release-2026"⟩

/-- `1..2` passes the validator and is called malformed by the gate. -/
theorem dots_pass_validation :
    ¬(∀ s, looksSemverish s = true ↔ (splitVersion s).isSome = true) ∧
    ¬(∀ m, NoErrors (validateManifest m) →
      ∀ install now, ¬Reports (applyGate m install now) .malformedOfferedVersion) := by
  have hsplit : (splitVersion "1..2").isSome = false := by decide
  constructor
  · intro hagree
    rw [(hagree "1..2").mp (by decide)] at hsplit
    exact Bool.noConfusion hsplit
  · intro hnever
    refine hnever dotsRelease ?_ ⟨"", "", ⟨.linux, .x86_64⟩⟩ 0 ⟨_, rfl⟩
    decide

end Souxmar.Updater
