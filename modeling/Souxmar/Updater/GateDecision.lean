import Mathlib.Data.Nat.Digits.Defs
import Mathlib.Order.Defs.Unbundled
import Souxmar.Updater.Gate

/-!
# What the gate decides

`Denotes` says what a well-formed version string is without the parser, and `GateCheck` lists what the gate
asks for, in order. `applyGate` applies a manifest when every check passes and reports the first one that
does not.
-/

namespace Souxmar.Updater

/-! ## Version strings -/

/-- The value of decimal digits, the most significant first. -/
def decimal (digits : List Char) : ℕ :=
  Nat.ofDigits 10 (digits.reverse.map fun c => c.toNat - '0'.toNat)

/-- Decimal digits of a 32-bit number; leading zeros are allowed. -/
structure Numeral (digits : List Char) (n : ℕ) : Prop where
  nonempty : digits ≠ []
  isDigit : ∀ c ∈ digits, c.isDigit
  value : decimal digits = n
  small : n < 2 ^ 32

/-- Three numerals with dots between them. -/
def Denotes (s : String) (v : Version) : Prop :=
  ∃ major minor patch, s.toList = major ++ '.' :: (minor ++ '.' :: patch) ∧
    Numeral major (ofLex v).1 ∧ Numeral minor (ofLex (ofLex v).2).1 ∧ Numeral patch (ofLex (ofLex v).2).2

def WellFormed (s : String) : Prop := ∃ v, Denotes s v

theorem notDigit_eq_false_iff (c : Char) : notDigit c = false ↔ c.isDigit = true := by
  unfold notDigit Char.isDigit
  rw [Bool.or_eq_false_iff, decide_eq_false_iff_not, decide_eq_false_iff_not, Char.not_lt, Char.not_lt,
    Bool.and_eq_true, decide_eq_true_eq, decide_eq_true_eq]
  rfl

theorem decimal_cons (c : Char) (digits : List Char) :
    decimal (c :: digits) = (c.toNat - '0'.toNat) * 10 ^ digits.length + decimal digits := by
  unfold decimal
  rw [List.reverse_cons, List.map_append, Nat.ofDigits_append, List.length_map, List.length_reverse]
  simp [Nat.mul_comm, Nat.add_comm]

theorem parseU32Loop_eq_some_iff (l : List Char) {v : ℕ} (hv : v < 2 ^ 32) (n : ℕ) :
    parseU32Loop l v = some n ↔
      (∀ c ∈ l, c.isDigit) ∧ v * 10 ^ l.length + decimal l = n ∧ n < 2 ^ 32 := by
  induction l generalizing v with
  | nil =>
    have hvalue : v * 10 ^ ([] : List Char).length + decimal [] = v := by simp [decimal]
    rw [parseU32Loop, hvalue]
    constructor
    · intro h
      obtain rfl := Option.some.inj h
      exact ⟨(fun c hc => nomatch hc), rfl, hv⟩
    · rintro ⟨-, rfl, -⟩
      rfl
  | cons c cs ih =>
    have hvalue : v * 10 ^ (c :: cs).length + decimal (c :: cs) =
        (v * 10 + (c.toNat - '0'.toNat)) * 10 ^ cs.length + decimal cs := by
      rw [decimal_cons, List.length_cons]
      ring
    rw [parseU32Loop, hvalue]
    by_cases hdigit : c.isDigit = true
    · rw [(notDigit_eq_false_iff c).mpr hdigit]
      dsimp only
      rw [if_neg Bool.false_ne_true]
      by_cases hlarge : v * 10 + (c.toNat - '0'.toNat) > 0xFFFFFFFF
      · rw [if_pos hlarge]
        refine ⟨(fun h => nomatch h), fun ⟨_, hn, hsmall⟩ => ?_⟩
        -- what is too large stays too large
        have hpow : 1 ≤ 10 ^ cs.length := Nat.one_le_pow _ _ (by omega)
        have hgrows := Nat.mul_le_mul_left (v * 10 + (c.toNat - '0'.toNat)) hpow
        omega
      · rw [if_neg hlarge, ih (by omega), List.forall_mem_cons]
        simp only [hdigit, true_and]
    · have hnot : notDigit c = true := by
        rw [← Bool.not_eq_false, notDigit_eq_false_iff]
        exact hdigit
      rw [if_pos hnot]
      refine ⟨(fun h => nomatch h), fun ⟨hall, _⟩ => ?_⟩
      exact absurd (hall c List.mem_cons_self) hdigit

theorem parseU32_eq_some_iff (l : List Char) (n : ℕ) : parseU32 l = some n ↔ Numeral l n := by
  cases l with
  | nil => exact ⟨(fun h => nomatch h), fun h => absurd rfl h.nonempty⟩
  | cons c cs =>
    have hloop : parseU32 (c :: cs) = parseU32Loop (c :: cs) 0 := rfl
    rw [hloop, parseU32Loop_eq_some_iff _ (by decide), Nat.zero_mul, Nat.zero_add]
    constructor
    · rintro ⟨hdigits, hvalue, hsmall⟩
      exact ⟨List.cons_ne_nil c cs, hdigits, hvalue, hsmall⟩
    · intro h
      exact ⟨h.isDigit, h.value, h.small⟩

theorem Numeral.noDot {digits : List Char} {n : ℕ} (h : Numeral digits n) : '.' ∉ digits := by
  intro hdot
  exact absurd (h.isDigit '.' hdot) (by decide)

theorem cutAtDot_append {a : List Char} (h : '.' ∉ a) (b : List Char) :
    cutAtDot (a ++ '.' :: b) = some (a, b) := by
  induction a with
  | nil => rfl
  | cons c cs ih =>
    have hc : c ≠ '.' := fun hc => h (hc ▸ List.mem_cons_self)
    have hcs := ih fun hmem => h (List.mem_cons_of_mem c hmem)
    rw [List.cons_append, cutAtDot, if_neg hc, hcs]
    rfl

theorem versionOf_eq_some_iff (s : String) (v : Version) : versionOf s = some v ↔ Denotes s v := by
  constructor
  · intro h
    obtain ⟨p, hp, rfl⟩ := Option.map_eq_some_iff.mp h
    simp only [splitVersion, Option.bind_eq_bind, Option.bind_eq_some_iff] at hp
    obtain ⟨⟨part0, rest⟩, hcut0, ⟨part1, part2⟩, hcut1, hp⟩ := hp
    split_ifs at hp
    simp only [Option.bind_eq_some_iff] at hp
    obtain ⟨major, hmajor, minor, hminor, patch, hpatch, hp⟩ := hp
    obtain rfl := Option.some.inj hp
    refine ⟨part0, part1, part2, ?_, ?_, ?_, ?_⟩
    · rw [cutAtDot_eq hcut0, cutAtDot_eq (show cutAtDot rest = _ from hcut1)]
    · exact (parseU32_eq_some_iff part0 major).mp hmajor
    · exact (parseU32_eq_some_iff part1 minor).mp hminor
    · exact (parseU32_eq_some_iff part2 patch).mp hpatch
  · rintro ⟨part0, part1, part2, hs, hmajor, hminor, hpatch⟩
    have hpatchDigits : part2.any notDigit = false := by
      rw [List.any_eq_false]
      intro c hc hnot
      rw [(notDigit_eq_false_iff c).mpr (hpatch.isDigit c hc)] at hnot
      exact Bool.false_ne_true hnot
    have hsplit : splitVersion s =
        some ((ofLex v).1, (ofLex (ofLex v).2).1, (ofLex (ofLex v).2).2) := by
      unfold splitVersion
      rw [hs, cutAtDot_append hmajor.noDot]
      dsimp only [Option.bind_eq_bind, Option.bind_some]
      rw [cutAtDot_append hminor.noDot]
      dsimp only [Option.bind_some]
      rw [hpatchDigits, (parseU32_eq_some_iff part0 _).mpr hmajor, (parseU32_eq_some_iff part1 _).mpr hminor,
        (parseU32_eq_some_iff part2 _).mpr hpatch]
      rfl
    unfold versionOf
    rw [hsplit]
    rfl

theorem splitVersion_eq_none_iff_not_wellFormed (s : String) : splitVersion s = none ↔ ¬WellFormed s := by
  rw [splitVersion_eq_none_iff, Option.eq_none_iff_forall_ne_some]
  unfold WellFormed
  simp only [ne_eq, versionOf_eq_some_iff, not_exists]

theorem Denotes.unique {s : String} {v w : Version} (hv : Denotes s v) (hw : Denotes s w) : v = w := by
  rw [← versionOf_eq_some_iff] at hv hw
  exact Option.some.inj (hv.symm.trans hw)

/-! ## The checks -/

/-- What the gate asks for. -/
inductive GateCheck
  | offeredWellFormed
  | currentWellFormed
  | floorWellFormed
  | newer
  | fresh
  | minPrevious
  | aboveFloor
  | artifact

/-- In the order in which the gate asks. -/
def GateCheck.order : List GateCheck :=
  [offeredWellFormed, currentWellFormed, floorWellFormed, newer, fresh, minPrevious, aboveFloor, artifact]

def Artifact.Matches (platform : HostPlatform) (a : Artifact) : Prop :=
  a.os = platform.os ∧ a.arch = platform.arch

section

variable (m : Manifest) (install : CurrentInstall) (now : TimePoint)

/-- Both strings denote versions, related by `r`. -/
def Related (r : Version → Version → Prop) (a b : String) : Prop :=
  ∃ x y, Denotes a x ∧ Denotes b y ∧ r x y

def GateCheck.Passes : GateCheck → Prop
  | offeredWellFormed => WellFormed m.release.version
  | currentWellFormed => install.currentVersion = "" ∨ WellFormed install.currentVersion
  | floorWellFormed => install.maxVersionEverSeen = "" ∨ WellFormed install.maxVersionEverSeen
  | newer => install.currentVersion = "" ∨ Related (· < ·) install.currentVersion m.release.version
  | fresh => Fresh m now
  | minPrevious => m.release.minPreviousVersion = "" ∨ install.currentVersion = "" ∨
      Related (· ≤ ·) m.release.minPreviousVersion install.currentVersion
  | aboveFloor => install.maxVersionEverSeen = "" ∨
      Related (· ≤ ·) install.maxVersionEverSeen m.release.version
  | artifact => ∃ a ∈ m.artifacts, a.Matches install.platform

/-- What the gate reports when the check fails. -/
def GateCheck.refusal : GateCheck → UpdateRefusal
  | offeredWellFormed => ⟨.malformedOfferedVersion,
      "release.version '" ++ m.release.version ++ "' is not MAJOR.MINOR.PATCH numeric"⟩
  | currentWellFormed => ⟨.malformedCurrentVersion,
      "current_version '" ++ install.currentVersion ++ "' is not MAJOR.MINOR.PATCH numeric"⟩
  | floorWellFormed => ⟨.malformedReplayFloor,
      "max_version_ever_seen '" ++ install.maxVersionEverSeen ++ "' is not MAJOR.MINOR.PATCH numeric"⟩
  | newer => ⟨.alreadyOnOrAheadOfOffered,
      "current " ++ install.currentVersion ++ " >= offered " ++ m.release.version⟩
  | fresh => if parseRfc3339Utc m.channel.expiresAt = none
      then ⟨.expiredInvalidTime, "channel.expires_at '" ++ m.channel.expiresAt ++
        "' is not in canonical RFC-3339 UTC form"⟩
      else ⟨.expired, "channel.expires_at " ++ m.channel.expiresAt ++
        " is in the past relative to wall clock"⟩
  | minPrevious => if splitVersion m.release.minPreviousVersion = none
      then ⟨.malformedOfferedVersion, "release.min_previous_version '" ++ m.release.minPreviousVersion ++
        "' is not MAJOR.MINOR.PATCH numeric"⟩
      else ⟨.belowMinPrevious, "current " ++ install.currentVersion ++ " < min_previous_version " ++
        m.release.minPreviousVersion⟩
  | aboveFloor => ⟨.replayDowngrade,
      "offered " ++ m.release.version ++ " < highest-seen " ++ install.maxVersionEverSeen⟩
  | artifact => ⟨.noArtifactForPlatform,
      "no artifact for " ++ install.platform.os.toStr ++ "/" ++ install.platform.arch.toStr ++ " in " ++
        toString m.artifacts.length ++ " manifest entries"⟩

/-- The first artifact for the platform. -/
def FirstMatch (a : Artifact) : Prop :=
  ∃ before after, m.artifacts = before ++ a :: after ∧ a.Matches install.platform ∧
    ∀ b ∈ before, ¬b.Matches install.platform

/-- The decision that the checks lead to, one after the other. -/
def Follows : List GateCheck → UpdateDecision → Prop
  | [], d => ∃ a, FirstMatch m install a ∧ d = .apply ⟨m.release.version, a, m.release.mandatory⟩
  | check :: checks, d => (check.Passes m install now → Follows checks d) ∧
      (¬check.Passes m install now → d = .refusal (check.refusal m install))

end

variable {m : Manifest} {install : CurrentInstall} {now : TimePoint}

theorem Follows.refusal_iff {checks : List GateCheck} {d : UpdateDecision}
    (h : Follows m install now checks d) (r : UpdateRefusal) :
    d = .refusal r ↔ ∃ before check after, checks = before ++ check :: after ∧
      (∀ c ∈ before, c.Passes m install now) ∧ ¬check.Passes m install now ∧
      r = check.refusal m install := by
  induction checks with
  | nil =>
    obtain ⟨a, -, rfl⟩ := h
    refine ⟨(fun hd => nomatch hd), ?_⟩
    rintro ⟨before, check, after, hsplit, -⟩
    exact absurd hsplit (by simp)
  | cons first checks ih =>
    by_cases hpass : first.Passes m install now
    · rw [ih (h.1 hpass)]
      constructor
      · rintro ⟨before, check, after, rfl, hbefore, hcheck, hr⟩
        exact ⟨first :: before, check, after, rfl, List.forall_mem_cons.mpr ⟨hpass, hbefore⟩, hcheck, hr⟩
      · rintro ⟨before, check, after, hsplit, hbefore, hcheck, hr⟩
        cases before with
        | nil =>
          obtain ⟨rfl, -⟩ := List.cons.inj hsplit
          exact absurd hpass hcheck
        | cons c before =>
          obtain ⟨rfl, hrest⟩ := List.cons.inj hsplit
          exact ⟨before, check, after, hrest, (List.forall_mem_cons.mp hbefore).2, hcheck, hr⟩
    · rw [h.2 hpass]
      constructor
      · intro hr
        exact ⟨[], first, checks, rfl, (fun c hc => nomatch hc), hpass, (UpdateDecision.refusal.inj hr).symm⟩
      · rintro ⟨before, check, after, hsplit, hbefore, hcheck, hr⟩
        cases before with
        | nil =>
          obtain ⟨rfl, -⟩ := List.cons.inj hsplit
          rw [hr]
        | cons c before =>
          obtain ⟨rfl, -⟩ := List.cons.inj hsplit
          exact absurd (hbefore first List.mem_cons_self) hpass

theorem FirstMatch.unique {a b : Artifact} (ha : FirstMatch m install a) (hb : FirstMatch m install b) :
    a = b := by
  have hfind : ∀ c, FirstMatch m install c → pickArtifact m install.platform = some c := by
    rintro c ⟨before, after, hsplit, ⟨hos, harch⟩, hbefore⟩
    unfold pickArtifact
    rw [List.find?_eq_some_iff_append]
    refine ⟨by simp [hos, harch], before, after, hsplit, fun b hb => ?_⟩
    have hnot := hbefore b hb
    rw [Artifact.Matches, not_and_or] at hnot
    simpa using hnot
  exact Option.some.inj ((hfind a ha).symm.trans (hfind b hb))

theorem Follows.apply_iff {checks : List GateCheck} {d : UpdateDecision}
    (h : Follows m install now checks d) (u : UpdateApply) :
    d = .apply u ↔ (∀ check ∈ checks, check.Passes m install now) ∧ FirstMatch m install u.artifact ∧
      u.version = m.release.version ∧ u.mandatory = m.release.mandatory := by
  induction checks with
  | nil =>
    obtain ⟨a, hfirst, rfl⟩ := h
    constructor
    · intro hu
      obtain rfl := UpdateDecision.apply.inj hu
      exact ⟨(fun c hc => nomatch hc), hfirst, rfl, rfl⟩
    · rintro ⟨-, hmatch, hversion, hmandatory⟩
      rw [hfirst.unique hmatch, ← hversion, ← hmandatory]
  | cons first checks ih =>
    by_cases hpass : first.Passes m install now
    · rw [ih (h.1 hpass), List.forall_mem_cons]
      simp only [hpass, true_and]
    · rw [h.2 hpass]
      refine ⟨(fun hd => nomatch hd), fun hall => ?_⟩
      exact absurd (hall.1 first List.mem_cons_self) hpass

/-! ## The gate follows its checks -/

theorem Denotes.related_iff {a b : String} {x y : Version} (ha : Denotes a x) (hb : Denotes b y)
    (r : Version → Version → Prop) : Related r a b ↔ r x y := by
  constructor
  · rintro ⟨x', y', ha', hb', hr⟩
    rw [ha.unique ha', hb.unique hb']
    exact hr
  · intro hr
    exact ⟨x, y, ha, hb, hr⟩

theorem firstMatch_of_find {a : Artifact} (h : pickArtifact m install.platform = some a) :
    FirstMatch m install a := by
  unfold pickArtifact at h
  obtain ⟨hmatch, before, after, hsplit, hbefore⟩ := List.find?_eq_some_iff_append.mp h
  refine ⟨before, after, hsplit, by simpa [Artifact.Matches] using hmatch, fun b hb hb' => ?_⟩
  have hnot := hbefore b hb
  rw [hb'.1, hb'.2] at hnot
  simp at hnot

theorem gateReplay_follows (hoffered : WellFormed m.release.version)
    (hfloor : install.maxVersionEverSeen = "" ∨ WellFormed install.maxVersionEverSeen) :
    Follows m install now [.aboveFloor, .artifact] (gateReplay m install) := by
  obtain ⟨offered, hoffered⟩ := hoffered
  have hbelow : (install.maxVersionEverSeen ≠ "" ∧
      (compareVersions m.release.version install.maxVersionEverSeen).any (· < 0)) ↔
      ¬GateCheck.aboveFloor.Passes m install now := by
    show _ ↔ ¬(install.maxVersionEverSeen = "" ∨ Related _ _ _)
    rw [not_or]
    refine and_congr_right fun hset => ?_
    obtain ⟨floor, hfloor⟩ := hfloor.resolve_left hset
    rw [hfloor.related_iff hoffered, not_le,
      below_iff ((versionOf_eq_some_iff _ _).mpr hoffered) ((versionOf_eq_some_iff _ _).mpr hfloor)]
  unfold gateReplay
  refine ⟨fun hpass => ?_, fun hfail => ?_⟩
  · rw [if_neg fun hlow => hbelow.mp hlow hpass]
    cases hpick : pickArtifact m install.platform with
    | some a =>
      have hfirst := firstMatch_of_find hpick
      obtain ⟨before, after, hsplit, hmatch, -⟩ := hfirst
      have hmem : a ∈ m.artifacts := by
        rw [hsplit]
        exact List.mem_append_right before List.mem_cons_self
      exact ⟨fun _ => ⟨a, firstMatch_of_find hpick, rfl⟩, fun hnone => absurd ⟨a, hmem, hmatch⟩ hnone⟩
    | none =>
      refine ⟨fun ⟨a, ha, hos, harch⟩ => ?_, fun _ => rfl⟩
      have hnot := List.find?_eq_none.mp hpick a ha
      rw [hos, harch] at hnot
      simp at hnot
  · rw [if_pos (hbelow.mpr hfail)]
    rfl

theorem gateMinPrevious_follows (hoffered : WellFormed m.release.version)
    (hcurrent : install.currentVersion = "" ∨ WellFormed install.currentVersion)
    (hfloor : install.maxVersionEverSeen = "" ∨ WellFormed install.maxVersionEverSeen) :
    Follows m install now [.minPrevious, .aboveFloor, .artifact] (gateMinPrevious m install) := by
  have hrest : Follows m install now [.aboveFloor, .artifact] (gateReplay m install) :=
    gateReplay_follows hoffered hfloor
  unfold gateMinPrevious
  by_cases hset : m.release.minPreviousVersion ≠ "" ∧ install.currentVersion ≠ ""
  · rw [if_pos hset]
    have hpasses : GateCheck.minPrevious.Passes m install now ↔
        Related (· ≤ ·) m.release.minPreviousVersion install.currentVersion := by
      show _ ∨ _ ∨ _ ↔ _
      simp only [hset.1, hset.2, false_or]
    obtain ⟨current, hcurrent⟩ := hcurrent.resolve_left hset.2
    have hcurrent' := (versionOf_eq_some_iff _ _).mpr hcurrent
    cases hmin : versionOf m.release.minPreviousVersion with
    | none =>
      have hnone := (compareVersions_eq_none_iff install.currentVersion m.release.minPreviousVersion).mpr
        (Or.inr hmin)
      have hsplit := (splitVersion_eq_none_iff m.release.minPreviousVersion).mpr hmin
      rw [hnone]
      refine ⟨fun hpass => ?_, fun _ => ?_⟩
      · obtain ⟨x, y, hx, -⟩ := hpasses.mp hpass
        rw [(versionOf_eq_some_iff _ _).mpr hx] at hmin
        exact nomatch hmin
      · show refuse _ _ = .refusal (if _ then _ else _)
        rw [if_pos hsplit]
        rfl
    | some least =>
      obtain ⟨c, hc, hneg, -⟩ := compareVersions_spec hcurrent' hmin
      have hsplit : splitVersion m.release.minPreviousVersion ≠ none := fun hnone => by
        rw [(splitVersion_eq_none_iff _).mp hnone] at hmin
        exact nomatch hmin
      have hmin' := (versionOf_eq_some_iff _ _).mp hmin
      rw [hmin'.related_iff hcurrent] at hpasses
      rw [hc]
      dsimp only
      refine ⟨fun hpass => ?_, fun hfail => ?_⟩
      · rw [if_neg fun hlow => not_le.mpr (hneg.mp hlow) (hpasses.mp hpass)]
        exact hrest
      · rw [if_pos (hneg.mpr (not_le.mp fun hle => hfail (hpasses.mpr hle)))]
        show refuse _ _ = .refusal (if _ then _ else _)
        rw [if_neg hsplit]
        rfl
  · rw [if_neg hset]
    refine ⟨fun _ => hrest, fun hfail => absurd ?_ hfail⟩
    by_cases hmin : m.release.minPreviousVersion = ""
    · exact Or.inl hmin
    · exact Or.inr (Or.inl (not_not.mp fun hcur => hset ⟨hmin, hcur⟩))

theorem gateFreshness_follows (hoffered : WellFormed m.release.version)
    (hcurrent : install.currentVersion = "" ∨ WellFormed install.currentVersion)
    (hfloor : install.maxVersionEverSeen = "" ∨ WellFormed install.maxVersionEverSeen) :
    Follows m install now [.fresh, .minPrevious, .aboveFloor, .artifact] (gateFreshness m install now) := by
  have hrest : Follows m install now [.minPrevious, .aboveFloor, .artifact] (gateMinPrevious m install) :=
    gateMinPrevious_follows hoffered hcurrent hfloor
  unfold gateFreshness
  by_cases hset : m.channel.expiresAt = ""
  · rw [if_neg (not_not.mpr hset)]
    exact ⟨fun _ => hrest, fun hfail => absurd (Or.inl hset) hfail⟩
  · rw [if_pos hset]
    cases hparse : parseRfc3339Utc m.channel.expiresAt with
    | none =>
      refine ⟨fun hpass => ?_, fun _ => ?_⟩
      · obtain ⟨expires, hexpires, -⟩ := Or.resolve_left hpass hset
        rw [hparse] at hexpires
        exact nomatch hexpires
      · show refuse _ _ = .refusal (if _ then _ else _)
        rw [if_pos hparse]
        rfl
    | some expires =>
      have hpasses : GateCheck.fresh.Passes m install now ↔ now < expires := by
        constructor
        · intro hpass
          obtain ⟨t, ht, hlt⟩ := Or.resolve_left hpass hset
          obtain rfl := Option.some.inj (hparse.symm.trans ht)
          exact hlt
        · intro hlt
          exact Or.inr ⟨expires, hparse, hlt⟩
      dsimp only
      refine ⟨fun hpass => ?_, fun hfail => ?_⟩
      · rw [if_neg (Int64.not_le.mpr (hpasses.mp hpass))]
        exact hrest
      · rw [if_pos (Int64.not_lt.mp fun hlt => hfail (hpasses.mpr hlt))]
        show refuse _ _ = .refusal (if _ then _ else _)
        rw [if_neg (by rw [hparse]; exact fun h => nomatch h)]
        rfl

theorem malformed_iff (s : String) : (s ≠ "" ∧ splitVersion s = none) ↔ ¬(s = "" ∨ WellFormed s) := by
  rw [not_or, splitVersion_eq_none_iff_not_wellFormed]

theorem applyGate_follows (m : Manifest) (install : CurrentInstall) (now : TimePoint) :
    Follows m install now GateCheck.order (applyGate m install now) := by
  unfold applyGate
  refine ⟨fun hoffered => ?_, fun hfail => ?_⟩
  · rw [if_neg fun hbad => (splitVersion_eq_none_iff_not_wellFormed _).mp hbad hoffered]
    refine ⟨fun hcurrent => ?_, fun hfail => ?_⟩
    · rw [if_neg fun hbad => (malformed_iff _).mp hbad hcurrent]
      refine ⟨fun hfloor => ?_, fun hfail => ?_⟩
      · rw [if_neg fun hbad => (malformed_iff _).mp hbad hfloor]
        have hahead : (install.currentVersion ≠ "" ∧
            (compareVersions install.currentVersion m.release.version).any (· ≥ 0)) ↔
            ¬GateCheck.newer.Passes m install now := by
          show _ ↔ ¬(install.currentVersion = "" ∨ Related _ _ _)
          rw [not_or]
          refine and_congr_right fun hset => ?_
          obtain ⟨current, hcurrent⟩ := Or.resolve_left hcurrent hset
          obtain ⟨offered, hoffered⟩ := hoffered
          rw [hcurrent.related_iff hoffered, not_lt,
            ahead_iff ((versionOf_eq_some_iff _ _).mpr hcurrent) ((versionOf_eq_some_iff _ _).mpr hoffered)]
        refine ⟨fun hpass => ?_, fun hfail => ?_⟩
        · rw [if_neg fun hbad => hahead.mp hbad hpass]
          exact gateFreshness_follows hoffered hcurrent hfloor
        · rw [if_pos (hahead.mpr hfail)]
          rfl
      · rw [if_pos ((malformed_iff _).mpr hfail)]
        rfl
    · rw [if_pos ((malformed_iff _).mpr hfail)]
      rfl
  · rw [if_pos ((splitVersion_eq_none_iff_not_wellFormed _).mpr hfail)]
    rfl

/-! ## The order of versions -/

theorem compareVersions_eq_some_iff (a b : String) (c : ℤ) : compareVersions a b = some c ↔
    ∃ x y, Denotes a x ∧ Denotes b y ∧ c = if x < y then -1 else if y < x then 1 else 0 := by
  have hvalue : ∀ x y, Denotes a x → Denotes b y →
      compareVersions a b = some (if x < y then -1 else if y < x then 1 else 0) := by
    intro x y ha hb
    obtain ⟨⟨a0, a1, a2⟩, hpa, rfl⟩ := Option.map_eq_some_iff.mp ((versionOf_eq_some_iff _ _).mpr ha)
    obtain ⟨⟨b0, b1, b2⟩, hpb, rfl⟩ := Option.map_eq_some_iff.mp ((versionOf_eq_some_iff _ _).mpr hb)
    simp only [compareVersions, hpa, hpb, Option.bind_eq_bind, Option.bind_some, Prod.Lex.toLex_lt_toLex]
    split_ifs <;> first | rfl | omega
  constructor
  · intro h
    cases ha : versionOf a with
    | none => rw [(compareVersions_eq_none_iff a b).mpr (Or.inl ha)] at h; cases h
    | some x =>
      cases hb : versionOf b with
      | none => rw [(compareVersions_eq_none_iff a b).mpr (Or.inr hb)] at h; cases h
      | some y =>
        have ha := (versionOf_eq_some_iff _ _).mp ha
        have hb := (versionOf_eq_some_iff _ _).mp hb
        rw [hvalue x y ha hb] at h
        exact ⟨x, y, ha, hb, (Option.some.inj h).symm⟩
  · rintro ⟨x, y, ha, hb, rfl⟩
    exact hvalue x y ha hb

/-- A version string that the parser accepts. -/
abbrev VersionString := {s : String // WellFormed s}

def VersionString.le (a b : VersionString) : Prop := VersionLe a.1 b.1

theorem VersionString.le_iff {a b : VersionString} {x y : Version} (ha : Denotes a.1 x)
    (hb : Denotes b.1 y) : a.le b ↔ x ≤ y := by
  unfold VersionString.le
  rw [versionLe_iff]
  simp only [versionOf_eq_some_iff]
  exact ha.related_iff hb (· ≤ ·)

theorem VersionString.preorder : IsPreorder VersionString VersionString.le where
  refl := by
    rintro ⟨a, x, ha⟩
    exact (le_iff ha ha).mpr (le_refl x)
  trans := by
    rintro a b c hab hbc
    exact VersionLe.trans hab hbc

theorem VersionString.total : Std.Total VersionString.le where
  total := by
    rintro ⟨a, x, ha⟩ ⟨b, y, hb⟩
    rw [le_iff ha hb, le_iff hb ha]
    exact le_total x y

/-! ## The decision -/

/-- The gate applies a manifest, with its first artifact for the platform, exactly when every check passes;
it reports the first check that fails; and versions are compared by their numbers. -/
theorem update_gate_exact :
    (∀ m install now u, applyGate m install now = .apply u ↔
      (∀ check ∈ GateCheck.order, check.Passes m install now) ∧ FirstMatch m install u.artifact ∧
      u.version = m.release.version ∧ u.mandatory = m.release.mandatory) ∧
    (∀ m install now r, applyGate m install now = .refusal r ↔
      ∃ before check after, GateCheck.order = before ++ check :: after ∧
        (∀ c ∈ before, c.Passes m install now) ∧ ¬check.Passes m install now ∧
        r = check.refusal m install) ∧
    (∀ a b c, compareVersions a b = some c ↔
      ∃ x y, Denotes a x ∧ Denotes b y ∧ c = if x < y then -1 else if y < x then 1 else 0) ∧
    IsPreorder VersionString VersionString.le ∧ Std.Total VersionString.le :=
  ⟨fun m install now u => (applyGate_follows m install now).apply_iff u,
    fun m install now r => (applyGate_follows m install now).refusal_iff r,
    compareVersions_eq_some_iff, VersionString.preorder, VersionString.total⟩

end Souxmar.Updater
