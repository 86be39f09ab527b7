import Souxmar.Updater.Session

/-!
# What the replay floor promises

Three promises about `max_version_ever_seen`, each over whole sessions. `floor_watermark`: on an
install that starts without payloads the floor never decreases, and nothing is installed below it.
`no_reapply_after_rollback`: a version that was rolled back stays off the install, unless the very
version the floor stands at is offered again. `never_undercut`: nothing below an offered version is
installed later, when every offer either lies below the floor or is accepted.

The theorems on fixed sessions show that none of the three conditions can be dropped.
-/

namespace Souxmar.Updater

open Souxmar.Lib

instance (a b : String) : Decidable (VersionLe a b) :=
  decidable_of_iff ((compareVersions a b).any (· ≤ 0) = true) <| by
    simp [VersionLe, Option.any_eq_true]

/-! ### Sample sessions -/

def sampleApply (version currentVersion : String) : Op :=
  .apply (sampleContext version currentVersion [1]) {} true

def sampleCheck (version expiresAt currentVersion : String) : Op :=
  .check (sampleManifest version expiresAt [1]) currentVersion ⟨.linux, .x86_64⟩
    ⟨fromTimeT 1778580000, fromTimeT 1778580000⟩ true

theorem sampleApply_persists (version currentVersion : String) :
    (sampleApply version currentVersion).Persists := ⟨⟨rfl, rfl⟩, rfl⟩

/-! ### The watermark -/

/-- **The floor is a watermark** for every session from a fresh state on an install without
payloads: the current version and all installed ones lie at or below it, later operations never
lower it, and an apply installs nothing below it. -/
theorem floor_watermark (env : Env) (l : InstallLayout) (hl : ∀ v, l.hasVersionPayload v = false)
    (ops : List Op) (hops : ∀ op ∈ ops, op.Persists) :
    let s := run (step env) { layout := l } ops
    (s.state.currentInstalledVersion = "" ∨
      VersionLe s.state.currentInstalledVersion s.state.maxVersionEverSeen) ∧
    (∀ v ∈ installed env (trace (step env) { layout := l } ops),
      VersionLe v s.state.maxVersionEverSeen) ∧
    (∀ more, s.state.maxVersionEverSeen = "" ∨
      VersionLe s.state.maxVersionEverSeen (run (step env) s more).state.maxVersionEverSeen) ∧
    (∀ op v, installedBy env (s, op) = some v →
      s.state.maxVersionEverSeen = "" ∨ VersionLe s.state.maxVersionEverSeen v) := by
  intro s
  have hinv : Watermark env _ s := watermark_run env l hl ops hops
  refine ⟨hinv.current.imp id (hinv.below _), hinv.below, fun more => ?_, fun op v hv => ?_⟩
  · exact run_floor env more s hinv.floor
  · exact installedBy_floor hv

/-- Install 1.0.0, then 2.0.0 after a check, and roll back. -/
def checkedOps : List Op :=
  [sampleApply "1.0.0" "", sampleCheck "2.0.0" "" "1.0.0", sampleApply "2.0.0" "1.0.0",
    .rollback (fromTimeT 1778580000) {} true]

theorem checkedOps_persist : ∀ op ∈ checkedOps, op.Persists := by
  simp only [checkedOps, List.forall_mem_cons]
  exact ⟨sampleApply_persists _ _, rfl, sampleApply_persists _ _, ⟨rfl, rfl⟩, by simp⟩

theorem floor_watermark_checked :
    let s := run (step sampleEnv) {} checkedOps
    (s.state.currentInstalledVersion = "1.0.0" ∧ s.state.maxVersionEverSeen = "2.0.0") ∧
    VersionLe s.state.currentInstalledVersion s.state.maxVersionEverSeen ∧
    (∀ v ∈ installed sampleEnv (trace (step sampleEnv) {} checkedOps),
      VersionLe v s.state.maxVersionEverSeen) ∧
    (∀ more, VersionLe s.state.maxVersionEverSeen (run (step sampleEnv) s more).state.maxVersionEverSeen) ∧
    (∀ op v, installedBy sampleEnv (s, op) = some v → VersionLe s.state.maxVersionEverSeen v) := by
  intro s
  have hends : s.state.currentInstalledVersion = "1.0.0" ∧ s.state.maxVersionEverSeen = "2.0.0" := by decide
  have hfloor : s.state.maxVersionEverSeen ≠ "" := by
    rw [hends.2]
    decide
  obtain ⟨hcurrent, hbelow, hlater, hnext⟩ := floor_watermark sampleEnv {} (fun _ => rfl) checkedOps checkedOps_persist
  refine ⟨hends, hcurrent.resolve_left ?_, hbelow, fun more => (hlater more).resolve_left hfloor,
    fun op v hv => (hnext op v hv).resolve_left hfloor⟩
  change s.state.currentInstalledVersion ≠ ""
  rw [hends.1]
  decide

/-- A fresh state next to an install that was switched before is no such start: the rollback puts
the install above the floor, which is still empty. -/
theorem floor_not_watermark_on_old_install :
    let l : InstallLayout :=
      { current := some "1.0.0\n".toList
        previous := some "2.0.0\n".toList
        versions := ((∅ : Dict String (Option (List UInt8))).insert "1.0.0" (some [1])).insert
          "2.0.0" (some [2]) }
    let s := run (step sampleEnv) { layout := l } [.rollback (fromTimeT 1778580000) {} true]
    ¬ (s.state.currentInstalledVersion = "" ∨
      VersionLe s.state.currentInstalledVersion s.state.maxVersionEverSeen) := by
  decide

/-! ### Rolling back for good -/

/-- An apply does not offer a rolled-back version that is still the highest one seen. -/
def NoReplay (env : Env) (past : Past) (s : Host) (op : Op) : Prop :=
  ∀ offered ∈ offeredBy (s, op), ∀ v ∈ movedOff env past,
    ¬ (compareVersions offered v = some 0 ∧ compareVersions v s.state.maxVersionEverSeen = some 0)

/-- Nothing at or below a rolled-back version is installed. -/
def NoReapply (env : Env) (past : Past) (s : Host) (op : Op) : Prop :=
  ∀ v ∈ movedOff env past, ∀ offered ∈ installedBy env (s, op), ¬ VersionLe offered v

instance (env : Env) (past : Past) (s : Host) (op : Op) : Decidable (NoReplay env past s op) :=
  inferInstanceAs (Decidable (∀ offered ∈ offeredBy (s, op), ∀ v ∈ movedOff env past, _))

theorem noReapply_of_noReplay (env : Env) (past : Past) (s : Host) (op : Op)
    (h : Watermark env past s) (hop : NoReplay env past s op) : NoReapply env past s op := by
  intro v hv offered hoffered hle
  obtain ⟨ctx, f, saved, u, rfl, hu, rfl⟩ := installedBy_accepted hoffered
  -- the offer is at most `v`, `v` is at most the floor, and the gate wants the offer at the floor
  have hvmax : VersionLe v s.state.maxVersionEverSeen := h.below v (h.moved v hv)
  obtain ⟨y, z, hy, hz, hyz⟩ := (versionLe_iff _ _).mp hvmax
  obtain ⟨x, y', hx, hy', hxy⟩ := (versionLe_iff _ _).mp hle
  obtain rfl : y = y' := by simpa [hy] using hy'
  have hfloor := (hu.accepts.floor.2).resolve_left (ne_empty_of_versionOf hz)
  obtain ⟨z', x', hz', hx', hzx⟩ := (versionLe_iff _ _).mp hfloor
  obtain rfl : z = z' := by simpa [hz] using hz'
  obtain rfl : x = x' := by simpa [hx] using hx'
  obtain rfl : x = y := le_antisymm hxy (hyz.trans hzx)
  obtain rfl : x = z := le_antisymm hyz hzx
  refine hop u.version ?_ v hv ⟨compareVersions_self hx hy, compareVersions_self hy hz⟩
  rw [hu.accepts.version]
  exact rfl

/-- **No re-application after a rollback**, in every session from a fresh install that persists
what it does and in which no step offers a rolled-back version that is still the highest one
seen. -/
theorem no_reapply_after_rollback (env : Env) (l : InstallLayout)
    (hl : ∀ v, l.hasVersionPayload v = false) (ops : List Op)
    (hops : Along (step env) (fun past s op => op.Persists ∧ NoReplay env past s op) []
      { layout := l } ops) :
    Along (step env) (NoReapply env) [] { layout := l } ops :=
  Along.of_invariant (fun past s op h hop => watermark_step env past s op h hop.1)
    (fun past s op h hop => noReapply_of_noReplay env past s op h hop.2)
    (watermark_init env l hl) hops

/-- Install 1.0.0, then 2.0.0, and roll back. -/
def rolledBackOps : List Op :=
  [sampleApply "1.0.0" "", sampleApply "2.0.0" "1.0.0", .rollback (fromTimeT 1778580000) {} true]

theorem no_reapply_after_rollback_newer :
    Along (step sampleEnv) (NoReapply sampleEnv) [] { layout := {} }
      (rolledBackOps ++ [sampleApply "2.0.1" "1.0.0"]) :=
  no_reapply_after_rollback sampleEnv {} (fun _ => rfl) _
    (.and (along_of_forall_mem _ _ (p := Op.Persists) (by
      simp only [rolledBackOps, List.cons_append, List.nil_append, List.forall_mem_cons]
      exact ⟨sampleApply_persists _ _, sampleApply_persists _ _, ⟨rfl, rfl⟩,
        sampleApply_persists _ _, by simp⟩))
      (by decide))

/-- The manifest that installed 2.0.0 installs it again after the rollback. -/
theorem replayed_manifest_reinstalls :
    "2.0.0" ∈ movedOff sampleEnv (trace (step sampleEnv) {} rolledBackOps) ∧
      installedBy sampleEnv (run (step sampleEnv) {} rolledBackOps, sampleApply "2.0.0" "1.0.0") =
        some "2.0.0" ∧ VersionLe "2.0.0" "2.0.0" := by
  decide

/-! ### Offers are never undercut -/

/-- Nothing below `x` passes the floor test: `x` is the least version, or the floor is at or above
it (a floor that is no version lets nothing pass). -/
def FloorCovers (floor : String) (x : Version) : Prop :=
  x = toLex (0, toLex (0, 0)) ∨ floor ≠ "" ∧ ∀ z ∈ versionOf floor, x ≤ z

/-- A check or an apply meets an offer that the floor covers already, or it accepts it for good: the
gate and the artifact checks pass, the artifact is not empty, and what follows persists. -/
def OfferCovered (env : Env) (s : Host) (op : Op) : Prop :=
  match op with
  | .check m currentVersion host clock saved => ∀ x ∈ versionOf m.release.version,
    FloorCovers s.state.maxVersionEverSeen x ∨ saved = true ∧
      ∃ u, applyGate m ⟨currentVersion, s.state.maxVersionEverSeen, host⟩ clock.atGate = .apply u
  | .apply ctx f saved => ∀ x ∈ versionOf ctx.manifest.release.version,
    FloorCovers s.state.maxVersionEverSeen x ∨ (f.Persists ∧ saved = true) ∧
      (∃ u, Verified env ctx s.state u) ∧ ctx.artifactBytes ≠ []
  | .rollback _ _ _ => True

/-- Nothing below a version offered before is installed. -/
def NoUndercut (env : Env) (past : Past) (s : Host) (op : Op) : Prop :=
  ∀ offered ∈ past.filterMap offeredBy, ∀ x ∈ versionOf offered, ∀ v ∈ installedBy env (s, op),
    VersionLe offered v

theorem FloorCovers.mono {floor floor' : String} {x : Version} (h : FloorCovers floor x)
    (hfloor : floor = "" ∨ floor' = floor ∨ VersionLe floor floor') : FloorCovers floor' x := by
  rcases h with h | ⟨hne, h⟩
  · exact Or.inl h
  rcases hfloor with hempty | rfl | hle
  · exact absurd hempty hne
  · exact Or.inr ⟨hne, h⟩
  · obtain ⟨y, z, hy, hz, hyz⟩ := (versionLe_iff _ _).mp hle
    refine Or.inr ⟨ne_empty_of_versionOf hz, fun z' hz' => ?_⟩
    obtain rfl : z = z' := by simpa [hz] using hz'
    exact (h y hy).trans hyz

theorem FloorCovers.of_versionLe {offered floor : String} {x : Version}
    (hx : versionOf offered = some x) (h : VersionLe offered floor) : FloorCovers floor x := by
  obtain ⟨x', z, hx', hz, hxz⟩ := (versionLe_iff _ _).mp h
  obtain rfl : x = x' := by simpa [hx] using hx'
  refine Or.inr ⟨ne_empty_of_versionOf hz, fun z' hz' => ?_⟩
  obtain rfl : z = z' := by simpa [hz] using hz'
  exact hxz

theorem floorCovers_step {env : Env} {s : Host} {op : Op} (hop : OfferCovered env s op)
    {offered : String} (hoffered : offeredBy (s, op) = some offered) {x : Version}
    (hx : versionOf offered = some x) :
    FloorCovers (step env s op).state.maxVersionEverSeen x := by
  have hmono := step_floor env s op
  cases op with
  | rollback now f saved => simp [offeredBy] at hoffered
  | check m currentVersion host clock saved =>
    obtain rfl : m.release.version = offered := by simpa [offeredBy] using hoffered
    rcases hop x hx with hcov | ⟨rfl, u, hu⟩
    · exact hcov.mono hmono
    · have haccepts := (applyGate_apply_iff _ _ _ _).mp hu
      refine FloorCovers.of_versionLe hx ?_
      obtain ⟨_, ⟨u', hu', hmax⟩ | ⟨hrefused, _⟩⟩ :=
        cmdUpdateCheck_floor m currentVersion host clock s.state
      · obtain rfl : u = u' := by simpa [hu] using hu'
        rw [← haccepts.version]
        exact haccepts.raise.1.trans_eq hmax.symm
      · exact absurd hu (hrefused u)
  | apply ctx f saved =>
    obtain rfl : ctx.manifest.release.version = offered := by simpa [offeredBy] using hoffered
    rcases hop x hx with hcov | ⟨⟨hf, rfl⟩, ⟨u, hu⟩, hbytes⟩
    · exact hcov.mono hmono
    · refine FloorCovers.of_versionLe hx ?_
      rcases applyUpdate_state env f ctx s with ⟨hout, _⟩ | ⟨u', hu', _, _, hstate⟩
      · rw [applyUpdate_installs hf hu hbytes] at hout
        exact absurd hout (by decide)
      · rw [step_apply_saved, hstate, ← hu'.accepts.version]
        exact hu'.accepts.raise.1

/-- The offers of the past are covered by the floor. -/
def OffersCovered (past : Past) (s : Host) : Prop :=
  ∀ offered ∈ past.filterMap offeredBy, ∀ x ∈ versionOf offered,
    FloorCovers s.state.maxVersionEverSeen x

theorem offersCovered_step (env : Env) (past : Past) (s : Host) (op : Op)
    (h : OffersCovered past s) (hop : OfferCovered env s op) :
    OffersCovered (past ++ [(s, op)]) (step env s op) := by
  intro offered hoffered x hx
  rw [List.filterMap_append, List.mem_append] at hoffered
  rcases hoffered with hold | hnew
  · exact (h offered hold x hx).mono (step_floor env s op)
  · obtain ⟨p, hp, hoff⟩ := List.mem_filterMap.mp hnew
    obtain rfl := List.mem_singleton.mp hp
    exact floorCovers_step hop hoff hx

theorem noUndercut_of_offersCovered (env : Env) (past : Past) (s : Host) (op : Op)
    (h : OffersCovered past s) : NoUndercut env past s op := by
  intro offered hoffered x hx v hv
  obtain ⟨ctx, _, _, u, _, hu, rfl⟩ := installedBy_accepted hv
  obtain ⟨⟨y, hy⟩, hfloor⟩ := hu.accepts.floor
  rcases h offered hoffered x hx with rfl | ⟨hne, hcov⟩
  · exact (versionLe_iff _ _).mpr ⟨_, y, hx, hy, version_zero_le y⟩
  · obtain ⟨z, y', hz, hy', hzy⟩ := (versionLe_iff _ _).mp (hfloor.resolve_left hne)
    obtain rfl : y = y' := by simpa [hy] using hy'
    exact (versionLe_iff _ _).mpr ⟨x, y, hx, hy, (hcov z hz).trans hzy⟩

/-- **An offered version is never undercut**, in every session, from any state, whose offers are
covered or accepted when they come. -/
theorem never_undercut (env : Env) (s : Host) (ops : List Op)
    (hops : Along (step env) (fun _ s op => OfferCovered env s op) [] s ops) :
    Along (step env) (NoUndercut env) [] s ops :=
  Along.of_invariant (offersCovered_step env)
    (fun past s op h _ => noUndercut_of_offersCovered env past s op h)
    (by simp [OffersCovered]) hops

/-- The decision on the sample release 2.0.0. -/
def sampleDecision : UpdateApply :=
  ⟨"2.0.0", ⟨.linux, .x86_64, "souxmar.tar.gz", sampleEnv.sha256Hex [1], 1⟩, false⟩

/-- A check of 2.0.0, then its installation. -/
theorem never_undercut_check_then_apply :
    Along (step sampleEnv) (NoUndercut sampleEnv) [] {}
      [sampleCheck "2.0.0" "" "", sampleApply "2.0.0" ""] :=
  never_undercut sampleEnv {} _
    ⟨fun _ _ => Or.inr ⟨rfl, sampleDecision, by decide⟩,
    fun _ _ => Or.inr ⟨sampleApply_persists "2.0.0" "",
      ⟨sampleDecision, ⟨by decide, rfl, rfl⟩⟩, by decide⟩,
    trivial⟩

/-- A check refuses 2.0.0 as expired, and 1.0.0 is installed after it. -/
theorem expired_offer_undercut :
    let expired := sampleCheck "2.0.0" "2020-01-01T00:00:00Z" "0.9.0"
    offeredBy (({} : Host), expired) = some "2.0.0" ∧
      installedBy sampleEnv (step sampleEnv {} expired, sampleApply "1.0.0" "0.9.0") =
        some "1.0.0" ∧ ¬ VersionLe "2.0.0" "1.0.0" := by
  decide

end Souxmar.Updater
