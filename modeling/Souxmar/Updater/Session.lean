import Souxmar.Lib.Run
import Souxmar.Updater.Apply

/-!
# Update sessions

A session is any sequence of update checks, applies and rollbacks on one host; manifests, platforms,
clocks, the current version each call is given and the file-system steps that fail are arbitrary.
What a session installed, moved off and was offered is read from its trace.

`watermark_run` is the invariant of sessions that start fresh and persist what they do: whatever a
rollback can return to was installed in the session and lies below the replay floor
`max_version_ever_seen`.
-/

namespace Souxmar.Updater

open Souxmar.Lib

/-- One call; `saved` tells whether the caller then manages to write the state back, so that the
next call finds it. -/
inductive Op
  | check (m : Manifest) (currentVersion : String) (host : HostPlatform) (clock : Clock)
    (saved : Bool)
  | apply (ctx : ApplyContext) (f : ApplyFaults) (saved : Bool)
  | rollback (now : TimePoint) (f : RollbackFaults) (saved : Bool)

/-- The state the next call finds. -/
def keepState (saved : Bool) (old new : UpdateState) : UpdateState := if saved then new else old

def step (env : Env) (s : Host) : Op → Host
  | .check m currentVersion host clock saved =>
    { s with state := keepState saved s.state (cmdUpdateCheck m currentVersion host clock s.state).2 }
  | .apply ctx f saved =>
    let s' := (applyUpdate env f ctx s).2
    { s' with state := keepState saved s.state s'.state }
  | .rollback now f saved =>
    let s' := (rollback env f now s).2
    { s' with state := keepState saved s.state s'.state }

theorem step_apply_saved (env : Env) (s : Host) (ctx : ApplyContext) (f : ApplyFaults) :
    step env s (.apply ctx f true) = (applyUpdate env f ctx s).2 := rfl

theorem step_rollback_saved (env : Env) (s : Host) (now : TimePoint) (f : RollbackFaults) :
    step env s (.rollback now f true) = (rollback env f now s).2 := rfl

/-- The persistence steps of a call succeed: staging, the two markers, the state. -/
def Op.Persists : Op → Prop
  | .check _ _ _ _ saved => saved = true
  | .apply _ f saved => f.Persists ∧ saved = true
  | .rollback _ f saved => f.switch = {} ∧ saved = true

/-- The steps a session has taken, each with the host it met. -/
abbrev Past : Type := List (Host × Op)

/-- The version a step installs. -/
def installedBy (env : Env) (p : Host × Op) : Option String :=
  match p.2 with
  | .apply ctx f _ =>
    let r := (applyUpdate env f ctx p.1).1
    if r.outcome.installs then some r.appliedVersion else none
  | _ => none

/-- The version a step moves the install off. -/
def movedOffBy (env : Env) (p : Host × Op) : Option String :=
  match p.2 with
  | .rollback now f _ =>
    let r := (rollback env f now p.1).1
    if r.outcome.moves then some r.fromVersion else none
  | _ => none

/-- The version a check or an apply is offered. -/
def offeredBy (p : Host × Op) : Option String :=
  match p.2 with
  | .check m _ _ _ _ => some m.release.version
  | .apply ctx _ _ => some ctx.manifest.release.version
  | .rollback _ _ _ => none

def installed (env : Env) (past : Past) : List String := past.filterMap (installedBy env)

def movedOff (env : Env) (past : Past) : List String := past.filterMap (movedOffBy env)

/-! ### The floor -/

theorem raiseFloor_spec {v floor : String} {x : Version} (hv : versionOf v = some x)
    (hfloor : floor = "" ∨ ∃ y, versionOf floor = some y) :
    VersionLe v (raiseFloor v floor) ∧ (floor = "" ∨ VersionLe floor (raiseFloor v floor)) := by
  unfold raiseFloor
  rcases hfloor with rfl | ⟨y, hy⟩
  · exact ⟨by simpa using VersionLe.refl hv, Or.inl rfl⟩
  rw [if_neg (ne_empty_of_versionOf hy)]
  obtain ⟨c, hc, _, hpos⟩ := compareVersions_spec hv hy
  by_cases h : 0 < c
  · have hyx : y ≤ x := (hpos.mp h).le
    simp only [hc, Option.any_some, h, decide_true, if_true]
    exact ⟨VersionLe.refl hv, Or.inr ((versionLe_iff _ _).mpr ⟨y, x, hy, hv, hyx⟩)⟩
  · simp only [hc, Option.any_some, h, decide_false, Bool.false_eq_true, if_false]
    exact ⟨⟨c, hc, not_lt.mp h⟩, Or.inr (VersionLe.refl hy)⟩

theorem Accepts.floor {m : Manifest} {install : CurrentInstall} {now : TimePoint} {u : UpdateApply}
    (h : Accepts m install now u) :
    (∃ x, versionOf u.version = some x) ∧
      (install.maxVersionEverSeen = "" ∨ VersionLe install.maxVersionEverSeen u.version) := by
  obtain ⟨v, hv, _, hmax⟩ := h.offered
  rw [h.version]
  refine ⟨⟨v, hv⟩, ?_⟩
  rcases hmax with hmax | ⟨y, hy, hle⟩
  · exact Or.inl hmax
  · exact Or.inr ((versionLe_iff _ _).mpr ⟨y, v, hy, hv, hle⟩)

theorem Accepts.raise {m : Manifest} {install : CurrentInstall} {now : TimePoint} {u : UpdateApply}
    (h : Accepts m install now u) :
    VersionLe u.version (raiseFloor u.version install.maxVersionEverSeen) ∧
      (install.maxVersionEverSeen = "" ∨
        VersionLe install.maxVersionEverSeen (raiseFloor u.version install.maxVersionEverSeen)) := by
  obtain ⟨⟨x, hx⟩, hfloor⟩ := h.floor
  refine raiseFloor_spec hx (hfloor.imp id fun hle => ?_)
  obtain ⟨y, _, hy, _⟩ := (versionLe_iff _ _).mp hle
  exact ⟨y, hy⟩

/-- A check touches the floor only when the gate accepts. -/
theorem cmdUpdateCheck_floor (m : Manifest) (currentVersion : String) (host : HostPlatform)
    (clock : Clock) (s : UpdateState) :
    ((cmdUpdateCheck m currentVersion host clock s).2.currentInstalledVersion =
      s.currentInstalledVersion) ∧
    ((∃ u, applyGate m ⟨currentVersion, s.maxVersionEverSeen, host⟩ clock.atGate = .apply u ∧
        (cmdUpdateCheck m currentVersion host clock s).2.maxVersionEverSeen =
          raiseFloor u.version s.maxVersionEverSeen) ∨
      (∀ u, applyGate m ⟨currentVersion, s.maxVersionEverSeen, host⟩ clock.atGate ≠ .apply u) ∧
        (cmdUpdateCheck m currentVersion host clock s).2.maxVersionEverSeen =
          s.maxVersionEverSeen) := by
  unfold cmdUpdateCheck
  cases hgate : applyGate m ⟨currentVersion, s.maxVersionEverSeen, host⟩ clock.atGate with
  | apply u => exact ⟨rfl, Or.inl ⟨u, rfl, rfl⟩⟩
  | refusal r => exact ⟨rfl, Or.inr ⟨by simp, rfl⟩⟩

theorem step_floor (env : Env) (s : Host) (op : Op) :
    s.state.maxVersionEverSeen = "" ∨
      (step env s op).state.maxVersionEverSeen = s.state.maxVersionEverSeen ∨
      VersionLe s.state.maxVersionEverSeen (step env s op).state.maxVersionEverSeen := by
  cases op with
  | check m currentVersion host clock saved =>
    cases saved with
    | false => exact Or.inr (Or.inl rfl)
    | true =>
      obtain ⟨_, ⟨u, hgate, hmax⟩ | ⟨_, hmax⟩⟩ :=
        cmdUpdateCheck_floor m currentVersion host clock s.state
      · have hraise := ((applyGate_apply_iff _ _ _ _).mp hgate).raise.2
        exact hraise.imp id fun hle => Or.inr (hle.trans_eq hmax.symm)
      · exact Or.inr (Or.inl hmax)
  | apply ctx f saved =>
    cases saved with
    | false => exact Or.inr (Or.inl rfl)
    | true =>
      rcases applyUpdate_state env f ctx s with ⟨_, hstate⟩ | ⟨u, hu, _, _, hstate⟩
      · exact Or.inr (Or.inl (congrArg UpdateState.maxVersionEverSeen hstate))
      · have hraise := hu.accepts.raise.2
        have hmax := congrArg UpdateState.maxVersionEverSeen hstate
        exact hraise.imp id fun hle => Or.inr (hle.trans_eq hmax.symm)
  | rollback now f saved =>
    cases saved with
    | false => exact Or.inr (Or.inl rfl)
    | true =>
      rcases rollback_state env f now s with ⟨_, hstate⟩ | ⟨target, _, _, _, hstate⟩
      · exact Or.inr (Or.inl (congrArg UpdateState.maxVersionEverSeen hstate))
      · refine Or.inr (Or.inl ?_)
        rw [step_rollback_saved, hstate]

theorem run_floor (env : Env) (ops : List Op) (s : Host)
    (hs : s.state.maxVersionEverSeen = "" ∨ ∃ x, versionOf s.state.maxVersionEverSeen = some x) :
    s.state.maxVersionEverSeen = "" ∨
      VersionLe s.state.maxVersionEverSeen (run (step env) s ops).state.maxVersionEverSeen := by
  rcases hs with hs | ⟨x, hx⟩
  · exact Or.inl hs
  refine Or.inr ?_
  induction ops generalizing s x with
  | nil => exact VersionLe.refl hx
  | cons op ops ih =>
    rw [run_cons]
    rcases step_floor env s op with hempty | hsame | hle
    · exact absurd hempty (ne_empty_of_versionOf hx)
    · rw [← hsame]
      exact ih (step env s op) x (by rw [hsame]; exact hx)
    · obtain ⟨_, y, _, hy, _⟩ := (versionLe_iff _ _).mp hle
      exact hle.trans (ih (step env s op) y hy)

theorem installedBy_accepted {env : Env} {s : Host} {op : Op} {v : String}
    (h : installedBy env (s, op) = some v) :
    ∃ ctx f saved u, op = .apply ctx f saved ∧ Verified env ctx s.state u ∧ u.version = v := by
  cases op with
  | check m currentVersion host clock saved => simp [installedBy] at h
  | rollback now f saved => simp [installedBy] at h
  | apply ctx f saved =>
    rcases applyUpdate_state env f ctx s with ⟨hout, _⟩ | ⟨u, hu, hout, hver, _⟩
    · simp [installedBy, hout] at h
    · refine ⟨ctx, f, saved, u, rfl, hu, ?_⟩
      simpa [installedBy, hout, hver] using h

theorem installedBy_floor {env : Env} {s : Host} {op : Op} {v : String}
    (h : installedBy env (s, op) = some v) :
    s.state.maxVersionEverSeen = "" ∨ VersionLe s.state.maxVersionEverSeen v := by
  obtain ⟨ctx, _, _, u, _, hu, rfl⟩ := installedBy_accepted h
  exact hu.accepts.floor.2

/-! ### The watermark invariant -/

/-- What holds along a session that starts fresh, on an install without payloads: everything a
rollback could return to was installed in the session, hence is below the floor. -/
structure Watermark (env : Env) (past : Past) (s : Host) : Prop where
  floor : s.state.maxVersionEverSeen = "" ∨ ∃ x, versionOf s.state.maxVersionEverSeen = some x
  below : ∀ v ∈ installed env past, VersionLe v s.state.maxVersionEverSeen
  current : s.state.currentInstalledVersion = "" ∨
    s.state.currentInstalledVersion ∈ installed env past
  payload : ∀ v, s.layout.hasVersionPayload v = true → v ∈ installed env past
  marker : (∃ v, s.layout.hasVersionPayload v = true) →
    s.layout.readCurrentVersion ∈ installed env past
  moved : ∀ v ∈ movedOff env past, v ∈ installed env past

theorem watermark_init (env : Env) (l : InstallLayout)
    (hl : ∀ v, l.hasVersionPayload v = false) : Watermark env [] { layout := l } where
  floor := Or.inl rfl
  below := by simp [installed]
  current := Or.inl rfl
  payload v hv := by simp [hl v] at hv
  marker := by
    rintro ⟨v, hv⟩
    simp [hl v] at hv
  moved := by simp [movedOff]

theorem installed_snoc (env : Env) (past : Past) (p : Host × Op) :
    installed env (past ++ [p]) = installed env past ++ (installedBy env p).toList := by
  cases h : installedBy env p <;> simp [installed, h]

theorem movedOff_snoc (env : Env) (past : Past) (p : Host × Op) :
    movedOff env (past ++ [p]) = movedOff env past ++ (movedOffBy env p).toList := by
  cases h : movedOffBy env p <;> simp [movedOff, h]

theorem Watermark.quiet {env : Env} {past : Past} {s s' : Host} {op : Op}
    (h : Watermark env past s) (hinst : installedBy env (s, op) = none)
    (hmoved : movedOffBy env (s, op) = none)
    (hcurrent : s'.state.currentInstalledVersion = s.state.currentInstalledVersion)
    (hmarker : s'.layout.readCurrentVersion = s.layout.readCurrentVersion)
    (hpay : ∀ v, s'.layout.hasVersionPayload v = true → s.layout.hasVersionPayload v = true)
    (hfloor : s'.state.maxVersionEverSeen = s.state.maxVersionEverSeen ∨
      (∃ x, versionOf s'.state.maxVersionEverSeen = some x) ∧
        (s.state.maxVersionEverSeen = "" ∨
          VersionLe s.state.maxVersionEverSeen s'.state.maxVersionEverSeen)) :
    Watermark env (past ++ [(s, op)]) s' := by
  have hinstalled : installed env (past ++ [(s, op)]) = installed env past := by
    simp [installed_snoc, hinst]
  have hmovedOff : movedOff env (past ++ [(s, op)]) = movedOff env past := by
    simp [movedOff_snoc, hmoved]
  refine ⟨?_, ?_, ?_, ?_, ?_, ?_⟩
  · rcases hfloor with hsame | ⟨hwf, _⟩
    · rw [hsame]
      exact h.floor
    · exact Or.inr hwf
  · intro v hv
    rw [hinstalled] at hv
    have hle := h.below v hv
    rcases hfloor with hsame | ⟨_, hempty | hraised⟩
    · rwa [hsame]
    · obtain ⟨_, y, _, hy, _⟩ := (versionLe_iff _ _).mp hle
      exact absurd hempty (ne_empty_of_versionOf hy)
    · exact hle.trans hraised
  · rw [hcurrent, hinstalled]
    exact h.current
  · intro v hv
    rw [hinstalled]
    exact h.payload v (hpay v hv)
  · rintro ⟨v, hv⟩
    rw [hmarker, hinstalled]
    exact h.marker ⟨v, hpay v hv⟩
  · rw [hmovedOff, hinstalled]
    exact h.moved

theorem Watermark.checks {env : Env} {past : Past} {s : Host} (h : Watermark env past s) (m : Manifest)
    (currentVersion : String) (host : HostPlatform) (clock : Clock) :
    Watermark env (past ++ [(s, .check m currentVersion host clock true)])
      (step env s (.check m currentVersion host clock true)) := by
  obtain ⟨hcurrent, hfloor⟩ := cmdUpdateCheck_floor m currentVersion host clock s.state
  refine h.quiet rfl rfl hcurrent rfl (fun v hv => hv) ?_
  rcases hfloor with ⟨u, hgate, hmax⟩ | ⟨_, hmax⟩
  · have hraise := ((applyGate_apply_iff _ _ _ _).mp hgate).raise
    obtain ⟨_, y, _, hy, _⟩ := (versionLe_iff _ _).mp hraise.1
    refine Or.inr ⟨⟨y, ?_⟩, hraise.2.imp id fun hle => hle.trans_eq hmax.symm⟩
    exact (congrArg versionOf hmax).trans hy
  · exact Or.inl hmax

theorem Watermark.applies {env : Env} {past : Past} {s : Host} (h : Watermark env past s) (ctx : ApplyContext)
    {f : ApplyFaults} (hf : f.Persists) :
    Watermark env (past ++ [(s, .apply ctx f true)]) (step env s (.apply ctx f true)) := by
  rcases applyUpdate_effect env hf ctx s with ⟨hout, hstate, hfiles, hpay⟩ |
    ⟨u, hu, hout, hver, hstate, hcurrent, _, hpay⟩
  · refine h.quiet (by simp [installedBy, hout]) rfl (by rw [step_apply_saved, hstate]) ?_ hpay
      (Or.inl (by rw [step_apply_saved, hstate]))
    rw [step_apply_saved, InstallLayout.readCurrentVersion, hfiles.current, InstallLayout.readCurrentVersion]
  · have hraise := hu.accepts.raise
    obtain ⟨⟨x, hx⟩, _⟩ := hu.accepts.floor
    obtain ⟨_, y, _, hy, _⟩ := (versionLe_iff _ _).mp hraise.1
    have hinstalled : installed env (past ++ [(s, .apply ctx f true)]) =
        installed env past ++ [u.version] := by
      simp [installed_snoc, installedBy, hout, hver]
    have hmovedOff : movedOff env (past ++ [(s, .apply ctx f true)]) = movedOff env past := by
      simp [movedOff_snoc, movedOffBy]
    refine ⟨?_, ?_, ?_, ?_, ?_, ?_⟩
    · exact Or.inr ⟨y, by rw [step_apply_saved, hstate]; exact hy⟩
    · intro v hv
      rw [hinstalled, List.mem_append, List.mem_singleton] at hv
      rw [step_apply_saved, hstate]
      rcases hv with hv | rfl
      · have hle := h.below v hv
        rcases hraise.2 with hempty | hraised
        · obtain ⟨_, z, _, hz, _⟩ := (versionLe_iff _ _).mp hle
          exact absurd hempty (ne_empty_of_versionOf hz)
        · exact hle.trans hraised
      · exact hraise.1
    · rw [step_apply_saved, hstate, hinstalled]
      exact Or.inr (by simp)
    · intro v hv
      rw [hinstalled, List.mem_append, List.mem_singleton]
      exact (hpay v hv).elim Or.inr fun hold => Or.inl (h.payload v hold)
    · rintro -
      rw [step_apply_saved, InstallLayout.readCurrentVersion, hcurrent,
        readOneLine_marker (stripped_of_versionOf hx), hinstalled]
      simp
    · intro v hv
      rw [hmovedOff] at hv
      rw [hinstalled]
      exact List.mem_append_left _ (h.moved v hv)

theorem Watermark.rollsBack {env : Env} {past : Past} {s : Host} (h : Watermark env past s) (now : TimePoint)
    {f : RollbackFaults} (hf : f.switch = {}) :
    Watermark env (past ++ [(s, .rollback now f true)]) (step env s (.rollback now f true)) := by
  rcases rollback_effect env hf now s with ⟨hout, hsame⟩ |
    ⟨target, hout, hpay, hfrom, _, hstate, hcurrent, _, hvers⟩
  · rw [step_rollback_saved, hsame]
    exact h.quiet rfl (by simp [movedOffBy, hout]) rfl rfl (fun v hv => hv) (Or.inl rfl)
  · have hinstalled : installed env (past ++ [(s, .rollback now f true)]) = installed env past := by
      simp [installed_snoc, installedBy]
    have hmovedOff : movedOff env (past ++ [(s, .rollback now f true)]) =
        movedOff env past ++ [s.layout.readCurrentVersion] := by
      simp [movedOff_snoc, movedOffBy, hout, hfrom]
    have htarget := h.payload target hpay
    refine ⟨?_, ?_, ?_, ?_, ?_, ?_⟩
    · rw [step_rollback_saved, hstate]
      exact h.floor
    · intro v hv
      rw [hinstalled] at hv
      rw [step_rollback_saved, hstate]
      exact h.below v hv
    · rw [step_rollback_saved, hstate, hinstalled]
      exact Or.inr htarget
    · intro v hv
      rw [hinstalled]
      rw [step_rollback_saved, InstallLayout.hasVersionPayload, InstallLayout.payload, hvers] at hv
      exact h.payload v hv
    · rintro -
      obtain ⟨x, _, hx, _⟩ := (versionLe_iff _ _).mp (h.below target htarget)
      rw [step_rollback_saved, InstallLayout.readCurrentVersion, hcurrent,
        readOneLine_marker (stripped_of_versionOf hx), hinstalled]
      exact htarget
    · intro v hv
      rw [hmovedOff, List.mem_append, List.mem_singleton] at hv
      rw [hinstalled]
      rcases hv with hv | rfl
      · exact h.moved v hv
      · exact h.marker ⟨target, hpay⟩

theorem watermark_step (env : Env) (past : Past) (s : Host) (op : Op)
    (h : Watermark env past s) (hop : op.Persists) : Watermark env (past ++ [(s, op)]) (step env s op) := by
  cases op with
  | check m currentVersion host clock saved =>
    obtain rfl : saved = true := hop
    exact h.checks m currentVersion host clock
  | apply ctx f saved =>
    obtain ⟨hf, rfl⟩ := hop
    exact h.applies ctx hf
  | rollback now f saved =>
    obtain ⟨hf, rfl⟩ := hop
    exact h.rollsBack now hf

/-- The invariant holds after every session. -/
theorem watermark_run (env : Env) (l : InstallLayout) (hl : ∀ v, l.hasVersionPayload v = false)
    (ops : List Op) (hops : ∀ op ∈ ops, op.Persists) :
    Watermark env (trace (step env) { layout := l } ops) (run (step env) { layout := l } ops) :=
  Along.invariant (C := fun _ _ op => op.Persists) (watermark_step env) (watermark_init env l hl)
    (along_of_forall_mem _ _ hops)

end Souxmar.Updater
