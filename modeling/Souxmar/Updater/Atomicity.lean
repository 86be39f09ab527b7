import Souxmar.Updater.Apply

/-!
# When a failed update is atomic

A failed `apply_update` or `rollback` should leave the two markers, the payloads they name, the log
and the update state as they were. `failed_updates_atomic_iff` says for which faults and which
installs it does: the two gaps are a version directory replaced although a marker names it, and a
previous marker written before the current one failed. `switchFailed_rewrites_previous` is the
shortest run through the second gap.
-/

namespace Souxmar.Updater

open Souxmar.Lib

/-- Everything a failed call should leave alone. -/
structure Untouched (s s' : Host) : Prop where
  current : s'.layout.current = s.layout.current
  previous : s'.layout.previous = s.layout.previous
  currentPayload : s'.layout.payload s.layout.readCurrentVersion =
    s.layout.payload s.layout.readCurrentVersion
  previousPayload : s'.layout.payload s.layout.readPreviousVersion =
    s.layout.payload s.layout.readPreviousVersion
  log : s'.layout.log = s.layout.log
  state : s'.state = s.state

theorem Untouched.refl (s : Host) : Untouched s s := ⟨rfl, rfl, rfl, rfl, rfl, rfl⟩

/-! ### The switch -/

namespace InstallLayout

/-- When the switch gets past its payload test, which of its marker writes reports failure. -/
def SwitchFaults.Fails (f : SwitchFaults) (fromVersion : String) : Prop :=
  (fromVersion ≠ "" ∧ f.previous.reports = false) ∨ f.current.reports = false

/-- The two marker writes leave both files as they were; the second one runs only when the first
reported success. -/
def SwitchFaults.Leaves (f : SwitchFaults) (l : InstallLayout) (fromVersion toVersion : String) :
    Prop :=
  (fromVersion ≠ "" → f.previous.Leaves l.previous (fromVersion.toList ++ ['\n'])) ∧
    ((fromVersion ≠ "" → f.previous.reports = true) →
      f.current.Leaves l.current (toVersion.toList ++ ['\n']))

theorem atomicSwitchTo_spec (f : SwitchFaults) (fromVersion : String) {toVersion : String}
    {l : InstallLayout} (hto : toVersion ≠ "") (hpay : l.hasVersionPayload toVersion = true) :
    ((l.atomicSwitchTo f fromVersion toVersion).1 = false ↔ f.Fails fromVersion) ∧
      ((l.atomicSwitchTo f fromVersion toVersion).2.previous = l.previous ∧
        (l.atomicSwitchTo f fromVersion toVersion).2.current = l.current ↔
          f.Leaves l fromVersion toVersion) := by
  have hprev := writeTmpRename_fst f.previous l.previous (fromVersion.toList ++ ['\n'])
  have hcur := writeTmpRename_fst f.current l.current (toVersion.toList ++ ['\n'])
  have hprev' := writeTmpRename_snd f.previous l.previous (fromVersion.toList ++ ['\n'])
  have hcur' := writeTmpRename_snd f.current l.current (toVersion.toList ++ ['\n'])
  unfold SwitchFaults.Fails SwitchFaults.Leaves
  by_cases hfrom : fromVersion = ""
  · simp [atomicSwitchTo, hto, hpay, hfrom, writeMarkerAtomic, hcur, hcur']
  · cases hreport : f.previous.reports <;>
      simp [atomicSwitchTo, hto, hpay, hfrom, writeMarkerAtomic, hprev, hreport, hcur, hcur', hprev']

/-- A marker names the version. -/
def Named (l : InstallLayout) (version : String) : Prop :=
  version = l.readCurrentVersion ∨ version = l.readPreviousVersion

end InstallLayout

/-! ### Apply -/

/-- Staging `u` reports success. -/
def Staged (f : PayloadFaults) (l : InstallLayout) (version : String) : Prop :=
  f.early = false ∧ (version ∈ l.versions → f.removeOld = .done) ∧ f.rename = false

/-- When a failed apply is atomic. A failed staging must not have removed a payload that a marker
names. After a staging that succeeded, the switch fails on a payload of which nothing was written or on
a marker write: the payload must not have replaced one that a marker names, and neither marker may have
changed. -/
def ApplyKeeps (env : Env) (f : ApplyFaults) (ctx : ApplyContext) (s : Host) : Prop :=
  ∀ u, Verified env ctx s.state u →
    (¬ Staged f.payload s.layout u.version → s.layout.Named u.version →
      s.layout.payload u.version ≠ none → f.payload.early = true ∨
        f.payload.removeOld = .untouched) ∧
    (Staged f.payload s.layout u.version →
      f.payload.written ctx.artifactBytes = [] ∨ f.switch.Fails s.layout.readCurrentVersion →
      (s.layout.Named u.version →
        s.layout.payload u.version = some (f.payload.written ctx.artifactBytes)) ∧
      (f.payload.written ctx.artifactBytes ≠ [] →
        f.switch.Leaves s.layout s.layout.readCurrentVersion u.version))

theorem untouched_iff {s : Host} {l' : InstallLayout} {version : String} {new : Option (List UInt8)}
    (hlog : l'.log = s.layout.log)
    (h : ∀ v, l'.payload v = if v = version then new else s.layout.payload v) :
    Untouched s { s with layout := l' } ↔
      (l'.previous = s.layout.previous ∧ l'.current = s.layout.current) ∧
        (s.layout.Named version → s.layout.payload version = new) := by
  constructor
  · rintro ⟨hcurrent, hprevious, hcur, hprev, _, _⟩
    refine ⟨⟨hprevious, hcurrent⟩, ?_⟩
    rintro (rfl | rfl)
    · simpa [h] using hcur.symm
    · simpa [h] using hprev.symm
  · rintro ⟨⟨hprevious, hcurrent⟩, hnamed⟩
    have hkept : ∀ v, v = s.layout.readCurrentVersion ∨ v = s.layout.readPreviousVersion →
        l'.payload v = s.layout.payload v := by
      intro v hv
      rw [h]
      split_ifs with heq
      · subst heq
        exact (hnamed hv).symm
      · rfl
    exact ⟨hcurrent, hprevious, hkept _ (Or.inl rfl), hkept _ (Or.inr rfl), hlog, rfl⟩

theorem untouched_stageVersion_iff {f : PayloadFaults} {version : String} {bytes : List UInt8}
    {s : Host} (hversion : version ≠ "")
    (hstaged : (s.layout.stageVersion f version bytes).1 = false) :
    Untouched s { s with layout := (s.layout.stageVersion f version bytes).2 } ↔
      (s.layout.Named version → s.layout.payload version ≠ none →
        f.early = true ∨ f.removeOld = .untouched) := by
  have hfiles := InstallLayout.stageVersion_sameFiles f version bytes s.layout
  have hpay : ∀ v, (s.layout.stageVersion f version bytes).2.payload v =
      if v = version then
        (if f.early = false ∧ f.removeOld ≠ .untouched then none else s.layout.payload version)
      else s.layout.payload v := by
    intro v
    rw [InstallLayout.stageVersion_failed hstaged]
    by_cases hv : v = version
    · simp [hv, hversion]
    · simp [hv]
  rw [untouched_iff hfiles.log hpay]
  constructor
  · rintro ⟨_, h⟩ hnamed hsome
    by_contra hcon
    simp only [not_or, Bool.not_eq_true] at hcon
    have hgone := h hnamed
    rw [if_pos hcon] at hgone
    exact hsome hgone
  · intro h
    refine ⟨⟨hfiles.previous, hfiles.current⟩, fun hnamed => ?_⟩
    by_cases hcon : f.early = false ∧ f.removeOld ≠ .untouched
    · rw [if_pos hcon]
      by_contra hsome
      rcases h hnamed hsome with he | he
      · simp [hcon.1] at he
      · exact hcon.2 he
    · rw [if_neg hcon]

theorem untouched_atomicSwitchTo_iff {f : InstallLayout.SwitchFaults} {version : String}
    {bytes : List UInt8} {s : Host} {layout : InstallLayout} (hversion : version ≠ "")
    (hfiles : s.layout.SameFiles layout)
    (hpay : ∀ v, layout.payload v = if v = version then some bytes else s.layout.payload v) :
    ((layout.atomicSwitchTo f s.layout.readCurrentVersion version).1 = false ↔
        bytes = [] ∨ f.Fails s.layout.readCurrentVersion) ∧
      (Untouched s { s with
          layout := (layout.atomicSwitchTo f s.layout.readCurrentVersion version).2 } ↔
        (s.layout.Named version → s.layout.payload version = some bytes) ∧
          (bytes ≠ [] → f.Leaves s.layout s.layout.readCurrentVersion version)) := by
  have hhas : layout.hasVersionPayload version = decide (bytes.length > 0) := by
    rw [InstallLayout.hasVersionPayload, hpay, if_pos rfl, Option.any_some]
  obtain ⟨hvers, hlog, _⟩ := InstallLayout.atomicSwitchTo_frame f s.layout.readCurrentVersion
    version layout
  by_cases hbytes : bytes = []
  · -- an empty payload is refused by the switch
    have hrefused := InstallLayout.atomicSwitchTo_refused f s.layout.readCurrentVersion
      (Or.inr (by simp [hhas, hbytes]) : version = "" ∨ layout.hasVersionPayload version = false)
    rw [hrefused, untouched_iff hfiles.log hpay]
    exact ⟨by simp [hbytes],
      fun h => ⟨h.2, fun h' => absurd hbytes h'⟩,
      fun h => ⟨⟨hfiles.previous, hfiles.current⟩, h.1⟩⟩
  · obtain ⟨hfails, hleaves⟩ := InstallLayout.atomicSwitchTo_spec f
      s.layout.readCurrentVersion hversion
      (hhas.trans (by simpa [List.length_pos_iff] using hbytes))
    have hpay' : ∀ v, (layout.atomicSwitchTo f s.layout.readCurrentVersion version).2.payload v =
        if v = version then some bytes else s.layout.payload v := by
      intro v
      rw [InstallLayout.payload, hvers, ← hpay v, InstallLayout.payload]
    have hleaves' : f.Leaves layout s.layout.readCurrentVersion version ↔
        f.Leaves s.layout s.layout.readCurrentVersion version := by
      rw [InstallLayout.SwitchFaults.Leaves, InstallLayout.SwitchFaults.Leaves, hfiles.previous,
        hfiles.current]
    rw [hfiles.previous, hfiles.current, hleaves'] at hleaves
    rw [hfails, untouched_iff (hlog.trans hfiles.log) hpay', hleaves]
    exact ⟨by simp [hbytes],
      fun h => ⟨h.2, fun _ => h.1⟩, fun h => ⟨h.2 hbytes, h.1⟩⟩

theorem applyUpdate_atomic_iff (env : Env) (f : ApplyFaults) (ctx : ApplyContext) (s : Host) :
    ((applyUpdate env f ctx s).1.outcome.installs = false →
      Untouched s (applyUpdate env f ctx s).2) ↔ ApplyKeeps env f ctx s := by
  by_cases hver : ∃ u, Verified env ctx s.state u
  swap
  · obtain ⟨_, hsame⟩ := applyUpdate_unverified hver f
    rw [hsame]
    exact ⟨fun _ u hu => absurd ⟨u, hu⟩ hver, fun _ _ => .refl s⟩
  obtain ⟨u, hu⟩ := hver
  have hkeeps : ApplyKeeps env f ctx s ↔ _ :=
    ⟨fun h => h u hu, fun h u' hu' => by
      obtain rfl : u = u' := by simpa [hu.gate] using hu'.gate
      exact h⟩
  rw [hkeeps, applyUpdate_verified hu, applyVerified]
  have hstagedIff : (s.layout.stageVersion f.payload u.version ctx.artifactBytes).1 = true ↔
      Staged f.payload s.layout u.version := by
    rw [InstallLayout.stageVersion_fst]
    exact and_iff_right hu.version_ne_empty
  cases hstaged : (s.layout.stageVersion f.payload u.version ctx.artifactBytes).1 with
  | false =>
    have hnot : ¬ Staged f.payload s.layout u.version := by simp [← hstagedIff, hstaged]
    simp only [hstaged, Bool.not_false, if_true]
    rw [untouched_stageVersion_iff hu.version_ne_empty hstaged]
    exact ⟨fun h => ⟨fun _ => h rfl, fun h' => absurd h' hnot⟩, fun h _ => h.1 hnot⟩
  | true =>
    have hst := hstagedIff.mp hstaged
    have hfiles := InstallLayout.stageVersion_sameFiles f.payload u.version ctx.artifactBytes
      s.layout
    have hpay := InstallLayout.stageVersion_payload hstaged
    obtain ⟨layout, hlayout⟩ : ∃ layout,
        (s.layout.stageVersion f.payload u.version ctx.artifactBytes).2 = layout := ⟨_, rfl⟩
    rw [hlayout] at hfiles hpay
    have hcurrent : layout.readCurrentVersion = s.layout.readCurrentVersion := by
      rw [InstallLayout.readCurrentVersion, hfiles.current, InstallLayout.readCurrentVersion]
    obtain ⟨hfails, huntouched⟩ := untouched_atomicSwitchTo_iff (f := f.switch)
      hu.version_ne_empty hfiles hpay
    simp only [hstaged, hlayout, hcurrent, Bool.not_true, Bool.false_eq_true, if_false]
    cases hswitch : (layout.atomicSwitchTo f.switch s.layout.readCurrentVersion u.version).1 with
    | false =>
      simp only [Bool.not_false, if_true]
      rw [huntouched]
      exact ⟨fun h => ⟨fun h' => absurd hst h', fun _ _ => h rfl⟩,
        fun h _ => h.2 hst (hfails.mp hswitch)⟩
    | true =>
      have hnot := mt hfails.mpr (by simp [hswitch])
      simp only [Bool.not_true, Bool.false_eq_true, if_false]
      refine ⟨fun _ => ⟨fun h' => absurd hst h', fun _ h' => absurd h' hnot⟩, fun _ h => ?_⟩
      rw [(finishApply_fst ..).1] at h
      exact absurd h (by decide)

/-! ### Rollback -/

/-- When a failed rollback is atomic: if a marker write fails, neither marker may have changed. -/
def RollbackKeeps (env : Env) (f : RollbackFaults) (s : Host) : Prop :=
  ∀ target, s.layout.readCurrentVersion ≠ "" → rollbackTarget env s.layout = .ok target →
    s.layout.hasVersionPayload target = true → f.switch.Fails s.layout.readCurrentVersion →
    f.switch.Leaves s.layout s.layout.readCurrentVersion target

theorem rollback_atomic_iff (env : Env) (f : RollbackFaults) (now : TimePoint) (s : Host) :
    ((rollback env f now s).1.outcome.moves = false → Untouched s (rollback env f now s).2) ↔
      RollbackKeeps env f s := by
  unfold rollback RollbackKeeps
  by_cases hcur : s.layout.readCurrentVersion = ""
  · rw [if_pos hcur]
    exact ⟨fun _ _ h => absurd hcur h, fun _ _ => .refl s⟩
  rw [if_neg hcur]
  cases htarget : rollbackTarget env s.layout with
  | error detail => exact ⟨fun _ _ _ h => by simp at h, fun _ _ => .refl s⟩
  | ok target =>
    unfold rollbackTo
    cases hpay : s.layout.hasVersionPayload target with
    | false =>
      simp only [hpay, Bool.not_false, if_true]
      refine ⟨fun _ target' _ h h' => ?_, fun _ _ => .refl s⟩
      obtain rfl := Except.ok.inj h
      simp [hpay] at h'
    | true =>
      obtain ⟨hfails, hleaves⟩ := InstallLayout.atomicSwitchTo_spec f.switch
        s.layout.readCurrentVersion (rollbackTarget_ne_empty htarget) hpay
      obtain ⟨hvers, hlog, _⟩ := InstallLayout.atomicSwitchTo_frame f.switch
        s.layout.readCurrentVersion target s.layout
      simp only [hpay, Bool.not_true, Bool.false_eq_true, if_false]
      cases hswitch : (s.layout.atomicSwitchTo f.switch s.layout.readCurrentVersion target).1 with
      | false =>
        -- no payload changes: `untouched_iff` at a version that keeps its payload
        have hpay' : ∀ v, (s.layout.atomicSwitchTo f.switch s.layout.readCurrentVersion
            target).2.payload v = if v = target then s.layout.payload target
              else s.layout.payload v := by
          intro v
          rw [InstallLayout.payload, hvers]
          split_ifs with hv
          · rw [hv]
            rfl
          · rfl
        simp only [Bool.not_false, if_true]
        rw [untouched_iff hlog hpay', hleaves]
        constructor
        · rintro h target' _ htarget' _ _
          obtain rfl := Except.ok.inj htarget'
          exact (h rfl).1
        · exact fun h _ => ⟨h target hcur rfl hpay (hfails.mp hswitch), fun _ => rfl⟩
      | true =>
        have hf : ¬ f.switch.Fails s.layout.readCurrentVersion := by
          rw [← hfails, hswitch]
          decide
        simp only [Bool.not_true, Bool.false_eq_true, if_false]
        refine ⟨fun _ _ _ _ _ h => absurd h hf, fun _ h => ?_⟩
        rw [finishRollback_moves] at h
        exact absurd h (by decide)

/-- **Exactly when failed updates are atomic.** -/
theorem failed_updates_atomic_iff (env : Env) (s : Host) :
    (∀ f ctx, ((applyUpdate env f ctx s).1.outcome.installs = false →
      Untouched s (applyUpdate env f ctx s).2) ↔ ApplyKeeps env f ctx s) ∧
    (∀ f now, ((rollback env f now s).1.outcome.moves = false →
      Untouched s (rollback env f now s).2) ↔ RollbackKeeps env f s) :=
  ⟨fun f ctx => applyUpdate_atomic_iff env f ctx s, fun f now => rollback_atomic_iff env f now s⟩

/-- 1.0.0 is installed, 2.0.0 is applied, and the temporary of current.txt cannot be opened: the
call reports `SwitchFailed`, and previous.txt was rewritten. -/
theorem switchFailed_rewrites_previous :
    let s : Host :=
      { layout := { current := some ['1', '.', '0', '.', '0', '\n']
                    versions := (∅ : Dict String (Option (List UInt8))).insert "1.0.0" (some [1]) } }
    let r := applyUpdate sampleEnv { switch := { current := { openTmp := true } } }
      (sampleContext "2.0.0" "1.0.0" [2]) s
    r.1.outcome = .switchFailed ∧ s.layout.previous = none ∧
      r.2.layout.previous = some ['1', '.', '0', '.', '0', '\n'] := by
  decide

end Souxmar.Updater
