import Souxmar.Updater.LayoutInvariant

/-!
# The two rollback targets

A rollback reads its target from previous.txt, and from the log when that is empty. The marker is
overwritten by every switch, so after a rollback it names the version just left; the log answers with
the version that the last apply of the current one replaced. `rollback_targets_agree_iff` says when the
two answers are the same in every state of a session: when no rollback moves to another version.
-/

namespace Souxmar.Updater

open Souxmar.Lib

/-! ### What a session leaves behind -/

/-- The target that the log names, when it can be read. -/
def logTarget (env : Env) (l : InstallLayout) : Option String :=
  match loadRollbackLog env.parse (rollbackLogPath l) l.log with
  | .ok events => some (findRollbackTarget events l.readCurrentVersion)
  | .error _ => none

/-- A rollback to another version leaves the current one behind, and an apply takes its version back. -/
def leave (env : Env) (left : List String) (p : Host × Op) : List String :=
  match p.2 with
  | .check _ _ _ _ _ => left
  | .apply _ _ _ => left.filter fun v => decide (installedBy env p ≠ some v)
  | .rollback now f _ =>
    let r := (rollback env f now p.1).1
    if r.outcome.moves = true ∧ r.fromVersion ≠ r.toVersion then r.fromVersion :: left else left

/-- The versions that an earlier rollback moved off and that were not applied again since. -/
def leftBehind (env : Env) (past : Past) : List String := past.foldl (leave env) []

@[simp] theorem leftBehind_snoc (env : Env) (past : Past) (p : Host × Op) :
    leftBehind env (past ++ [p]) = leave env (leftBehind env past) p := by
  simp [leftBehind]

/-- Both paths answer the same, and with a version that was not left behind. -/
def TargetsAgree (env : Env) (past : Past) (s : Host) : Prop :=
  s.layout.readPreviousVersion ≠ "" →
    logTarget env s.layout = some s.layout.readPreviousVersion ∧
      s.layout.readPreviousVersion ∉ leftBehind env past

/-- A rollback does not find the payload of another version through previous.txt. -/
def StaysPut (s : Host) : Op → Prop
  | .rollback _ _ _ => s.layout.readPreviousVersion = "" ∨
    s.layout.readPreviousVersion = s.layout.readCurrentVersion ∨
      s.layout.hasVersionPayload s.layout.readPreviousVersion = false
  | _ => True

/-- A call whose files are all written; what the garbage collection removes is left open. -/
def Op.Logged : Op → Prop
  | .check _ _ _ _ saved => saved = true
  | .apply ctx f saved =>
    f.Persists ∧ f.log = {} ∧ saved = true ∧ PlainText ctx.manifest.signing.publicKeyId
  | .rollback _ f saved => f = {} ∧ saved = true

/-! ### What the calls write -/

theorem InstallLayout.atomicSwitchTo_log (f : SwitchFaults) (fromVersion toVersion : String)
    (l : InstallLayout) : (l.atomicSwitchTo f fromVersion toVersion).2.log = l.log ∧
      (l.atomicSwitchTo f fromVersion toVersion).2.root = l.root := by
  unfold atomicSwitchTo
  dsimp only
  split_ifs <;> exact ⟨rfl, rfl⟩

section

variable {env : Env} {s : Host} {f : ApplyFaults} {ctx : ApplyContext} {u : UpdateApply}

theorem applyUpdate_log (hlog : f.log = {}) (hu : Verified env ctx s.state u)
    (h : (applyUpdate env f ctx s).1.outcome.installs = true) :
    (applyUpdate env f ctx s).2.layout.log = (appendRollbackEvent env.parse {}
      (rollbackLogPath s.layout) s.layout.log (applyEvent ctx u s.layout.readCurrentVersion)).2 ∧
      (applyUpdate env f ctx s).2.layout.root = s.layout.root := by
  have hfiles := InstallLayout.stageVersion_sameFiles f.payload u.version ctx.artifactBytes s.layout
  rw [applyUpdate_verified hu] at h ⊢
  unfold applyVerified at h ⊢
  obtain ⟨staged, hstaged⟩ :
      ∃ r, s.layout.stageVersion f.payload u.version ctx.artifactBytes = r := ⟨_, rfl⟩
  rw [hstaged] at h hfiles ⊢
  obtain ⟨switched, hswitched⟩ :
      ∃ r, staged.2.atomicSwitchTo f.switch staged.2.readCurrentVersion u.version = r := ⟨_, rfl⟩
  have hmarkers := InstallLayout.atomicSwitchTo_log f.switch staged.2.readCurrentVersion u.version
    staged.2
  have hcurrent : staged.2.readCurrentVersion = s.layout.readCurrentVersion := by
    rw [InstallLayout.readCurrentVersion, hfiles.current, InstallLayout.readCurrentVersion]
  rw [hcurrent] at hswitched hmarkers
  rw [hswitched] at hmarkers
  dsimp only at h ⊢
  rw [hcurrent, hswitched] at h ⊢
  split_ifs at h ⊢
  · cases h
  · cases h
  · have hlogged : switched.2.log = s.layout.log := hmarkers.1.trans hfiles.log
    have hroot : switched.2.root = s.layout.root := hmarkers.2.trans hfiles.root
    have hgc := InstallLayout.gcUnreferenced_sameFiles f.gc []
      { switched.2 with log := (appendRollbackEvent env.parse f.log (rollbackLogPath switched.2)
          switched.2.log (applyEvent ctx u s.layout.readCurrentVersion)).2 }
    refine ⟨hgc.log.trans ?_, hgc.root.trans hroot⟩
    show (appendRollbackEvent env.parse f.log (rollbackLogPath switched.2) switched.2.log _).2 = _
    rw [hlog, hlogged, rollbackLogPath, hroot, rollbackLogPath]

end

theorem rollback_log {env : Env} {s : Host} (now : TimePoint)
    (hprevious : s.layout.readPreviousVersion ≠ "")
    (h : (rollback env {} now s).1.outcome.moves = true) :
    (rollback env {} now s).1.toVersion = s.layout.readPreviousVersion ∧
      (rollback env {} now s).2.layout.log = (appendRollbackEvent env.parse {}
        (rollbackLogPath s.layout) s.layout.log
        (rollbackEvent now s.layout.readCurrentVersion s.layout.readPreviousVersion)).2 := by
  have htarget : rollbackTarget env s.layout = .ok s.layout.readPreviousVersion := by
    rw [rollbackTarget, if_pos hprevious]
  unfold rollback at h ⊢
  rw [htarget] at h ⊢
  split_ifs at h ⊢
  · cases h
  · unfold rollbackTo at h ⊢
    obtain ⟨switched, hswitched⟩ : ∃ r, s.layout.atomicSwitchTo ({} : RollbackFaults).switch
        s.layout.readCurrentVersion s.layout.readPreviousVersion = r := ⟨_, rfl⟩
    have hmarkers := InstallLayout.atomicSwitchTo_log ({} : RollbackFaults).switch
      s.layout.readCurrentVersion s.layout.readPreviousVersion s.layout
    dsimp only at h ⊢
    rw [hswitched] at h hmarkers ⊢
    split_ifs at h ⊢
    · cases h
    · cases h
    · refine ⟨rfl, ?_⟩
      show (appendRollbackEvent env.parse {} (rollbackLogPath switched.2) switched.2.log _).2 = _
      rw [hmarkers.1, rollbackLogPath, hmarkers.2, rollbackLogPath]
      rfl

theorem rollback_moves (env : Env) {s : Host} (now : TimePoint)
    (hcurrent : s.layout.readCurrentVersion ≠ "") (hne : s.layout.readPreviousVersion ≠ "")
    (hpay : s.layout.hasVersionPayload s.layout.readPreviousVersion = true) :
    (rollback env {} now s).1.outcome.moves = true := by
  have htarget : rollbackTarget env s.layout = .ok s.layout.readPreviousVersion := by
    rw [rollbackTarget, if_pos hne]
  have hswitch := InstallLayout.atomicSwitchTo_ok s.layout.readCurrentVersion hne hpay
  simp only [rollback, if_neg hcurrent, htarget, rollbackTo, hpay, hswitch, Bool.not_true,
    Bool.false_eq_true, if_false]
  exact finishRollback_moves ..

theorem findRollbackTarget_rollback {e : RollbackEvent} (h : e.type = .rollback)
    (events : List RollbackEvent) (v : String) :
    findRollbackTarget (events ++ [e]) v = findRollbackTarget events v := by
  simp [findRollbackTarget, h]

theorem findRollbackTarget_apply {e : RollbackEvent} (htype : e.type = .apply)
    (hto : e.toVersion ≠ "") (hfrom : e.fromVersion ≠ "") (events : List RollbackEvent) :
    findRollbackTarget (events ++ [e]) e.toVersion = e.fromVersion := by
  simp [findRollbackTarget, htype, hto, hfrom]

theorem rollbackEvent_plain {now : TimePoint} {current target : String} (hcurrent : PlainText current)
    (htarget : PlainText target) : (rollbackEvent now current target).Plain where
  timestamp := plainText_formatRfc3339Utc _
  fromVersion := hcurrent
  toVersion := htarget
  artifactSha256 := plainText_empty
  publicKeyId := plainText_empty

theorem Marks.plain {file : Option FileText} {version : String} (h : Marks file version) :
    PlainText version := by
  obtain ⟨x, hx⟩ := h.version
  exact plainText_of_versionOf hx

theorem Marks.read_plain {file : Option FileText} {version : String} (h : Marks file version) :
    PlainText (readOneLine file) := by
  rw [h.read]
  exact h.plain

/-! ### The invariant -/

/-- Where the markers stand, and what the log says about the version in one of them. -/
inductive Trail (env : Env) (past : Past) (s : Host) : Prop
  | fresh (current : s.layout.current = none) (previous : s.layout.previous = none)
    (log : s.layout.log = logText [])
  | first (c : String) (e : RollbackEvent) (current : Marks s.layout.current c)
    (previous : s.layout.previous = none) (log : s.layout.log = logText [e]) (plain : e.Plain)
    (fromVersion : e.fromVersion = "")
  | both (new old : String) (events : List RollbackEvent) (log : s.layout.log = logText events)
    (plain : ∀ e ∈ events, e.Plain) (target : findRollbackTarget events new = old)
    (marks : Marks s.layout.current new ∧ Marks s.layout.previous old ∨
      Marks s.layout.current old ∧ Marks s.layout.previous new ∧
        (new ≠ old → new ∈ leftBehind env past))

section

variable {env : Env} {past : Past} {s s' : Host} {op : Op}

theorem leave_quiet (hinstalled : installedBy env (s, op) = none)
    (hmoved : movedOffBy env (s, op) = none) (left : List String) :
    leave env left (s, op) = left := by
  cases op with
  | check m currentVersion host clock saved => rfl
  | apply ctx f saved => simp [leave, hinstalled]
  | rollback now f saved =>
    unfold leave
    refine if_neg fun h => ?_
    simp [movedOffBy, h.1] at hmoved

theorem Trail.quiet (h : Trail env past s) (hinstalled : installedBy env (s, op) = none)
    (hmoved : movedOffBy env (s, op) = none) (hfiles : s.layout.SameFiles s'.layout) :
    Trail env (past ++ [(s, op)]) s' := by
  have hleft : leftBehind env (past ++ [(s, op)]) = leftBehind env past := by
    rw [leftBehind_snoc, leave_quiet hinstalled hmoved]
  cases h with
  | fresh current previous log =>
    exact .fresh (hfiles.current.trans current) (hfiles.previous.trans previous)
      (hfiles.log.trans log)
  | first c e current previous log plain fromVersion =>
    exact .first c e (hfiles.current ▸ current) (hfiles.previous.trans previous)
      (hfiles.log.trans log) plain fromVersion
  | both new old events log plain target marks =>
    refine .both new old events (hfiles.log.trans log) plain target ?_
    rw [hfiles.current, hfiles.previous, hleft]
    exact marks

theorem Trail.log_reads (h : Trail env past s) : ∃ events, s.layout.log = logText events ∧
    ∀ e ∈ events, e.Plain := by
  cases h with
  | fresh current previous log => exact ⟨[], log, fun _ he => nomatch he⟩
  | first c e current previous log plain fromVersion =>
    exact ⟨[e], log, fun e' he' => List.mem_singleton.mp he' ▸ plain⟩
  | both new old events log plain target marks => exact ⟨events, log, plain⟩

theorem Trail.current_cases (h : Trail env past s) :
    (s.layout.current = none ∧ s.layout.previous = none ∧ s.layout.log = logText []) ∨
      ∃ c, Marks s.layout.current c := by
  cases h with
  | fresh current previous log => exact .inl ⟨current, previous, log⟩
  | first c e current previous log plain fromVersion => exact .inr ⟨c, current⟩
  | both new old events log plain target marks =>
    rcases marks with ⟨current, -⟩ | ⟨current, -⟩
    · exact .inr ⟨new, current⟩
    · exact .inr ⟨old, current⟩

end

theorem readPreviousVersion_none {l : InstallLayout} (h : l.previous = none) :
    l.readPreviousVersion = "" := by
  rw [InstallLayout.readPreviousVersion, h]
  decide

theorem Trail.moves_previous {env : Env} {past : Past} {s : Host} {f : RollbackFaults} {now : TimePoint}
    (hreads : ReadsLogs env.parse) (h : Trail env past s)
    (hout : (rollback env f now s).1.outcome.moves = true) : s.layout.readPreviousVersion ≠ "" := by
  cases h with
  | fresh current previous log =>
    have hread : s.layout.readCurrentVersion = "" := by
      rw [InstallLayout.readCurrentVersion, current]
      decide
    rw [rollback, if_pos hread] at hout
    cases hout
  | first c e current previous log plain fromVersion =>
    obtain ⟨detail, hnone⟩ := rollbackTarget_first hreads previous log plain fromVersion
    unfold rollback at hout
    rw [hnone] at hout
    split_ifs at hout <;> cases hout
  | both new old events log plain target marks =>
    rcases marks with ⟨-, hp⟩ | ⟨-, hp, -⟩
    · exact hp.read.trans_ne hp.ne_empty
    · exact hp.read.trans_ne hp.ne_empty

theorem Trail.current_ne_empty {env : Env} {past : Past} {s : Host} (h : Trail env past s)
    (hne : s.layout.readPreviousVersion ≠ "") : s.layout.readCurrentVersion ≠ "" := by
  rcases h.current_cases with ⟨-, hprevious, -⟩ | ⟨c, hc⟩
  · exact absurd (readPreviousVersion_none hprevious) hne
  · exact hc.read.trans_ne hc.ne_empty

theorem Trail.refused {env : Env} {past : Past} {s : Host} {now : TimePoint} {saved : Bool}
    (h : Trail env past s) (hout : (rollback env {} now s).1.outcome.moves = false) :
    StaysPut s (.rollback now {} saved) := by
  by_cases hne : s.layout.readPreviousVersion = ""
  · exact .inl hne
  · refine .inr (.inr (Bool.eq_false_of_not_eq_true fun hpay => ?_))
    have hmoves := rollback_moves env now (h.current_ne_empty hne) hne hpay
    rw [hout] at hmoves
    cases hmoves

/-- A call that installs a version. -/
theorem Trail.install {env : Env} {past : Past} {s : Host} {ctx : ApplyContext} {f : ApplyFaults}
    {u : UpdateApply} (hreads : ReadsLogs env.parse) (hhex : ∀ bytes, PlainText (env.sha256Hex bytes))
    (h : Trail env past s) (hlog : f.log = {})
    (hkey : PlainText ctx.manifest.signing.publicKeyId) (hu : Verified env ctx s.state u)
    (hout : (applyUpdate env f ctx s).1.outcome.installs = true)
    (hcurrent : (applyUpdate env f ctx s).2.layout.current = markerText u.version)
    (hprevious : (applyUpdate env f ctx s).2.layout.previous =
      if s.layout.readCurrentVersion ≠ "" then markerText s.layout.readCurrentVersion
      else s.layout.previous) :
    Trail env (past ++ [(s, .apply ctx f true)]) (applyUpdate env f ctx s).2 := by
  have hwritten := (applyUpdate_log hlog hu hout).1
  have hmarks : Marks (applyUpdate env f ctx s).2.layout.current u.version :=
    ⟨hcurrent, hu.accepts.floor.1⟩
  obtain ⟨events, hevents, hplain⟩ := h.log_reads
  rw [hevents, append_logText hreads _ hplain] at hwritten
  rcases h.current_cases with ⟨hnone, hprev, hempty⟩ | ⟨c, hc⟩
  · have hread : s.layout.readCurrentVersion = "" := by
      rw [InstallLayout.readCurrentVersion, hnone]
      decide
    have hnil : events = [] := by
      by_contra hne
      rw [hempty, logText, logText, if_pos rfl, if_neg hne] at hevents
      cases hevents
    subst hnil
    rw [hread] at hwritten hprevious
    refine .first u.version _ hmarks ?_ hwritten (applyEvent_plain hu hhex hkey plainText_empty) rfl
    rw [hprevious, if_neg (by decide), hprev]
  · have hread : s.layout.readCurrentVersion = c := hc.read
    rw [hread] at hwritten hprevious
    rw [if_pos hc.ne_empty] at hprevious
    refine .both u.version c _ hwritten ?_ ?_ (.inl ⟨hmarks, hprevious, hc.version⟩)
    · intro e he
      rcases List.mem_append.mp he with he | he
      · exact hplain e he
      · exact List.mem_singleton.mp he ▸ applyEvent_plain hu hhex hkey hc.plain
    · exact findRollbackTarget_apply (e := applyEvent ctx u c) rfl hu.version_ne_empty hc.ne_empty
        events

theorem Trail.swap {env : Env} {past : Past} {s : Host} {now : TimePoint} {new old : String}
    {events : List RollbackEvent} (hreads : ReadsLogs env.parse) (log : s.layout.log = logText events)
    (plain : ∀ e ∈ events, e.Plain) (target : findRollbackTarget events new = old)
    (marks : Marks s.layout.current new ∧ Marks s.layout.previous old ∨
      Marks s.layout.current old ∧ Marks s.layout.previous new ∧
        (new ≠ old → new ∈ leftBehind env past))
    (hout : (rollback env {} now s).1.outcome.moves = true)
    (hfrom : (rollback env {} now s).1.fromVersion = s.layout.readCurrentVersion)
    (hcurrent : (rollback env {} now s).2.layout.current =
      markerText (rollback env {} now s).1.toVersion)
    (hprevious : (rollback env {} now s).2.layout.previous =
      markerText s.layout.readCurrentVersion) :
    Trail env (past ++ [(s, .rollback now {} true)]) (rollback env {} now s).2 := by
  have hplain : PlainText new ∧ PlainText old := by
    rcases marks with ⟨hc, hp⟩ | ⟨hc, hp, -⟩
    · exact ⟨hc.plain, hp.plain⟩
    · exact ⟨hp.plain, hc.plain⟩
  have hprev : s.layout.readPreviousVersion ≠ "" := by
    rcases marks with ⟨hc, hp⟩ | ⟨hc, hp, -⟩
    · exact hp.read.trans_ne hp.ne_empty
    · exact hp.read.trans_ne hp.ne_empty
  obtain ⟨hto, hwritten⟩ := rollback_log now hprev hout
  rw [log, append_logText hreads _ plain] at hwritten
  rw [hto] at hcurrent
  refine .both new old _ hwritten ?_ ?_ ?_
  · intro e he
    rcases List.mem_append.mp he with he | he
    · exact plain e he
    · rw [List.mem_singleton.mp he]
      rcases marks with ⟨hc, hp⟩ | ⟨hc, hp, -⟩
      · exact rollbackEvent_plain hc.read_plain hp.read_plain
      · exact rollbackEvent_plain hc.read_plain hp.read_plain
  · exact (findRollbackTarget_rollback rfl events new).trans target
  · rcases marks with ⟨hc, hp⟩ | ⟨hc, hp, -⟩
    · have hcread : s.layout.readCurrentVersion = new := hc.read
      have hpread : s.layout.readPreviousVersion = old := hp.read
      rw [hpread] at hcurrent hto
      rw [hcread] at hprevious hfrom
      refine .inr ⟨⟨hcurrent, hp.version⟩, ⟨hprevious, hc.version⟩, fun hne => ?_⟩
      rw [leftBehind_snoc]
      unfold leave
      simp [hout, hfrom, hto, hne]
    · have hcread : s.layout.readCurrentVersion = old := hc.read
      have hpread : s.layout.readPreviousVersion = new := hp.read
      rw [hpread] at hcurrent
      rw [hcread] at hprevious
      exact .inl ⟨⟨hcurrent, hp.version⟩, ⟨hprevious, hc.version⟩⟩

theorem trail_step {env : Env} (hreads : ReadsLogs env.parse)
    (hhex : ∀ bytes, PlainText (env.sha256Hex bytes)) {past : Past} {s : Host} {op : Op}
    (h : Trail env past s) (hop : op.Logged) : Trail env (past ++ [(s, op)]) (step env s op) := by
  cases op with
  | check m currentVersion host clock saved => exact h.quiet rfl rfl (.refl _)
  | apply ctx f saved =>
    obtain ⟨hf, hlog, rfl, hkey⟩ := hop
    rw [step_apply_saved]
    rcases applyUpdate_effect env hf ctx s with ⟨hout, -, hfiles, -⟩ |
      ⟨u, hu, hout, hversion, -, hcurrent, hprevious, -⟩
    · exact h.quiet (by simp [installedBy, hout]) rfl hfiles
    · exact h.install hreads hhex hlog hkey hu hout hcurrent hprevious
  | rollback now f saved =>
    obtain ⟨rfl, rfl⟩ := hop
    rw [step_rollback_saved]
    rcases rollback_effect env (f := {}) rfl now s with ⟨hout, hsame⟩ |
      ⟨target, hout, -, hfrom, hto, -, hcurrent, hprevious, -⟩
    · rw [hsame]
      exact h.quiet rfl (by simp [movedOffBy, hout]) (.refl _)
    · have hne := h.moves_previous hreads hout
      cases h with
      | fresh current previous log => exact absurd (readPreviousVersion_none previous) hne
      | first c e current previous log plain fromVersion =>
        exact absurd (readPreviousVersion_none previous) hne
      | both new old events log plain target' marks =>
        exact .swap hreads log plain target' marks hout hfrom (hto ▸ hcurrent) hprevious

theorem staysPut_of_agree {env : Env} (hreads : ReadsLogs env.parse) {past : Past} {s : Host} {op : Op}
    (h : Trail env past s) (hop : op.Logged)
    (hagree : TargetsAgree env (past ++ [(s, op)]) (step env s op)) : StaysPut s op := by
  cases op with
  | check m currentVersion host clock saved => trivial
  | apply ctx f saved => trivial
  | rollback now f saved =>
    obtain ⟨rfl, rfl⟩ := hop
    rw [step_rollback_saved] at hagree
    rcases rollback_effect env (f := {}) rfl now s with ⟨hout, -⟩ |
      ⟨target, hout, -, hfrom, hto, -, -, hprevious, -⟩
    · exact h.refused hout
    · by_cases hsame : s.layout.readPreviousVersion = s.layout.readCurrentVersion
      · exact .inr (.inl hsame)
      have htarget := (rollback_log now (h.moves_previous hreads hout) hout).1
      have hread : (rollback env {} now s).2.layout.readPreviousVersion =
          s.layout.readCurrentVersion := by
        rw [InstallLayout.readPreviousVersion, hprevious]
        exact readOneLine_marker (stripped_readOneLine _)
      have hleft : s.layout.readCurrentVersion ∈
          leftBehind env (past ++ [(s, .rollback now {} true)]) := by
        have hother : (rollback env {} now s).1.fromVersion ≠ (rollback env {} now s).1.toVersion := by
          rw [hfrom, htarget]
          exact Ne.symm hsame
        rw [leftBehind_snoc]
        unfold leave
        dsimp only
        rw [if_pos ⟨hout, hother⟩, hfrom]
        exact List.mem_cons_self
      rw [TargetsAgree, hread] at hagree
      exact absurd hleft (hagree (h.current_ne_empty (h.moves_previous hreads hout))).2

theorem leave_staysPut {env : Env} (hreads : ReadsLogs env.parse) {past : Past} {s : Host} {op : Op}
    (h : Trail env past s) (hop : op.Logged) (hstays : StaysPut s op) : leave env [] (s, op) = [] := by
  cases op with
  | check m currentVersion host clock saved => rfl
  | apply ctx f saved => rfl
  | rollback now f saved =>
    obtain ⟨rfl, rfl⟩ := hop
    unfold leave
    refine if_neg fun ⟨hout, hother⟩ => ?_
    have hne := h.moves_previous hreads hout
    have htarget := (rollback_log now hne hout).1
    rcases rollback_effect env (f := {}) rfl now s with ⟨hrefused, -⟩ |
      ⟨target, -, hpay, hfrom, hto, -, -, -, -⟩
    · rw [hrefused] at hout
      cases hout
    · rw [hfrom, htarget] at hother
      rcases hstays with hempty | hsame | hmissing
      · exact hne hempty
      · exact hother hsame.symm
      · rw [← hto, htarget, hmissing] at hpay
        cases hpay

theorem Trail.agree {env : Env} (hreads : ReadsLogs env.parse) {past : Past} {s : Host}
    (h : Trail env past s) (hleft : leftBehind env past = []) : TargetsAgree env past s := by
  intro hne
  rw [hleft]
  refine ⟨?_, List.not_mem_nil⟩
  cases h with
  | fresh current previous log => exact absurd (readPreviousVersion_none previous) hne
  | first c e current previous log plain fromVersion =>
    exact absurd (readPreviousVersion_none previous) hne
  | both new old events log plain target marks =>
    have hload : logTarget env s.layout =
        some (findRollbackTarget events s.layout.readCurrentVersion) := by
      rw [logTarget, log, load_logText hreads _ plain]
    rw [hload]
    rcases marks with ⟨hc, hp⟩ | ⟨hc, hp, hmem⟩
    · rw [InstallLayout.readPreviousVersion, hp.read, InstallLayout.readCurrentVersion, hc.read, target]
    · have hsame : new = old := by
        by_contra hother
        rw [hleft] at hmem
        exact List.not_mem_nil (hmem hother)
      rw [InstallLayout.readPreviousVersion, hp.read, InstallLayout.readCurrentVersion, hc.read, ← hsame,
        target, hsame]

/-! ### When the two targets agree -/

/-- **The two rollback targets** agree, and name no version left behind, in every state of exactly the
sessions in which no rollback moves to another version. -/
theorem rollback_targets_agree_iff {env : Env} (hreads : ReadsLogs env.parse)
    (hhex : ∀ bytes, PlainText (env.sha256Hex bytes)) (root : String) {ops : List Op}
    (hops : ∀ op ∈ ops, op.Logged) :
    Throughout (step env) (TargetsAgree env) [] { layout := { root } } ops ↔
      Along (step env) (fun _ s op => StaysPut s op) [] { layout := { root } } ops := by
  have hstart : Trail env [] { layout := { root } } := .fresh rfl rfl rfl
  have hlogged : Along (step env) (fun _ _ op => op.Logged) [] { layout := { root } } ops :=
    along_of_forall_mem [] _ hops
  constructor
  · intro hagree
    exact Along.of_invariant (P := Trail env)
      (fun past s op h hop => trail_step hreads hhex h hop.1)
      (fun past s op h hop => staysPut_of_agree hreads h hop.1 hop.2) hstart
      (hlogged.and hagree.along)
  · intro hstays
    refine Along.throughout (P := fun past s => Trail env past s ∧ leftBehind env past = [])
      (fun past s op h hop => ⟨trail_step hreads hhex h.1 hop.1, ?_⟩)
      (fun past s h => h.1.agree hreads h.2) ⟨hstart, rfl⟩ (hlogged.and hstays)
    rw [leftBehind_snoc, h.2]
    exact leave_staysPut hreads h.1 hop.1 hop.2

/-- Two installs. -/
def twoInstalls : List Op :=
  [.apply (sampleContext "1.0.0" "" [1]) {} true, .apply (sampleContext "2.0.0" "1.0.0" [2]) {} true]

/-- Two installs and one rollback. -/
def upAndBack : List Op := twoInstalls ++ [.rollback (fromTimeT 1778580000) {} true]

theorem upAndBack_logged : ∀ op ∈ upAndBack, op.Logged := by
  have hkey : PlainText "souxmar-dev-key" := by
    unfold PlainText
    decide
  simp only [upAndBack, twoInstalls, List.cons_append, List.nil_append, List.forall_mem_cons]
  exact ⟨⟨⟨rfl, rfl⟩, rfl, rfl, hkey⟩, ⟨⟨rfl, rfl⟩, rfl, rfl, hkey⟩, ⟨rfl, rfl⟩, by simp⟩

theorem rollback_targets_agree_twoInstalls :
    Throughout (step sampleEnv) (TargetsAgree sampleEnv) [] { layout := { root := "/opt/souxmar" } }
        twoInstalls ∧
      ¬Throughout (step sampleEnv) (TargetsAgree sampleEnv) []
        { layout := { root := "/opt/souxmar" } } upAndBack := by
  constructor
  · refine (rollback_targets_agree_iff tomlLines_reads sampleEnv_sha256Hex_plain "/opt/souxmar"
      fun op hop => upAndBack_logged op (List.mem_append_left _ hop)).mpr ⟨trivial, trivial, trivial⟩
  · intro h
    have hstays := (rollback_targets_agree_iff tomlLines_reads sampleEnv_sha256Hex_plain "/opt/souxmar"
      upAndBack_logged).mp h
    obtain ⟨-, -, hrollback, -⟩ := hstays
    revert hrollback
    unfold StaysPut
    decide

/-- After one rollback the markers lead forward again, to the version that it moved off; the log has no
target, and a second rollback reinstalls that version. -/
theorem second_rollback_reinstalls :
    let s := run (step sampleEnv) { layout := { root := "/opt/souxmar" } } upAndBack
    let past := trace (step sampleEnv) { layout := { root := "/opt/souxmar" } } upAndBack
    s.layout.readPreviousVersion = "2.0.0" ∧ logTarget sampleEnv s.layout = some "" ∧
      "2.0.0" ∈ leftBehind sampleEnv past ∧
      (rollback sampleEnv {} (fromTimeT 1778580000) s).1.outcome = .rolledBack ∧
      (rollback sampleEnv {} (fromTimeT 1778580000) s).1.toVersion = "2.0.0" := by
  decide

end Souxmar.Updater
