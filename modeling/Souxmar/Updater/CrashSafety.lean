import Souxmar.Updater.LayoutInvariant

/-!
# Updates that are cut short

A call of the updater is a list of file-system writes, each of which happens whole or not at all,
and ends by saving the update state. A call may be cut after any of its writes, when the process is
killed. `writes_run` ties the lists to the calls.

`updates_cut_short_iff` says which cuts leave a marker that names no payload: those that fall while
the directory of a version is replaced that a marker names. `first_cut_keeps_current` draws the
consequence for the current version: it takes a second cut to lose it, after a first one that kept
the update state from being saved.
-/

namespace Souxmar.Updater

open Souxmar.Lib

/-! ### Writes -/

/-- One write. `remove_all` takes the payload before the directory; the other writes are renames. -/
inductive FsWrite
  | emptyVersion (version : String)
  | dropVersion (version : String)
  | placeVersion (version : String) (bytes : List UInt8)
  | previousMarker (version : String)
  | currentMarker (version : String)
  | log (file : Option FileText)

namespace InstallLayout

def write (l : InstallLayout) : FsWrite → InstallLayout
  | .emptyVersion v => { l with versions := l.versions.insert v none }
  | .dropVersion v => { l with versions := l.versions.erase v }
  | .placeVersion v bytes => { l with versions := l.versions.insert v (some bytes) }
  | .previousMarker v => { l with previous := markerText v }
  | .currentMarker v => { l with current := markerText v }
  | .log log => { l with log }

/-- `fs::remove_all` on a version directory. -/
def removeWrites (version : String) : List FsWrite := [.emptyVersion version, .dropVersion version]

def stageWrites (l : InstallLayout) (version : String) (bytes : List UInt8) : List FsWrite :=
  (if version ∈ l.versions then removeWrites version else []) ++ [.placeVersion version bytes]

def switchWrites (fromVersion toVersion : String) : List FsWrite :=
  (if fromVersion ≠ "" then [.previousMarker fromVersion] else []) ++ [.currentMarker toVersion]

def gcWrites (l : InstallLayout) : List FsWrite :=
  (l.listVersions.filter fun v => !decide (l.Referenced v)).flatMap removeWrites

end InstallLayout

/-- The writes of an apply after the staging; a payload that cannot be switched to ends it. -/
def switchedWrites (env : Env) (ctx : ApplyContext) (u : UpdateApply) (l : InstallLayout) :
    List FsWrite :=
  if l.hasVersionPayload u.version then
    let current := l.readCurrentVersion
    let switch := InstallLayout.switchWrites current u.version
    let log := (appendRollbackEvent env.parse {} (rollbackLogPath l) l.log
      (applyEvent ctx u current)).2
    switch ++ .log log :: InstallLayout.gcWrites { run InstallLayout.write l switch with log }
  else []

/-- The writes of an apply whose checks passed. -/
def applyWrites (env : Env) (ctx : ApplyContext) (u : UpdateApply) (l : InstallLayout) :
    List FsWrite :=
  let stage := l.stageWrites u.version ctx.artifactBytes
  stage ++ switchedWrites env ctx u (run InstallLayout.write l stage)

def rollbackWrites (env : Env) (now : TimePoint) (l : InstallLayout) : List FsWrite :=
  if l.readCurrentVersion = "" then []
  else
    match rollbackTarget env l with
    | .error _ => []
    | .ok target =>
      if l.hasVersionPayload target then
        InstallLayout.switchWrites l.readCurrentVersion target ++
          [.log (appendRollbackEvent env.parse {} (rollbackLogPath l) l.log
            (rollbackEvent now l.readCurrentVersion target)).2]
      else []

/-! ### Calls -/

/-- A call none of whose steps fails. -/
inductive Call
  | check (m : Manifest) (currentVersion : String) (host : HostPlatform) (clock : Clock)
  | apply (ctx : ApplyContext)
  | rollback (now : TimePoint)

/-- The call as a step of a session. -/
def Call.op : Call → Op
  | .check m currentVersion host clock => .check m currentVersion host clock true
  | .apply ctx => .apply ctx {} true
  | .rollback now => .rollback now {} true

/-- What a call writes under the install root. -/
def Call.writes (env : Env) (s : Host) : Call → List FsWrite
  | .check _ _ _ _ => []
  | .apply ctx =>
    match applyGate ctx.manifest ⟨ctx.currentVersion, s.state.maxVersionEverSeen, ctx.platform⟩
        ctx.clock.atGate with
    | .refusal _ => []
    | .apply u =>
      if ctx.artifactBytes.length ≠ u.artifact.size then []
      else if env.sha256Hex ctx.artifactBytes ≠ u.artifact.sha256 then []
      else applyWrites env ctx u s.layout
  | .rollback now => rollbackWrites env now s.layout

/-- The first `cut` writes of a call; past the last one the state is saved too. -/
def cutCall (env : Env) (s : Host) (c : Call × ℕ) : Host :=
  let writes := c.1.writes env s
  if c.2 ≤ writes.length then
    { s with layout := run InstallLayout.write s.layout (writes.take c.2) }
  else step env s c.1.op

/-- The call did not get as far as its state. -/
def CutShort (env : Env) (p : Host × (Call × ℕ)) : Prop :=
  p.2.2 ≤ (p.2.1.writes env p.1).length

instance (env : Env) (p : Host × (Call × ℕ)) : Decidable (CutShort env p) :=
  inferInstanceAs (Decidable (_ ≤ _))

theorem cutCall_state {env : Env} {s : Host} {c : Call × ℕ} (h : CutShort env (s, c)) :
    (cutCall env s c).state = s.state := by
  unfold cutCall
  dsimp only
  rw [if_pos (show c.2 ≤ (c.1.writes env s).length from h)]

theorem writes_verified {env : Env} {ctx : ApplyContext} {s : Host} {u : UpdateApply}
    (hu : Verified env ctx s.state u) :
    (Call.apply ctx).writes env s = applyWrites env ctx u s.layout := by
  simp [Call.writes, hu.gate, hu.size, hu.sha256]

theorem writes_unverified {env : Env} {ctx : ApplyContext} {s : Host}
    (h : ¬ ∃ u, Verified env ctx s.state u) : (Call.apply ctx).writes env s = [] := by
  unfold Call.writes
  dsimp only
  split
  · rfl
  · rename_i u hgate
    split_ifs with hsize hsha
    · rfl
    · rfl
    · exact absurd ⟨u, hgate, not_not.mp hsize, not_not.mp hsha⟩ h

/-! ### The writes of a whole call -/

namespace InstallLayout

variable {l : InstallLayout}

theorem erase_insert_none (versions : Dict String (Option (List UInt8))) (v : String) :
    (versions.insert v none).erase v = versions.erase v := by
  apply AList.ext
  show List.kerase v (versions.insert v none).entries = List.kerase v versions.entries
  rw [AList.entries_insert]
  exact List.kerase_cons_eq rfl

theorem run_removeWrites (l : InstallLayout) (v : String) :
    run write l (removeWrites v) = { l with versions := l.versions.erase v } := by
  simp only [removeWrites, run_cons, run_nil, write, erase_insert_none]

theorem erase_of_notMem {versions : Dict String (Option (List UInt8))} {v : String}
    (hv : v ∉ versions) : versions.erase v = versions := by
  apply AList.ext
  show List.kerase v versions.entries = versions.entries
  exact List.kerase_of_notMem_keys hv

theorem removeAll_done (v : String) (versions : Dict String (Option (List UInt8))) :
    removeAll .done v versions = (true, versions.erase v) := by
  unfold removeAll
  split_ifs with hmem
  · rfl
  · rw [erase_of_notMem hmem]

theorem run_stageWrites {v : String} (hv : v ≠ "") (bytes : List UInt8) (l : InstallLayout) :
    run write l (l.stageWrites v bytes) = (l.stageVersion {} v bytes).2 := by
  have hstaged : (l.stageVersion {} v bytes).2 =
      { l with versions := (l.versions.erase v).insert v (some bytes) } := by
    simp only [stageVersion, if_neg hv, writePayloadAtomic, removeAll_done, Bool.false_eq_true,
      if_false, Bool.not_true, PayloadFaults.written_ok]
  rw [hstaged, stageWrites, run_append]
  split_ifs with hmem
  · rw [run_removeWrites]
    rfl
  · rw [erase_of_notMem hmem]
    rfl

theorem run_switchWrites (fromVersion : String) {toVersion : String} (hto : toVersion ≠ "")
    (hpay : l.hasVersionPayload toVersion = true) :
    l.atomicSwitchTo {} fromVersion toVersion =
      (true, run write l (switchWrites fromVersion toVersion)) := by
  rw [atomicSwitchTo_ok fromVersion hto hpay, switchWrites, run_append]
  split_ifs <;> rfl

theorem run_gcLoop (vs : List String) (l : InstallLayout) :
    (gcLoop (fun _ => .done) [] l.readCurrentVersion l.readPreviousVersion vs l).2 =
      run write l ((vs.filter fun v => !decide (l.Referenced v)).flatMap removeWrites) := by
  induction vs generalizing l with
  | nil => rfl
  | cons v vs ih =>
    by_cases href : l.Referenced v
    · rw [List.filter_cons_of_neg (by simpa using href), ← ih, gcLoop]
      split_ifs with hmarked hprotect
      · rfl
      · rfl
      · dsimp only
        rw [removeVersion_referenced .done href]
    · have hrest := ih { l with versions := l.versions.erase v }
      have hremoved : (l.removeVersion .done v).2 = { l with versions := l.versions.erase v } := by
        unfold Referenced at href
        push Not at href
        simp only [removeVersion, if_neg href.1, if_neg href.2.1, if_neg href.2.2, removeAll_done]
      rw [List.filter_cons_of_pos (by simpa using href), List.flatMap_cons, run_append,
        run_removeWrites]
      refine Eq.trans ?_ hrest
      unfold Referenced at href
      push Not at href
      rw [gcLoop, if_neg (by simpa using href.2), if_neg List.not_mem_nil]
      dsimp only
      rw [hremoved]
      rfl

theorem run_gcWrites (l : InstallLayout) :
    run write l l.gcWrites = (l.gcUnreferenced (fun _ => .done) []).2 :=
  (run_gcLoop _ l).symm

end InstallLayout

open InstallLayout in
theorem run_applyWrites {env : Env} {ctx : ApplyContext} {s : Host} {u : UpdateApply}
    (hu : Verified env ctx s.state u) :
    run write s.layout (applyWrites env ctx u s.layout) =
      (applyVerified env {} ctx u s).2.layout := by
  have hne := hu.version_ne_empty
  have hok : (s.layout.stageVersion {} u.version ctx.artifactBytes).1 = true :=
    (stageVersion_fst _ _ _ _).mpr ⟨hne, rfl, fun _ => rfl, rfl⟩
  unfold applyWrites
  dsimp only
  rw [run_append, run_stageWrites hne ctx.artifactBytes s.layout]
  obtain ⟨staged, hstaged⟩ :
      ∃ l, (s.layout.stageVersion {} u.version ctx.artifactBytes).2 = l := ⟨_, rfl⟩
  simp only [applyVerified, hok, hstaged, Bool.not_true, Bool.false_eq_true, if_false]
  unfold switchedWrites
  by_cases hpay : staged.hasVersionPayload u.version = true
  · have hswitch := run_switchWrites staged.readCurrentVersion hne hpay
    have hframe := atomicSwitchTo_frame {} staged.readCurrentVersion u.version staged
    rw [hswitch] at hframe
    obtain ⟨-, hlog, hroot⟩ := hframe
    have hpath : rollbackLogPath (run write staged (switchWrites staged.readCurrentVersion
        u.version)) = rollbackLogPath staged := by
      rw [rollbackLogPath, hroot, rollbackLogPath]
    rw [if_pos hpay, hswitch]
    dsimp only
    rw [run_append, run_cons]
    simp only [Bool.not_true, Bool.false_eq_true, if_false]
    refine (run_gcWrites _).trans ?_
    rw [← hpath, ← hlog]
    rfl
  · rw [if_neg hpay, atomicSwitchTo_refused {} staged.readCurrentVersion
      (Or.inr (by simpa using hpay))]
    rfl

open InstallLayout in
theorem run_rollbackWrites (env : Env) (now : TimePoint) (s : Host) :
    run write s.layout (rollbackWrites env now s.layout) = (rollback env {} now s).2.layout := by
  unfold rollbackWrites rollback
  split_ifs with hcurrent
  · rfl
  · cases htarget : rollbackTarget env s.layout with
    | error detail => rfl
    | ok target =>
      dsimp only
      unfold rollbackTo
      by_cases hpay : s.layout.hasVersionPayload target = true
      · have hne := rollbackTarget_ne_empty htarget
        have hframe := atomicSwitchTo_frame {} s.layout.readCurrentVersion target s.layout
        rw [run_switchWrites s.layout.readCurrentVersion hne hpay] at hframe
        obtain ⟨-, hlog, hroot⟩ := hframe
        have hpath : rollbackLogPath (run write s.layout (switchWrites s.layout.readCurrentVersion
            target)) = rollbackLogPath s.layout := by
          rw [rollbackLogPath, hroot, rollbackLogPath]
        simp only [hpay, run_switchWrites s.layout.readCurrentVersion hne hpay, Bool.not_true,
          Bool.false_eq_true, if_false, if_true]
        rw [run_append, ← hpath, ← hlog]
        rfl
      · simp only [hpay, Bool.not_false, Bool.false_eq_true, if_false, if_true]
        rfl

/-- The writes of a call, all of them, are what the call does to the install. -/
theorem writes_run (env : Env) (s : Host) (c : Call) :
    run InstallLayout.write s.layout (c.writes env s) = (step env s c.op).layout := by
  cases c with
  | check m currentVersion host clock => rfl
  | apply ctx =>
    by_cases hver : ∃ u, Verified env ctx s.state u
    · obtain ⟨u, hu⟩ := hver
      rw [writes_verified hu, run_applyWrites hu, Call.op, step_apply_saved,
        applyUpdate_verified hu]
    · rw [writes_unverified hver, Call.op, step_apply_saved, (applyUpdate_unverified hver {}).2,
        run_nil]
  | rollback now => exact run_rollbackWrites env now s

theorem cutCall_layout (env : Env) (s : Host) (c : Call × ℕ) :
    (cutCall env s c).layout = run InstallLayout.write s.layout ((c.1.writes env s).take c.2) := by
  unfold cutCall
  dsimp only
  split_ifs with hcut
  · rfl
  · rw [List.take_of_length_le (Nat.le_of_not_ge hcut), writes_run]

/-! ### Markers that name a payload -/

namespace InstallLayout

/-- `current.txt` names the version, or `previous.txt` does and counts as well. -/
def Guarded (both : Bool) (l : InstallLayout) (v : String) : Prop :=
  v = l.readCurrentVersion ∨ both = true ∧ v = l.readPreviousVersion

/-- The markers that count name versions with a payload, and directory names are read back from a
marker as they were written. -/
structure Sound (both : Bool) (l : InstallLayout) : Prop where
  names : ∀ v ∈ l.versions, Stripped v
  payload : ∀ v, l.Guarded both v → v ≠ "" → l.hasVersionPayload v = true

/-- A write that leaves the markers with their payloads. -/
def FsWrite.Safe (both : Bool) (l : InstallLayout) : FsWrite → Prop
  | .emptyVersion v => Stripped v ∧ ¬ l.Guarded both v
  | .dropVersion v => ¬ l.Guarded both v
  | .placeVersion v bytes => Stripped v ∧ (bytes = [] → ¬ l.Guarded both v)
  | .previousMarker v => l.hasVersionPayload v = true
  | .currentMarker v => l.hasVersionPayload v = true
  | .log _ => True

variable {both : Bool} {l : InstallLayout}

theorem hasVersionPayload_congr {l l' : InstallLayout} {v : String}
    (h : l'.versions.lookup v = l.versions.lookup v) :
    l'.hasVersionPayload v = l.hasVersionPayload v := by
  rw [hasVersionPayload, payload, h, hasVersionPayload, payload]

theorem mem_of_hasVersionPayload {v : String} (h : l.hasVersionPayload v = true) :
    v ∈ l.versions := by
  by_contra hmem
  rw [hasVersionPayload, payload, AList.lookup_eq_none.mpr hmem] at h
  exact absurd h (by simp)

theorem Sound.current (hl : Sound true l) : Sound false l := by
  refine ⟨hl.names, fun v hv hne => hl.payload v (hv.imp_right fun h => ?_) hne⟩
  cases h.1

theorem Sound.read_markerText (hl : Sound both l) {v : String}
    (hv : l.hasVersionPayload v = true) : readOneLine (markerText v) = v :=
  readOneLine_marker (hl.names v (mem_of_hasVersionPayload hv))

theorem Sound.write (hl : Sound both l) {w : FsWrite} (hw : FsWrite.Safe both l w) :
    Sound both (l.write w) := by
  cases w with
  | emptyVersion v =>
    refine ⟨fun x hx => ?_, fun x hx hne => ?_⟩
    · rcases (AList.mem_insert _).mp hx with rfl | hx
      · exact hw.1
      · exact hl.names x hx
    · have hxv : x ≠ v := fun h => hw.2 (h ▸ hx)
      rw [hasVersionPayload_congr (AList.lookup_insert_ne hxv)]
      exact hl.payload x hx hne
  | dropVersion v =>
    refine ⟨fun x hx => ?_, fun x hx hne => ?_⟩
    · exact hl.names x (AList.mem_erase.mp hx).2
    · have hxv : x ≠ v := fun h => hw (h ▸ hx)
      rw [hasVersionPayload_congr (AList.lookup_erase_ne hxv)]
      exact hl.payload x hx hne
  | placeVersion v bytes =>
    refine ⟨fun x hx => ?_, fun x hx hne => ?_⟩
    · rcases (AList.mem_insert _).mp hx with rfl | hx
      · exact hw.1
      · exact hl.names x hx
    · by_cases hxv : x = v
      · subst hxv
        have hbytes : bytes ≠ [] := fun h => hw.2 h hx
        rw [hasVersionPayload, InstallLayout.payload, InstallLayout.write, AList.lookup_insert]
        simpa [List.length_pos_iff] using hbytes
      · rw [hasVersionPayload_congr (AList.lookup_insert_ne hxv)]
        exact hl.payload x hx hne
  | previousMarker v =>
    refine ⟨hl.names, fun x hx hne => ?_⟩
    rcases hx with hx | ⟨hboth, hx⟩
    · exact hl.payload x (.inl hx) hne
    · rw [show (l.write (.previousMarker v)).readPreviousVersion = v from
        hl.read_markerText hw] at hx
      exact hx ▸ hw
  | currentMarker v =>
    refine ⟨hl.names, fun x hx hne => ?_⟩
    rcases hx with hx | ⟨hboth, hx⟩
    · rw [show (l.write (.currentMarker v)).readCurrentVersion = v from
        hl.read_markerText hw] at hx
      exact hx ▸ hw
    · exact hl.payload x (.inr ⟨hboth, hx⟩) hne
  | log file => exact ⟨hl.names, hl.payload⟩

/-- Every write of the list is safe where it happens. -/
def SafeWrites (both : Bool) (l : InstallLayout) (ws : List FsWrite) : Prop :=
  Along InstallLayout.write (fun _ l w => FsWrite.Safe both l w) [] l ws

theorem SafeWrites.append {as bs : List FsWrite} (ha : SafeWrites both l as)
    (hb : SafeWrites both (run InstallLayout.write l as) bs) : SafeWrites both l (as ++ bs) :=
  along_append.mpr ⟨ha, hb.of_past⟩

theorem SafeWrites.cons {w : FsWrite} {ws : List FsWrite} (hw : FsWrite.Safe both l w)
    (hws : SafeWrites both (l.write w) ws) : SafeWrites both l (w :: ws) :=
  ⟨hw, hws.of_past⟩

theorem SafeWrites.sound {ws : List FsWrite} (hws : SafeWrites both l ws) (hl : Sound both l)
    (n : ℕ) : Sound both (run InstallLayout.write l (ws.take n)) :=
  Along.invariant (P := fun _ l => Sound both l) (fun _ _ _ hl hw => hl.write hw) hl (hws.take n)

theorem SafeWrites.sound_all {ws : List FsWrite} (hws : SafeWrites both l ws) (hl : Sound both l) :
    Sound both (run InstallLayout.write l ws) := by
  simpa using hws.sound hl ws.length

theorem Guarded.referenced {v : String} (h : l.Guarded both v) : l.Referenced v := by
  rcases h with h | ⟨-, h⟩
  · exact .inr (.inl h)
  · exact .inr (.inr h)

theorem safe_removeWrites {v : String} (hv : Stripped v) (hguarded : ¬ l.Guarded both v) :
    SafeWrites both l (removeWrites v) :=
  .cons ⟨hv, hguarded⟩ (.cons hguarded trivial)

theorem safe_flatMap_removeWrites {vs : List String}
    (h : ∀ v ∈ vs, Stripped v ∧ ¬ l.Guarded both v) :
    SafeWrites both l (vs.flatMap removeWrites) := by
  induction vs generalizing l with
  | nil => trivial
  | cons v vs ih =>
    obtain ⟨hv, hguarded⟩ := h v List.mem_cons_self
    -- neither write touches a marker
    exact (safe_removeWrites hv hguarded).append
      (ih fun x hx => h x (List.mem_cons_of_mem _ hx))

theorem safe_stageWrites {v : String} {bytes : List UInt8} (hv : Stripped v)
    (hguarded : ¬ l.Guarded both v) : SafeWrites both l (l.stageWrites v bytes) := by
  unfold stageWrites
  split_ifs
  · exact (safe_removeWrites hv hguarded).append (.cons ⟨hv, fun _ => hguarded⟩ trivial)
  · exact .cons ⟨hv, fun _ => hguarded⟩ trivial

theorem safe_switchWrites {fromVersion toVersion : String}
    (hfrom : fromVersion ≠ "" → l.hasVersionPayload fromVersion = true)
    (hto : l.hasVersionPayload toVersion = true) :
    SafeWrites both l (switchWrites fromVersion toVersion) := by
  unfold switchWrites
  split_ifs with hne
  · exact .cons (hfrom hne) (.cons hto trivial)
  · exact .cons hto trivial

theorem safe_gcWrites (hl : Sound both l) : SafeWrites both l l.gcWrites := by
  refine safe_flatMap_removeWrites fun v hv => ?_
  obtain ⟨hmem, href⟩ := List.mem_filter.mp hv
  refine ⟨hl.names v hmem, fun hguarded => ?_⟩
  simp [hguarded.referenced] at href

theorem safe_loggedWrites (log : Option FileText) (hl : Sound both l) :
    SafeWrites both l (.log log :: gcWrites { l with log }) :=
  .cons trivial (safe_gcWrites (hl.write (w := .log log) trivial))

end InstallLayout

/-! ### Where a cut loses a payload -/

/-- The call replaces the directory of a version that a marker names, and is cut after the old
payload is gone and before the new one is there. An empty payload is no payload. -/
def Exposed (both : Bool) (env : Env) (s : Host) (c : Call × ℕ) : Prop :=
  ∃ ctx u, c.1 = .apply ctx ∧ Verified env ctx s.state u ∧ s.layout.Guarded both u.version ∧
    0 < c.2 ∧ (c.2 ≤ 2 ∨ ctx.artifactBytes = [])

section

variable {both : Bool} {env : Env} {s : Host}

open InstallLayout

theorem safe_switchedWrites {ctx : ApplyContext} {u : UpdateApply} {l : InstallLayout}
    (hl : Sound both l) : SafeWrites both l (switchedWrites env ctx u l) := by
  unfold switchedWrites
  split_ifs with hpay
  · have hswitch : SafeWrites both l (switchWrites l.readCurrentVersion u.version) :=
      safe_switchWrites (hl.payload _ (.inl rfl)) hpay
    exact hswitch.append (safe_loggedWrites _ (hswitch.sound_all hl))
  · trivial

theorem safe_rollbackWrites {now : TimePoint} {l : InstallLayout} (hl : Sound both l) :
    SafeWrites both l (rollbackWrites env now l) := by
  unfold rollbackWrites
  split_ifs with hcurrent
  · trivial
  · cases rollbackTarget env l with
    | error detail => trivial
    | ok target =>
      dsimp only
      split_ifs with hpay
      · exact (safe_switchWrites (hl.payload _ (.inl rfl)) hpay).append (.cons trivial trivial)
      · trivial

theorem sound_stageWrites {l : InstallLayout} {v : String} {bytes : List UInt8}
    (hl : Sound both l) (hv : Stripped v) (hbytes : bytes ≠ []) :
    Sound both (run write l (l.stageWrites v bytes)) := by
  have hplaced : run write l (l.stageWrites v bytes) =
      { l with versions := (l.versions.erase v).insert v (some bytes) } := by
    unfold stageWrites
    rw [run_append]
    split_ifs with hmem
    · rw [run_removeWrites]
      rfl
    · rw [erase_of_notMem hmem]
      rfl
  rw [hplaced]
  refine ⟨fun x hx => ?_, fun x hx hne => ?_⟩
  · rcases (AList.mem_insert _).mp hx with rfl | hx
    · exact hv
    · exact hl.names x (AList.mem_erase.mp hx).2
  · by_cases hxv : x = v
    · subst hxv
      rw [hasVersionPayload, payload, AList.lookup_insert]
      simpa [List.length_pos_iff] using hbytes
    · rw [hasVersionPayload_congr (l := l)
        ((AList.lookup_insert_ne hxv).trans (AList.lookup_erase_ne hxv))]
      exact hl.payload x hx hne

theorem not_sound_of_lost {l : InstallLayout} {v : String} (hguarded : l.Guarded both v)
    (hne : v ≠ "") (hlost : l.hasVersionPayload v = false) : ¬ Sound both l := by
  intro hl
  rw [hl.payload v hguarded hne] at hlost
  exact absurd hlost (by decide)

theorem sound_cut_applyWrites_iff {ctx : ApplyContext} {u : UpdateApply}
    (hu : Verified env ctx s.state u) (hs : Sound both s.layout) (n : ℕ) :
    Sound both (run write s.layout ((applyWrites env ctx u s.layout).take n)) ↔
      ¬ (s.layout.Guarded both u.version ∧ 0 < n ∧ (n ≤ 2 ∨ ctx.artifactBytes = [])) := by
  have hv : Stripped u.version := by
    obtain ⟨v, hv, -⟩ := hu.accepts.offered
    exact stripped_of_versionOf (hu.accepts.version ▸ hv)
  unfold applyWrites
  dsimp only
  by_cases hguarded : s.layout.Guarded both u.version
  swap
  · -- no marker names the version: every write is safe
    have hstage : SafeWrites both s.layout (s.layout.stageWrites u.version ctx.artifactBytes) :=
      safe_stageWrites hv hguarded
    have hrest : SafeWrites both (run write s.layout
        (s.layout.stageWrites u.version ctx.artifactBytes)) (switchedWrites env ctx u _) :=
      safe_switchedWrites (hstage.sound_all hs)
    exact iff_of_true ((hstage.append hrest).sound hs n) fun h => hguarded h.1
  have hne := hu.version_ne_empty
  have hmem := mem_of_hasVersionPayload (hs.payload _ hguarded hne)
  have hlist : s.layout.stageWrites u.version ctx.artifactBytes =
      [.emptyVersion u.version, .dropVersion u.version,
        .placeVersion u.version ctx.artifactBytes] := by
    rw [stageWrites, if_pos hmem]
    rfl
  obtain hn | hn | hn | hn : n = 0 ∨ n = 1 ∨ n = 2 ∨ 3 ≤ n := by omega
  · subst hn
    exact iff_of_true hs fun h => lt_irrefl _ h.2.1
  · -- emptied
    subst hn
    refine iff_of_false ?_ fun h => h ⟨hguarded, by decide, .inl (by decide)⟩
    rw [hlist]
    refine not_sound_of_lost (v := u.version) hguarded hne ?_
    simp [hasVersionPayload, payload, write]
  · -- dropped
    subst hn
    refine iff_of_false ?_ fun h => h ⟨hguarded, by decide, .inl (by decide)⟩
    rw [hlist]
    refine not_sound_of_lost (v := u.version) hguarded hne ?_
    simp [hasVersionPayload, payload, write]
  · -- the new payload is in place
    rw [List.take_append, List.take_of_length_le (by rw [hlist]; exact hn), run_append]
    by_cases hempty : ctx.artifactBytes = []
    · have hlost : (run write s.layout (s.layout.stageWrites u.version
          ctx.artifactBytes)).hasVersionPayload u.version = false := by
        rw [hlist, hempty]
        simp [hasVersionPayload, payload, write]
      refine iff_of_false ?_ fun h => h ⟨hguarded, by omega, .inr hempty⟩
      rw [switchedWrites, if_neg (by simp [hlost]), List.take_nil, run_nil]
      refine not_sound_of_lost (v := u.version) ?_ hne hlost
      rw [hlist]
      exact hguarded
    · refine iff_of_true ((safe_switchedWrites (sound_stageWrites hs hv hempty)).sound
        (sound_stageWrites hs hv hempty) _) ?_
      rintro ⟨-, -, h | h⟩
      · omega
      · exact hempty h

theorem sound_cutCall_iff (hs : Sound both s.layout) (c : Call × ℕ) :
    Sound both (cutCall env s c).layout ↔ ¬ Exposed both env s c := by
  rw [cutCall_layout]
  obtain ⟨call, n⟩ := c
  cases call with
  | check m currentVersion host clock =>
    refine iff_of_true (by simpa [Call.writes] using hs) ?_
    rintro ⟨ctx, u, hctx, -⟩
    cases hctx
  | apply ctx =>
    by_cases hver : ∃ u, Verified env ctx s.state u
    · obtain ⟨u, hu⟩ := hver
      rw [writes_verified hu, sound_cut_applyWrites_iff hu hs]
      refine not_congr ⟨fun h => ⟨ctx, u, rfl, hu, h⟩, ?_⟩
      rintro ⟨ctx', u', hctx, hu', h⟩
      cases hctx
      obtain rfl : u = u' := by simpa [hu.gate] using hu'.gate
      exact h
    · refine iff_of_true (by simpa [writes_unverified hver] using hs) ?_
      rintro ⟨ctx', u', hctx, hu', -⟩
      cases hctx
      exact hver ⟨u', hu'⟩
  | rollback now =>
    refine iff_of_true ?_ ?_
    · exact (safe_rollbackWrites hs).sound hs n
    · rintro ⟨ctx, u, hctx, -⟩
      cases hctx

end

/-! ### A sample session -/

/-- 1.0.0 is installed, and the state says so. -/
def sampleHost : Host where
  layout :=
    { current := some ['1', '.', '0', '.', '0', '\n']
      versions := (∅ : Dict String (Option (List UInt8))).insert "1.0.0" (some [1]) }
  state := { currentInstalledVersion := "1.0.0", maxVersionEverSeen := "1.0.0" }

/-- 2.0.0 is applied and cut once the markers are switched; the state still names 1.0.0, so 2.0.0 is
applied again, and cut once its directory is gone. -/
def sampleCuts : List (Call × ℕ) :=
  [(.apply (sampleContext "2.0.0" "1.0.0" [2]), 3), (.apply (sampleContext "2.0.0" "1.0.0" [2]), 2)]

theorem sampleHost_sound : sampleHost.layout.Sound true := by
  refine ⟨fun v hv => ?_, fun v hguarded hne => ?_⟩
  · rcases (AList.mem_insert _).mp hv with rfl | hv
    · exact stripped_of_forall (by decide)
    · exact absurd hv (AList.notMem_empty v)
  · rcases hguarded with rfl | ⟨-, rfl⟩
    · decide
    · exact absurd (by decide) hne

/-! ### Sessions -/

/-- **Which cuts lose a payload.** In a session of calls each of which may be cut after any of its
writes, the markers keep their payloads exactly when no cut is exposed. -/
theorem updates_cut_short_iff (env : Env) {both : Bool} {s : Host}
    (hs : s.layout.Sound both) (cuts : List (Call × ℕ)) :
    Along (cutCall env) (fun _ s c => (cutCall env s c).layout.Sound both) [] s cuts ↔
      Along (cutCall env) (fun _ s c => ¬ Exposed both env s c) [] s cuts :=
  along_iff_of_step (I := fun s : Host => s.layout.Sound both)
    (fun _ c hs => sound_cutCall_iff hs c) hs

theorem updates_cut_short_iff_lost :
    ¬ Along (cutCall sampleEnv) (fun _ s c => (cutCall sampleEnv s c).layout.Sound true) []
      sampleHost sampleCuts := by
  have hexposed : Exposed true sampleEnv
      (cutCall sampleEnv sampleHost (.apply (sampleContext "2.0.0" "1.0.0" [2]), 3))
      (.apply (sampleContext "2.0.0" "1.0.0" [2]), 2) :=
    ⟨sampleContext "2.0.0" "1.0.0" [2],
      ⟨"2.0.0", ⟨.linux, .x86_64, "souxmar.tar.gz", sampleEnv.sha256Hex [2], 1⟩, false⟩, rfl,
      ⟨by decide, by decide, by decide⟩, .inl (by decide), by decide, .inl (by decide)⟩
  intro h
  exact ((updates_cut_short_iff sampleEnv sampleHost_sound sampleCuts).mp h).2.1 hexposed

/-! ### The current version -/

/-- The update state names the version that `current.txt` names. -/
def Agrees (s : Host) : Prop := s.state.currentInstalledVersion = s.layout.readCurrentVersion

/-- An apply is given bytes, and the version that the update state names, if it names one. -/
def Call.Reported (s : Host) : Call → Prop
  | .apply ctx => ctx.artifactBytes ≠ [] ∧
    (s.state.currentInstalledVersion ≠ "" → ctx.currentVersion = s.state.currentInstalledVersion)
  | _ => True

section

variable {env : Env} {s : Host}

theorem not_exposed (hagrees : Agrees s) {c : Call × ℕ} (hc : c.1.Reported s) :
    ¬ Exposed false env s c := by
  rintro ⟨ctx, u, hctx, hu, hguarded, -⟩
  rw [hctx] at hc
  rcases hguarded with hcurrent | ⟨hfalse, -⟩
  · rw [← hagrees] at hcurrent
    have hne : s.state.currentInstalledVersion ≠ "" := hcurrent ▸ hu.version_ne_empty
    exact hu.newer (hc.2 hne) hne hcurrent.symm
  · cases hfalse

theorem agrees_step (hs : s.layout.Sound false) (hagrees : Agrees s) (c : Call) :
    Agrees (step env s c.op) := by
  unfold Agrees at hagrees ⊢
  cases c with
  | check m currentVersion host clock =>
    refine Eq.trans ?_ hagrees
    simp only [Call.op, step, keepState, if_true, cmdUpdateCheck]
    split <;> rfl
  | apply ctx =>
    rw [Call.op, step_apply_saved]
    cases applyUpdate_effect env (f := {}) ⟨rfl, rfl⟩ ctx s with
    | refused outcome state files payload =>
      rw [state]
      exact hagrees.trans (congrArg readOneLine files.current.symm)
    | installed u verified outcome version state current previous payload =>
      rw [state, InstallLayout.readCurrentVersion, current]
      exact verified.marks.read.symm
  | rollback now =>
    rw [Call.op, step_rollback_saved]
    cases rollback_effect env (f := {}) rfl now s with
    | refused outcome same => rw [same, hagrees]
    | moved target outcome payload fromVersion toVersion state current previous versions =>
      rw [state, InstallLayout.readCurrentVersion, current]
      exact (hs.read_markerText payload).symm

end

/-- **It takes two cuts to lose the current version.** When each apply is given the version that the
update state names, a call that leaves `current.txt` without a payload comes after an earlier call
that was cut before it saved the state. -/
theorem first_cut_keeps_current (env : Env) {s : Host} (hs : s.layout.Sound false)
    (hagrees : Agrees s) {cuts : List (Call × ℕ)}
    (hcuts : Along (cutCall env) (fun _ s c => c.1.Reported s) [] s cuts) :
    Along (cutCall env) (fun past s c => ¬ (cutCall env s c).layout.Sound false →
      ∃ p ∈ past, CutShort env p) [] s cuts := by
  refine Along.of_invariant
    (P := fun past s => (∀ p ∈ past, ¬ CutShort env p) → s.layout.Sound false ∧ Agrees s)
    ?_ ?_ (fun _ => ⟨hs, hagrees⟩) hcuts
  · intro past s c hP hc hpast
    obtain ⟨hs, hagrees⟩ := hP fun p hp => hpast p (List.mem_append_left _ hp)
    have hwhole : ¬ CutShort env (s, c) := hpast _ (by simp)
    refine ⟨(sound_cutCall_iff hs c).mpr (not_exposed hagrees hc), ?_⟩
    rw [show cutCall env s c = step env s c.1.op from if_neg hwhole]
    exact agrees_step hs hagrees c.1
  · intro past s c hP hc hlost
    by_contra hnone
    obtain ⟨hs, hagrees⟩ := hP fun p hp hcut => hnone ⟨p, hp, hcut⟩
    exact hlost ((sound_cutCall_iff hs c).mpr (not_exposed hagrees hc))

theorem first_cut_keeps_current_twice :
    Along (cutCall sampleEnv) (fun past s c => ¬ (cutCall sampleEnv s c).layout.Sound false →
      ∃ p ∈ past, CutShort sampleEnv p) [] sampleHost sampleCuts := by
  have hagrees : Agrees sampleHost :=
    show "1.0.0" = sampleHost.layout.readCurrentVersion by decide
  have hcut : CutShort sampleEnv (sampleHost, .apply (sampleContext "2.0.0" "1.0.0" [2]), 3) := by
    decide
  refine first_cut_keeps_current sampleEnv sampleHost_sound.current hagrees
    ⟨⟨List.cons_ne_nil _ _, fun _ => rfl⟩, ⟨List.cons_ne_nil _ _, fun _ => ?_⟩, trivial⟩
  rw [cutCall_state hcut]
  rfl

end Souxmar.Updater
