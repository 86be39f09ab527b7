import Souxmar.PluginHost.Subprocess

/-!
# When parent and child cannot block each other

While the parent writes stdin it reads nothing, so a child that fills an output pipe before it has read enough
blocks it for good; on Windows nothing is read before the child has exited. Whether that happens depends only on
the sizes: pipes between two parties that never choose lead every order of steps to the same place.
-/

namespace Souxmar.PluginHost.Subprocess

/-! ## What the child has read and written -/

section

variable (pipes : Pipes) (program : Program)

def reads (k : ℕ) : ℕ := Nat.count (fun i => program i = some .read) k

def writes (stream : Stream) (k : ℕ) : ℕ := Nat.count (fun i => program i = some (.write stream)) k

/-- The child comes to a write for which its pipe has no room, were nothing taken out of it. -/
def Overflows (i : ℕ) : Prop :=
  (∀ j < i, program j ≠ none) ∧
    ∃ stream, program i = some (.write stream) ∧ pipes.output stream ≤ writes program stream i

/-- On POSIX stdin must fit into its pipe and what the child has read by the time an output pipe is full, and with
a timeout, which must be positive and fit into an `int`, into the pipe alone. On Windows no output pipe may ever
be full; with a timeout, which must be positive and not come out as `INFINITE`, stdin must fit into its pipe. -/
def Sized (platform : Platform) (opts : SubprocessOptions) : Prop :=
  match platform with
  | .posix =>
    (∀ i, Overflows pipes program i → toWrite .posix opts ≤ pipes.stdin + reads program i) ∧
      (opts.timeout = 0 ∨ toWrite .posix opts ≤ pipes.stdin ∧ 0 < opts.timeout ∧ opts.timeout < 2 ^ 31)
  | .windows =>
    (∀ i, ¬Overflows pipes program i) ∧
      (opts.timeout = 0 ∨
        toWrite .windows opts ≤ pipes.stdin ∧ 0 < opts.timeout ∧ opts.timeout % 2 ^ 32 ≠ infinite)

end

section

variable {platform : Platform} {pipes : Pipes} {opts : SubprocessOptions} {program : Program}

theorem reads_succ (k : ℕ) :
    reads program (k + 1) = reads program k + if program k = some .read then 1 else 0 := Nat.count_succ _ k

theorem writes_succ (stream : Stream) (k : ℕ) :
    writes program stream (k + 1) =
      writes program stream k + if program k = some (.write stream) then 1 else 0 := Nat.count_succ _ k

theorem writes_update {stream : Stream} {k : ℕ} (h : program k = some (.write stream)) :
    Function.update (fun s => writes program s k) stream (writes program stream k + 1) =
      fun s => writes program s (k + 1) := by
  funext s
  by_cases hs : s = stream
  · subst hs
    rw [Function.update_self, writes_succ, if_pos h]
  · have hne : program k ≠ some (.write s) := by
      rw [h]
      intro heq
      injection heq with heq
      injection heq with heq
      exact hs heq.symm
    rw [Function.update_of_ne hs, writes_succ, if_neg hne]
    rfl

theorem writes_read {k : ℕ} (h : program k = some .read) (stream : Stream) :
    writes program stream (k + 1) = writes program stream k := by
  have hne : program k ≠ some (.write stream) := by
    rw [h]
    intro heq
    injection heq with heq
    cases heq
  rw [writes_succ, if_neg hne, Nat.add_zero]

theorem reads_write {k : ℕ} {stream : Stream} (h : program k = some (.write stream)) :
    reads program (k + 1) = reads program k := by
  have hne : program k ≠ some .read := by
    rw [h]
    intro heq
    injection heq with heq
    cases heq
  rw [reads_succ, if_neg hne, Nat.add_zero]

/-! ## The invariant -/

/-- As long as stdin is being written, nothing has been taken out of the output pipes and everything the child has
read came through the pipe. On Windows the output pipes stay as they are. -/
def InPhase (platform : Platform) (opts : SubprocessOptions) (program : Program) (s : State) : Phase → Prop
  | .writing rem => s.stdinOpen = true ∧
    (s.alive = true → s.inLevel + rem + reads program s.pc = toWrite platform opts ∧
      ∀ stream, s.level stream = writes program stream s.pc)
  | .polling _ => s.stdinOpen = false ∧ platform = .posix
  | .reaping => s.alive = false
  | .waiting _ => s.stdinOpen = false ∧ platform = .windows ∧
    (s.alive = true → ∀ stream, s.level stream = writes program stream s.pc)
  | .finished => True

structure Inv (platform : Platform) (opts : SubprocessOptions) (program : Program) (s : State) : Prop where
  past : s.alive = true → ∀ j < s.pc, program j ≠ none
  phase : InPhase platform opts program s s.phase

theorem inv_start : Inv platform opts program (start platform opts) where
  past _ j hj := absurd hj (Nat.not_lt_zero j)
  phase := by
    refine ⟨rfl, fun _ => ⟨?_, fun stream => (Nat.count_zero _).symm⟩⟩
    show 0 + toWrite platform opts + Nat.count _ 0 = _
    rw [Nat.count_zero]
    omega

theorem past_succ {s : State} (h : ∀ j < s.pc, program j ≠ none) {op : ChildOp} (hop : program s.pc = some op) :
    ∀ j < s.pc + 1, program j ≠ none := by
  intro j hj
  rcases Nat.lt_succ_iff_lt_or_eq.mp hj with hlt | rfl
  · exact h j hlt
  · rw [hop]
    exact Option.some_ne_none op

theorem InPhase.child {s s' : State} {phase : Phase} (h : InPhase platform opts program s phase)
    (hopen : s'.stdinOpen = s.stdinOpen) (halive : s'.alive = true → s.alive = true)
    (hsum : s'.alive = true → s.stdinOpen = true → ∀ rem, s.inLevel + rem + reads program s.pc = toWrite platform opts →
      s'.inLevel + rem + reads program s'.pc = toWrite platform opts)
    (hlevel : s'.alive = true → (∀ stream, s.level stream = writes program stream s.pc) →
      ∀ stream, s'.level stream = writes program stream s'.pc) :
    InPhase platform opts program s' phase := by
  cases phase with
  | writing rem =>
    obtain ⟨hopened, hall⟩ := h
    refine ⟨hopen.trans hopened, fun ha => ?_⟩
    obtain ⟨hbytes, hwritten⟩ := hall (halive ha)
    exact ⟨hsum ha hopened rem hbytes, hlevel ha hwritten⟩
  | polling since => exact ⟨hopen.trans h.1, h.2⟩
  | reaping => exact Bool.eq_false_iff.mpr fun ha => Bool.eq_false_iff.mp h (halive ha)
  | waiting since => exact ⟨hopen.trans h.1, h.2.1, fun ha => hlevel ha (h.2.2 (halive ha))⟩
  | finished => trivial

theorem Inv.step {s s' : State} (h : Inv platform opts program s) (hstep : Step platform pipes opts program s s') :
    Inv platform opts program s' := by
  have hold := h.phase
  cases hstep with
  | @write rem n hphase halive hpos hrem hroom =>
    rw [hphase] at hold
    obtain ⟨hopen, hall⟩ := hold
    obtain ⟨hsum, hlevel⟩ := hall halive
    refine ⟨h.past, hopen, fun _ => ⟨?_, hlevel⟩⟩
    show s.inLevel + n + (rem - n) + reads program s.pc = toWrite platform opts
    omega
  | brokenPipe hphase hdead =>
    rw [hphase] at hold
    exact ⟨h.past, hold.1, fun halive => absurd (hdead.symm.trans halive) Bool.false_ne_true⟩
  | closeStdin hphase =>
    rw [hphase] at hold
    refine ⟨h.past, ?_⟩
    cases platform with
    | posix => exact ⟨rfl, rfl⟩
    | windows => exact ⟨rfl, rfl, fun halive => (hold.2 halive).2⟩
  | drain stream hphase hdata =>
    rw [hphase] at hold
    exact ⟨h.past, hold⟩
  | hangUp hphase hdead hempty => exact ⟨h.past, hdead⟩
  | expirePoll hphase halive hempty hlimit hlate => exact ⟨(fun ha => nomatch ha), rfl⟩
  | reap hphase hdead => exact ⟨h.past, trivial⟩
  | exited hphase hdead => exact ⟨h.past, trivial⟩
  | expireWait hphase halive hlimit hlate => exact ⟨(fun ha => nomatch ha), trivial⟩
  | tick => exact ⟨h.past, hold⟩
  | childRead halive hop hdata =>
    refine ⟨fun _ => past_succ (h.past halive) hop, hold.child rfl id (fun _ _ rem hsum => ?_)
      fun _ hlevel stream => (hlevel stream).trans (writes_read hop stream).symm⟩
    show s.inLevel - 1 + rem + reads program (s.pc + 1) = toWrite platform opts
    rw [reads_succ, if_pos hop]
    omega
  | childEnd halive hop hempty hclosed =>
    exact ⟨fun _ => past_succ (h.past halive) hop, hold.child rfl id
      (fun _ hopen => absurd (hclosed.symm.trans hopen) Bool.false_ne_true)
      fun _ hlevel stream => (hlevel stream).trans (writes_read hop stream).symm⟩
  | @childWrite stream halive hop hroom =>
    refine ⟨fun _ => past_succ (h.past halive) hop, hold.child rfl id (fun _ _ rem hsum => ?_) fun _ hlevel => ?_⟩
    · show s.inLevel + rem + reads program (s.pc + 1) = toWrite platform opts
      rw [reads_write hop]
      exact hsum
    · show ∀ stream', Function.update s.level stream (s.level stream + 1) stream' = writes program stream' (s.pc + 1)
      have hsame : s.level = fun stream' => writes program stream' s.pc := funext hlevel
      rw [hsame]
      exact congrFun (writes_update hop)
  | childExit halive hop =>
    exact ⟨(fun ha => nomatch ha), hold.child rfl (fun ha => nomatch ha) (fun ha => nomatch ha) fun ha => nomatch ha⟩

theorem Reachable.inv {s : State} (h : Reachable platform pipes opts program s) : Inv platform opts program s := by
  induction h with
  | refl => exact inv_start
  | tail _ hstep ih => exact ih.step hstep

/-! ## The condition is enough -/

theorem pollTimeout_bounds (hpos : 0 < opts.timeout) (hint : opts.timeout < 2 ^ 31) (elapsed : ℕ) :
    0 ≤ pollTimeout opts elapsed := by
  unfold pollTimeout
  rw [if_pos hpos]
  by_cases hremain : opts.timeout - elapsed > 0
  · have hsame : Int.bmod (opts.timeout - elapsed) (2 ^ 32) = opts.timeout - elapsed :=
      Int.bmod_eq_of_le (by omega) (by omega)
    simp only [if_pos hremain, hsame]
    omega
  · simp only [if_neg hremain]
    exact Int.le_refl 0

theorem Inv.overflows {s : State} (h : Inv platform opts program s) (hchild : ChildBlocked pipes program s)
    (hlevel : ∀ stream, s.level stream = writes program stream s.pc)
    (hread : ¬(s.inLevel = 0 ∧ s.stdinOpen = true)) : Overflows pipes program s.pc := by
  obtain ⟨halive, hop⟩ := hchild
  refine ⟨h.past halive, ?_⟩
  split at hop
  · exact absurd hop hread
  next stream heq => exact ⟨stream, heq, hlevel stream ▸ hop⟩
  · exact hop.elim

theorem not_deadlocked_of_sized (h : Sized pipes program platform opts) {s : State}
    (hs : Reachable platform pipes opts program s) : ¬Deadlocked pipes program s := by
  have hinv := hs.inv
  have hphase := hinv.phase
  rintro ⟨⟨halive, hparent⟩, hchild⟩
  cases hp : s.phase with
  | writing rem =>
    rw [hp] at hphase hparent
    obtain ⟨hrem, hfull⟩ := hparent
    obtain ⟨hsum, hlevel⟩ := hphase.2 halive
    have hover := hinv.overflows hchild hlevel fun hread => by
      have hpos := pipes.stdin_pos
      omega
    cases platform with
    | posix =>
      have hfits := h.1 s.pc hover
      omega
    | windows => exact h.1 s.pc hover
  | polling since =>
    rw [hp] at hphase hparent
    obtain ⟨_, hop⟩ := hchild
    split at hop
    · exact absurd (hphase.1.symm.trans hop.2) Bool.false_ne_true
    next stream _ =>
      have hpos := pipes.output_pos stream
      have hempty := hparent stream
      omega
    · exact hop
  | reaping =>
    rw [hp] at hphase
    exact absurd (hphase.symm.trans halive) Bool.false_ne_true
  | waiting since =>
    rw [hp] at hphase
    obtain ⟨hclosed, rfl, hlevel⟩ := hphase
    have hover := hinv.overflows hchild (hlevel halive) fun hread =>
      absurd (hclosed.symm.trans hread.2) Bool.false_ne_true
    exact h.1 s.pc hover
  | finished =>
    rw [hp] at hparent
    exact hparent

theorem deadlineApplies_of_sized (h : Sized pipes program platform opts) {s : State}
    (hs : Reachable platform pipes opts program s) (htimeout : opts.timeout ≠ 0) (hblocked : ParentBlocked pipes s) :
    DeadlineApplies opts s := by
  have hphase := hs.inv.phase
  obtain ⟨halive, hparent⟩ := hblocked
  unfold DeadlineApplies
  cases hp : s.phase with
  | writing rem =>
    rw [hp] at hphase hparent
    obtain ⟨hrem, hfull⟩ := hparent
    obtain ⟨hsum, _⟩ := hphase.2 halive
    cases platform with
    | posix =>
      have hfits := (h.2.resolve_left htimeout).1
      omega
    | windows =>
      have hfits := (h.2.resolve_left htimeout).1
      omega
  | polling since =>
    rw [hp] at hphase
    obtain ⟨_, rfl⟩ := hphase
    obtain ⟨_, hpos, hint⟩ := h.2.resolve_left htimeout
    exact pollTimeout_bounds hpos hint since
  | reaping =>
    rw [hp] at hphase
    exact absurd (hphase.symm.trans halive) Bool.false_ne_true
  | waiting since =>
    rw [hp] at hphase
    obtain ⟨_, rfl, _⟩ := hphase
    obtain ⟨_, hpos, hfinite⟩ := h.2.resolve_left htimeout
    show waitMs opts ≠ infinite
    rwa [waitMs, if_pos hpos]
  | finished => trivial

theorem neverStuck_of_sized (h : Sized pipes program platform opts) : NeverStuck platform pipes opts program :=
  fun _ hs => ⟨not_deadlocked_of_sized h hs, deadlineApplies_of_sized h hs⟩

/-! ## The condition is needed -/

theorem Reachable.next {s s' t : State} (h : Reachable platform pipes opts program s)
    (hstep : Step platform pipes opts program s s') (heq : s' = t) : Reachable platform pipes opts program t :=
  heq ▸ Relation.ReflTransGen.tail h hstep

/-- The parent hands every byte over as the child reads it, and nothing is left in the pipe. -/
def fed (platform : Platform) (opts : SubprocessOptions) (program : Program) (k : ℕ) : State where
  phase := .writing (toWrite platform opts - reads program k)
  level := fun stream => writes program stream k
  pc := k

theorem reach_fed {k : ℕ} (hruns : ∀ j < k, program j ≠ none) (hfits : ∀ j < k, ¬Overflows pipes program j)
    (hreads : reads program k ≤ toWrite platform opts) :
    Reachable platform pipes opts program (fed platform opts program k) := by
  induction k with
  | zero =>
    have hstart : start platform opts = fed platform opts program 0 := by
      simp [start, fed, reads, writes]
    rw [← hstart]
    exact Relation.ReflTransGen.refl
  | succ k ih =>
    have hbefore := ih (fun j hj => hruns j (by omega)) fun j hj => hfits j (by omega)
    cases hop : program k with
    | none => exact absurd hop (hruns k (by omega))
    | some op =>
      cases op with
      | read =>
        have hmore : reads program (k + 1) = reads program k + 1 := by rw [reads_succ, if_pos hop]
        have hwritten := (hbefore (by omega)).next (Step.write (n := 1) rfl rfl (by omega) (by omega)
          (show 0 + 1 ≤ pipes.stdin from pipes.stdin_pos)) rfl
        refine hwritten.next (Step.childRead rfl hop (Nat.zero_lt_one)) ?_
        have hrem : toWrite platform opts - reads program k - 1 =
            toWrite platform opts - reads program (k + 1) := by omega
        have hlevel : (fun stream => writes program stream k) = fun stream => writes program stream (k + 1) :=
          funext fun stream => (writes_read hop stream).symm
        simp only [fed, hrem, hlevel]
      | write stream =>
        have hmore : reads program (k + 1) = reads program k := reads_write hop
        have hroom : writes program stream k < pipes.output stream := by
          by_contra hfull
          exact hfits k (by omega) ⟨fun j hj => hruns j (by omega), stream, hop, by omega⟩
        refine (hbefore (by omega)).next (Step.childWrite rfl hop hroom) ?_
        simp only [fed, writes_update hop, hmore]

theorem reach_full {k : ℕ} (h : Reachable platform pipes opts program (fed platform opts program k))
    (hmore : pipes.stdin + reads program k < toWrite platform opts) :
    ∃ s rem, Reachable platform pipes opts program s ∧ s.phase = .writing rem ∧ 0 < rem ∧
      pipes.stdin = s.inLevel ∧ s.alive = true ∧ s.pc = k ∧ s.level = fun stream => writes program stream k := by
  have hfull := h.next (Step.write (n := pipes.stdin) rfl rfl pipes.stdin_pos (by omega)
    (show 0 + pipes.stdin ≤ pipes.stdin by omega)) rfl
  refine ⟨_, _, hfull, rfl, by omega, ?_, rfl, rfl, rfl⟩
  show pipes.stdin = 0 + pipes.stdin
  omega

theorem childBlocked_of {s : State} {k : ℕ} (hover : Overflows pipes program k) (halive : s.alive = true)
    (hpc : s.pc = k) (hlevel : s.level = fun stream => writes program stream k) :
    ChildBlocked pipes program s := by
  obtain ⟨_, stream, hop, hfull⟩ := hover
  refine ⟨halive, ?_⟩
  rw [hpc, hop, hlevel]
  exact hfull

theorem deadlock_writing {k : ℕ} (hover : Overflows pipes program k)
    (hfits : ∀ j < k, ¬Overflows pipes program j)
    (hmore : pipes.stdin + reads program k < toWrite platform opts) :
    ∃ s, Reachable platform pipes opts program s ∧ Deadlocked pipes program s := by
  have hfed : Reachable platform pipes opts program (fed platform opts program k) :=
    reach_fed hover.1 hfits (by omega)
  obtain ⟨s, rem, hs, hphase, hrem, hin, halive, hpc, hlevel⟩ := reach_full hfed hmore
  refine ⟨s, hs, ⟨halive, ?_⟩, childBlocked_of hover halive hpc hlevel⟩
  rw [hphase]
  exact ⟨hrem, Nat.le_of_eq hin⟩

theorem first_overflow {i : ℕ} (h : Overflows pipes program i) :
    ∃ k, Overflows pipes program k ∧ (∀ j < k, ¬Overflows pipes program j) ∧ reads program k ≤ reads program i := by
  classical
  let k := Nat.find (⟨i, h⟩ : ∃ j, Overflows pipes program j)
  have hk : Overflows pipes program k := Nat.find_spec (⟨i, h⟩ : ∃ j, Overflows pipes program j)
  have hle : k ≤ i := Nat.find_min' (⟨i, h⟩ : ∃ j, Overflows pipes program j) h
  exact ⟨k, hk, fun j hj => Nat.find_min (⟨i, h⟩ : ∃ j, Overflows pipes program j) hj,
    Nat.count_monotone _ hle⟩

theorem reach_closed (h : toWrite platform opts ≤ pipes.stdin) (elapsed : ℕ) :
    Reachable platform pipes opts program
      { phase := afterWrite platform elapsed, stdinOpen := false, inLevel := toWrite platform opts,
        elapsed := elapsed } := by
  have hwritten : Reachable platform pipes opts program
      { phase := .writing 0, inLevel := toWrite platform opts } := by
    by_cases hpos : 0 < toWrite platform opts
    · have hstart : Reachable platform pipes opts program (start platform opts) := Relation.ReflTransGen.refl
      refine hstart.next (Step.write rfl rfl hpos (Nat.le_refl _) (by simpa [start] using h)) ?_
      simp [start]
    · have hzero : toWrite platform opts = 0 := by omega
      have hstart : start platform opts = { phase := .writing 0, inLevel := toWrite platform opts } := by
        simp [start, hzero]
      rw [← hstart]
      exact Relation.ReflTransGen.refl
  have hlater : Reachable platform pipes opts program
      { phase := .writing 0, inLevel := toWrite platform opts, elapsed := elapsed } := by
    induction elapsed with
    | zero => exact hwritten
    | succ elapsed ih => exact ih.next Step.tick rfl
  exact hlater.next (Step.closeStdin rfl) rfl

theorem unbounded_writing (hmore : pipes.stdin < toWrite platform opts) :
    ∃ s, Reachable platform pipes opts program s ∧ ParentBlocked pipes s ∧ ¬DeadlineApplies opts s := by
  have hzero : reads program 0 = 0 := Nat.count_zero _
  have hfed : Reachable platform pipes opts program (fed platform opts program 0) :=
    reach_fed (fun j hj => absurd hj (Nat.not_lt_zero j)) (fun j hj => absurd hj (Nat.not_lt_zero j)) (by omega)
  obtain ⟨s, rem, hs, hphase, hrem, hin, halive, _, _⟩ := reach_full hfed (by omega)
  refine ⟨s, hs, ⟨halive, ?_⟩, ?_⟩
  · rw [hphase]
    exact ⟨hrem, Nat.le_of_eq hin⟩
  · unfold DeadlineApplies
    rw [hphase]
    exact id

theorem unbounded_polling (h : toWrite .posix opts ≤ pipes.stdin) (elapsed : ℕ)
    (hforever : pollTimeout opts elapsed < 0) :
    ∃ s, Reachable .posix pipes opts program s ∧ ParentBlocked pipes s ∧ ¬DeadlineApplies opts s :=
  ⟨_, reach_closed h elapsed, ⟨rfl, fun _ => rfl⟩, Int.not_le.mpr hforever⟩

theorem unbounded_waiting (h : toWrite .windows opts ≤ pipes.stdin) (hforever : waitMs opts = infinite) :
    ∃ s, Reachable .windows pipes opts program s ∧ ParentBlocked pipes s ∧ ¬DeadlineApplies opts s :=
  ⟨_, reach_closed h 0, ⟨rfl, trivial⟩, fun hlimit => hlimit hforever⟩

theorem pollTimeout_wraps (h : opts.timeout < 0 ∨ 2 ^ 31 ≤ opts.timeout) :
    ∃ elapsed, pollTimeout opts elapsed < 0 := by
  unfold pollTimeout
  rcases h with hneg | hlarge
  · refine ⟨0, ?_⟩
    rw [if_neg (by omega)]
    decide
  · refine ⟨(opts.timeout - 2 ^ 31).toNat, ?_⟩
    have hremain : opts.timeout - ((opts.timeout - 2 ^ 31).toNat : ℤ) = 2 ^ 31 := by omega
    rw [if_pos (by omega), hremain]
    decide

/-- On Windows the parent waits with stdin closed while the child is somewhere behind its last byte. -/
def starved (program : Program) (k : ℕ) : State where
  phase := .waiting 0
  stdinOpen := false
  level := fun stream => writes program stream k
  pc := k

theorem reach_starved {k : ℕ} (hruns : ∀ j < k, program j ≠ none) (hfits : ∀ j < k, ¬Overflows pipes program j)
    (hreads : toWrite .windows opts ≤ reads program k) :
    Reachable .windows pipes opts program (starved program k) := by
  -- with as many reads as bytes the pipe has just run dry
  have hclose : ∀ k, (∀ j < k, program j ≠ none) → (∀ j < k, ¬Overflows pipes program j) →
      toWrite .windows opts = reads program k → Reachable .windows pipes opts program (starved program k) := by
    intro k hruns hfits heq
    have hfed : Reachable .windows pipes opts program (fed .windows opts program k) :=
      reach_fed hruns hfits (by omega)
    refine hfed.next (Step.closeStdin ?_) rfl
    simp [fed, heq]
  induction k with
  | zero =>
    have hzero : reads program 0 = 0 := Nat.count_zero _
    exact hclose 0 hruns hfits (by omega)
  | succ k ih =>
    by_cases hdry : toWrite .windows opts ≤ reads program k
    · have hbefore := ih (fun j hj => hruns j (by omega)) (fun j hj => hfits j (by omega)) hdry
      cases hop : program k with
      | none => exact absurd hop (hruns k (by omega))
      | some op =>
        cases op with
        | read =>
          refine hbefore.next (Step.childEnd rfl hop rfl rfl) ?_
          have hlevel : (fun stream => writes program stream k) = fun stream => writes program stream (k + 1) :=
            funext fun stream => (writes_read hop stream).symm
          simp only [starved, hlevel]
        | write stream =>
          have hroom : writes program stream k < pipes.output stream := by
            by_contra hfull
            exact hfits k (by omega) ⟨fun j hj => hruns j (by omega), stream, hop, by omega⟩
          refine hbefore.next (Step.childWrite rfl hop hroom) ?_
          simp only [starved, writes_update hop]
    · have hstep : reads program (k + 1) ≤ reads program k + 1 := by
        rw [reads_succ]
        split <;> omega
      exact hclose (k + 1) hruns hfits (by omega)

theorem deadlock_windows {k : ℕ} (hover : Overflows pipes program k)
    (hfits : ∀ j < k, ¬Overflows pipes program j) :
    ∃ s, Reachable .windows pipes opts program s ∧ Deadlocked pipes program s := by
  by_cases hmore : pipes.stdin + reads program k < toWrite .windows opts
  · exact deadlock_writing hover hfits hmore
  · by_cases hreads : toWrite .windows opts ≤ reads program k
    · exact ⟨_, reach_starved hover.1 hfits hreads, ⟨rfl, trivial⟩, childBlocked_of hover rfl rfl rfl⟩
    · have hfed : Reachable .windows pipes opts program (fed .windows opts program k) :=
        reach_fed hover.1 hfits (by omega)
      have hwritten := hfed.next (Step.write (n := toWrite .windows opts - reads program k) rfl rfl (by omega)
        (Nat.le_refl _) (show 0 + (toWrite .windows opts - reads program k) ≤ pipes.stdin by omega)) rfl
      have hclosed := hwritten.next (Step.closeStdin (by simp)) rfl
      exact ⟨_, hclosed, ⟨rfl, trivial⟩, childBlocked_of hover rfl rfl rfl⟩

theorem sized_of_neverStuck (h : NeverStuck platform pipes opts program) : Sized pipes program platform opts := by
  have hdead : ¬∃ s, Reachable platform pipes opts program s ∧ Deadlocked pipes program s := by
    rintro ⟨s, hs, hd⟩
    exact (h s hs).1 hd
  have hbound : opts.timeout ≠ 0 →
      ¬∃ s, Reachable platform pipes opts program s ∧ ParentBlocked pipes s ∧ ¬DeadlineApplies opts s := by
    rintro htimeout ⟨s, hs, hblocked, hforever⟩
    exact hforever ((h s hs).2 htimeout hblocked)
  cases platform with
  | posix =>
    constructor
    · intro i hi
      by_contra hmore
      obtain ⟨k, hk, hfits, hreads⟩ := first_overflow hi
      exact hdead (deadlock_writing hk hfits (by omega))
    · by_contra hcond
      have htimeout : opts.timeout ≠ 0 := fun hzero => hcond (Or.inl hzero)
      by_cases hroom : toWrite .posix opts ≤ pipes.stdin
      · have hrange : opts.timeout < 0 ∨ 2 ^ 31 ≤ opts.timeout := by
          by_contra hin
          exact hcond (Or.inr ⟨hroom, by omega, by omega⟩)
        obtain ⟨elapsed, hforever⟩ := pollTimeout_wraps hrange
        exact hbound htimeout (unbounded_polling hroom elapsed hforever)
      · exact hbound htimeout (unbounded_writing (by omega))
  | windows =>
    constructor
    · intro i hi
      obtain ⟨k, hk, hfits, _⟩ := first_overflow hi
      exact hdead (deadlock_windows hk hfits)
    · by_contra hcond
      have htimeout : opts.timeout ≠ 0 := fun hzero => hcond (Or.inl hzero)
      by_cases hroom : toWrite .windows opts ≤ pipes.stdin
      · have hforever : waitMs opts = infinite := by
          unfold waitMs
          by_cases hpos : opts.timeout > 0
          · rw [if_pos hpos]
            by_contra hfinite
            exact hcond (Or.inr ⟨hroom, hpos, hfinite⟩)
          · rw [if_neg hpos]
        exact hbound htimeout (unbounded_waiting hroom hforever)
      · exact hbound htimeout (unbounded_writing (by omega))

end

/-- For every child, parent and child never block each other, and a timeout bounds every wait, exactly when the
sizes fit. -/
theorem never_stuck_iff (platform : Platform) (pipes : Pipes) (opts : SubprocessOptions) (program : Program) :
    NeverStuck platform pipes opts program ↔ Sized pipes program platform opts :=
  ⟨sized_of_neverStuck, neverStuck_of_sized⟩

/-! ## A deadlock lasts -/

theorem Deadlocked.forever {platform : Platform} {pipes : Pipes} {opts : SubprocessOptions} {program : Program}
    {s s' : State} (h : Deadlocked pipes program s) (hforever : ¬DeadlineApplies opts s)
    (hsteps : Relation.ReflTransGen (Step platform pipes opts program) s s') :
    Deadlocked pipes program s' ∧ ¬DeadlineApplies opts s' := by
  induction hsteps with
  | refl => exact ⟨h, hforever⟩
  | @tail s s' _ hstep ih =>
    obtain ⟨⟨⟨halive, hparent⟩, ⟨_, hchild⟩⟩, hnone⟩ := ih
    unfold DeadlineApplies at hnone
    cases hstep with
    | write hphase _ hpos hrem hroom =>
      rw [hphase] at hparent
      omega
    | brokenPipe _ hdead => exact absurd (hdead.symm.trans halive) Bool.false_ne_true
    | closeStdin hphase =>
      rw [hphase] at hparent
      exact absurd hparent.1 (Nat.lt_irrefl 0)
    | drain stream hphase hdata =>
      rw [hphase] at hparent
      have hempty := hparent stream
      omega
    | hangUp _ hdead => exact absurd (hdead.symm.trans halive) Bool.false_ne_true
    | expirePoll hphase _ _ hlimit =>
      rw [hphase] at hnone
      exact absurd hlimit hnone
    | reap _ hdead => exact absurd (hdead.symm.trans halive) Bool.false_ne_true
    | exited _ hdead => exact absurd (hdead.symm.trans halive) Bool.false_ne_true
    | expireWait hphase _ hlimit =>
      rw [hphase] at hnone
      exact absurd hlimit hnone
    | tick => exact ⟨⟨⟨halive, hparent⟩, ⟨halive, hchild⟩⟩, hnone⟩
    | childRead _ hop hdata =>
      rw [hop] at hchild
      omega
    | childEnd _ hop _ hclosed =>
      rw [hop] at hchild
      exact absurd (hclosed.symm.trans hchild.2) Bool.false_ne_true
    | childWrite _ hop hroom =>
      rw [hop] at hchild
      omega
    | childExit _ hop =>
      rw [hop] at hchild
      exact hchild.elim

/-! ## Children that talk too much -/

def usualPipes : Pipes where
  stdin := 65536
  output _ := 65536
  stdin_pos := by decide
  output_pos _ := by decide

/-- Writes to stdout for ever and never reads. -/
def talker : Program := fun _ => some (.write .out)

theorem talker_overflows : Overflows usualPipes talker 65536 := by
  refine ⟨fun _ _ => Option.some_ne_none _, .out, rfl, ?_⟩
  show 65536 ≤ Nat.count (fun _ => some (ChildOp.write .out) = some (.write .out)) 65536
  rw [Nat.count_of_forall fun _ _ => rfl]

theorem talker_reads (k : ℕ) : reads talker k = 0 := by
  have hnever : ∀ i < k, ¬talker i = some .read := by
    intro i _ heq
    injection heq with heq
    cases heq
  exact Nat.count_of_forall_not hnever

def longInput : SubprocessOptions where
  stdinBytes := List.replicate 65537 0

/-- A long input on POSIX, and any child that talks too much on Windows. -/
theorem talker_deadlocks :
    ¬NeverStuck .posix usualPipes longInput talker ∧ ¬NeverStuck .windows usualPipes {} talker := by
  obtain ⟨k, hk, hfits, hreads⟩ := first_overflow talker_overflows
  constructor
  · intro h
    have hlong : usualPipes.stdin + reads talker k < toWrite .posix longInput := by
      rw [talker_reads]
      show 65536 + 0 < (List.replicate 65537 (0 : UInt8)).length
      rw [List.length_replicate]
      omega
    obtain ⟨s, hs, hdead⟩ := deadlock_writing hk hfits hlong
    exact (h s hs).1 hdead
  · intro h
    obtain ⟨s, hs, hdead⟩ := deadlock_windows hk hfits
    exact (h s hs).1 hdead

end Souxmar.PluginHost.Subprocess
