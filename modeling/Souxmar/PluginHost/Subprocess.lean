import Mathlib.Algebra.Group.Int.Defs
import Mathlib.Algebra.Group.Nat.Defs
import Mathlib.Logic.Function.Basic
import Mathlib.Logic.Relation
import Mathlib.Data.Nat.Count

/-!
# Running a child process

The part of `subprocess.cpp` in which the parent waits: `run_posix` writes all of stdin, polls the two output
pipes until both hang up and then waits for the child; `run_windows` writes all of stdin, waits for the process
and only then reads. Parent and child take their steps in any order, one byte at a time where that is finer. Of a
pipe only the number of bytes in it counts; what is captured of them, and the child's status, are left out. The
steady clock has room for the deadline, and `poll` fails with `EINTR` only.
-/

namespace Souxmar.PluginHost.Subprocess

inductive Platform
  | posix
  | windows
deriving DecidableEq

inductive Stream
  | out
  | err
deriving DecidableEq

inductive ChildOp
  | read
  | write (stream : Stream)
deriving DecidableEq

/-- What the child does, byte by byte. It exits where there is no operation. -/
abbrev Program := ℕ → Option ChildOp

/-- The capacities of the three pipes. -/
structure Pipes where
  stdin : ℕ
  output : Stream → ℕ
  stdin_pos : 0 < stdin
  output_pos : ∀ stream, 0 < output stream

structure SubprocessOptions where
  /-- Milliseconds. -/
  timeout : ℤ := 0
  stdinBytes : List UInt8 := []

inductive Phase
  /-- In `write` or `WriteFile`, with so many bytes to go. -/
  | writing (rem : ℕ)
  /-- In `poll`, called when so many milliseconds had passed. -/
  | polling (since : ℕ)
  /-- In `waitpid`. -/
  | reaping
  /-- In `WaitForSingleObject`. -/
  | waiting (since : ℕ)
  | finished
deriving DecidableEq

structure State where
  phase : Phase
  stdinOpen : Bool := true
  inLevel : ℕ := 0
  level : Stream → ℕ := fun _ => 0
  pc : ℕ := 0
  alive : Bool := true
  elapsed : ℕ := 0

section

variable (platform : Platform) (pipes : Pipes) (opts : SubprocessOptions) (program : Program)

/-- `WriteFile` takes its length as a `DWORD`. -/
def toWrite : ℕ :=
  match platform with
  | .posix => opts.stdinBytes.length
  | .windows => opts.stdinBytes.length % 2 ^ 32

/-- `timeout_ms`: what is left until the deadline, cast to `int`; a negative one waits forever. -/
def pollTimeout (elapsed : ℕ) : ℤ :=
  if opts.timeout > 0 then
    let remain := opts.timeout - elapsed
    if remain > 0 then Int.bmod remain (2 ^ 32) else 0
  else -1

def infinite : ℤ := 2 ^ 32 - 1

/-- `wait_ms`: the timeout cast to `DWORD`. -/
def waitMs : ℤ := if opts.timeout > 0 then opts.timeout % 2 ^ 32 else infinite

/-- Where the parent goes when it has closed stdin. -/
def afterWrite (elapsed : ℕ) : Phase :=
  match platform with
  | .posix => .polling elapsed
  | .windows => .waiting elapsed

def start : State where
  phase := .writing (toWrite platform opts)

inductive Step : State → State → Prop
  | write {s : State} {rem n : ℕ} (hphase : s.phase = .writing rem) (halive : s.alive = true) (hpos : 0 < n)
    (hrem : n ≤ rem) (hroom : s.inLevel + n ≤ pipes.stdin) :
    Step s { s with phase := .writing (rem - n), inLevel := s.inLevel + n }
  /-- The write fails, and the loop ends. -/
  | brokenPipe {s : State} {rem : ℕ} (hphase : s.phase = .writing rem) (hdead : s.alive = false) :
    Step s { s with phase := .writing 0 }
  | closeStdin {s : State} (hphase : s.phase = .writing 0) :
    Step s { s with phase := afterWrite platform s.elapsed, stdinOpen := false }
  | drain {s : State} {since : ℕ} (stream : Stream) (hphase : s.phase = .polling since)
    (hdata : 0 < s.level stream) :
    Step s { s with phase := .polling s.elapsed, level := Function.update s.level stream 0 }
  /-- Both ends hang up when the child is gone. -/
  | hangUp {s : State} {since : ℕ} (hphase : s.phase = .polling since) (hdead : s.alive = false)
    (hempty : ∀ stream, s.level stream = 0) : Step s { s with phase := .reaping }
  /-- `poll` returns zero, and the child is killed. -/
  | expirePoll {s : State} {since : ℕ} (hphase : s.phase = .polling since) (halive : s.alive = true)
    (hempty : ∀ stream, s.level stream = 0) (hlimit : 0 ≤ pollTimeout opts since)
    (hlate : since + pollTimeout opts since ≤ s.elapsed) :
    Step s { s with phase := .reaping, alive := false }
  | reap {s : State} (hphase : s.phase = .reaping) (hdead : s.alive = false) :
    Step s { s with phase := .finished }
  /-- The process has ended, and both pipes are read to their ends. -/
  | exited {s : State} {since : ℕ} (hphase : s.phase = .waiting since) (hdead : s.alive = false) :
    Step s { s with phase := .finished, level := fun _ => 0 }
  /-- `WAIT_TIMEOUT`, and the child is terminated. -/
  | expireWait {s : State} {since : ℕ} (hphase : s.phase = .waiting since) (halive : s.alive = true)
    (hlimit : waitMs opts ≠ infinite) (hlate : since + waitMs opts ≤ s.elapsed) :
    Step s { s with phase := .finished, alive := false, level := fun _ => 0 }
  | tick {s : State} : Step s { s with elapsed := s.elapsed + 1 }
  | childRead {s : State} (halive : s.alive = true) (hop : program s.pc = some .read) (hdata : 0 < s.inLevel) :
    Step s { s with inLevel := s.inLevel - 1, pc := s.pc + 1 }
  /-- `read` returns zero. -/
  | childEnd {s : State} (halive : s.alive = true) (hop : program s.pc = some .read) (hempty : s.inLevel = 0)
    (hclosed : s.stdinOpen = false) : Step s { s with pc := s.pc + 1 }
  | childWrite {s : State} {stream : Stream} (halive : s.alive = true)
    (hop : program s.pc = some (.write stream)) (hroom : s.level stream < pipes.output stream) :
    Step s { s with level := Function.update s.level stream (s.level stream + 1), pc := s.pc + 1 }
  | childExit {s : State} (halive : s.alive = true) (hop : program s.pc = none) :
    Step s { s with alive := false }

def Reachable (s : State) : Prop := Relation.ReflTransGen (Step platform pipes opts program) (start platform opts) s

/-! ## Who waits for whom -/

/-- The parent is in a call that does not return before the child does something. -/
def ParentBlocked (s : State) : Prop :=
  s.alive = true ∧
    match s.phase with
    | .writing rem => 0 < rem ∧ pipes.stdin ≤ s.inLevel
    | .polling _ => ∀ stream, s.level stream = 0
    | .reaping => True
    | .waiting _ => True
    | .finished => False

/-- The child is in a call that does not return before the parent does something. -/
def ChildBlocked (s : State) : Prop :=
  s.alive = true ∧
    match program s.pc with
    | some .read => s.inLevel = 0 ∧ s.stdinOpen = true
    | some (.write stream) => pipes.output stream ≤ s.level stream
    | none => False

def Deadlocked (s : State) : Prop := ParentBlocked pipes s ∧ ChildBlocked pipes program s

/-- The call of the parent returns by itself when the time is up. -/
def DeadlineApplies (s : State) : Prop :=
  match s.phase with
  | .writing _ => False
  | .polling since => 0 ≤ pollTimeout opts since
  | .reaping => False
  | .waiting _ => waitMs opts ≠ infinite
  | .finished => True

/-- No deadlock is reachable, and with a timeout the parent never waits for the child without a deadline. -/
def NeverStuck : Prop :=
  ∀ s, Reachable platform pipes opts program s →
    ¬Deadlocked pipes program s ∧ (opts.timeout ≠ 0 → ParentBlocked pipes s → DeadlineApplies opts s)

end

end Souxmar.PluginHost.Subprocess
