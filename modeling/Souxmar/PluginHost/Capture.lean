import Souxmar.Lib.Run
import Souxmar.PluginHost.Subprocess

/-!
# What is captured of a child's output

The poll loop of `run_posix` with the bytes that go through the two output pipes, and `drain_handle` of
`run_windows`. The child writes and closes between any two calls of the parent. `drain_fd_capped` starts
with an empty buffer in every poll round, so the cap holds for one call of it, not for the stream.
-/

namespace Souxmar.PluginHost.Capture

open Souxmar.Lib Souxmar.PluginHost.Subprocess

/-! ## The drain helpers -/

structure DrainResult where
  bytes : List UInt8 := []
  truncated : Bool := false
deriving DecidableEq, Repr

/-- The chunk is appended, as far as the cap allows; `true` when the loop goes on. -/
def DrainResult.absorb (cap : ℕ) (r : DrainResult) (chunk : List UInt8) : DrainResult × Bool :=
  if cap = 0 ∨ r.bytes.length + chunk.length ≤ cap then
    ({ r with bytes := r.bytes ++ chunk }, true)
  else
    let remaining := cap - r.bytes.length
    ({ bytes := r.bytes ++ chunk.take remaining, truncated := true }, false)

/-- The loop of `drain_handle` over what `ReadFile` returns until the pipe is broken. -/
def drainHandle (cap : ℕ) (r : DrainResult) : List (List UInt8) → DrainResult
  | [] => r
  | chunk :: chunks =>
    let (r, goOn) := r.absorb cap chunk
    if goOn then drainHandle cap r chunks else r

/-! ## The poll loop -/

/-- One output pipe. `written` and `calls` are only looked at by the statements: what the child has written so
far, and what each call of `drain_fd_capped` on the pipe has read. -/
structure StreamState where
  written : List UInt8 := []
  pipe : List UInt8 := []
  writeEnd : Bool := true
  readEnd : Bool := true
  drain : DrainResult := {}
  calls : List (List UInt8) := []

/-- A call of `drain_fd_capped`: whether the descriptor is closed behind it, what was read (for `calls`), the
result so far, and the descriptors to go in this round. -/
structure DrainCall where
  stream : Stream
  closing : Bool
  got : List UInt8 := []
  result : DrainResult := {}
  todo : List (Stream × Bool)

inductive Phase
  | polling
  | round (todo : List (Stream × Bool))
  | reading (call : DrainCall)
  /-- Over the cap, in the inner loop. -/
  | sinking (call : DrainCall)
  | finished

structure State where
  phase : Phase := .polling
  streams : Stream → StreamState := fun _ => {}

namespace State

variable (st : State)

def set (s : Stream) (f : StreamState → StreamState) : State :=
  { st with streams := Function.update st.streams s (f (st.streams s)) }

/-- The descriptors in the order in which `fds` is filled. -/
def openStreams : List Stream := [Stream.out, Stream.err].filter fun s => (st.streams s).readEnd

/-- What `poll` reports: data, or that the other end is closed (`true`). -/
def ready : List (Stream × Bool) :=
  (st.openStreams.filter fun s => !(st.streams s).pipe.isEmpty || !(st.streams s).writeEnd).map
    fun s => (s, !(st.streams s).writeEnd)

end State

inductive Action
  | childWrite (s : Stream) (bytes : List UInt8)
  | childClose (s : Stream)
  /-- `poll` returns with events. -/
  | poll
  /-- `poll` returns zero, and the child is killed. -/
  | expire
  | nextFd
  /-- `read` returns so many bytes, as far as they are there. -/
  | read (count : ℕ)
  /-- `read` does not return data: there is none, or a signal interrupted it. -/
  | noData

def childWrite (st : State) (s : Stream) (bytes : List UInt8) : State :=
  if (st.streams s).writeEnd then
    st.set s fun σ => { σ with written := σ.written ++ bytes, pipe := σ.pipe ++ bytes }
  else st

def childClose (st : State) (s : Stream) : State := st.set s fun σ => { σ with writeEnd := false }

def poll (st : State) : State :=
  match st.phase with
  | .polling =>
    if st.openStreams.isEmpty then { st with phase := .finished }
    else if st.ready.isEmpty then st
    else { st with phase := .round st.ready }
  | _ => st

/-- A child that was killed writes nothing more. Both descriptors are drained and closed behind the loop. -/
def expire (st : State) : State :=
  match st.phase with
  | .polling =>
    { childClose (childClose st .out) .err with phase := .round (st.openStreams.map fun s => (s, true)) }
  | _ => st

def nextFd (st : State) : State :=
  match st.phase with
  | .round [] => { st with phase := .polling }
  | .round ((stream, closing) :: todo) => { st with phase := .reading { stream, closing, todo } }
  | _ => st

/-- The result of a call is appended to what was captured before, and the descriptor closed. -/
def StreamState.addCall (σ : StreamState) (call : DrainCall) : StreamState :=
  { σ with
    drain := { bytes := σ.drain.bytes ++ call.result.bytes,
               truncated := σ.drain.truncated || call.result.truncated }
    calls := σ.calls ++ [call.got]
    readEnd := if call.closing then false else σ.readEnd }

def finishCall (st : State) (call : DrainCall) : State :=
  { st.set call.stream (fun σ => σ.addCall call) with phase := .round call.todo }

def read (cap : ℕ) (st : State) (count : ℕ) : State :=
  match st.phase with
  | .reading call =>
    let chunk := (st.streams call.stream).pipe.take (min count 4096)
    let st := st.set call.stream fun σ => { σ with pipe := σ.pipe.drop (min count 4096) }
    let (result, goOn) := call.result.absorb cap chunk
    let call := { call with got := call.got ++ chunk, result }
    { st with phase := if goOn then .reading call else .sinking call }
  | .sinking call =>
    let chunk := (st.streams call.stream).pipe.take (min count 4096)
    let st := st.set call.stream fun σ => { σ with pipe := σ.pipe.drop (min count 4096) }
    { st with phase := .sinking { call with got := call.got ++ chunk } }
  | _ => st

def noData (st : State) : State :=
  match st.phase with
  | .reading call =>
    -- an interrupted call is made again
    if (st.streams call.stream).pipe.isEmpty then finishCall st call else st
  | .sinking call => finishCall st call
  | _ => st

/-- An action that does not fit the phase changes nothing. -/
def step (cap : ℕ) (st : State) : Action → State
  | .childWrite s bytes => childWrite st s bytes
  | .childClose s => childClose st s
  | .poll => poll st
  | .expire => expire st
  | .nextFd => nextFd st
  | .read count => read cap st count
  | .noData => noData st

/-! ## One stream -/

/-- What the call in progress has read of the stream. -/
def Phase.got (p : Phase) (s : Stream) : List UInt8 :=
  match p with
  | .reading call => if call.stream = s then call.got else []
  | .sinking call => if call.stream = s then call.got else []
  | _ => []

/-- Nothing is lost or reordered on the way, each call keeps what the cap allows of what it read, and a closed
descriptor was read to the end of the stream or beyond the cap. -/
structure StreamInv (cap : ℕ) (σ : StreamState) (got : List UInt8) : Prop where
  conserved : σ.calls.flatten ++ got ++ σ.pipe = σ.written
  bytes : σ.drain.bytes = (σ.calls.map (List.take cap)).flatten
  truncated : σ.drain.truncated = σ.calls.any fun c => cap < c.length
  closed : σ.readEnd = false → σ.writeEnd = false ∧ (σ.pipe = [] ∨ ∃ c ∈ σ.calls, cap < c.length)

namespace StreamInv

variable {cap : ℕ} {σ : StreamState} {got : List UInt8}

theorem write (h : StreamInv cap σ got) (hopen : σ.writeEnd = true) (bytes : List UInt8) :
    StreamInv cap { σ with written := σ.written ++ bytes, pipe := σ.pipe ++ bytes } got where
  conserved := by
    dsimp only
    rw [← List.append_assoc, h.conserved]
  bytes := h.bytes
  truncated := h.truncated
  closed hclosed := by
    rw [(h.closed hclosed).1] at hopen
    exact Bool.noConfusion hopen

theorem closeWrite (h : StreamInv cap σ got) : StreamInv cap { σ with writeEnd := false } got :=
  ⟨h.conserved, h.bytes, h.truncated, fun hclosed => ⟨rfl, (h.closed hclosed).2⟩⟩

theorem take (h : StreamInv cap σ got) (n : ℕ) :
    StreamInv cap { σ with pipe := σ.pipe.drop n } (got ++ σ.pipe.take n) where
  conserved := by
    dsimp only
    rw [← h.conserved, List.append_assoc, List.append_assoc, List.append_assoc,
      List.take_append_drop]
  bytes := h.bytes
  truncated := h.truncated
  closed hclosed := by
    refine (h.closed hclosed).imp id (Or.imp_left fun hpipe => ?_)
    dsimp only
    rw [hpipe, List.drop_nil]

theorem finish {call : DrainCall} (h : StreamInv cap σ call.got)
    (hbytes : call.result.bytes = call.got.take cap)
    (htruncated : call.result.truncated = decide (cap < call.got.length))
    (hclosing : call.closing = true → σ.writeEnd = false ∧ (σ.pipe = [] ∨ cap < call.got.length)) :
    StreamInv cap (σ.addCall call) [] where
  conserved := by
    unfold StreamState.addCall
    dsimp only
    rw [List.flatten_append, List.flatten_singleton, List.append_nil, h.conserved]
  bytes := by
    unfold StreamState.addCall
    dsimp only
    rw [h.bytes, hbytes, List.map_append, List.flatten_append, List.map_singleton,
      List.flatten_singleton]
  truncated := by
    unfold StreamState.addCall
    dsimp only
    rw [h.truncated, htruncated, List.any_append, List.any_cons, List.any_nil, Bool.or_false]
  closed hclosed := by
    unfold StreamState.addCall at hclosed ⊢
    dsimp only at hclosed ⊢
    by_cases hcall : call.closing = true
    · refine (hclosing hcall).imp id (Or.imp_right fun hlong => ?_)
      exact ⟨call.got, List.mem_append_right _ (List.mem_singleton_self call.got), hlong⟩
    · rw [if_neg hcall] at hclosed
      refine (h.closed hclosed).imp id (Or.imp_right ?_)
      rintro ⟨c, hc, hlong⟩
      exact ⟨c, List.mem_append_left _ hc, hlong⟩

end StreamInv

/-! ## Both streams -/

section

variable {cap : ℕ} {streams streams' : Stream → StreamState} {st : State}

/-- The descriptors that are closed behind a call belong to pipes whose other end is closed. -/
def HungUp (streams : Stream → StreamState) (todo : List (Stream × Bool)) : Prop :=
  ∀ p ∈ todo, p.2 = true → (streams p.1).writeEnd = false

/-- What holds of the phase: how far the call in progress is. -/
def PhaseInv (cap : ℕ) (streams : Stream → StreamState) : Phase → Prop
  | .polling => True
  | .round todo => HungUp streams todo
  | .reading call => HungUp streams ((call.stream, call.closing) :: call.todo) ∧
      call.result.bytes = call.got ∧ call.result.truncated = false ∧ call.got.length ≤ cap
  | .sinking call => HungUp streams ((call.stream, call.closing) :: call.todo) ∧
      call.result.bytes = call.got.take cap ∧ call.result.truncated = true ∧ cap < call.got.length
  | .finished => ∀ s, (streams s).readEnd = false

structure Inv (cap : ℕ) (st : State) : Prop where
  stream : ∀ s, StreamInv cap (st.streams s) (st.phase.got s)
  phase : PhaseInv cap st.streams st.phase

theorem start_inv (cap : ℕ) : Inv cap {} :=
  ⟨fun _ => ⟨rfl, rfl, rfl, fun h => Bool.noConfusion h⟩, trivial⟩

theorem HungUp.mono {todo : List (Stream × Bool)} (h : HungUp streams todo)
    (hwrite : ∀ s, (streams s).writeEnd = false → (streams' s).writeEnd = false) :
    HungUp streams' todo := fun p hp hclosing => hwrite p.1 (h p hp hclosing)

theorem PhaseInv.mono {phase : Phase} (h : PhaseInv cap streams phase)
    (hread : ∀ s, (streams s).readEnd = false → (streams' s).readEnd = false)
    (hwrite : ∀ s, (streams s).writeEnd = false → (streams' s).writeEnd = false) :
    PhaseInv cap streams' phase := by
  cases phase with
  | polling => trivial
  | round todo => exact HungUp.mono h hwrite
  | reading call => exact ⟨h.1.mono hwrite, h.2⟩
  | sinking call => exact ⟨h.1.mono hwrite, h.2⟩
  | finished => exact fun s => hread s (h s)

theorem set_streams (s : Stream) (f : StreamState → StreamState) (s' : Stream) :
    ((st.set s f).streams s') = if s' = s then f (st.streams s) else st.streams s' := by
  unfold State.set
  by_cases h : s' = s
  · rw [h, if_pos rfl]
    exact Function.update_self ..
  · rw [if_neg h]
    exact Function.update_of_ne h ..

theorem set_closed {s : Stream} {f : StreamState → StreamState} (P : StreamState → Bool)
    (h : P (st.streams s) = false → P (f (st.streams s)) = false) (s' : Stream)
    (hs' : P (st.streams s') = false) : P ((st.set s f).streams s') = false := by
  rw [set_streams]
  split_ifs with heq
  · exact h (heq ▸ hs')
  · exact hs'

theorem HungUp.set (st : State) {todo : List (Stream × Bool)} (h : HungUp st.streams todo) (s : Stream)
    {f : StreamState → StreamState} (hf : ∀ σ, (f σ).writeEnd = σ.writeEnd) :
    HungUp (st.set s f).streams todo :=
  h.mono (set_closed StreamState.writeEnd fun hwrite => (hf _).trans hwrite)

/-! ## The steps -/

theorem Inv.childWrite (h : Inv cap st) (s : Stream) (bytes : List UInt8) :
    Inv cap (childWrite st s bytes) := by
  unfold Capture.childWrite
  split_ifs with hopen
  · refine ⟨fun s' => ?_, h.phase.mono (set_closed StreamState.readEnd fun hread => hread)
      (set_closed StreamState.writeEnd fun hwrite => hwrite)⟩
    rw [set_streams]
    split_ifs with heq
    · rw [heq]
      exact (h.stream s).write hopen bytes
    · exact h.stream s'
  · exact h

theorem Inv.childClose (h : Inv cap st) (s : Stream) : Inv cap (childClose st s) := by
  refine ⟨fun s' => ?_, h.phase.mono (set_closed StreamState.readEnd fun hread => hread)
    (set_closed StreamState.writeEnd fun _ => rfl)⟩
  unfold Capture.childClose
  rw [set_streams]
  split_ifs with heq
  · rw [heq]
    exact (h.stream s).closeWrite
  · exact h.stream s'

theorem Inv.poll (h : Inv cap st) : Inv cap (poll st) := by
  obtain ⟨phase, streams⟩ := st
  cases phase with
  | polling =>
    unfold Capture.poll
    dsimp only
    split_ifs with hnone hready
    · refine ⟨h.stream, fun s => ?_⟩
      rw [List.isEmpty_iff, State.openStreams, List.filter_eq_nil_iff] at hnone
      have hall : s ∈ [Stream.out, Stream.err] := by cases s <;> simp
      exact Bool.eq_false_iff.mpr (hnone s hall)
    · exact h
    · refine ⟨h.stream, ?_⟩
      rintro p hp hclosing
      obtain ⟨s, -, rfl⟩ := List.mem_map.mp hp
      exact Bool.not_eq_true' _ ▸ hclosing
  | round todo => exact h
  | reading call => exact h
  | sinking call => exact h
  | finished => exact h

theorem Inv.expire (h : Inv cap st) : Inv cap (expire st) := by
  obtain ⟨phase, streams⟩ := st
  cases phase with
  | polling =>
    have hclosed := (h.childClose .out).childClose .err
    refine ⟨hclosed.stream, ?_⟩
    rintro p hp -
    show ((Capture.childClose (Capture.childClose _ .out) .err).streams p.1).writeEnd = false
    unfold Capture.childClose
    cases p.1 with
    | out => rw [set_streams, if_neg (by decide), set_streams, if_pos rfl]
    | err => rw [set_streams, if_pos rfl]
  | round todo => exact h
  | reading call => exact h
  | sinking call => exact h
  | finished => exact h

theorem Inv.nextFd (h : Inv cap st) : Inv cap (nextFd st) := by
  obtain ⟨phase, streams⟩ := st
  cases phase with
  | polling => exact h
  | round todo =>
    cases todo with
    | nil => exact ⟨h.stream, trivial⟩
    | cons p todo =>
      obtain ⟨s, closing⟩ := p
      refine ⟨fun s' => ?_, h.phase, rfl, rfl, Nat.zero_le cap⟩
      have hgot : (nextFd ⟨.round ((s, closing) :: todo), streams⟩).phase.got s' = [] := by
        show (if s = s' then [] else []) = ([] : List UInt8)
        split_ifs <;> rfl
      rw [hgot]
      exact h.stream s'
  | reading call => exact h
  | sinking call => exact h
  | finished => exact h

theorem absorb_reading (hcap : 0 < cap) {r : DrainResult} {got : List UInt8} (hbytes : r.bytes = got)
    (htruncated : r.truncated = false) (hlen : got.length ≤ cap) (chunk : List UInt8) :
    ((r.absorb cap chunk).2 = true ∧ (r.absorb cap chunk).1.bytes = got ++ chunk ∧
      (r.absorb cap chunk).1.truncated = false ∧ (got ++ chunk).length ≤ cap) ∨
    ((r.absorb cap chunk).2 = false ∧ (r.absorb cap chunk).1.bytes = (got ++ chunk).take cap ∧
      (r.absorb cap chunk).1.truncated = true ∧ cap < (got ++ chunk).length) := by
  unfold DrainResult.absorb
  rw [hbytes, List.length_append]
  split_ifs with hfits
  · exact Or.inl ⟨rfl, rfl, htruncated, by omega⟩
  · refine Or.inr ⟨rfl, ?_, rfl, by omega⟩
    dsimp only
    rw [List.take_append, List.take_of_length_le hlen]

theorem Inv.take (h : Inv cap st) {call : DrainCall} (hgot : st.phase.got call.stream = call.got)
    (hother : ∀ s, s ≠ call.stream → st.phase.got s = []) (n : ℕ) {phase : Phase}
    (hphase : ∀ s, phase.got s = if call.stream = s then
      call.got ++ (st.streams call.stream).pipe.take n else []) (s : Stream) :
    StreamInv cap ((st.set call.stream fun σ => { σ with pipe := σ.pipe.drop n }).streams s)
      (phase.got s) := by
  rw [hphase, set_streams]
  by_cases heq : s = call.stream
  · rw [if_pos heq, if_pos heq.symm, ← hgot]
    exact (h.stream call.stream).take n
  · rw [if_neg heq, if_neg (Ne.symm heq)]
    have hs := h.stream s
    rwa [hother s heq] at hs

theorem Inv.read (hcap : 0 < cap) (h : Inv cap st) (count : ℕ) : Inv cap (read cap st count) := by
  obtain ⟨phase, streams⟩ := st
  cases phase with
  | polling => exact h
  | round todo => exact h
  | reading call =>
    obtain ⟨hhung, hbytes, htruncated, hlen⟩ := h.phase
    have hgot : (Phase.reading call).got call.stream = call.got := if_pos rfl
    have hother : ∀ s, s ≠ call.stream → (Phase.reading call).got s = [] :=
      fun s hs => if_neg (Ne.symm hs)
    have hhung' := HungUp.set ⟨.reading call, streams⟩ hhung call.stream
      (f := fun σ => { σ with pipe := σ.pipe.drop (min count 4096) }) fun σ => rfl
    unfold Capture.read
    dsimp only
    rcases absorb_reading hcap hbytes htruncated hlen
        ((streams call.stream).pipe.take (min count 4096)) with habsorb | habsorb
    · obtain ⟨hgoOn, hresult⟩ := habsorb
      rw [if_pos hgoOn]
      exact ⟨h.take hgot hother _ fun s => rfl, hhung', hresult⟩
    · obtain ⟨hgoOn, hresult⟩ := habsorb
      rw [if_neg (Bool.eq_false_iff.mp hgoOn)]
      exact ⟨h.take hgot hother _ fun s => rfl, hhung', hresult⟩
  | sinking call =>
    obtain ⟨hhung, hbytes, htruncated, hlen⟩ := h.phase
    have hgot : (Phase.sinking call).got call.stream = call.got := if_pos rfl
    have hother : ∀ s, s ≠ call.stream → (Phase.sinking call).got s = [] :=
      fun s hs => if_neg (Ne.symm hs)
    have hhung' := HungUp.set ⟨.sinking call, streams⟩ hhung call.stream
      (f := fun σ => { σ with pipe := σ.pipe.drop (min count 4096) }) fun σ => rfl
    refine ⟨h.take hgot hother _ fun s => rfl, hhung', ?_, htruncated, ?_⟩
    · dsimp only
      rw [List.take_append_of_le_length hlen.le]
      exact hbytes
    · dsimp only
      rw [List.length_append]
      omega
  | finished => exact h

theorem Inv.finishCall (h : Inv cap st) {call : DrainCall} (hgot : st.phase.got call.stream = call.got)
    (hother : ∀ s, s ≠ call.stream → st.phase.got s = [])
    (hhung : HungUp st.streams ((call.stream, call.closing) :: call.todo))
    (hbytes : call.result.bytes = call.got.take cap)
    (htruncated : call.result.truncated = decide (cap < call.got.length))
    (hend : (st.streams call.stream).pipe = [] ∨ cap < call.got.length) :
    Inv cap (finishCall st call) := by
  constructor
  · intro s
    show StreamInv cap ((st.set call.stream fun σ => σ.addCall call).streams s) []
    rw [set_streams]
    by_cases heq : s = call.stream
    · rw [if_pos heq]
      have hs := h.stream call.stream
      rw [hgot] at hs
      exact hs.finish hbytes htruncated fun hclosing => ⟨hhung _ List.mem_cons_self hclosing, hend⟩
    · rw [if_neg heq]
      have hs := h.stream s
      rwa [hother s heq] at hs
  · have htodo : HungUp st.streams call.todo := fun p hp => hhung p (List.mem_cons_of_mem _ hp)
    exact htodo.set st call.stream (f := fun σ => σ.addCall call) fun σ => rfl

theorem Inv.noData (h : Inv cap st) : Inv cap (noData st) := by
  obtain ⟨phase, streams⟩ := st
  cases phase with
  | polling => exact h
  | round todo => exact h
  | reading call =>
    obtain ⟨hhung, hbytes, htruncated, hlen⟩ := h.phase
    unfold Capture.noData
    dsimp only
    split_ifs with hempty
    · refine h.finishCall (if_pos rfl) (fun s hs => if_neg (Ne.symm hs)) hhung ?_ ?_ (Or.inl ?_)
      · rw [List.take_of_length_le hlen]
        exact hbytes
      · rw [htruncated, eq_comm, decide_eq_false_iff_not]
        omega
      · exact List.isEmpty_iff.mp hempty
    · exact h
  | sinking call =>
    obtain ⟨hhung, hbytes, htruncated, hlen⟩ := h.phase
    exact h.finishCall (if_pos rfl) (fun s hs => if_neg (Ne.symm hs)) hhung hbytes
      (htruncated.trans (decide_eq_true hlen).symm) (Or.inr hlen)
  | finished => exact h

theorem Inv.step (hcap : 0 < cap) (h : Inv cap st) (action : Action) : Inv cap (step cap st action) := by
  cases action with
  | childWrite s bytes => exact h.childWrite s bytes
  | childClose s => exact h.childClose s
  | poll => exact h.poll
  | expire => exact h.expire
  | nextFd => exact h.nextFd
  | read count => exact h.read hcap count
  | noData => exact h.noData

theorem run_inv (hcap : 0 < cap) (actions : List Action) : Inv cap (run (Capture.step cap) {} actions) := by
  induction actions using List.reverseRecOn with
  | nil => exact start_inv cap
  | append_singleton actions action ih =>
    rw [run_append]
    exact ih.step hcap action

end

/-! ## What is kept of several calls -/

/-- The calls that have read something. -/
def Busy (calls : List (List UInt8)) : List (List UInt8) := calls.filter fun c => !c.isEmpty

theorem flatten_busy (cap : ℕ) (calls : List (List UInt8)) :
    ((Busy calls).map (List.take cap)).flatten = (calls.map (List.take cap)).flatten := by
  induction calls with
  | nil => rfl
  | cons c calls ih =>
    cases c with
    | nil =>
      rw [List.map_cons, List.flatten_cons, List.take_nil, List.nil_append, ← ih]
      rfl
    | cons b c =>
      have hbusy : Busy ((b :: c) :: calls) = (b :: c) :: Busy calls := rfl
      rw [hbusy, List.map_cons, List.flatten_cons, ih, List.map_cons, List.flatten_cons]

theorem mem_busy {calls : List (List UInt8)} {c : List UInt8} (h : c ∈ calls) (hc : c ≠ []) :
    c ∈ Busy calls := by
  rw [Busy, List.mem_filter]
  exact ⟨h, by simpa using hc⟩

theorem two_calls_overflow {cap : ℕ} (hcap : 0 < cap) {calls : List (List UInt8)} {c : List UInt8}
    (hc : c ∈ calls) (hlong : cap < c.length) (htwo : 2 ≤ (Busy calls).length) :
    cap < ((calls.map (List.take cap)).flatten).length := by
  have hne : c ≠ [] := by
    rintro rfl
    simp at hlong
  obtain ⟨before, after, hsplit⟩ := List.append_of_mem (mem_busy hc hne)
  obtain ⟨d, hd⟩ : ∃ d, d ∈ before ++ after := by
    apply List.exists_mem_of_length_pos
    rw [hsplit, List.length_append, List.length_cons] at htwo
    rw [List.length_append]
    omega
  have hdbusy : d ∈ Busy calls := by
    rw [hsplit, List.mem_append, List.mem_cons]
    rw [List.mem_append] at hd
    tauto
  have hdpos : 0 < d.length := by
    rw [Busy, List.mem_filter] at hdbusy
    exact List.length_pos_iff.mpr (by simpa using hdbusy.2)
  have hsum : (d.take cap).length ≤
      (before.map (List.take cap)).flatten.length + (after.map (List.take cap)).flatten.length := by
    have hsub : ∀ l : List (List UInt8), d ∈ l →
        (d.take cap).length ≤ (l.map (List.take cap)).flatten.length := by
      intro l hl
      exact (List.sublist_flatten_of_mem (List.mem_map_of_mem hl)).length_le
    rcases List.mem_append.mp hd with hd | hd
    · exact (hsub _ hd).trans (Nat.le_add_right ..)
    · exact (hsub _ hd).trans (Nat.le_add_left ..)
  rw [← flatten_busy, hsplit, List.map_append, List.flatten_append, List.map_cons, List.flatten_cons,
    List.length_append, List.length_append, List.length_take]
  rw [List.length_take] at hsum
  omega

theorem kept_iff {cap : ℕ} (hcap : 0 < cap) {calls : List (List UInt8)} {rest : List UInt8}
    (hrest : rest = [] ∨ ∃ c ∈ calls, cap < c.length) :
    ((calls.map (List.take cap)).flatten = (calls.flatten ++ rest).take cap ∧
        ((calls.any fun c => cap < c.length) = true ↔ cap < (calls.flatten ++ rest).length)) ↔
      (calls.flatten ++ rest).length ≤ cap ∨ (Busy calls).length ≤ 1 := by
  have hany : (calls.any fun c => decide (cap < c.length)) = true ↔ ∃ c ∈ calls, cap < c.length := by
    simp only [List.any_eq_true, decide_eq_true_eq]
  have hmem : ∀ c ∈ calls, c.length ≤ (calls.flatten ++ rest).length := by
    intro c hc
    rw [List.length_append]
    exact (List.sublist_flatten_of_mem hc).length_le.trans (Nat.le_add_right ..)
  rw [hany]
  constructor
  · rintro ⟨hbytes, htruncated⟩
    by_contra hnot
    rw [not_or, Nat.not_le, Nat.not_le] at hnot
    obtain ⟨c, hc, hlong⟩ := htruncated.mpr hnot.1
    have hmore := two_calls_overflow hcap hc hlong hnot.2
    rw [hbytes, List.length_take] at hmore
    omega
  · rintro (hshort | hone)
    · have hnone : ¬∃ c ∈ calls, cap < c.length := by
        rintro ⟨c, hc, hlong⟩
        have hle := hmem c hc
        omega
      obtain rfl := hrest.resolve_right hnone
      rw [List.append_nil] at hshort ⊢
      refine ⟨?_, iff_of_false hnone (by omega)⟩
      have hid : calls.map (List.take cap) = calls.map id := by
        apply List.map_congr_left
        intro c hc
        exact List.take_of_length_le (Nat.not_lt.mp fun hlong => hnone ⟨c, hc, hlong⟩)
      rw [hid, List.map_id, List.take_of_length_le hshort]
    · -- what the one call that read something has read
      obtain ⟨c, hflat, hkept, hlong⟩ : ∃ c, calls.flatten = c ∧
          (calls.map (List.take cap)).flatten = c.take cap ∧
            ((∃ d ∈ calls, cap < d.length) ↔ cap < c.length) := by
        have hflatten : (Busy calls).flatten = calls.flatten := List.flatten_filter_not_isEmpty
        have hlongBusy : ∀ d ∈ calls, cap < d.length → d ∈ Busy calls := by
          intro d hd hlong
          refine mem_busy hd ?_
          rintro rfl
          simp at hlong
        rw [← hflatten, ← flatten_busy]
        rcases hbusy : Busy calls with _ | ⟨c, _ | ⟨d, more⟩⟩
        · rw [hbusy] at hlongBusy
          refine ⟨[], rfl, List.take_nil.symm, iff_of_false ?_ (by simp)⟩
          rintro ⟨d, hd, hlong⟩
          exact absurd (hlongBusy d hd hlong) List.not_mem_nil
        · rw [hbusy] at hlongBusy
          refine ⟨c, List.flatten_singleton, List.flatten_singleton, ?_⟩
          constructor
          · rintro ⟨d, hd, hlong⟩
            rwa [← List.mem_singleton.mp (hlongBusy d hd hlong)]
          · intro hlong
            have hc : c ∈ Busy calls := hbusy ▸ List.mem_singleton_self c
            exact ⟨c, (List.mem_filter.mp hc).1, hlong⟩
        · rw [hbusy] at hone
          simp at hone
      rw [hflat, hkept, hlong]
      rw [hlong] at hrest
      rcases hrest with rfl | hrest
      · rw [List.append_nil]
        exact ⟨rfl, Iff.rfl⟩
      · rw [List.take_append_of_le_length hrest.le, List.length_append]
        exact ⟨rfl, by omega⟩

/-! ## What is captured -/

theorem drainHandle_exact {cap : ℕ} (hcap : 0 < cap) {r : DrainResult} {got : List UInt8}
    (hbytes : r.bytes = got) (htruncated : r.truncated = false) (hlen : got.length ≤ cap)
    (chunks : List (List UInt8)) :
    (drainHandle cap r chunks).bytes = (got ++ chunks.flatten).take cap ∧
      ((drainHandle cap r chunks).truncated = true ↔ cap < (got ++ chunks.flatten).length) := by
  induction chunks generalizing r got with
  | nil =>
    rw [drainHandle, hbytes, htruncated, List.flatten_nil, List.append_nil, List.take_of_length_le hlen]
    exact ⟨rfl, iff_of_false Bool.false_ne_true (Nat.not_lt.mpr hlen)⟩
  | cons chunk chunks ih =>
    rw [drainHandle, List.flatten_cons, ← List.append_assoc]
    dsimp only
    rcases absorb_reading hcap hbytes htruncated hlen chunk with habsorb | habsorb
    · obtain ⟨hgoOn, hbytes', htruncated', hlen'⟩ := habsorb
      rw [if_pos hgoOn]
      exact ih hbytes' htruncated' hlen'
    · obtain ⟨hgoOn, hbytes', htruncated', hlen'⟩ := habsorb
      rw [if_neg (Bool.eq_false_iff.mp hgoOn), hbytes', htruncated',
        List.take_append_of_le_length hlen'.le, List.length_append]
      exact ⟨rfl, iff_of_true rfl (by omega)⟩

/-- The result for the stream is the first bytes of what was written, up to the cap, and says whether there
were more. -/
def Exact (cap : ℕ) (written : List UInt8) (r : DrainResult) : Prop :=
  r.bytes = written.take cap ∧ (r.truncated = true ↔ cap < written.length)

/-- When the poll loop and the reads behind it are over, a stream was captured exactly if it had no more bytes
than the cap or was read by a single call of `drain_fd_capped`. What `drain_handle` captures is exact. -/
theorem capture_exact_iff {cap : ℕ} (hcap : 0 < cap) :
    (∀ actions, (run (Capture.step cap) {} actions).phase = .finished → ∀ s,
      (Exact cap ((run (Capture.step cap) {} actions).streams s).written
          ((run (Capture.step cap) {} actions).streams s).drain ↔
        ((run (Capture.step cap) {} actions).streams s).written.length ≤ cap ∨
          (Busy ((run (Capture.step cap) {} actions).streams s).calls).length ≤ 1)) ∧
    ∀ chunks, Exact cap chunks.flatten (drainHandle cap {} chunks) := by
  constructor
  · intro actions hdone s
    have hinv := run_inv hcap actions
    obtain ⟨hstream, hphase⟩ := hinv
    have hs := hstream s
    rw [hdone] at hs hphase
    have hrest := (hs.closed (hphase s)).2
    have hwritten := hs.conserved
    rw [show Phase.finished.got s = [] from rfl, List.append_nil] at hwritten
    rw [Exact, hs.bytes, hs.truncated, ← hwritten]
    exact kept_iff hcap hrest
  · intro chunks
    have h := drainHandle_exact hcap (r := {}) rfl rfl (Nat.zero_le cap) chunks
    rwa [List.nil_append] at h

/-- A child that writes one byte, and two more after the parent has read it. -/
def twoWrites : List Action :=
  [.childWrite .out [1], .poll, .nextFd, .read 1, .noData, .nextFd, .childWrite .out [2, 3],
    .childClose .out, .childClose .err, .poll, .nextFd, .read 2, .noData, .nextFd, .noData, .nextFd, .poll]

theorem capture_exact_iff_two :
    Exact 2 ((run (Capture.step 2) {} twoWrites).streams .err).written
        ((run (Capture.step 2) {} twoWrites).streams .err).drain ↔
      ((run (Capture.step 2) {} twoWrites).streams .err).written.length ≤ 2 ∨
        (Busy ((run (Capture.step 2) {} twoWrites).streams .err).calls).length ≤ 1 :=
  (capture_exact_iff (by decide)).1 twoWrites rfl .err

/-- With a cap of two bytes all three are returned, and nothing says that there is more than the cap. -/
theorem two_writes_exceed_cap :
    ¬∀ cap > 0, ∀ actions, (run (Capture.step cap) {} actions).phase = .finished → ∀ s,
      Exact cap ((run (Capture.step cap) {} actions).streams s).written
        ((run (Capture.step cap) {} actions).streams s).drain := by
  intro h
  obtain ⟨hbytes, -⟩ := h 2 (by decide) twoWrites rfl .out
  have hall : ((run (Capture.step 2) {} twoWrites).streams .out).drain.bytes = [1, 2, 3] := rfl
  have hwritten : ((run (Capture.step 2) {} twoWrites).streams .out).written = [1, 2, 3] := rfl
  rw [hall, hwritten] at hbytes
  exact absurd hbytes (by decide)

end Souxmar.PluginHost.Capture
