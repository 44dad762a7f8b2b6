import PgCmdQueue.Lib.Run
import Mathlib.Algebra.Order.Ring.Nat

/-!
# Stopping a runner

`kill()` runs in the main thread. It passes a signal number to the thread of the runner
through a pipe that is not blocking, and only the runner itself makes `_keep_running` false.
-/

namespace PgCmdQueue.Runner.Stop

/-! ## The two threads -/

/-- Up to `PIPE_BUF` bytes are written as a whole. POSIX has at least 512. -/
structure Pipe where
  pipeBuf : { n : Nat // 512 ≤ n }
  capacity : { n : Nat // pipeBuf ≤ n }

def sizeofInt : Nat := 4

/-- `_run`: in front of its first statement, in its loops, and behind them. -/
inductive RunnerPc where
  | start
  | reconnectTest
  | connecting
  | reselectTest
  | iteration
  | notifyTest
  | notifies
  | poll
  | polled (conn killPipe : Bool)
  | readKillPipe (sigNumBytesTotal : Nat)
  | loopsLeft
  | returned
  deriving DecidableEq

def RunnerPc.inLoops : RunnerPc → Bool
  | .start => false
  | .loopsLeft => false
  | .returned => false
  | _ => true

/-- `kill()`: not called, in front of its test, and in front of `write()`. -/
inductive MainPc where
  | idle
  | testRunning
  | write (killPipeBytesToWrite : Nat)
  deriving DecidableEq

/-- `killPipe` counts the bytes in the pipe, and `killed` tells that a call of `kill()` has
returned. -/
structure State where
  running : Bool := false
  keepRunning : Bool := true
  goBackToReconnectLoop : Bool := false
  killPipe : Nat := 0
  killed : Bool := false
  runner : RunnerPc := .start
  main : MainPc := .idle

inductive WriteResult where
  | again
  | wrote (n : Nat)

inductive ReadResult where
  | again
  | interrupted
  | failed
  | data (n : Nat)

def State.writeReturns (p : Pipe) (s : State) (toWrite : Nat) : WriteResult → Bool
  | .again => p.capacity - s.killPipe < toWrite &&
    (toWrite ≤ p.pipeBuf || p.capacity ≤ s.killPipe)
  | .wrote n => n ≤ p.capacity - s.killPipe &&
    (n = toWrite || (p.pipeBuf < toWrite && n = p.capacity - s.killPipe && 0 < n))

def State.readReturns (s : State) : ReadResult → Bool
  | .again => s.killPipe = 0
  | .interrupted => true
  | .failed => true
  | .data n => 0 < n && n = min sizeofInt s.killPipe

/-- The result of `write()` is kept in a `size_t`, so that an error counts as a large number
of bytes. -/
def writtenBytes : WriteResult → Nat
  | .again => 2 ^ 64 - 1
  | .wrote n => n

/-- `killPipeBytesToWrite -= killPipeBytesWritten` -/
def subSize (x y : Nat) : Nat := (x + 2 ^ 64 - y) % 2 ^ 64

/-- How an iteration of the select loop goes on. -/
inductive Iterated where
  | committed
  | connectionLost
  | enterReselectRoundFailed

inductive PollResult where
  | interrupted
  | failed
  | timeout
  | ready (conn killPipe : Bool)

inductive Event where
  | kill
  | testRunning
  | write (r : WriteResult)
  | go
  | runnerSessionStart (ok : Bool)
  | iterated (next : Iterated)
  | notifies (isForMe : Option Bool)
  | poll (r : PollResult)
  | consumeInput (ok : Bool)
  | read (r : ReadResult)

/-! ## Steps -/

/-- `write()` returns 0 when there is nothing left to write, and the loop ends. -/
def State.mainStep (p : Pipe) (s : State) (e : Event) : Option State :=
  match s.main, e with
  | .idle, .kill => some { s with main := .testRunning }
  | .testRunning, .testRunning =>
    some (if s.running then { s with main := .write sizeofInt }
      else { s with killed := true, main := .idle })
  | .write toWrite, .write r =>
    if s.writeReturns p toWrite r then
      let n := writtenBytes r
      some (if n = 0 then { s with killed := true, main := .idle }
        else { s with
          killPipe := match r with
            | .again => s.killPipe
            | .wrote n => s.killPipe + n
          main := .write (subSize toWrite n) })
    else none
  | _, _ => none

/-- Behind the loop that reads. -/
def State.onReadError (s : State) (r : ReadResult) (sigNumBytesTotal : Nat) : State :=
  if sigNumBytesTotal < sizeofInt then
    match r with
    | .failed => { s with running := false, runner := .returned }
    | _ => { s with runner := .notifyTest }
  else { s with keepRunning := false, runner := .notifyTest }

def State.runnerStep (s : State) (e : Event) : Option State :=
  match s.runner, e with
  | .start, .go => some { s with running := true, runner := .reconnectTest }
  | .reconnectTest, .go =>
    some { s with runner := if s.keepRunning then .connecting else .loopsLeft }
  | .connecting, .runnerSessionStart ok =>
    some (if ok then { s with goBackToReconnectLoop := false, runner := .reselectTest }
      else { s with runner := .loopsLeft })
  | .reselectTest, .go =>
    some { s with runner :=
      if s.keepRunning ∧ ¬s.goBackToReconnectLoop then .iteration else .reconnectTest }
  | .iteration, .iterated next =>
    some { s with runner := match next with
      | .committed => .notifyTest
      | .connectionLost => .reconnectTest
      | .enterReselectRoundFailed => .returned }
  | .notifyTest, .go => some { s with runner := if s.keepRunning then .notifies else .reselectTest }
  | .notifies, .notifies isForMe =>
    some { s with runner := match isForMe with
      | some true => .reselectTest
      | some false => .notifyTest
      | none => .poll }
  | .poll, .poll r => match r with
    | .interrupted => some { s with runner := .notifyTest }
    | .failed => some { s with running := false, runner := .returned }
    | .timeout => if s.killPipe = 0 then some { s with runner := .reselectTest } else none
    | .ready conn killPipe =>
      if (conn || killPipe) && killPipe = decide (0 < s.killPipe) then
        some { s with runner := .polled conn killPipe }
      else none
  | .polled true killPipe, .consumeInput ok =>
    some (if ok then { s with runner := .polled false killPipe }
      else { s with goBackToReconnectLoop := true, runner := .reselectTest })
  | .polled false killPipe, .go =>
    some { s with runner := if killPipe then .readKillPipe 0 else .notifyTest }
  | .readKillPipe total, .read r =>
    if s.readReturns r then
      match r with
      | .data n => some { s with killPipe := s.killPipe - n, runner := .readKillPipe (total + n) }
      | r => some (s.onReadError r total)
    else none
  | .loopsLeft, .go => some { s with running := false, runner := .returned }
  | _, _ => none

def State.step (p : Pipe) (s : State) (e : Event) : Option State :=
  (s.mainStep p e).or (s.runnerStep e)

def Step (p : Pipe) (s : State) (e : Event) (t : State) : Prop := s.step p e = some t

/-- A call of `kill()` has returned, and the runner goes on without anything to read. -/
def State.Lost (s : State) : Prop :=
  s.killed = true ∧ s.runner.inLoops = true ∧ s.keepRunning = true ∧ s.killPipe = 0 ∧
    ∀ total, s.runner = .readKillPipe total → total = 0

/-! ## Requests that come after the start -/

def AfterStart (s : State) : Event → Prop
  | .testRunning => s.runner ≠ .start
  | _ => True

def AfterStartStep (p : Pipe) (s : State) (e : Event) (t : State) : Prop :=
  AfterStart s e ∧ Step p s e t

/-- The runner is behind its loops or will leave them, or has the whole of a request before it. -/
def State.Noticed (s : State) : Prop :=
  s.runner = .loopsLeft ∨ s.runner = .returned ∨ s.keepRunning = false ∨
    match s.runner with
    | .readKillPipe total => sizeofInt ≤ total ∨ (total = 0 ∧ sizeofInt ≤ s.killPipe)
    | _ => sizeofInt ≤ s.killPipe

structure State.Inv (s : State) : Prop where
  started : s.running = false → s.runner = .start ∨ s.runner = .returned
  killed : s.killed = true → s.Noticed
  pipe : 0 < s.killPipe → s.Noticed
  write : ∀ toWrite, s.main = .write toWrite → toWrite = sizeofInt ∨ s.Noticed
  polled : ∀ conn, s.runner = .polled conn true → s.Noticed
  reading : ∀ total, s.runner = .readKillPipe total → s.Noticed

variable {p : Pipe} {s t : State} {e : Event}

/-- One case for each thing that the runner does, by what it is told. -/
inductive State.RunnerMoves (s : State) : Event → State → Prop
  | start (hs : s.runner = .start) :
      s.RunnerMoves .go { s with running := true, runner := .reconnectTest }
  | reconnectTest (hs : s.runner = .reconnectTest) :
      s.RunnerMoves .go { s with runner := if s.keepRunning then .connecting else .loopsLeft }
  | connected (hs : s.runner = .connecting) : s.RunnerMoves (.runnerSessionStart true)
      { s with goBackToReconnectLoop := false, runner := .reselectTest }
  | connectFailed (hs : s.runner = .connecting) :
      s.RunnerMoves (.runnerSessionStart false) { s with runner := .loopsLeft }
  | reselectTest (hs : s.runner = .reselectTest) : s.RunnerMoves .go { s with runner :=
      if s.keepRunning ∧ ¬s.goBackToReconnectLoop then .iteration else .reconnectTest }
  | iterated {next : Iterated} (hs : s.runner = .iteration) :
      s.RunnerMoves (.iterated next) { s with runner := match next with
        | .committed => .notifyTest
        | .connectionLost => .reconnectTest
        | .enterReselectRoundFailed => .returned }
  | notifyTest (hs : s.runner = .notifyTest) :
      s.RunnerMoves .go { s with runner := if s.keepRunning then .notifies else .reselectTest }
  | notifies {isForMe : Option Bool} (hs : s.runner = .notifies) :
      s.RunnerMoves (.notifies isForMe) { s with runner := match isForMe with
        | some true => .reselectTest
        | some false => .notifyTest
        | none => .poll }
  | pollInterrupted (hs : s.runner = .poll) :
      s.RunnerMoves (.poll .interrupted) { s with runner := .notifyTest }
  | pollFailed (hs : s.runner = .poll) :
      s.RunnerMoves (.poll .failed) { s with running := false, runner := .returned }
  | pollTimeout (hs : s.runner = .poll) : s.RunnerMoves (.poll .timeout) { s with runner := .reselectTest }
  | pollReady {conn killPipe : Bool} (hs : s.runner = .poll) (pipe : killPipe = true → 0 < s.killPipe) :
      s.RunnerMoves (.poll (.ready conn killPipe)) { s with runner := .polled conn killPipe }
  | consumed {killPipe : Bool} (hs : s.runner = .polled true killPipe) :
      s.RunnerMoves (.consumeInput true) { s with runner := .polled false killPipe }
  | consumeFailed {killPipe : Bool} (hs : s.runner = .polled true killPipe) :
      s.RunnerMoves (.consumeInput false)
        { s with goBackToReconnectLoop := true, runner := .reselectTest }
  | polled {killPipe : Bool} (hs : s.runner = .polled false killPipe) :
      s.RunnerMoves .go { s with runner := if killPipe then .readKillPipe 0 else .notifyTest }
  | read {total n : Nat} (hs : s.runner = .readKillPipe total) (all : n = min sizeofInt s.killPipe) :
      s.RunnerMoves (.read (.data n))
        { s with killPipe := s.killPipe - n, runner := .readKillPipe (total + n) }
  | readError {total : Nat} {r : ReadResult} (hs : s.runner = .readKillPipe total) :
      s.RunnerMoves (.read r) (s.onReadError r total)
  | loopsLeft (hs : s.runner = .loopsLeft) :
      s.RunnerMoves .go { s with running := false, runner := .returned }

theorem moves_poll {r : PollResult} (hs : s.runner = .poll) (h : s.runnerStep (.poll r) = some t) :
    s.RunnerMoves (.poll r) t := by
  simp only [State.runnerStep, hs] at h
  cases r with
  | interrupted =>
    cases h
    exact .pollInterrupted hs
  | failed =>
    cases h
    exact .pollFailed hs
  | timeout =>
    dsimp only at h
    split at h <;> cases h
    exact .pollTimeout hs
  | ready conn killPipe =>
    dsimp only at h
    split at h <;> cases h
    rename_i hready
    rw [Bool.and_eq_true, decide_eq_true_eq] at hready
    refine .pollReady hs fun hpipe => ?_
    rw [hpipe] at hready
    exact of_decide_eq_true hready.2.symm

theorem runnerMoves (h : s.runnerStep e = some t) : s.RunnerMoves e t := by
  have hstep := h
  unfold State.runnerStep at h
  split at h
  case h_1 hs =>
    cases h
    exact .start hs
  case h_2 hs =>
    cases h
    exact .reconnectTest hs
  case h_3 ok hs =>
    cases ok <;> cases h
    · exact .connectFailed hs
    · exact .connected hs
  case h_4 hs =>
    cases h
    exact .reselectTest hs
  case h_5 hs =>
    cases h
    exact .iterated hs
  case h_6 hs =>
    cases h
    exact .notifyTest hs
  case h_7 hs =>
    cases h
    exact .notifies hs
  case h_8 hs => exact moves_poll hs hstep
  case h_9 ok hs =>
    cases ok <;> cases h
    · exact .consumeFailed hs
    · exact .consumed hs
  case h_10 hs =>
    cases h
    exact .polled hs
  case h_11 hs =>
    split at h
    · rename_i hr
      split at h <;> cases h
      · rw [State.readReturns, Bool.and_eq_true] at hr
        exact .read hs (of_decide_eq_true hr.2)
      · exact .readError hs
    · cases h
  case h_12 hs =>
    cases h
    exact .loopsLeft hs
  case h_13 => cases h

/-- More bytes in the pipe do no harm. -/
theorem State.Noticed.mono (h : s.Noticed) (hrunner : t.runner = s.runner)
    (hkeep : t.keepRunning = s.keepRunning) (hpipe : s.killPipe ≤ t.killPipe) : t.Noticed := by
  unfold State.Noticed at h ⊢
  rw [hrunner, hkeep]
  rcases h with h | h | h | h
  · exact .inl h
  · exact .inr (.inl h)
  · exact .inr (.inr (.inl h))
  · refine .inr (.inr (.inr ?_))
    split at h
    · rcases h with h | ⟨hzero, h⟩
      · exact .inl h
      · exact .inr ⟨hzero, Nat.le_trans h hpipe⟩
    · exact Nat.le_trans h hpipe

theorem noticed_onReadError {r : ReadResult} {total : Nat} (h : s.Noticed)
    (hs : s.runner = .readKillPipe total) : (s.onReadError r total).Noticed := by
  unfold State.onReadError
  split
  · rename_i hless
    rcases h with h | h | h | h
    · rw [hs] at h
      cases h
    · rw [hs] at h
      cases h
    · split
      · exact .inr (.inl rfl)
      · exact .inr (.inr (.inl h))
    · rw [hs] at h
      have hpipe : sizeofInt ≤ s.killPipe := by
        rcases h with h | h
        · omega
        · exact h.2
      split
      · exact .inr (.inl rfl)
      · exact .inr (.inr (.inr hpipe))
  · exact .inr (.inr (.inl rfl))

/-- Moving on from any place but the one where the pipe is read. -/
theorem State.Noticed.moved (h : s.Noticed) (hin : s.runner.inLoops = true ∨ s.runner = .start)
    (hs : ∀ total, s.runner ≠ .readKillPipe total) (hkeep : t.keepRunning = s.keepRunning)
    (hpipe : t.killPipe = s.killPipe) (ht : ∀ total, t.runner = .readKillPipe total → total = 0) :
    t.Noticed := by
  unfold State.Noticed at h ⊢
  rw [hkeep, hpipe]
  rcases h with h | h | h | h
  · rw [h] at hin
    rcases hin with hin | hin <;> cases hin
  · rw [h] at hin
    rcases hin with hin | hin <;> cases hin
  · exact .inr (.inr (.inl h))
  · refine .inr (.inr (.inr ?_))
    split at h
    · exact absurd ‹_› (hs _)
    split
    · exact .inr ⟨ht _ ‹_›, h⟩
    · exact h

theorem noticed_read {n total : Nat} (h : s.Noticed) (hs : s.runner = .readKillPipe total)
    (hn : n = min sizeofInt s.killPipe) :
    State.Noticed { s with killPipe := s.killPipe - n, runner := .readKillPipe (total + n) } := by
  rcases h with h | h | h | h
  · rw [hs] at h
    cases h
  · rw [hs] at h
    cases h
  · exact .inr (.inr (.inl h))
  · rw [hs] at h
    refine .inr (.inr (.inr (.inl ?_)))
    omega

theorem noticed_moves (h : s.Noticed) (hmoves : s.RunnerMoves e t) : t.Noticed := by
  cases hmoves with
  | read hs hn => exact noticed_read h hs hn
  | readError hs => exact noticed_onReadError h hs
  | pollFailed | loopsLeft => exact .inr (.inl rfl)
  | start hs => exact h.moved (.inr hs) (by rw [hs]; nofun) rfl rfl nofun
  | connected hs | connectFailed hs | pollInterrupted hs | pollTimeout hs | pollReady hs | consumed hs
  | consumeFailed hs => exact h.moved (by rw [hs]; exact .inl rfl) (by rw [hs]; nofun) rfl rfl nofun
  | reconnectTest hs | reselectTest hs | iterated hs | notifyTest hs | notifies hs | polled hs =>
    refine h.moved (by rw [hs]; exact .inl rfl) (by rw [hs]; nofun) rfl rfl fun total htotal => ?_
    dsimp only at htotal
    split at htotal <;> cases htotal <;> rfl

/-- A `write()` of four bytes finds room if nothing was noticed yet. -/
theorem noticed_again {toWrite : Nat} (hs : s.Inv) (hmain : s.main = .write toWrite)
    (hr : s.writeReturns p toWrite .again = true) : s.Noticed := by
  have hlarge : 512 ≤ (p.pipeBuf : Nat) := p.pipeBuf.property
  have hroom : (p.pipeBuf : Nat) ≤ p.capacity := p.capacity.property
  rcases hs.write toWrite hmain with rfl | hnoticed
  · rw [State.writeReturns, Bool.and_eq_true] at hr
    have hfull : (p.capacity : Nat) - s.killPipe < 4 := of_decide_eq_true hr.1
    exact hs.pipe (by omega)
  · exact hnoticed

theorem noticed_wrote {toWrite n : Nat} (hs : s.Inv) (hmain : s.main = .write toWrite)
    (hr : s.writeReturns p toWrite (.wrote n) = true) :
    (n = 0 → s.Noticed) ∧ State.Noticed { s with killPipe := s.killPipe + n } := by
  have hlarge : 512 ≤ (p.pipeBuf : Nat) := p.pipeBuf.property
  rcases hs.write toWrite hmain with rfl | hnoticed
  · -- All four bytes are written, since they are no more than `PIPE_BUF`.
    simp only [State.writeReturns, Bool.and_eq_true, Bool.or_eq_true, decide_eq_true_eq] at hr
    have hfour : sizeofInt = 4 := rfl
    obtain rfl : n = sizeofInt := by omega
    refine ⟨nofun, ?_⟩
    by_cases hreading : ∃ total, s.runner = .readKillPipe total
    · obtain ⟨total, htotal⟩ := hreading
      exact (hs.reading total htotal).mono rfl rfl (Nat.le_add_right _ _)
    · refine .inr (.inr (.inr ?_))
      dsimp only
      split
      · exact absurd ⟨_, ‹_›⟩ hreading
      · exact Nat.le_add_left _ _
  · exact ⟨fun _ => hnoticed, hnoticed.mono rfl rfl (Nat.le_add_right _ _)⟩

theorem inv_mainStep (hs : s.Inv) (hafter : AfterStart s e) (ht : s.mainStep p e = some t) : t.Inv := by
  unfold State.mainStep at ht
  split at ht
  · cases ht
    exact ⟨hs.started, hs.killed, hs.pipe, nofun, hs.polled, hs.reading⟩
  · cases ht
    split
    · refine ⟨hs.started, hs.killed, hs.pipe, ?_, hs.polled, hs.reading⟩
      intro toWrite htoWrite
      cases htoWrite
      exact .inl rfl
    · rename_i hrunning
      have hreturned : s.runner = .returned :=
        (hs.started (Bool.eq_false_iff.mpr hrunning)).resolve_left hafter
      exact ⟨hs.started, fun _ => .inr (.inl hreturned), hs.pipe, nofun, hs.polled, hs.reading⟩
  · rename_i toWrite r hmain
    split at ht
    swap
    · cases ht
    rename_i hr
    cases r with
    | again =>
      have hnoticed := noticed_again hs hmain hr
      cases ht
      exact ⟨hs.started, hs.killed, hs.pipe, fun _ _ => .inr hnoticed, hs.polled, hs.reading⟩
    | wrote n =>
      obtain ⟨hzero, hmore⟩ := noticed_wrote hs hmain hr
      cases n with
      | zero =>
        cases ht
        exact ⟨hs.started, fun _ => hzero rfl, hs.pipe, nofun, hs.polled, hs.reading⟩
      | succ n =>
        cases ht
        exact ⟨hs.started, fun _ => hmore, fun _ => hmore, fun _ _ => .inr hmore,
          fun _ _ => hmore, fun _ _ => hmore⟩
  · cases ht

/-- What a step of the runner leaves alone, and how it comes to read the pipe. -/
structure Moved (s t : State) : Prop where
  killed : t.killed = s.killed
  main : t.main = s.main
  pipe : t.killPipe ≤ s.killPipe
  started : t.running = true ∨ t.runner = .returned ∨
    t.running = s.running ∧ s.runner ≠ .start ∧ s.runner ≠ .returned
  polled : ∀ conn, t.runner = .polled conn true → 0 < s.killPipe ∨ s.runner = .polled true true
  reading : ∀ total, t.runner = .readKillPipe total →
    s.runner = .polled false true ∨ ∃ total', s.runner = .readKillPipe total'

theorem moved_onReadError {r : ReadResult} {total : Nat} (hs : s.runner = .readKillPipe total) :
    Moved s (s.onReadError r total) := by
  have hstarted : s.runner ≠ .start ∧ s.runner ≠ .returned := by simp [hs]
  unfold State.onReadError
  split
  · split
    · exact ⟨rfl, rfl, Nat.le_refl _, .inr (.inl rfl), nofun, nofun⟩
    · exact ⟨rfl, rfl, Nat.le_refl _, .inr (.inr ⟨rfl, hstarted⟩), nofun, nofun⟩
  · exact ⟨rfl, rfl, Nat.le_refl _, .inr (.inr ⟨rfl, hstarted⟩), nofun, nofun⟩

theorem moved_moves (h : s.RunnerMoves e t) : Moved s t := by
  cases h with
  | start => exact ⟨rfl, rfl, Nat.le_refl _, .inl rfl, nofun, nofun⟩
  | pollFailed | loopsLeft => exact ⟨rfl, rfl, Nat.le_refl _, .inr (.inl rfl), nofun, nofun⟩
  | pollReady hs hpipe =>
    refine ⟨rfl, rfl, Nat.le_refl _, .inr (.inr ⟨rfl, by simp [hs]⟩), fun conn hconn => ?_, nofun⟩
    cases hconn
    exact .inl (hpipe rfl)
  | consumed hs =>
    refine ⟨rfl, rfl, Nat.le_refl _, .inr (.inr ⟨rfl, by simp [hs]⟩), fun conn hconn => ?_, nofun⟩
    cases hconn
    exact .inr hs
  | @polled killPipe hs =>
    have hstarted : s.runner ≠ .start ∧ s.runner ≠ .returned := by simp [hs]
    cases killPipe
    · exact ⟨rfl, rfl, Nat.le_refl _, .inr (.inr ⟨rfl, hstarted⟩), nofun, nofun⟩
    · exact ⟨rfl, rfl, Nat.le_refl _, .inr (.inr ⟨rfl, hstarted⟩), nofun, fun _ _ => .inl hs⟩
  | read hs =>
    exact ⟨rfl, rfl, Nat.sub_le _ _, .inr (.inr ⟨rfl, by simp [hs]⟩), nofun, fun _ _ => .inr ⟨_, hs⟩⟩
  | readError hs => exact moved_onReadError hs
  | connected hs | connectFailed hs | pollInterrupted hs | pollTimeout hs | consumeFailed hs =>
    exact ⟨rfl, rfl, Nat.le_refl _, .inr (.inr ⟨rfl, by simp [hs]⟩), nofun, nofun⟩
  | reconnectTest hs | reselectTest hs | iterated hs | notifyTest hs | notifies hs =>
    split <;> exact ⟨rfl, rfl, Nat.le_refl _, .inr (.inr ⟨rfl, by simp [hs]⟩), nofun, nofun⟩

theorem inv_runnerStep (hs : s.Inv) (ht : s.runnerStep e = some t) : t.Inv := by
  have hmoves := runnerMoves ht
  have hnext : s.Noticed → t.Noticed := fun h => noticed_moves h hmoves
  have hmoved := moved_moves hmoves
  refine ⟨fun hrunning => ?_, fun hkilled => ?_, fun hpipe => ?_, fun toWrite hmain => ?_,
    fun conn hconn => ?_, fun total htotal => ?_⟩
  · rcases hmoved.started with h | h | ⟨hsame, hstart, hreturned⟩
    · rw [h] at hrunning
      cases hrunning
    · exact .inr h
    · rw [hsame] at hrunning
      rcases hs.started hrunning with h | h
      · exact absurd h hstart
      · exact absurd h hreturned
  · exact hnext (hs.killed (hmoved.killed ▸ hkilled))
  · exact hnext (hs.pipe (Nat.lt_of_lt_of_le hpipe hmoved.pipe))
  · exact (hs.write toWrite (hmoved.main ▸ hmain)).imp_right hnext
  · rcases hmoved.polled conn hconn with h | h
    · exact hnext (hs.pipe h)
    · exact hnext (hs.polled _ h)
  · rcases hmoved.reading total htotal with h | ⟨total', h⟩
    · exact hnext (hs.polled _ h)
    · exact hnext (hs.reading _ h)

theorem inv_step (hs : s.Inv) (h : AfterStartStep p s e t) : t.Inv := by
  obtain ⟨hafter, h⟩ := h
  unfold Step State.step at h
  rw [Option.or_eq_some_iff] at h
  rcases h with h | ⟨-, h⟩
  · exact inv_mainStep hs hafter h
  · exact inv_runnerStep hs h

theorem not_lost_of_run {tr : List Event} (h : Transition.Run (AfterStartStep p) {} tr s) : ¬s.Lost := by
  have hs : s.Inv := h.invariant_state ⟨fun _ => .inl rfl, nofun, nofun, nofun, nofun, nofun⟩
    fun _ _ _ => inv_step
  rintro ⟨hkilled, hin, hkeep, hpipe, hreading⟩
  rcases hs.killed hkilled with h | h | h | h
  · rw [h] at hin
    cases hin
  · rw [h] at hin
    cases hin
  · rw [h] at hkeep
    cases hkeep
  · split at h
    · rename_i total hrunner
      have hzero := hreading total hrunner
      rw [hpipe, hzero] at h
      revert h
      decide
    · rw [hpipe] at h
      cases h

/-! ## Before and after the first statement of the thread -/

def pipeBuf : { n : Nat // 512 ≤ n } := ⟨4096, by decide⟩

def linuxPipe : Pipe := { pipeBuf := pipeBuf, capacity := ⟨65536, by decide⟩ }

/-- The signal comes while a command runs, and is read in front of the next `poll()`. -/
def killedInIteration : List Event := [.go, .go, .runnerSessionStart true, .go, .kill, .testRunning,
  .write (.wrote 4), .write (.wrote 0), .iterated .committed, .go, .notifies none,
  .poll (.ready false true), .go, .read (.data 4), .read .again]

/-- The thread is created, and its function is called after `kill()` has returned. -/
def killedBeforeStart : List Event := [.kill, .testRunning, .go, .go, .runnerSessionStart true, .go,
  .iterated .committed, .go, .notifies none]

def afterStartNext (s : State) (e : Event) : Option State :=
  match e with
  | .testRunning => if s.runner = .start then none else s.step linuxPipe .testRunning
  | e => s.step linuxPipe e

theorem afterStartStep_of_next (h : afterStartNext s e = some t) :
    AfterStartStep linuxPipe s e t := by
  unfold afterStartNext at h
  cases e with
  | testRunning =>
    dsimp only at h
    split at h
    · cases h
    · rename_i hstart
      exact ⟨hstart, h⟩
  | _ => exact ⟨trivial, h⟩

theorem not_lost_of_run_killedInIteration : ∃ s, Transition.Run (AfterStartStep linuxPipe) {}
    killedInIteration s ∧ s.killed = true ∧ s.keepRunning = false ∧ ¬s.Lost := by
  have hlast : (killedInIteration.foldlM afterStartNext {}).any (fun s =>
      s.killed = true ∧ s.keepRunning = false) = true := by
    decide +kernel
  obtain ⟨s, hs, hs'⟩ := (Option.any_eq_true _ _).mp hlast
  obtain ⟨hkilled, hkeep⟩ := of_decide_eq_true hs'
  have hrun := (Transition.Run.of_foldlM hs).mono fun _ _ _ => afterStartStep_of_next
  exact ⟨s, hrun, hkilled, hkeep, not_lost_of_run hrun⟩

/-- `poll()` is entered, and only the thread that waits to join this one could have ended it. -/
theorem lost_killedBeforeStart : ∃ s, Transition.Run (Step linuxPipe) {} killedBeforeStart s ∧
    s.runner = .poll ∧ s.Lost := by
  have hlast : (killedBeforeStart.foldlM (State.step linuxPipe) {}).any (fun s =>
      s.runner = .poll ∧ s.killed = true ∧ s.keepRunning = true ∧ s.killPipe = 0) = true := by
    decide +kernel
  obtain ⟨s, hs, hs'⟩ := (Option.any_eq_true _ _).mp hlast
  obtain ⟨hpoll, hkilled, hkeep, hpipe⟩ := of_decide_eq_true hs'
  refine ⟨s, Transition.Run.of_foldlM hs, hpoll, hkilled, ?_, hkeep, hpipe, ?_⟩
  · rw [hpoll]
    rfl
  · rw [hpoll]
    nofun

end PgCmdQueue.Runner.Stop
