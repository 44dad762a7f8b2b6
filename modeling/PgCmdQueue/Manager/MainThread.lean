import PgCmdQueue.Connection
import PgCmdQueue.Manager.Listen
import PgCmdQueue.Runner.Stop

/-!
# The main thread and its signals

From `maintain_connection` to `join_all_threads`, behind `install_signal_handlers()`. A signal handler sets a
flag and then writes to a pipe that blocks.
-/

namespace PgCmdQueue.MainThread

open Cpp Runner.Stop

/-! ## Signals -/

inductive Sig where
  | int
  | quit
  | term
  deriving DecidableEq

def Sig.num : Sig → Nat
  | .int => 2
  | .quit => 3
  | .term => 15

/-- The first of the signals given that was received, or zero. -/
def sigNumReceived (sigRecv : List Sig) (sigNums : List Sig) : Nat :=
  match sigNums.find? (· ∈ sigRecv) with
  | some sig => sig.num
  | none => 0

/-! ## Steps -/

/-- `refresh_queue_list` is called by `main()` and by `listen_for_queue_list_changes()`, which remembers
whether there was something in the pipe. -/
inductive Caller where
  | main
  | listener (killPipe : Bool)
  deriving DecidableEq

def Caller.retrySelect : Caller → Bool
  | .main => false
  | .listener _ => true

inductive Pc where
  | maintainConnection
  | selectQueues (caller : Caller) (retrySeconds : Nat)
  | sleepFor (caller : Caller) (retrySeconds : Nat)
  | listen
  | poll
  | polled (conn killPipe : Bool)
  | notifies (killPipe : Bool)
  | readKillPipe (bytesRead : Nat)
  | stopAllRunners
  | joinAllThreads (sigNum : Nat)
  /-- A member of no object was used. -/
  | nullConn
  /-- An exception was not caught. -/
  | terminated
  deriving DecidableEq

def Caller.next : Caller → Pc
  | .main => .listen
  | .listener killPipe => .notifies killPipe

/-- `inHandler` counts the signal handlers that have not written yet, and `killPipe` the bytes in the pipe. -/
structure State where
  connection : Connection.State := { conn := none }
  sigRecv : List Sig := []
  inHandler : Nat := 0
  killPipe : Nat := 0
  keepRunning : Bool := true
  pc : Pc := .maintainConnection

inductive ListenResult where
  | failed
  | noSocket
  | ok
  deriving DecidableEq

inductive PollResult where
  | interrupted
  | failed
  | ready (conn killPipe : Bool)
  deriving DecidableEq

inductive ReadResult where
  | interrupted
  | failed
  | data (n : Nat)
  deriving DecidableEq

inductive Event where
  | signal (sig : Sig)
  | handlerWrites
  | connection (e : Connection.Event)
  | select (ok : Bool)
  | sleepFor
  | listen (r : ListenResult)
  | poll (r : PollResult)
  | notifies (extra : Option Bytes)
  | read (r : ReadResult)
  | go
  deriving DecidableEq

/-- A handler may run in any thread that does not block its signal. `write()` waits until there is
room for the whole number. -/
def State.handlerStep (p : Pipe) (s : State) : Event → Option State
  | .signal sig => some { s with sigRecv := sig :: s.sigRecv, inHandler := s.inHandler + 1 }
  | .handlerWrites =>
    if 0 < s.inHandler ∧ s.killPipe + sizeofInt ≤ p.capacity then
      some { s with inHandler := s.inHandler - 1, killPipe := s.killPipe + sizeofInt }
    else none
  | _ => none

def maxRetrySeconds : Nat := 60

/-- `read()` waits for data, but not if it is asked for no bytes at all. -/
def State.readKillPipe (s : State) (bytesRead : Nat) : ReadResult → Option State
  | .interrupted => some s
  | .failed => some { s with keepRunning := false, pc := .poll }
  | .data n =>
    if n = min (sizeofInt - bytesRead) s.killPipe ∧ (0 < s.killPipe ∨ sizeofInt ≤ bytesRead) then
      some (if n = 0 then { s with keepRunning := false, pc := .poll }
        else { s with killPipe := s.killPipe - n, pc := .readKillPipe (bytesRead + n) })
    else none

def State.mainStep (asserts : Bool) (s : State) (e : Event) : Option State :=
  match s.pc, e with
  | .maintainConnection, .connection e =>
    (s.connection.step false (s.sigRecv ≠ []) e).map fun c => { s with
      connection := c
      pc := if c.pc = .returned then .selectQueues .main 1 else .maintainConnection }
  | .selectQueues caller retrySeconds, .select ok =>
    if s.keepRunning then
      some { s with
        pc := if s.connection.conn = none then .nullConn
          else if ok ∨ ¬caller.retrySelect then caller.next
          else .sleepFor caller retrySeconds }
    else none
  | .selectQueues caller _, .go => if s.keepRunning then none else some { s with pc := caller.next }
  | .sleepFor caller retrySeconds, .sleepFor => some { s with
      keepRunning := s.keepRunning && s.sigRecv = []
      pc := .selectQueues caller (Backoff.next maxRetrySeconds retrySeconds) }
  | .listen, .listen r => some { s with pc := if r = .ok then .poll else .stopAllRunners }
  | .poll, .poll r =>
    if s.keepRunning then
      match r with
      | .interrupted => some s
      | .failed => some { s with pc := .stopAllRunners }
      | .ready conn killPipe =>
        if (conn || killPipe) && killPipe = decide (0 < s.killPipe) then
          some { s with pc := .polled conn killPipe }
        else none
    else none
  | .poll, .go => if s.keepRunning then none else some { s with pc := .stopAllRunners }
  | .polled conn killPipe, .go => some { s with
      pc := if conn then .notifies killPipe else if killPipe then .readKillPipe 0 else .poll }
  | .notifies killPipe, .notifies extra =>
    if s.keepRunning then
      some { s with
        pc := match extra with
          | none => .polled false killPipe
          | some extra => match Listen.isQueueChange asserts extra with
            | .ok true => .selectQueues (.listener killPipe) 1
            | .ok false => .notifies killPipe
            | .error _ => .terminated }
    else none
  | .notifies killPipe, .go => if s.keepRunning then none else some { s with pc := .polled false killPipe }
  | .readKillPipe bytesRead, .read r => s.readKillPipe bytesRead r
  | .stopAllRunners, .go =>
    some { s with pc := .joinAllThreads (sigNumReceived s.sigRecv [.quit, .term, .int]) }
  | _, _ => none

def State.step (p : Pipe) (asserts : Bool) (s : State) (e : Event) : Option State :=
  (s.handlerStep p e).or (s.mainStep asserts e)

def Step (p : Pipe) (asserts : Bool) (s : State) (e : Event) (t : State) : Prop :=
  s.step p asserts e = some t

variable {p : Pipe} {asserts : Bool} {s t : State} {e : Event} {tr : List Event}

/-- One case for each thing that a handler or the main thread does. -/
inductive State.Moves (p : Pipe) (asserts : Bool) (s : State) : Event → State → Prop
  | signal {sig : Sig} : s.Moves p asserts (.signal sig)
      { s with sigRecv := sig :: s.sigRecv, inHandler := s.inHandler + 1 }
  | handlerWrites (inHandler : 0 < s.inHandler) : s.Moves p asserts .handlerWrites
      { s with inHandler := s.inHandler - 1, killPipe := s.killPipe + sizeofInt }
  | connection {e : Connection.Event} {c : Connection.State} (pc : s.pc = .maintainConnection)
      (moves : s.connection.step false (s.sigRecv ≠ []) e = some c) : s.Moves p asserts (.connection e)
      { s with
        connection := c
        pc := if c.pc = .returned then .selectQueues .main 1 else .maintainConnection }
  | nullConn {caller : Caller} {w : Nat} {ok : Bool} (pc : s.pc = .selectQueues caller w)
      (conn : s.connection.conn = none) : s.Moves p asserts (.select ok) { s with pc := .nullConn }
  | selected {caller : Caller} {w : Nat} {ok : Bool} (pc : s.pc = .selectQueues caller w)
      (keep : s.keepRunning = true) (conn : s.connection.conn ≠ none) : s.Moves p asserts (.select ok)
      { s with pc := if ok ∨ ¬caller.retrySelect then caller.next else .sleepFor caller w }
  | gaveUp {caller : Caller} {w : Nat} (pc : s.pc = .selectQueues caller w) (keep : s.keepRunning = false) :
      s.Moves p asserts .go { s with pc := caller.next }
  | sleepFor {caller : Caller} {w : Nat} (pc : s.pc = .sleepFor caller w) : s.Moves p asserts .sleepFor
      { s with
        keepRunning := s.keepRunning && s.sigRecv = []
        pc := .selectQueues caller (Backoff.next maxRetrySeconds w) }
  | listen {r : ListenResult} (pc : s.pc = .listen) : s.Moves p asserts (.listen r)
      { s with pc := if r = .ok then .poll else .stopAllRunners }
  | pollInterrupted (pc : s.pc = .poll) : s.Moves p asserts (.poll .interrupted) s
  | pollFailed (pc : s.pc = .poll) (keep : s.keepRunning = true) :
      s.Moves p asserts (.poll .failed) { s with pc := .stopAllRunners }
  | pollReady {conn killPipe : Bool} (pc : s.pc = .poll) (keep : s.keepRunning = true)
      (pipe : killPipe = decide (0 < s.killPipe)) (ready : (conn || killPipe) = true) :
      s.Moves p asserts (.poll (.ready conn killPipe)) { s with pc := .polled conn killPipe }
  | pollEnds (pc : s.pc = .poll) (keep : s.keepRunning = false) :
      s.Moves p asserts .go { s with pc := .stopAllRunners }
  | polled {conn killPipe : Bool} (pc : s.pc = .polled conn killPipe) : s.Moves p asserts .go
      { s with pc := if conn then .notifies killPipe else if killPipe then .readKillPipe 0 else .poll }
  | notifiesRead {killPipe : Bool} (pc : s.pc = .notifies killPipe) (keep : s.keepRunning = true) :
      s.Moves p asserts (.notifies none) { s with pc := .polled false killPipe }
  | notified {killPipe : Bool} {extra : Bytes} {next : Pc} (pc : s.pc = .notifies killPipe)
      (keep : s.keepRunning = true) (next_mem : next = .selectQueues (.listener killPipe) 1 ∨
        next = .notifies killPipe ∨ next = .terminated) :
      s.Moves p asserts (.notifies (some extra)) { s with pc := next }
  | notifiesEnds {killPipe : Bool} (pc : s.pc = .notifies killPipe) (keep : s.keepRunning = false) :
      s.Moves p asserts .go { s with pc := .polled false killPipe }
  | readInterrupted {b : Nat} (pc : s.pc = .readKillPipe b) : s.Moves p asserts (.read .interrupted) s
  | readFailed {b : Nat} (pc : s.pc = .readKillPipe b) :
      s.Moves p asserts (.read .failed) { s with keepRunning := false, pc := .poll }
  | readAll {b : Nat} (pc : s.pc = .readKillPipe b) :
      s.Moves p asserts (.read (.data 0)) { s with keepRunning := false, pc := .poll }
  | readSome {b n : Nat} (pc : s.pc = .readKillPipe b) (all : n = min (sizeofInt - b) s.killPipe)
      (pos : 0 < n) : s.Moves p asserts (.read (.data n))
      { s with killPipe := s.killPipe - n, pc := .readKillPipe (b + n) }
  | stopAllRunners (pc : s.pc = .stopAllRunners) : s.Moves p asserts .go
      { s with pc := .joinAllThreads (sigNumReceived s.sigRecv [.quit, .term, .int]) }

theorem moves_handlerStep (h : s.handlerStep p e = some t) : s.Moves p asserts e t := by
  unfold State.handlerStep at h
  split at h
  · cases h
    exact .signal
  · split at h <;> cases h
    rename_i hroom
    exact .handlerWrites hroom.1
  · cases h

theorem moves_select {caller : Caller} {w : Nat} {ok : Bool} (hpc : s.pc = .selectQueues caller w)
    (h : s.mainStep asserts (.select ok) = some t) : s.Moves p asserts (.select ok) t := by
  simp only [State.mainStep, hpc] at h
  split at h <;> cases h
  rename_i hkeep
  by_cases hconn : s.connection.conn = none
  · rw [if_pos hconn]
    exact .nullConn hpc hconn
  · rw [if_neg hconn]
    exact .selected hpc hkeep hconn

theorem moves_poll {r : PollResult} (hpc : s.pc = .poll) (h : s.mainStep asserts (.poll r) = some t) :
    s.Moves p asserts (.poll r) t := by
  simp only [State.mainStep, hpc] at h
  split at h
  swap
  · cases h
  rename_i hkeep
  cases r with
  | interrupted =>
    cases h
    exact .pollInterrupted hpc
  | failed =>
    cases h
    exact .pollFailed hpc hkeep
  | ready conn killPipe =>
    dsimp only at h
    split at h <;> cases h
    rename_i hready
    rw [Bool.and_eq_true, decide_eq_true_eq] at hready
    exact .pollReady hpc hkeep hready.2 hready.1

theorem moves_notifies {killPipe : Bool} {extra : Option Bytes} (hpc : s.pc = .notifies killPipe)
    (h : s.mainStep asserts (.notifies extra) = some t) : s.Moves p asserts (.notifies extra) t := by
  simp only [State.mainStep, hpc] at h
  split at h <;> cases h
  rename_i hkeep
  cases extra with
  | none => exact .notifiesRead hpc hkeep
  | some extra =>
    refine .notified hpc hkeep ?_
    dsimp only
    split
    · exact .inl rfl
    · exact .inr (.inl rfl)
    · exact .inr (.inr rfl)

theorem moves_read {r : ReadResult} {b : Nat} (hpc : s.pc = .readKillPipe b)
    (h : s.readKillPipe b r = some t) : s.Moves p asserts (.read r) t := by
  unfold State.readKillPipe at h
  cases r with
  | interrupted =>
    cases h
    exact .readInterrupted hpc
  | failed =>
    cases h
    exact .readFailed hpc
  | data n =>
    dsimp only at h
    split at h <;> cases h
    rename_i hall
    by_cases hn : n = 0
    · subst hn
      exact .readAll hpc
    · rw [if_neg hn]
      exact .readSome hpc hall.1 (Nat.pos_of_ne_zero hn)

theorem moves_mainStep (h : s.mainStep asserts e = some t) : s.Moves p asserts e t := by
  have hstep := h
  unfold State.mainStep at h
  split at h
  case h_1 hpc =>
    obtain ⟨c, hc, rfl⟩ := Option.map_eq_some_iff.mp h
    exact .connection hpc hc
  case h_2 hpc => exact moves_select hpc hstep
  case h_3 hpc =>
    split at h <;> cases h
    exact .gaveUp hpc (Bool.eq_false_iff.mpr ‹_›)
  case h_4 hpc =>
    cases h
    exact .sleepFor hpc
  case h_5 hpc =>
    cases h
    exact .listen hpc
  case h_6 hpc => exact moves_poll hpc hstep
  case h_7 hpc =>
    split at h <;> cases h
    exact .pollEnds hpc (Bool.eq_false_iff.mpr ‹_›)
  case h_8 hpc =>
    cases h
    exact .polled hpc
  case h_9 hpc => exact moves_notifies hpc hstep
  case h_10 hpc =>
    split at h <;> cases h
    exact .notifiesEnds hpc (Bool.eq_false_iff.mpr ‹_›)
  case h_11 hpc => exact moves_read hpc h
  case h_12 hpc =>
    cases h
    exact .stopAllRunners hpc
  case h_13 => cases h

theorem moves_of_step (h : Step p asserts s e t) : s.Moves p asserts e t := by
  unfold Step State.step at h
  rw [Option.or_eq_some_iff] at h
  rcases h with h | ⟨-, h⟩
  · exact moves_handlerStep h
  · exact moves_mainStep h

end PgCmdQueue.MainThread
