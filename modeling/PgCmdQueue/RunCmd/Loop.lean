import PgCmdQueue.Cpp
import PgCmdQueue.Lib.Run
import Mathlib.Data.PNat.Defs
import Mathlib.Data.Rat.Defs

/-!
# The poll loop of `run_cmd`

The loop from the fork on, the three pipes and the child. Between two steps of the loop the
child, or what it has left behind, can take any number of steps of its own.
-/

namespace PgCmdQueue.RunCmd

open Cpp

/-! ## Processes -/

inductive Death where
  | exited (status : Fin 256)
  | signaled (sig : { n : Nat // 0 < n ∧ n < 127 }) (coreDumped : Bool)
  deriving DecidableEq

/-- `exit(EXIT_SUCCESS)`. -/
def Death.success : Death := .exited ⟨0, by decide⟩

/-- The status that `waitpid()` stores. -/
def Death.wstatus : Death → Nat
  | .exited status => status * 256
  | .signaled sig coreDumped => sig + if coreDumped then 128 else 0

def wifexited (wstatus : Nat) : Bool := wstatus % 128 = 0

def wexitstatus (wstatus : Nat) : Nat := wstatus / 256 % 256

def wifsignaled (wstatus : Nat) : Bool := 0 < wstatus % 128 ∧ wstatus % 128 < 127

def wtermsig (wstatus : Nat) : Nat := wstatus % 128

inductive Child where
  | running
  | zombie (d : Death)
  | reaped (d : Death)
  deriving DecidableEq

inductive Errno where
  | eintr
  | eagain
  | epipe
  | other (n : Nat)
  deriving DecidableEq

def sigabrt : Nat := 6

def sigkill : Nat := 9

def sigterm : Nat := 15

/-! ## Pipes -/

/-- The child's end of stdin is `reader`. `taken` and `eof` tell what was read there. -/
structure StdinPipe where
  buf : Bytes := []
  reader : Bool := true
  taken : Bytes := []
  eof : Bool := false

/-- The child's end of stdout or stderr is `writer`. `written` tells all that was written there. -/
structure OutPipe where
  buf : Bytes := []
  writer : Bool := true
  written : Bytes := []

/-- `data` is POLLIN or POLLOUT, `hangup` is POLLERR or POLLHUP. -/
structure Revents where
  data : Bool := false
  hangup : Bool := false
  deriving DecidableEq

/-- `fd` tells that it is not -1, and `events` that POLLIN or POLLOUT is asked for. -/
structure PollFd where
  fd : Bool := true
  events : Bool := true
  revents : Revents := {}
  deriving DecidableEq

/-- What `poll()` can report of a descriptor: `data` only if asked for and not if nothing
could be done, a hangup whether asked for or not. -/
def PollFd.reports (p : PollFd) (able must gone : Bool) (r : Revents) : Bool :=
  if p.fd then
    (!r.data || (p.events && able)) && (!(p.events && must) || r.data) && r.hangup == gone
  else r = {}

/-- `fds[i].fd = -1` after a hangup. -/
def PollFd.hungUp (p : PollFd) : PollFd := if p.revents.hangup then { p with fd := false } else p

/-! ## The loop -/

/-- A row's command, with what the system does that the code cannot choose. -/
structure Call where
  cmdStdin : Bytes
  pid : ℕ+
  cmdRuntimeStart : ℚ
  queueCmdTimeoutSec : ℚ
  strerror : Errno → Bytes
  pipeBuf : ℕ+
  capacity : { n : Nat // pipeBuf ≤ n }

theorem capacity_pos (c : Call) : 0 < (c.capacity : Nat) := c.pipeBuf.pos.trans_le c.capacity.property

def graceSecondsBetweenSigtermAndSigkill : ℚ := 1

def cmdqdPipeBufferSize : Nat := 512

/-- Where the loop is: in front of a system call, or of a test. -/
inductive Pc where
  | top
  | waitpid
  | poll (timeout : Int)
  | timedOut
  | sigkilled
  | stdinReady
  | writeLoop
  | write
  | stdoutReady
  | readStdout
  | stderrReady
  | readStderr
  | hangups
  | left
  | waitpidAfter
  | outcome
  | finished
  | dead
  deriving DecidableEq

/-- `sent` has the signals that were sent to the child, and when. -/
structure State where
  clock : ℚ
  child : Child := .running
  stdin : StdinPipe := {}
  stdout : OutPipe := {}
  stderr : OutPipe := {}
  sent : List (Nat × ℚ) := []
  pc : Pc := .top
  now : ℚ := 0
  errno : Errno := .other 0
  wstatus : Nat := 0
  resPid : Int := 0
  reaped : Bool := false
  triedSigterm : Bool := false
  sigtermTime : ℚ := 0
  cumStdinBytesWritten : Nat := 0
  stdinWriteFd : Bool := true
  stdinFd : PollFd
  stdoutFd : PollFd := {}
  stderrFd : PollFd := {}
  cmdStdout : Bytes := []
  cmdStderr : Bytes := []
  cmdTermSig : Option Int := none
  cmdExitCode : Option Int := none

def init (c : Call) (clock : ℚ) : State :=
  { clock := clock, stdinFd := { events := !c.cmdStdin.isEmpty } }

/-! ## What the system calls return -/

inductive WaitResult where
  | failed (e : Errno)
  | running
  | died (d : Death)

structure PollReport where
  stdin : Revents := {}
  stdout : Revents := {}
  stderr : Revents := {}
  deriving DecidableEq

inductive PollResult where
  | failed (e : Errno)
  | none
  | ready (r : PollReport)

inductive WriteResult where
  | failed (e : Errno)
  | sigpipe
  | wrote (n : Nat)
  deriving DecidableEq

inductive ReadResult where
  | failed (e : Errno)
  | eof
  | data (n : Nat)

def State.waitpidReturns (s : State) (wnohang : Bool) : WaitResult → Bool
  | .failed _ => true
  | .running => wnohang && s.child = .running
  | .died d => s.child = .zombie d

def State.reports (c : Call) (s : State) (r : PollReport) : Bool :=
  s.stdinFd.reports (s.stdin.buf.length < c.capacity) (s.stdin.buf.isEmpty && s.stdin.reader)
    (!s.stdin.reader) r.stdin &&
  s.stdoutFd.reports (!s.stdout.buf.isEmpty || !s.stdout.writer) (!s.stdout.buf.isEmpty)
    (!s.stdout.writer) r.stdout &&
  s.stderrFd.reports (!s.stderr.buf.isEmpty || !s.stderr.writer) (!s.stderr.buf.isEmpty)
    (!s.stderr.writer) r.stderr

def State.pollReturns (c : Call) (s : State) (timeout : Int) : PollResult → Bool
  | .failed _ => true
  | .none => 0 ≤ timeout && s.reports c {}
  | .ready r => r ≠ {} && s.reports c r

/-- What remains to be written. -/
def State.remaining (c : Call) (s : State) : Nat := c.cmdStdin.length - s.cumStdinBytesWritten

def State.free (c : Call) (s : State) : Nat := c.capacity - s.stdin.buf.length

/-- Up to `PIPE_BUF` bytes are written as a whole. Without a reader there is only the signal. -/
def State.writeReturns (c : Call) (s : State) : WriteResult → Bool
  | .failed .eagain =>
    s.stdin.reader && s.free c < s.remaining c && (s.remaining c ≤ c.pipeBuf || s.free c = 0)
  | .failed .epipe => false
  | .failed _ => true
  | .sigpipe => !s.stdin.reader
  | .wrote n => s.stdin.reader && 0 < n && n ≤ s.remaining c && n ≤ s.free c &&
    (c.pipeBuf < s.remaining c || n = s.remaining c)

def OutPipe.readReturns (p : OutPipe) : ReadResult → Bool
  | .failed .eagain => p.buf.isEmpty && p.writer
  | .failed _ => true
  | .eof => p.buf.isEmpty && !p.writer
  | .data n => 0 < n && n ≤ cmdqdPipeBufferSize && n ≤ p.buf.length

/-! ## The parent -/

inductive ChildAct where
  | read (n : Nat)
  | seeEof
  | closeStdin
  | writeStdout (bs : Bytes)
  | closeStdout
  | writeStderr (bs : Bytes)
  | closeStderr
  | exit (d : Death) (inherited : Bool)

inductive Event where
  | go
  | waitpid (r : WaitResult)
  | poll (r : PollResult)
  | write (r : WriteResult)
  | read (r : ReadResult)
  | child (a : ChildAct)
  | tick (clock : ℚ)

/-- The conversion of a `double` to an `int`. -/
def toInt (x : ℚ) : Int := x.num.tdiv x.den

def State.pollTimeout (c : Call) (s : State) : Int :=
  if c.queueCmdTimeoutSec = 0 then -1
  else max 0 (toInt ((c.queueCmdTimeoutSec - (s.now - c.cmdRuntimeStart) +
    if s.triedSigterm then graceSecondsBetweenSigtermAndSigkill else 0) * 1000))

/-- Leaving the loop with an error of its own. -/
def State.abort (s : State) (what : String) (strerror : Bytes) : State :=
  { s with cmdStderr := ascii what ++ strerror, cmdTermSig := some sigabrt, pc := .left }

def State.onWaitpid (c : Call) (s : State) (next : Pc) : WaitResult → State
  | .failed e => { s with resPid := -1, errno := e, pc := next }
  | .running => { s with resPid := 0, pc := next }
  | .died d => { s with resPid := c.pid, wstatus := d.wstatus, child := .reaped d, pc := next }

def State.onPoll (c : Call) (s : State) : PollResult → State
  | .failed .eintr => { s with pc := .top }
  | .failed e => s.abort "poll() error: " (c.strerror e)
  | .none => { s with pc := .timedOut }
  | .ready r => { s with
      stdinFd := { s.stdinFd with revents := r.stdin }
      stdoutFd := { s.stdoutFd with revents := r.stdout }
      stderrFd := { s.stderrFd with revents := r.stderr }
      pc := .stdinReady }

/-- `fd_count == 0`. -/
def State.onTimedOut (c : Call) (s : State) : State :=
  if s.reaped then { s with pc := .left }
  else
    let s := { s with now := s.clock }
    if c.queueCmdTimeoutSec ≤ s.now - c.cmdRuntimeStart then
      if s.triedSigterm then
        if graceSecondsBetweenSigtermAndSigkill < s.now - s.sigtermTime then
          { s with sent := s.sent ++ [(sigkill, s.now)], pc := .sigkilled }
        else { s with pc := .top }
      else { s with
        sent := s.sent ++ [(sigterm, s.now)]
        triedSigterm := true
        sigtermTime := s.now
        pc := .top }
    else { s with pc := .top }

def State.onWrite (c : Call) (s : State) : WriteResult → State
  | .failed .eintr => { s with pc := .writeLoop }
  | .failed e => s.abort "Error during write() to cmd STDIN: " (c.strerror e)
  | .sigpipe => { s with stdinWriteFd := false, pc := .dead }
  | .wrote n => { s with
      stdin := { s.stdin with
        buf := s.stdin.buf ++ (c.cmdStdin.drop s.cumStdinBytesWritten).take n }
      cumStdinBytesWritten := s.cumStdinBytesWritten + n
      pc := .writeLoop }

/-- The test at the head of the inner loop, and what follows the loop. -/
def State.onWriteLoop (c : Call) (s : State) : State :=
  if s.cumStdinBytesWritten < c.cmdStdin.length then { s with pc := .write }
  else if s.cumStdinBytesWritten = c.cmdStdin.length then { s with
    stdinWriteFd := false
    stdinFd := { s.stdinFd with fd := false, events := false }
    pc := .stdoutReady }
  else { s with pc := .stdoutReady }

def OutPipe.read (p : OutPipe) (n : Nat) : OutPipe := { p with buf := p.buf.drop n }

def State.onReadStdout (c : Call) (s : State) : ReadResult → State
  | .failed .eagain => { s with pc := .stderrReady }
  | .failed e => s.abort "Error during read() from cmd STDOUT: " (c.strerror e)
  | .eof => { s with pc := .stderrReady }
  | .data n => { s with stdout := s.stdout.read n, cmdStdout := s.cmdStdout ++ s.stdout.buf.take n }

def State.onReadStderr (c : Call) (s : State) : ReadResult → State
  | .failed .eagain => { s with pc := .hangups }
  | .failed e => s.abort "Error during read() from cmd STDERR: " (c.strerror e)
  | .eof => { s with pc := .hangups }
  | .data n => { s with stderr := s.stderr.read n, cmdStderr := s.cmdStderr ++ s.stderr.buf.take n }

/-- After the loop. The destructors close what is still open. -/
def State.onOutcome (c : Call) (s : State) : State :=
  let s := { s with stdinWriteFd := false, pc := .finished }
  if s.resPid < 0 then { s with
    cmdTermSig := some (-1)
    cmdStderr := s.cmdStderr ++
      ascii s!"Unexpected error while calling `waitpid({(c.pid : Nat)}, &wstatus, WNOHANG)`: '" ++
      c.strerror s.errno ++ ascii "'" }
  else if 0 < s.resPid then
    if wifexited s.wstatus then { s with cmdExitCode := some (wexitstatus s.wstatus) }
    else if wifsignaled s.wstatus then { s with cmdTermSig := some (wtermsig s.wstatus) }
    else { s with cmdTermSig := some (-2) }
  else s

def State.loop (c : Call) (s : State) (e : Event) : Option State :=
  match s.pc, e with
  | .top, .go =>
    let s := { s with now := s.clock }
    some { s with pc := if s.reaped then .poll 0 else .waitpid }
  | .waitpid, .waitpid r =>
    if s.waitpidReturns true r then
      some (match r with
        | .died _ => { s.onWaitpid c (.poll 0) r with reaped := true }
        | .failed _ => s.onWaitpid c .left r
        | .running => s.onWaitpid c (.poll (s.pollTimeout c)) r)
    else none
  | .poll timeout, .poll r => if s.pollReturns c timeout r then some (s.onPoll c r) else none
  | .timedOut, .go => some (s.onTimedOut c)
  | .sigkilled, .waitpid r =>
    if s.waitpidReturns false r then some (s.onWaitpid c .left r) else none
  | .stdinReady, .go =>
    some { s with pc := if s.stdinFd.revents.data then .writeLoop else .stdoutReady }
  | .writeLoop, .go => some (s.onWriteLoop c)
  | .write, .write r => if s.writeReturns c r then some (s.onWrite c r) else none
  | .stdoutReady, .go =>
    some { s with pc := if s.stdoutFd.revents.data then .readStdout else .stderrReady }
  | .readStdout, .read r => if s.stdout.readReturns r then some (s.onReadStdout c r) else none
  | .stderrReady, .go =>
    some { s with pc := if s.stderrFd.revents.data then .readStderr else .hangups }
  | .readStderr, .read r => if s.stderr.readReturns r then some (s.onReadStderr c r) else none
  | .hangups, .go => some { s with
      stdinFd := s.stdinFd.hungUp
      stdoutFd := s.stdoutFd.hungUp
      stderrFd := s.stderrFd.hungUp
      pc := .top }
  | .left, .go => some { s with pc := if s.resPid = 0 then .waitpidAfter else .outcome }
  | .waitpidAfter, .waitpid r =>
    if s.waitpidReturns true r then some (s.onWaitpid c .outcome r) else none
  | .outcome, .go => some (s.onOutcome c)
  | _, _ => none

/-! ## The child and the clock -/

def OutPipe.write (p : OutPipe) (bs : Bytes) : OutPipe :=
  { p with buf := p.buf ++ bs, written := p.written ++ bs }

def OutPipe.canWrite (c : Call) (p : OutPipe) (bs : Bytes) : Bool :=
  p.writer && !bs.isEmpty && p.buf.length + bs.length ≤ c.capacity

/-- What is `inherited` stays open in the processes that the child has started. These may
take any of the other steps in its place. -/
def State.childStep (c : Call) (s : State) : ChildAct → Option State
  | .read n =>
    if s.stdin.reader && 0 < n && n ≤ s.stdin.buf.length then some { s with
      stdin := { s.stdin with buf := s.stdin.buf.drop n, taken := s.stdin.taken ++ s.stdin.buf.take n } }
    else none
  | .seeEof =>
    if s.stdin.reader && s.stdin.buf.isEmpty && !s.stdinWriteFd then
      some { s with stdin := { s.stdin with eof := true } }
    else none
  | .closeStdin => some { s with stdin := { s.stdin with reader := false } }
  | .writeStdout bs =>
    if s.stdout.canWrite c bs then some { s with stdout := s.stdout.write bs } else none
  | .closeStdout => some { s with stdout := { s.stdout with writer := false } }
  | .writeStderr bs =>
    if s.stderr.canWrite c bs then some { s with stderr := s.stderr.write bs } else none
  | .closeStderr => some { s with stderr := { s.stderr with writer := false } }
  | .exit d inherited =>
    if s.child = .running then some { s with
      child := .zombie d
      stdin := { s.stdin with reader := s.stdin.reader && inherited }
      stdout := { s.stdout with writer := s.stdout.writer && inherited }
      stderr := { s.stderr with writer := s.stderr.writer && inherited } }
    else none

def State.step (c : Call) (s : State) : Event → Option State
  | .child a => s.childStep c a
  | .tick clock => some { s with clock := clock }
  | e => s.loop c e

def Step (c : Call) (s : State) (e : Event) (t : State) : Prop := s.step c e = some t

/-- A command with one byte of input, and one without any. -/
def greeting : Call where
  cmdStdin := ascii "x"
  pid := 7
  cmdRuntimeStart := 0
  queueCmdTimeoutSec := 0
  strerror := fun _ => []
  pipeBuf := 4096
  capacity := ⟨65536, by decide⟩

def silent : Call := { greeting with cmdStdin := [] }

/-! ## What a step can be -/

variable {c : Call} {s t : State} {e : Event}

/-- One case for each place of the loop, and for each result of its first `waitpid()`. -/
inductive State.LoopMoves (c : Call) (s : State) : Event → State → Prop
  | top (pc : s.pc = .top) : s.LoopMoves c .go
      { s with now := s.clock, pc := if s.reaped then .poll 0 else .waitpid }
  | running (pc : s.pc = .waitpid) (returns : s.waitpidReturns true .running = true) :
      s.LoopMoves c (.waitpid .running) (s.onWaitpid c (.poll (s.pollTimeout c)) .running)
  | died {d : Death} (pc : s.pc = .waitpid) (returns : s.waitpidReturns true (.died d) = true) :
      s.LoopMoves c (.waitpid (.died d)) { s.onWaitpid c (.poll 0) (.died d) with reaped := true }
  | failed {err : Errno} (pc : s.pc = .waitpid)
      (returns : s.waitpidReturns true (.failed err) = true) :
      s.LoopMoves c (.waitpid (.failed err)) (s.onWaitpid c .left (.failed err))
  | poll {timeout : Int} {r : PollResult} (pc : s.pc = .poll timeout)
      (returns : s.pollReturns c timeout r = true) : s.LoopMoves c (.poll r) (s.onPoll c r)
  | timedOut (pc : s.pc = .timedOut) : s.LoopMoves c .go (s.onTimedOut c)
  | sigkilled {r : WaitResult} (pc : s.pc = .sigkilled) (returns : s.waitpidReturns false r = true) :
      s.LoopMoves c (.waitpid r) (s.onWaitpid c .left r)
  | stdinReady (pc : s.pc = .stdinReady) : s.LoopMoves c .go
      { s with pc := if s.stdinFd.revents.data then .writeLoop else .stdoutReady }
  | writeLoop (pc : s.pc = .writeLoop) : s.LoopMoves c .go (s.onWriteLoop c)
  | write {r : WriteResult} (pc : s.pc = .write) (returns : s.writeReturns c r = true) :
      s.LoopMoves c (.write r) (s.onWrite c r)
  | stdoutReady (pc : s.pc = .stdoutReady) : s.LoopMoves c .go
      { s with pc := if s.stdoutFd.revents.data then .readStdout else .stderrReady }
  | readStdout {r : ReadResult} (pc : s.pc = .readStdout) (returns : s.stdout.readReturns r = true) :
      s.LoopMoves c (.read r) (s.onReadStdout c r)
  | stderrReady (pc : s.pc = .stderrReady) : s.LoopMoves c .go
      { s with pc := if s.stderrFd.revents.data then .readStderr else .hangups }
  | readStderr {r : ReadResult} (pc : s.pc = .readStderr) (returns : s.stderr.readReturns r = true) :
      s.LoopMoves c (.read r) (s.onReadStderr c r)
  | hangups (pc : s.pc = .hangups) : s.LoopMoves c .go { s with
      stdinFd := s.stdinFd.hungUp
      stdoutFd := s.stdoutFd.hungUp
      stderrFd := s.stderrFd.hungUp
      pc := .top }
  | left (pc : s.pc = .left) :
      s.LoopMoves c .go { s with pc := if s.resPid = 0 then .waitpidAfter else .outcome }
  | waitpidAfter {r : WaitResult} (pc : s.pc = .waitpidAfter)
      (returns : s.waitpidReturns true r = true) : s.LoopMoves c (.waitpid r) (s.onWaitpid c .outcome r)
  | outcome (pc : s.pc = .outcome) : s.LoopMoves c .go (s.onOutcome c)

theorem loopMoves (h : s.loop c e = some t) : s.LoopMoves c e t := by
  unfold State.loop at h
  split at h
  case h_1 hpc => cases h; exact .top hpc
  case h_2 r hpc =>
    split at h <;> cases h
    rename_i hr
    rcases r with err | _ | d
    · exact .failed hpc hr
    · exact .running hpc hr
    · exact .died hpc hr
  case h_3 hpc => split at h <;> cases h; exact .poll hpc ‹_›
  case h_4 hpc => cases h; exact .timedOut hpc
  case h_5 hpc => split at h <;> cases h; exact .sigkilled hpc ‹_›
  case h_6 hpc => cases h; exact .stdinReady hpc
  case h_7 hpc => cases h; exact .writeLoop hpc
  case h_8 hpc => split at h <;> cases h; exact .write hpc ‹_›
  case h_9 hpc => cases h; exact .stdoutReady hpc
  case h_10 hpc => split at h <;> cases h; exact .readStdout hpc ‹_›
  case h_11 hpc => cases h; exact .stderrReady hpc
  case h_12 hpc => split at h <;> cases h; exact .readStderr hpc ‹_›
  case h_13 hpc => cases h; exact .hangups hpc
  case h_14 hpc => cases h; exact .left hpc
  case h_15 hpc => split at h <;> cases h; exact .waitpidAfter hpc ‹_›
  case h_16 hpc => cases h; exact .outcome hpc
  case h_17 => cases h

theorem loop_of_moves (h : s.LoopMoves c e t) : s.loop c e = some t := by
  cases h <;> unfold State.loop <;> simp only [*, if_true]

/-- One case for each thing that the child does. -/
inductive State.ChildMoves (c : Call) (s : State) : ChildAct → State → Prop
  | read {n : Nat} (reader : s.stdin.reader = true) (some : 0 < n) (enough : n ≤ s.stdin.buf.length) :
      s.ChildMoves c (.read n) { s with stdin := { s.stdin with
        buf := s.stdin.buf.drop n, taken := s.stdin.taken ++ s.stdin.buf.take n } }
  | seeEof (reader : s.stdin.reader = true) (buf : s.stdin.buf = [])
      (closed : s.stdinWriteFd = false) :
      s.ChildMoves c .seeEof { s with stdin := { s.stdin with eof := true } }
  | closeStdin : s.ChildMoves c .closeStdin { s with stdin := { s.stdin with reader := false } }
  | writeStdout {bs : Bytes} (can : s.stdout.canWrite c bs = true) :
      s.ChildMoves c (.writeStdout bs) { s with stdout := s.stdout.write bs }
  | closeStdout : s.ChildMoves c .closeStdout { s with stdout := { s.stdout with writer := false } }
  | writeStderr {bs : Bytes} (can : s.stderr.canWrite c bs = true) :
      s.ChildMoves c (.writeStderr bs) { s with stderr := s.stderr.write bs }
  | closeStderr : s.ChildMoves c .closeStderr { s with stderr := { s.stderr with writer := false } }
  | exit {d : Death} {inherited : Bool} (running : s.child = .running) :
      s.ChildMoves c (.exit d inherited) { s with
        child := .zombie d
        stdin := { s.stdin with reader := s.stdin.reader && inherited }
        stdout := { s.stdout with writer := s.stdout.writer && inherited }
        stderr := { s.stderr with writer := s.stderr.writer && inherited } }

theorem childMoves {a : ChildAct} (h : s.childStep c a = some t) : s.ChildMoves c a t := by
  unfold State.childStep at h
  cases a <;> dsimp only at h
  case read n =>
    split at h <;> cases h
    rename_i hcan
    simp only [Bool.and_eq_true, decide_eq_true_eq] at hcan
    exact .read hcan.1.1 hcan.1.2 hcan.2
  case seeEof =>
    split at h <;> cases h
    rename_i hcan
    simp only [Bool.and_eq_true, List.isEmpty_iff, Bool.not_eq_true'] at hcan
    exact .seeEof hcan.1.1 hcan.1.2 hcan.2
  case closeStdin => cases h; exact .closeStdin
  case writeStdout => split at h <;> cases h; exact .writeStdout ‹_›
  case closeStdout => cases h; exact .closeStdout
  case writeStderr => split at h <;> cases h; exact .writeStderr ‹_›
  case closeStderr => cases h; exact .closeStderr
  case exit => split at h <;> cases h; exact .exit ‹_›

inductive State.StepMoves (c : Call) (s : State) : Event → State → Prop
  | child {a : ChildAct} {t : State} (moves : s.ChildMoves c a t) : s.StepMoves c (.child a) t
  | tick {clock : ℚ} : s.StepMoves c (.tick clock) { s with clock := clock }
  | loop {e : Event} {t : State} (moves : s.LoopMoves c e t) : s.StepMoves c e t

theorem step_of_moves (h : s.LoopMoves c e t) : Step c s e t := by
  have hloop := loop_of_moves h
  cases h <;> exact hloop

theorem step_of_child {a : ChildAct} (h : s.ChildMoves c a t) : Step c s (.child a) t := by
  unfold Step State.step State.childStep
  cases h <;> simp [*]

theorem stepMoves (h : Step c s e t) : s.StepMoves c e t := by
  unfold Step State.step at h
  split at h
  · exact .child (childMoves h)
  · cases h
    exact .tick
  · exact .loop (loopMoves h)

/-! ## What a step of the loop leaves alone -/

/-- What only the child's side of the pipes changes. -/
structure Outside where
  reader : Bool
  taken : Bytes
  eof : Bool
  outWriter : Bool
  outWritten : Bytes
  errWriter : Bool
  errWritten : Bytes

def State.outside (s : State) : Outside where
  reader := s.stdin.reader
  taken := s.stdin.taken
  eof := s.stdin.eof
  outWriter := s.stdout.writer
  outWritten := s.stdout.written
  errWriter := s.stderr.writer
  errWritten := s.stderr.written

/-- The loop reaps a child that has ended, and fills the child's stdin where it writes. It
changes nothing else outside. -/
structure State.Leaves (c : Call) (s t : State) : Prop where
  outside : t.outside = s.outside
  child : t.child = s.child ∨ ∃ d, s.child = .zombie d ∧ t.child = .reaped d
  buf : s.pc ≠ .write →
    t.stdin.buf = s.stdin.buf ∧ t.cumStdinBytesWritten = s.cumStdinBytesWritten
  write : s.pc ≠ .write → t.pc = .write → s.cumStdinBytesWritten < c.cmdStdin.length

theorem leaves_onWaitpid {r : WaitResult} {wnohang : Bool} {next : Pc} (hnext : next ≠ .write)
    (hr : s.waitpidReturns wnohang r = true) : s.Leaves c (s.onWaitpid c next r) := by
  rcases r with err | _ | d
  · exact ⟨rfl, .inl rfl, fun _ => ⟨rfl, rfl⟩, fun _ hpc => absurd hpc hnext⟩
  · exact ⟨rfl, .inl rfl, fun _ => ⟨rfl, rfl⟩, fun _ hpc => absurd hpc hnext⟩
  · exact ⟨rfl, .inr ⟨d, of_decide_eq_true hr, rfl⟩, fun _ => ⟨rfl, rfl⟩, fun _ hpc => absurd hpc hnext⟩

theorem leaves_onPoll (r : PollResult) : s.Leaves c (s.onPoll c r) := by
  unfold State.onPoll
  split <;> exact ⟨rfl, .inl rfl, fun _ => ⟨rfl, rfl⟩, nofun⟩

theorem leaves_onTimedOut : s.Leaves c (s.onTimedOut c) := by
  unfold State.onTimedOut
  dsimp only
  split
  · exact ⟨rfl, .inl rfl, fun _ => ⟨rfl, rfl⟩, nofun⟩
  split
  · split
    · split <;> exact ⟨rfl, .inl rfl, fun _ => ⟨rfl, rfl⟩, nofun⟩
    · exact ⟨rfl, .inl rfl, fun _ => ⟨rfl, rfl⟩, nofun⟩
  · exact ⟨rfl, .inl rfl, fun _ => ⟨rfl, rfl⟩, nofun⟩

theorem leaves_onWriteLoop : s.Leaves c (s.onWriteLoop c) := by
  unfold State.onWriteLoop
  split
  · exact ⟨rfl, .inl rfl, fun _ => ⟨rfl, rfl⟩, fun _ _ => ‹_›⟩
  split <;> exact ⟨rfl, .inl rfl, fun _ => ⟨rfl, rfl⟩, nofun⟩

theorem leaves_onWrite (hpc : s.pc = .write) (r : WriteResult) : s.Leaves c (s.onWrite c r) := by
  unfold State.onWrite
  split <;> exact ⟨rfl, .inl rfl, fun hne => absurd hpc hne, fun hne => absurd hpc hne⟩

theorem leaves_onReadStdout (r : ReadResult) : s.Leaves c (s.onReadStdout c r) := by
  unfold State.onReadStdout
  split
  case h_4 => exact ⟨rfl, .inl rfl, fun _ => ⟨rfl, rfl⟩, fun hne hpc => absurd hpc hne⟩
  all_goals exact ⟨rfl, .inl rfl, fun _ => ⟨rfl, rfl⟩, nofun⟩

theorem leaves_onReadStderr (r : ReadResult) : s.Leaves c (s.onReadStderr c r) := by
  unfold State.onReadStderr
  split
  case h_4 => exact ⟨rfl, .inl rfl, fun _ => ⟨rfl, rfl⟩, fun hne hpc => absurd hpc hne⟩
  all_goals exact ⟨rfl, .inl rfl, fun _ => ⟨rfl, rfl⟩, nofun⟩

theorem leaves_onOutcome : s.Leaves c (s.onOutcome c) := by
  unfold State.onOutcome
  dsimp only
  split
  · exact ⟨rfl, .inl rfl, fun _ => ⟨rfl, rfl⟩, nofun⟩
  split
  · split
    · exact ⟨rfl, .inl rfl, fun _ => ⟨rfl, rfl⟩, nofun⟩
    split <;> exact ⟨rfl, .inl rfl, fun _ => ⟨rfl, rfl⟩, nofun⟩
  · exact ⟨rfl, .inl rfl, fun _ => ⟨rfl, rfl⟩, nofun⟩

theorem leaves_loop (h : s.LoopMoves c e t) : s.Leaves c t := by
  cases h with
  | running _ hr | failed _ hr => exact leaves_onWaitpid nofun hr
  | @died d _ hr =>
    have hleaves : s.Leaves c (s.onWaitpid c (.poll 0) (.died d)) := leaves_onWaitpid nofun hr
    exact ⟨hleaves.outside, hleaves.child, hleaves.buf, hleaves.write⟩
  | sigkilled _ hr | waitpidAfter _ hr => exact leaves_onWaitpid nofun hr
  | poll => exact leaves_onPoll _
  | timedOut => exact leaves_onTimedOut
  | writeLoop => exact leaves_onWriteLoop
  | write hpc => exact leaves_onWrite hpc _
  | readStdout => exact leaves_onReadStdout _
  | readStderr => exact leaves_onReadStderr _
  | outcome => exact leaves_onOutcome
  | hangups => exact ⟨rfl, .inl rfl, fun _ => ⟨rfl, rfl⟩, nofun⟩
  -- Tests that only choose where the loop goes on.
  | top | stdinReady | stdoutReady | stderrReady | left =>
    refine ⟨rfl, .inl rfl, fun _ => ⟨rfl, rfl⟩, fun _ => ?_⟩
    dsimp only
    split <;> nofun

end PgCmdQueue.RunCmd
