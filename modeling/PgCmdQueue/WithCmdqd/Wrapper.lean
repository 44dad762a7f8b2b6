import PgCmdQueue.Daemon
import PgCmdQueue.RunCmd.Outcome

/-!
# A command with a daemon beside it

`with_cmdqd` forks `pg_cmdqd`, waits for its SIGUSR1, then forks the command, and stops the daemon
when the command has ended. A signal can come between any two of its steps.
-/

namespace PgCmdQueue.WithCmdqd

open Cpp RunCmd

/-! ## The words of the command line -/

def exitCmdqdBinUnspecified : Nat := 4
def exitCmdqdForkError : Nat := 5
def exitCmdqdSigusr1Timeout : Nat := 6
def exitCmdqdFailure : Nat := 7
def exitPsqlForkError : Nat := 15
def exitPsqlWeirdWstatus : Nat := 18
def exitPsqlDOptArgMissing : Nat := 19

/-- The last argument of a `-d` becomes `PGDATABASE`. The error is an exit code. -/
def readDatabase (database : Option Bytes) : List Bytes → Except Nat (Option Bytes)
  | [] => .ok database
  | arg :: rest =>
    if arg = ascii "-d" then
      match rest with
      | [] => .error exitPsqlDOptArgMissing
      | name :: rest => readDatabase (some name) rest
    else readDatabase database rest

def cmdqdArgv (cmdqdPath : Bytes) : List Bytes :=
  [cmdqdPath, ascii "--emit-sigusr1-when-ready", ascii "--log-level", ascii "LOG_DEBUG5",
    ascii "--no-log-times"]

/-- `main()` up to the first `fork()`: the words of the daemon, and `PGDATABASE` for both children. -/
def prepare (pgCmdqdBin pgdatabase : Option Bytes) (args : List Bytes) :
    Except Nat (List Bytes × Option Bytes) :=
  match pgCmdqdBin with
  | none => .error exitCmdqdBinUnspecified
  | some cmdqdPath => do
    let database ← readDatabase pgdatabase args
    return (cmdqdArgv cmdqdPath, database)

/-- Whatever the words are, the daemon is told to report, and has no connection string. -/
theorem main_of_prepare {pgCmdqdBin pgdatabase database logTimes : Option Bytes} {args argv : List Bytes}
    (h : prepare pgCmdqdBin pgdatabase args = .ok (argv, database)) : Daemon.main none logTimes argv =
      .ok { logLevel := .debug5, logTimes := false, emitSigusr1WhenReady := true } := by
  cases pgCmdqdBin with
  | none => cases h
  | some cmdqdPath =>
    obtain ⟨_, -, hwords⟩ := bind_eq_ok h
    cases hwords
    rfl

/-! ## The two children -/

inductive Sig where
  | chld
  | usr1
  | term
  | int
  | quit
  deriving DecidableEq

def Sig.num : Sig → Nat
  | .chld => 17
  | .usr1 => 10
  | .term => 15
  | .int => 2
  | .quit => 3

/-- `waitpid(pid, &wstatus, 0)`. It returns at once for a process that is no child, and then
`wstatus` keeps the value that it happens to have. -/
def waitpid (garbage : Nat) : Option Child → Option (Option Child × Nat)
  | some .running => none
  | some (.zombie d) => some (some (.reaped d), d.wstatus)
  | child => some (child, garbage)

def Unreaped (child : Option Child) : Prop := child = some .running ∨ ∃ d, child = some (.zombie d)

def Reaped (child : Option Child) : Prop := ∃ d, child = some (.reaped d)

instance (child : Option Child) : Decidable (Reaped child) :=
  match child with
  | some (.reaped d) => .isTrue ⟨d, rfl⟩
  | some .running => .isFalse nofun
  | some (.zombie _) => .isFalse nofun
  | none => .isFalse nofun

/-- A child ends on its own. -/
def ends (d : Death) : Option Child → Option Child
  | some .running => some (.zombie d)
  | child => child

/-! ## The program -/

/-- The place in `main()` or in `clean_exit()`. A handler that calls `clean_exit()` does not
return, so no place has to be remembered behind it. -/
inductive Pc where
  | forkCmdqd
  /-- `fork()` has returned, but `cmdqd_pid` is not set. -/
  | assign
  | sleep
  | slept
  | forkPsql
  | waitPsql
  | psqlEnded (wstatus : Nat)
  | clean (code : Nat)
  | cleanWait (code : Nat)
  /-- `waitpid()` has returned, but `cmdqd_pid` is still set. -/
  | cleanReaped (code wstatus : Nat)
  | cleanStatus (code wstatus : Nat)
  | exiting (code : Nat)
  | exited (code : Nat)
  | aborted
  deriving DecidableEq

/-- What happened on the way. -/
structure History where
  /-- A signal ended the program before `cmdqd_pid` was set. -/
  early : Bool := false
  /-- A signal called `clean_exit()` after it had reaped the daemon. -/
  late : Bool := false
  psqlForkFailed : Bool := false
  /-- The daemon was sent SIGTERM while it was a child. -/
  terminated : Bool := false
  /-- SIGTERM was sent to the daemon's pid after the daemon was reaped. -/
  strayed : Bool := false
  deriving DecidableEq

/-- `handling` has the signals that are blocked because their handler runs. -/
structure State where
  pc : Pc := .forkCmdqd
  cmdqdPidSet : Bool := false
  cmdqdIsReady : Bool := false
  handling : List Sig := []
  cmdqd : Option Child := none
  psql : Option Child := none
  history : History := {}
  deriving DecidableEq

/-- The signal makes `handle_signal()` call `clean_exit()`. -/
def State.Fatal (s : State) (sig : Sig) : Prop := sig ≠ .chld ∧ ¬(sig = .usr1 ∧ s.cmdqdPidSet = true)

instance (s : State) (sig : Sig) : Decidable (s.Fatal sig) := inferInstanceAs (Decidable (_ ∧ _))

def State.handleSignal (s : State) (sig : Sig) : State :=
  if s.Fatal sig then { s with
    pc := .clean (128 + sig.num)
    handling := sig :: s.handling
    history := { s.history with
      early := s.history.early || s.pc = .assign
      late := s.history.late || match s.pc with
        | .cleanReaped _ _ => true
        | _ => false } }
  else if sig = .usr1 then { s with cmdqdIsReady := true }
  else s

def exitCodeOfPsql (wstatus : Nat) : Nat :=
  if wifexited wstatus then wexitstatus wstatus
  else if wifsignaled wstatus then 128 + wtermsig wstatus
  else exitPsqlWeirdWstatus

def State.kill (s : State) : State :=
  { s with history := { s.history with
      terminated := s.history.terminated || ¬Reaped s.cmdqd
      strayed := s.history.strayed || Reaped s.cmdqd } }

/-- What `clean_exit()` does with the daemon's status. -/
def State.checkCmdqd (s : State) (asserts : Bool) (code wstatus : Nat) : State :=
  { s with pc :=
      if wifsignaled wstatus then .exiting exitCmdqdFailure
      else if asserts ∧ ¬wifexited wstatus then .aborted
      else if wexitstatus wstatus ≠ 0 then .exiting exitCmdqdFailure
      else .exiting code }

def State.go (asserts : Bool) (s : State) : Option State :=
  match s.pc with
  | .assign => some { s with cmdqdPidSet := true, pc := .sleep }
  | .sleep => some { s with pc := .slept }
  | .slept => some { s with pc := if s.cmdqdIsReady then .forkPsql else .clean exitCmdqdSigusr1Timeout }
  | .psqlEnded wstatus => some { s with pc := .clean (exitCodeOfPsql wstatus) }
  | .clean code =>
    some (if s.cmdqdPidSet then { s.kill with pc := .cleanWait code } else { s with pc := .exiting code })
  | .cleanReaped code wstatus => some { s with cmdqdPidSet := false, pc := .cleanStatus code wstatus }
  | .cleanStatus code wstatus => some (s.checkCmdqd asserts code wstatus)
  | .exiting code => some { s with pc := .exited code }
  | _ => none

def State.fork (succeeds : Bool) (s : State) : Option State :=
  match s.pc with
  | .forkCmdqd => some (if succeeds then { s with cmdqd := some .running, pc := .assign }
      else { s with pc := .exiting exitCmdqdForkError })
  | .forkPsql => some (if succeeds then { s with psql := some .running, pc := .waitPsql }
      else { s with
        pc := .exiting exitPsqlForkError
        history := { s.history with psqlForkFailed := true } })
  | _ => none

def State.wait (garbage : Nat) (s : State) : Option State :=
  match s.pc with
  | .waitPsql => (waitpid garbage s.psql).map fun (psql, wstatus) =>
      { s with psql := psql, pc := .psqlEnded wstatus }
  | .cleanWait code => (waitpid garbage s.cmdqd).map fun (cmdqd, wstatus) =>
      { s with cmdqd := cmdqd, pc := .cleanReaped code wstatus }
  | _ => none

inductive Event where
  | go
  | fork (succeeds : Bool)
  | waitpid (garbage : Nat)
  | signal (sig : Sig)
  | cmdqdEnds (d : Death)
  | psqlEnds (d : Death)

def Pc.over : Pc → Bool
  | .exited _ => true
  | .aborted => true
  | _ => false

/-- A signal that comes while the program sleeps ends the sleep, and a `waitpid()` that it
interrupts is called again. -/
def State.step (asserts : Bool) (s : State) : Event → Option State
  | .go => s.go asserts
  | .fork succeeds => s.fork succeeds
  | .waitpid garbage => s.wait garbage
  | .signal sig => if s.pc.over ∨ sig ∈ s.handling then none else some (s.handleSignal sig)
  | .cmdqdEnds d => some { s with cmdqd := ends d s.cmdqd }
  | .psqlEnds d => some { s with psql := ends d s.psql }

def Step (asserts : Bool) (s : State) (e : Event) (t : State) : Prop := s.step asserts e = some t

end PgCmdQueue.WithCmdqd
