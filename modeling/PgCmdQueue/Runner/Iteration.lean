import PgCmdQueue.Lib.Transaction
import PgCmdQueue.Runner.Session

/-!
# One iteration of a runner, statement by statement

Here the transaction is the server's. Every statement can fail or lose the connection, and the
runner goes on as it does: it looks at the status of the result, and at the transaction status
at the end. `updated_cmd` and the other settings of the session are left out.
-/

namespace PgCmdQueue.Runner.Iteration

open Transaction (Change Status)

variable {R X : Type}

/-! ## Results -/

/-- `ExecStatusType` of libpq. -/
inductive ExecStatus where
  | emptyQuery
  | commandOk
  | tuplesOk
  | copyOut
  | copyIn
  | badResponse
  | nonfatalError
  | fatalError
  | copyBoth
  | singleTuple
  | pipelineSync
  | pipelineAborted
  deriving DecidableEq

def pqResStatus : ExecStatus → String
  | .emptyQuery => "PGRES_EMPTY_QUERY"
  | .commandOk => "PGRES_COMMAND_OK"
  | .tuplesOk => "PGRES_TUPLES_OK"
  | .copyOut => "PGRES_COPY_OUT"
  | .copyIn => "PGRES_COPY_IN"
  | .badResponse => "PGRES_BAD_RESPONSE"
  | .nonfatalError => "PGRES_NONFATAL_ERROR"
  | .fatalError => "PGRES_FATAL_ERROR"
  | .copyBoth => "PGRES_COPY_BOTH"
  | .singleTuple => "PGRES_SINGLE_TUPLE"
  | .pipelineSync => "PGRES_PIPELINE_SYNC"
  | .pipelineAborted => "PGRES_PIPELINE_ABORTED"

/-- The result of a statement that was performed. `row` is the row of the queue that was
selected or updated, and `value` the number in the first field. -/
structure Reply (R : Type) where
  status : ExecStatus
  row : Option R := none
  value : Nat := 0

/-- The result of one that was not. No result at all has the status of a fatal error. -/
structure Failure where
  status : ExecStatus
  errorField : Char → Option String
  failed : status = .badResponse ∨ status = .fatalError

/-- A `PGresult`. -/
abbrev Result (R : Type) := Except Failure (Reply R)

def resultStatus : Result R → ExecStatus
  | .ok r => r.status
  | .error f => f.status

def resultErrorField : Result R → Char → Option String
  | .ok _, _ => none
  | .error f, field => f.errorField field

/-- The `PG_DIAG_` codes, in the order of the source. -/
def pgDiagFields : List Char :=
  ['S', 'V', 'C', 'M', 'D', 'H', 'P', 'p', 'q', 'W', 's', 't', 'c', 'd', 'n', 'F', 'L', 'R']

abbrev ErrorFields := List (Char × Option String)

def resultErrorFields (result : Result R) : ErrorFields :=
  pgDiagFields.map fun field => (field, resultErrorField result field)

/-! ## Statements -/

/-- What update_cmd writes. The exit status of a child is not looked at here. -/
inductive UpdateParams where
  | nix
  | sql (cmdSqlResultStatus : String) (cmdSqlFatalError : Option ErrorFields)
  deriving DecidableEq

/-- What a statement does to the database: what a command wants, or the UPDATE of the queue for
a selected row. -/
inductive Effect (R X : Type) where
  | ofCmd (x : X)
  | update (queueCmd : R) (params : UpdateParams)
  deriving DecidableEq

/-- What `cmd_sql` does when it is performed, and what its deferred triggers do later. It may
write rows of the queue as well. -/
structure Does (R X : Type) where
  effects : List (Change X R) := []
  deferred : List (Change X R) := []

def ofCmd (changes : List (Change X R)) : List (Change (Effect R X) R) :=
  changes.map fun c => { what := .ofCmd c.what, writes := c.writes }

inductive CmdClass where
  | nix
  | sql

/-- The queue, whose rows are told apart from later ones with the same key. -/
structure Queue (R : Type) where
  cmdClass : CmdClass
  keyOf : R → Key

abbrev Session (R X : Type) := Transaction.Session (Effect R X) R
abbrev Stmt (R X : Type) := Transaction.Stmt (Effect R X) R (Reply R)
abbrev Outcome (R : Type) := Transaction.Outcome (Reply R) Failure
abbrev World (R X : Type) := Transaction.World (Effect R X) R (Option R)

/-- A part of the runner. Its mark is the row whose `run_cmd` is being executed. -/
abbrev Prog (R X α : Type) := Transaction.Prog (Effect R X) R (Reply R) Failure (Option R) α

def exec (stmt : Stmt R X) : Prog R X (Result R) := .exec stmt .ret

def transactionStatus : Prog R X Status := .status .ret

def command (c : Transaction.Control) : Stmt R X := .control c (·.status = .commandOk)

/-- Any of the prepared SELECT statements, with FOR UPDATE. Which row a free choice prefers is
left open. -/
def selectCmd (q : Queue R) (notifyCmd : Option Key) : Stmt R X :=
  .query
    (fun r => r.status = .tuplesOk && r.row.all fun row => notifyCmd.all (· = q.keyOf row))
    (fun _ => []) (fun r => r.row.toList)

/-- `cmd_sql` can come back with any status. -/
def cmdSql (does : Does R X) : Stmt R X :=
  .query (fun _ => true) (fun _ => ofCmd does.effects) (fun _ => [])

def setConstraintsAllImmediate (does : Does R X) : Stmt R X :=
  .query (·.status = .commandOk) (fun _ => ofCmd does.deferred) (fun _ => [])

/-- `WHERE cmd_id = $1 AND cmd_subid IS NOT DISTINCT FROM $2`, which need not find a row. -/
def updateCmd (q : Queue R) (queueCmd : R) (params : UpdateParams) : Stmt R X :=
  .query
    (fun r => r.status = .commandOk && r.row.all fun row => q.keyOf row = q.keyOf queueCmd)
    (fun r => [{ what := .update queueCmd params, writes := r.row.toList }]) (fun _ => [])

/-- A procedure or function that touches nothing but the settings of the session. -/
def call (status : ExecStatus) : Stmt R X :=
  .query (·.status = status) (fun _ => []) (fun _ => [])

/-! ## SqlQueueCmd::run_cmd -/

/-- The members of the command that `run_cmd` sets, and its two flags. -/
structure SqlRun where
  cmdSqlResultStatus : String := ""
  cmdSqlFatalError : Option ErrorFields := none
  sqlCmdItselfHasFailed : Bool := false
  sqlBookkeepingHasFailed : Bool := false

namespace SqlRun

def savepoint (c : SqlRun) : Prog R X SqlRun := do
  let result ← exec (command .savepoint)
  if resultStatus result = .commandOk then return c
  return { c with
    sqlBookkeepingHasFailed := true
    cmdSqlResultStatus := pqResStatus (resultStatus result)
    cmdSqlFatalError := some (resultErrorFields result) }

def execCmdSql (does : Does R X) (c : SqlRun) : Prog R X SqlRun := do
  if c.sqlBookkeepingHasFailed then return c
  let result ← exec (cmdSql does)
  let c := { c with cmdSqlResultStatus := pqResStatus (resultStatus result) }
  if resultStatus result = .tuplesOk then return c
  if resultStatus result = .commandOk then return c
  return { c with
    sqlCmdItselfHasFailed := true
    cmdSqlFatalError := some (resultErrorFields result) }

/-- If no error occured yet, let's see what happens when we fire off all the constraints. -/
def fireConstraints (does : Does R X) (c : SqlRun) : Prog R X SqlRun := do
  if c.cmdSqlFatalError.isSome then return c
  let result ← exec (setConstraintsAllImmediate does)
  if resultStatus result = .commandOk then return c
  return { c with
    sqlCmdItselfHasFailed := true
    cmdSqlResultStatus := pqResStatus (resultStatus result)
    cmdSqlFatalError := some (resultErrorFields result) }

/-- A failure here is logged and not recorded in the command. -/
def endSavepoint (c : SqlRun) : Prog R X SqlRun := do
  if c.sqlBookkeepingHasFailed then return c
  let result ← exec (command (if c.sqlCmdItselfHasFailed then .rollbackTo else .release))
  if resultStatus result = .commandOk then return c
  return { c with sqlBookkeepingHasFailed := true }

def runCmd (does : Does R X) : Prog R X SqlRun := do
  let c ← savepoint {}
  let c ← execCmdSql does c
  let c ← fireConstraints does c
  endSavepoint c

end SqlRun

/-! ## CmdQueueRunner::_run -/

/-- Only an SQL command needs the connection. -/
def runCmd (does : Does R X) : CmdClass → Prog R X UpdateParams
  | .nix => return .nix
  | .sql => do
    let c ← SqlRun.runCmd does
    return .sql c.cmdSqlResultStatus c.cmdSqlFatalError

def updateQueueCmd (q : Queue R) (queueCmd : R) (params : UpdateParams) : Prog R X Unit := do
  let updateResult ← exec (updateCmd q queueCmd params)
  if resultStatus updateResult = .commandOk then return
  let _ ← exec (command .rollback)
  -- cmdqd.remember_failed_update_for_this_reselect_round
  let _ ← exec (call .commandOk)

def runQueueCmd (q : Queue R) (does : Does R X) (queueCmd : R) : Prog R X Unit := do
  .mark (some queueCmd) (.ret ())
  let params ← runCmd does q.cmdClass
  .mark none (.ret ())
  updateQueueCmd q queueCmd params

/-- False when the thread ends, also by an exception. -/
def enterReselectRound : Prog R X Bool := do
  match ← exec (call .tuplesOk) with
  | .ok r => return r.status = .tuplesOk && (stoi r.value).isSome
  | .error _ => return false

def afterSelect (q : Queue R) (notifyCmd : Option Key) (does : R → Does R X)
    (selectResult : Result R) : Prog R X Bool :=
  match selectResult with
  | .error _ => return true
  | .ok r =>
    if r.status = .tuplesOk then
      match r.row, notifyCmd with
      | some queueCmd, _ => do
        runQueueCmd q (does queueCmd) queueCmd
        return true
      | none, none => enterReselectRound
      | none, some _ => return true
    else return true

/-- Where the runner goes next. -/
inductive Next where
  | select
  | poll
  | reconnect
  | leave
  deriving DecidableEq

def endTransaction : Prog R X Next := do
  match ← transactionStatus with
  | .unknown => return .reconnect
  | .inError => do
    let _ ← exec (command .rollback)
    return .poll
  | _ => do
    let _ ← exec (command .commit)
    return .poll

def iteration (q : Queue R) (notifyCmd : Option Key) (does : R → Does R X) :
    Prog R X Next := do
  let _ ← exec (command .begin)
  let selectResult ← exec (selectCmd q notifyCmd)
  if ← afterSelect q notifyCmd does selectResult then endTransaction
  else return .leave

/-- `CALL cmdqd.runner_session_start`. -/
def runnerSessionStart : Prog R X Next := do
  let procResult ← exec (call .commandOk)
  return if resultStatus procResult = .commandOk then .select else .leave

/-! ## A runner with its connection -/

abbrev Thread (R X : Type) :=
  Transaction.Thread (Effect R X) R (Reply R) Failure (Option R) Next

abbrev Label (R : Type) := Transaction.Label (Reply R) Failure

/-- `does` is what the command of each row would do in the current iteration. -/
structure Worker (R X : Type) where
  thread : Thread R X
  does : R → Does R X

/-- The steps of a runner between its statements, and what it does with the result of one. -/
inductive WorkerEvent (R X : Type) where
  | label (l : Label R)
  | connect (fresh : Bool)
  | consumeInputFails
  | iterate (notifyCmd : Option Key) (does : R → Does R X)
  | stop
  | close

namespace Worker

def session (w : Worker R X) : Session R X := w.thread.world.session

/-- What the current iteration has committed. -/
def committed (w : Worker R X) : List (Change (Effect R X) R) := w.thread.world.committed

/-- The row whose `run_cmd` is being executed. -/
def running (w : Worker R X) : Option R := w.thread.world.mark

/-- The runner is between two rounds, with `poll()` and the notifications that it has read. -/
def polls (w : Worker R X) : Bool :=
  match w.thread.prog with
  | .ret .poll => true
  | _ => false

def start : Worker R X where
  thread := { world := { session := .lost, mark := none }, prog := .ret .reconnect }
  does _ := {}

def goTo (w : Worker R X) (next : Next) : Worker R X :=
  { w with thread := { w.thread with prog := .ret next } }

def iterate (q : Queue R) (w : Worker R X) (notifyCmd : Option Key)
    (does : R → Does R X) : Worker R X where
  thread := {
    world := { w.thread.world with committed := [] }
    prog := iteration q notifyCmd does }
  does := does

/-- A runner selects when it has a new session, and after each wait. -/
def step (q : Queue R) (w : Worker R X) : WorkerEvent R X → Option (Worker R X)
  | .label l => (w.thread.step l).map fun t => { w with thread := t }
  | .connect fresh => match w.thread.prog with
    -- A connection that is still good is kept.
    | .ret .reconnect => some { w with thread := {
        world := { w.thread.world with session := if fresh then .idle else w.session }
        prog := runnerSessionStart } }
    | _ => none
  | .consumeInputFails => match w.thread.prog with
    | .ret .poll => some (w.goTo .reconnect)
    | _ => none
  | .iterate notifyCmd does => match w.thread.prog with
    | .ret .select => some (w.iterate q notifyCmd does)
    | .ret .poll => some (w.iterate q notifyCmd does)
    | _ => none
  | .stop => match w.thread.prog with
    | .ret _ => some (w.goTo .leave)
    | _ => none
  | .close => match w.thread.prog with
    | .ret .leave => some { w with thread := {
        world := { w.thread.world with session := .lost }, prog := .ret .leave } }
    | _ => none

def Step (q : Queue R) (w : Worker R X) (e : WorkerEvent R X) (w' : Worker R X) : Prop :=
  w.step q e = some w'

/-- The worlds in which the rest of the runner's program is right, by what has to hold during it
and at its end. Both may speak of the current iteration. -/
def Sound (may : Session R X → Stmt R X → Outcome R → Prop)
    (always : (R → Does R X) → World R X → Prop)
    (atEnd : (R → Does R X) → Next → World R X → Prop) (w : Worker R X) : Prop :=
  w.thread.prog.wp may (always w.does) (atEnd w.does) w.thread.world

/-- The statement that the step answers. -/
def answered (w : Worker R X) : WorkerEvent R X → Option (Stmt R X × Outcome R)
  | .label l => w.thread.answered l
  | _ => none

def commits (w : Worker R X) : WorkerEvent R X → List (Change (Effect R X) R)
  | .label l => w.thread.commits l
  | _ => []

def Permits (may : Session R X → Stmt R X → Outcome R → Prop) (w : Worker R X)
    (e : WorkerEvent R X) : Prop :=
  ∀ stmt o, w.answered e = some (stmt, o) → may w.session stmt o

variable {may : Session R X → Stmt R X → Outcome R → Prop}
  {always : (R → Does R X) → World R X → Prop}
  {atEnd : (R → Does R X) → Next → World R X → Prop} {q : Queue R} {w w' : Worker R X}
  {e : WorkerEvent R X}

/-- A runner stays sound when its two programs are, from where they start. -/
theorem Sound.step (h : w.Sound may always atEnd) (hmay : w.Permits may e)
    (hstep : w.step q e = some w')
    (reconnect : ∀ world (fresh : Bool), atEnd w.does .reconnect world →
      runnerSessionStart.wp may (always w.does) (atEnd w.does)
        { world with session := if fresh then .idle else world.session })
    (iterates : ∀ world next notifyCmd does, next = .select ∨ next = .poll →
      atEnd w.does next world →
      (iteration q notifyCmd does).wp may (always does) (atEnd does) { world with committed := [] })
    (disconnects : ∀ world, atEnd w.does .poll world → atEnd w.does .reconnect world)
    (leaves : ∀ world next, atEnd w.does next world → atEnd w.does .leave world)
    (closes : ∀ world, atEnd w.does .leave world →
      atEnd w.does .leave { world with session := .lost }) :
    w'.Sound may always atEnd := by
  obtain ⟨⟨world, prog⟩, does⟩ := w
  cases e with
  | label l =>
    obtain ⟨t, ht, rfl⟩ := Option.map_eq_some_iff.mp hstep
    exact Transaction.Thread.wp_step h hmay ht
  | connect fresh =>
    rcases prog with next | _ | _ | _ <;> try cases hstep
    cases next <;> cases hstep
    exact reconnect world fresh h
  | consumeInputFails =>
    rcases prog with next | _ | _ | _ <;> try cases hstep
    cases next <;> cases hstep
    exact disconnects world h
  | iterate notifyCmd does =>
    rcases prog with next | _ | _ | _ <;> try cases hstep
    cases next <;> cases hstep
    · exact iterates world .select notifyCmd does (.inl rfl) h
    · exact iterates world .poll notifyCmd does (.inr rfl) h
  | stop =>
    rcases prog with next | _ | _ | _ <;> cases hstep
    exact leaves world next h
  | close =>
    rcases prog with next | _ | _ | _ <;> try cases hstep
    cases next <;> cases hstep
    exact closes world h

/-- A step executes a statement, or it commits nothing and keeps or gives up the session. -/
theorem session_of_step (hstep : w.step q e = some w') :
    (∃ stmt o x, w.answered e = some (stmt, o) ∧ w.session.exec stmt o = some x ∧
      w'.session = x.session ∧ w.commits e = x.committed) ∨
    (w.answered e = none ∧ w.commits e = [] ∧
      (w'.session = w.session ∨ w'.session.levels = [])) := by
  obtain ⟨⟨world, prog⟩, does⟩ := w
  cases e with
  | label l =>
    obtain ⟨t, ht, rfl⟩ := Option.map_eq_some_iff.mp hstep
    cases l with
    | outcome o =>
      rcases prog with _ | ⟨stmt, next⟩ | _ | _ <;> try cases ht
      obtain ⟨x, hx, rfl⟩ := Option.map_eq_some_iff.mp ht
      refine .inl ⟨stmt, o, x, rfl, hx, rfl, ?_⟩
      change ((world.session.exec stmt o).map Transaction.Executed.committed).getD [] = _
      rw [hx]
      rfl
    | go =>
      rcases prog with _ | _ | next | ⟨m, next⟩ <;> cases ht <;> exact .inr ⟨rfl, rfl, .inl rfl⟩
  | connect fresh =>
    rcases prog with next | _ | _ | _ <;> try cases hstep
    cases next <;> cases hstep
    cases fresh
    · exact .inr ⟨rfl, rfl, .inl rfl⟩
    · exact .inr ⟨rfl, rfl, .inr rfl⟩
  | close =>
    rcases prog with next | _ | _ | _ <;> try cases hstep
    cases next <;> cases hstep
    exact .inr ⟨rfl, rfl, .inr rfl⟩
  | consumeInputFails | iterate notifyCmd does =>
    rcases prog with next | _ | _ | _ <;> try cases hstep
    cases next <;> cases hstep <;> exact .inr ⟨rfl, rfl, .inl rfl⟩
  | stop =>
    rcases prog with next | _ | _ | _ <;> cases hstep
    exact .inr ⟨rfl, rfl, .inl rfl⟩

end Worker

end PgCmdQueue.Runner.Iteration
