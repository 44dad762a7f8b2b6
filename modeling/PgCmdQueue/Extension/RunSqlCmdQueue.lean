import PgCmdQueue.Cpp
import PgCmdQueue.Extension.SqlErrorish
import PgCmdQueue.Lib.Run

/-!
# `run_sql_cmd_queue`

The procedure works through a queue of SQL commands in one call. Its variables are those of the
procedure and not of the loop, so that what one command leaves in them is there for the next.
-/

namespace PgCmdQueue.RunSqlCmdQueue

/-! ## What a command does -/

inductive SqlStatusType where
  | emptyQuery
  | commandOk
  | tuplesOk
  | badResponse
  | fatalError
  deriving DecidableEq

/-- How the block of a command ends. The debug message is composed before the command is
executed, and rows may have been fetched before it fails. -/
inductive Execution where
  | unprintable (d : StackedDiagnostics)
  | returns (rows : List Bytes)
  | raises (rows : List Bytes) (d : StackedDiagnostics)

/-! ## The loop -/

/-- The variables that outlive an iteration. A row is the text of its JSON object. -/
structure Vars where
  cmdSqlResultStatus : Option SqlStatusType := none
  cmdSqlResultRows : Option (List Bytes) := none
  cmdSqlFatalError : Option SqlErrorish := none

structure Update where
  cmdId : Bytes
  cmdSubid : Option Bytes
  cmdSqlResultStatus : Option SqlStatusType
  cmdSqlFatalError : Option SqlErrorish
  cmdSqlResultRows : Option (List Bytes)

/-- `coalesce(rows || row, row)`. -/
def appendRow (rows : Option (List Bytes)) (row : Bytes) : Option (List Bytes) :=
  some (match rows with
    | some rows => rows ++ [row]
    | none => [row])

/-- The length of NULL is NULL, which is not greater than 0. -/
def Vars.detectStatus (v : Vars) : SqlStatusType :=
  match v.cmdSqlResultRows with
  | some rows => if 0 < rows.length then .tuplesOk else .commandOk
  | none => .commandOk

/-- `exception when others`. An assignment to a field of NULL makes a row. -/
def Vars.whenOthers (v : Vars) (d : StackedDiagnostics) : Vars := { v with
  cmdSqlResultStatus := some .fatalError
  cmdSqlFatalError := some (severityException (d.into (v.cmdSqlFatalError.getD sqlErrorishNull))) }

def Vars.runSqlCmd (v : Vars) : Execution → Vars
  | .unprintable d => v.whenOthers d
  | .returns rows =>
    let v := { v with cmdSqlResultRows := rows.foldl appendRow none }
    { v with cmdSqlResultStatus := some v.detectStatus }
  | .raises rows d => ({ v with cmdSqlResultRows := rows.foldl appendRow none } : Vars).whenOthers d

def Vars.update (v : Vars) (cmdId : Bytes) (cmdSubid : Option Bytes) : Update where
  cmdId := cmdId
  cmdSubid := cmdSubid
  cmdSqlResultStatus := v.cmdSqlResultStatus
  cmdSqlFatalError := v.cmdSqlFatalError
  cmdSqlResultRows := v.cmdSqlResultRows

structure Params where
  maxIterations : Option Int
  iterateUntilEmpty : Bool

/-- `performed` has the UPDATE of each command that was selected, and what the command did. -/
structure State where
  vars : Vars := {}
  i : Nat := 0
  performed : List (Execution × Update) := []
  exited : Bool := false

/-- A SELECT without a row leaves NULLs, and the EXECUTE of NULL raises an error that `nothing`
has. Errors outside of the block, and the ones that OTHERS does not match, end the call. -/
inductive Event where
  | command (cmdId : Bytes) (cmdSubid : Option Bytes) (x : Execution)
  | nothing (d : StackedDiagnostics)
  | aborts

/-- The end of an iteration. `_i` is an `int`. -/
def State.next (p : Params) (s : State) (v : Vars) : State := { s with
  vars := v
  i := s.i + 1
  exited := p.maxIterations = some (s.i + 1 : Int) || 2147483647 ≤ s.i }

def State.step (p : Params) (s : State) (e : Event) : Option State :=
  if s.exited then none
  else
    let v := { s.vars with cmdSqlResultStatus := none }
    match e with
    | .command cmdId cmdSubid x =>
      let v := v.runSqlCmd x
      some ({ s with performed := s.performed ++ [(x, v.update cmdId cmdSubid)] }.next p v)
    | .nothing d =>
      if p.iterateUntilEmpty then some { s with exited := true }
      else some (s.next p (v.runSqlCmd (.raises [] d)))
    | .aborts => some { s with exited := true }

def Step (p : Params) (s : State) (e : Event) (t : State) : Prop := s.step p e = some t

/-! ## A command's own outcome -/

def Execution.error : Execution → Option StackedDiagnostics
  | .unprintable d => some d
  | .returns _ => none
  | .raises _ d => some d

def Execution.rows : Execution → List Bytes
  | .unprintable _ => []
  | .returns rows => rows
  | .raises rows _ => rows

def Execution.status (x : Execution) : SqlStatusType :=
  if x.error.isSome then .fatalError else if x.rows = [] then .commandOk else .tuplesOk

/-- NULL stands for no rows. -/
def resultRows (rows : List Bytes) : Option (List Bytes) := if rows = [] then none else some rows

structure Update.RecordsOwn (u : Update) (x : Execution) : Prop where
  status : u.cmdSqlResultStatus = some x.status
  fatalError : u.cmdSqlFatalError = x.error.map sqlErrorishOf
  rows : u.cmdSqlResultRows = resultRows x.rows

/-- What the earlier iterations have executed, an empty queue included. -/
def Event.execution : Event → Option Execution
  | .command _ _ x => some x
  | .nothing d => some (.raises [] d)
  | .aborts => none

def executions (tr : List Event) : List Execution := tr.filterMap Event.execution

/-- The rows of the last one that came to be executed at all. -/
def leftRows (before : List Execution) : List Bytes :=
  before.foldl (fun rows x => match x with
    | .unprintable _ => rows
    | x => x.rows) []

def Execution.executed : Execution → Bool
  | .unprintable _ => false
  | _ => true

/-- A success comes after successes only, and what is not even executed after no rows. -/
structure Clean (before : List Execution) (x : Execution) : Prop where
  error : x.error = none → ∀ y ∈ before, y.error = none
  rows : x.executed = false → leftRows before = []

variable {p : Params} {s t : State} {tr : List Event} {e : Event} {v : Vars} {x : Execution}
  {before : List Execution} {rows : List Bytes} {d : StackedDiagnostics}

/-! ## One command -/

theorem foldl_appendRow (rows : List Bytes) (left : List Bytes) :
    rows.foldl appendRow (resultRows left) = resultRows (left ++ rows) := by
  induction rows generalizing left with
  | nil => rw [List.foldl_nil, List.append_nil]
  | cons row rows ih =>
    have hone : appendRow (resultRows left) row = resultRows (left ++ [row]) := by
      unfold appendRow resultRows
      cases left <;> simp
    rw [List.foldl_cons, hone, ih, List.append_assoc, List.singleton_append]

theorem foldl_appendRow_none (rows : List Bytes) : rows.foldl appendRow none = resultRows rows :=
  foldl_appendRow rows []

theorem detectStatus_resultRows (h : v.cmdSqlResultRows = resultRows rows) :
    v.detectStatus = if rows = [] then .commandOk else .tuplesOk := by
  unfold Vars.detectStatus
  rw [h]
  unfold resultRows
  by_cases hrows : rows = []
  · rw [if_pos hrows, if_pos hrows]
  · rw [if_neg hrows, if_neg hrows]
    exact if_pos (List.length_pos_iff.mpr hrows)

/-- What the variables bring along from the iterations `before`. -/
structure Carries (before : List Execution) (v : Vars) : Prop where
  rows : v.cmdSqlResultRows = resultRows (leftRows before)
  error : v.cmdSqlFatalError = none ∨ ∃ d, v.cmdSqlFatalError = some (sqlErrorishOf d)
  stale : v.cmdSqlFatalError = none ↔ ∀ y ∈ before, y.error = none

theorem carries_nil : Carries [] {} := ⟨rfl, .inl rfl, iff_of_true rfl nofun⟩

/-- An error takes the place of an earlier one in every column. -/
theorem fatalError_whenOthers
    (hv : v.cmdSqlFatalError = none ∨ ∃ d, v.cmdSqlFatalError = some (sqlErrorishOf d))
    (d : StackedDiagnostics) : (v.whenOthers d).cmdSqlFatalError = some (sqlErrorishOf d) := by
  unfold Vars.whenOthers
  rcases hv with hnone | ⟨d', hsome⟩
  · rw [hnone]
    rfl
  · rw [hsome, Option.getD_some, severityException_into]

/-- Only a failure assigns the error. -/
theorem fatalError_runSqlCmd (hv : Carries before v) (x : Execution) :
    (v.runSqlCmd x).cmdSqlFatalError =
      (x.error.map sqlErrorishOf).or (if x.error.isSome then none else v.cmdSqlFatalError) := by
  cases x with
  | unprintable d => exact fatalError_whenOthers hv.error d
  | returns rows => rfl
  | raises rows d =>
    let u : Vars := { v with cmdSqlResultRows := rows.foldl appendRow none }
    have hu : u.cmdSqlFatalError = none ∨ ∃ d, u.cmdSqlFatalError = some (sqlErrorishOf d) := hv.error
    exact fatalError_whenOthers hu d

theorem rows_runSqlCmd (v : Vars) (x : Execution) : (v.runSqlCmd x).cmdSqlResultRows =
    if x.executed then resultRows x.rows else v.cmdSqlResultRows := by
  cases x with
  | unprintable d => rfl
  | returns rows => exact foldl_appendRow_none rows
  | raises rows d => exact foldl_appendRow_none rows

theorem status_runSqlCmd (v : Vars) (x : Execution) :
    (v.runSqlCmd x).cmdSqlResultStatus = some x.status := by
  cases x with
  | unprintable d => rfl
  | returns rows => exact congrArg some (detectStatus_resultRows (foldl_appendRow_none rows))
  | raises rows d => rfl

theorem leftRows_append (before : List Execution) (x : Execution) :
    leftRows (before ++ [x]) = if x.executed then x.rows else leftRows before := by
  unfold leftRows
  rw [List.foldl_append]
  cases x <;> rfl

theorem carries_runSqlCmd (hv : Carries before v) (x : Execution) :
    Carries (before ++ [x]) (v.runSqlCmd x) := by
  have herror := fatalError_runSqlCmd hv x
  refine ⟨?_, ?_, ?_⟩
  · rw [rows_runSqlCmd, leftRows_append, hv.rows]
    split <;> rfl
  · rw [herror]
    cases hx : x.error with
    | some d => exact .inr ⟨d, rfl⟩
    | none => exact hv.error
  · rw [herror]
    simp only [List.forall_mem_append, List.forall_mem_singleton]
    cases hx : x.error with
    | some d => exact iff_of_false nofun fun h => nomatch h.2
    | none => exact hv.stale.trans ⟨fun h => ⟨h, rfl⟩, And.left⟩

theorem resultRows_eq_nil : resultRows rows = resultRows [] ↔ rows = [] := by
  unfold resultRows
  by_cases hrows : rows = []
  · simp [hrows]
  · simp [hrows]

theorem recordsOwn_update_iff (hv : Carries before v) (cmdId : Bytes) (cmdSubid : Option Bytes) :
    ((v.runSqlCmd x).update cmdId cmdSubid).RecordsOwn x ↔ Clean before x := by
  have herror := fatalError_runSqlCmd hv x
  have hrows := rows_runSqlCmd v x
  constructor
  · intro h
    refine ⟨fun hx => hv.stale.mp ?_, fun hx => ?_⟩
    · rw [hx] at herror
      have hown : (v.runSqlCmd x).cmdSqlFatalError = none := by
        rw [show (v.runSqlCmd x).cmdSqlFatalError = x.error.map sqlErrorishOf from h.fatalError, hx]
        rfl
      exact herror.symm.trans hown
    · cases x with
      | unprintable d => exact resultRows_eq_nil.mp (hv.rows.symm.trans h.rows)
      | returns rows => cases hx
      | raises rows d => cases hx
  · intro h
    refine ⟨status_runSqlCmd v x, herror.trans ?_, hrows.trans ?_⟩
    · cases hx : x.error with
      | some d => rfl
      | none => exact hv.stale.mpr (h.error hx)
    · cases x with
      | unprintable d => exact hv.rows.trans (congrArg resultRows (h.rows rfl))
      | returns rows => rfl
      | raises rows d => rfl

/-! ## A whole call -/

/-- An iteration either goes through the block, or ends the call without an UPDATE. -/
theorem step_cases (h : Step p s e t) :
    (∃ x v, e.execution = some x ∧ v = ({ s.vars with cmdSqlResultStatus := none } : Vars).runSqlCmd x ∧
      t.vars = v ∧ ((∃ cmdId cmdSubid, e = .command cmdId cmdSubid x ∧
          t.performed = s.performed ++ [(x, v.update cmdId cmdSubid)]) ∨
        (∃ d, e = .nothing d) ∧ t.performed = s.performed)) ∨
    (t.exited = true ∧ t.performed = s.performed ∧ ∀ cmdId cmdSubid x, e ≠ .command cmdId cmdSubid x) := by
  unfold Step State.step at h
  split at h
  · cases h
  dsimp only at h
  cases e with
  | command cmdId cmdSubid x =>
    cases h
    exact .inl ⟨x, _, rfl, rfl, rfl, .inl ⟨cmdId, cmdSubid, rfl, rfl⟩⟩
  | nothing d =>
    dsimp only at h
    split at h <;> cases h
    · exact .inr ⟨rfl, rfl, nofun⟩
    · exact .inl ⟨.raises [] d, _, rfl, rfl, rfl, .inr ⟨⟨d, rfl⟩, rfl⟩⟩
  | aborts =>
    cases h
    exact .inr ⟨rfl, rfl, nofun⟩

theorem exited_of_step (h : Step p s e t) : s.exited = false := by
  unfold Step State.step at h
  split at h
  · cases h
  · exact Bool.eq_false_iff.mpr ‹_›

theorem executions_snoc (tr : List Event) (e : Event) :
    executions (tr ++ [e]) = executions tr ++ e.execution.toList := by
  unfold executions
  rw [List.filterMap_append]
  cases h : e.execution <;> simp [h]

theorem carries_step (hs : s.exited = false → Carries (executions tr) s.vars) (h : Step p s e t) :
    t.exited = false → Carries (executions (tr ++ [e])) t.vars := by
  intro hlive
  have hv := hs (exited_of_step h)
  rcases step_cases h with ⟨x, v, hx, rfl, ht, -⟩ | ⟨hexited, -⟩
  · rw [executions_snoc, hx, ht]
    exact carries_runSqlCmd ⟨hv.rows, hv.error, hv.stale⟩ x
  · rw [hexited] at hlive
    cases hlive

theorem carries_run (h : Transition.Run (Step p) {} tr s) :
    s.exited = false → Carries (executions tr) s.vars :=
  h.invariant (I := fun tr (s : State) => s.exited = false → Carries (executions tr) s.vars)
    (fun _ => carries_nil) fun _ _ _ _ => carries_step

/-- Each command of the call comes after a history that leaves nothing of its own behind. -/
def AllClean (tr : List Event) : Prop :=
  ∀ before cmdId cmdSubid x after, tr = before ++ .command cmdId cmdSubid x :: after →
    Clean (executions before) x

theorem allClean_snoc : AllClean (tr ++ [e]) ↔
    AllClean tr ∧ ∀ cmdId cmdSubid x, e = .command cmdId cmdSubid x → Clean (executions tr) x := by
  constructor
  · intro h
    refine ⟨fun before cmdId cmdSubid x after htr => h before cmdId cmdSubid x (after ++ [e]) ?_,
      fun cmdId cmdSubid x he => h tr cmdId cmdSubid x [] (by rw [he])⟩
    rw [htr, List.append_assoc, List.cons_append]
  · rintro ⟨h, hlast⟩ before cmdId cmdSubid x after htr
    rcases List.eq_nil_or_concat after with rfl | ⟨after, e', rfl⟩
    · obtain ⟨rfl, he⟩ := List.append_inj' htr rfl
      exact hlast cmdId cmdSubid x (List.singleton_inj.mp he)
    · rw [List.concat_eq_append, ← List.cons_append, ← List.append_assoc] at htr
      exact h before cmdId cmdSubid x after (List.append_inj' htr rfl).1

/-- The UPDATE of each command records its own outcome exactly where no command that succeeds
comes after one that failed, and none that is not even executed after rows. -/
theorem recordsOwn_iff (h : Transition.Run (Step p) {} tr s) :
    (∀ done ∈ s.performed, done.2.RecordsOwn done.1) ↔ AllClean tr := by
  induction h with
  | nil => exact iff_of_true nofun fun before _ _ _ _ htr => absurd htr (by simp)
  | @snoc tr s t e hrun hstep ih =>
    have hv := carries_run hrun (exited_of_step hstep)
    have hblock : Carries (executions tr) { s.vars with cmdSqlResultStatus := none } :=
      ⟨hv.rows, hv.error, hv.stale⟩
    rw [allClean_snoc, ← ih]
    rcases step_cases hstep with ⟨x, v, -, rfl, -, ⟨cmdId, cmdSubid, rfl, ht⟩ | ⟨⟨d, rfl⟩, ht⟩⟩ |
      ⟨-, ht, hnone⟩
    · have hown := recordsOwn_update_iff (x := x) hblock cmdId cmdSubid
      rw [ht, List.forall_mem_append, List.forall_mem_singleton, hown]
      refine and_congr_right fun _ => ⟨fun hclean id subid y heq => ?_, fun h => h _ _ _ rfl⟩
      cases heq
      exact hclean
    · rw [ht]
      exact (and_iff_left nofun).symm
    · rw [ht]
      exact (and_iff_left fun id subid y heq => absurd heq (hnone id subid y)).symm

/-! ## A division by zero, and what comes after it -/

def untilEmpty : Params := { maxIterations := none, iterateUntilEmpty := true }

def selectOne : Event := .command (ascii "one") none (.returns [ascii "[1]"])

def divisionByZero : Event := .command (ascii "1/0") none (.raises [] {
  returnedSqlstate := ascii "22012"
  messageText := ascii "division by zero" })

theorem allClean_nil : AllClean [] := fun before _ _ _ _ htr => absurd htr (by simp)

theorem recordsOwn_selectOne : ∃ s, Transition.Run (Step untilEmpty) {} [selectOne, divisionByZero] s ∧
    s.performed.length = 2 ∧ ∀ done ∈ s.performed, done.2.RecordsOwn done.1 := by
  have hlast : ∃ s, [selectOne, divisionByZero].foldlM (State.step untilEmpty) {} = some s := ⟨_, rfl⟩
  obtain ⟨s, hs⟩ := hlast
  have hrun : Transition.Run (Step untilEmpty) {} [selectOne, divisionByZero] s := .of_foldlM hs
  refine ⟨s, hrun, ?_, (recordsOwn_iff hrun).mpr ?_⟩
  · cases hs
    rfl
  have hone : AllClean ([] ++ [selectOne]) := by
    refine allClean_snoc.mpr ⟨allClean_nil, ?_⟩
    rintro _ _ _ ⟨⟩
    exact ⟨fun _ => nofun, fun _ => rfl⟩
  refine allClean_snoc.mpr ⟨hone, ?_⟩
  rintro _ _ _ ⟨⟩
  exact ⟨nofun, nofun⟩

/-- The success is recorded with the error of the command before it. -/
theorem not_recordsOwn_divisionByZero : ∃ s,
    Transition.Run (Step untilEmpty) {} [divisionByZero, selectOne] s ∧
      ¬∀ done ∈ s.performed, done.2.RecordsOwn done.1 := by
  have hlast : ∃ s, [divisionByZero, selectOne].foldlM (State.step untilEmpty) {} = some s := ⟨_, rfl⟩
  obtain ⟨s, hs⟩ := hlast
  refine ⟨s, .of_foldlM hs, fun h => ?_⟩
  cases hs
  exact nomatch (h _ (List.mem_cons_of_mem _ List.mem_cons_self)).fatalError

end PgCmdQueue.RunSqlCmdQueue
