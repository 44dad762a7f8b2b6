import PgCmdQueue.Extension.SqlErrorish
import PgCmdQueue.Lib.SortedMap
import PgCmdQueue.Pq.AsText
import PgCmdQueue.QueueCmd
import Mathlib.Algebra.Order.Ring.Rat
import Mathlib.Data.Char
import Mathlib.Logic.Function.Iterate

/-!
# `SqlQueueCmd::update_params`

The errors of an SQL command go into the queue as values of type `sql_errorish`. The daemon
takes the fields of an error from a map that is ordered by their codes.
-/

namespace PgCmdQueue

open Cpp Postgres Pq

/-- `PG_DIAG_SEVERITY` and the others, as `postgres_ext.h` defines them. -/
def PgDiag.code : PgDiag → Char
  | .severity => 'S'
  | .severityNonlocalized => 'V'
  | .sqlstate => 'C'
  | .messagePrimary => 'M'
  | .messageDetail => 'D'
  | .messageHint => 'H'
  | .statementPosition => 'P'
  | .internalPosition => 'p'
  | .internalQuery => 'q'
  | .context => 'W'
  | .schemaName => 's'
  | .tableName => 't'
  | .columnName => 'c'
  | .datatypeName => 'd'
  | .constraintName => 'n'
  | .sourceFile => 'F'
  | .sourceLine => 'L'
  | .sourceFunction => 'R'

/-- The order of `postgres_ext.h`, of `resultErrorFields` and of the columns of the type. -/
def pgDiags : List PgDiag :=
  [.severity, .severityNonlocalized, .sqlstate, .messagePrimary, .messageDetail, .messageHint,
    .statementPosition, .internalPosition, .internalQuery, .context, .schemaName, .tableName,
    .columnName, .datatypeName, .constraintName, .sourceFile, .sourceLine, .sourceFunction]

/-- The order of the codes. -/
def pgDiagsByCode : List PgDiag :=
  [.sqlstate, .messageDetail, .sourceFile, .messageHint, .sourceLine, .messagePrimary,
    .statementPosition, .sourceFunction, .severity, .severityNonlocalized, .context, .columnName,
    .datatypeName, .constraintName, .internalPosition, .internalQuery, .schemaName, .tableName]

/-! ## What is sent -/

abbrev ErrorMap := SortedMap Char (Option Bytes)

/-- `PQresultErrorField` returns a C string, or a null pointer for a field that is absent. -/
def resultErrorFields (resultErrorField : PgDiag → Option Bytes) : ErrorMap :=
  .ofList (pgDiags.map fun field => (field.code, (resultErrorField field).map cStr))

def valuesToVector (m : ErrorMap) : List (Option Bytes) := m.entries.map (·.2)

structure SqlQueueCmd.Finished extends SqlQueueCmd where
  cmdRuntimeStart : ℚ
  cmdRuntimeEnd : ℚ
  cmdSqlResultStatus : Bytes
  cmdSqlFatalError : Option ErrorMap
  cmdSqlNonfatalErrors : List ErrorMap

/-- `formatF` stands for `formatString("%f", ...)`. -/
def SqlQueueCmd.Finished.updateParams (formatF : ℚ → Bytes) (cmd : SqlQueueCmd.Finished) :
    List (Option Bytes) :=
  [some cmd.metadata.cmdId,
    cmd.metadata.cmdSubid,
    some (formatF cmd.cmdRuntimeStart),
    some (formatF cmd.cmdRuntimeEnd),
    some cmd.cmdSqlResultStatus,
    some (ascii "null"),
    cmd.cmdSqlFatalError.map fun e => asTextCompositeValue (valuesToVector e),
    some (asTextArrayOfStrings
      (cmd.cmdSqlNonfatalErrors.map fun e => asTextCompositeValue (valuesToVector e)))]

/-! ## What is read -/

def sqlErrorishOfRow (columns : List (Option Bytes)) : SqlErrorish :=
  fun field => (columns[pgDiags.idxOf field]?).join

def sqlErrorishIn (text : Bytes) : Option SqlErrorish :=
  (recordIn pgDiags.length text).map sqlErrorishOfRow

def sqlErrorishArrayIn (text : Bytes) : Option (List (Option SqlErrorish)) := do
  (← arrayIn text).mapM fun
    | none => some none
    | some element => (sqlErrorishIn element).map some

/-- The error of a result, as the columns should have it. -/
def sqlErrorishOfResult (resultErrorField : PgDiag → Option Bytes) : SqlErrorish :=
  fun field => (resultErrorField field).map cStr

def SqlQueueCmd.Finished.withErrors (cmd : SqlQueueCmd.Finished)
    (fatal : Option (PgDiag → Option Bytes)) (nonfatal : List (PgDiag → Option Bytes)) :
    SqlQueueCmd.Finished :=
  { cmd with
    cmdSqlFatalError := fatal.map resultErrorFields
    cmdSqlNonfatalErrors := nonfatal.map resultErrorFields }

/-- `$7` and `$8` are read as the errors that the command had. -/
def ErrorsArrive (params : List (Option Bytes)) (fatal : Option (PgDiag → Option Bytes))
    (nonfatal : List (PgDiag → Option Bytes)) : Prop :=
  params[6]?.map (·.map sqlErrorishIn) = some (fatal.map fun e => some (sqlErrorishOfResult e)) ∧
    params[7]?.join.bind sqlErrorishArrayIn =
      some (nonfatal.map fun e => some (sqlErrorishOfResult e))

/-! ## Where the columns get their values from -/

/-- The field whose value is filed under a column. -/
def PgDiag.filed : PgDiag → PgDiag
  | .severity => .sqlstate
  | .severityNonlocalized => .messageDetail
  | .sqlstate => .sourceFile
  | .messagePrimary => .messageHint
  | .messageDetail => .sourceLine
  | .messageHint => .messagePrimary
  | .statementPosition => .statementPosition
  | .internalPosition => .sourceFunction
  | .internalQuery => .severity
  | .context => .severityNonlocalized
  | .schemaName => .context
  | .tableName => .columnName
  | .columnName => .datatypeName
  | .datatypeName => .constraintName
  | .constraintName => .internalPosition
  | .sourceFile => .internalQuery
  | .sourceLine => .schemaName
  | .sourceFunction => .tableName

/-- The columns that pass their values round among themselves. -/
def PgDiag.ring : PgDiag → Fin 5
  | .severity | .sqlstate | .sourceFile | .internalQuery => 0
  | .severityNonlocalized | .messageDetail | .sourceLine | .schemaName | .context => 1
  | .messagePrimary | .messageHint => 2
  | .statementPosition => 3
  | .internalPosition | .sourceFunction | .tableName | .columnName | .datatypeName
  | .constraintName => 4

/-- Nothing is missing, and the order makes no difference. -/
structure EvenOnRings (e : SqlErrorish) : Prop where
  present : ∀ field, e field ≠ none
  ring : ∀ field field', field.ring = field'.ring → e field = e field'

variable {e : SqlErrorish} {formatF : ℚ → Bytes} {resultErrorField : PgDiag → Option Bytes}

theorem mem_pgDiags (field : PgDiag) : field ∈ pgDiags := by
  cases field <;> decide

theorem valuesToVector_resultErrorFields : valuesToVector (resultErrorFields resultErrorField) =
    pgDiagsByCode.map (sqlErrorishOfResult resultErrorField) := by
  have hperm : pgDiags.Perm pgDiagsByCode := by decide
  have hsorted : pgDiagsByCode.Pairwise fun field field' => field.code < field'.code := by decide
  rw [valuesToVector, resultErrorFields,
    SortedMap.ofList_entries (hperm.map _) (List.pairwise_map.mpr hsorted), List.map_map]
  rfl

theorem sqlErrorishOfRow_pgDiagsByCode (f : PgDiag → Option Bytes) (column : PgDiag) :
    sqlErrorishOfRow (pgDiagsByCode.map f) column = f column.filed := by
  cases column <;> rfl

/-- Every column has a value, and it is that of another field for all but one of them. -/
theorem sqlErrorishIn_resultErrorFields :
    sqlErrorishIn (asTextCompositeValue (valuesToVector (resultErrorFields resultErrorField))) =
      some fun column => takenFor (sqlErrorishOfResult resultErrorField column.filed) := by
  have hnul : ∀ f ∈ pgDiagsByCode.map (sqlErrorishOfResult resultErrorField), ∀ x ∈ f, NulFree x := by
    intro f hf x hx
    obtain ⟨field, -, rfl⟩ := List.mem_map.mp hf
    obtain ⟨y, -, rfl⟩ := Option.mem_map.mp hx
    exact nulFree_cStr y
  have hread := recordIn_asTextCompositeValue (by simp [pgDiagsByCode]) hnul
  rw [List.map_map] at hread
  have hlength : (pgDiagsByCode.map (sqlErrorishOfResult resultErrorField)).length =
      pgDiags.length := rfl
  rw [hlength] at hread
  rw [valuesToVector_resultErrorFields, sqlErrorishIn, hread, Option.map_some]
  congr 1
  funext column
  exact sqlErrorishOfRow_pgDiagsByCode _ column

/-- Going round a ring often enough, every column is the source of every other. -/
theorem exists_filed_iterate (field field' : PgDiag) (h : field.ring = field'.ring) :
    ∃ k < 6, PgDiag.filed^[k] field = field' := by
  have hall : ∀ field ∈ pgDiags, ∀ field' ∈ pgDiags, field.ring = field'.ring →
      ∃ k < 6, PgDiag.filed^[k] field = field' := by decide
  exact hall field (mem_pgDiags field) field' (mem_pgDiags field') h

theorem ring_filed (field : PgDiag) : field.filed.ring = field.ring := by
  cases field <;> rfl

theorem evenOnRings_iff : EvenOnRings e ↔ (fun column => takenFor (e column.filed)) = e := by
  constructor
  · intro h
    funext column
    rw [h.ring _ _ (ring_filed column), takenFor]
    obtain ⟨x, hx⟩ := Option.ne_none_iff_exists'.mp (h.present column)
    rw [hx, Option.getD_some]
  · intro h
    have hpresent : ∀ field, e field ≠ none := by
      intro field hnone
      rw [← h] at hnone
      cases hnone
    have hstep : ∀ field, e field.filed = e field := by
      intro field
      obtain ⟨x, hx⟩ := Option.ne_none_iff_exists'.mp (hpresent field.filed)
      have := congrFun h field
      rw [← this, hx]
      rfl
    refine ⟨hpresent, ?_⟩
    intro field field' hring
    obtain ⟨k, -, rfl⟩ := exists_filed_iterate field field' hring
    clear hring
    induction k with
    | zero => rfl
    | succ k ih => rw [Function.iterate_succ_apply', hstep, ih]

theorem errorText_reads_iff (resultErrorField : PgDiag → Option Bytes) :
    sqlErrorishIn (asTextCompositeValue (valuesToVector (resultErrorFields resultErrorField))) =
      some (sqlErrorishOfResult resultErrorField) ↔
      EvenOnRings (sqlErrorishOfResult resultErrorField) := by
  rw [sqlErrorishIn_resultErrorFields, evenOnRings_iff, Option.some_inj]

theorem nulFree_errorText :
    NulFree (asTextCompositeValue (valuesToVector (resultErrorFields resultErrorField))) := by
  apply nulFree_asTextCompositeValue
  rw [valuesToVector_resultErrorFields]
  intro f hf x hx
  obtain ⟨field, -, rfl⟩ := List.mem_map.mp hf
  obtain ⟨y, -, rfl⟩ := Option.mem_map.mp hx
  exact nulFree_cStr y

/-- The array adds nothing to it, and loses nothing. -/
theorem sqlErrorishArrayIn_errorTexts (nonfatal : List (PgDiag → Option Bytes)) :
    sqlErrorishArrayIn (asTextArrayOfStrings (nonfatal.map fun e =>
        asTextCompositeValue (valuesToVector (resultErrorFields e)))) =
      some (nonfatal.map fun e =>
        some fun column => takenFor (sqlErrorishOfResult e column.filed)) := by
  have hnul : ∀ x ∈ nonfatal.map fun e =>
      asTextCompositeValue (valuesToVector (resultErrorFields e)), NulFree x := by
    intro x hx
    obtain ⟨e, -, rfl⟩ := List.mem_map.mp hx
    exact nulFree_errorText
  rw [sqlErrorishArrayIn, arrayIn_asTextArrayOfStrings hnul]
  simp only [Option.bind_eq_bind, Option.bind_some, List.map_map]
  clear hnul
  induction nonfatal with
  | nil => rfl
  | cons e nonfatal ih =>
    simp only [List.map_cons, List.mapM_cons, Function.comp_apply, sqlErrorishIn_resultErrorFields,
      Option.map_some, ih]
    rfl

theorem fatalError_arrives_iff (formatF : ℚ → Bytes) (cmd : SqlQueueCmd.Finished)
    (fatal : Option (PgDiag → Option Bytes)) (nonfatal : List (PgDiag → Option Bytes)) :
    ((cmd.withErrors fatal nonfatal).updateParams formatF)[6]?.map (·.map sqlErrorishIn) =
        some (fatal.map fun e => some (sqlErrorishOfResult e)) ↔
      ∀ e ∈ fatal, EvenOnRings (sqlErrorishOfResult e) := by
  cases fatal with
  | none => simp [SqlQueueCmd.Finished.updateParams, SqlQueueCmd.Finished.withErrors]
  | some e =>
    have hread := errorText_reads_iff e
    simpa [SqlQueueCmd.Finished.updateParams, SqlQueueCmd.Finished.withErrors] using hread

theorem nonfatalErrors_arrive_iff (formatF : ℚ → Bytes) (cmd : SqlQueueCmd.Finished)
    (fatal : Option (PgDiag → Option Bytes)) (nonfatal : List (PgDiag → Option Bytes)) :
    ((cmd.withErrors fatal nonfatal).updateParams formatF)[7]?.join.bind sqlErrorishArrayIn =
        some (nonfatal.map fun e => some (sqlErrorishOfResult e)) ↔
      ∀ e ∈ nonfatal, EvenOnRings (sqlErrorishOfResult e) := by
  have hread : ((cmd.withErrors fatal nonfatal).updateParams formatF)[7]?.join.bind
      sqlErrorishArrayIn = some (nonfatal.map fun e =>
        some fun column => takenFor (sqlErrorishOfResult e column.filed)) := by
    rw [← sqlErrorishArrayIn_errorTexts nonfatal]
    simp [SqlQueueCmd.Finished.updateParams, SqlQueueCmd.Finished.withErrors, Function.comp_def]
  rw [hread, Option.some_inj, List.map_inj_left]
  simp only [Option.some_inj, evenOnRings_iff]

/-- All errors arrive exactly if each of them is even on the rings. -/
theorem errorsArrive_iff (formatF : ℚ → Bytes) (cmd : SqlQueueCmd.Finished)
    (fatal : Option (PgDiag → Option Bytes)) (nonfatal : List (PgDiag → Option Bytes)) :
    ErrorsArrive ((cmd.withErrors fatal nonfatal).updateParams formatF) fatal nonfatal ↔
      (∀ e ∈ fatal, EvenOnRings (sqlErrorishOfResult e)) ∧
        ∀ e ∈ nonfatal, EvenOnRings (sqlErrorishOfResult e) :=
  and_congr (fatalError_arrives_iff formatF cmd fatal nonfatal)
    (nonfatalErrors_arrive_iff formatF cmd fatal nonfatal)

/-- `SELECT FROM nosuch`. -/
def undefinedTable : PgDiag → Option Bytes
  | .severity => some (ascii "ERROR")
  | .severityNonlocalized => some (ascii "ERROR")
  | .sqlstate => some (ascii "42P01")
  | .messagePrimary => some (ascii "relation \"nosuch\" does not exist")
  | .statementPosition => some (ascii "13")
  | .sourceFile => some (ascii "parse_relation.c")
  | .sourceLine => some (ascii "1449")
  | .sourceFunction => some (ascii "parserOpenTable")
  | _ => none

def selectNosuch : SqlQueueCmd.Finished where
  metadata := { cmdId := ascii "1" }
  cmdSql := ascii "SELECT FROM nosuch"
  cmdRuntimeStart := 0
  cmdRuntimeEnd := 0
  cmdSqlResultStatus := ascii "PGRES_FATAL_ERROR"
  cmdSqlFatalError := none
  cmdSqlNonfatalErrors := []

/-- The SQLSTATE is the name of a file of the server. -/
theorem not_errorsArrive_undefinedTable : ¬ErrorsArrive
    ((selectNosuch.withErrors (some undefinedTable) []).updateParams fun _ => ascii "0.000000")
    (some undefinedTable) [] := by
  intro h
  have heven := (fatalError_arrives_iff _ selectNosuch (some undefinedTable) []).mp h.1
  have := (heven undefinedTable rfl).ring .sqlstate .sourceFile rfl
  revert this
  decide

end PgCmdQueue
