import PgCmdQueue.Cpp

/-!
# The composite type `sql_errorish`

Its columns are the fields of an error that libpq can be asked for.
-/

namespace PgCmdQueue

/-- The `PG_DIAG_` fields, in the order of `postgres_ext.h`. -/
inductive PgDiag where
  | severity
  | severityNonlocalized
  | sqlstate
  | messagePrimary
  | messageDetail
  | messageHint
  | statementPosition
  | internalPosition
  | internalQuery
  | context
  | schemaName
  | tableName
  | columnName
  | datatypeName
  | constraintName
  | sourceFile
  | sourceLine
  | sourceFunction
  deriving DecidableEq

/-- A value of the type, by its columns. -/
abbrev SqlErrorish := PgDiag → Option Bytes

def sqlErrorishNull : SqlErrorish := fun _ => none

/-! ## In PL/pgSQL -/

/-- What `GET STACKED DIAGNOSTICS` is asked for. None of it is ever NULL. -/
structure StackedDiagnostics where
  returnedSqlstate : Bytes := []
  messageText : Bytes := []
  pgExceptionDetail : Bytes := []
  pgExceptionHint : Bytes := []
  schemaName : Bytes := []
  tableName : Bytes := []
  columnName : Bytes := []
  pgDatatypeName : Bytes := []
  constraintName : Bytes := []
  pgExceptionContext : Bytes := []

def StackedDiagnostics.into (d : StackedDiagnostics) (e : SqlErrorish) : SqlErrorish
  | .sqlstate => some d.returnedSqlstate
  | .messagePrimary => some d.messageText
  | .messageDetail => some d.pgExceptionDetail
  | .messageHint => some d.pgExceptionHint
  | .schemaName => some d.schemaName
  | .tableName => some d.tableName
  | .columnName => some d.columnName
  | .datatypeName => some d.pgDatatypeName
  | .constraintName => some d.constraintName
  | .context => some d.pgExceptionContext
  | column => e column

def severityException (e : SqlErrorish) : SqlErrorish
  | .severity => some (ascii "EXCEPTION")
  | .severityNonlocalized => some (ascii "EXCEPTION")
  | column => e column

/-- An error on its own, in a variable that was NULL. -/
def sqlErrorishOf (d : StackedDiagnostics) : SqlErrorish := severityException (d.into sqlErrorishNull)

/-- The six columns that are never assigned stay as they are. -/
theorem severityException_into (d d' : StackedDiagnostics) :
    severityException (d.into (sqlErrorishOf d')) = sqlErrorishOf d := by
  funext column
  cases column <;> rfl

end PgCmdQueue
