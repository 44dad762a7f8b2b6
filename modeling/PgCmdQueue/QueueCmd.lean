import PgCmdQueue.Pq.Array
import PgCmdQueue.Pq.HstoreText

/-!
# Commands decoded from a selected row

The constructors never throw. They leave what was decoded before the failure in the
object, and the runner executes the object as it is.
-/

namespace PgCmdQueue

open Cpp Postgres Pq

/-- One row of a `PGresult`, and the column numbers by name. -/
structure ResultRow where
  fieldNumbers : AList fun _ : Bytes => Nat
  values : Nat → Option Bytes

namespace ResultRow

/-- `field_numbers.at(name)`. -/
def fieldNumber (row : ResultRow) (name : String) : Except CppError Nat :=
  match row.fieldNumbers.lookup (ascii name) with
  | some n => .ok n
  | none => .error .outOfRange

def getisnull (row : ResultRow) (n : Nat) : Bool := (row.values n).isNone

/-- A NULL reads as the empty string. -/
def getvalue (row : ResultRow) (n : Nat) : Bytes := cStr ((row.values n).getD [])

def getnullable (row : ResultRow) (n : Nat) : Option Bytes := (row.values n).map cStr

/-- The value of a field that may not be NULL. -/
def notNull (row : ResultRow) (name : String) : Except CppError Bytes := do
  if row.getisnull (← row.fieldNumber name) then
    throw (.domainError s!"`{name}` should never be `NULL`.")
  return row.getvalue (← row.fieldNumber name)

end ResultRow

/-- The statements of a `try` block that fills an object: the object as the block left it,
and what it threw. -/
def tryBlock {σ : Type} : List (σ → Except CppError σ) → σ → σ × Option CppError
  | [], s => (s, none)
  | stmt :: stmts, s =>
    match stmt s with
    | .ok s => tryBlock stmts s
    | .error e => (s, some e)

/-- `catch (std::exception &)`: a failed assertion is not caught. -/
def caught {σ : Type} (completed failed : σ → σ) : σ × Option CppError → Except CppError σ
  | (s, none) => .ok (completed s)
  | (_, some (.assertion expr)) => .error (.assertion expr)
  | (s, some _) => .ok (failed s)

/-! ## The constructors -/

structure QueueCmdMetadata where
  isValid : Bool := false
  cmdClassIdentity : Bytes := []
  cmdClassRelname : Bytes := []
  cmdId : Bytes := []
  cmdSubid : Option Bytes := none

def QueueCmdMetadata.ofRow (row : ResultRow) : Except CppError QueueCmdMetadata :=
  caught (fun m => { m with isValid := true }) (fun m => { m with isValid := false }) <|
    tryBlock [
      fun m => do return { m with cmdClassIdentity := row.getvalue (← row.fieldNumber "cmd_class_identity") },
      fun m => do return { m with cmdClassRelname := row.getvalue (← row.fieldNumber "cmd_class_relname") },
      fun m => do return { m with cmdId := row.getvalue (← row.fieldNumber "cmd_id") },
      fun m => do return { m with cmdSubid := row.getnullable (← row.fieldNumber "cmd_subid") }] {}

structure NixQueueCmd where
  isValid : Bool := false
  metadata : QueueCmdMetadata
  cmdArgv : List Bytes := []
  cmdEnv : Env := ∅
  cmdStdin : Bytes := []

def decodeArgv (asserts : Bool) (row : ResultRow) : Except CppError (List Bytes) := do
  fromTextArray asserts (← row.notNull "cmd_argv")

def decodeEnv (row : ResultRow) : Except CppError Env := do
  throwIfMissingAnyValue (← fromTextHstore (← row.notNull "cmd_env"))

/-- NULL is no error here. -/
def decodeStdin (row : ResultRow) : Except CppError Bytes := do
  return row.getvalue (← row.fieldNumber "cmd_stdin")

def NixQueueCmd.ofRow (asserts : Bool) (row : ResultRow) : Except CppError NixQueueCmd := do
  let metadata ← QueueCmdMetadata.ofRow row
  caught (fun c => { c with isValid := true }) (fun c => { c with isValid := false }) <|
    tryBlock [
      fun c => do return { c with cmdArgv := ← decodeArgv asserts row },
      fun c => do return { c with cmdEnv := ← decodeEnv row },
      fun c => do return { c with cmdStdin := ← decodeStdin row }] { metadata := metadata }

structure SqlQueueCmd where
  isValid : Bool := false
  metadata : QueueCmdMetadata
  cmdSql : Bytes := []

def isBlank (c : Byte) : Bool := c == 10 || c == 9 || c == 32

def trimBlanks (x : Bytes) : Bytes := ((x.dropWhile isBlank).reverse.dropWhile isBlank).reverse

/-- No branch sets `isValid`. -/
def SqlQueueCmd.ofRow (row : ResultRow) : Except CppError SqlQueueCmd := do
  let metadata ← QueueCmdMetadata.ofRow row
  caught id (fun c => { c with isValid := false }) <|
    tryBlock [
      fun c => do return { c with cmdSql := ← row.notNull "cmd_sql" },
      fun c => return { c with cmdSql := trimBlanks c.cmdSql }] { metadata := metadata }

/-! ## What the runner executes -/

inductive Executed where
  | process (argv : List Bytes) (env : Env) (stdin : Bytes)
  | sql (stmt : Bytes)

/-- How the calls before an execution turn out, and the daemon's own `PATH`. -/
structure World where
  forked : Bool
  savepointSet : Bool
  path : Bytes

def setenv (env : Env) (name value : Bytes) : Env :=
  if cStr name = [] ∨ ch '=' ∈ cStr name then env else env.insert (cStr name) (cStr value)

def NixQueueCmd.childEnv (cmd : NixQueueCmd) (path : Bytes) : Env :=
  cmd.cmdEnv.entries.foldl (fun env var => setenv env var.1 var.2)
    (setenv ∅ (ascii "PATH") path)

def NixQueueCmd.runCmd (cmd : NixQueueCmd) (world : World) : List Executed :=
  if world.forked then [.process (cmd.cmdArgv.map cStr) (cmd.childEnv world.path) cmd.cmdStdin]
  else []

def SqlQueueCmd.runCmd (cmd : SqlQueueCmd) (world : World) : List Executed :=
  if world.savepointSet then [.sql (cStr cmd.cmdSql)] else []

inductive CmdClass where
  | nix
  | sql
  deriving DecidableEq

/-- The part of the runner's iteration from a selected row to the end of `run_cmd`. -/
def runSelected (asserts : Bool) (cls : CmdClass) (row : ResultRow) (world : World) :
    Except CppError (List Executed) :=
  match cls with
  | .nix => return (← NixQueueCmd.ofRow asserts row).runCmd world
  | .sql => return (← SqlQueueCmd.ofRow row).runCmd world

/-! ## Which rows decode -/

def metaDecodes (row : ResultRow) : Bool :=
  ["cmd_class_identity", "cmd_class_relname", "cmd_id", "cmd_subid"].all (row.fieldNumber · |>.isOk)

def rowDecodes (asserts : Bool) (cls : CmdClass) (row : ResultRow) : Bool :=
  metaDecodes row && match cls with
    | .nix => (decodeArgv asserts row).isOk && (decodeEnv row).isOk && (decodeStdin row).isOk
    | .sql => (row.notNull "cmd_sql").isOk

/-- A text that is not in braces aborts a build with assertions. -/
def argvAborts (asserts : Bool) (row : ResultRow) : Bool :=
  match row.notNull "cmd_argv" with
  | .ok raw => asserts && !raw.isEmpty && (raw.head? != some (ch '{') || raw.getLast? != some (ch '}'))
  | .error _ => false

variable {row : ResultRow} {name : String} {asserts : Bool}

theorem fieldNumber_cases (row : ResultRow) (name : String) :
    row.fieldNumber name = .error .outOfRange ∨ ∃ n, row.fieldNumber name = .ok n := by
  unfold ResultRow.fieldNumber
  split
  · exact .inr ⟨_, rfl⟩
  · exact .inl rfl

theorem noAbort_fieldNumber : NoAbort (row.fieldNumber name) := by
  intro expr
  rcases fieldNumber_cases row name with h | ⟨n, h⟩ <;> simp [h]

theorem noAbort_notNull : NoAbort (row.notNull name) := by
  refine noAbort_bind noAbort_fieldNumber fun n => ?_
  split
  · intro expr
    simp [throw, throwThe, MonadExceptOf.throw, bind, Except.bind]
  · exact noAbort_bind noAbort_fieldNumber fun n => noAbort_ok _

theorem noAbort_decodeEnv : NoAbort (decodeEnv row) :=
  noAbort_bind noAbort_notNull fun _ => noAbort_bind (noAbort_hstoreScanLoop _) fun _ =>
    noAbort_throwIfMissing _ _

theorem noAbort_decodeStdin : NoAbort (decodeStdin row) :=
  noAbort_bind noAbort_fieldNumber fun _ => noAbort_ok _

theorem decodeArgv_abort_iff :
    (∃ expr, decodeArgv asserts row = .error (.assertion expr)) ↔ argvAborts asserts row = true := by
  unfold decodeArgv argvAborts
  cases h : row.notNull "cmd_argv" with
  | error e =>
    simp only [bind, Except.bind, Except.error.injEq, Bool.false_eq_true, iff_false, not_exists]
    rintro expr rfl
    exact noAbort_notNull _ h
  | ok raw =>
    refine (fromTextArray_abort_iff asserts raw).trans ?_
    simp [and_assoc]

/-! ## The constructors -/

/-- The metadata constructor never aborts, and its flag tells whether it got through. -/
theorem metadata_ofRow (row : ResultRow) :
    ∃ m, QueueCmdMetadata.ofRow row = .ok m ∧ m.isValid = metaDecodes row := by
  unfold QueueCmdMetadata.ofRow metaDecodes
  simp only [tryBlock, List.all_cons, List.all_nil]
  rcases fieldNumber_cases row "cmd_class_identity" with h1 | ⟨n1, h1⟩
  · exact ⟨_, by rw [h1]; rfl, by rw [h1]; rfl⟩
  rcases fieldNumber_cases row "cmd_class_relname" with h2 | ⟨n2, h2⟩
  · exact ⟨_, by rw [h1, h2]; rfl, by rw [h1, h2]; rfl⟩
  rcases fieldNumber_cases row "cmd_id" with h3 | ⟨n3, h3⟩
  · exact ⟨_, by rw [h1, h2, h3]; rfl, by rw [h1, h2, h3]; rfl⟩
  rcases fieldNumber_cases row "cmd_subid" with h4 | ⟨n4, h4⟩
  · exact ⟨_, by rw [h1, h2, h3, h4]; rfl, by rw [h1, h2, h3, h4]; rfl⟩
  · exact ⟨_, by rw [h1, h2, h3, h4]; rfl, by rw [h1, h2, h3, h4]; rfl⟩

theorem caught_of_noAbort {σ : Type} {completed failed : σ → σ} {s : σ} {e : CppError}
    (h : ∀ expr, e ≠ .assertion expr) : caught completed failed (s, some e) = .ok (failed s) := by
  cases e <;> first
    | rfl
    | exact absurd rfl (h _)

/-- Unless `cmd_argv` aborts the daemon there is an object. Its flag tells whether its own
three fields decoded, and it has the arguments as soon as these decoded. -/
theorem nix_ofRow (asserts : Bool) (row : ResultRow) :
    (argvAborts asserts row = true ∧ ∃ e, NixQueueCmd.ofRow asserts row = .error e) ∨
    (argvAborts asserts row = false ∧ ∃ cmd, NixQueueCmd.ofRow asserts row = .ok cmd ∧
      cmd.isValid = ((decodeArgv asserts row).isOk && (decodeEnv row).isOk && (decodeStdin row).isOk) ∧
      ∀ argv, decodeArgv asserts row = .ok argv → cmd.cmdArgv = argv) := by
  obtain ⟨m, hm, -⟩ := metadata_ofRow row
  unfold NixQueueCmd.ofRow
  rw [hm]
  cases hargv : decodeArgv asserts row with
  | error e =>
    simp only [tryBlock, bind, Except.bind]
    cases ha : argvAborts asserts row
    · have he : ∀ expr, e ≠ .assertion expr := by
        rintro expr rfl
        have := decodeArgv_abort_iff.mp ⟨expr, hargv⟩
        rw [ha] at this
        cases this
      exact .inr ⟨rfl, _, caught_of_noAbort he, rfl, fun argv h => nomatch h⟩
    · obtain ⟨expr, hexpr⟩ := decodeArgv_abort_iff.mpr ha
      rw [hargv] at hexpr
      cases hexpr
      exact .inl ⟨rfl, _, rfl⟩
  | ok argv =>
    have hno : argvAborts asserts row = false := by
      rw [← Bool.not_eq_true, ← decodeArgv_abort_iff, hargv]
      simp
    refine .inr ⟨hno, ?_⟩
    cases henv : decodeEnv row with
    | error e =>
      have he : ∀ expr, e ≠ .assertion expr := by
        rintro expr rfl
        exact noAbort_decodeEnv _ henv
      simp only [tryBlock, bind, Except.bind, pure, Except.pure]
      exact ⟨_, caught_of_noAbort he, rfl, fun _ h => Except.ok.inj h⟩
    | ok env =>
      cases hstdin : decodeStdin row with
      | error e =>
        have he : ∀ expr, e ≠ .assertion expr := by
          rintro expr rfl
          exact noAbort_decodeStdin _ hstdin
        simp only [tryBlock, bind, Except.bind, pure, Except.pure]
        exact ⟨_, caught_of_noAbort he, rfl, fun _ h => Except.ok.inj h⟩
      | ok stdin =>
        simp only [tryBlock, bind, Except.bind, pure, Except.pure]
        exact ⟨_, rfl, rfl, fun _ h => Except.ok.inj h⟩

/-- What becomes of a row once its arguments have decoded. An environment that does not decode
takes the input with it. -/
theorem nix_ofRow_of_argv {m : QueueCmdMetadata} {argv : List Bytes} {stdin : Bytes}
    (hm : QueueCmdMetadata.ofRow row = .ok m) (hargv : decodeArgv asserts row = .ok argv)
    (hstdin : decodeStdin row = .ok stdin) :
    NixQueueCmd.ofRow asserts row = .ok (match decodeEnv row with
      | .ok env => ⟨true, m, argv, env, stdin⟩
      | .error _ => ⟨false, m, argv, ∅, []⟩) := by
  unfold NixQueueCmd.ofRow
  rw [hm]
  cases henv : decodeEnv row with
  | ok env =>
    simp only [tryBlock, bind, Except.bind, pure, Except.pure, hargv, hstdin]
    rfl
  | error e =>
    have he : ∀ expr, e ≠ .assertion expr := by
      rintro expr rfl
      exact noAbort_decodeEnv _ henv
    simp only [tryBlock, bind, Except.bind, pure, Except.pure, hargv]
    exact caught_of_noAbort he

theorem cmdArgv_of_argv_error {e : CppError} {cmd : NixQueueCmd}
    (hargv : decodeArgv asserts row = .error e) (hcmd : NixQueueCmd.ofRow asserts row = .ok cmd) :
    cmd.cmdArgv = [] := by
  obtain ⟨m, hm, -⟩ := metadata_ofRow row
  unfold NixQueueCmd.ofRow at hcmd
  rw [hm] at hcmd
  simp only [tryBlock, bind, Except.bind, hargv] at hcmd
  cases e <;> cases hcmd <;> rfl

/-- An SQL command is never marked as valid, and no row aborts the daemon. -/
theorem sql_ofRow (row : ResultRow) : ∃ cmd, SqlQueueCmd.ofRow row = .ok cmd ∧ cmd.isValid = false := by
  obtain ⟨m, hm, -⟩ := metadata_ofRow row
  unfold SqlQueueCmd.ofRow
  rw [hm]
  cases hsql : row.notNull "cmd_sql" with
  | error e =>
    have he : ∀ expr, e ≠ .assertion expr := by
      rintro expr rfl
      exact noAbort_notNull _ hsql
    simp only [tryBlock, bind, Except.bind]
    exact ⟨_, caught_of_noAbort he, rfl⟩
  | ok sql =>
    simp only [tryBlock, bind, Except.bind, pure, Except.pure]
    exact ⟨_, rfl, rfl⟩

/-! ## Rows that do not decode -/

/-- Nothing is executed for a row that does not decode. -/
def SkipsUndecoded (asserts : Bool) (cls : CmdClass) (row : ResultRow) : Prop :=
  rowDecodes asserts cls row = false → ∀ world executed,
    runSelected asserts cls row world = .ok executed → executed = []

/-- The runner never looks at the flag: whatever did not decode, the rest is executed. -/
theorem runSelected_executes (asserts : Bool) (cls : CmdClass) (row : ResultRow) (path : Bytes)
    (h : ¬(cls = .nix ∧ argvAborts asserts row = true)) :
    ∃ e, runSelected asserts cls row ⟨true, true, path⟩ = .ok [e] := by
  cases cls with
  | nix =>
    rcases nix_ofRow asserts row with ⟨ha, -⟩ | ⟨-, cmd, hcmd, -⟩
    · exact absurd ⟨rfl, ha⟩ h
    · exact ⟨_, by unfold runSelected; rw [hcmd]; rfl⟩
  | sql =>
    obtain ⟨cmd, hcmd, -⟩ := sql_ofRow row
    exact ⟨_, by unfold runSelected; rw [hcmd]; rfl⟩

theorem skipsUndecoded_iff (asserts : Bool) (cls : CmdClass) (row : ResultRow) :
    SkipsUndecoded asserts cls row ↔
      rowDecodes asserts cls row = true ∨ (cls = .nix ∧ argvAborts asserts row = true) := by
  constructor
  · intro hskip
    by_contra hne
    push Not at hne
    obtain ⟨e, he⟩ := runSelected_executes asserts cls row [] (by simpa using hne.2)
    exact absurd (hskip (by simpa using hne.1) _ _ he) (by simp)
  · rintro (hdec | ⟨rfl, ha⟩) hno world executed hrun
    · rw [hdec] at hno
      cases hno
    · rcases nix_ofRow asserts row with ⟨-, e, he⟩ | ⟨hna, -⟩
      · unfold runSelected at hrun
        rw [he] at hrun
        cases hrun
      · rw [ha] at hna
        cases hna

/-- The row of a nix command whose environment has a value that reads as NULL. -/
def nullEnvRow : ResultRow where
  fieldNumbers := ((["cmd_class_identity", "cmd_class_relname", "cmd_id", "cmd_subid", "cmd_argv",
    "cmd_env", "cmd_stdin"].map ascii).zipIdx.map fun p => ⟨p.1, p.2⟩).toAList
  values := fun n => [some (ascii "cmdq.nightly"), some (ascii "nightly"), some (ascii "1"), none,
    some (ascii "\x7brm,-r,/tmp/x\x7d"), some (ascii "\"KEEP\"=>\"null\""), some []].getD n none

theorem not_skipsUndecoded : ¬SkipsUndecoded true .nix nullEnvRow := by
  intro h
  obtain ⟨e, he⟩ := runSelected_executes true .nix nullEnvRow [] (by decide)
  exact absurd (h (by decide) _ _ he) (by simp)

/-! ## The arguments of a nix command -/

/-- A text as PostgreSQL has it. -/
abbrev Text := { x : Bytes // NulFree x }

/-- The arguments that a row has are those that its command is executed with. -/
def ArgvSurvives (xs : List Text) : Prop :=
  ∀ asserts, fromTextArray asserts (arrayOut (xs.map (·.1))) = .ok (xs.map (·.1)) ∧
    ∀ row world argv env stdin executed, row.notNull "cmd_argv" = .ok (arrayOut (xs.map (·.1))) →
      runSelected asserts .nix row world = .ok executed →
      .process argv env stdin ∈ executed → argv = xs.map (·.1)

theorem argvSurvives_iff (xs : List Text) : ArgvSurvives xs ↔ ∀ x ∈ xs, ch '\\' ∉ x.1 := by
  constructor
  · intro h x hx
    exact fromTextArray_no_backslash (h true).1 x.1 (List.mem_map_of_mem hx)
  · intro h asserts
    have hread : fromTextArray asserts (arrayOut (xs.map (·.1))) = .ok (xs.map (·.1)) := by
      refine fromTextArray_arrayOut _ _ ?_
      simpa using fun x hx hmem => h ⟨x, hx⟩ hmem
    refine ⟨hread, ?_⟩
    intro row world argv env stdin executed hrow hrun hmem
    have hargv : decodeArgv asserts row = .ok (xs.map (·.1)) := by
      unfold decodeArgv
      rw [hrow]
      exact hread
    unfold runSelected at hrun
    rcases nix_ofRow asserts row with ⟨-, e, he⟩ | ⟨-, cmd, hcmd, -, hsame⟩
    · rw [he] at hrun
      cases hrun
    · rw [hcmd] at hrun
      cases hrun
      unfold NixQueueCmd.runCmd at hmem
      split at hmem
      · rw [List.mem_singleton] at hmem
        cases hmem
        rw [hsame _ hargv, List.map_map]
        exact List.map_congr_left fun x _ => cStr_of_nulFree x.2
      · cases hmem

theorem not_argvSurvives_backslash : ¬ArgvSurvives [⟨ascii "C:\\dir", by decide⟩] := by
  intro h
  have := (h true).1
  revert this
  decide

end PgCmdQueue
