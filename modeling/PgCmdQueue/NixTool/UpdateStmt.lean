import PgCmdQueue.Logger
import PgCmdQueue.Postgres.Constant
import PgCmdQueue.QueueCmd

/-!
# The update statement as a text

`update_stmt` writes the statement out that the daemon executes with parameters. Both set the
columns of the rows that they match.
-/

namespace PgCmdQueue.NixTool

open Cpp Decimal Escape Postgres Printf

/-- What the update needs of a command that has been run. -/
structure FinishedCmd where
  nspname : Text
  relname : Text
  cmdId : Text
  cmdSubid : Option Text
  cmdRuntimeStart : ℚ
  cmdRuntimeEnd : ℚ
  cmdExitCode : Option Int
  cmdTermSig : Option Int
  cmdStdout : Bytes
  cmdStderr : Bytes

/-! ## What an update does -/

/-- A time range, which has no bounds when it is empty. -/
inductive TstzRange where
  | empty
  | between (lower upper : ℚ)
  deriving DecidableEq

def tstzrange (lower upper : ℚ) : Option TstzRange :=
  if upper < lower then none else if lower = upper then some .empty else some (.between lower upper)

/-- The columns of a nix queue that an update reads or sets. -/
structure NixCmdRow where
  cmdId : Bytes
  cmdSubid : Option Bytes
  cmdRuntime : Option TstzRange := none
  cmdExitCode : Option Int := none
  cmdTermSig : Option Int := none
  cmdStdout : Option Bytes := none
  cmdStderr : Option Bytes := none

structure UpdateCmd where
  cmdClass : Bytes × Bytes
  runtimeStart : ℚ
  runtimeEnd : ℚ
  cmdExitCode : Option Int
  cmdTermSig : Option Int
  cmdStdout : Option Bytes
  cmdStderr : Option Bytes
  cmdId : Bytes := []
  cmdSubid : Option Bytes := none

def UpdateCmd.matchesRow (u : UpdateCmd) (row : NixCmdRow) : Bool :=
  row.cmdId = u.cmdId ∧ row.cmdSubid = u.cmdSubid

/-- No range ends before it starts: there is an error then. -/
def UpdateCmd.set (u : UpdateCmd) (row : NixCmdRow) : Option NixCmdRow :=
  (tstzrange u.runtimeStart u.runtimeEnd).map fun runtime =>
    { row with
      cmdRuntime := some runtime
      cmdExitCode := u.cmdExitCode
      cmdTermSig := u.cmdTermSig
      cmdStdout := u.cmdStdout
      cmdStderr := u.cmdStderr }

/-- What is left of the queue relations, if there is no error. -/
def UpdateCmd.exec (u : UpdateCmd) (queues : Bytes × Bytes → List NixCmdRow) :
    Option (Bytes × Bytes → List NixCmdRow) := do
  let rows ← (queues u.cmdClass).mapM fun row => if u.matchesRow row then u.set row else some row
  return Function.update queues u.cmdClass rows

/-- The same rows of the same relation, and the same values. -/
structure SameEffect (u v : UpdateCmd) : Prop where
  cmdClass : u.cmdClass = v.cmdClass
  matchesRow_eq : ∀ row, u.matchesRow row = v.matchesRow row
  set_eq : ∀ row, u.set row = v.set row

theorem SameEffect.exec_eq {u v : UpdateCmd} (h : SameEffect u v) : u.exec = v.exec := by
  funext queues
  simp only [UpdateCmd.exec, h.cmdClass, h.matchesRow_eq, h.set_eq]

/-! ## The statement as a text -/

def formatString (str : Bytes) (args : List Arg) : Option Bytes :=
  (vsnprintf (cStr str) args).bind fun text =>
    if text.length < Logger.intMax then some (cStr text) else none

def updateFormat : Bytes := ascii ("\nUPDATE\n    %s\nSET\n    cmd_runtime = " ++
  "tstzrange(to_timestamp(%f), to_timestamp(%f))\n    ,cmd_exit_code = %s\n    ,cmd_term_sig = %s\n" ++
  "    ,cmd_stdout = '%s'\n    ,cmd_stderr = '%s'\nWHERE\n    cmd_id = '%s'\n" ++
  "    AND cmd_subid IS NOT DISTINCT from %s\n")

def intOrNull (i : Option Int) : Bytes := (i.map decimalInt).getD (ascii "NULL")

def literalOrNull (x : Option Bytes) : Bytes := (x.map escapeLiteral).getD (ascii "NULL")

/-- `cmd_id` is not escaped. -/
def FinishedCmd.updateStmt (reserved : Bytes → Bool) (c : FinishedCmd) : Option Bytes :=
  formatString updateFormat [
    .str (classIdentity reserved c.nspname c.relname),
    .double c.cmdRuntimeStart,
    .double c.cmdRuntimeEnd,
    .str (intOrNull c.cmdExitCode),
    .str (intOrNull c.cmdTermSig),
    .str (escapeByteaConn c.cmdStdout),
    .str (escapeByteaConn c.cmdStderr),
    .str c.cmdId,
    .str (literalOrNull (c.cmdSubid.map (·.1)))]

/-! ## The prepared statement -/

def FinishedCmd.updateParams (c : FinishedCmd) : Option (List (Option Bytes)) := do
  return [
    some c.cmdId,
    c.cmdSubid.map (·.1),
    some (← formatString (ascii "%f") [.double c.cmdRuntimeStart]),
    some (← formatString (ascii "%f") [.double c.cmdRuntimeEnd]),
    c.cmdExitCode.map decimalInt,
    c.cmdTermSig.map decimalInt,
    some c.cmdStdout,
    some c.cmdStderr]

/-- A `size_t` that is cast to an `int`. -/
def toInt32 (n : Nat) : Int := (n : Int).bmod (2 ^ 32)

def FinishedCmd.updateParamLengths (c : FinishedCmd) : List Int :=
  [-1, -1, -1, -1, -1, -1, toInt32 c.cmdStdout.length, toInt32 c.cmdStderr.length]

def updateParamFormats : List Nat := [0, 0, 0, 0, 0, 0, 1, 1]

/-- The bytes of a parameter that are sent. The length is for binary parameters only. -/
def paramSent (value : Option Bytes) (length : Int) (format : Nat) : Option (Option Bytes) :=
  match value with
  | none => some none
  | some v =>
    if format = 0 then some (some (cStr v))
    else if 0 ≤ length then some (some (v.take length.toNat))
    else none

/-- `update_cmd` takes the columns that it sets from its parameters. -/
def updateCmdInQueue (cmdClass : Bytes × Bytes) : List (Option Bytes) → Option UpdateCmd
  | [some cmdId, cmdSubid, some runtimeStart, some runtimeEnd, exitCode, termSig, stdout, stderr] => do
    return {
      cmdClass := cmdClass
      runtimeStart := ← float8In runtimeStart
      runtimeEnd := ← float8In runtimeEnd
      cmdExitCode := ← exitCode.mapM int4In
      cmdTermSig := ← termSig.mapM int4In
      cmdStdout := stdout
      cmdStderr := stderr
      cmdId := cmdId
      cmdSubid := cmdSubid }
  | _ => none

def FinishedCmd.updateCmd (c : FinishedCmd) : Option UpdateCmd := do
  let params ← c.updateParams
  let sent ← ((params.zip c.updateParamLengths).zip updateParamFormats).mapM fun ((value, length), format) =>
    paramSent value length format
  updateCmdInQueue (c.nspname, c.relname) sent

/-! ## Reading the text -/

/-- Up to the quote in front of `cmd_id`. -/
def setIn : Reader UpdateCmd := do
  skip (ascii "\nUPDATE\n    ")
  let cmdClass ← classIn
  skip (ascii "\nSET\n    cmd_runtime = tstzrange(to_timestamp(")
  let runtimeStart ← numberIn float8In
  skip (ascii "), to_timestamp(")
  let runtimeEnd ← numberIn float8In
  skip (ascii "))\n    ,cmd_exit_code = ")
  let cmdExitCode ← nullableIn (numberIn int4In)
  skip (ascii "\n    ,cmd_term_sig = ")
  let cmdTermSig ← nullableIn (numberIn int4In)
  skip (ascii "\n    ,cmd_stdout = '")
  let cmdStdout ← byteaConstantIn
  skip (ascii "\n    ,cmd_stderr = '")
  let cmdStderr ← byteaConstantIn
  skip (ascii "\nWHERE\n    cmd_id = '")
  return {
    cmdClass := cmdClass
    runtimeStart := runtimeStart
    runtimeEnd := runtimeEnd
    cmdExitCode := cmdExitCode
    cmdTermSig := cmdTermSig
    cmdStdout := some cmdStdout
    cmdStderr := some cmdStderr }

def whereIn (u : UpdateCmd) : Reader UpdateCmd := do
  let cmdId ← stringIn false
  skip (ascii "\n    AND cmd_subid IS NOT DISTINCT from ")
  let cmdSubid ← nullableIn textIn
  skip (ascii "\n")
  return { u with cmdId := cmdId, cmdSubid := cmdSubid }

/-- The statement of a text that is laid out like those of `update_stmt`. Any other text is another
statement, or none. -/
def readUpdateStmt (text : Bytes) : Option UpdateCmd :=
  match (setIn >>= whereIn) text with
  | some (u, []) => some u
  | _ => none

def UpdateStmtAgrees (reserved : Bytes → Bool) (c : FinishedCmd) : Prop :=
  ∃ text u v, c.updateStmt reserved = some text ∧ readUpdateStmt text = some u ∧
    c.updateCmd = some v ∧ SameEffect u v

variable {reserved : Bytes → Bool} {c : FinishedCmd} {x rest : Bytes}

/-! ## The text that is written -/

/-- The text as far as the quote in front of `cmd_id`, and `rest` behind it. -/
def FinishedCmd.setText (reserved : Bytes → Bool) (c : FinishedCmd) (rest : Bytes) : Bytes :=
  ascii "\nUPDATE\n    " ++ (classIdentity reserved c.nspname c.relname ++
    (ascii "\nSET\n    cmd_runtime = tstzrange(to_timestamp(" ++ (fixedPoint c.cmdRuntimeStart ++
    (ascii "), to_timestamp(" ++ (fixedPoint c.cmdRuntimeEnd ++
    (ascii "))\n    ,cmd_exit_code = " ++ (intOrNull c.cmdExitCode ++
    (ascii "\n    ,cmd_term_sig = " ++ (intOrNull c.cmdTermSig ++
    (ascii "\n    ,cmd_stdout = '" ++ (escapeByteaConn c.cmdStdout ++
    (ch '\'' :: (ascii "\n    ,cmd_stderr = '" ++ (escapeByteaConn c.cmdStderr ++
    (ch '\'' :: (ascii "\nWHERE\n    cmd_id = '" ++ rest))))))))))))))))

def FinishedCmd.whereText (c : FinishedCmd) : Bytes :=
  ch '\'' :: (ascii "\n    AND cmd_subid IS NOT DISTINCT from " ++
    (literalOrNull (c.cmdSubid.map (·.1)) ++ ascii "\n"))

def FinishedCmd.updateText (reserved : Bytes → Bool) (c : FinishedCmd) : Bytes :=
  c.setText reserved (c.cmdId ++ c.whereText)

theorem ascii_append (s t : String) : ascii (s ++ t) = ascii s ++ ascii t := by
  simp [ascii]

theorem updateFormat_eq : updateFormat =
    ascii "\nUPDATE\n    " ++ (ascii "%s" ++
    (ascii "\nSET\n    cmd_runtime = tstzrange(to_timestamp(" ++ (ascii "%f" ++
    (ascii "), to_timestamp(" ++ (ascii "%f" ++
    (ascii "))\n    ,cmd_exit_code = " ++ (ascii "%s" ++
    (ascii "\n    ,cmd_term_sig = " ++ (ascii "%s" ++
    (ascii "\n    ,cmd_stdout = '" ++ (ascii "%s" ++
    (ascii "'\n    ,cmd_stderr = '" ++ (ascii "%s" ++
    (ascii "'\nWHERE\n    cmd_id = '" ++ (ascii "%s" ++
    (ascii "'\n    AND cmd_subid IS NOT DISTINCT from " ++ (ascii "%s" ++
      ascii "\n"))))))))))))))))) := by
  unfold updateFormat
  simp only [← ascii_append, String.reduceAppend]

theorem nulFree_escape {special : Byte → Bool} (hx : NulFree x) : NulFree (escape special id x) := by
  intro d hd
  rcases mem_escape hd with h | ⟨e, he, heq⟩
  · exact hx d h
  · rw [heq]
    exact hx e he

theorem nulFree_quoteIdent (hx : NulFree x) : NulFree (quoteIdent reserved x) := by
  unfold quoteIdent dquoted
  split
  · exact hx
  · simp only [nulFree_cons, nulFree_append]
    exact ⟨by decide, nulFree_escape hx, by decide, by decide⟩

theorem nulFree_classIdentity : NulFree (classIdentity reserved c.nspname c.relname) := by
  simp only [classIdentity, nulFree_append, nulFree_cons]
  exact ⟨nulFree_quoteIdent c.nspname.2, by decide, nulFree_quoteIdent c.relname.2⟩

theorem nulFree_intOrNull (i : Option Int) : NulFree (intOrNull i) := by
  cases i with
  | none => decide
  | some i => exact nulFree_convert (show convert (ch 'i') (.int i) = _ by simp [convert, intOrNull])

theorem nulFree_escapeByteaConn (x : Bytes) : NulFree (escapeByteaConn x) :=
  fun _ hc => (mem_escapeByteaConn hc).1

theorem nulFree_stringBody {escapes : Bool} (hx : NulFree x) : NulFree (stringBody escapes x) :=
  nulFree_append.mpr ⟨nulFree_escape hx, by decide⟩

theorem nulFree_literalOrNull (t : Option Text) : NulFree (literalOrNull (t.map (·.1))) := by
  cases t with
  | none => decide
  | some t =>
    simp only [literalOrNull, escapeLiteral, Option.map_some, Option.getD_some]
    split
    · exact nulFree_append.mpr ⟨by decide, nulFree_stringBody t.2⟩
    · exact nulFree_append.mpr ⟨by decide, nulFree_stringBody t.2⟩

theorem formatString_eq {str text : Bytes} {args : List Arg} (hstr : NulFree str)
    (h : vsnprintf str args = some text) :
    formatString str args = if text.length < Logger.intMax then some text else none := by
  rw [formatString, cStr_of_nulFree hstr, h, Option.bind_some, cStr_of_nulFree (nulFree_vsnprintf hstr h)]

theorem updateStmt_eq : c.updateStmt reserved =
    if (c.updateText reserved).length < Logger.intMax then some (c.updateText reserved) else none := by
  have hformat : NulFree updateFormat := by
    rw [updateFormat_eq]
    simp only [nulFree_append]
    decide +kernel
  apply formatString_eq hformat
  rw [updateFormat_eq]
  rw [vsnprintf_plain_append (by decide), vsnprintf_str, cStr_of_nulFree nulFree_classIdentity,
    vsnprintf_plain_append (by decide), vsnprintf_double,
    vsnprintf_plain_append (by decide), vsnprintf_double,
    vsnprintf_plain_append (by decide), vsnprintf_str, cStr_of_nulFree (nulFree_intOrNull _),
    vsnprintf_plain_append (by decide), vsnprintf_str, cStr_of_nulFree (nulFree_intOrNull _),
    vsnprintf_plain_append (by decide), vsnprintf_str, cStr_of_nulFree (nulFree_escapeByteaConn _),
    vsnprintf_plain_append (by decide), vsnprintf_str, cStr_of_nulFree (nulFree_escapeByteaConn _),
    vsnprintf_plain_append (by decide), vsnprintf_str, cStr_of_nulFree c.cmdId.2,
    vsnprintf_plain_append (by decide), vsnprintf_str, cStr_of_nulFree (nulFree_literalOrNull _),
    vsnprintf_plain (by decide)]
  rfl

/-! ## What is read of it -/

theorem decimalInt_ne_nil (i : Int) : decimalInt i ≠ [] := by
  simp [decimalInt, decimal_ne_nil]

theorem nullableIn_intOrNull {d : Byte} (i : Option Int) (hrest : rest.head? = some d)
    (hd : isNumberByte d = false) :
    nullableIn (numberIn int4In) (intOrNull i ++ rest) = some (i, rest) := by
  cases i with
  | none => rfl
  | some i =>
    have hne : (ascii "NULL").isPrefixOf (decimalInt i ++ rest) = false := by
      obtain ⟨e, y, hy⟩ := List.exists_cons_of_ne_nil (decimalInt_ne_nil i)
      have he : isNumberByte e = true := isNumberByte_decimalInt _ (hy ▸ List.mem_cons_self)
      rw [hy]
      have hN : (ch 'N' == e) = false := by
        rw [beq_eq_false_iff_ne]
        rintro rfl
        exact absurd he (by decide)
      show (ch 'N' == e && _) = false
      rw [hN, Bool.false_and]
    show nullableIn _ (decimalInt i ++ rest) = _
    rw [nullableIn, hne, numberIn_append isNumberByte_decimalInt hrest hd (int4In_decimalInt i)]
    rfl

theorem nullableIn_literalOrNull (t : Option Bytes) (h : rest.head? ≠ some (ch '\'')) :
    nullableIn textIn (literalOrNull t ++ rest) = some (t, rest) := by
  cases t with
  | none => rfl
  | some t =>
    have hne : (ascii "NULL").isPrefixOf (escapeLiteral t ++ rest) = false := by
      unfold escapeLiteral
      split <;> rfl
    show nullableIn _ (escapeLiteral t ++ rest) = _
    rw [nullableIn, hne, textIn_escapeLiteral h]
    rfl

/-- The update of a command, with the times that its texts have and without the key. -/
def FinishedCmd.setCmd (c : FinishedCmd) (runtimeStart runtimeEnd : ℚ) : UpdateCmd where
  cmdClass := (c.nspname, c.relname)
  runtimeStart := runtimeStart
  runtimeEnd := runtimeEnd
  cmdExitCode := c.cmdExitCode
  cmdTermSig := c.cmdTermSig
  cmdStdout := some c.cmdStdout
  cmdStderr := some c.cmdStderr

theorem setIn_setText {s e : ℚ} (hs : float8In (fixedPoint c.cmdRuntimeStart) = some s)
    (he : float8In (fixedPoint c.cmdRuntimeEnd) = some e) :
    setIn (c.setText reserved rest) = some (c.setCmd s e, rest) := by
  unfold setIn FinishedCmd.setText
  rw [bind_eq_of_read (skip_append _ _),
    bind_eq_of_read (classIn_classIdentity rfl (by decide) (by decide)),
    bind_eq_of_read (skip_append _ _),
    bind_eq_of_read (numberIn_append isNumberByte_fixedPoint rfl (by decide) hs),
    bind_eq_of_read (skip_append _ _),
    bind_eq_of_read (numberIn_append isNumberByte_fixedPoint rfl (by decide) he),
    bind_eq_of_read (skip_append _ _),
    bind_eq_of_read (nullableIn_intOrNull _ rfl (by decide)),
    bind_eq_of_read (skip_append _ _),
    bind_eq_of_read (nullableIn_intOrNull _ rfl (by decide)),
    bind_eq_of_read (skip_append _ _),
    bind_eq_of_read (byteaConstantIn_escapeByteaConn (by simp [ascii, ch])),
    bind_eq_of_read (skip_append _ _),
    bind_eq_of_read (byteaConstantIn_escapeByteaConn (by simp [ascii, ch])),
    bind_eq_of_read (skip_append _ _)]
  rfl

/-- The literal is read as something, and what stands behind it has to be the rest of the
statement. -/
theorem whereIn_eq (u : UpdateCmd) (h : ch '\'' ∉ c.cmdId.1) :
    whereIn u (c.cmdId ++ c.whereText) =
      some ({ u with cmdId := c.cmdId, cmdSubid := c.cmdSubid.map (·.1) }, []) := by
  have hplain : escape (isStringSpecial false) id c.cmdId.1 = c.cmdId.1 :=
    escape_of_plain fun d hd => by
      rw [Bool.eq_false_iff, Ne, isStringSpecial_false_iff]
      rintro rfl
      exact h hd
  have hid : stringIn false (c.cmdId ++ c.whereText) = some (c.cmdId.1, c.whereText.tail) := by
    have : stringIn false (stringBody false c.cmdId ++ c.whereText.tail) = _ :=
      stringIn_body (by simp [FinishedCmd.whereText, ascii, ch])
    rwa [stringBody, hplain, List.append_assoc] at this
  unfold whereIn
  rw [bind_eq_of_read hid]
  unfold FinishedCmd.whereText
  rw [List.tail_cons, bind_eq_of_read (skip_append _ _),
    bind_eq_of_read (nullableIn_literalOrNull _ (by simp [ascii, ch]))]
  rfl

theorem stringIn_of_whereIn {u v : UpdateCmd} {text : Bytes} (h : whereIn u text = some (v, rest)) :
    ∃ left, stringIn false text = some (v.cmdId, left) := by
  obtain ⟨cmdId, left, hcmdId, h⟩ := read_of_bind h
  obtain ⟨_, _, -, h⟩ := read_of_bind h
  obtain ⟨_, _, -, h⟩ := read_of_bind h
  obtain ⟨_, _, -, h⟩ := read_of_bind h
  cases h
  exact ⟨left, hcmdId⟩

theorem formatString_double {q : ℚ} (h : (fixedPoint q).length < Logger.intMax) :
    formatString (ascii "%f") [.double q] = some (fixedPoint q) := by
  have hformat : vsnprintf (ascii "%f") [.double q] = some (fixedPoint q) := by
    have : vsnprintf (ascii "%f" ++ []) [.double q] = _ := vsnprintf_double
    simpa [vsnprintf] using this
  rw [formatString_eq (by decide) hformat, if_pos h]

theorem length_escapeByteaConn (x : Bytes) : x.length ≤ (escapeByteaConn x).length := by
  simp [escapeByteaConn]
  omega

theorem paramSent_text {value : Option Bytes} (length : Int) (h : ∀ x ∈ value, NulFree x) :
    paramSent value length 0 = some value := by
  cases value with
  | none => rfl
  | some x => simp [paramSent, cStr_of_nulFree (h x rfl)]

theorem paramSent_binary (h : x.length < Logger.intMax) :
    paramSent (some x) (toInt32 x.length) 1 = some (some x) := by
  have hint : toInt32 x.length = x.length := by
    unfold Logger.intMax at h
    unfold toInt32
    rw [Int.bmod_eq_of_le] <;> omega
  simp [paramSent, hint]

theorem nulFree_fixedPoint (q : ℚ) : NulFree (fixedPoint q) :=
  nulFree_convert (show convert (ch 'f') (.double q) = _ by simp [convert])

theorem nulFree_map_decimalInt {i : Option Int} : ∀ x ∈ i.map decimalInt, NulFree x := by
  intro x hx
  obtain ⟨i, rfl, rfl⟩ := Option.mem_map.mp hx
  exact nulFree_intOrNull (some i)

theorem mapM_int4In (i : Option Int) : (i.map decimalInt).mapM int4In = some i := by
  cases i with
  | none => rfl
  | some i => simp [int4In_decimalInt]

theorem updateCmd_of_short {s e : ℚ} (hs : float8In (fixedPoint c.cmdRuntimeStart) = some s)
    (he : float8In (fixedPoint c.cmdRuntimeEnd) = some e)
    (hstart : (fixedPoint c.cmdRuntimeStart).length < Logger.intMax)
    (hend : (fixedPoint c.cmdRuntimeEnd).length < Logger.intMax)
    (hstdout : c.cmdStdout.length < Logger.intMax) (hstderr : c.cmdStderr.length < Logger.intMax) :
    c.updateCmd =
      some { c.setCmd s e with cmdId := c.cmdId, cmdSubid := c.cmdSubid.map (·.1) } := by
  have hparams : c.updateParams = some [some c.cmdId.1, c.cmdSubid.map (·.1),
      some (fixedPoint c.cmdRuntimeStart), some (fixedPoint c.cmdRuntimeEnd),
      c.cmdExitCode.map decimalInt, c.cmdTermSig.map decimalInt, some c.cmdStdout, some c.cmdStderr] := by
    rw [FinishedCmd.updateParams, formatString_double hstart, formatString_double hend]
    rfl
  have hid : ∀ x ∈ some c.cmdId.1, NulFree x := by simpa using c.cmdId.2
  have hsubid : ∀ x ∈ c.cmdSubid.map (·.1), NulFree x := by
    intro x hx
    obtain ⟨t, -, rfl⟩ := Option.mem_map.mp hx
    exact t.2
  have hfixed (q : ℚ) : ∀ x ∈ some (fixedPoint q), NulFree x := by simpa using nulFree_fixedPoint q
  rw [FinishedCmd.updateCmd, hparams]
  simp only [FinishedCmd.updateParamLengths, updateParamFormats, Option.bind_eq_bind, Option.bind_some,
    List.zip_cons_cons, List.zip_nil_left, List.mapM_cons, List.mapM_nil, paramSent_text _ hid,
    paramSent_text _ hsubid, paramSent_text _ (hfixed _), paramSent_text _ nulFree_map_decimalInt,
    paramSent_binary hstdout, paramSent_binary hstderr, Option.pure_def,
    updateCmdInQueue, hs, he, mapM_int4In]
  rfl

/-- What the prepared statement needs is not too long as long as the text is not. -/
theorem updateCmd_eq {s e : ℚ} (hs : float8In (fixedPoint c.cmdRuntimeStart) = some s)
    (he : float8In (fixedPoint c.cmdRuntimeEnd) = some e)
    (hlen : (c.updateText reserved).length < Logger.intMax) :
    c.updateCmd =
      some { c.setCmd s e with cmdId := c.cmdId, cmdSubid := c.cmdSubid.map (·.1) } := by
  have hstdout := length_escapeByteaConn c.cmdStdout
  have hstderr := length_escapeByteaConn c.cmdStderr
  simp only [FinishedCmd.updateText, FinishedCmd.setText, List.length_append, List.length_cons] at hlen
  exact updateCmd_of_short hs he (by omega) (by omega) (by omega) (by omega)

/-! ## When both do the same -/

/-- A text that matches the row of the command has its `cmd_id` as a literal. -/
theorem plain_of_agrees (h : UpdateStmtAgrees reserved c) :
    ch '\'' ∉ c.cmdId.1 ∧ (c.updateText reserved).length < Logger.intMax := by
  obtain ⟨s, hs⟩ := float8In_fixedPoint c.cmdRuntimeStart
  obtain ⟨e, he⟩ := float8In_fixedPoint c.cmdRuntimeEnd
  obtain ⟨text, u, v, htext, hread, hv, hsame⟩ := h
  rw [updateStmt_eq] at htext
  split at htext
  · rename_i hlen
    cases htext
    rw [updateCmd_eq hs he hlen] at hv
    cases hv
    have hid : u.cmdId = c.cmdId.1 := by
      have := hsame.matchesRow_eq { cmdId := c.cmdId, cmdSubid := c.cmdSubid.map (·.1) }
      simp [UpdateCmd.matchesRow] at this
      exact this.1.symm
    unfold readUpdateStmt at hread
    rw [FinishedCmd.updateText, bind_eq_of_read (setIn_setText hs he)] at hread
    split at hread
    · rename_i w hw
      cases hread
      obtain ⟨rest, hstring⟩ := stringIn_of_whereIn hw
      rw [hid] at hstring
      exact ⟨@quote_not_mem_of_stringIn (ch '\n') _ _ _ (by decide) hstring, hlen⟩
    · cases hread
  · cases htext

/-- With a quote in it, the literal of `cmd_id` ends too early or is another `cmd_id`. -/
theorem updateStmtAgrees_iff (reserved : Bytes → Bool) (c : FinishedCmd) :
    UpdateStmtAgrees reserved c ↔
      ch '\'' ∉ c.cmdId.1 ∧ (c.updateText reserved).length ≤ 2147483646 := by
  obtain ⟨s, hs⟩ := float8In_fixedPoint c.cmdRuntimeStart
  obtain ⟨e, he⟩ := float8In_fixedPoint c.cmdRuntimeEnd
  constructor
  · intro h
    obtain ⟨hquote, hlen⟩ := plain_of_agrees h
    exact ⟨hquote, Nat.le_of_lt_succ hlen⟩
  · rintro ⟨hquote, hlen⟩
    have hlen : (c.updateText reserved).length < Logger.intMax := Nat.lt_succ_of_le hlen
    refine ⟨_, _, _, updateStmt_eq.trans (if_pos hlen), ?_, updateCmd_eq hs he hlen, rfl,
      fun _ => rfl, fun _ => rfl⟩
    unfold readUpdateStmt
    rw [FinishedCmd.updateText, bind_eq_of_read (setIn_setText hs he), whereIn_eq _ hquote]

def invoice : FinishedCmd where
  nspname := ⟨ascii "sales", by decide⟩
  relname := ⟨ascii "invoice_cmd", by decide⟩
  cmdId := ⟨ascii "O'Brien", by decide⟩
  cmdSubid := none
  cmdRuntimeStart := 1690182000
  cmdRuntimeEnd := 1690182001
  cmdExitCode := some 0
  cmdTermSig := none
  cmdStdout := []
  cmdStderr := []

theorem not_updateStmtAgrees_quote : ¬UpdateStmtAgrees (fun _ => false) invoice := by
  intro h
  exact absurd (plain_of_agrees h).1 (by decide)

end PgCmdQueue.NixTool
