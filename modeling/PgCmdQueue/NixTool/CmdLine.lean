import PgCmdQueue.Pq.AsText
import PgCmdQueue.QueueCmd
import Mathlib.Data.List.ReduceOption

/-!
# `pg_nix_queue_cmd`

The tool runs a nix command as if through the daemon. It gets the command from the words
that `cmd_line` builds of a row.
-/

namespace PgCmdQueue.NixTool

open Cpp Postgres Pq

/-! ## The row, and the words of its command line -/

structure NixRow where
  nspname : Text
  relname : Text
  cmdId : Text
  cmdSubid : Option Text
  cmdArgv : List (Option Text)
  cmdEnv : Hstore
  cmdEnv_nulFree : ∀ pair ∈ cmdEnv.entries, NulFreeEntry pair
  cmdStdin : Option Bytes

/-- The first argument of `cmd_line(text[], hstore, bytea)`. -/
def NixRow.cmdLineArgv (reserved : Bytes → Bool) (row : NixRow) : List (Option Bytes) :=
  [some (ascii "pg_nix_queue_cmd"),
    some (ascii "--output-update"),
    some (classIdentity reserved row.nspname row.relname),
    some row.cmdId,
    row.cmdSubid.map (·.1),
    some (ascii "--")] ++ row.cmdArgv.map (·.map (·.1))

/-- `string_agg` leaves NULLs out. -/
def NixRow.words (reserved : Bytes → Bool) (row : NixRow) : List Bytes :=
  (row.cmdLineArgv reserved).reduceOption

/-- The `PATH` of a process that has the variables of the row on top of its own. A NULL is
no variable. -/
def NixRow.exportedPath (row : NixRow) (path : Bytes) : Bytes :=
  (row.cmdEnv.lookup (ascii "PATH")).join.getD path

def NixRow.stdin (row : NixRow) : Bytes := row.cmdStdin.getD []

/-! ## The tool -/

inductive ToolExit where
  | usage
  | cmdLineParseError (what : String)

structure ToolArgs where
  outputUpdateStatement : Bool := false
  execUpdateStatement : Bool := false
  cmdClass : Bytes := []
  cmdId : Bytes := []
  cmdSubid : Option Bytes := none
  cmdMetaFieldsIdentified : Nat := 0
  cmdArgv : List Bytes := []

def ToolArgs.identify (args : ToolArgs) (arg : Bytes) : Except ToolExit ToolArgs :=
  match args.cmdMetaFieldsIdentified with
  | 0 => .ok { args with cmdClass := arg, cmdMetaFieldsIdentified := 1 }
  | 1 => .ok { args with cmdId := arg, cmdMetaFieldsIdentified := 2 }
  | 2 => .ok { args with cmdSubid := some arg, cmdMetaFieldsIdentified := 3 }
  | n + 3 => .error (.cmdLineParseError ("Expected only 3 cmd meta fields; got " ++ toString (n + 4)))

def isOption (arg : Bytes) : Bool := arg.take 2 == ascii "--"

/-- The loop over `argv`, from the word behind the name of the program on. -/
def parseArgs : List Bytes → ToolArgs → Except ToolExit ToolArgs
  | [], args => .ok args
  | arg :: rest, args =>
    if arg = ascii "--help" then .error .usage
    else if arg = ascii "--output-update" then
      parseArgs rest { args with outputUpdateStatement := true }
    else if arg = ascii "--exec-update" then
      parseArgs rest { args with execUpdateStatement := true }
    else if ¬ isOption arg then do
      parseArgs rest (← args.identify arg)
    else if arg = ascii "--" then .ok { args with cmdArgv := args.cmdArgv ++ rest }
    else .error (.cmdLineParseError ("Unrecognized option \x1b[1m" ++ toText arg ++ "\x1b[22m."))

def checkArgs (args : ToolArgs) : Except ToolExit Unit := do
  if args.cmdMetaFieldsIdentified < 2 then
    throw (.cmdLineParseError ("Got only " ++ toString args.cmdMetaFieldsIdentified ++
      " out of 2 or 3 fields required to uniquely identify a command in a command queue."))
  if args.cmdArgv.length < 1 then
    throw (.cmdLineParseError ("You need to specify the cmd_argv after the \x1b[1m--\x1b[22m option—" ++
      "at the very least the executable name of the command."))

/-- `cmd_env` is empty. -/
def ToolArgs.nixQueueCmd (args : ToolArgs) (cmdStdin : Bytes) : NixQueueCmd where
  metadata :=
    { cmdClassIdentity := args.cmdClass
      cmdClassRelname := args.cmdClass
      cmdId := args.cmdId
      cmdSubid := args.cmdSubid }
  cmdArgv := args.cmdArgv
  cmdStdin := cmdStdin

structure ToolRun where
  nixQueueCmd : NixQueueCmd
  executed : List Executed
  outputUpdateStatement : Bool
  execUpdateStatement : Bool

def ToolArgs.run (args : ToolArgs) (path cmdStdin : Bytes) : ToolRun where
  nixQueueCmd := args.nixQueueCmd cmdStdin
  executed := (args.nixQueueCmd cmdStdin).runCmd ⟨true, true, path⟩
  outputUpdateStatement := args.outputUpdateStatement
  execUpdateStatement := args.execUpdateStatement

/-- `main` up to the end of `run_cmd`. Nothing is read from a terminal. -/
def main (argv : List Bytes) (path : Bytes) (terminal : Bool) (standardInput : Bytes) :
    Except ToolExit ToolRun := do
  let args ← parseArgs (argv.tail.map cStr) {}
  checkArgs args
  return args.run path (if terminal then [] else standardInput)

variable {reserved : Bytes → Bool} {row : NixRow} {args args' : ToolArgs}
  {path arg cls cmdId : Bytes} {cmdSubid : Option Bytes} {rest : List Bytes}

/-! ## Parsing -/

/-- The words that identify a command are never options. -/
structure FieldsPlain (args : ToolArgs) : Prop where
  cmdId : isOption args.cmdId = false
  cmdSubid : ∀ subid ∈ args.cmdSubid, isOption subid = false

theorem fieldsPlain_identify (h : FieldsPlain args) (harg : isOption arg = false)
    (hargs : args.identify arg = .ok args') : FieldsPlain args' := by
  unfold ToolArgs.identify at hargs
  split at hargs
  · cases hargs
    exact ⟨h.cmdId, h.cmdSubid⟩
  · cases hargs
    exact ⟨harg, h.cmdSubid⟩
  · cases hargs
    exact ⟨h.cmdId, by simpa using harg⟩
  · cases hargs

theorem fieldsPlain_parseArgs (h : FieldsPlain args) (hargs : parseArgs rest args = .ok args') :
    FieldsPlain args' := by
  induction rest generalizing args with
  | nil =>
    cases hargs
    exact h
  | cons arg rest ih =>
    unfold parseArgs at hargs
    split at hargs
    · cases hargs
    · split at hargs
      · refine ih ?_ hargs
        exact ⟨h.cmdId, h.cmdSubid⟩
      · split at hargs
        · refine ih ?_ hargs
          exact ⟨h.cmdId, h.cmdSubid⟩
        · split at hargs
          · rename_i harg
            obtain ⟨next, hnext, hargs⟩ := bind_eq_ok hargs
            exact ih (fieldsPlain_identify h (by simpa using harg) hnext) hargs
          · split at hargs
            · cases hargs
              exact ⟨h.cmdId, h.cmdSubid⟩
            · cases hargs

theorem parseArgs_field (harg : isOption arg = false) :
    parseArgs (arg :: rest) args = (args.identify arg).bind (parseArgs rest) := by
  have hne : ∀ option, isOption option = true → arg ≠ option := by
    rintro option hoption rfl
    rw [harg] at hoption
    cases hoption
  rw [parseArgs, if_neg (hne _ (by decide)), if_neg (hne _ (by decide)), if_neg (hne _ (by decide)),
    if_pos (by simp [harg])]
  rfl

/-- The words of `cmd_line` with two or three fields that are no options. -/
theorem parseArgs_words (hcls : isOption cls = false) (hid : isOption cmdId = false)
    (hsubid : ∀ subid ∈ cmdSubid, isOption subid = false) :
    parseArgs (ascii "--output-update" :: cls :: cmdId :: (cmdSubid.toList ++ ascii "--" :: rest)) {} =
      .ok ⟨true, false, cls, cmdId, cmdSubid, cmdSubid.toList.length + 2, rest⟩ := by
  rw [parseArgs, if_neg (by decide), if_pos rfl, parseArgs_field hcls]
  show parseArgs (cmdId :: _) _ = _
  rw [parseArgs_field hid]
  cases cmdSubid with
  | none => rfl
  | some subid =>
    show parseArgs (subid :: _) _ = _
    rw [parseArgs_field (hsubid subid rfl)]
    rfl

/-! ## The words of a row -/

theorem quoteIdent_cons (reserved : Bytes → Bool) (x : Bytes) :
    ∃ c rest, quoteIdent reserved x = c :: rest ∧ c ≠ ch '-' ∧ c ≠ 0 := by
  cases hx : identIsSafe reserved x
  · exact ⟨ch '"', _, quoteIdent_quoted hx, by decide, by decide⟩
  · rw [quoteIdent_safe hx]
    simp only [identIsSafe, Bool.and_eq_true] at hx
    obtain ⟨⟨hstart, -⟩, -⟩ := hx
    cases x with
    | nil => cases hstart
    | cons c x =>
      have hc : isIdentStart c = true := hstart
      refine ⟨c, x, rfl, ?_, ?_⟩ <;> rintro rfl <;> revert hc <;> decide

/-- The identity of a class starts with a letter, an underscore or a double quote. -/
theorem isOption_classIdentity (nspname relname : Bytes) :
    isOption (cStr (classIdentity reserved nspname relname)) = false := by
  obtain ⟨c, rest, hcons, hdash, hnul⟩ := quoteIdent_cons reserved nspname
  have htext : cStr (classIdentity reserved nspname relname) =
      c :: cStr (rest ++ ch '.' :: quoteIdent reserved relname) := by
    rw [classIdentity, hcons, List.cons_append, cStr, List.takeWhile_cons_of_pos (by simpa using hnul)]
    rfl
  have hoption : ascii "--" = ch '-' :: [ch '-'] := rfl
  simp [isOption, htext, hoption, hdash]

/-- The arguments of a row without its NULLs. -/
def NixRow.presentArgv (row : NixRow) : List Bytes := row.cmdArgv.reduceOption.map (·.1)

theorem map_cStr_presentArgv : row.presentArgv.map cStr = row.presentArgv := by
  refine (List.map_congr_left ?_).trans (List.map_id _)
  intro x hx
  obtain ⟨y, -, rfl⟩ := List.mem_map.mp hx
  exact cStr_of_nulFree y.2

theorem words_tail : (row.words reserved).tail.map cStr =
    ascii "--output-update" :: cStr (classIdentity reserved row.nspname row.relname) :: row.cmdId.1 ::
      ((row.cmdSubid.map (·.1)).toList ++ ascii "--" :: row.presentArgv) := by
  have hpresent : row.cmdArgv.reduceOption.map (·.1) = row.presentArgv := rfl
  cases hsubid : row.cmdSubid with
  | none =>
    simp only [NixRow.words, NixRow.cmdLineArgv, hsubid, Option.map_none, List.cons_append,
      List.nil_append, List.reduceOption_cons_of_some, List.reduceOption_cons_of_none,
      List.reduceOption_map, List.tail_cons, List.map_cons, Option.toList_none]
    rw [hpresent, map_cStr_presentArgv, cStr_of_nulFree row.cmdId.2]
    rfl
  | some subid =>
    simp only [NixRow.words, NixRow.cmdLineArgv, hsubid, Option.map_some, List.cons_append,
      List.nil_append, List.reduceOption_cons_of_some, List.reduceOption_map, List.tail_cons,
      List.map_cons, Option.toList_some]
    rw [hpresent, map_cStr_presentArgv, cStr_of_nulFree row.cmdId.2, cStr_of_nulFree subid.2]
    rfl

/-! ## Behind the loop -/

/-- What the checks behind the loop let through. -/
theorem checkArgs_iff : checkArgs args = .ok () ↔
    2 ≤ args.cmdMetaFieldsIdentified ∧ args.cmdArgv ≠ [] := by
  unfold checkArgs
  by_cases hfields : args.cmdMetaFieldsIdentified < 2
  · simp [hfields, throw, throwThe, MonadExceptOf.throw, bind, Except.bind]
  · by_cases hargv : args.cmdArgv.length < 1
    · have hnil : args.cmdArgv = [] := List.eq_nil_of_length_eq_zero (by omega)
      simp [hfields, hnil, throw, throwThe, MonadExceptOf.throw]
    · have hne : args.cmdArgv ≠ [] := List.ne_nil_of_length_pos (by omega)
      simp [hfields, hne, pure, Except.pure]
      omega

theorem main_iff {argv : List Bytes} {stdin : Bytes} {run : ToolRun} :
    main argv path false stdin = .ok run ↔ ∃ args, parseArgs (argv.tail.map cStr) {} = .ok args ∧
      checkArgs args = .ok () ∧ run = args.run path stdin := by
  constructor
  · intro h
    obtain ⟨args, hargs, h⟩ := bind_eq_ok h
    obtain ⟨⟨⟩, hcheck, h⟩ := bind_eq_ok h
    cases h
    exact ⟨args, hargs, hcheck, rfl⟩
  · rintro ⟨args, hargs, hcheck, rfl⟩
    rw [main, hargs]
    show (checkArgs args).bind _ = _
    rw [hcheck]
    rfl

/-- The tool's arguments for a row with two or three plain fields. -/
def NixRow.toolArgs (reserved : Bytes → Bool) (row : NixRow) : ToolArgs :=
  ⟨true, false, cStr (classIdentity reserved row.nspname row.relname), row.cmdId.1,
    row.cmdSubid.map (·.1), (row.cmdSubid.map (·.1)).toList.length + 2, row.presentArgv⟩

theorem parseArgs_toolArgs (hid : isOption row.cmdId = false)
    (hsubid : ∀ subid ∈ row.cmdSubid, isOption subid = false) :
    parseArgs ((row.words reserved).tail.map cStr) {} = .ok (row.toolArgs reserved) := by
  rw [words_tail]
  apply parseArgs_words (isOption_classIdentity row.nspname row.relname) hid
  intro subid hmem
  obtain ⟨text, htext, rfl⟩ := Option.mem_map.mp hmem
  exact hsubid text htext

theorem run_toolArgs {p stdin : Bytes} : ((row.toolArgs reserved).run p stdin).executed =
    [.process row.presentArgv (setenv ∅ (ascii "PATH") p) stdin] := by
  show [Executed.process (row.presentArgv.map cStr) (setenv ∅ (ascii "PATH") p) stdin] = _
  rw [map_cStr_presentArgv]

end PgCmdQueue.NixTool
