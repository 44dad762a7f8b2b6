import PgCmdQueue.Logger

/-!
# The command line of `pg_cmdqd`

Options in any order, and behind them the connection string.
-/

namespace PgCmdQueue.Daemon

open Cpp

inductive Exit where
  | usage
  | cmdLineParseError (what : String)
  /-- An exception that no handler catches. -/
  | terminated

/-- `StringToLogLevel`. -/
def stringToLogLevel : List (Bytes × LogLevel) :=
  [(ascii "DEBUG1", .debug1), (ascii "DEBUG2", .debug2), (ascii "DEBUG3", .debug3),
    (ascii "DEBUG4", .debug4), (ascii "DEBUG5", .debug5), (ascii "ERROR", .error),
    (ascii "FATAL", .fatal), (ascii "INFO", .info), (ascii "LOG", .log), (ascii "NONE", .none),
    (ascii "NOTICE", .notice), (ascii "PANIC", .panic), (ascii "WARNING", .warning)]

structure Args where
  logLevel : LogLevel
  logTimes : Bool
  explicitCmdClasses : List Bytes := []
  connStr : Bytes := []
  emitSigusr1WhenReady : Bool := false
  listMode : Bool := false
  deriving DecidableEq

def unrecognizedLogLevel (level : Bytes) : String := "Unrecognized log level: " ++ toText level

/-- The level and the times that `PG_CMDQD_LOG_LEVEL` and `PG_CMDQD_LOG_TIMES` leave. What is
thrown here is not what the handler catches. -/
def readEnviron (logLevel logTimes : Option Bytes) : Except Exit (LogLevel × Bool) := do
  let level := (logLevel.map normalizeLogLevel).getD []
  -- The times are on from the start, so that the other variable changes nothing.
  let times := true || logTimes.any [ascii "true", ascii "TRUE", ascii "yes", ascii "YES"].contains
  if level = [] then return (.info, times)
  match stringToLogLevel.lookup level with
  | none => throw .terminated
  | some level => return (level, times)

/-- The body of the loop over `argv`: the words that it leaves, and what it has made of `arg`. -/
def parseArg (argv : List Bytes) (arg : Bytes) (rest : List Bytes) (args : Args) :
    Except Exit (List Bytes × Args) :=
  if arg = ascii "--help" ∨ arg = ascii "-h" then .error .usage
  else if arg = ascii "--log-level" then
    match rest with
    | [] => .error (.cmdLineParseError
        "Missing \x1b[1m<log_level>\x1b[22m argument to \x1b[1m--log-level\x1b[22m option.")
    | logLevelArg :: rest =>
      match stringToLogLevel.lookup (normalizeLogLevel logLevelArg) with
      | none => .error (.cmdLineParseError (unrecognizedLogLevel (normalizeLogLevel logLevelArg)))
      | some level => .ok (rest, { args with logLevel := level })
  else if arg = ascii "--cmd-queue" then
    match rest with
    | [] => .error (.cmdLineParseError
        "Missing \x1b[1m<cmd_class>\x1b[22m argument to \x1b[1m--cmd-queue\x1b[22m option.")
    | cmdClass :: rest =>
      .ok (rest, { args with explicitCmdClasses := args.explicitCmdClasses ++ [cmdClass] })
  else if arg = ascii "--emit-sigusr1-when-ready" then
    .ok (rest, { args with emitSigusr1WhenReady := true })
  else if arg = ascii "--list-queue-names" then .ok (rest, { args with listMode := true })
  else if arg = ascii "--log-times" then .ok (rest, { args with logTimes := true })
  else if arg = ascii "--no-log-times" then .ok (rest, { args with logTimes := false })
  else if rest = [] then
    -- The last argument, but it is `argv[1]` that is taken.
    .ok (rest, { args with connStr := args.connStr ++ argv.getD 1 [] })
  else .error (.cmdLineParseError ("Unrecognized argument/option: " ++ toText arg))

/-- Every iteration takes a word at least, so that as many iterations as words are enough. -/
def parseArgs (argv : List Bytes) : Nat → List Bytes → Args → Except Exit Args
  | n + 1, arg :: rest, args => do
    let (rest, args) ← parseArg argv arg rest args
    parseArgs argv n rest args
  | _, _, args => .ok args

def parseCmdLine (level : LogLevel) (times : Bool) (argv : List Bytes) : Except Exit Args :=
  parseArgs argv argv.length argv.tail { logLevel := level, logTimes := times }

/-- `main` up to the manager. -/
def main (logLevel logTimes : Option Bytes) (argv : List Bytes) : Except Exit Args := do
  let (level, times) ← readEnviron logLevel logTimes
  parseCmdLine level times argv

/-! ## What the usage text promises -/

/-- An option with its argument. A level may have the prefix `LOG_`. -/
inductive Opt where
  | logLevel (level : LogLevel) (withPrefix : Bool)
  | logTimes
  | noLogTimes
  | cmdQueue (cmdClass : Bytes)
  | emitSigusr1WhenReady
  | listQueueNames

def Opt.name : Opt → Bytes
  | .logLevel _ _ => ascii "--log-level"
  | .logTimes => ascii "--log-times"
  | .noLogTimes => ascii "--no-log-times"
  | .cmdQueue _ => ascii "--cmd-queue"
  | .emitSigusr1WhenReady => ascii "--emit-sigusr1-when-ready"
  | .listQueueNames => ascii "--list-queue-names"

def Opt.words (o : Opt) : List Bytes :=
  o.name :: match o with
    | .logLevel level withPrefix =>
      [(if withPrefix then ascii "LOG_" else []) ++ getLogLevelString level]
    | .cmdQueue cmdClass => [cmdClass]
    | _ => []

def optionNames : List Bytes :=
  [ascii "--help", ascii "-h", ascii "--log-level", ascii "--cmd-queue",
    ascii "--emit-sigusr1-when-ready", ascii "--list-queue-names", ascii "--log-times",
    ascii "--no-log-times"]

/-- A connection string that is not itself an option. -/
abbrev ConnStr := { x : Bytes // x ∉ optionNames }

def Opt.level? : Opt → Option LogLevel
  | .logLevel level _ => some level
  | _ => none

def Opt.times? : Opt → Option Bool
  | .logTimes => some true
  | .noLogTimes => some false
  | _ => none

def Opt.cmdClass? : Opt → Option Bytes
  | .cmdQueue cmdClass => some cmdClass
  | _ => none

def Opt.emits : Opt → Bool
  | .emitSigusr1WhenReady => true
  | _ => false

def Opt.lists : Opt → Bool
  | .listQueueNames => true
  | _ => false

/-- The last level and the last choice of times count, and the queues are collected in order. -/
def documented (start : Args) (options : List Opt) (connStr : Bytes) : Args where
  logLevel := (options.filterMap Opt.level?).getLast?.getD start.logLevel
  logTimes := (options.filterMap Opt.times?).getLast?.getD start.logTimes
  explicitCmdClasses := start.explicitCmdClasses ++ options.filterMap Opt.cmdClass?
  connStr := connStr
  emitSigusr1WhenReady := start.emitSigusr1WhenReady || options.any Opt.emits
  listMode := start.listMode || options.any Opt.lists

def ParsesAsDocumented (level : LogLevel) (times : Bool) (program : Bytes) (options : List Opt)
    (connStr : ConnStr) : Prop :=
  parseCmdLine level times (program :: (options.flatMap Opt.words ++ [connStr.1])) =
    .ok (documented { logLevel := level, logTimes := times } options connStr)

variable {argv rest : List Bytes} {args : Args} {o : Opt} {options : List Opt} {connStr : ConnStr}
  {level : LogLevel} {times : Bool} {program : Bytes}

/-! ## Parsing -/

def Opt.apply (args : Args) : Opt → Args
  | .logLevel level _ => { args with logLevel := level }
  | .logTimes => { args with logTimes := true }
  | .noLogTimes => { args with logTimes := false }
  | .cmdQueue cmdClass => { args with explicitCmdClasses := args.explicitCmdClasses ++ [cmdClass] }
  | .emitSigusr1WhenReady => { args with emitSigusr1WhenReady := true }
  | .listQueueNames => { args with listMode := true }

theorem lookup_normalize (level : LogLevel) (withPrefix : Bool) :
    stringToLogLevel.lookup (normalizeLogLevel
      ((if withPrefix then ascii "LOG_" else []) ++ getLogLevelString level)) = some level := by
  cases withPrefix <;> cases level <;> decide

theorem parseArg_option : ∃ arg next, o.words ++ rest = arg :: next ∧
    parseArg argv arg next args = .ok (rest, o.apply args) := by
  refine ⟨_, _, rfl, ?_⟩
  unfold parseArg
  cases o with
  | logLevel level withPrefix =>
    have h := lookup_normalize level withPrefix
    simp +decide [Opt.name, Opt.apply, h]
  | _ => simp +decide [Opt.name, Opt.apply]

theorem parseArgs_options {n : Nat} (h : options.length ≤ n) :
    parseArgs argv n (options.flatMap Opt.words ++ rest) args =
      parseArgs argv (n - options.length) rest (options.foldl Opt.apply args) := by
  induction options generalizing args n with
  | nil => rfl
  | cons o options ih =>
    obtain ⟨n, rfl⟩ : ∃ m, n = m + 1 := ⟨n - 1, by rw [List.length_cons] at h; omega⟩
    obtain ⟨arg, next, hwords, harg⟩ := @parseArg_option argv (options.flatMap Opt.words ++ rest) args o
    rw [List.flatMap_cons, List.append_assoc, hwords, parseArgs, harg]
    rw [List.length_cons, Nat.add_le_add_iff_right] at h
    show parseArgs argv n _ (o.apply args) = _
    simpa using ih h

theorem parseArgs_connStr (n : Nat) : parseArgs argv (n + 1) [connStr.1] args =
    .ok { args with connStr := args.connStr ++ argv.getD 1 [] } := by
  have hne : ∀ name ∈ optionNames, connStr.1 ≠ name := by
    rintro name hname rfl
    exact connStr.2 hname
  simp only [optionNames, List.forall_mem_cons] at hne
  have hlast : parseArg argv connStr.1 [] args =
      .ok ([], { args with connStr := args.connStr ++ argv.getD 1 [] }) := by
    simp [parseArg, hne]
  rw [parseArgs, hlast]
  cases n <;> rfl

theorem length_le_words (options : List Opt) :
    options.length ≤ (options.flatMap Opt.words).length := by
  induction options with
  | nil => simp
  | cons o options ih =>
    simp only [List.flatMap_cons, List.length_append, List.length_cons, Opt.words]
    omega

theorem documented_cons (o : Opt) (options : List Opt) (connStr : Bytes) :
    documented args (o :: options) connStr = documented (o.apply args) options connStr := by
  cases o <;> simp [documented, Opt.apply, List.filterMap_cons, Opt.level?, Opt.times?,
    Opt.cmdClass?, Opt.emits, Opt.lists, List.getLast?_cons]

theorem foldl_apply (options : List Opt) :
    options.foldl Opt.apply args = documented args options args.connStr := by
  induction options generalizing args with
  | nil => simp [documented]
  | cons o options ih =>
    have hconn : (o.apply args).connStr = args.connStr := by cases o <;> rfl
    rw [List.foldl_cons, ih, documented_cons, hconn]

/-- Every list of options is parsed, and all but the connection string is as documented. -/
theorem parseCmdLine_options : parseCmdLine level times
    (program :: (options.flatMap Opt.words ++ [connStr.1])) =
      .ok (documented { logLevel := level, logTimes := times } options
        ((options.flatMap Opt.words ++ [connStr.1]).headD [])) := by
  have hlen := length_le_words options
  obtain ⟨n, hn⟩ : ∃ n, (program :: (options.flatMap Opt.words ++ [connStr.1])).length -
      options.length = n + 1 := by
    refine ⟨(options.flatMap Opt.words).length + 1 - options.length, ?_⟩
    simp only [List.length_cons, List.length_append, List.length_nil]
    omega
  unfold parseCmdLine
  rw [List.tail_cons, parseArgs_options (by simp only [List.length_cons, List.length_append]; omega),
    hn, parseArgs_connStr, foldl_apply]
  simp only [documented, List.nil_append]
  congr 2
  cases options <;> rfl

theorem name_mem (o : Opt) : o.name ∈ optionNames := by
  cases o <;> simp [Opt.name, optionNames]

/-- With an option in front, the connection string is the name of the first option. -/
theorem parsesAsDocumented_iff (level : LogLevel) (times : Bool) (program : Bytes)
    (options : List Opt) (connStr : ConnStr) :
    ParsesAsDocumented level times program options connStr ↔ options = [] := by
  unfold ParsesAsDocumented
  rw [parseCmdLine_options]
  cases options with
  | nil => simp
  | cons o options =>
    simp only [reduceCtorEq, iff_false, Except.ok.injEq]
    intro h
    have hname : o.name = connStr.1 := congrArg Args.connStr h
    exact connStr.2 (hname ▸ name_mem o)

def dbname : ConnStr := ⟨ascii "dbname=wobbie", by decide⟩

/-- The daemon connects to a database that is called `--log-level`. -/
theorem not_parsesAsDocumented_logLevel :
    ¬ParsesAsDocumented .info true (ascii "pg_cmdqd") [.logLevel .debug5 false] dbname := by
  unfold ParsesAsDocumented
  rw [parseCmdLine_options, Except.ok.injEq]
  decide

end PgCmdQueue.Daemon
