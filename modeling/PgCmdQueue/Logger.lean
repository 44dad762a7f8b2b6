import PgCmdQueue.Lib.Printf

/-!
# The logger

Every message is put between a header and a colour reset, and the whole is then the format of
`vsnprintf`.
-/

namespace PgCmdQueue

open Cpp Printf Decimal

inductive LogLevel where
  | none
  | panic
  | fatal
  | log
  | error
  | warning
  | notice
  | info
  | debug1
  | debug2
  | debug3
  | debug4
  | debug5
  deriving DecidableEq

/-- Each level sets one bit more than the level before it. -/
def LogLevel.bits : LogLevel → Nat
  | none => 0b0
  | panic => 0b1
  | fatal => 0b11
  | log => 0b111
  | error => 0b1111
  | warning => 0b11111
  | notice => 0b111111
  | info => 0b1111111
  | debug1 => 0b11111111
  | debug2 => 0b111111111
  | debug3 => 0b1111111111
  | debug4 => 0b11111111111
  | debug5 => 0b111111111111

def getLogLevelString : LogLevel → Bytes
  | .none => ascii "NONE"
  | .panic => ascii "PANIC"
  | .fatal => ascii "FATAL"
  | .log => ascii "LOG"
  | .error => ascii "ERROR"
  | .warning => ascii "WARNING"
  | .notice => ascii "NOTICE"
  | .info => ascii "INFO"
  | .debug1 => ascii "DEBUG1"
  | .debug2 => ascii "DEBUG2"
  | .debug3 => ascii "DEBUG3"
  | .debug4 => ascii "DEBUG4"
  | .debug5 => ascii "DEBUG5"

def normalizeLogLevel (str : Bytes) : Bytes :=
  if str.take 4 = ascii "LOG_" then str.drop 4 else str

/-- `struct tm`, with the month and the year as they are printed. -/
structure Tm where
  year : Nat
  mon : Nat
  mday : Nat
  hour : Nat
  min : Nat
  sec : Nat

def twoDigits (n : Nat) : Bytes := if n < 10 then ch '0' :: decimal n else decimal n

/-- `%Y-%m-%d %H:%M:%S` -/
def putTime (tm : Tm) : Bytes :=
  decimal tm.year ++ ch '-' :: (twoDigits tm.mon ++ ch '-' :: (twoDigits tm.mday ++
    ch ' ' :: (twoDigits tm.hour ++ ch ':' :: (twoDigits tm.min ++ ch ':' :: twoDigits tm.sec))))

/-- A text that `vsnprintf` copies as it is. -/
def Copied (x : Bytes) : Prop := ch '%' ∉ x ∧ NulFree x

/-- What the logger reads of its thread's queue. The names come from C strings, and the colour
is one that `cmd_class_color` has put together. -/
structure ThreadQueue where
  cmdClassIdentity : Bytes
  ansiFg : Bytes
  cmdClassIdentity_nulFree : NulFree cmdClassIdentity
  ansiFg_copied : Copied ansiFg

structure LogLine where
  line : Bytes
  alsoToStdOut : Bool
  deriving DecidableEq

structure Logger where
  curLogLevel : LogLevel := .notice
  logTimes : Bool := true
  alsoLogToStd : Bool := true
  lines : List LogLine := []
  deriving DecidableEq

namespace Logger

/-- What stands in front of the message. -/
def header (logger : Logger) (cmdQueue : Option ThreadQueue) (tm : Tm) (level : LogLevel) : Bytes :=
  (cmdQueue.elim [] fun q => ch '\x1b' :: q.ansiFg) ++
  (if logger.logTimes then ch '[' :: (putTime tm ++ ascii "] ") else []) ++
  (cmdQueue.elim [] fun q => ch '[' :: (q.cmdClassIdentity ++ ascii "] ")) ++
  ch '[' :: (getLogLevelString level ++ ascii "] ")

def reset (cmdQueue : Option ThreadQueue) : Bytes := cmdQueue.elim [] fun _ => ascii "\x1b[0m"

def intMax : Nat := 2147483647

/-- The buffer and the queue. A text that is longer than an `int` can tell leaves the buffer
empty. Two lengths short of that overflow the `int` in the size of the buffer. -/
def push (logger : Logger) (text : Bytes) : Option Logger :=
  if intMax < text.length then
    some { logger with lines := logger.lines ++ [⟨[], logger.alsoLogToStd⟩] }
  else if intMax < text.length + 2 then none
  else some { logger with lines := logger.lines ++ [⟨text, logger.alsoLogToStd⟩] }

/-- `none` where the behaviour is undefined. -/
def log (logger : Logger) (cmdQueue : Option ThreadQueue) (tm : Tm) (level : LogLevel) (str : Bytes)
    (args : List Arg) : Option Logger :=
  if logger.curLogLevel.bits < level.bits then some logger
  else (vsnprintf (cStr (logger.header cmdQueue tm level ++ str ++ reset cmdQueue)) args).bind
    logger.push

/-- `log(level, s.c_str())` -/
def logString (logger : Logger) (cmdQueue : Option ThreadQueue) (tm : Tm) (level : LogLevel)
    (s : Bytes) : Option Logger :=
  logger.log cmdQueue tm level (cStr s) []

/-- The line of a message that is logged exactly. -/
def lineOf (logger : Logger) (cmdQueue : Option ThreadQueue) (tm : Tm) (level : LogLevel)
    (s : Bytes) : Bytes :=
  logger.header cmdQueue tm level ++ s ++ reset cmdQueue

/-- One line more, and it is exact. -/
def LogsExactly (logger : Logger) (cmdQueue : Option ThreadQueue) (tm : Tm) (level : LogLevel)
    (s : Bytes) : Prop :=
  logger.logString cmdQueue tm level s = some { logger with
    lines := logger.lines ++ [⟨logger.lineOf cmdQueue tm level s, logger.alsoLogToStd⟩] }

end Logger

/-! ## Texts that are copied -/

variable {logger : Logger} {cmdQueue : Option ThreadQueue} {tm : Tm} {level : LogLevel}
  {c : Byte} {s x y : Bytes} {n : Nat}

theorem copied_nil : Copied [] := by simp [Copied, NulFree]

theorem copied_cons : Copied (c :: x) ↔ c ≠ ch '%' ∧ c ≠ 0 ∧ Copied x := by
  simp [Copied, nulFree_cons, eq_comm]
  tauto

theorem copied_append : Copied (x ++ y) ↔ Copied x ∧ Copied y := by
  simp [Copied, nulFree_append]
  tauto

theorem copied_decimal (n : Nat) : Copied (decimal n) := by
  refine ⟨not_mem_decimal (by decide), ?_⟩
  rintro c hc rfl
  exact not_mem_decimal (by decide) hc

theorem copied_twoDigits (n : Nat) : Copied (twoDigits n) := by
  unfold twoDigits
  split
  · exact copied_cons.mpr ⟨by decide, by decide, copied_decimal n⟩
  · exact copied_decimal n

theorem copied_putTime (tm : Tm) : Copied (putTime tm) := by
  unfold putTime
  simp only [copied_append, copied_cons, copied_decimal, copied_twoDigits, and_true, true_and]
  decide

theorem copied_getLogLevelString (level : LogLevel) :
    Copied (ch '[' :: (getLogLevelString level ++ ascii "] ")) := by
  unfold Copied
  cases level <;> decide

theorem copied_reset : Copied (Logger.reset cmdQueue) := by
  cases cmdQueue with
  | none => exact copied_nil
  | some q =>
    show Copied (ascii "\x1b[0m")
    unfold Copied
    decide

theorem nulFree_header : NulFree (logger.header cmdQueue tm level) := by
  unfold Logger.header
  simp only [nulFree_append]
  refine ⟨⟨⟨?_, ?_⟩, ?_⟩, (copied_getLogLevelString level).2⟩
  · cases cmdQueue with
    | none => exact copied_nil.2
    | some q => exact nulFree_cons.mpr ⟨by decide, q.ansiFg_copied.2⟩
  · split
    · exact nulFree_cons.mpr ⟨by decide, nulFree_append.mpr ⟨(copied_putTime tm).2, by decide⟩⟩
    · exact copied_nil.2
  · cases cmdQueue with
    | none => exact copied_nil.2
    | some q =>
      exact nulFree_cons.mpr ⟨by decide, nulFree_append.mpr ⟨q.cmdClassIdentity_nulFree, by decide⟩⟩

/-- The name of the queue is all that can stand in the way. -/
theorem not_mem_header_iff : ch '%' ∉ logger.header cmdQueue tm level ↔
    ∀ q ∈ cmdQueue, ch '%' ∉ q.cmdClassIdentity := by
  have htime : ch '%' ∉ if logger.logTimes then ch '[' :: (putTime tm ++ ascii "] ") else [] := by
    split
    · have hopen : ch '%' ≠ ch '[' := by decide
      have hclose : ch '%' ∉ ascii "] " := by decide
      simp [hopen, hclose, (copied_putTime tm).1]
    · simp
  unfold Logger.header
  simp only [List.mem_append, not_or, htime, (copied_getLogLevelString level).1]
  cases cmdQueue with
  | none => simp
  | some q =>
    have hopen : ch '%' ≠ ch '[' ∧ ch '%' ≠ ch '\x1b' := by decide
    have hclose : ch '%' ∉ ascii "] " := by decide
    simp [hopen, hclose, q.ansiFg_copied.1]

theorem cStr_length_le (s : Bytes) : (cStr s).length ≤ s.length :=
  (List.takeWhile_prefix _).length_le

theorem cStr_eq_of_length (h : (cStr s).length = s.length) : cStr s = s :=
  (List.takeWhile_prefix _).eq_of_length h

/-! ## What is logged -/

theorem logString_enabled (h : level.bits ≤ logger.curLogLevel.bits) :
    logger.logString cmdQueue tm level s =
      (vsnprintf (logger.lineOf cmdQueue tm level (cStr s)) []).bind logger.push := by
  have hformat : NulFree (logger.lineOf cmdQueue tm level (cStr s)) :=
    nulFree_append.mpr ⟨nulFree_append.mpr ⟨nulFree_header, nulFree_cStr s⟩, copied_reset.2⟩
  unfold Logger.logString Logger.log
  rw [if_neg (by omega)]
  show (vsnprintf (cStr (logger.lineOf cmdQueue tm level (cStr s))) []).bind _ = _
  rw [cStr_of_nulFree hformat]

/-- A header is never empty. -/
theorem lineOf_ne_nil : logger.lineOf cmdQueue tm level s ≠ [] := by
  unfold Logger.lineOf Logger.header
  simp

theorem push_eq_iff (hx : x ≠ []) :
    logger.push y = some { logger with lines := logger.lines ++ [⟨x, logger.alsoLogToStd⟩] } ↔
      y = x ∧ x.length + 2 ≤ Logger.intMax := by
  unfold Logger.push
  split
  · have hne : [] ≠ x := fun h => hx h.symm
    simp [hne]
    rintro rfl
    omega
  · split
    · simp
      rintro rfl
      omega
    · simp
      rintro rfl
      omega

theorem not_mem_lineOf_iff : ch '%' ∉ logger.lineOf cmdQueue tm level s ↔
    ch '%' ∉ s ∧ ∀ q ∈ cmdQueue, ch '%' ∉ q.cmdClassIdentity := by
  unfold Logger.lineOf
  simp only [List.mem_append, not_or, not_mem_header_iff, copied_reset.1]
  tauto

theorem copied_of_logsExactly (h : level.bits ≤ logger.curLogLevel.bits)
    (hlog : logger.LogsExactly cmdQueue tm level s) :
    Copied s ∧ (∀ q ∈ cmdQueue, ch '%' ∉ q.cmdClassIdentity) ∧
      (logger.lineOf cmdQueue tm level s).length + 2 ≤ Logger.intMax := by
  unfold Logger.LogsExactly at hlog
  rw [logString_enabled h, Option.bind_eq_some_iff] at hlog
  obtain ⟨text, htext, hpush⟩ := hlog
  obtain ⟨rfl, hlen⟩ := (push_eq_iff lineOf_ne_nil).mp hpush
  obtain ⟨hle, -⟩ := length_vsnprintf htext
  -- The format is no longer than the line only if the message has no NUL.
  have hstr : cStr s = s := by
    apply cStr_eq_of_length
    have := cStr_length_le s
    unfold Logger.lineOf at hle
    simp only [List.length_append] at hle
    omega
  rw [hstr] at htext
  obtain ⟨hs, hqueue⟩ := not_mem_lineOf_iff.mp (vsnprintf_self_iff.mp htext)
  exact ⟨⟨hs, hstr ▸ nulFree_cStr s⟩, hqueue, hlen⟩

/-- The message is copied into the format, so that a percent sign in it is a conversion. -/
theorem logsExactly_iff (h : level.bits ≤ logger.curLogLevel.bits) :
    logger.LogsExactly cmdQueue tm level s ↔
      ch '%' ∉ s ∧ NulFree s ∧ (∀ q ∈ cmdQueue, ch '%' ∉ q.cmdClassIdentity) ∧
        (logger.lineOf cmdQueue tm level s).length ≤ 2147483645 := by
  constructor
  · intro hlog
    obtain ⟨hs, hqueue, hlen⟩ := copied_of_logsExactly h hlog
    unfold Logger.intMax at hlen
    exact ⟨hs.1, hs.2, hqueue, by omega⟩
  · rintro ⟨hs, hnul, hqueue, hlen⟩
    unfold Logger.LogsExactly
    rw [logString_enabled h, Option.bind_eq_some_iff, cStr_of_nulFree hnul]
    refine ⟨_, vsnprintf_plain (not_mem_lineOf_iff.mpr ⟨hs, hqueue⟩),
      (push_eq_iff lineOf_ne_nil).mpr ⟨rfl, ?_⟩⟩
    unfold Logger.intMax
    omega

/-- A message of a command that reports its progress. -/
theorem logsExactly_done : ch '%' ∉ ascii "done" ∧
    Logger.LogsExactly {} none ⟨2023, 7, 24, 7, 0, 0⟩ .notice (ascii "done") := by
  have h : LogLevel.notice.bits ≤ ({} : Logger).curLogLevel.bits := by decide
  exact ⟨by decide, (logsExactly_iff h).mpr ⟨by decide, by decide, by simp, by decide⟩⟩

theorem not_logsExactly_percent :
    ¬Logger.LogsExactly {} none ⟨2023, 7, 24, 7, 0, 0⟩ .notice (ascii "50% done") := by
  intro h
  have := (copied_of_logsExactly (by decide) h).1.1
  revert this
  decide

end PgCmdQueue
