import PgCmdQueue.Pq.Composite

/-!
# NOTIFY payloads

What `queue_cmd__notify` sends for a row, and what the runners make of it.
-/

namespace PgCmdQueue

open Cpp Postgres Pq

def notifyPayload (reserved : Bytes → Bool) (nspname relname cmdId : Bytes)
    (cmdSubid : Option Bytes) : Bytes :=
  rowOut [some (classIdentity reserved nspname relname), some cmdId, cmdSubid]

/-- The trigger without arguments. Its `assert` turns down a relation that is called
`cmdq` in another schema than `cmdq`. -/
def queueCmdNotify (reserved : Bytes → Bool) (tgTableSchema tgTableName cmdId : Bytes)
    (cmdSubid : Option Bytes) : Option Bytes :=
  if tgTableSchema = ascii "cmdq" ∨ tgTableName ≠ ascii "cmdq" then
    some (notifyPayload reserved tgTableSchema tgTableName cmdId cmdSubid)
  else none

structure NotifyCmd where
  cmdClassIdentity : Bytes
  cmdId : Bytes
  cmdSubid : Option Bytes
  deriving DecidableEq

/-- The `try` block around a payload. -/
def parseNotifyPayload (asserts : Bool) (extra : Bytes) : Except CppError NotifyCmd := do
  match ← fromTextCompositeValue asserts extra with
  | [some cmdClassIdentity, some cmdId, cmdSubid] => return ⟨cmdClassIdentity, cmdId, cmdSubid⟩
  | [none, _, _] =>
    throw (.runtimeError "The 1st field (`cmd_class_identity`) in NOTIFY payload may not be `NULL`")
  | [some _, none, _] =>
    throw (.runtimeError "The 2nd field (`cmd_id`) in NOTIFY payload may not be `NULL`")
  | fields =>
    let n := fields.length
    throw (.runtimeError s!"Expected 3 fields in composite NOTIFY payload, not {n}")

/-- The command that a runner selects next because of the payload. Exceptions are logged
and the payload is passed over; a failed assertion ends the daemon. -/
def answerNotify (asserts : Bool) (cmdClassIdentity extra : Bytes) :
    Except CppError (Option NotifyCmd) :=
  match parseNotifyPayload asserts extra with
  | .ok n => .ok (if n.cmdClassIdentity = cmdClassIdentity then some n else none)
  | .error (.assertion expr) => .error (.assertion expr)
  | .error _ => .ok none

/-- The parameters of `select_notify_cmd`. -/
def NotifyCmd.selectParams (n : NotifyCmd) : List (Option Bytes) := [some n.cmdId, n.cmdSubid]

variable {reserved : Bytes → Bool} {nspname relname x : Bytes}

theorem rowNeedsQuote_append_dquote (y z : Bytes) : rowNeedsQuote (y ++ ch '"' :: z) = true := by
  simp [rowNeedsQuote, isSpecial]

theorem rowNeedsQuote_quoted (hx : identIsSafe reserved x = false) (y z : Bytes) :
    rowNeedsQuote (y ++ (quoteIdent reserved x ++ z)) = true := by
  rw [quoteIdent_quoted hx, dquoted, List.cons_append]
  exact rowNeedsQuote_append_dquote _ _

theorem plain_identByte {c : Byte} (hc : isIdentByte c = true) :
    (isSpecial c || c == ch '(' || c == ch ')' || c == ch ',' || isSpace c) = false := by
  rw [Bool.eq_false_iff]
  intro h
  simp only [isSpecial, isSpace, Bool.or_eq_true, beq_iff_eq] at h
  rcases h with ((((rfl | rfl) | rfl) | rfl) | rfl) | ((((rfl | rfl) | rfl) | rfl) | rfl) | rfl <;>
    revert hc <;> decide

/-- An identity is quoted in a row when one of its two names is quoted in it. -/
theorem rowNeedsQuote_classIdentity : rowNeedsQuote (classIdentity reserved nspname relname) = false ↔
    identIsSafe reserved nspname = true ∧ identIsSafe reserved relname = true := by
  cases hn : identIsSafe reserved nspname
  · have := rowNeedsQuote_quoted hn [] (ch '.' :: quoteIdent reserved relname)
    simpa [classIdentity] using this
  cases hr : identIsSafe reserved relname
  · have := rowNeedsQuote_quoted hr (quoteIdent reserved nspname ++ [ch '.']) []
    simpa [classIdentity] using this
  · simp only [and_self, iff_true]
    rw [classIdentity, quoteIdent_safe hn, quoteIdent_safe hr, rowNeedsQuote, Bool.or_eq_false_iff]
    refine ⟨by simp, List.any_eq_false.mpr fun c hc => ?_⟩
    rw [Bool.not_eq_true]
    rcases List.mem_append.mp hc with hc | hc
    · exact plain_identByte (safe_byte hn hc)
    · rcases List.mem_cons.mp hc with rfl | hc
      · decide
      · exact plain_identByte (safe_byte hr hc)

/-- The payload that is sent decodes to its three fields, and the runner of the relation is
the only one that answers it. -/
def ReachesItsRunner (reserved : Bytes → Bool) (nspname relname cmdId : Bytes)
    (cmdSubid : Option Bytes) : Prop :=
  let identity := classIdentity reserved nspname relname
  ∃ payload, queueCmdNotify reserved nspname relname cmdId cmdSubid = some payload ∧ ∀ asserts,
    fromTextCompositeValue asserts payload = .ok [some identity, some cmdId, cmdSubid] ∧
    (∃ n, answerNotify asserts identity payload = .ok (some n) ∧
      n.selectParams = [some cmdId, cmdSubid]) ∧
    ∀ nspname' relname', ¬(nspname' = nspname ∧ relname' = relname) →
      answerNotify asserts (classIdentity reserved nspname' relname') payload = .ok none

/-- No field of the payload is written in quotes. -/
theorem decodes_iff (reserved : Bytes → Bool) (nspname relname cmdId : Bytes)
    (cmdSubid : Option Bytes) (asserts : Bool) :
    fromTextCompositeValue asserts (notifyPayload reserved nspname relname cmdId cmdSubid) =
        .ok [some (classIdentity reserved nspname relname), some cmdId, cmdSubid] ↔
      (identIsSafe reserved nspname = true ∧ identIsSafe reserved relname = true) ∧
        rowNeedsQuote cmdId = false ∧ fieldNeedsQuote cmdSubid = false := by
  rw [← rowNeedsQuote_classIdentity, notifyPayload, fromTextCompositeValue_rowOut_iff]
  simp [fieldNeedsQuote]

end PgCmdQueue
