import PgCmdQueue.Postgres.Text
import Mathlib.Data.List.AList

/-!
# The table `cmdq.cmd_queue`

One record for each queue relation, with the relations that the records name.
-/

namespace PgCmdQueue.Extension

open Cpp Postgres

abbrev Oid := Nat

/-- A row of `pg_class`, joined with its namespace. -/
structure PgClass where
  nspname : Bytes
  relname : Bytes

abbrev PgClasses := AList fun _ : Oid => PgClass

/-- The columns that the triggers and the view read or filter by. -/
structure CmdQueueRecord where
  cmdClass : Oid
  cmdSignatureClass : Oid
  queueIsEnabled : Bool := true
  pgExtensionName : Option Bytes := none
  deriving DecidableEq

/-- `^[a-z][a-z0-9_]+_cmd$` -/
def cmdClassCheck (relname : Bytes) : Bool :=
  relname.head?.any (fun c => ch 'a' ≤ c && c ≤ ch 'z') && relname.all isIdentByte &&
    (ascii "_cmd").isSuffixOf relname && 6 ≤ relname.length

def cmdSignatureClassCheck (relname : Bytes) : Bool :=
  relname = ascii "nix_queue_cmd_template" || relname = ascii "sql_queue_cmd_template"

/-- The record passes the checks of its table. -/
def CmdQueueRecord.admitted (pgClass : PgClasses) (q : CmdQueueRecord) : Bool :=
  (pgClass.lookup q.cmdClass).any (fun c => cmdClassCheck c.relname) &&
    (pgClass.lookup q.cmdSignatureClass).any fun c => cmdSignatureClassCheck c.relname

variable {pgClass : PgClasses} {q : CmdQueueRecord}

/-- No class is its own signature class. -/
theorem cmdClass_ne_of_admitted (h : q.admitted pgClass = true) :
    q.cmdClass ≠ q.cmdSignatureClass := by
  intro heq
  unfold CmdQueueRecord.admitted at h
  rw [heq, Bool.and_eq_true, Option.any_eq_true, Option.any_eq_true] at h
  obtain ⟨⟨c, hc, hcheck⟩, d, hd, hsig⟩ := h
  obtain rfl : c = d := Option.some.inj (hc.symm.trans hd)
  unfold cmdSignatureClassCheck at hsig
  rw [Bool.or_eq_true, decide_eq_true_iff, decide_eq_true_iff] at hsig
  rcases hsig with hsig | hsig <;>
  · rw [hsig] at hcheck
    revert hcheck
    decide

end PgCmdQueue.Extension
