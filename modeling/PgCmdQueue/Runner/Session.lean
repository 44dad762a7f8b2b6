import PgCmdQueue.Lib.Run
import PgCmdQueue.Notify
import Mathlib.Data.Finset.Insert
import Mathlib.Data.List.AList
import Mathlib.Data.PNat.Notation

/-!
# A runner and the table of its queue

The runner selects commands one at a time, each in a transaction of its own, and waits for
notifications when the table has no more. Other sessions commit rows between any two steps.
-/

namespace PgCmdQueue.Runner

open Cpp Postgres

/-! ## The database -/

/-- `(cmd_id, cmd_subid)`, in a unique index that takes NULLs as equal. -/
abbrev Key := Bytes × Option Bytes

/-- `selected` is no column: it tells that a SELECT of the runner has returned the row. -/
structure Row where
  cmdQueuedSince : Int
  selected : Bool := false
  deriving DecidableEq

abbrev QueueTable := AList fun _ : Key => Row

def QueueTable.markSelected (rows : QueueTable) (key : Key) : QueueTable :=
  match rows.lookup key with
  | some row => rows.insert key { row with selected := true }
  | none => rows

/-- What the open transaction will leave when it commits. -/
structure Tx where
  updatedCmd : Finset Key
  roundSetting : Nat
  locked : Option Key := none
  removed : Option Key := none
  deriving DecidableEq

/-! ## The runner -/

/-- The queue and its class, `_cmd_queue` of the runner. -/
structure Config where
  asserts : Bool
  reserved : Bytes → Bool
  nspname : Bytes
  relname : Bytes
  queueReselectIntervalMsec : Int
  queueReselectRandomizedEveryNth : Option ℕ+

def Config.cmdClassIdentity (cfg : Config) : Bytes :=
  classIdentity cfg.reserved cfg.nspname cfg.relname

inductive Pc where
  | connect
  | begin
  | running (key : Key)
  | rolledBack (key : Key)
  | enterReselectRound
  | commit (tx : Tx)
  | notifies
  | poll (timeoutMsec : Int)
  | gone
  deriving DecidableEq

/-- The session has executed LISTEN. -/
def Pc.listening : Pc → Bool
  | .connect => false
  | .gone => false
  | _ => true

/-- The row that the runner has locked with FOR UPDATE. -/
def Pc.locked : Pc → Option Key
  | .running key => some key
  | .commit tx => tx.locked
  | _ => none

/-- The times are in nanoseconds. `updatedCmd` and `roundSetting` are the committed temporary
table and setting of the session. -/
structure State where
  rows : QueueTable
  updatedCmd : Finset Key := ∅
  roundSetting : Nat := 0
  reselectRound : Nat := 0
  reselectNextWhen : Int := 0
  notifyCmd : Option NotifyCmd := none
  now : Int := 0
  inFlight : List Bytes := []
  unread : List Bytes := []
  pc : Pc := .connect

def notifyKey (n : NotifyCmd) : Key := (n.cmdId, n.cmdSubid)

/-- The trigger on the inserted row, for a key. -/
def Config.payload (cfg : Config) (key : Key) : Option Bytes :=
  queueCmdNotify cfg.reserved cfg.nspname cfg.relname key.1 key.2

/-- Whether the prepared statement that is next can return this. No other session has a lock,
so that SKIP LOCKED skips nothing. -/
def State.selectReturns (cfg : Config) (s : State) : Option Key → Bool
  | some key =>
    match s.rows.lookup key with
    | none => false
    | some row =>
      match s.notifyCmd with
      | some n => notifyKey n = key
      | none =>
        let random := match cfg.queueReselectRandomizedEveryNth with
          | some nth => s.reselectRound % (nth : Nat) = 0
          | none => false
        key ∉ s.updatedCmd &&
          (random || s.rows.entries.all fun e =>
            e.1 ∈ s.updatedCmd || row.cmdQueuedSince ≤ e.2.cmdQueuedSince)
  | none =>
    match s.notifyCmd with
    | some n => notifyKey n ∉ s.rows
    | none => s.rows.keys.all (· ∈ s.updatedCmd)

/-- The new setting and the round that is returned, a `bigint`. -/
def enterReselectRound (setting : Nat) : Nat × Nat :=
  let round := if setting = 9223372036854775807 then 0 else setting
  (round + 1, round)

def stoi (n : Nat) : Option Nat := if n ≤ 2147483647 then some n else none

/-- `duration_cast` to milliseconds rounds towards zero. -/
def State.reselectWaitTimeLeft (s : State) : Int :=
  max 0 ((s.reselectNextWhen - s.now).tdiv 1000000)

def State.tx (s : State) : Tx := { updatedCmd := s.updatedCmd, roundSetting := s.roundSetting }

/-- libpq reads the first `n` notifications that the server has sent. -/
def State.consumeInput (s : State) (n : Nat) : State :=
  { s with unread := s.unread ++ s.inFlight.take n, inFlight := s.inFlight.drop n }

/-- The server sends a notification to a session that listens. -/
def State.send (s : State) (extra : Bytes) : State :=
  { s with inFlight := s.inFlight ++ if s.pc.listening then [extra] else [] }

/-! ## Steps -/

inductive Event where
  | insert (key : Key) (cmdQueuedSince : Int)
  | remove (key : Key)
  | notifyOther (extra : Bytes)
  | tick (ns : Nat)
  | receive (n : Nat)
  | runnerSessionStart (ok : Bool)
  | select (found : Option Key)
  | selectFails
  | update (returned kept : Bool)
  | updateFails
  | rememberFailedUpdate (ok : Bool)
  | enterReselectRound (ok : Bool)
  | commit (ok : Bool)
  | connectionLost
  | notifies
  | pollTimeout
  | wake (n : Nat)
  | stop

/-- The steps of other sessions, the clock and the network. -/
def State.otherStep (cfg : Config) (s : State) : Event → Option State
  | .insert key since =>
    if key ∈ s.rows then none
    else match cfg.payload key with
      | some payload => some { s.send payload with
          rows := s.rows.insert key { cmdQueuedSince := since } }
      | none => none
  | .remove key =>
    if s.pc.locked = some key then none else some { s with rows := s.rows.erase key }
  | .notifyOther extra => some (s.send extra)
  | .tick ns => some { s with now := s.now + ns }
  | .receive n => match s.pc with
    | .poll _ => none
    | _ => some (s.consumeInput n)
  | .connectionLost =>
    if s.pc = .gone then none else some { s with inFlight := [], unread := [], pc := .connect }
  | .stop => some { s with pc := .gone }
  | _ => none

/-- The runner, after `notify_cmd` or a free choice of command was selected or none was. -/
def State.selected (cfg : Config) (s : State) : Option Key → State
  | some key => { s with rows := s.rows.markSelected key, pc := .running key }
  | none =>
    if s.notifyCmd.isSome then { s with pc := .commit s.tx }
    else { s with
      reselectNextWhen := s.now + 1000000 * cfg.queueReselectIntervalMsec
      pc := .enterReselectRound }

def State.committed (s : State) (tx : Tx) : State :=
  { s with
    rows := match tx.removed with
      | some key => s.rows.erase key
      | none => s.rows
    updatedCmd := tx.updatedCmd
    roundSetting := tx.roundSetting
    pc := .notifies }

def State.runnerStep (cfg : Config) (s : State) (e : Event) : Option State :=
  match s.pc, e with
  | .connect, .runnerSessionStart ok =>
    if ok then some { s with
      updatedCmd := ∅
      roundSetting := 0
      reselectRound := 0
      reselectNextWhen := s.now
      notifyCmd := none
      inFlight := []
      unread := []
      pc := .begin }
    else some { s with pc := .gone }
  | .begin, .select found =>
    if s.selectReturns cfg found then some (s.selected cfg found) else none
  | .begin, .selectFails => some { s with pc := .notifies }
  -- A trigger may keep the row out of RETURNING, and may delete it.
  | .running key, .update returned kept => some { s with pc := .commit {
      updatedCmd := if returned then insert key s.updatedCmd else s.updatedCmd
      roundSetting := s.roundSetting
      locked := some key
      removed := if kept then none else some key } }
  | .running key, .updateFails => some { s with pc := .rolledBack key }
  -- The INSERT has no ON CONFLICT.
  | .rolledBack key, .rememberFailedUpdate ok =>
    if ok then
      if key ∈ s.updatedCmd then none
      else some { s with updatedCmd := insert key s.updatedCmd, pc := .notifies }
    else some { s with pc := .notifies }
  | .enterReselectRound, .enterReselectRound ok =>
    let (setting, round) := enterReselectRound s.roundSetting
    match if ok then stoi round else none with
    | some round => some { s with
        reselectRound := round
        pc := .commit { updatedCmd := ∅, roundSetting := setting } }
    | none => some { s with pc := .gone }
  | .commit tx, .commit ok => some (if ok then s.committed tx else { s with pc := .notifies })
  | .notifies, .notifies => match s.unread with
    | [] => some { s with notifyCmd := none, pc := .poll s.reselectWaitTimeLeft }
    | extra :: unread => match answerNotify cfg.asserts cfg.cmdClassIdentity extra with
      | .ok (some n) => some { s with unread := unread, notifyCmd := some n, pc := .begin }
      | .ok none => some { s with unread := unread, notifyCmd := none }
      | .error _ => some { s with unread := unread, pc := .gone }
  | .poll _, .pollTimeout => some { s with pc := .begin }
  | .poll _, .wake n => some { s.consumeInput n with pc := .notifies }
  | _, _ => none

def State.step (cfg : Config) (s : State) (e : Event) : Option State :=
  (s.otherStep cfg e).or (s.runnerStep cfg e)

def Step (cfg : Config) (s : State) (e : Event) (t : State) : Prop := s.step cfg e = some t

/-! ## What a step can be -/

variable {cfg : Config} {s t : State} {e : Event}

/-- One case for each thing that the other sessions, the clock and the network do. -/
inductive State.OtherMoves (cfg : Config) (s : State) : Event → State → Prop
  | insert {key : Key} {since : Int} {payload : Bytes} (fresh : key ∉ s.rows)
      (sent : cfg.payload key = some payload) : s.OtherMoves cfg (.insert key since)
        { s.send payload with rows := s.rows.insert key { cmdQueuedSince := since } }
  | remove {key : Key} (unlocked : s.pc.locked ≠ some key) :
      s.OtherMoves cfg (.remove key) { s with rows := s.rows.erase key }
  | notifyOther {extra : Bytes} : s.OtherMoves cfg (.notifyOther extra) (s.send extra)
  | tick {ns : Nat} : s.OtherMoves cfg (.tick ns) { s with now := s.now + ns }
  | receive {n : Nat} : s.OtherMoves cfg (.receive n) (s.consumeInput n)
  | connectionLost :
      s.OtherMoves cfg .connectionLost { s with inFlight := [], unread := [], pc := .connect }
  | stop : s.OtherMoves cfg .stop { s with pc := .gone }

theorem otherMoves (h : s.otherStep cfg e = some t) : s.OtherMoves cfg e t := by
  unfold State.otherStep at h
  cases e with
  | insert key since =>
    dsimp only at h
    split at h
    · cases h
    split at h <;> cases h
    exact .insert ‹_› ‹_›
  | remove key =>
    dsimp only at h
    split at h <;> cases h
    exact .remove ‹_›
  | receive n =>
    dsimp only at h
    split at h <;> cases h
    exact .receive
  | connectionLost =>
    dsimp only at h
    split at h <;> cases h
    exact .connectionLost
  | notifyOther => cases h; exact .notifyOther
  | tick => cases h; exact .tick
  | stop => cases h; exact .stop
  | _ => cases h

/-- One case for each thing that the runner does, by what it is told. -/
inductive State.RunnerMoves (cfg : Config) (s : State) : Event → State → Prop
  | sessionStarted (pc : s.pc = .connect) : s.RunnerMoves cfg (.runnerSessionStart true) { s with
      updatedCmd := ∅
      roundSetting := 0
      reselectRound := 0
      reselectNextWhen := s.now
      notifyCmd := none
      inFlight := []
      unread := []
      pc := .begin }
  | sessionFailed (pc : s.pc = .connect) :
      s.RunnerMoves cfg (.runnerSessionStart false) { s with pc := .gone }
  | select {found : Option Key} (pc : s.pc = .begin) (returns : s.selectReturns cfg found = true) :
      s.RunnerMoves cfg (.select found) (s.selected cfg found)
  | selectFails (pc : s.pc = .begin) : s.RunnerMoves cfg .selectFails { s with pc := .notifies }
  | update {key : Key} {returned kept : Bool} (pc : s.pc = .running key) :
      s.RunnerMoves cfg (.update returned kept) { s with pc := .commit {
        updatedCmd := if returned then insert key s.updatedCmd else s.updatedCmd
        roundSetting := s.roundSetting
        locked := some key
        removed := if kept then none else some key } }
  | updateFails {key : Key} (pc : s.pc = .running key) :
      s.RunnerMoves cfg .updateFails { s with pc := .rolledBack key }
  | remembered {key : Key} (pc : s.pc = .rolledBack key) (fresh : key ∉ s.updatedCmd) :
      s.RunnerMoves cfg (.rememberFailedUpdate true)
        { s with updatedCmd := insert key s.updatedCmd, pc := .notifies }
  | notRemembered {key : Key} (pc : s.pc = .rolledBack key) :
      s.RunnerMoves cfg (.rememberFailedUpdate false) { s with pc := .notifies }
  | roundEntered {round : Nat} (pc : s.pc = .enterReselectRound)
      (returned : stoi (enterReselectRound s.roundSetting).2 = some round) :
      s.RunnerMoves cfg (.enterReselectRound true) { s with
        reselectRound := round
        pc := .commit { updatedCmd := ∅, roundSetting := (enterReselectRound s.roundSetting).1 } }
  | roundFailed {ok : Bool} (pc : s.pc = .enterReselectRound) :
      s.RunnerMoves cfg (.enterReselectRound ok) { s with pc := .gone }
  | committed {tx : Tx} (pc : s.pc = .commit tx) :
      s.RunnerMoves cfg (.commit true) (s.committed tx)
  | commitFailed {tx : Tx} (pc : s.pc = .commit tx) :
      s.RunnerMoves cfg (.commit false) { s with pc := .notifies }
  | notifiesRead (pc : s.pc = .notifies) (unread : s.unread = []) :
      s.RunnerMoves cfg .notifies { s with notifyCmd := none, pc := .poll s.reselectWaitTimeLeft }
  | notified {extra : Bytes} {rest : List Bytes} {n : NotifyCmd} (pc : s.pc = .notifies)
      (unread : s.unread = extra :: rest)
      (answer : answerNotify cfg.asserts cfg.cmdClassIdentity extra = .ok (some n)) :
      s.RunnerMoves cfg .notifies { s with unread := rest, notifyCmd := some n, pc := .begin }
  | ignored {extra : Bytes} {rest : List Bytes} (pc : s.pc = .notifies)
      (unread : s.unread = extra :: rest)
      (answer : answerNotify cfg.asserts cfg.cmdClassIdentity extra = .ok none) :
      s.RunnerMoves cfg .notifies { s with unread := rest, notifyCmd := none }
  | notifyFailed {extra : Bytes} {rest : List Bytes} (pc : s.pc = .notifies)
      (unread : s.unread = extra :: rest) :
      s.RunnerMoves cfg .notifies { s with unread := rest, pc := .gone }
  | pollTimeout {timeoutMsec : Int} (pc : s.pc = .poll timeoutMsec) :
      s.RunnerMoves cfg .pollTimeout { s with pc := .begin }
  | wake {timeoutMsec : Int} {n : Nat} (pc : s.pc = .poll timeoutMsec) :
      s.RunnerMoves cfg (.wake n) { s.consumeInput n with pc := .notifies }

theorem runnerMoves_enterReselectRound {ok : Bool} (hpc : s.pc = .enterReselectRound)
    (h : s.runnerStep cfg (.enterReselectRound ok) = some t) :
    s.RunnerMoves cfg (.enterReselectRound ok) t := by
  unfold State.runnerStep at h
  rw [hpc] at h
  dsimp only at h
  cases ok with
  | false =>
    cases h
    exact .roundFailed hpc
  | true =>
    rw [if_pos rfl] at h
    split at h <;> cases h
    · exact .roundEntered hpc ‹_›
    · exact .roundFailed hpc

theorem runnerMoves (h : s.runnerStep cfg e = some t) : s.RunnerMoves cfg e t := by
  have hstep := h
  unfold State.runnerStep at h
  split at h
  case h_1 ok hpc =>
    cases ok <;> cases h
    · exact .sessionFailed hpc
    · exact .sessionStarted hpc
  case h_2 hpc =>
    split at h <;> cases h
    exact .select hpc ‹_›
  case h_3 hpc =>
    cases h
    exact .selectFails hpc
  case h_4 hpc =>
    cases h
    exact .update hpc
  case h_5 hpc =>
    cases h
    exact .updateFails hpc
  case h_6 ok hpc =>
    cases ok with
    | false =>
      cases h
      exact .notRemembered hpc
    | true =>
      rw [if_pos rfl] at h
      split at h <;> cases h
      exact .remembered hpc ‹_›
  case h_7 hpc => exact runnerMoves_enterReselectRound hpc hstep
  case h_8 ok hpc =>
    cases ok <;> cases h
    · exact .commitFailed hpc
    · exact .committed hpc
  case h_9 hpc =>
    split at h
    · cases h
      exact .notifiesRead hpc ‹_›
    · split at h <;> cases h
      · exact .notified hpc ‹_› ‹_›
      · exact .ignored hpc ‹_› ‹_›
      · exact .notifyFailed hpc ‹_›
  case h_10 hpc =>
    cases h
    exact .pollTimeout hpc
  case h_11 hpc =>
    cases h
    exact .wake hpc
  case h_12 => cases h

/-! ## What is asked of the database -/

/-- The payload for the key decodes to its fields. -/
def Config.Decodes (cfg : Config) (key : Key) : Prop :=
  ∀ payload, cfg.payload key = some payload →
    Pq.fromTextCompositeValue cfg.asserts payload = .ok [some cfg.cmdClassIdentity, some key.1, key.2]

/-- Statements may still fail after a command was selected, and connections may be lost. -/
def Assumed (cfg : Config) : Event → Prop
  | .insert key _ => cfg.Decodes key
  | .selectFails => False
  | _ => True

def AssumedStep (cfg : Config) (s : State) (e : Event) (t : State) : Prop :=
  Assumed cfg e ∧ Step cfg s e t

/-- In `poll()` with a positive timeout and nothing to read, now or later. -/
def State.Asleep (s : State) : Prop :=
  (∃ timeoutMsec, s.pc = .poll timeoutMsec ∧ 0 < timeoutMsec) ∧ s.inFlight = [] ∧ s.unread = []

def State.AllSelected (s : State) : Prop :=
  ∀ key row, s.rows.lookup key = some row → row.selected = true

end PgCmdQueue.Runner
