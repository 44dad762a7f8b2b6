import PgCmdQueue.Lib.Run
import PgCmdQueue.Manager.Runners
import PgCmdQueue.Pq.Composite
import Mathlib.Data.List.Dedup

/-!
# Changes to `cmd_queue` and the manager that listens for them

The manager lists the queues once, then subscribes to the channel, then lists them again
for each notification of a change.
-/

namespace PgCmdQueue.Listen

open Cpp Postgres Pq Manager

/-! ## The other sessions -/

/-- A record of `cmdq.cmd_queue`, with what the view makes of it. -/
structure QueueRecord where
  queue : CmdQueue
  queueIsEnabled : Bool
  deriving DecidableEq

/-- What one row of a transaction does. `dropped` tells that the class itself is gone, so
that it has no identity any more. -/
inductive Change where
  | insert (new : QueueRecord)
  | update (old new : QueueRecord)
  | delete (old : QueueRecord) (dropped : Bool)

def Change.apply (records : List QueueRecord) : Change → List QueueRecord
  | .insert new => records ++ [new]
  | .update old new => records.map fun r => if r = old then new else r
  | .delete old _ => records.filter (· ≠ old)

def Change.tgOp : Change → Bytes
  | .insert _ => ascii "INSERT"
  | .update _ _ => ascii "UPDATE"
  | .delete _ _ => ascii "DELETE"

def Change.identity : Change → Option Bytes
  | .insert new => some new.queue.cmdClassIdentity
  | .update _ new => some new.queue.cmdClassIdentity
  | .delete old dropped => if dropped then none else some old.queue.cmdClassIdentity

/-- The payload of `cmd_queue__notify_daemon_of_changes`. -/
def Change.payload (c : Change) : Bytes := rowOut [some (ascii "cmd_queue"), c.identity, some c.tgOp]

/-- A committed transaction, with what else it sends on the channel. -/
structure Transaction where
  changes : List Change
  others : List Bytes := []

def Transaction.apply (t : Transaction) (records : List QueueRecord) : List QueueRecord :=
  t.changes.foldl Change.apply records

/-- The server sends a payload once in a transaction. -/
def Transaction.payloads (t : Transaction) : List Bytes := (t.changes.map Change.payload ++ t.others).dedup

/-! ## The manager -/

inductive Pc where
  | start
  | listen
  | poll
  | notifies
  | refreshing
  | consume
  | gone
  deriving DecidableEq

structure State where
  records : List QueueRecord
  manager : Manager := {}
  pc : Pc := .start
  listening : Bool := false
  inFlight : List Bytes := []
  unread : List Bytes := []

/-- `asserts` tells a build with assertions. `asked` stands for the condition on
`explicit_cmd_classes`. -/
structure Config where
  asserts : Bool
  asked : Bytes → Bool

def selectStmt (cfg : Config) (records : List QueueRecord) : List CmdQueue :=
  (records.filter fun r => r.queueIsEnabled && cfg.asked r.queue.cmdClassIdentity).map (·.queue)

/-- `payload_fields.at(i)`. -/
def fieldAt (fields : List (Option Bytes)) (i : Nat) : Except CppError (Option Bytes) :=
  match fields[i]? with
  | some f => .ok f
  | none => .error .outOfRange

/-- Whether a payload makes the manager list the queues again. -/
def isQueueChange (asserts : Bool) (extra : Bytes) : Except CppError Bool := do
  let fields ← fromTextCompositeValue asserts extra
  if (← fieldAt fields 0) = some (ascii "cmd_queue") then
    let tgOp ← fieldAt fields 2
    return tgOp = some (ascii "INSERT") || tgOp = some (ascii "UPDATE") || tgOp = some (ascii "DELETE")
  else
    return false

def State.refresh (cfg : Config) (s : State) (retrySelect : Bool) (next : Pc) : State :=
  match s.manager.refreshQueueList retrySelect [] (selectStmt cfg s.records) with
  | .ok m => { s with manager := m, pc := next }
  | .error _ => { s with pc := .gone }

/-- libpq reads the first `n` notifications that the server has sent. -/
def State.consumeInput (s : State) (n : Nat) : State :=
  { s with unread := s.unread ++ s.inFlight.take n, inFlight := s.inFlight.drop n }

inductive Event where
  | commit (t : Transaction)
  | select
  | listen
  | wake (n : Nat)
  | notify
  | consume (n : Nat)
  | thread (cls : Bytes) (running : Bool)
  | signal

def State.step (cfg : Config) (s : State) : Event → Option State
  | .commit t => some { s with
      records := t.apply s.records
      inFlight := s.inFlight ++ if s.listening then t.payloads else [] }
  | .select => match s.pc with
    | .start => some (s.refresh cfg false .listen)
    | .refreshing => some (s.refresh cfg true .consume)
    | _ => none
  | .listen => if s.pc = .listen then some { s with listening := true, pc := .poll } else none
  | .wake n => if s.pc = .poll then some { s.consumeInput n with pc := .notifies } else none
  | .notify =>
    if s.pc = .notifies then
      match s.unread with
      | [] => some { s with pc := .poll }
      | extra :: unread => match isQueueChange cfg.asserts extra with
        | .ok true => some { s with unread := unread, pc := .refreshing }
        | .ok false => some { s with unread := unread, pc := .consume }
        -- No `catch` stands between the loop and `main`.
        | .error _ => some { s with unread := unread, pc := .gone }
    else none
  | .consume n => if s.pc = .consume then some { s.consumeInput n with pc := .notifies } else none
  | .thread cls running => some { s with manager := s.manager.setRunning cls running }
  | .signal => some { s with pc := .gone }

/-- The set of classes that the manager listed last is that of the committed table. -/
def State.UpToDate (cfg : Config) (s : State) : Prop :=
  ∀ c, c ∈ s.manager.oldCmdClasses ↔ c ∈ validClasses (selectStmt cfg s.records)

/-- Blocked in `poll()` with no notification in flight or unread. -/
def State.Blocked (s : State) : Prop := s.pc = .poll ∧ s.inFlight = [] ∧ s.unread = []

/-! ## Payloads that are recognized -/

/-- The payload of the change decodes: its identity is not quoted in it. -/
def Change.plain (c : Change) : Bool := !fieldNeedsQuote c.identity

variable {cfg : Config} {s t : State} {e : Event}

theorem isQueueChange_payload (asserts : Bool) {c : Change} (h : c.plain = true) :
    isQueueChange asserts c.payload = .ok true := by
  have hdecode : fromTextCompositeValue asserts c.payload =
      .ok [some (ascii "cmd_queue"), c.identity, some c.tgOp] := by
    unfold Change.payload
    rw [fromTextCompositeValue_rowOut_iff]
    simp only [List.forall_mem_cons, List.not_mem_nil, false_implies, implies_true, and_true]
    refine ⟨by decide, by simpa [Change.plain] using h, ?_⟩
    cases c <;> rfl
  unfold isQueueChange
  rw [hdecode]
  cases c <;> rfl

/-- A step is orderly if it is no commit that the manager cannot learn of: none that changes
the set between its first SELECT and its LISTEN, and later none whose every payload goes
unrecognized. -/
def Orderly (cfg : Config) (s : State) : Event → Prop
  | .commit t =>
    (∀ c, c ∈ validClasses (selectStmt cfg (t.apply s.records)) ↔
      c ∈ validClasses (selectStmt cfg s.records)) ∨
    s.pc = .start ∨ (s.pc ≠ .listen ∧ ∃ c ∈ t.changes, c.plain = true)
  | _ => True

/-! ## No change is missed -/

/-- One case for each thing that can happen. -/
inductive State.Moves (cfg : Config) (s : State) : Event → State → Prop
  | commit {tx : Transaction} : s.Moves cfg (.commit tx) { s with
      records := tx.apply s.records
      inFlight := s.inFlight ++ if s.listening then tx.payloads else [] }
  | firstSelect (pc : s.pc = .start) : s.Moves cfg .select (s.refresh cfg false .listen)
  | select (pc : s.pc = .refreshing) : s.Moves cfg .select (s.refresh cfg true .consume)
  | listen (pc : s.pc = .listen) : s.Moves cfg .listen { s with listening := true, pc := .poll }
  | wake {n : Nat} (pc : s.pc = .poll) :
      s.Moves cfg (.wake n) { s.consumeInput n with pc := .notifies }
  | notifiesRead (pc : s.pc = .notifies) (unread : s.unread = []) :
      s.Moves cfg .notify { s with pc := .poll }
  | queueChange {extra : Bytes} {rest : List Bytes} (pc : s.pc = .notifies)
      (unread : s.unread = extra :: rest) (change : isQueueChange cfg.asserts extra = .ok true) :
      s.Moves cfg .notify { s with unread := rest, pc := .refreshing }
  | ignored {extra : Bytes} {rest : List Bytes} (pc : s.pc = .notifies)
      (unread : s.unread = extra :: rest) (change : isQueueChange cfg.asserts extra = .ok false) :
      s.Moves cfg .notify { s with unread := rest, pc := .consume }
  | notifyFailed {rest : List Bytes} (pc : s.pc = .notifies) :
      s.Moves cfg .notify { s with unread := rest, pc := .gone }
  | consume {n : Nat} (pc : s.pc = .consume) :
      s.Moves cfg (.consume n) { s.consumeInput n with pc := .notifies }
  | thread {cls : Bytes} {running : Bool} : s.Moves cfg (.thread cls running)
      { s with manager := s.manager.setRunning cls running }
  | signal : s.Moves cfg .signal { s with pc := .gone }

theorem moves_notify (h : s.step cfg .notify = some t) : s.Moves cfg .notify t := by
  unfold State.step at h
  dsimp only at h
  split at h
  · rename_i hpc
    split at h
    · cases h
      exact .notifiesRead hpc ‹_›
    · split at h <;> cases h
      · exact .queueChange hpc ‹_› ‹_›
      · exact .ignored hpc ‹_› ‹_›
      · exact .notifyFailed hpc
  · cases h

theorem moves_step (h : s.step cfg e = some t) : s.Moves cfg e t := by
  have hstep := h
  unfold State.step at h
  cases e with
  | commit =>
    cases h
    exact .commit
  | select =>
    dsimp only at h
    split at h <;> cases h
    · exact .firstSelect ‹_›
    · exact .select ‹_›
  | listen =>
    dsimp only at h
    split at h <;> cases h
    exact .listen ‹_›
  | wake =>
    dsimp only at h
    split at h <;> cases h
    exact .wake ‹_›
  | notify => exact moves_notify hstep
  | consume =>
    dsimp only at h
    split at h <;> cases h
    exact .consume ‹_›
  | thread =>
    cases h
    exact .thread
  | signal =>
    cases h
    exact .signal

/-- A notification that will make the manager list the queues again. -/
def State.Due (cfg : Config) (s : State) : Prop :=
  ∃ extra ∈ s.unread ++ s.inFlight, isQueueChange cfg.asserts extra = .ok true

/-- What holds at each point of the manager's code. -/
def Inv (cfg : Config) (s : State) : Prop :=
  s.pc = .gone ∨ (s.manager.keepRunning = true ∧ match s.pc with
    | .start => s.listening = false
    | .listen => s.listening = false ∧ s.UpToDate cfg
    | .refreshing => s.listening = true
    | _ => s.listening = true ∧ (s.UpToDate cfg ∨ s.Due cfg))

theorem refresh_spec (cfg : Config) (hkeep : s.manager.keepRunning = true) (retrySelect : Bool)
    (next : Pc) :
    (s.refresh cfg retrySelect next).pc = .gone ∨
      ((s.refresh cfg retrySelect next).pc = next ∧ (s.refresh cfg retrySelect next).UpToDate cfg ∧
        (s.refresh cfg retrySelect next).manager.keepRunning = true ∧
        (s.refresh cfg retrySelect next).listening = s.listening) := by
  unfold State.refresh
  cases h : s.manager.refreshQueueList retrySelect [] (selectStmt cfg s.records) with
  | error e => exact .inl rfl
  | ok m =>
    have hread : s.manager.readQueueList (selectStmt cfg s.records) = .ok m := by
      simpa [refreshQueueList, selectQueues, hkeep] using h
    obtain ⟨hold, hkeep'⟩ := readQueueList_rest hread
    exact .inr ⟨rfl, hold, hkeep'.trans hkeep, rfl⟩

theorem due_consumeInput (n : Nat) : (s.consumeInput n).Due cfg ↔ s.Due cfg := by
  unfold State.Due State.consumeInput
  rw [List.append_assoc, List.take_append_drop]

theorem upToDate_commit {tx : Transaction} (h : ∀ c,
    c ∈ validClasses (selectStmt cfg (tx.apply s.records)) ↔ c ∈ validClasses (selectStmt cfg s.records))
    (hs : s.UpToDate cfg) (ht : s.step cfg (.commit tx) = some t) : t.UpToDate cfg := by
  cases ht
  exact fun c => (hs c).trans (h c).symm

/-- A transaction with a change that is recognized leaves a notification to come. -/
theorem due_commit {tx : Transaction} {c : Change} (hc : c ∈ tx.changes) (hplain : c.plain = true)
    (hlistening : s.listening = true) (ht : s.step cfg (.commit tx) = some t) : t.Due cfg := by
  cases ht
  refine ⟨c.payload, ?_, isQueueChange_payload _ hplain⟩
  simp only [hlistening, if_true, Transaction.payloads, List.mem_append, List.mem_dedup]
  exact .inr (.inr (.inl (List.mem_map_of_mem hc)))

theorem due_mono {tx : Transaction} (hs : s.Due cfg) (ht : s.step cfg (.commit tx) = some t) :
    t.Due cfg := by
  cases ht
  obtain ⟨extra, hmem, hextra⟩ := hs
  refine ⟨extra, ?_, hextra⟩
  simp only [← List.append_assoc]
  exact List.mem_append_left _ hmem

theorem inv_commit {tx : Transaction} (hs : Inv cfg s) (ho : Orderly cfg s (.commit tx))
    (ht : s.step cfg (.commit tx) = some t) : Inv cfg t := by
  have hpc : t.pc = s.pc ∧ t.listening = s.listening ∧ t.manager = s.manager := by
    cases ht
    exact ⟨rfl, rfl, rfl⟩
  obtain ⟨hpc, hlistening, hmanager⟩ := hpc
  unfold Inv at hs ⊢
  rw [hpc, hlistening, hmanager]
  rcases hs with hgone | ⟨hkeep, hs⟩
  · exact .inl hgone
  refine .inr ⟨hkeep, ?_⟩
  have hpoll : s.pc ≠ .start → s.pc ≠ .listen → s.listening = true →
      s.UpToDate cfg ∨ s.Due cfg → t.UpToDate cfg ∨ t.Due cfg := by
    intro hstart hlisten hl hs
    rcases ho with hsame | hstart' | ⟨-, c, hc, hplain⟩
    · exact hs.imp (upToDate_commit hsame · ht) (due_mono · ht)
    · exact absurd hstart' hstart
    · exact .inr (due_commit hc hplain hl ht)
  cases hp : s.pc <;> rw [hp] at hs hpoll <;> dsimp only at hs ⊢
  case start => exact hs
  case listen =>
    refine ⟨hs.1, ?_⟩
    rcases ho with hsame | hstart | ⟨hlisten, -⟩
    · exact upToDate_commit hsame hs.2 ht
    · rw [hp] at hstart
      cases hstart
    · exact absurd hp hlisten
  case refreshing => exact hs
  all_goals exact ⟨hs.1, hpoll (by simp) (by simp) hs.1 hs.2⟩

/-- What the invariant says of a place where the manager is. -/
theorem Inv.at {p : Pc} (hs : Inv cfg s) : s.pc = p → p ≠ .gone →
    s.manager.keepRunning = true ∧ match p with
      | .start => s.listening = false
      | .listen => s.listening = false ∧ s.UpToDate cfg
      | .refreshing => s.listening = true
      | _ => s.listening = true ∧ (s.UpToDate cfg ∨ s.Due cfg) := by
  rintro rfl hp
  exact hs.resolve_left hp

theorem inv_firstSelect (hs : Inv cfg s) (hpc : s.pc = .start) : Inv cfg (s.refresh cfg false .listen) := by
  obtain ⟨hkeep, hs⟩ := hs.at hpc nofun
  rcases refresh_spec cfg hkeep false .listen with hgone | ⟨hpc', hup, hkeep', hl⟩
  · exact .inl hgone
  · refine .inr ⟨hkeep', ?_⟩
    rw [hpc']
    exact ⟨hl.trans hs, hup⟩

theorem inv_select (hs : Inv cfg s) (hpc : s.pc = .refreshing) :
    Inv cfg (s.refresh cfg true .consume) := by
  obtain ⟨hkeep, hs⟩ := hs.at hpc nofun
  rcases refresh_spec cfg hkeep true .consume with hgone | ⟨hpc', hup, hkeep', hl⟩
  · exact .inl hgone
  · refine .inr ⟨hkeep', ?_⟩
    rw [hpc']
    exact ⟨hl.trans hs, .inl hup⟩

/-- Only a notification that is recognized is taken off the list for good. -/
theorem inv_ignored {extra : Bytes} {rest : List Bytes} (hs : Inv cfg s) (hpc : s.pc = .notifies)
    (hunread : s.unread = extra :: rest) (hchange : isQueueChange cfg.asserts extra = .ok false) :
    Inv cfg { s with unread := rest, pc := .consume } := by
  obtain ⟨hkeep, hl, hdue⟩ := hs.at hpc nofun
  refine .inr ⟨hkeep, hl, hdue.imp id ?_⟩
  rintro ⟨extra', hmem, hextra'⟩
  rw [hunread, List.cons_append, List.mem_cons] at hmem
  rcases hmem with rfl | hmem
  · rw [hchange] at hextra'
    cases hextra'
  · exact ⟨extra', hmem, hextra'⟩

theorem inv_thread {cls : Bytes} {running : Bool} (hs : Inv cfg s) :
    Inv cfg { s with manager := s.manager.setRunning cls running } := by
  obtain ⟨-, hold, hkeep'⟩ := setRunning_spec s.manager cls running
  rcases hs with hgone | ⟨hkeep, hs⟩
  · exact .inl hgone
  refine .inr ⟨hkeep'.trans hkeep, ?_⟩
  have hup : ∀ h : s.UpToDate cfg, ∀ c, c ∈ (s.manager.setRunning cls running).oldCmdClasses ↔
      c ∈ validClasses (selectStmt cfg s.records) := fun h c => by rw [hold]; exact h c
  cases hp : s.pc <;> rw [hp] at hs <;> dsimp only at hs ⊢
  case start => exact hs
  case listen => exact ⟨hs.1, hup hs.2⟩
  case refreshing => exact hs
  all_goals exact ⟨hs.1, hs.2.imp hup id⟩

theorem inv_step (hs : Inv cfg s) (ho : Orderly cfg s e) (ht : s.step cfg e = some t) :
    Inv cfg t := by
  cases moves_step ht with
  | commit => exact inv_commit hs ho ht
  | firstSelect hpc => exact inv_firstSelect hs hpc
  | select hpc => exact inv_select hs hpc
  | listen hpc =>
    obtain ⟨hkeep, hs⟩ := hs.at hpc nofun
    exact .inr ⟨hkeep, rfl, .inl hs.2⟩
  | wake hpc | consume hpc =>
    obtain ⟨hkeep, hs⟩ := hs.at hpc nofun
    exact .inr ⟨hkeep, hs.1, hs.2.imp id (due_consumeInput _).mpr⟩
  | notifiesRead hpc =>
    obtain ⟨hkeep, hs⟩ := hs.at hpc nofun
    exact .inr ⟨hkeep, hs⟩
  | queueChange hpc =>
    obtain ⟨hkeep, hs⟩ := hs.at hpc nofun
    exact .inr ⟨hkeep, hs.1⟩
  | ignored hpc hunread hchange => exact inv_ignored hs hpc hunread hchange
  | notifyFailed => exact .inl rfl
  | thread => exact inv_thread hs
  | signal => exact .inl rfl

/-! ## Whole runs -/

def Step (cfg : Config) (s : State) (e : Event) (t : State) : Prop := s.step cfg e = some t

def OrderlyStep (cfg : Config) (s : State) (e : Event) (t : State) : Prop :=
  Orderly cfg s e ∧ Step cfg s e t

theorem inv_run {records : List QueueRecord} {tr : List Event}
    (h : Transition.Run (OrderlyStep cfg) { records := records } tr s) : Inv cfg s :=
  h.invariant_state (.inr ⟨rfl, rfl⟩) fun _ _ _ hs hstep => inv_step hs hstep.1 hstep.2

theorem upToDate_of_blocked {records : List QueueRecord} {tr : List Event}
    (h : Transition.Run (OrderlyStep cfg) { records := records } tr s) (hb : s.Blocked) :
    s.UpToDate cfg := by
  obtain ⟨hpc, hflight, hunread⟩ := hb
  rcases inv_run h with hgone | ⟨-, hs⟩
  · rw [hpc] at hgone
    cases hgone
  · rw [hpc] at hs
    rcases hs.2 with hup | ⟨extra, hmem, -⟩
    · exact hup
    · rw [hflight, hunread] at hmem
      cases hmem

/-- A queue that is registered while the manager is blocked. -/
def registered : List Event := [.select, .listen, .commit ⟨[.insert ⟨nightly, true⟩], []⟩, .wake 1,
  .notify, .select, .consume 0, .notify]

def orderlyNext (s : State) (e : Event) : Option State :=
  match e with
  | .commit t => if s.pc ≠ .listen ∧ t.changes.any Change.plain then s.step ⟨true, fun _ => true⟩ e else none
  | _ => s.step ⟨true, fun _ => true⟩ e

theorem orderlyStep_of_next (h : orderlyNext s e = some t) : OrderlyStep ⟨true, fun _ => true⟩ s e t := by
  unfold orderlyNext at h
  cases e with
  | commit tx =>
    dsimp only at h
    split at h
    · rename_i hc
      exact ⟨.inr (.inr ⟨hc.1, List.any_eq_true.mp hc.2⟩), h⟩
    · cases h
  | _ => exact ⟨trivial, h⟩

theorem upToDate_of_blocked_registered : ∃ s, Transition.Run (OrderlyStep ⟨true, fun _ => true⟩)
    { records := [] } registered s ∧ s.Blocked ∧ s.UpToDate ⟨true, fun _ => true⟩ ∧
      s.manager.oldCmdClasses = [nightly.cmdClassIdentity] := by
  have hlast : (registered.foldlM orderlyNext { records := [] }).any (fun s => s.pc = .poll ∧
      s.inFlight = [] ∧ s.unread = [] ∧ s.manager.oldCmdClasses = [nightly.cmdClassIdentity]) = true := by
    decide +kernel
  obtain ⟨s, hs, hs'⟩ := (Option.any_eq_true _ _).mp hlast
  have hrun := (Transition.Run.of_foldlM hs).mono fun _ _ _ => orderlyStep_of_next
  obtain ⟨hpc, hflight, hunread, hold⟩ := of_decide_eq_true hs'
  exact ⟨s, hrun, ⟨hpc, hflight, hunread⟩, upToDate_of_blocked hrun ⟨hpc, hflight, hunread⟩, hold⟩

/-- A queue that is registered between the first SELECT and LISTEN is not noticed. -/
theorem not_upToDate_gap : ∃ s, Transition.Run (Step ⟨true, fun _ => true⟩) { records := [] }
    [.select, .commit ⟨[.insert ⟨nightly, true⟩], []⟩, .listen] s ∧ s.Blocked ∧
      ¬s.UpToDate ⟨true, fun _ => true⟩ := by
  have hlast : ([.select, .commit ⟨[.insert ⟨nightly, true⟩], []⟩, .listen].foldlM
      (State.step ⟨true, fun _ => true⟩) { records := [] }).any (fun s => s.pc = .poll ∧
      s.inFlight = [] ∧ s.unread = [] ∧ s.manager.oldCmdClasses = [] ∧
      nightly.cmdClassIdentity ∈ validClasses (selectStmt ⟨true, fun _ => true⟩ s.records)) = true := by
    decide +kernel
  obtain ⟨s, hs, hs'⟩ := (Option.any_eq_true _ _).mp hlast
  obtain ⟨hpc, hflight, hunread, hold, hmem⟩ := of_decide_eq_true hs'
  refine ⟨s, Transition.Run.of_foldlM hs, ⟨hpc, hflight, hunread⟩, fun hup => ?_⟩
  have := (hup nightly.cmdClassIdentity).mpr hmem
  rw [hold] at this
  cases this

end PgCmdQueue.Listen
