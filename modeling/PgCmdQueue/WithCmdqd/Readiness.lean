import PgCmdQueue.Manager.Listen
import PgCmdQueue.WithCmdqd.CleanExit

/-!
# The command and the daemon's LISTEN

The daemon sends SIGUSR1 after its LISTEN, and `with_cmdqd` starts the command after SIGUSR1.
So the command's changes to `cmd_queue` do not fall between the first list and the LISTEN.
-/

namespace PgCmdQueue.WithCmdqd.Readiness

open Cpp

/-- `emitted` is `_emitted_sigusr1_yet` of the manager. -/
structure System where
  wrapper : State := {}
  manager : Listen.State
  emitted : Bool := false

/-- The transactions are those of the command. -/
inductive Event where
  | wrapper (e : WithCmdqd.Event)
  | select
  | listen
  | emit
  | wake (n : Nat)
  | notify
  | consume (n : Nat)
  | thread (cls : Bytes) (running : Bool)
  | commit (tx : Listen.Transaction)

def System.wrap (asserts : Bool) (s : System) (e : WithCmdqd.Event) : Option System :=
  (s.wrapper.step asserts e).map fun w => { s with wrapper := w }

/-- The daemon takes a step. -/
def System.manage (cfg : Listen.Config) (s : System) (e : Listen.Event) : Option System :=
  if s.wrapper.cmdqd = some .running then
    (s.manager.step cfg e).map fun m => { s with manager := m }
  else none

/-- SIGUSR1 comes from the daemon only. -/
def System.wrapperStep (cfg : Listen.Config) (s : System) : WithCmdqd.Event → Option System
  | .signal .usr1 => if s.emitted then s.wrap cfg.asserts (.signal .usr1) else none
  | .cmdqdEnds d => (s.manage cfg .signal).bind fun s => s.wrap cfg.asserts (.cmdqdEnds d)
  | e => s.wrap cfg.asserts e

def System.step (cfg : Listen.Config) (s : System) : Event → Option System
  | .wrapper e => s.wrapperStep cfg e
  | .select => s.manage cfg .select
  | .listen => s.manage cfg .listen
  | .emit =>
    if s.wrapper.cmdqd = some .running ∧ s.manager.listening ∧ !s.emitted then
      some { s with emitted := true }
    else none
  | .wake n => s.manage cfg (.wake n)
  | .notify => s.manage cfg .notify
  | .consume n => s.manage cfg (.consume n)
  | .thread cls running => s.manage cfg (.thread cls running)
  | .commit tx =>
    if s.wrapper.psql = none then none
    else (s.manager.step cfg (.commit tx)).map fun m => { s with manager := m }

/-- A transaction that changes the set of queues has a change that the daemon recognizes. -/
def Recognized (cfg : Listen.Config) (s : System) : Event → Prop
  | .commit tx =>
    (∀ c, c ∈ Manager.validClasses (Listen.selectStmt cfg (tx.apply s.manager.records)) ↔
      c ∈ Manager.validClasses (Listen.selectStmt cfg s.manager.records)) ∨
    ∃ c ∈ tx.changes, c.plain = true
  | _ => True

def Step (cfg : Listen.Config) (s : System) (e : Event) (t : System) : Prop :=
  Recognized cfg s e ∧ s.step cfg e = some t

variable {cfg : Listen.Config} {asserts : Bool} {s t : System} {e : Event} {tr : List Event}

/-! ## The wrapper -/

/-- The command is started only after SIGUSR1. -/
structure Told (w : State) : Prop where
  psql : w.psql ≠ none → w.cmdqdIsReady = true
  pc : w.pc = .forkPsql → w.cmdqdIsReady = true

theorem told_handleSignal {w : State} {sig : Sig} (hw : Told w) : Told (w.handleSignal sig) := by
  unfold State.handleSignal
  split
  · exact ⟨hw.psql, by simp⟩
  · split
    · exact ⟨fun _ => rfl, fun _ => rfl⟩
    · exact hw

theorem told_go {w w' : State} (hw : Told w) (h : w.go asserts = some w') : Told w' := by
  have hrest : w'.psql = w.psql ∧ w'.cmdqdIsReady = w.cmdqdIsReady ∧
      (w'.pc = .forkPsql → w.cmdqdIsReady = true) := by
    unfold State.go at h
    cases hpc : w.pc <;> rw [hpc] at h <;> cases h
    case slept => by_cases hready : w.cmdqdIsReady = true <;> simp [hready]
    case clean => split <;> simp [State.kill]
    case cleanStatus =>
      unfold State.checkCmdqd
      refine ⟨rfl, rfl, ?_⟩
      dsimp only
      split_ifs <;> simp
    all_goals simp
  obtain ⟨hpsql, hready, hpc⟩ := hrest
  exact ⟨by rw [hpsql, hready]; exact hw.psql, by rw [hready]; exact hpc⟩

theorem told_fork {w w' : State} {succeeds : Bool} (hw : Told w) (h : w.fork succeeds = some w') :
    Told w' := by
  unfold State.fork at h
  split at h <;> rename_i hpc <;> cases h
  · split <;> exact ⟨hw.psql, by simp⟩
  · split <;> exact ⟨fun _ => hw.pc hpc, by simp⟩

theorem told_wait {w w' : State} {garbage : Nat} (hw : Told w) (h : w.wait garbage = some w') :
    Told w' := by
  unfold State.wait at h
  split at h
  · obtain ⟨r, hr, rfl⟩ := Option.map_eq_some_iff.mp h
    refine ⟨fun hpsql => hw.psql ?_, by simp⟩
    intro hnone
    rw [hnone] at hr
    cases hr
    exact hpsql rfl
  · obtain ⟨r, -, rfl⟩ := Option.map_eq_some_iff.mp h
    exact ⟨hw.psql, by simp⟩
  · cases h

theorem told_step {w w' : State} {e : WithCmdqd.Event} (hw : Told w) (h : w.step asserts e = some w') :
    Told w' := by
  unfold State.step at h
  cases e with
  | go => exact told_go hw h
  | fork => exact told_fork hw h
  | waitpid => exact told_wait hw h
  | signal sig =>
    dsimp only at h
    split at h <;> cases h
    exact told_handleSignal hw
  | cmdqdEnds d =>
    cases h
    exact ⟨hw.psql, hw.pc⟩
  | psqlEnds d =>
    cases h
    exact ⟨fun hpsql => hw.psql fun hnone => hpsql (ends_eq_none.mpr hnone), hw.pc⟩

/-- Only SIGUSR1 makes the daemon ready. -/
theorem ready_step {w w' : State} {e : WithCmdqd.Event} (h : w.step asserts e = some w')
    (he : e ≠ .signal .usr1) : w'.cmdqdIsReady = w.cmdqdIsReady := by
  unfold State.step at h
  cases e with
  | go =>
    dsimp only at h
    unfold State.go at h
    split at h <;> cases h
    case h_5 => split <;> simp [State.kill]
    all_goals rfl
  | fork =>
    dsimp only at h
    unfold State.fork at h
    split at h <;> cases h <;> split <;> rfl
  | waitpid =>
    dsimp only at h
    unfold State.wait at h
    split at h
    · obtain ⟨r, -, rfl⟩ := Option.map_eq_some_iff.mp h
      rfl
    · obtain ⟨r, -, rfl⟩ := Option.map_eq_some_iff.mp h
      rfl
    · cases h
  | signal sig =>
    dsimp only at h
    split at h <;> cases h
    unfold State.handleSignal
    split
    · rfl
    · rw [if_neg (by simpa using he)]
  | cmdqdEnds | psqlEnds =>
    cases h
    rfl

/-! ## The manager -/

theorem listening_refresh (m : Listen.State) (retrySelect : Bool) (next : Listen.Pc) :
    (m.refresh cfg retrySelect next).listening = m.listening := by
  unfold Listen.State.refresh
  split <;> rfl

/-- A manager that listens keeps on. -/
theorem listening_step {m m' : Listen.State} {e : Listen.Event} (h : m.step cfg e = some m')
    (hm : m.listening = true) : m'.listening = true := by
  cases Listen.moves_step h with
  | firstSelect | select => rwa [listening_refresh]
  | listen => rfl
  | _ => exact hm

/-- A manager that listens has left its first list behind. -/
theorem pc_of_listening {m : Listen.State} (hm : Listen.Inv cfg m) (hl : m.listening = true) :
    m.pc ≠ .start ∧ m.pc ≠ .listen := by
  constructor
  · intro hpc
    have := (hm.at hpc nofun).2
    simp [hl] at this
  · intro hpc
    have := (hm.at hpc nofun).2.1
    simp [hl] at this

/-! ## Both -/

structure Inv (cfg : Listen.Config) (s : System) : Prop where
  told : Told s.wrapper
  ready : s.wrapper.cmdqdIsReady = true → s.emitted = true
  emitted : s.emitted = true → s.manager.listening = true
  manager : Listen.Inv cfg s.manager

theorem Inv.listening (hs : Inv cfg s) (hpsql : s.wrapper.psql ≠ none) : s.manager.listening = true :=
  hs.emitted (hs.ready (hs.told.psql hpsql))

theorem inv_wrap {e : WithCmdqd.Event} (hs : Inv cfg s) (he : e = .signal .usr1 → s.emitted = true)
    (h : s.wrap asserts e = some t) : Inv cfg t := by
  obtain ⟨w, hw, rfl⟩ := Option.map_eq_some_iff.mp h
  refine ⟨told_step hs.told hw, fun hready => ?_, hs.emitted, hs.manager⟩
  by_cases husr1 : e = .signal .usr1
  · exact he husr1
  · exact hs.ready (ready_step hw husr1 ▸ hready)

theorem inv_managerStep {e : Listen.Event} {m : Listen.State} (hs : Inv cfg s)
    (ho : Listen.Orderly cfg s.manager e) (hm : s.manager.step cfg e = some m) :
    Inv cfg { s with manager := m } :=
  ⟨hs.told, hs.ready, fun hemitted => listening_step hm (hs.emitted hemitted),
    Listen.inv_step hs.manager ho hm⟩

theorem inv_manage {e : Listen.Event} (hs : Inv cfg s) (h : s.manage cfg e = some t)
    (ho : Listen.Orderly cfg s.manager e) : Inv cfg t := by
  unfold System.manage at h
  split at h
  · obtain ⟨m, hm, rfl⟩ := Option.map_eq_some_iff.mp h
    exact inv_managerStep hs ho hm
  · cases h

theorem inv_wrapperStep {e : WithCmdqd.Event} (hs : Inv cfg s) (h : s.wrapperStep cfg e = some t) :
    Inv cfg t := by
  unfold System.wrapperStep at h
  split at h
  · split at h
    · exact inv_wrap hs (fun _ => ‹_›) h
    · cases h
  · obtain ⟨u, hu, h⟩ := Option.bind_eq_some_iff.mp h
    exact inv_wrap (inv_manage hs hu trivial) (by simp) h
  · exact inv_wrap hs (by simp_all) h

/-- The manager listens when the command commits. -/
theorem orderly_commit {tx : Listen.Transaction} (hs : Inv cfg s) (hpsql : s.wrapper.psql ≠ none)
    (hr : Recognized cfg s (.commit tx)) : Listen.Orderly cfg s.manager (.commit tx) := by
  obtain ⟨-, hpc⟩ := pc_of_listening hs.manager (hs.listening hpsql)
  exact hr.imp id fun hplain => .inr ⟨hpc, hplain⟩

theorem inv_step (hs : Inv cfg s) (h : Step cfg s e t) : Inv cfg t := by
  obtain ⟨hr, h⟩ := h
  cases e with
  | wrapper e => exact inv_wrapperStep hs h
  | emit =>
    unfold System.step at h
    dsimp only at h
    split at h <;> cases h
    exact ⟨hs.told, fun _ => rfl, fun _ => by simp_all, hs.manager⟩
  | commit tx =>
    unfold System.step at h
    dsimp only at h
    split at h
    · cases h
    · obtain ⟨m, hm, rfl⟩ := Option.map_eq_some_iff.mp h
      exact inv_managerStep hs (orderly_commit hs ‹_› hr) hm
  | _ => exact inv_manage hs h trivial

theorem inv_run {records : List Listen.QueueRecord}
    (h : Transition.Run (Step cfg) { manager := { records := records } } tr s) : Inv cfg s :=
  h.invariant_state ⟨⟨by simp, by simp⟩, by simp, by simp, .inr ⟨rfl, rfl⟩⟩ fun _ _ _ => inv_step

/-- The command registers a queue. -/
def registered : List Event := [.wrapper (.fork true), .wrapper .go, .select, .listen, .emit,
  .wrapper (.signal .usr1), .wrapper .go, .wrapper .go, .wrapper (.fork true),
  .commit ⟨[.insert ⟨Manager.nightly, true⟩], []⟩, .wake 1, .notify, .select, .consume 0, .notify]

def recognizedNext (s : System) (e : Event) : Option System :=
  match e with
  | .commit tx => if tx.changes.any Listen.Change.plain then s.step ⟨true, fun _ => true⟩ e else none
  | _ => s.step ⟨true, fun _ => true⟩ e

theorem step_of_next (h : recognizedNext s e = some t) : Step ⟨true, fun _ => true⟩ s e t := by
  unfold recognizedNext at h
  cases e with
  | commit tx =>
    dsimp only at h
    split at h
    · exact ⟨.inr (List.any_eq_true.mp ‹_›), h⟩
    · cases h
  | _ => exact ⟨trivial, h⟩

end PgCmdQueue.WithCmdqd.Readiness
