import PgCmdQueue.Cpp
import Mathlib.Data.List.AList
import Mathlib.Data.List.Induction

/-!
# The runners of the manager

`refresh_queue_list` starts a runner for every new queue and asks the runners of the
queues that are gone to stop. The maps of runners only grow.
-/

namespace PgCmdQueue

open Cpp

/-- What the manager reads of a `cmdqd.cmd_queue` row. -/
structure CmdQueue where
  cmdClassIdentity : Bytes
  cmdSignatureClassRelname : Bytes
  isValid : Bool
  deriving DecidableEq

/-- A runner whose thread was started. `killPipe` has the signals that it was sent. -/
structure CmdQueueRunner where
  running : Bool := false
  killPipe : List Nat := []

def CmdQueueRunner.kill (r : CmdQueueRunner) (sigNum : Nat) : CmdQueueRunner :=
  if r.running then { r with killPipe := r.killPipe ++ [sigNum] } else r

abbrev RunnerMap := AList fun _ : Bytes => CmdQueueRunner

def emplace (runners : RunnerMap) (cls : Bytes) (r : CmdQueueRunner) : RunnerMap :=
  if cls ∈ runners then runners else runners.insert cls r

def sigterm : Nat := 15

structure Manager where
  nixCmdQueueRunners : RunnerMap := ∅
  sqlCmdQueueRunners : RunnerMap := ∅
  oldCmdClasses : List Bytes := []
  newCmdClasses : List Bytes := []
  keepRunning : Bool := true

namespace Manager

def queueHasRunnerAlready (m : Manager) (q : CmdQueue) : Bool :=
  q.cmdClassIdentity ∈ m.nixCmdQueueRunners || q.cmdClassIdentity ∈ m.sqlCmdQueueRunners

def addRunner (m : Manager) (q : CmdQueue) : Manager :=
  if q.cmdSignatureClassRelname = ascii "nix_queue_cmd_template" then
    { m with nixCmdQueueRunners := emplace m.nixCmdQueueRunners q.cmdClassIdentity {} }
  else if q.cmdSignatureClassRelname = ascii "sql_queue_cmd_template" then
    { m with sqlCmdQueueRunners := emplace m.sqlCmdQueueRunners q.cmdClassIdentity {} }
  else m

def stopRunner (m : Manager) (cls : Bytes) (sigNum : Nat) : Except CppError Manager :=
  match m.nixCmdQueueRunners.lookup cls with
  | some r => .ok { m with nixCmdQueueRunners := m.nixCmdQueueRunners.insert cls (r.kill sigNum) }
  | none => match m.sqlCmdQueueRunners.lookup cls with
    | some r => .ok { m with sqlCmdQueueRunners := m.sqlCmdQueueRunners.insert cls (r.kill sigNum) }
    | none => .error (.runtimeError
        ("Could not find runner for queue_cmd_class = '" ++ toText cls ++ "'"))

/-- The loop's body for one row of the list. -/
def readQueue (m : Manager) (q : CmdQueue) : Manager :=
  if q.isValid then
    let m := if m.queueHasRunnerAlready q then m else m.addRunner q
    { m with newCmdClasses := m.newCmdClasses.insert q.cmdClassIdentity }
  else m

def stopIfGone (m : Manager) (cls : Bytes) : Except CppError Manager :=
  if cls ∈ m.newCmdClasses then .ok m else m.stopRunner cls sigterm

/-- `refresh_queue_list` from the result of its SELECT on. -/
def readQueueList (m : Manager) (rows : List CmdQueue) : Except CppError Manager := do
  let m := rows.foldl readQueue { m with newCmdClasses := [] }
  let m ← m.oldCmdClasses.foldlM stopIfGone m
  return { m with oldCmdClasses := m.newCmdClasses }

/-- How the SELECT loop ends. -/
inductive Selection where
  | succeeded (rows : List CmdQueue)
  | gaveUp
  | interrupted

/-- `failures` has the SELECTs that fail before one yields `rows`, each with whether a
signal came in while the manager slept after it. -/
def selectQueues (keepRunning retrySelect : Bool) (failures : List Bool) (rows : List CmdQueue) :
    Selection :=
  if keepRunning then
    match failures with
    | [] => .succeeded rows
    | signal :: failures =>
      if retrySelect then selectQueues (!signal) retrySelect failures rows else .gaveUp
  else .interrupted

/-- The result that an interrupted loop leaves behind has no rows. -/
def refreshQueueList (m : Manager) (retrySelect : Bool) (failures : List Bool)
    (rows : List CmdQueue) : Except CppError Manager :=
  match selectQueues m.keepRunning retrySelect failures rows with
  | .succeeded rows => m.readQueueList rows
  | .gaveUp => .ok m
  | .interrupted => { m with keepRunning := false }.readQueueList []

/-! ## The runner of a class -/

def runner (m : Manager) (cls : Bytes) : Option CmdQueueRunner :=
  (m.nixCmdQueueRunners.lookup cls).or (m.sqlCmdQueueRunners.lookup cls)

def knownTemplate (q : CmdQueue) : Bool :=
  q.cmdSignatureClassRelname = ascii "nix_queue_cmd_template" ||
    q.cmdSignatureClassRelname = ascii "sql_queue_cmd_template"

def validClasses (rows : List CmdQueue) : List Bytes :=
  (rows.filter (·.isValid)).map (·.cmdClassIdentity)

/-- A runner can be started for the class. -/
def Startable (rows : List CmdQueue) (cls : Bytes) : Prop :=
  ∃ q ∈ rows, q.isValid = true ∧ knownTemplate q = true ∧ q.cmdClassIdentity = cls

variable {m m' : Manager} {cls c : Bytes} {q : CmdQueue} {rows : List CmdQueue} {r : CmdQueueRunner}

theorem runner_eq_none : m.runner cls = none ↔
    cls ∉ m.nixCmdQueueRunners ∧ cls ∉ m.sqlCmdQueueRunners := by
  simp [runner, AList.lookup_eq_none]

theorem queueHasRunnerAlready_iff :
    m.queueHasRunnerAlready q = true ↔ m.runner q.cmdClassIdentity ≠ none := by
  rw [ne_eq, runner_eq_none]
  simp [queueHasRunnerAlready]
  tauto

theorem lookup_emplace {runners : RunnerMap} (h : cls ∉ runners) :
    (emplace runners cls r).lookup c = if cls = c then some r else runners.lookup c := by
  unfold emplace
  rw [if_neg h]
  by_cases hc : cls = c
  · subst hc
    simp
  · rw [if_neg hc, AList.lookup_insert_ne (Ne.symm hc)]

theorem runner_addRunner (h : m.runner q.cmdClassIdentity = none) :
    (m.addRunner q).runner c =
      if knownTemplate q = true ∧ q.cmdClassIdentity = c then some {} else m.runner c := by
  obtain ⟨hnix, hsql⟩ := runner_eq_none.mp h
  unfold addRunner
  by_cases ht : q.cmdSignatureClassRelname = ascii "nix_queue_cmd_template"
  · rw [if_pos ht]
    simp only [runner, lookup_emplace hnix, knownTemplate, ht]
    by_cases hc : q.cmdClassIdentity = c <;> simp [hc]
  rw [if_neg ht]
  by_cases ht' : q.cmdSignatureClassRelname = ascii "sql_queue_cmd_template"
  · rw [if_pos ht']
    simp only [runner, lookup_emplace hsql, knownTemplate, ht']
    by_cases hc : q.cmdClassIdentity = c
    · simp [hc, AList.lookup_eq_none.mpr (hc ▸ hnix)]
    · simp [hc]
  · rw [if_neg ht']
    simp [knownTemplate, ht, ht']

theorem runner_newCmdClasses {l : List Bytes} :
    ({ m with newCmdClasses := l } : Manager).runner c = m.runner c := rfl

theorem runner_readQueue : (m.readQueue q).runner c =
    (m.runner c).or (if q.isValid = true ∧ knownTemplate q = true ∧ q.cmdClassIdentity = c
      then some {} else none) := by
  unfold readQueue
  split <;> rename_i hv
  · rw [runner_newCmdClasses]
    split <;> rename_i hhas
    · have hsome := queueHasRunnerAlready_iff.mp hhas
      by_cases hc : q.cmdClassIdentity = c
      · rw [hc] at hsome
        obtain ⟨r, hr⟩ := Option.ne_none_iff_exists'.mp hsome
        rw [hr, Option.some_or]
      · rw [if_neg (by tauto), Option.or_none]
    · have hnone : m.runner q.cmdClassIdentity = none := by
        by_contra hne
        exact hhas (queueHasRunnerAlready_iff.mpr hne)
      rw [runner_addRunner hnone]
      by_cases hc : knownTemplate q = true ∧ q.cmdClassIdentity = c
      · rw [if_pos hc, if_pos ⟨hv, hc⟩, ← hc.2, hnone]
        rfl
      · rw [if_neg hc, if_neg (by tauto), Option.or_none]
  · rw [if_neg (by tauto), Option.or_none]

theorem runner_readQueues (rows : List CmdQueue) :
    (∀ r, m.runner c = some r → (rows.foldl readQueue m).runner c = some r) ∧
    (m.runner c = none → (rows.foldl readQueue m).runner c = none ∧ ¬Startable rows c ∨
      (rows.foldl readQueue m).runner c = some {} ∧ Startable rows c) := by
  induction rows generalizing m with
  | nil => exact ⟨fun r hr => hr, fun hr => .inl ⟨hr, by simp [Startable]⟩⟩
  | cons q rows ih =>
    obtain ⟨hsome, hnone⟩ := ih (m := m.readQueue q)
    refine ⟨fun r hr => hsome r (by rw [runner_readQueue, hr, Option.some_or]), fun hr => ?_⟩
    rw [List.foldl_cons]
    by_cases hq : q.isValid = true ∧ knownTemplate q = true ∧ q.cmdClassIdentity = c
    · refine .inr ⟨hsome _ ?_, q, List.mem_cons_self, hq⟩
      rw [runner_readQueue, hr, if_pos hq, Option.none_or]
    · have hrest : Startable (q :: rows) c ↔ Startable rows c := by
        simp only [Startable, List.exists_mem_cons_iff, or_iff_right hq]
      rw [hrest]
      refine hnone ?_
      rw [runner_readQueue, hr, if_neg hq, Option.none_or]

theorem addRunner_rest (m : Manager) (q : CmdQueue) : (m.addRunner q).oldCmdClasses = m.oldCmdClasses ∧
    (m.addRunner q).newCmdClasses = m.newCmdClasses ∧ (m.addRunner q).keepRunning = m.keepRunning := by
  unfold addRunner
  split
  · exact ⟨rfl, rfl, rfl⟩
  · split <;> exact ⟨rfl, rfl, rfl⟩

theorem readQueue_rest (m : Manager) (q : CmdQueue) :
    (m.readQueue q).oldCmdClasses = m.oldCmdClasses ∧ (m.readQueue q).keepRunning = m.keepRunning ∧
      (c ∈ (m.readQueue q).newCmdClasses ↔
        c ∈ m.newCmdClasses ∨ (q.isValid = true ∧ q.cmdClassIdentity = c)) := by
  obtain ⟨hold, hnew, hkeep⟩ := addRunner_rest m q
  unfold readQueue
  cases hv : q.isValid
  · simp
  · cases m.queueHasRunnerAlready q <;> simp [hold, hnew, hkeep, or_comm, eq_comm]

theorem readQueues_newCmdClasses (rows : List CmdQueue) :
    c ∈ (rows.foldl readQueue m).newCmdClasses ↔ c ∈ m.newCmdClasses ∨ c ∈ validClasses rows := by
  induction rows generalizing m with
  | nil => simp [validClasses]
  | cons q rows ih =>
    rw [List.foldl_cons, ih, (readQueue_rest m q).2.2]
    unfold validClasses
    cases hv : q.isValid
    · simp [hv]
    · rw [List.filter_cons_of_pos hv, List.map_cons, List.mem_cons, or_assoc]
      simp only [true_and, @eq_comm _ c q.cmdClassIdentity]

theorem readQueues_rest (rows : List CmdQueue) :
    (rows.foldl readQueue m).oldCmdClasses = m.oldCmdClasses ∧
      (rows.foldl readQueue m).keepRunning = m.keepRunning := by
  induction rows generalizing m with
  | nil => exact ⟨rfl, rfl⟩
  | cons q rows ih =>
    obtain ⟨hold, hkeep⟩ := ih (m := m.readQueue q)
    obtain ⟨hold', hkeep', -⟩ := readQueue_rest (c := []) m q
    exact ⟨hold.trans hold', hkeep.trans hkeep'⟩

/-! ## Stopping runners -/

theorem stopRunner_none (h : m.runner cls = none) (sigNum : Nat) :
    ∃ e, m.stopRunner cls sigNum = .error e := by
  obtain ⟨hnix, hsql⟩ := runner_eq_none.mp h
  unfold stopRunner
  rw [AList.lookup_eq_none.mpr hnix, AList.lookup_eq_none.mpr hsql]
  exact ⟨_, rfl⟩

/-- Only the runner of the class changes. -/
theorem stopRunner_some (h : m.runner cls = some r) (sigNum : Nat) :
    ∃ m', m.stopRunner cls sigNum = .ok m' ∧
      (∀ c, m'.runner c = if c = cls then some (r.kill sigNum) else m.runner c) ∧
      m'.newCmdClasses = m.newCmdClasses ∧ m'.keepRunning = m.keepRunning := by
  unfold stopRunner
  unfold runner at h
  cases hnix : m.nixCmdQueueRunners.lookup cls with
  | some r' =>
    rw [hnix, Option.some_or, Option.some.injEq] at h
    subst h
    refine ⟨_, rfl, fun c => ?_, rfl, rfl⟩
    unfold runner
    by_cases hc : c = cls
    · subst hc
      simp
    · rw [if_neg hc, AList.lookup_insert_ne hc]
  | none =>
    rw [hnix, Option.none_or] at h
    rw [h]
    refine ⟨_, rfl, fun c => ?_, rfl, rfl⟩
    unfold runner
    by_cases hc : c = cls
    · subst hc
      simp [hnix]
    · rw [if_neg hc, AList.lookup_insert_ne hc]

/-- A thread was started for the class and has not been asked to stop. -/
def Live (m : Manager) (cls : Bytes) : Prop := ∃ r, m.runner cls = some r ∧ r.killPipe = []

theorem kill_killPipe (r : CmdQueueRunner) (sigNum : Nat) :
    (r.kill sigNum).running = r.running ∧
      ((r.kill sigNum).killPipe = [] ↔ r.killPipe = [] ∧ r.running = false) := by
  unfold CmdQueueRunner.kill
  cases hr : r.running <;> simp [hr]

/-- The runners of the classes that are gone are asked to stop if their threads say that
they run. -/
theorem stopIfGone_spec (l : List Bytes) (h : ∀ c ∈ l, m.runner c ≠ none) :
    ∃ m', l.foldlM stopIfGone m = .ok m' ∧
      ∀ c, m'.Live c ↔ m.Live c ∧ ¬(c ∈ l ∧ c ∉ m.newCmdClasses ∧
        ∃ r, m.runner c = some r ∧ r.running = true) := by
  induction l generalizing m with
  | nil => exact ⟨m, rfl, by simp⟩
  | cons cls l ih =>
    rw [List.forall_mem_cons] at h
    rw [List.foldlM_cons]
    by_cases hnew : cls ∈ m.newCmdClasses
    · obtain ⟨m', hm', hlive⟩ := ih h.2
      refine ⟨m', by unfold stopIfGone; rw [if_pos hnew]; exact hm', fun c => ?_⟩
      rw [hlive]
      by_cases hc : c = cls
      · subst hc
        simp [hnew]
      · simp [hc]
    · obtain ⟨r, hr⟩ := Option.ne_none_iff_exists'.mp h.1
      obtain ⟨m1, hm1, hrunner, hnew1, -⟩ := stopRunner_some hr sigterm
      have hfound : ∀ c ∈ l, m1.runner c ≠ none := by
        intro c hc
        rw [hrunner]
        split
        · simp
        · exact h.2 c hc
      obtain ⟨m', hm', hlive⟩ := ih hfound
      refine ⟨m', ?_, fun c => ?_⟩
      · unfold stopIfGone
        rw [if_neg hnew, hm1]
        exact hm'
      · obtain ⟨hrun, hpipe⟩ := kill_killPipe r sigterm
        rw [hlive, hnew1]
        unfold Live
        rw [hrunner]
        by_cases hc : c = cls
        · subst hc
          cases hrunning : r.running <;> simp [hr, hpipe, hrun, hnew, hrunning]
        · simp [hc]

/-! ## One list of queues -/

/-- What a list of queues asks of the runners that are there. -/
structure RefreshMeets (m : Manager) (rows : List CmdQueue) : Prop where
  notStopped : ∀ c ∈ validClasses rows, ∀ r, m.runner c = some r → r.killPipe = []
  startable : ∀ c ∈ validClasses rows, m.runner c = none → Startable rows c
  running : ∀ c ∈ m.oldCmdClasses, c ∉ validClasses rows → ∃ r, m.runner c = some r ∧ r.running = true

theorem validClasses_of_startable (h : Startable rows c) : c ∈ validClasses rows := by
  obtain ⟨q, hq, hv, -, rfl⟩ := h
  exact List.mem_map_of_mem (List.mem_filter.mpr ⟨hq, hv⟩)

/-- The list is read without an exception, and its valid queues are the live ones
afterwards if and only if it meets the runners that are there. -/
theorem readQueueList_spec (hlive : ∀ c, m.Live c ↔ c ∈ m.oldCmdClasses) (rows : List CmdQueue) :
    ∃ m', m.readQueueList rows = .ok m' ∧
      ((∀ c, m'.Live c ↔ c ∈ validClasses rows) ↔ RefreshMeets m rows) := by
  obtain ⟨m1, hm1⟩ : ∃ m1, m1 = rows.foldl readQueue { m with newCmdClasses := [] } := ⟨_, rfl⟩
  have hrunner : ∀ c, _ := fun c => runner_readQueues (m := { m with newCmdClasses := [] }) (c := c) rows
  have hnew : ∀ c, c ∈ m1.newCmdClasses ↔ c ∈ validClasses rows := by
    intro c
    rw [hm1, readQueues_newCmdClasses]
    simp
  obtain ⟨hold, -⟩ := readQueues_rest (m := { m with newCmdClasses := [] }) rows
  rw [← hm1] at hrunner hold
  have hfound : ∀ c ∈ m.oldCmdClasses, m1.runner c ≠ none := by
    intro c hc
    obtain ⟨r, hr, -⟩ := (hlive c).mpr hc
    rw [(hrunner c).1 r hr]
    simp
  obtain ⟨m2, hm2, hlive2⟩ := stopIfGone_spec (m := m1) m.oldCmdClasses hfound
  refine ⟨{ m2 with oldCmdClasses := m2.newCmdClasses }, ?_, ?_⟩
  · unfold readQueueList
    rw [← hm1]
    dsimp only
    rw [hold]
    simp only [hm2, bind, Except.bind, pure, Except.pure]
  have hlive' : ∀ c, ({ m2 with oldCmdClasses := m2.newCmdClasses } : Manager).Live c ↔
      m1.Live c ∧ ¬(c ∈ m.oldCmdClasses ∧ c ∉ validClasses rows ∧
        ∃ r, m1.runner c = some r ∧ r.running = true) := by
    intro c
    rw [← hnew]
    exact hlive2 c
  -- A class that had a runner keeps it; another one has a fresh runner if it can be started.
  have hlive1 : ∀ c, m1.Live c ↔ m.Live c ∨ (m.runner c = none ∧ Startable rows c) := by
    intro c
    obtain ⟨hsome, hnone⟩ := hrunner c
    cases hr : m.runner c with
    | some r => simp [Live, hr, hsome r hr]
    | none =>
      rcases hnone hr with ⟨h, hs⟩ | ⟨h, hs⟩ <;> simp [Live, hr, h, hs]
  constructor
  · intro h
    refine ⟨fun c hc r hr => ?_, fun c hc hr => ?_, fun c hc hgone => ?_⟩
    · obtain ⟨hl, -⟩ := (hlive' c).mp ((h c).mpr hc)
      rcases (hlive1 c).mp hl with ⟨r', hr', hpipe⟩ | ⟨hn, -⟩
      · rw [hr] at hr'
        cases hr'
        exact hpipe
      · rw [hr] at hn
        cases hn
    · obtain ⟨hl, -⟩ := (hlive' c).mp ((h c).mpr hc)
      rcases (hlive1 c).mp hl with ⟨r', hr', -⟩ | ⟨-, hs⟩
      · rw [hr] at hr'
        cases hr'
      · exact hs
    · obtain ⟨r, hr, hpipe⟩ := (hlive c).mpr hc
      refine ⟨r, hr, ?_⟩
      by_contra hrun
      refine hgone ((h c).mp ((hlive' c).mpr ⟨(hlive1 c).mpr (.inl ⟨r, hr, hpipe⟩), ?_⟩))
      rintro ⟨-, -, r', hr', hrun'⟩
      rw [(hrunner c).1 r hr] at hr'
      cases hr'
      exact hrun hrun'
  · rintro ⟨hpipe, hstart, hrun⟩ c
    rw [hlive', hlive1]
    by_cases hc : c ∈ validClasses rows
    · refine iff_of_true ⟨?_, by tauto⟩ hc
      cases hr : m.runner c with
      | some r => exact .inl ⟨r, hr, hpipe c hc r hr⟩
      | none => exact .inr ⟨rfl, hstart c hc hr⟩
    · refine iff_of_false ?_ hc
      rintro ⟨hl | ⟨-, hs⟩, hstop⟩
      · have hold := (hlive c).mp hl
        obtain ⟨r, hr, hrunning⟩ := hrun c hold hc
        exact hstop ⟨hold, hc, r, (hrunner c).1 r hr, hrunning⟩
      · exact hc (validClasses_of_startable hs)

/-! ## The manager's life -/

inductive Event where
  | refresh (retrySelect : Bool) (failures : List Bool) (rows : List CmdQueue)
  | threadStarted (cls : Bytes)
  | threadEnded (cls : Bytes)

/-- A runner thread writes its `_running`. -/
def setRunning (m : Manager) (cls : Bytes) (running : Bool) : Manager :=
  match m.nixCmdQueueRunners.lookup cls with
  | some r => { m with nixCmdQueueRunners := m.nixCmdQueueRunners.insert cls { r with running := running } }
  | none => match m.sqlCmdQueueRunners.lookup cls with
    | some r => { m with sqlCmdQueueRunners := m.sqlCmdQueueRunners.insert cls { r with running := running } }
    | none => m

def step (m : Manager) : Event → Except CppError Manager
  | .refresh retrySelect failures rows => m.refreshQueueList retrySelect failures rows
  | .threadStarted cls => .ok (m.setRunning cls true)
  | .threadEnded cls => .ok (m.setRunning cls false)

def run (es : List Event) : Except CppError Manager := es.foldlM step {}

/-- The list that an event reads, if it is a refresh whose SELECT succeeds. -/
def listRead (m : Manager) : Event → Option (List CmdQueue)
  | .refresh retrySelect failures rows =>
    match selectQueues m.keepRunning retrySelect failures rows with
    | .succeeded rows => some rows
    | _ => none
  | _ => none

/-- After every list that is read, the live runners are those of its valid queues. -/
def RunnersMatch (es : List Event) : Prop :=
  ∀ pre e post, es = pre ++ e :: post → ∀ m rows, run pre = .ok m → m.listRead e = some rows →
    ∃ m', m.step e = .ok m' ∧ ∀ c, m'.Live c ↔ c ∈ validClasses rows

theorem setRunning_spec (m : Manager) (cls : Bytes) (running : Bool) :
    (∀ c, (m.setRunning cls running).Live c ↔ m.Live c) ∧
      (m.setRunning cls running).oldCmdClasses = m.oldCmdClasses ∧
      (m.setRunning cls running).keepRunning = m.keepRunning := by
  unfold setRunning
  cases hnix : m.nixCmdQueueRunners.lookup cls with
  | some r =>
    refine ⟨fun c => ?_, rfl, rfl⟩
    by_cases hc : c = cls
    · subst hc
      simp [Live, runner, hnix]
    · simp [Live, runner, AList.lookup_insert_ne hc]
  | none =>
    cases hsql : m.sqlCmdQueueRunners.lookup cls with
    | some r =>
      refine ⟨fun c => ?_, rfl, rfl⟩
      by_cases hc : c = cls
      · subst hc
        simp [Live, runner, hnix, hsql]
      · simp [Live, runner, AList.lookup_insert_ne hc]
    | none => exact ⟨fun c => Iff.rfl, rfl, rfl⟩

theorem stopIfGone_rest (l : List Bytes) (h : l.foldlM stopIfGone m = .ok m') :
    m'.newCmdClasses = m.newCmdClasses ∧ m'.keepRunning = m.keepRunning := by
  induction l generalizing m with
  | nil =>
    cases h
    exact ⟨rfl, rfl⟩
  | cons cls l ih =>
    obtain ⟨m1, hm1, h⟩ := bind_eq_ok h
    rw [(ih h).1, (ih h).2]
    unfold stopIfGone at hm1
    split at hm1
    · cases hm1
      exact ⟨rfl, rfl⟩
    · cases hr : m.runner cls with
      | none =>
        obtain ⟨e, he⟩ := stopRunner_none hr sigterm
        rw [he] at hm1
        cases hm1
      | some r =>
        obtain ⟨m2, hm2, -, hnew, hkeep⟩ := stopRunner_some hr sigterm
        rw [hm2] at hm1
        cases hm1
        exact ⟨hnew, hkeep⟩

/-- A list that was read without an exception is the last one listed. -/
theorem readQueueList_rest (h : m.readQueueList rows = .ok m') :
    (∀ c, c ∈ m'.oldCmdClasses ↔ c ∈ validClasses rows) ∧ m'.keepRunning = m.keepRunning := by
  unfold readQueueList at h
  obtain ⟨m1, hm1, h⟩ := bind_eq_ok h
  cases h
  obtain ⟨hnew, hkeep⟩ := stopIfGone_rest _ hm1
  refine ⟨fun c => ?_, hkeep.trans (readQueues_rest rows).2⟩
  show c ∈ m1.newCmdClasses ↔ _
  rw [hnew, readQueues_newCmdClasses]
  simp

/-- While the manager goes on, the live runners are those of the last list. -/
def LastListLive (m : Manager) : Prop := m.keepRunning = true → ∀ c, m.Live c ↔ c ∈ m.oldCmdClasses

theorem selectQueues_keepRunning {keepRunning retrySelect : Bool} {failures : List Bool}
    {rows' : List CmdQueue}
    (h : selectQueues keepRunning retrySelect failures rows = .succeeded rows') :
    keepRunning = true := by
  unfold selectQueues at h
  split at h
  · assumption
  · cases h

theorem lastListLive_step {e : Event} (hm : m.LastListLive) (h : m.step e = .ok m')
    (hread : ∀ rows, m.listRead e = some rows → ∀ c, m'.Live c ↔ c ∈ validClasses rows) :
    m'.LastListLive := by
  cases e with
  | refresh retrySelect failures rows =>
    simp only [step, refreshQueueList] at h
    simp only [listRead] at hread
    cases hsel : selectQueues m.keepRunning retrySelect failures rows with
    | succeeded rows' =>
      rw [hsel] at h hread
      intro _ c
      rw [hread rows' rfl, (readQueueList_rest h).1]
    | gaveUp =>
      rw [hsel] at h
      cases h
      exact hm
    | interrupted =>
      rw [hsel] at h
      intro hkeep
      rw [(readQueueList_rest h).2] at hkeep
      cases hkeep
  | threadStarted cls =>
    cases h
    obtain ⟨hlive, hold, hkeep⟩ := setRunning_spec m cls true
    intro hk c
    rw [hlive, hold]
    exact hm (hkeep ▸ hk) c
  | threadEnded cls =>
    cases h
    obtain ⟨hlive, hold, hkeep⟩ := setRunning_spec m cls false
    intro hk c
    rw [hlive, hold]
    exact hm (hkeep ▸ hk) c

theorem run_snoc (pre : List Event) (e : Event) : run (pre ++ [e]) = (run pre).bind (·.step e) := by
  unfold run
  rw [List.foldlM_append]
  simp only [List.foldlM_cons, List.foldlM_nil, bind, Except.bind]
  cases List.foldlM step {} pre with
  | error e' => rfl
  | ok m =>
    dsimp only
    cases m.step e <;> rfl

/-- The run lemma: what one refresh does is only needed where the invariant holds. -/
theorem lastListLive_run {es : List Event}
    (h : ∀ pre e post, es = pre ++ e :: post → ∀ m rows, run pre = .ok m → m.LastListLive →
      m.listRead e = some rows → ∃ m', m.step e = .ok m' ∧ ∀ c, m'.Live c ↔ c ∈ validClasses rows) :
    ∀ pre post, es = pre ++ post → ∀ m, run pre = .ok m → m.LastListLive := by
  intro pre
  induction pre using List.reverseRecOn with
  | nil =>
    intro post _ m hm _ c
    cases hm
    simp [Live, runner]
  | append_singleton pre e ih =>
    intro post hes m' hm'
    rw [run_snoc] at hm'
    obtain ⟨m, hm, hstep⟩ := bind_eq_ok hm'
    rw [List.append_assoc, List.singleton_append] at hes
    have hlast := ih (e :: post) hes m hm
    refine lastListLive_step hlast hstep fun rows hrows => ?_
    obtain ⟨m1, hm1, hlive⟩ := h pre e post hes m rows hm hlast hrows
    rw [hstep] at hm1
    cases hm1
    exact hlive

/-- What a refresh does, where the invariant holds. -/
theorem step_listRead_iff {e : Event} (hm : m.LastListLive) (hread : m.listRead e = some rows) :
    (∃ m', m.step e = .ok m' ∧ ∀ c, m'.Live c ↔ c ∈ validClasses rows) ↔ m.RefreshMeets rows := by
  cases e with
  | refresh retrySelect failures rows' =>
    simp only [listRead] at hread
    simp only [step, refreshQueueList]
    cases hsel : selectQueues m.keepRunning retrySelect failures rows' with
    | succeeded rows'' =>
      rw [hsel] at hread
      cases hread
      obtain ⟨m', hm', hiff⟩ := readQueueList_spec (hm (selectQueues_keepRunning hsel)) rows
      rw [← hiff]
      constructor
      · rintro ⟨m1, hm1, hlive⟩
        cases hm'.symm.trans hm1
        exact hlive
      · exact fun hlive => ⟨m', hm', hlive⟩
    | gaveUp => simp [hsel] at hread
    | interrupted => simp [hsel] at hread
  | threadStarted cls => cases hread
  | threadEnded cls => cases hread

theorem runnersMatch_iff (es : List Event) : RunnersMatch es ↔
    ∀ pre e post, es = pre ++ e :: post → ∀ m rows, run pre = .ok m → m.listRead e = some rows →
      m.RefreshMeets rows := by
  constructor
  · intro h pre e post hes m rows hm hread
    have hlast := lastListLive_run (fun pre e post hes m rows hm _ => h pre e post hes m rows hm)
      pre (e :: post) hes m hm
    exact (step_listRead_iff hlast hread).mp (h pre e post hes m rows hm hread)
  · intro h pre e post hes m rows hm hread
    have hlast := lastListLive_run (fun pre e post hes m rows hm hlast hread =>
      (step_listRead_iff hlast hread).mpr (h pre e post hes m rows hm hread)) pre (e :: post) hes m hm
    exact (step_listRead_iff hlast hread).mpr (h pre e post hes m rows hm hread)

def nightly : CmdQueue := ⟨ascii "cmdq.nightly_cmd", ascii "nix_queue_cmd_template", true⟩

def nightlyGone : List Event := [.refresh true [] [nightly],
  .threadStarted nightly.cmdClassIdentity, .refresh true [] []]

/-- A queue that comes back finds the runner that was asked to stop. -/
theorem not_runnersMatch_comeback :
    ¬RunnersMatch (nightlyGone ++ [.refresh true [] [nightly]]) := by
  intro h
  have hkeep : (run nightlyGone).map (·.keepRunning) = .ok true := by decide +kernel
  have hkilled : (run (nightlyGone ++ [.refresh true [] [nightly]])).map
      (fun m => (m.runner nightly.cmdClassIdentity).map (·.killPipe)) = .ok (some [sigterm]) := by
    decide +kernel
  rw [run_snoc] at hkilled
  cases hm : run nightlyGone with
  | error e =>
    rw [hm] at hkeep
    cases hkeep
  | ok m =>
    rw [hm] at hkeep hkilled
    have hread : m.listRead (.refresh true [] [nightly]) = some [nightly] := by
      simp [listRead, selectQueues, Except.ok.inj hkeep]
    obtain ⟨m', hm', hlive⟩ := h _ _ [] rfl m _ hm hread
    have hkilled : ((m.step (.refresh true [] [nightly])).map
      fun m => (m.runner nightly.cmdClassIdentity).map (·.killPipe)) = .ok (some [sigterm]) := hkilled
    rw [hm'] at hkilled
    obtain ⟨r, hr, hpipe⟩ := (hlive nightly.cmdClassIdentity).mpr (by decide)
    simp [Except.map, hr, hpipe] at hkilled

end Manager

end PgCmdQueue
