import PgCmdQueue.Lib.Run
import PgCmdQueue.Runner.Iteration
import Mathlib.Data.Fintype.Basic
import Mathlib.Logic.Function.Basic

/-!
# Several runners on one queue

Their sessions share the table of the queue. A lock lasts until its transaction ends or is rolled
back to a savepoint before it, so a command runs while its row is locked.
-/

namespace PgCmdQueue.Runner.Iteration

open Transaction

variable {R X : Type}

/-! ## What is asked of the database -/

/-- The queue, whether its trigger deletes a row that is updated, and whether connections may
be lost. -/
structure Setup (R : Type) where
  queue : Queue R
  deletes : Bool
  connectionsBreak : Bool

/-- Any query may fail: SELECT, `cmd_sql`, the constraints, UPDATE and the calls. The statements
that control the transaction fail where the server refuses them, and COMMIT also when a deferred
constraint is violated. -/
def Setup.may (cfg : Setup R) (s : Session R X) (stmt : Stmt R X) : Outcome R → Bool
  | .done _ => true
  | .error _ ended => match stmt with
    | .query _ _ _ => true
    | .control ctl _ => (ended && ctl = .commit) || (s.control ctl).isNone
  | .lost _ _ => cfg.connectionsBreak || s.status = .unknown

section

variable {cfg : Setup R} {row : R} {s : Session R X} {w : World R X} {α : Type}
  {k : Result R → Prog R X α} {post : α → World R X → Prop}

/-- The session has the row locked. One that is lost has nothing. -/
def Setup.Holds (cfg : Setup R) (row : R) (s : Session R X) : Prop :=
  row ∈ s.locks ∨ (cfg.connectionsBreak = true ∧ s = .lost)

/-- While a command is executed its row is locked. -/
def Setup.Guards (cfg : Setup R) (w : World R X) : Prop :=
  ∀ row, w.mark = some row → cfg.Holds row w.session

abbrev Setup.Wp (cfg : Setup R) (p : Prog R X α) (post : α → World R X → Prop) (w : World R X) :
    Prop :=
  p.wp (fun s stmt o => cfg.may s stmt o = true) cfg.Guards post w

/-- The row is locked now and was at each savepoint. -/
def Setup.Keeps (cfg : Setup R) (row : R) (s : Session R X) : Prop :=
  (s.levels ≠ [] ∧ ∀ level ∈ s.levels, row ∈ level.locks) ∨
    (cfg.connectionsBreak = true ∧ s = .lost)

/-- The same, with a savepoint. -/
def Setup.Inside (cfg : Setup R) (row : R) (s : Session R X) : Prop :=
  (s.savepoints ≠ [] ∧ ∀ level ∈ s.levels, row ∈ level.locks) ∨
    (cfg.connectionsBreak = true ∧ s = .lost)

theorem Setup.Keeps.holds (h : cfg.Keeps row s) : cfg.Holds row s := by
  rcases h with ⟨hne, hlocks⟩ | hlost
  · obtain ⟨level, hlevel⟩ := List.exists_mem_of_ne_nil _ hne
    exact .inl (Session.mem_locks.mpr ⟨level, hlevel, hlocks level hlevel⟩)
  · exact .inr hlost

theorem Setup.Inside.keeps (h : cfg.Inside row s) : cfg.Keeps row s := by
  refine h.imp_left fun ⟨hne, hlocks⟩ => ⟨?_, hlocks⟩
  rcases s with _ | ⟨now, saved⟩ | saved | _
  · exact absurd rfl hne
  · simp [Session.levels]
  · exact hne
  · exact absurd rfl hne

theorem guards_of_keeps (hmark : w.mark = some row) (h : cfg.Keeps row w.session) :
    cfg.Guards w := by
  intro row' hrow
  rw [hmark] at hrow
  cases hrow
  exact h.holds

theorem guards_of_none (hmark : w.mark = none) : cfg.Guards w := by
  intro row hrow
  rw [hmark] at hrow
  cases hrow

/-- Of the statements that control the transaction only COMMIT fails where it is not refused. -/
theorem control_of_may {ctl : Control} {f : Failure} {ended : Bool}
    (hmay : cfg.may s (command ctl) (.error f ended) = true) (hctl : ctl ≠ .commit) :
    s.control ctl = none := by
  simpa [Setup.may, command, hctl] using hmay

theorem commit_of_may {f : Failure} {ended : Bool}
    (hmay : cfg.may s (command .commit) (.error f ended) = true) :
    ended = true ∨ s.control .commit = none := by
  simpa [Setup.may, command] using hmay

/-- What a statement leaves of the session. -/
theorem Setup.exec_session {P : Session R X → Prop} {stmt : Stmt R X} (hguards : cfg.Guards w)
    (done : ∀ r s c, stmt.replies r = true → w.session.performs stmt r = some (s, c) → P s)
    (error : ∀ f ended, cfg.may w.session stmt (.error f ended) = true → w.session ≠ .lost →
      P (w.session.fails (ended && stmt.ends)))
    (lost : (cfg.connectionsBreak || w.session.status = .unknown) = true → P .lost)
    (hk : ∀ result w', w'.mark = w.mark → P w'.session → cfg.Wp (k result) post w') :
    cfg.Wp (exec stmt >>= k) post w :=
  Prog.wp_exec hguards (fun r s c _ hr hp => hk _ _ rfl (done r s c hr hp))
    (fun f ended hmay hlive => hk _ _ rfl (error f ended hmay hlive))
    (fun _ _ _ hmay _ => hk _ _ rfl (lost hmay))

/-! ## While the command runs -/

/-- No outcome loses the connection where none may be lost. -/
theorem lost_of_may (h : (cfg.connectionsBreak || s.status = .unknown) = true)
    (hs : s ≠ .lost ∨ cfg.connectionsBreak = true) : cfg.connectionsBreak = true := by
  rcases hs with hs | hs
  · rcases s with _ | ⟨now, saved⟩ | saved | _ <;> simp_all [Session.status]
  · exact hs

theorem Setup.Inside.lost (h : cfg.Inside row s)
    (hmay : (cfg.connectionsBreak || s.status = .unknown) = true) :
    cfg.connectionsBreak = true := by
  refine lost_of_may hmay (h.imp ?_ And.left)
  rintro ⟨hne, -⟩ rfl
  exact hne rfl

/-- An error in a query leads back to the savepoint. -/
theorem Setup.Inside.query {replies : Reply R → Bool} {changes forUpdate} (h : cfg.Inside row w.session)
    (hmark : w.mark = some row)
    (hk : ∀ result w', w'.mark = some row → cfg.Inside row w'.session →
      cfg.Wp (k result) post w') :
    cfg.Wp (exec (.query replies changes forUpdate) >>= k) post w := by
  obtain ⟨s, committed, m⟩ := w
  refine exec_session (P := cfg.Inside row) (guards_of_keeps hmark h.keeps) ?_ ?_
    (fun hmay => .inr ⟨h.lost hmay, rfl⟩) fun result w' hmark' => hk result w' (hmark'.trans hmark)
  · intro r s' c _ hp
    rcases h with ⟨hne, hlocks⟩ | ⟨_, hlost⟩
    · rcases s with _ | ⟨now, saved⟩ | saved | _ <;> cases hp
      · exact absurd rfl hne
      · refine .inl ⟨hne, fun level hlevel => ?_⟩
        rcases List.mem_cons.mp hlevel with rfl | hsaved
        · exact List.mem_append_left _ (hlocks now List.mem_cons_self)
        · exact hlocks level (List.mem_cons_of_mem _ hsaved)
    · cases hlost
      cases hp
  · intro f ended _ hlive
    rcases h with ⟨hne, hlocks⟩ | ⟨_, hlost⟩
    · change cfg.Inside row (s.fails (ended && false))
      rw [Bool.and_false]
      rcases s with _ | ⟨now, saved⟩ | saved | _
      · exact absurd rfl hne
      · exact .inl ⟨hne, fun level hlevel => hlocks level (List.mem_cons_of_mem _ hlevel)⟩
      · exact .inl ⟨hne, hlocks⟩
      · exact absurd rfl hlive
    · exact absurd hlost hlive

theorem savepoint_inside {now : Level (Effect R X) R} (hs : w.session = .inTransaction now [])
    (hrow : row ∈ now.locks) (hmark : w.mark = some row) :
    cfg.Wp (SqlRun.savepoint {}) (fun _ w => w.mark = some row ∧ cfg.Inside row w.session) w := by
  obtain ⟨s, committed, m⟩ := w
  obtain rfl : s = .inTransaction now [] := hs
  have hkeeps : cfg.Keeps row (.inTransaction now [] : Session R X) :=
    .inl ⟨by simp [Session.levels], by simpa [Session.levels] using hrow⟩
  refine Setup.exec_session (P := cfg.Inside row) (guards_of_keeps hmark hkeeps) ?_ ?_ ?_ ?_
  · intro r s' c _ hp
    cases hp
    exact .inl ⟨by simp [Session.savepoints], by simpa [Session.levels] using hrow⟩
  · intro f ended hmay _
    cases control_of_may hmay (by decide)
  · intro hmay
    exact .inr ⟨lost_of_may hmay (.inl (by simp)), rfl⟩
  · intro result w' hmark' hinside
    split <;> exact ⟨hmark'.trans hmark, hinside⟩

theorem execCmdSql_inside {d : Does R X} {c : SqlRun} (hmark : w.mark = some row)
    (h : cfg.Inside row w.session) :
    cfg.Wp (SqlRun.execCmdSql d c) (fun _ w => w.mark = some row ∧ cfg.Inside row w.session) w := by
  unfold SqlRun.execCmdSql
  split
  · exact ⟨hmark, h⟩
  · refine h.query hmark fun result w hmark h => ?_
    dsimp only
    split
    · exact ⟨hmark, h⟩
    · split <;> exact ⟨hmark, h⟩

theorem fireConstraints_inside {d : Does R X} {c : SqlRun} (hmark : w.mark = some row)
    (h : cfg.Inside row w.session) :
    cfg.Wp (SqlRun.fireConstraints d c) (fun _ w => w.mark = some row ∧ cfg.Inside row w.session)
      w := by
  unfold SqlRun.fireConstraints
  split
  · exact ⟨hmark, h⟩
  · refine h.query hmark fun result w hmark h => ?_
    split <;> exact ⟨hmark, h⟩

/-- ROLLBACK TO and RELEASE. Neither gives up the lock, and the server refuses them only in a
failed transaction, which stays at its savepoint. -/
theorem Setup.Inside.endSavepoint {ctl : Control} (hctl : ctl = .rollbackTo ∨ ctl = .release)
    (h : cfg.Inside row w.session) (hmark : w.mark = some row)
    (hk : ∀ result w', w'.mark = some row → cfg.Keeps row w'.session →
      cfg.Wp (k result) post w') :
    cfg.Wp (exec (command ctl) >>= k) post w := by
  obtain ⟨s, committed, m⟩ := w
  refine exec_session (P := cfg.Keeps row) (guards_of_keeps hmark h.keeps) ?_ ?_
    (fun hmay => .inr ⟨h.lost hmay, rfl⟩) fun result w' hmark' => hk result w' (hmark'.trans hmark)
  · intro r s' c _ hp
    rcases h with ⟨-, hlocks⟩ | ⟨-, hlost⟩
    · left
      rcases s with _ | ⟨now, _ | ⟨level, saved⟩⟩ | ⟨_ | ⟨level, saved⟩⟩ | _ <;>
        rcases hctl with rfl | rfl <;> cases hp <;> simp_all [Session.levels]
    · cases hlost
      rcases hctl with rfl | rfl <;> cases hp
  · intro f ended hmay hlive
    have hrefused := control_of_may hmay (by rcases hctl with rfl | rfl <;> decide)
    have hends : (command ctl : Stmt R X).ends = false := by rcases hctl with rfl | rfl <;> rfl
    rw [hends, Bool.and_false]
    rcases h with ⟨hne, hlocks⟩ | ⟨-, hlost⟩
    · rcases s with _ | ⟨now, _ | ⟨level, saved⟩⟩ | saved | _
      · exact absurd rfl hne
      · exact absurd rfl hne
      · rcases hctl with rfl | rfl <;> cases hrefused
      · exact .inl ⟨hne, hlocks⟩
      · exact absurd rfl hlive
    · exact absurd hlost hlive

theorem endSavepoint_keeps {c : SqlRun} (hmark : w.mark = some row)
    (h : cfg.Inside row w.session) :
    cfg.Wp (SqlRun.endSavepoint c) (fun _ w => w.mark = some row ∧ cfg.Keeps row w.session) w := by
  unfold SqlRun.endSavepoint
  split
  · exact ⟨hmark, h.keeps⟩
  · refine h.endSavepoint (by split <;> simp) hmark fun result w hmark h => ?_
    split <;> exact ⟨hmark, h⟩

/-- A command of another class makes no statement. -/
theorem runCmd_keeps {d : Does R X} {now : Level (Effect R X) R} (cmdClass : CmdClass)
    (hs : w.session = .inTransaction now []) (hrow : row ∈ now.locks) (hmark : w.mark = some row) :
    cfg.Wp (runCmd d cmdClass) (fun _ w => w.mark = some row ∧ cfg.Keeps row w.session) w := by
  cases cmdClass with
  | nix =>
    refine ⟨hmark, .inl ?_⟩
    rw [hs]
    exact ⟨by simp [Session.levels], by simpa [Session.levels] using hrow⟩
  | sql =>
    refine Prog.wp_bind (Prog.wp_bind (savepoint_inside hs hrow hmark) fun c w h => ?_)
      fun _ _ h => h
    refine Prog.wp_bind (execCmdSql_inside h.1 h.2) fun c w h => ?_
    exact Prog.wp_bind (fireConstraints_inside h.1 h.2) fun c w h => endSavepoint_keeps h.1 h.2

/-! ## Before and after it -/

theorem Setup.any_exec {stmt : Stmt R X} (hmark : w.mark = none)
    (hk : ∀ result w', w'.mark = none → cfg.Wp (k result) post w') :
    cfg.Wp (exec stmt >>= k) post w :=
  exec_session (P := fun _ => True) (guards_of_none hmark) (fun _ _ _ _ _ => trivial)
    (fun _ _ _ _ => trivial) (fun _ => trivial)
    fun result w' hmark' _ => hk result w' (hmark'.trans hmark)

theorem updateQueueCmd_unmarked {q : Queue R} {params : UpdateParams} (hmark : w.mark = none) :
    cfg.Wp (updateQueueCmd q row params) (fun _ w => w.mark = none) w := by
  refine Setup.any_exec hmark fun result w hmark => ?_
  split
  · exact hmark
  · exact Setup.any_exec hmark fun _ w hmark => Setup.any_exec hmark fun _ w hmark => hmark

theorem runQueueCmd_unmarked {q : Queue R} {d : Does R X} {now : Level (Effect R X) R}
    (hs : w.session = .inTransaction now []) (hrow : row ∈ now.locks) (hmark : w.mark = none) :
    cfg.Wp (runQueueCmd q d row) (fun _ w => w.mark = none) w := by
  refine Prog.wp_mark (guards_of_none hmark) ?_
  refine Prog.wp_bind (runCmd_keeps q.cmdClass hs hrow rfl) fun params w h => ?_
  exact Prog.wp_mark (guards_of_keeps h.1 h.2) (updateQueueCmd_unmarked rfl)

/-- No transaction is open. -/
def Resting (s : Session R X) : Prop := s = .idle ∨ s = .lost

theorem Resting.locks (h : Resting s) : s.locks = [] := by
  rcases h with rfl | rfl <;> rfl

/-- BEGIN is refused only where there is no connection. -/
theorem Setup.begin (h : Resting w.session) (hmark : w.mark = none)
    (hk : ∀ result w', w'.mark = none →
      (w'.session = .inTransaction {} [] ∨ w'.session = .lost) → cfg.Wp (k result) post w') :
    cfg.Wp (exec (command .begin) >>= k) post w := by
  obtain ⟨s, committed, m⟩ := w
  refine exec_session (P := fun s => s = .inTransaction {} [] ∨ s = .lost) (guards_of_none hmark)
    ?_ ?_ (fun _ => .inr rfl) fun result w' hmark' => hk result w' (hmark'.trans hmark)
  · intro r s' c _ hp
    rcases h with rfl | rfl <;> cases hp
    exact .inl rfl
  · intro f ended hmay hlive
    rcases h with rfl | rfl
    · cases control_of_may hmay (by decide)
    · exact absurd rfl hlive

/-- A row that is found is locked. -/
theorem Setup.select {q : Queue R} {notifyCmd : Option Key}
    (h : w.session = .inTransaction {} [] ∨ w.session = .lost) (hmark : w.mark = none)
    (hk : ∀ result w', w'.mark = none →
      (∀ r row, result = .ok r → r.row = some row →
        ∃ now, w'.session = .inTransaction now [] ∧ row ∈ now.locks) →
      cfg.Wp (k result) post w') :
    cfg.Wp (exec (selectCmd q notifyCmd) >>= k) post w := by
  refine Prog.wp_exec (guards_of_none hmark) (fun r s' c _ _ hp => ?_)
    (fun f ended _ _ => hk _ _ hmark (by simp)) (fun f _ c _ _ => hk _ _ hmark (by simp))
  refine hk _ _ hmark ?_
  rintro _ row ⟨⟩ hrow
  obtain ⟨s, committed, m⟩ := w
  rcases h with rfl | rfl <;> cases hp
  refine ⟨_, rfl, ?_⟩
  simp [Level.extend, Stmt.takes, selectCmd, hrow]

theorem afterSelect_unmarked {q : Queue R} {notifyCmd : Option Key} {does : R → Does R X}
    {result : Result R} (hmark : w.mark = none)
    (h : ∀ r row, result = .ok r → r.row = some row →
      ∃ now, w.session = .inTransaction now [] ∧ row ∈ now.locks) :
    cfg.Wp (afterSelect q notifyCmd does result) (fun _ w => w.mark = none) w := by
  rcases result with f | ⟨status, row, value⟩
  · exact hmark
  · change cfg.Wp (if status = .tuplesOk then _ else _) _ w
    split
    · rcases row with _ | queueCmd
      · rcases notifyCmd with _ | key
        · refine Setup.any_exec hmark fun result w hmark => ?_
          cases result <;> exact hmark
        · exact hmark
      · obtain ⟨now, hs, hrow⟩ := h _ queueCmd rfl rfl
        exact Prog.wp_bind (runQueueCmd_unmarked hs hrow hmark) fun _ w hmark => hmark
    · exact hmark

/-! ## A whole iteration -/

def Rests (next : Next) (w : World R X) : Prop :=
  w.mark = none ∧ (next = .leave ∨ Resting w.session)

/-- Whatever the session was, its transaction ends. -/
theorem Setup.finish {ctl : Control} (hctl : ctl = .rollback ∨ ctl = .commit)
    (hmark : w.mark = none)
    (hk : ∀ result w', w'.mark = none → Resting w'.session → cfg.Wp (k result) post w') :
    cfg.Wp (exec (command ctl) >>= k) post w := by
  obtain ⟨s, committed, m⟩ := w
  refine exec_session (P := Resting) (guards_of_none hmark) ?_ ?_ (fun _ => .inr rfl)
    fun result w' hmark' => hk result w' (hmark'.trans hmark)
  · intro r s' c _ hp
    rcases s with _ | ⟨now, saved⟩ | saved | _ <;> rcases hctl with rfl | rfl <;> cases hp <;>
      exact .inl rfl
  · intro f ended hmay hlive
    rcases hctl with rfl | rfl
    · have hrefused := control_of_may hmay (by decide)
      rcases s with _ | ⟨now, saved⟩ | saved | _ <;> first | exact absurd rfl hlive | cases hrefused
    · rcases commit_of_may hmay with rfl | hrefused
      · rcases s with _ | ⟨now, saved⟩ | saved | _ <;> first | exact .inl rfl | exact absurd rfl hlive
      · rcases s with _ | ⟨now, saved⟩ | saved | _ <;> first | exact absurd rfl hlive | cases hrefused

theorem endTransaction_rests (hmark : w.mark = none) : cfg.Wp endTransaction Rests w := by
  refine Prog.wp_status (guards_of_none hmark) ?_
  rcases hs : w.session with _ | ⟨now, saved⟩ | saved | _
  · exact Setup.finish (.inr rfl) hmark fun _ w hmark h => ⟨hmark, .inr h⟩
  · exact Setup.finish (.inr rfl) hmark fun _ w hmark h => ⟨hmark, .inr h⟩
  · exact Setup.finish (.inl rfl) hmark fun _ w hmark h => ⟨hmark, .inr h⟩
  · exact ⟨hmark, .inr (.inr hs)⟩

theorem iteration_rests {q : Queue R} {notifyCmd : Option Key} {does : R → Does R X}
    (h : Resting w.session) (hmark : w.mark = none) :
    cfg.Wp (iteration q notifyCmd does) Rests w := by
  refine Setup.begin h hmark fun _ w hmark h => Setup.select h hmark fun result w hmark h => ?_
  refine Prog.wp_bind (afterSelect_unmarked hmark h) fun stays w hmark => ?_
  cases stays
  · exact ⟨hmark, .inl rfl⟩
  · exact endTransaction_rests hmark

theorem runnerSessionStart_rests (h : Resting w.session) (hmark : w.mark = none) :
    cfg.Wp runnerSessionStart Rests w := by
  obtain ⟨s, committed, m⟩ := w
  refine Setup.exec_session (P := Resting) (guards_of_none hmark) ?_ ?_ (fun _ => .inr rfl)
    fun _ w' hmark' h => ⟨hmark'.trans hmark, .inr h⟩
  · intro r s' c _ hp
    rcases h with rfl | rfl <;> cases hp
    exact .inl rfl
  · intro f ended _ hlive
    rcases h with rfl | rfl
    · exact .inl rfl
    · exact absurd rfl hlive

end

/-! ## The sessions together -/

/-- A row is inserted once. `history` is what all sessions have committed. -/
structure Machine (ι R X : Type) where
  workers : ι → Worker R X
  rows : List R := []
  inserted : List R := []
  history : List (Change (Effect R X) R) := []

inductive Event (ι R X : Type) where
  | insert (row : R)
  | remove (row : R)
  | worker (i : ι) (e : WorkerEvent R X)

namespace Machine

variable {ι : Type}

def start : Machine ι R X where
  workers _ := Worker.start

def locks (m : Machine ι R X) (i : ι) : List R := (m.workers i).session.locks

/-- The row is in the table, and no other session has it locked. -/
def Free (m : Machine ι R X) (i : ι) (row : R) : Prop :=
  row ∈ m.rows ∧ ∀ j, j ≠ i → row ∉ m.locks j

/-- SKIP LOCKED passes over the rows that are not free, and an UPDATE waits for them. A row that
the transaction has deleted is not seen by it again. -/
def Grants (cfg : Setup R) (m : Machine ι R X) (i : ι) (stmt : Stmt R X) (o : Outcome R) : Prop :=
  cfg.may (m.workers i).session stmt o = true ∧ (∀ row ∈ stmt.taken o, m.Free i row) ∧
    (cfg.deletes = true → (m.workers i).session.WritesAnew stmt o)

section

variable [DecidableEq R]

/-- Worker `i` makes its step and is `w` then. -/
def put [DecidableEq ι] (cfg : Setup R) (m : Machine ι R X) (i : ι) (e : WorkerEvent R X)
    (w : Worker R X) : Machine ι R X :=
  { m with
    workers := Function.update m.workers i w
    rows :=
      if cfg.deletes then m.rows.filter (· ∉ written ((m.workers i).commits e)) else m.rows
    history := m.history ++ (m.workers i).commits e }

variable [DecidableEq ι] [Fintype ι]

instance (m : Machine ι R X) (i : ι) (row : R) : Decidable (m.Free i row) :=
  inferInstanceAs (Decidable (_ ∧ _))

instance (cfg : Setup R) (m : Machine ι R X) (i : ι) (stmt : Stmt R X) (o : Outcome R) :
    Decidable (m.Grants cfg i stmt o) := inferInstanceAs (Decidable (_ ∧ _ ∧ _))

/-- Clients insert rows, and they can remove one that no session has locked. -/
def step (cfg : Setup R) (m : Machine ι R X) : Event ι R X → Option (Machine ι R X)
  | .insert row =>
    if row ∈ m.inserted then none
    else some { m with rows := row :: m.rows, inserted := row :: m.inserted }
  | .remove row =>
    if ∃ i, row ∈ m.locks i then none else some { m with rows := m.rows.filter (· ≠ row) }
  | .worker i e =>
    if ∀ p ∈ (m.workers i).answered e, m.Grants cfg i p.1 p.2 then
      ((m.workers i).step cfg.queue e).map (m.put cfg i e)
    else none

def Step (cfg : Setup R) (m : Machine ι R X) (e : Event ι R X) (m' : Machine ι R X) : Prop :=
  m.step cfg e = some m'

end

/-! ## What holds in every state -/

section

variable {cfg : Setup R} {m m' : Machine ι R X} {i : ι} {row : R} {e : WorkerEvent R X}
  {w : Worker R X}

structure Inv (cfg : Setup R) (m : Machine ι R X) : Prop where
  rests : ∀ i, (m.workers i).Sound (fun s stmt o => cfg.may s stmt o = true)
    (fun _ => cfg.Guards) (fun _ => Rests)
  guarded : ∀ i, (m.workers i).session.Guarded
  present : ∀ i, ∀ row ∈ m.locks i, row ∈ m.rows
  apart : ∀ i j row, row ∈ m.locks i → row ∈ m.locks j → i = j
  known : ∀ row ∈ m.rows, row ∈ m.inserted
  distinct : cfg.deletes = true → ∀ i, (m.workers i).session.Distinct
  once : cfg.deletes = true → (written m.history).Nodup
  gone : cfg.deletes = true → ∀ row ∈ written m.history, row ∈ m.inserted ∧ row ∉ m.rows

theorem start_inv : Inv cfg (start : Machine ι R X) where
  rests _ := ⟨rfl, .inr (.inr rfl)⟩
  guarded _ _ hlevel := by cases hlevel
  present _ _ hrow := by cases hrow
  apart _ _ _ hrow := by cases hrow
  known _ hrow := by cases hrow
  distinct _ _ _ hlevel := by cases hlevel
  once _ := List.nodup_nil
  gone _ _ hrow := by cases hrow

theorem Inv.free (h : Inv cfg m) (hrow : row ∈ m.locks i) : m.Free i row :=
  ⟨h.present i row hrow, fun j hne hj => hne (h.apart j i row hj hrow)⟩

theorem Inv.insert (h : Inv cfg m) (hrow : row ∉ m.inserted) :
    Inv cfg { m with rows := row :: m.rows, inserted := row :: m.inserted } := by
  refine { h with present := ?_, known := ?_, gone := ?_ }
  · exact fun i row' hlock => List.mem_cons_of_mem _ (h.present i row' hlock)
  · intro row' hmem
    rcases List.mem_cons.mp hmem with rfl | hold
    · exact List.mem_cons_self
    · exact List.mem_cons_of_mem _ (h.known row' hold)
  · intro hdeletes row' hwritten
    obtain ⟨hinserted, hgone⟩ := h.gone hdeletes row' hwritten
    refine ⟨List.mem_cons_of_mem _ hinserted, fun hmem => ?_⟩
    rcases List.mem_cons.mp hmem with rfl | hold
    · exact hrow hinserted
    · exact hgone hold

theorem Inv.remove [DecidableEq R] (h : Inv cfg m) (hrow : ∀ i, row ∉ m.locks i) :
    Inv cfg { m with rows := m.rows.filter (· ≠ row) } := by
  refine { h with present := ?_, known := ?_, gone := ?_ }
  · intro i row' hlock
    refine List.mem_filter.mpr ⟨h.present i row' hlock, ?_⟩
    rw [decide_eq_true_eq]
    rintro rfl
    exact hrow i hlock
  · exact fun row' hmem => h.known row' (List.mem_filter.mp hmem).1
  · intro hdeletes row' hwritten
    obtain ⟨hinserted, hgone⟩ := h.gone hdeletes row' hwritten
    exact ⟨hinserted, fun hmem => hgone (List.mem_filter.mp hmem).1⟩

/-- What the step of one worker does to its session and to the table. -/
structure StepOf (cfg : Setup R) (m : Machine ι R X) (i : ι) (e : WorkerEvent R X)
    (w : Worker R X) : Prop where
  guarded : w.session.Guarded
  locks : ∀ row ∈ w.session.locks, m.Free i row
  commits : ∀ row ∈ written ((m.workers i).commits e), m.Free i row ∧ w.session.locks = []
  distinct : cfg.deletes = true → w.session.Distinct
  once : cfg.deletes = true → (written ((m.workers i).commits e)).Nodup

theorem Inv.stepOf (h : Inv cfg m)
    (hgrants : ∀ p ∈ (m.workers i).answered e, m.Grants cfg i p.1 p.2)
    (hstep : (m.workers i).step cfg.queue e = some w) : StepOf cfg m i e w := by
  rcases Worker.session_of_step hstep with
    ⟨stmt, o, x, hanswered, hx, hsession, hcommits⟩ | ⟨-, hcommits, hsession⟩
  · obtain ⟨-, htaken, hanew⟩ := hgrants (stmt, o) hanswered
    have hfree : ∀ row, row ∈ m.locks i ∨ row ∈ stmt.taken o → m.Free i row := fun row hrow =>
      hrow.elim h.free (htaken row)
    constructor
    · rw [hsession]
      exact (h.guarded i).exec hx
    · intro row hrow
      rw [hsession] at hrow
      exact hfree row (Session.locks_of_exec hx hrow)
    · intro row hrow
      rw [hcommits] at hrow
      obtain ⟨hlevels, hlocked⟩ := (h.guarded i).committed hx hrow
      rw [hsession]
      exact ⟨hfree row hlocked, Session.locks_of_levels hlevels⟩
    · intro hdeletes
      rw [hsession]
      exact (h.distinct hdeletes i).exec (hanew hdeletes) hx
    · intro hdeletes
      rw [hcommits]
      exact (h.distinct hdeletes i).committed (hanew hdeletes) hx
  · have hlevels : ∀ level ∈ w.session.levels, level ∈ (m.workers i).session.levels := by
      intro level hlevel
      rcases hsession with hsession | hsession <;> rw [hsession] at hlevel
      · exact hlevel
      · cases hlevel
    constructor
    · exact fun level hlevel => h.guarded i level (hlevels level hlevel)
    · intro row hrow
      obtain ⟨level, hlevel, hlock⟩ := Session.mem_locks.mp hrow
      exact h.free (Session.mem_locks.mpr ⟨level, hlevels level hlevel, hlock⟩)
    · intro row hrow
      rw [hcommits] at hrow
      cases hrow
    · exact fun hdeletes level hlevel => h.distinct hdeletes i level (hlevels level hlevel)
    · intro hdeletes
      rw [hcommits]
      exact List.nodup_nil

theorem put_workers [DecidableEq R] [DecidableEq ι] (P : Worker R X → Prop) (hw : P w)
    (hm : ∀ j, P (m.workers j)) (j : ι) : P ((m.put cfg i e w).workers j) := by
  by_cases hj : j = i
  · rw [hj]
    change P (Function.update m.workers i w i)
    rwa [Function.update_self]
  · change P (Function.update m.workers i w j)
    rw [Function.update_of_ne hj]
    exact hm j

theorem put_locks [DecidableEq R] [DecidableEq ι] {j : ι} (hrow : row ∈ (m.put cfg i e w).locks j) :
    (j = i ∧ row ∈ w.session.locks) ∨ (j ≠ i ∧ row ∈ m.locks j) := by
  change row ∈ (Function.update m.workers i w j).session.locks at hrow
  by_cases hj : j = i
  · rw [hj, Function.update_self] at hrow
    exact .inl ⟨hj, hrow⟩
  · rw [Function.update_of_ne hj] at hrow
    exact .inr ⟨hj, hrow⟩

theorem put_rows [DecidableEq R] [DecidableEq ι] :
    row ∈ (m.put cfg i e w).rows ↔ row ∈ m.rows ∧
      (cfg.deletes = true → row ∉ written ((m.workers i).commits e)) := by
  change row ∈ (if cfg.deletes then _ else _) ↔ _
  split <;> rename_i hdeletes <;> simp [hdeletes]

/-- A step of one worker. What it locks and commits was free for it. -/
theorem Inv.put [DecidableEq R] [DecidableEq ι] (h : Inv cfg m) (hw : StepOf cfg m i e w)
    (hrests : w.Sound (fun s stmt o => cfg.may s stmt o = true) (fun _ => cfg.Guards)
      (fun _ => Rests)) : Inv cfg (m.put cfg i e w) := by
  have hhistory : written (m.put cfg i e w).history =
      written m.history ++ written ((m.workers i).commits e) := written_append ..
  constructor
  · exact put_workers _ hrests h.rests
  · exact put_workers (·.session.Guarded) hw.guarded h.guarded
  · intro j row hrow
    refine put_rows.mpr ?_
    rcases put_locks hrow with ⟨_, hlock⟩ | ⟨hj, hlock⟩
    · refine ⟨(hw.locks row hlock).1, fun _ hcommitted => ?_⟩
      rw [(hw.commits row hcommitted).2] at hlock
      cases hlock
    · refine ⟨h.present j row hlock, fun _ hcommitted => ?_⟩
      exact (hw.commits row hcommitted).1.2 j hj hlock
  · intro j k row hrow hrow'
    rcases put_locks hrow with ⟨rfl, hlock⟩ | ⟨hj, hlock⟩ <;>
      rcases put_locks hrow' with ⟨rfl, hlock'⟩ | ⟨hk, hlock'⟩
    · rfl
    · exact absurd hlock' ((hw.locks row hlock).2 k hk)
    · exact absurd hlock ((hw.locks row hlock').2 j hj)
    · exact h.apart j k row hlock hlock'
  · exact fun row hrow => h.known row (put_rows.mp hrow).1
  · exact fun hdeletes => put_workers (·.session.Distinct) (hw.distinct hdeletes) (h.distinct hdeletes)
  · intro hdeletes
    rw [hhistory]
    refine List.nodup_append.mpr ⟨h.once hdeletes, hw.once hdeletes, ?_⟩
    rintro row hold _ hnew rfl
    exact (h.gone hdeletes row hold).2 (hw.commits row hnew).1.1
  · intro hdeletes row hrow
    rw [hhistory] at hrow
    rcases List.mem_append.mp hrow with hold | hnew
    · obtain ⟨hinserted, hgone⟩ := h.gone hdeletes row hold
      exact ⟨hinserted, fun hmem => hgone (put_rows.mp hmem).1⟩
    · refine ⟨h.known row (hw.commits row hnew).1.1, fun hmem => ?_⟩
      exact (put_rows.mp hmem).2 hdeletes hnew

theorem Inv.worker_rests (h : Inv cfg m)
    (hgrants : ∀ p ∈ (m.workers i).answered e, m.Grants cfg i p.1 p.2)
    (hstep : (m.workers i).step cfg.queue e = some w) :
    w.Sound (fun s stmt o => cfg.may s stmt o = true) (fun _ => cfg.Guards) (fun _ => Rests) := by
  refine (h.rests i).step (fun stmt o hanswered => (hgrants (stmt, o) hanswered).1) hstep
    ?_ ?_ ?_ ?_ ?_
  · rintro world fresh ⟨hmark, hrests⟩
    refine runnerSessionStart_rests ?_ hmark
    cases fresh
    · exact hrests.resolve_left (by decide)
    · exact .inl rfl
  · rintro world next notifyCmd does hnext ⟨hmark, hrests⟩
    refine iteration_rests (w := { world with committed := [] }) (hrests.resolve_left ?_) hmark
    rcases hnext with rfl | rfl <;> decide
  · rintro world ⟨hmark, hrests⟩
    exact ⟨hmark, .inr (hrests.resolve_left (by decide))⟩
  · exact fun world next h => ⟨h.1, .inl rfl⟩
  · exact fun world h => ⟨h.1, .inl rfl⟩

variable [DecidableEq R] [DecidableEq ι] [Fintype ι]

theorem step_inv {ev : Event ι R X} (h : Inv cfg m) (hstep : m.step cfg ev = some m') :
    Inv cfg m' := by
  cases ev with
  | insert row =>
    simp only [step] at hstep
    split at hstep
    · cases hstep
    · cases hstep
      rename_i hrow
      exact h.insert hrow
  | remove row =>
    simp only [step] at hstep
    split at hstep
    · cases hstep
    · cases hstep
      rename_i hlocked
      exact h.remove fun i hlock => hlocked ⟨i, hlock⟩
  | worker i e =>
    simp only [step] at hstep
    split at hstep
    · rename_i hgrants
      obtain ⟨w, hw, rfl⟩ := Option.map_eq_some_iff.mp hstep
      exact h.put (h.stepOf hgrants hw) (h.worker_rests hgrants hw)
    · cases hstep

theorem run_inv {tr : List (Event ι R X)} (h : Transition.Run (Step cfg) start tr m) :
    Inv cfg m :=
  h.invariant_state start_inv fun _ _ _ => step_inv

/-! ## Mutual exclusion -/

/-- The session is in `run_cmd` for the row. One that has lost its connection no longer is. -/
def Runs (cfg : Setup R) (m : Machine ι R X) (i : ι) (row : R) : Prop :=
  (m.workers i).running = some row ∧
    ¬(cfg.connectionsBreak = true ∧ (m.workers i).session = .lost)

/-- The change is an UPDATE that has found the row. -/
def updates (row : R) (c : Change (Effect R X) R) : Bool :=
  match c.what with
  | .update _ _ => row ∈ c.writes
  | .ofCmd _ => false

omit [DecidableEq ι] [Fintype ι] in
theorem countP_updates_le (cs : List (Change (Effect R X) R)) (row : R) :
    cs.countP (updates row) ≤ (written cs).count row := by
  induction cs with
  | nil => exact le_rfl
  | cons c cs ih =>
    rw [List.countP_cons, written, List.flatMap_cons, List.count_append]
    have hhead : (if updates row c = true then 1 else 0) ≤ c.writes.count row := by
      split
      · rename_i hupdates
        unfold updates at hupdates
        split at hupdates
        · exact List.one_le_count_iff.mpr (of_decide_eq_true hupdates)
        · cases hupdates
      · exact Nat.zero_le _
    rw [Nat.add_comm]
    exact Nat.add_le_add hhead ih

omit [DecidableEq R] [DecidableEq ι] [Fintype ι] in
theorem Inv.locked (h : Inv cfg m) (hruns : m.Runs cfg i row) : row ∈ m.locks i := by
  obtain ⟨hrunning, hlive⟩ := hruns
  rcases Prog.wp_now (h.rests i) with hguards | ⟨next, _, hmark, _⟩
  · exact (hguards row hrunning).resolve_right hlive
  · rw [Worker.running, hmark] at hrunning
    cases hrunning

omit [DecidableEq R] [DecidableEq ι] [Fintype ι] in
theorem Inv.unlocked (h : Inv cfg m) (hpolls : (m.workers i).polls = true) : m.locks i = [] := by
  have hrests := h.rests i
  unfold Worker.polls at hpolls
  split at hpolls
  · rename_i hprog
    unfold Worker.Sound at hrests
    rw [hprog] at hrests
    exact (hrests.2.resolve_left (by decide)).locks
  · cases hpolls

/-- A session that runs a row has it locked, so that no two sessions run the same one; none has a
lock in `poll()`; and a row that is deleted when it is updated is updated once. -/
theorem runs_exclusively {tr : List (Event ι R X)}
    (h : Transition.Run (Step cfg) start tr m) :
    (∀ i row, m.Runs cfg i row → row ∈ m.locks i) ∧
    (∀ i j row, m.Runs cfg i row → m.Runs cfg j row → i = j) ∧
    (∀ i, (m.workers i).polls = true → m.locks i = []) ∧
    (cfg.deletes = true → ∀ row, m.history.countP (updates row) ≤ 1) := by
  have hinv := run_inv h
  refine ⟨fun _ _ => hinv.locked, ?_, fun _ => hinv.unlocked, fun hdeletes row => ?_⟩
  · intro i j row hi hj
    exact hinv.apart i j row (hinv.locked hi) (hinv.locked hj)
  · calc m.history.countP (updates row)
        ≤ (written m.history).count row := countP_updates_le m.history row
      _ ≤ 1 := List.nodup_iff_count_le_one.mp (hinv.once hdeletes) row

def answered (i : Bool) (status : ExecStatus) (row : Option Nat) : Event Bool Nat Unit :=
  .worker i (.label (.outcome (.done { status := status, row := row })))

/-- One session runs the only row while the other one finds nothing and goes on to `poll()`. -/
def twoRunners : List (Event Bool Nat Unit) :=
  [.insert 0, .worker false (.connect true), answered false .commandOk none,
    .worker true (.connect true), answered true .commandOk none,
    .worker false (.iterate none fun _ => {}), answered false .commandOk none,
    answered false .tuplesOk (some 0), .worker false (.label .go),
    .worker true (.iterate none fun _ => {}), answered true .commandOk none,
    answered true .tuplesOk none, answered true .tuplesOk none, .worker true (.label .go),
    answered true .commandOk none]

def sqlQueue : Setup Nat where
  queue := { cmdClass := .sql, keyOf := fun _ => ([], none) }
  deletes := true
  connectionsBreak := false

theorem runs_exclusively_twoRunners : ∃ m : Machine Bool Nat Unit,
    m.Runs sqlQueue false 0 ∧ 0 ∈ m.locks false ∧ ¬m.Runs sqlQueue true 0 ∧
      (m.workers true).polls = true ∧ m.locks true = [] ∧ m.history.countP (updates 0) ≤ 1 := by
  have hlast : (twoRunners.foldlM (step sqlQueue) start).any
      (fun m => (m.workers false).running = some 0 ∧ (m.workers true).polls = true) = true := by
    decide +kernel
  obtain ⟨m, hm, hstate⟩ := (Option.any_eq_true _ _).mp hlast
  obtain ⟨hrunning, hpolls⟩ := of_decide_eq_true hstate
  obtain ⟨hlocked, happart, hunlocked, honce⟩ := runs_exclusively (Transition.Run.of_foldlM hm)
  have hruns : m.Runs sqlQueue false 0 := ⟨hrunning, fun h => by simp [sqlQueue] at h⟩
  refine ⟨m, hruns, hlocked _ _ hruns, fun hother => ?_, hpolls, hunlocked _ hpolls, honce rfl 0⟩
  cases happart _ _ _ hruns hother

end

end Machine

end PgCmdQueue.Runner.Iteration
