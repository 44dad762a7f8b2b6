import PgCmdQueue.Lib.Run
import PgCmdQueue.Runner.Iteration

/-!
# What an iteration of an SQL queue commits

The effects of a command and the UPDATE of its row stand or fall together, whichever statement
fails.
-/

namespace PgCmdQueue.Runner.Iteration

open Transaction

variable {R X : Type} {q : Queue R} {does : R → Does R X} {d : Does R X} {queueCmd : R}

/-! ## The three ends -/

def okStatuses : List String := [pqResStatus .commandOk, pqResStatus .tuplesOk]

/-- The UPDATE of the queue, and the row that it found. -/
def updated (queueCmd : R) (status : String) (fatalError : Option ErrorFields)
    (found : List R) : Change (Effect R X) R where
  what := .update queueCmd (.sql status fatalError)
  writes := found

/-- All of the effects of a command. -/
def Does.all (d : Does R X) : List (Change (Effect R X) R) := ofCmd d.effects ++ ofCmd d.deferred

inductive Atomic (does : R → Does R X) : List (Change (Effect R X) R) → Prop
  | nothing : Atomic does []
  | succeeded (queueCmd : R) (status : String) (found : List R) : status ∈ okStatuses →
      Atomic does ((does queueCmd).all ++ [updated queueCmd status none found])
  | failed (queueCmd : R) (status : String) (fields : ErrorFields) (found : List R) :
      status ∉ okStatuses → Atomic does [updated queueCmd status (some fields) found]

theorem Atomic.of_nil {cs : List (Change (Effect R X) R)} (h : cs = []) : Atomic does cs := by
  rw [h]
  exact .nothing

/-! ## The command after `run_cmd` -/

def SqlRun.Good (c : SqlRun) : Prop :=
  c.cmdSqlResultStatus ∈ okStatuses ∧ c.cmdSqlFatalError = none

def SqlRun.Bad (c : SqlRun) : Prop :=
  c.cmdSqlResultStatus ∉ okStatuses ∧ c.cmdSqlFatalError.isSome

theorem pqResStatus_mem_okStatuses {st : ExecStatus} :
    pqResStatus st ∈ okStatuses ↔ st = .commandOk ∨ st = .tuplesOk := by
  cases st <;> simp [okStatuses, pqResStatus]

theorem Failure.not_ok (f : Failure) : pqResStatus f.status ∉ okStatuses := by
  rw [pqResStatus_mem_okStatuses]
  rcases f.failed with h | h <;> rw [h] <;> decide

/-- How far the command has come when `done` is in the transaction. In the second case the
savepoint is still there, or the connection is lost. -/
inductive Stage (done : List (Change (Effect R X) R)) (c : SqlRun) : Session R X → Prop
  | refused (s : Session R X) : c.sqlBookkeepingHasFailed = true → c.Bad → s.levels = [] →
      Stage done c s
  | failed (s : Session R X) (saved : Level (Effect R X) R) :
      c.sqlBookkeepingHasFailed = false → c.sqlCmdItselfHasFailed = true → c.Bad →
      saved.pending = [] →
      (s = .lost ∨ s = .inError [saved] ∨ ∃ now, s = .inTransaction now [saved]) →
      Stage done c s
  | good (now saved : Level (Effect R X) R) :
      c.sqlBookkeepingHasFailed = false → c.sqlCmdItselfHasFailed = false → c.Good →
      now.pending = done → saved.pending = [] →
      Stage done c (.inTransaction now [saved])

/-- What an UPDATE finds after `run_cmd`. -/
structure Ready (d : Does R X) (c : SqlRun) (s : Session R X) : Prop where
  idle : s = .idle → c.Bad
  now : ∀ now saved, s = .inTransaction now saved →
    (c.Good ∧ now.pending = d.all) ∨ (c.Bad ∧ now.pending = [])
  savepoints : ∀ level ∈ s.savepoints, level.pending = []

/-! ## Statements that change nothing -/

abbrev anyOutcome (_ : Session R X) (_ : Stmt R X) (_ : Outcome R) : Prop := True

/-- At any time what is committed is one of the three ends. -/
abbrev Wp {α : Type} (does : R → Does R X) (p : Prog R X α) (post : α → World R X → Prop)
    (w : World R X) : Prop :=
  p.wp anyOutcome (fun w => Atomic does w.committed) post w

/-- The open transaction may be committed as it is, when nothing is committed so far. -/
structure Settled (does : R → Does R X) (w : World R X) : Prop where
  committed : Atomic does w.committed
  now : ∀ now saved, w.session = .inTransaction now saved →
    w.committed = [] ∧ Atomic does now.pending
  savepoints : ∀ level ∈ w.session.savepoints, level.pending = []

/-- No transaction is open, though a failed one may be. -/
structure Closed (s : Session R X) : Prop where
  noTransaction : ∀ now saved, s ≠ .inTransaction now saved
  savepoints : ∀ level ∈ s.savepoints, level.pending = []

/-- Without a level there is neither a transaction nor a savepoint. -/
theorem Closed.of_levels {s : Session R X} (hs : s.levels = []) : Closed s := by
  rcases s with _ | ⟨now, saved⟩ | saved | _
  · exact ⟨by simp, by simp [Session.savepoints]⟩
  · cases hs
  · obtain rfl : saved = [] := hs
    exact ⟨by simp, by simp [Session.savepoints]⟩
  · exact ⟨by simp, by simp [Session.savepoints]⟩

/-- After an error only the savepoints are left. -/
theorem Closed.of_fails {s : Session R X} (h : ∀ level ∈ s.savepoints, level.pending = [])
    (ended : Bool) : Closed (s.fails ended) := by
  refine ⟨?_, ?_⟩
  · intro now saved hs
    rcases s with _ | ⟨now, saved⟩ | saved | _ <;> cases ended <;> cases hs
  · intro level hlevel
    rcases s with _ | ⟨now, saved⟩ | saved | _ <;> cases ended <;>
      first | exact h level hlevel | cases hlevel

variable {w : World R X} {c : SqlRun} {done : List (Change (Effect R X) R)} {α : Type}
  {k : Result R → Prog R X α} {post : α → World R X → Prop}

theorem Closed.settled (h : Closed w.session) (hcommitted : Atomic does w.committed) :
    Settled does w where
  committed := hcommitted
  now now saved hs := absurd hs (h.noTransaction now saved)
  savepoints := h.savepoints

theorem Settled.fails (h : Settled does w) (ended : Bool) :
    Settled does { w with session := w.session.fails ended } :=
  (Closed.of_fails h.savepoints ended).settled h.committed

theorem Settled.performs_query (h : Settled does w) {rows : List R} {s : Session R X}
    {changed : List (Change (Effect R X) R)} (hp : w.session.query [] rows = some (s, changed)) :
    Settled does { w with session := s, committed := w.committed ++ changed } := by
  obtain ⟨s, committed, m⟩ := w
  rcases s with _ | ⟨now, saved⟩ | saved | _ <;> cases hp <;> rw [List.append_nil]
  · exact h
  · refine ⟨h.committed, ?_, h.savepoints⟩
    rintro now' saved' hs
    cases hs
    rw [Level.extend, List.append_nil]
    exact h.now now saved rfl

theorem Settled.query {replies : Reply R → Bool} {forUpdate : Reply R → List R}
    (h : Settled does w)
    (hk : ∀ result w', Settled does w' → Wp does (k result) post w') :
    Wp does (exec (.query replies (fun _ => []) forUpdate) >>= k) post w := by
  refine Prog.wp_exec_any h.committed (fun r s c _ hp => h.performs_query hp) h.fails ?_ hk
  rintro c (rfl | ⟨r, s, _, hp⟩)
  · rw [List.append_nil]
    exact (Closed.of_levels rfl).settled h.committed
  · exact (Closed.of_levels rfl).settled (h.performs_query hp).committed

/-- ROLLBACK and COMMIT. -/
def Finishes (ctl : Control) : Prop := ctl = .rollback ∨ ctl = .commit

theorem Settled.performs_finish (h : Settled does w) {ctl : Control}
    (hctl : Finishes ctl) {s : Session R X} {changed : List (Change (Effect R X) R)}
    (hp : w.session.control ctl = some (s, changed)) :
    s = .idle ∧ Atomic does (w.committed ++ changed) := by
  obtain ⟨s, committed, m⟩ := w
  rcases hctl with rfl | rfl <;> rcases s with _ | ⟨now, saved⟩ | saved | _ <;> cases hp
  case inr.inTransaction =>
    obtain ⟨rfl, hpending⟩ := h.now now saved rfl
    exact ⟨rfl, hpending⟩
  all_goals exact ⟨rfl, by rw [List.append_nil]; exact h.committed⟩

theorem Settled.finish {ctl : Control} (h : Settled does w) (hctl : Finishes ctl)
    (hk : ∀ result w', Settled does w' → Closed w'.session → Wp does (k result) post w') :
    Wp does (exec (command ctl) >>= k) post w := by
  refine Prog.wp_exec_any (P := fun w => Settled does w ∧ Closed w.session) h.committed ?_ ?_ ?_
    fun result w' hw' => hk result w' hw'.1 hw'.2
  · intro r s c _ hp
    obtain ⟨rfl, hcommitted⟩ := h.performs_finish hctl hp
    exact ⟨(Closed.of_levels rfl).settled hcommitted, .of_levels rfl⟩
  · intro ended
    exact ⟨h.fails ended, .of_fails h.savepoints ended⟩
  · intro c hc
    refine ⟨(Closed.of_levels rfl).settled ?_, .of_levels rfl⟩
    rcases hc with rfl | ⟨r, s, _, hp⟩
    · rw [List.append_nil]
      exact h.committed
    · exact (h.performs_finish hctl hp).2

/-! ## run_cmd, block by block -/

theorem Failure.not_commandOk (f : Failure) : resultStatus (.error f : Result R) ≠ .commandOk := by
  rcases f.failed with h | h <;> simp [resultStatus, h]

theorem Failure.not_tuplesOk (f : Failure) : resultStatus (.error f : Result R) ≠ .tuplesOk := by
  rcases f.failed with h | h <;> simp [resultStatus, h]

theorem savepoint_stage (hcommitted : w.committed = [])
    (hs : w.session = .idle ∨ ∃ now, w.session = .inTransaction now [] ∧ now.pending = []) :
    Wp does (SqlRun.savepoint {}) (fun c w => w.committed = [] ∧
      ((∃ now, c = {} ∧ w.session = .inTransaction now [now] ∧ now.pending = []) ∨
        Stage [] c w.session ∧ c.sqlBookkeepingHasFailed = true)) w := by
  obtain ⟨s, committed, m⟩ := w
  subst hcommitted
  refine Prog.wp_exec_open .nothing rfl (fun r s' c hp => ?_) (fun r s' hr hp => ?_)
    (fun f s' hs' => ?_)
  · rcases hs with rfl | ⟨now, rfl, hnow⟩ <;> cases hp
    rfl
  · rcases hs with rfl | ⟨now, rfl, hnow⟩ <;> cases hp
    have hstatus : resultStatus (.ok r) = .commandOk := of_decide_eq_true hr
    rw [if_pos hstatus]
    exact ⟨rfl, .inl ⟨now, rfl, rfl, hnow⟩⟩
  · rw [if_neg f.not_commandOk]
    refine ⟨rfl, .inr ⟨.refused _ rfl ⟨f.not_ok, rfl⟩ ?_, rfl⟩⟩
    rcases hs' with rfl | rfl
    · rfl
    · rcases hs with rfl | ⟨now, rfl, hnow⟩ <;> rfl

theorem Stage.of_bookkeeping {done' : List (Change (Effect R X) R)} {s : Session R X}
    (h : Stage done c s) (hbookkeeping : c.sqlBookkeepingHasFailed = true) : Stage done' c s := by
  cases h with
  | refused _ hfailed hbad hlevels => exact .refused s hfailed hbad hlevels
  | failed _ _ hfailed => simp [hfailed] at hbookkeeping
  | good _ _ hfailed => simp [hfailed] at hbookkeeping

theorem execCmdSql_stage (hcommitted : w.committed = [])
    (h : (∃ now, c = {} ∧ w.session = .inTransaction now [now] ∧ now.pending = []) ∨
      Stage [] c w.session ∧ c.sqlBookkeepingHasFailed = true) :
    Wp does (SqlRun.execCmdSql d c)
      (fun c w => w.committed = [] ∧ Stage (ofCmd d.effects) c w.session) w := by
  obtain ⟨s, committed, m⟩ := w
  subst hcommitted
  unfold SqlRun.execCmdSql
  rcases h with ⟨now, rfl, rfl, hnow⟩ | ⟨hstage, hbookkeeping⟩
  · rw [if_neg (by simp)]
    refine Prog.wp_exec_open .nothing rfl (fun r s' c hp => ?_) (fun r s' hr hp => ?_)
      (fun f s' hs' => ?_)
    · cases hp
      rfl
    · cases hp
      have hpending : (now.extend (ofCmd d.effects) ((cmdSql d).takes r)).pending =
          ofCmd d.effects := by rw [Level.extend, hnow, List.nil_append]
      by_cases htuples : resultStatus (.ok r : Result R) = .tuplesOk
      · rw [if_pos htuples]
        refine ⟨rfl, .good _ _ rfl rfl ⟨?_, rfl⟩ hpending hnow⟩
        exact pqResStatus_mem_okStatuses.mpr (.inr htuples)
      rw [if_neg htuples]
      by_cases hcommand : resultStatus (.ok r : Result R) = .commandOk
      · rw [if_pos hcommand]
        refine ⟨rfl, .good _ _ rfl rfl ⟨?_, rfl⟩ hpending hnow⟩
        exact pqResStatus_mem_okStatuses.mpr (.inl hcommand)
      · rw [if_neg hcommand]
        refine ⟨rfl, .failed _ now rfl rfl ⟨?_, rfl⟩ hnow (.inr (.inr ⟨_, rfl⟩))⟩
        exact fun hok => (pqResStatus_mem_okStatuses.mp hok).elim hcommand htuples
    · rw [if_neg f.not_tuplesOk, if_neg f.not_commandOk]
      refine ⟨rfl, .failed _ now rfl rfl ⟨f.not_ok, rfl⟩ hnow ?_⟩
      exact hs'.imp_right .inl
  · rw [if_pos hbookkeeping]
    exact ⟨rfl, hstage.of_bookkeeping hbookkeeping⟩

theorem fireConstraints_stage (hcommitted : w.committed = [])
    (h : Stage (ofCmd d.effects) c w.session) :
    Wp does (SqlRun.fireConstraints d c) (fun c w => w.committed = [] ∧ Stage d.all c w.session)
      w := by
  obtain ⟨s, committed, m⟩ := w
  subst hcommitted
  unfold SqlRun.fireConstraints
  cases h with
  | refused _ hbookkeeping hbad hlevels =>
    rw [if_pos hbad.2]
    exact ⟨rfl, .refused s hbookkeeping hbad hlevels⟩
  | failed _ saved hbookkeeping hitself hbad hsaved hs =>
    rw [if_pos hbad.2]
    exact ⟨rfl, .failed s saved hbookkeeping hitself hbad hsaved hs⟩
  | good now saved hbookkeeping hitself hgood hnow hsaved =>
    rw [if_neg (by rw [hgood.2]; simp)]
    refine Prog.wp_exec_open .nothing rfl (fun r s' c hp => ?_) (fun r s' hr hp => ?_)
      (fun f s' hs' => ?_)
    · cases hp
      rfl
    · cases hp
      have hstatus : resultStatus (.ok r) = .commandOk := of_decide_eq_true hr
      rw [if_pos hstatus]
      refine ⟨rfl, .good _ saved hbookkeeping hitself hgood ?_ hsaved⟩
      rw [Level.extend, hnow]
      rfl
    · rw [if_neg f.not_commandOk]
      exact ⟨rfl, .failed _ saved hbookkeeping rfl ⟨f.not_ok, rfl⟩ hsaved (hs'.imp_right .inl)⟩

theorem Ready.of_inTransaction {now : Level (Effect R X) R} {saved : List (Level (Effect R X) R)}
    (hnow : (c.Good ∧ now.pending = d.all) ∨ (c.Bad ∧ now.pending = []))
    (hsaved : ∀ level ∈ saved, level.pending = []) : Ready d c (.inTransaction now saved) where
  idle := by simp
  now := by
    rintro _ _ ⟨⟩
    exact hnow
  savepoints := hsaved

/-- Nothing of the transaction is left but its savepoint. -/
theorem Ready.of_inError {s : Session R X} (saved : List (Level (Effect R X) R))
    (hsaved : ∀ level ∈ saved, level.pending = []) (hs : s = .lost ∨ s = .inError saved) :
    Ready d c s := by
  rcases hs with rfl | rfl
  · exact ⟨by simp, by simp, by simp [Session.savepoints]⟩
  · exact ⟨by simp, by simp, hsaved⟩

theorem endSavepoint_ready (hcommitted : w.committed = []) (h : Stage d.all c w.session) :
    Wp does (SqlRun.endSavepoint c) (fun c w => w.committed = [] ∧ Ready d c w.session) w := by
  obtain ⟨s, committed, m⟩ := w
  subst hcommitted
  unfold SqlRun.endSavepoint
  cases h with
  | refused _ hbookkeeping hbad hlevels =>
    rw [if_pos hbookkeeping]
    have hclosed := Closed.of_levels hlevels
    exact ⟨rfl, fun _ => hbad, fun now saved hs => absurd hs (hclosed.noTransaction now saved),
      hclosed.savepoints⟩
  | failed _ saved hbookkeeping hitself hbad hsaved hs =>
    rw [if_neg (by simp [hbookkeeping]), if_pos hitself]
    refine Prog.wp_exec_open .nothing rfl (fun r s' c hp => ?_) (fun r s' hr hp => ?_)
      (fun f s' hs' => ?_)
    · rcases hs with rfl | rfl | ⟨now, rfl⟩ <;> cases hp <;> rfl
    · have hstatus : resultStatus (.ok r) = .commandOk := of_decide_eq_true hr
      rw [if_pos hstatus]
      rcases hs with rfl | rfl | ⟨now, rfl⟩ <;> cases hp <;>
        exact ⟨rfl, .of_inTransaction (.inr ⟨hbad, hsaved⟩) (by simpa using hsaved)⟩
    · rw [if_neg f.not_commandOk]
      refine ⟨rfl, .of_inError [saved] (by simpa using hsaved) ?_⟩
      rcases hs with rfl | rfl | ⟨now, rfl⟩
      · exact .inl (hs'.elim id id)
      · exact hs'
      · exact hs'
  | good now saved hbookkeeping hitself hgood hnow hsaved =>
    rw [if_neg (by simp [hbookkeeping]), if_neg (by simp [hitself])]
    refine Prog.wp_exec_open .nothing rfl (fun r s' c hp => ?_) (fun r s' hr hp => ?_)
      (fun f s' hs' => ?_)
    · cases hp
      rfl
    · cases hp
      have hstatus : resultStatus (.ok r) = .commandOk := of_decide_eq_true hr
      rw [if_pos hstatus]
      exact ⟨rfl, .of_inTransaction (.inl ⟨hgood, hnow⟩) (by simp)⟩
    · rw [if_neg f.not_commandOk]
      exact ⟨rfl, .of_inError [saved] (by simpa using hsaved) hs'⟩

theorem SqlRun.runCmd_ready (hcommitted : w.committed = [])
    (hs : w.session = .idle ∨ ∃ now, w.session = .inTransaction now [] ∧ now.pending = []) :
    Wp does (SqlRun.runCmd d) (fun c w => w.committed = [] ∧ Ready d c w.session) w :=
  Prog.wp_bind (savepoint_stage hcommitted hs) fun _ _ h =>
    Prog.wp_bind (execCmdSql_stage h.1 h.2) fun _ _ h =>
      Prog.wp_bind (fireConstraints_stage h.1 h.2) fun _ _ h => endSavepoint_ready h.1 h.2

/-! ## The UPDATE -/

def SqlRun.params (c : SqlRun) : UpdateParams := .sql c.cmdSqlResultStatus c.cmdSqlFatalError

theorem SqlRun.Good.atomic (h : c.Good) (found : List R) :
    Atomic does ((does queueCmd).all ++ [{ what := .update queueCmd c.params, writes := found }]) := by
  unfold params
  rw [h.2]
  exact .succeeded queueCmd _ found h.1

theorem SqlRun.Bad.atomic (h : c.Bad) (found : List R) :
    Atomic does [{ what := .update queueCmd c.params, writes := found }] := by
  obtain ⟨fields, hfields⟩ := Option.isSome_iff_exists.mp h.2
  unfold params
  rw [hfields]
  exact .failed queueCmd _ fields found h.1

/-- After the UPDATE was performed the transaction may be committed. -/
theorem Ready.performs_update (h : Ready (does queueCmd) c w.session) (hcommitted : w.committed = [])
    {r : Reply R} {s : Session R X} {changed : List (Change (Effect R X) R)}
    (hp : w.session.performs (updateCmd q queueCmd c.params) r = some (s, changed)) :
    Settled does { w with session := s, committed := w.committed ++ changed } := by
  obtain ⟨s, committed, m⟩ := w
  subst hcommitted
  rcases s with _ | ⟨now, saved⟩ | saved | _ <;> cases hp
  · exact (Closed.of_levels rfl).settled ((h.idle rfl).atomic _)
  · refine ⟨.nothing, ?_, h.savepoints⟩
    rintro now' saved' hs
    cases hs
    refine ⟨rfl, ?_⟩
    rw [Level.extend]
    rcases h.now now saved rfl with ⟨hgood, hpending⟩ | ⟨hbad, hpending⟩ <;> rw [hpending]
    · exact hgood.atomic _
    · exact hbad.atomic _

theorem Ready.update (h : Ready (does queueCmd) c w.session) (hcommitted : w.committed = [])
    (hk : ∀ result w', Settled does w' → Wp does (k result) post w') :
    Wp does (exec (updateCmd q queueCmd c.params) >>= k) post w := by
  have hnothing : Atomic does w.committed := .of_nil hcommitted
  refine Prog.wp_exec_any hnothing (fun r s changed _ hp => h.performs_update hcommitted hp)
    (fun ended => (Closed.of_fails h.savepoints ended).settled hnothing) ?_ hk
  rintro changed (rfl | ⟨r, s, _, hp⟩)
  · rw [List.append_nil]
    exact (Closed.of_levels rfl).settled hnothing
  · exact (Closed.of_levels rfl).settled (h.performs_update hcommitted hp).committed

theorem updateQueueCmd_settled (h : Ready (does queueCmd) c w.session)
    (hcommitted : w.committed = []) :
    Wp does (updateQueueCmd q queueCmd c.params) (fun _ w => Settled does w) w := by
  refine h.update hcommitted fun updateResult w hw => ?_
  split
  · exact hw
  · refine hw.finish (.inl rfl) fun _ w hw _ => ?_
    exact hw.query fun _ w hw => hw

theorem runCmd_ready (hcommitted : w.committed = [])
    (hs : w.session = .idle ∨ ∃ now, w.session = .inTransaction now [] ∧ now.pending = []) :
    Wp does (runCmd d .sql)
      (fun params w => w.committed = [] ∧ ∃ c, params = c.params ∧ Ready d c w.session) w :=
  Prog.wp_bind (SqlRun.runCmd_ready hcommitted hs) fun c _ h => ⟨h.1, c, rfl, h.2⟩

theorem runQueueCmd_settled (hq : q.cmdClass = .sql) (hcommitted : w.committed = [])
    (hs : w.session = .idle ∨ ∃ now, w.session = .inTransaction now [] ∧ now.pending = []) :
    Wp does (runQueueCmd q (does queueCmd) queueCmd) (fun _ w => Settled does w) w := by
  unfold runQueueCmd
  rw [hq]
  refine Prog.wp_mark (.of_nil hcommitted) (Prog.wp_bind (runCmd_ready hcommitted hs) ?_)
  rintro params w ⟨hcommitted, c, rfl, hready⟩
  exact Prog.wp_mark (.of_nil hcommitted) (updateQueueCmd_settled hready hcommitted)

/-! ## An iteration -/

/-- Nothing is done in the open transaction, if there is one. -/
structure Opened (w : World R X) : Prop where
  committed : w.committed = []
  now : ∀ now saved, w.session = .inTransaction now saved → now.pending = [] ∧ saved = []
  savepoints : ∀ level ∈ w.session.savepoints, level.pending = []

theorem Opened.settled (h : Opened w) : Settled does w where
  committed := .of_nil h.committed
  now now saved hs := ⟨h.committed, .of_nil (h.now now saved hs).1⟩
  savepoints := h.savepoints

theorem Opened.of_closed (h : Closed w.session) (hcommitted : w.committed = []) : Opened w where
  committed := hcommitted
  now now saved hs := absurd hs (h.noTransaction now saved)
  savepoints := h.savepoints

theorem Opened.begin (h : Closed w.session) (hcommitted : w.committed = [])
    (hk : ∀ result w', Opened w' → Wp does (k result) post w') :
    Wp does (exec (command .begin) >>= k) post w := by
  obtain ⟨s, committed, m⟩ := w
  subst hcommitted
  refine Prog.wp_exec_open .nothing rfl (fun r s' c hp => ?_) (fun r s' _ hp => hk _ _ ?_)
    (fun f s' hs' => hk _ _ ?_)
  · rcases s with _ | ⟨now, saved⟩ | saved | _ <;> cases hp <;> rfl
  · rcases s with _ | ⟨now, saved⟩ | saved | _ <;> cases hp
    · exact ⟨rfl, by rintro _ _ ⟨⟩; exact ⟨rfl, rfl⟩, by simp [Session.savepoints]⟩
    · exact absurd rfl (h.noTransaction now saved)
  · rcases hs' with rfl | rfl
    · exact .of_closed (.of_levels rfl) rfl
    · exact .of_closed (.of_fails h.savepoints false) rfl

/-- With an answer the SELECT has opened no savepoint. -/
theorem Opened.select (h : Opened w) {notifyCmd : Option Key}
    (hk : ∀ result w', Opened w' →
      ((∃ r, result = .ok r) → w'.session = .idle ∨ ∃ now, w'.session = .inTransaction now []) →
      Wp does (k result) post w') :
    Wp does (exec (selectCmd q notifyCmd) >>= k) post w := by
  obtain ⟨s, committed, m⟩ := w
  refine Prog.wp_exec_open (.of_nil h.committed) rfl (fun r s' c hp => ?_) (fun r s' _ hp => ?_)
    (fun f s' hs' => hk _ _ ?_ (by simp))
  · rcases s with _ | ⟨now, saved⟩ | saved | _ <;> cases hp <;> rfl
  · rcases s with _ | ⟨now, saved⟩ | saved | _ <;> cases hp
    · exact hk _ _ h fun _ => .inl rfl
    · obtain ⟨hpending, rfl⟩ := h.now now saved rfl
      refine hk _ _ ⟨h.committed, ?_, h.savepoints⟩ fun _ => .inr ⟨_, rfl⟩
      rintro _ _ ⟨⟩
      exact ⟨by rw [Level.extend, hpending]; rfl, rfl⟩
  · rcases hs' with rfl | rfl
    · exact .of_closed (.of_levels rfl) h.committed
    · exact .of_closed (.of_fails h.savepoints false) h.committed

theorem enterReselectRound_settled (h : Settled does w) :
    Wp does enterReselectRound (fun _ w => Settled does w) w := by
  refine h.query fun result w hw => ?_
  cases result <;> exact hw

theorem afterSelect_settled (hq : q.cmdClass = .sql) (h : Opened w) (notifyCmd : Option Key)
    {result : Result R} (hs : (∃ r, result = .ok r) →
      w.session = .idle ∨ ∃ now, w.session = .inTransaction now []) :
    Wp does (afterSelect q notifyCmd does result) (fun _ w => Settled does w) w := by
  rcases result with f | ⟨status, row, value⟩
  · exact h.settled
  · change Wp does (if status = .tuplesOk then _ else _) _ w
    split
    · rcases row with _ | queueCmd
      · rcases notifyCmd with _ | key
        · exact enterReselectRound_settled h.settled
        · exact h.settled
      · refine Prog.wp_bind (runQueueCmd_settled hq h.committed ?_) fun _ w hw => hw
        refine (hs ⟨_, rfl⟩).imp_right ?_
        rintro ⟨now, hnow⟩
        exact ⟨now, hnow, (h.now now [] hnow).1⟩
    · exact h.settled

/-- What is known when the runner goes on. -/
def AtEnd (does : R → Does R X) (next : Next) (w : World R X) : Prop :=
  Atomic does w.committed ∧ (next = .leave ∨ Closed w.session)

theorem endTransaction_atEnd (h : Settled does w) :
    Wp does endTransaction (AtEnd does) w := by
  refine Prog.wp_status h.committed ?_
  rcases hs : w.session with _ | ⟨now, saved⟩ | saved | _
  · exact h.finish (.inr rfl) fun _ w hw hclosed => ⟨hw.committed, .inr hclosed⟩
  · exact h.finish (.inr rfl) fun _ w hw hclosed => ⟨hw.committed, .inr hclosed⟩
  · exact h.finish (.inl rfl) fun _ w hw hclosed => ⟨hw.committed, .inr hclosed⟩
  · refine ⟨h.committed, .inr ⟨?_, h.savepoints⟩⟩
    rw [hs]
    simp

theorem iteration_atEnd (hq : q.cmdClass = .sql) (h : Closed w.session) (hcommitted : w.committed = [])
    (notifyCmd : Option Key) :
    Wp does (iteration q notifyCmd does) (AtEnd does) w := by
  refine Opened.begin h hcommitted fun _ w hw => ?_
  refine hw.select fun result w hw hs => ?_
  refine Prog.wp_bind (afterSelect_settled hq hw notifyCmd hs) fun stays w hw => ?_
  cases stays
  · exact ⟨hw.committed, .inl rfl⟩
  · exact endTransaction_atEnd hw

theorem runnerSessionStart_atEnd (h : Closed w.session) (hcommitted : Atomic does w.committed) :
    Wp does runnerSessionStart (AtEnd does) w := by
  refine Prog.wp_exec_any (P := fun w => Atomic does w.committed ∧ Closed w.session) hcommitted ?_ ?_ ?_ ?_
  · intro r s c _ hp
    obtain ⟨s', committed, m⟩ := w
    rcases s' with _ | ⟨now, saved⟩ | saved | _ <;> cases hp
    · exact ⟨by rwa [List.append_nil], h⟩
    · exact absurd rfl (h.noTransaction now saved)
  · intro ended
    exact ⟨hcommitted, .of_fails h.savepoints ended⟩
  · intro c hc
    refine ⟨?_, .of_levels rfl⟩
    obtain rfl : c = [] := by
      rcases hc with hc | ⟨r, s, _, hp⟩
      · exact hc
      · obtain ⟨s', committed, m⟩ := w
        rcases s' with _ | ⟨now, saved⟩ | saved | _ <;> cases hp <;> rfl
    rwa [List.append_nil]
  · rintro result w ⟨hcommitted, hclosed⟩
    exact ⟨hcommitted, .inr hclosed⟩

/-! ## Every iteration of a run -/

/-- What a runner of an SQL queue commits. -/
def Worker.AtomicNow (w : Worker R X) : Prop :=
  w.Sound anyOutcome (fun does w => Atomic does w.committed) AtEnd

theorem Worker.start_atomic : (start : Worker R X).AtomicNow := ⟨.nothing, .inr (.of_levels rfl)⟩

theorem Worker.AtomicNow.step (hq : q.cmdClass = .sql) {w w' : Worker R X} {e : WorkerEvent R X}
    (h : w.AtomicNow) (hstep : w.step q e = some w') : w'.AtomicNow := by
  refine Sound.step h (fun _ _ _ => trivial) hstep ?_ ?_ ?_ ?_ ?_
  · rintro world fresh ⟨hcommitted, hclosed⟩
    refine runnerSessionStart_atEnd ?_ hcommitted
    cases fresh
    · exact hclosed.resolve_left (by decide)
    · exact .of_levels rfl
  · rintro world next notifyCmd does hnext ⟨-, hclosed⟩
    refine iteration_atEnd (w := { world with committed := [] }) hq
      (hclosed.resolve_left ?_) rfl notifyCmd
    rcases hnext with rfl | rfl <;> decide
  · rintro world ⟨hcommitted, hclosed⟩
    exact ⟨hcommitted, .inr (hclosed.resolve_left (by decide))⟩
  · exact fun world next h => ⟨h.1, .inl rfl⟩
  · exact fun world h => ⟨h.1, .inl rfl⟩

theorem Worker.AtomicNow.committed {w : Worker R X} (h : w.AtomicNow) :
    Atomic w.does w.committed := by
  rcases Prog.wp_now h with h | ⟨next, _, h⟩
  · exact h
  · exact h.1

/-- Whatever happened so far, each iteration of an SQL queue has committed nothing, or the UPDATE
of a command that succeeded with all of its effects, or that of one that failed alone. -/
theorem commits_atomically (hq : q.cmdClass = .sql) {tr : List (WorkerEvent R X)} {w : Worker R X}
    (h : Transition.Run (Worker.Step q) Worker.start tr w) : Atomic w.does w.committed :=
  (h.invariant_state Worker.start_atomic fun _ _ _ h hstep => h.step hq hstep).committed

def answered (status : ExecStatus) (row : Option Unit) : WorkerEvent Unit Unit :=
  .label (.outcome (.done { status := status, row := row }))

/-- A command with one effect, which succeeds. -/
def succeedingRun : List (WorkerEvent Unit Unit) :=
  [.connect true, answered .commandOk none, .iterate none fun _ => { effects := [{ what := () }] },
    -- BEGIN, SELECT and run_cmd
    answered .commandOk none, answered .tuplesOk (some ()), .label .go,
    answered .commandOk none, answered .commandOk none, answered .commandOk none,
    answered .commandOk none, .label .go,
    -- UPDATE and COMMIT
    answered .commandOk (some ()), .label .go, answered .commandOk none]

theorem commits_atomically_succeedingRun :
    ∃ w : Worker Unit Unit, Atomic w.does w.committed ∧
      w.committed = [{ what := .ofCmd () }, updated () "PGRES_COMMAND_OK" none [()]] := by
  have hlast : (succeedingRun.foldlM (Worker.step ⟨.sql, fun _ => ([], none)⟩)
      Worker.start).any (fun w => w.committed =
        [{ what := .ofCmd () }, updated () "PGRES_COMMAND_OK" none [()]]) = true := by
    decide +kernel
  obtain ⟨w, hw, hcommitted⟩ := (Option.any_eq_true _ _).mp hlast
  exact ⟨w, commits_atomically rfl (Transition.Run.of_foldlM hw), of_decide_eq_true hcommitted⟩

end PgCmdQueue.Runner.Iteration
