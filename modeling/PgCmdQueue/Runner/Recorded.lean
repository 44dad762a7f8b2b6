import PgCmdQueue.Lib.Announced
import PgCmdQueue.Runner.Exclusive

/-!
# Only what was run is recorded

An iteration starts one command at most, and its UPDATE is for that one. Whatever fails, no UPDATE is
committed for a row whose command the same iteration has not started.
-/

namespace PgCmdQueue.Runner.Iteration

open Transaction

variable {R X α : Type}

/-! ## One iteration -/

/-- The rows whose `run_cmd` the marks have started. -/
def started (marks : List (Option R)) : List R := marks.filterMap id

def AtMostOne (marks : List (Option R)) : Prop := (started marks).length ≤ 1

/-- An UPDATE of the queue is for a command that was started. -/
def RecordsStarted (marks : List (Option R)) (cs : List (Change (Effect R X) R)) : Prop :=
  ∀ c ∈ cs, ∀ queueCmd params, c.what = .update queueCmd params → queueCmd ∈ started marks

def recordsOnly (marks : List (Option R)) (stmt : Stmt R X) : Prop :=
  AtMostOne marks ∧ ∀ r, RecordsStarted marks (stmt.changes r)

/-- From these marks on. -/
abbrev Tells (p : Prog R X α) (post : List (Option R) → Prop) (marks : List (Option R)) : Prop :=
  p.Announced recordsOnly (fun _ => post) marks

/-- The program starts no command. -/
abbrev Quiet (p : Prog R X α) (marks : List (Option R)) : Prop := Tells p (· = marks) marks

variable {marks marks' : List (Option R)} {queueCmd : R} {d : Does R X} {q : Queue R}
  {cs cs' : List (Change (Effect R X) R)}

theorem AtMostOne.eq (h : AtMostOne marks) (hstarted : queueCmd ∈ started marks) :
    started marks = [queueCmd] := by
  obtain ⟨row, hrow⟩ := List.length_eq_one_iff.mp (le_antisymm h (List.length_pos_of_mem hstarted))
  rw [hrow, List.mem_singleton] at hstarted
  rw [hrow, hstarted]

theorem RecordsStarted.mono (h : RecordsStarted marks cs) (hmarks : marks <+: marks') :
    RecordsStarted marks' cs := by
  obtain ⟨new, rfl⟩ := hmarks
  intro c hc queueCmd params hwhat
  rw [started, List.filterMap_append]
  exact List.mem_append_left _ (h c hc queueCmd params hwhat)

theorem RecordsStarted.append (h : RecordsStarted marks cs) (h' : RecordsStarted marks cs') :
    RecordsStarted marks (cs ++ cs') :=
  fun c hc => (List.mem_append.mp hc).elim (h c) (h' c)

theorem recordsStarted_nil (marks : List (Option R)) : RecordsStarted marks ([] : List (Change (Effect R X) R)) :=
  nofun

theorem recordsStarted_ofCmd (marks : List (Option R)) (cs : List (Change X R)) :
    RecordsStarted marks (ofCmd cs) := by
  intro c hc queueCmd params hwhat
  obtain ⟨c', -, rfl⟩ := List.mem_map.mp hc
  cases hwhat

theorem command_quiet (h : AtMostOne marks) (c : Control) {k : Result R → Prog R X α}
    (hk : ∀ result, Quiet (k result) marks) : Quiet (exec (command c) >>= k) marks :=
  .exec ⟨h, fun _ => recordsStarted_nil marks⟩ hk

theorem call_quiet (h : AtMostOne marks) (status : ExecStatus) {k : Result R → Prog R X α}
    (hk : ∀ result, Quiet (k result) marks) : Quiet (exec (call status) >>= k) marks :=
  .exec ⟨h, fun _ => recordsStarted_nil marks⟩ hk

theorem savepoint_quiet (h : AtMostOne marks) (c : SqlRun) :
    Quiet (SqlRun.savepoint c : Prog R X SqlRun) marks := by
  refine command_quiet h .savepoint fun result => ?_
  split <;> rfl

theorem execCmdSql_quiet (h : AtMostOne marks) (c : SqlRun) : Quiet (SqlRun.execCmdSql d c) marks := by
  unfold SqlRun.execCmdSql
  split
  · rfl
  · refine .exec ⟨h, fun _ => recordsStarted_ofCmd marks _⟩ fun result => ?_
    dsimp only
    split
    · rfl
    · split <;> rfl

theorem fireConstraints_quiet (h : AtMostOne marks) (c : SqlRun) :
    Quiet (SqlRun.fireConstraints d c) marks := by
  unfold SqlRun.fireConstraints
  split
  · rfl
  · refine .exec ⟨h, fun _ => recordsStarted_ofCmd marks _⟩ fun result => ?_
    split <;> rfl

theorem endSavepoint_quiet (h : AtMostOne marks) (c : SqlRun) :
    Quiet (SqlRun.endSavepoint c : Prog R X SqlRun) marks := by
  unfold SqlRun.endSavepoint
  split
  · rfl
  · refine command_quiet h _ fun result => ?_
    split <;> rfl

theorem runCmd_quiet (h : AtMostOne marks) (cmdClass : CmdClass) : Quiet (runCmd d cmdClass) marks := by
  cases cmdClass with
  | nix => rfl
  | sql =>
    have hrun : Quiet (SqlRun.runCmd d) marks := by
      refine .bind (savepoint_quiet h {}) ?_
      rintro c _ rfl
      refine .bind (execCmdSql_quiet h c) ?_
      rintro c _ rfl
      refine .bind (fireConstraints_quiet h c) ?_
      rintro c _ rfl
      exact endSavepoint_quiet h c
    refine .bind hrun ?_
    rintro c _ rfl
    rfl

theorem updateQueueCmd_quiet {params : UpdateParams} (h : AtMostOne marks) (hstarted : queueCmd ∈ started marks) :
    Quiet (updateQueueCmd q queueCmd params : Prog R X Unit) marks := by
  refine .exec ⟨h, fun r => ?_⟩ fun result => ?_
  · intro c hc queueCmd' params' hwhat
    obtain rfl := List.mem_singleton.mp hc
    cases hwhat
    exact hstarted
  · split
    · rfl
    · exact command_quiet h .rollback fun _ => call_quiet h .commandOk fun _ => rfl

theorem atMostOne_nil : AtMostOne ([] : List (Option R)) := Nat.zero_le 1

theorem runQueueCmd_tells (q : Queue R) : Tells (runQueueCmd q d queueCmd) AtMostOne [] := by
  have hone : AtMostOne [some queueCmd] := Nat.le_refl 1
  refine .mark (.bind (runCmd_quiet hone q.cmdClass) ?_)
  rintro params _ rfl
  have hstarted : queueCmd ∈ started [some queueCmd, none] := List.mem_singleton.mpr rfl
  refine .mark (.mono (updateQueueCmd_quiet (Nat.le_refl 1) hstarted) ?_)
  rintro _ _ rfl
  exact Nat.le_refl 1

theorem enterReselectRound_quiet (h : AtMostOne marks) :
    Quiet (enterReselectRound : Prog R X Bool) marks := by
  refine call_quiet h .tuplesOk fun result => ?_
  cases result <;> rfl

theorem afterSelect_tells {notifyCmd : Option Key} {does : R → Does R X} (selectResult : Result R) :
    Tells (afterSelect q notifyCmd does selectResult) AtMostOne [] := by
  rcases selectResult with f | ⟨status, row, value⟩
  · exact atMostOne_nil
  · change Tells (if status = .tuplesOk then _ else _) _ []
    split
    · rcases row with _ | queueCmd
      · rcases notifyCmd with _ | key
        · refine .mono (enterReselectRound_quiet atMostOne_nil) ?_
          rintro _ _ rfl
          exact atMostOne_nil
        · exact atMostOne_nil
      · exact .bind (runQueueCmd_tells q) fun _ _ h => h
    · exact atMostOne_nil

theorem endTransaction_quiet (h : AtMostOne marks) : Quiet (endTransaction : Prog R X Next) marks := by
  refine .status fun st => ?_
  cases st with
  | unknown => rfl
  | inError => exact command_quiet h .rollback fun _ => rfl
  | idle | inTrans => exact command_quiet h .commit fun _ => rfl

theorem iteration_tells {notifyCmd : Option Key} {does : R → Does R X} :
    Tells (iteration q notifyCmd does) AtMostOne [] := by
  have hselect : recordsOnly (R := R) [] (selectCmd q notifyCmd : Stmt R X) :=
    ⟨atMostOne_nil, fun _ => recordsStarted_nil []⟩
  have hbegin : recordsOnly (R := R) [] (command .begin : Stmt R X) :=
    ⟨atMostOne_nil, fun _ => recordsStarted_nil []⟩
  refine .exec hbegin fun _ => .exec hselect fun result => .bind (afterSelect_tells result) ?_
  intro stays marks h
  cases stays
  · exact h
  · refine .mono (endTransaction_quiet h) ?_
    rintro _ _ rfl
    exact h

/-! ## A runner -/

namespace Worker

/-- The marks since the last iteration began. -/
def marksAfter (w : Worker R X) (marks : List (Option R)) : WorkerEvent R X → List (Option R)
  | .label l => w.thread.marksAfter marks l
  | .iterate _ _ => []
  | _ => marks

/-- The open transaction has UPDATEs for what was started only, and so will the rest of the program. -/
structure Recorded (w : Worker R X) (marks : List (Option R)) : Prop where
  prog : Tells w.thread.prog AtMostOne marks
  pending : ∀ level ∈ w.session.levels, RecordsStarted marks level.pending

variable {w w' : Worker R X} {e : WorkerEvent R X}

theorem Recorded.answered {stmt : Stmt R X} {o : Outcome R} (h : w.Recorded marks)
    (hanswered : w.answered e = some (stmt, o)) : recordsOnly marks stmt := by
  cases e with
  | label l => exact Thread.announced_answered h.prog hanswered
  | _ => cases hanswered

theorem Recorded.pending_step (h : w.Recorded marks) (hstep : w.step q e = some w') :
    ∀ level ∈ w'.session.levels, RecordsStarted marks level.pending := by
  rcases session_of_step hstep with ⟨stmt, o, x, hanswered, hx, hsession, -⟩ | ⟨-, -, hsession⟩
  · rw [hsession]
    refine Session.levels_of_exec (P := fun level => RecordsStarted marks level.pending) hx h.pending
      (recordsStarted_nil marks) ?_
    intro r now saved _ hs
    have hnow : RecordsStarted marks now.pending := h.pending now (hs ▸ List.mem_cons_self)
    exact hnow.append ((h.answered hanswered).2 r)
  · rcases hsession with hsession | hsession <;> rw [hsession]
    · exact h.pending
    · exact nofun

/-- What a step commits is for the one command that was started. -/
theorem Recorded.commits (h : w.Recorded marks) (hstep : w.step q e = some w') {c : Change (Effect R X) R}
    (hc : c ∈ w.commits e) {params : UpdateParams} (hwhat : c.what = .update queueCmd params) :
    started marks = [queueCmd] := by
  rcases session_of_step hstep with ⟨stmt, o, x, hanswered, hx, -, hcommits⟩ | ⟨-, hcommits, -⟩
  · rw [hcommits] at hc
    obtain ⟨hone, hchanges⟩ := h.answered hanswered
    have hrecords : RecordsStarted marks x.committed := by
      rcases Session.exec_cases hx with ⟨r, s', -, -, hperforms, -⟩ | ⟨hnothing, -⟩
      · rcases Session.committed_of_performs hperforms with
          hnothing | ⟨-, ⟨-, hall⟩ | ⟨now, hnow, hall⟩⟩
        · exact hnothing ▸ recordsStarted_nil marks
        · exact hall ▸ hchanges r
        · exact hall ▸ h.pending now hnow
      · exact hnothing ▸ recordsStarted_nil marks
    exact hone.eq (hrecords c hc queueCmd params hwhat)
  · rw [hcommits] at hc
    cases hc

theorem prefix_marksAfter (w : Worker R X) (marks : List (Option R))
    (he : ∀ notifyCmd does, e ≠ .iterate notifyCmd does) : marks <+: w.marksAfter marks e := by
  cases e with
  | label l => exact w.thread.prefix_marksAfter marks l
  | iterate notifyCmd does => exact (he notifyCmd does rfl).elim
  | _ => exact List.prefix_rfl

theorem Recorded.prog_step (h : w.Recorded marks) (hstep : w.step q e = some w') :
    Tells w'.thread.prog AtMostOne (w.marksAfter marks e) := by
  obtain ⟨⟨world, prog⟩, does⟩ := w
  have hprog := h.prog
  cases e with
  | label l =>
    obtain ⟨t, ht, rfl⟩ := Option.map_eq_some_iff.mp hstep
    exact Thread.announced_step hprog ht
  | connect fresh =>
    rcases prog with next | _ | _ | _ <;> try cases hstep
    cases next <;> cases hstep
    refine .mono (call_quiet hprog .commandOk fun _ => rfl) ?_
    rintro _ _ rfl
    exact hprog
  | iterate notifyCmd does =>
    rcases prog with next | _ | _ | _ <;> try cases hstep
    cases next <;> cases hstep <;> exact iteration_tells
  | consumeInputFails | close =>
    rcases prog with next | _ | _ | _ <;> try cases hstep
    cases next <;> cases hstep
    exact hprog
  | stop =>
    rcases prog with next | _ | _ | _ <;> cases hstep
    exact hprog

/-- When an iteration begins no transaction is open. -/
theorem Recorded.step (h : w.Recorded marks) (hstep : w.step q e = some w')
    (hclosed : ∀ notifyCmd does, e = .iterate notifyCmd does → w'.session.levels = []) :
    w'.Recorded (w.marksAfter marks e) := by
  refine ⟨h.prog_step hstep, fun level hlevel => ?_⟩
  by_cases he : ∃ notifyCmd does, e = .iterate notifyCmd does
  · obtain ⟨notifyCmd, does, rfl⟩ := he
    rw [hclosed _ _ rfl] at hlevel
    cases hlevel
  · refine (h.pending_step hstep level hlevel).mono (w.prefix_marksAfter marks ?_)
    exact fun notifyCmd does heq => he ⟨notifyCmd, does, heq⟩

theorem levels_of_iterate {cfg : Setup R} {notifyCmd : Option Key} {does : R → Does R X}
    (h : w.Sound (fun s stmt o => cfg.may s stmt o = true) (fun _ => cfg.Guards) (fun _ => Rests))
    (hstep : w.step q (.iterate notifyCmd does) = some w') : w'.session.levels = [] := by
  obtain ⟨⟨world, prog⟩, does'⟩ := w
  rcases prog with next | _ | _ | _ <;> try cases hstep
  obtain ⟨-, hsession⟩ := h
  cases next <;> cases hstep <;> rcases hsession.resolve_left (by decide) with hrests | hrests <;>
    exact congrArg Session.levels hrests

theorem start_recorded : (start : Worker R X).Recorded [] := ⟨atMostOne_nil, nofun⟩

end Worker

/-! ## All runners -/

namespace Machine

variable {ι : Type} {cfg : Setup R} {m m' : Machine ι R X} {i : ι}

/-- The machine with the marks of each runner. -/
structure Traced (ι R X : Type) where
  machine : Machine ι R X := start
  marks : ι → List (Option R) := fun _ => []

def Traced.started (s : Traced ι R X) (i : ι) : List R := Iteration.started (s.marks i)

variable [DecidableEq ι]

def Traced.marksAfter (s : Traced ι R X) : Event ι R X → ι → List (Option R)
  | .worker i e => Function.update s.marks i ((s.machine.workers i).marksAfter (s.marks i) e)
  | _ => s.marks

variable [DecidableEq R] [Fintype ι]

def TracedStep (cfg : Setup R) (s : Traced ι R X) (ev : Event ι R X) (t : Traced ι R X) : Prop :=
  Step cfg s.machine ev t.machine ∧ t.marks = s.marksAfter ev

variable {s t : Traced ι R X} {tr : List (Event ι R X)} {ev : Event ι R X}

/-- The marks are no part of what the machine does. -/
theorem traced_of_run (h : Transition.Run (Step cfg) start tr m) :
    ∃ s : Traced ι R X, Transition.Run (TracedStep cfg) {} tr s ∧ s.machine = m := by
  induction h with
  | nil => exact ⟨{}, .nil, rfl⟩
  | snoc _ hstep ih =>
    obtain ⟨s, hs, rfl⟩ := ih
    exact ⟨⟨_, s.marksAfter _⟩, hs.snoc ⟨hstep, rfl⟩, rfl⟩

/-- The steps of one worker. -/
theorem step_of_worker {e : WorkerEvent R X} (h : Step cfg m (.worker i e) m') :
    ∃ w, (m.workers i).step cfg.queue e = some w ∧ m' = m.put cfg i e w := by
  unfold Step step at h
  dsimp only at h
  split at h
  · obtain ⟨w, hw, rfl⟩ := Option.map_eq_some_iff.mp h
    exact ⟨w, hw, rfl⟩
  · cases h

theorem workers_of_client (h : Step cfg m ev m') (hev : ∀ i e, ev ≠ .worker i e) : m'.workers = m.workers := by
  unfold Step step at h
  cases ev with
  | insert row | remove row =>
    dsimp only at h
    split at h <;> cases h
    rfl
  | worker i e => exact (hev i e rfl).elim

structure AllRecorded (cfg : Setup R) (s : Traced ι R X) : Prop where
  inv : Inv cfg s.machine
  recorded : ∀ i, (s.machine.workers i).Recorded (s.marks i)

theorem AllRecorded.step (h : AllRecorded cfg s) (hstep : TracedStep cfg s ev t) : AllRecorded cfg t := by
  obtain ⟨hmachine, hmarks⟩ := hstep
  refine ⟨step_inv h.inv hmachine, fun j => ?_⟩
  cases ev with
  | worker i e =>
    obtain ⟨w, hw, hput⟩ := step_of_worker hmachine
    rw [hmarks, hput]
    change Worker.Recorded (Function.update s.machine.workers i w j) (Function.update s.marks i _ j)
    by_cases hj : j = i
    · rw [hj, Function.update_self, Function.update_self]
      refine (h.recorded i).step hw ?_
      rintro notifyCmd does rfl
      exact Worker.levels_of_iterate (h.inv.rests i) hw
    · rw [Function.update_of_ne hj, Function.update_of_ne hj]
      exact h.recorded j
  | insert row | remove row =>
    rw [hmarks, workers_of_client hmachine nofun]
    exact h.recorded j

theorem allRecorded_of_run (h : Transition.Run (TracedStep cfg) ({} : Traced ι R X) tr s) :
    AllRecorded cfg s :=
  h.invariant_state ⟨start_inv, fun _ => Worker.start_recorded⟩ fun _ _ _ => AllRecorded.step

/-- Whatever a runner commits, with any failures and beside any other runners, an UPDATE in it is for the row
whose command it has started since it last began an iteration, and it has started no other one. -/
theorem records_what_ran (h : Transition.Run (Step cfg) start tr m) : ∃ s : Traced ι R X,
    Transition.Run (TracedStep cfg) {} tr s ∧ s.machine = m ∧
    ∀ i e m', Step cfg m (.worker i e) m' → ∀ c ∈ (m.workers i).commits e, ∀ queueCmd params,
      c.what = .update queueCmd params → s.started i = [queueCmd] := by
  obtain ⟨s, hs, rfl⟩ := traced_of_run h
  refine ⟨s, hs, rfl, fun i e m' hstep c hc queueCmd params hwhat => ?_⟩
  obtain ⟨w, hw, -⟩ := step_of_worker hstep
  exact ((allRecorded_of_run hs).recorded i).commits hw hc hwhat

/-- One session has run the only row and is about to commit. -/
def toCommit : List (Event Bool Nat Unit) :=
  twoRunners ++ [answered false .commandOk none, answered false .commandOk none,
    answered false .commandOk none, answered false .commandOk none, .worker false (.label .go),
    -- UPDATE, and a look at the status
    answered false .commandOk (some 0), .worker false (.label .go)]

theorem records_what_ran_toCommit : ∃ s : Traced Bool Nat Unit,
    Transition.Run (TracedStep sqlQueue) {} toCommit s ∧ s.started false = [0] := by
  let commit : WorkerEvent Nat Unit := .label (.outcome (.done { status := .commandOk }))
  let change : Change (Effect Nat Unit) Nat :=
    { what := .update 0 (.sql "PGRES_COMMAND_OK" none), writes := [0] }
  have hlast : (toCommit.foldlM (step sqlQueue) start).any (fun m =>
      (step sqlQueue m (.worker false commit)).isSome ∧ (m.workers false).commits commit = [change]) = true := by
    decide +kernel
  obtain ⟨m, hm, hstate⟩ := (Option.any_eq_true _ _).mp hlast
  obtain ⟨hstep, hcommits⟩ := of_decide_eq_true hstate
  obtain ⟨m', hm'⟩ := Option.isSome_iff_exists.mp hstep
  obtain ⟨s, hs, -, hrecords⟩ := records_what_ran (Transition.Run.of_foldlM hm)
  have hmem : change ∈ (m.workers false).commits commit := hcommits ▸ List.mem_singleton_self change
  exact ⟨s, hs, hrecords false commit m' hm' change hmem 0 _ rfl⟩

end Machine

end PgCmdQueue.Runner.Iteration
