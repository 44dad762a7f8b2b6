import PgCmdQueue.Lib.JobPool
import PgCmdQueue.Runner.Recorded

/-!
# The queue as a pool of jobs

Where a trigger deletes each row that is updated, the table with its runners is a pool of jobs: a lock is a
claim, and a commit finishes what the transaction has written.
-/

namespace PgCmdQueue.Runner.Iteration.Machine

open Transaction JobPool

variable {ι R X : Type} {cfg : Setup R} {m m' : Machine ι R X} {p : Pool ι R} {i : ι} {row : R}
  {e : WorkerEvent R X} {w : Worker R X}

/-- The pool that a table and the sessions of its runners are. -/
structure Refines (m : Machine ι R X) (p : Pool ι R) : Prop where
  waiting : ∀ row, row ∈ p.waiting ↔ row ∈ m.rows
  claimed : ∀ i row, row ∈ p.claimed i ↔ row ∈ m.locks i
  added : ∀ row, row ∈ p.added ↔ row ∈ m.inserted
  finished : p.finished = written m.history

theorem start_refines : Refines (start : Machine ι R X) {} where
  waiting _ := iff_of_false id List.not_mem_nil
  claimed _ _ := iff_of_false id List.not_mem_nil
  added _ := iff_of_false id List.not_mem_nil
  finished := rfl

theorem Refines.freeFor {rs : Set R} (hp : Refines m p) (h : ∀ row ∈ rs, m.Free i row) : p.FreeFor i rs := by
  refine ⟨fun row hrow => (hp.waiting row).mpr (h row hrow).1, fun j hj row hrow hclaimed => ?_⟩
  exact (h row hrow).2 j hj ((hp.claimed j row).mp hclaimed)

theorem Refines.insert (hp : Refines m p) [DecidableEq ι] (hrow : row ∉ m.inserted) : ∃ p' : Pool ι R,
    JobPool.Step p (.add row) p' ∧ p'.withdrawn = p.withdrawn ∧
      Refines { m with rows := row :: m.rows, inserted := row :: m.inserted } p' := by
  refine ⟨_, .add fun hadded => hrow ((hp.added row).mp hadded), rfl, { hp with waiting := ?_, added := ?_ }⟩
  · intro row'
    rw [Set.mem_insert_iff, List.mem_cons, hp.waiting]
  · intro row'
    rw [Set.mem_insert_iff, List.mem_cons, hp.added]

variable [DecidableEq ι] [DecidableEq R]

theorem Refines.remove (hp : Refines m p) (hrow : ∀ i, row ∉ m.locks i) : ∃ p' : Pool ι R,
    JobPool.Step p (.withdraw row) p' ∧ (∀ row' ∈ p'.withdrawn, row' ∈ p.withdrawn ∨ row' = row) ∧
      Refines { m with rows := m.rows.filter (· ≠ row) } p' := by
  refine ⟨_, .withdraw fun i hclaimed => hrow i ((hp.claimed i row).mp hclaimed), ?_,
    { hp with waiting := ?_ }⟩
  · rintro row' (hold | ⟨-, hnew⟩)
    · exact .inl hold
    · exact .inr hnew
  · intro row'
    rw [List.mem_filter, decide_eq_true_eq, ← hp.waiting]
    rfl

/-- The claims of a runner that has made a step are its new locks. -/
theorem Refines.claimed_put (hp : Refines m p) {rs : Set R}
    (hrs : ∀ row, row ∈ rs ↔ row ∈ w.session.locks) (j : ι) (row : R) :
    row ∈ (p.hold i rs).claimed j ↔ row ∈ (m.put cfg i e w).locks j := by
  change _ ↔ row ∈ (Function.update m.workers i w j).session.locks
  by_cases hj : j = i
  · rw [hj, Pool.hold_self, Function.update_self, hrs]
  · rw [Pool.hold_other p hj, Function.update_of_ne hj, hp.claimed]
    rfl

/-- Whatever one runner does, it comes to have other claims, or it finishes what it has written. -/
theorem Refines.put (hp : Refines m p) (hdeletes : cfg.deletes = true) (hw : StepOf cfg m i e w) :
    ∃ acts p', Transition.Run JobPool.Step p acts p' ∧ p'.withdrawn = p.withdrawn ∧
      Refines (m.put cfg i e w) p' := by
  obtain ⟨commits, hcommits⟩ : ∃ commits, written ((m.workers i).commits e) = commits := ⟨_, rfl⟩
  have hrows : ∀ row, row ∈ (m.put cfg i e w).rows ↔ row ∈ p.waiting ∧ row ∉ commits := by
    intro row
    rw [put_rows, hcommits, hp.waiting]
    simp [hdeletes]
  have hhistory : written (m.put cfg i e w).history = p.finished ++ commits := by
    rw [hp.finished, ← hcommits]
    exact written_append ..
  cases commits with
  | nil =>
    have hfree : p.FreeFor i {row | row ∈ w.session.locks} := hp.freeFor hw.locks
    obtain ⟨acts, hrun⟩ := run_hold hfree
    refine ⟨acts, _, hrun, rfl, ?_, hp.claimed_put fun _ => Iff.rfl, hp.added, ?_⟩
    · intro row
      rw [hrows]
      simp [Pool.hold]
    · rw [hhistory, List.append_nil]
      rfl
  | cons row rows =>
    have hwritten := hw.commits
    rw [hcommits] at hwritten
    have hfree : p.FreeFor i {row' | row' ∈ row :: rows} := hp.freeFor fun row hrow => (hwritten row hrow).1
    obtain ⟨acts, hrun⟩ := run_finish hfree (hcommits ▸ hw.once hdeletes)
    refine ⟨acts, _, hrun, rfl, ?_, hp.claimed_put ?_, hp.added, hhistory.symm⟩
    · exact fun row => (hrows row).symm
    · intro row'
      rw [(hwritten row List.mem_cons_self).2]
      exact iff_of_false id List.not_mem_nil

variable [Fintype ι] {tr : List (Event ι R X)}

theorem Refines.step {ev : Event ι R X} (hp : Refines m p) (hinv : Inv cfg m) (hdeletes : cfg.deletes = true)
    (hstep : Step cfg m ev m') : ∃ acts p', Transition.Run JobPool.Step p acts p' ∧ Refines m' p' ∧
      ∀ row ∈ p'.withdrawn, row ∈ p.withdrawn ∨ ev = .remove row := by
  unfold Step Machine.step at hstep
  cases ev with
  | insert row =>
    dsimp only at hstep
    split at hstep <;> cases hstep
    obtain ⟨p', hadd, hwithdrawn, hp'⟩ := hp.insert ‹_›
    exact ⟨_, p', .single hadd, hp', fun row hrow => .inl (hwithdrawn ▸ hrow)⟩
  | remove row =>
    dsimp only at hstep
    split at hstep <;> cases hstep
    rename_i hlocked
    obtain ⟨p', hwithdraw, hwithdrawn, hp'⟩ := hp.remove fun i hlock => hlocked ⟨i, hlock⟩
    refine ⟨_, p', .single hwithdraw, hp', fun row' hrow => (hwithdrawn row' hrow).imp_right ?_⟩
    rintro rfl
    rfl
  | worker i e =>
    dsimp only at hstep
    split at hstep
    · rename_i hgrants
      obtain ⟨w, hw, rfl⟩ := Option.map_eq_some_iff.mp hstep
      obtain ⟨acts, p', hrun, hwithdrawn, hp'⟩ := hp.put hdeletes (hinv.stepOf hgrants hw)
      exact ⟨acts, p', hrun, hp', fun row hrow => .inl (hwithdrawn ▸ hrow)⟩
    · cases hstep

theorem refines_of_run (hdeletes : cfg.deletes = true) (h : Transition.Run (Step cfg) start tr m) :
    ∃ acts p, Transition.Run JobPool.Step {} acts p ∧ Refines m p ∧ ∀ row ∈ p.withdrawn, .remove row ∈ tr := by
  induction h with
  | nil => exact ⟨[], {}, .nil, start_refines, fun _ hrow => hrow.elim⟩
  | snoc hrun hstep ih =>
    obtain ⟨acts, p, hacts, hp, hwithdrawn⟩ := ih
    obtain ⟨acts', p', hacts', hp', hnew⟩ := hp.step (run_inv hrun) hdeletes hstep
    refine ⟨acts ++ acts', p', hacts.append hacts', hp', fun row hrow => ?_⟩
    rcases hnew row hrow with hold | rfl
    · exact List.mem_append_left _ (hwithdrawn row hold)
    · simp

/-- Any number of runners on one table do what a pool of jobs allows. So a row that clients do not remove is
in the table, or it is gone and one transaction, and no more than one, has written it. -/
theorem refines_pool (hdeletes : cfg.deletes = true) (h : Transition.Run (Step cfg) start tr m) :
    (∃ acts p, Transition.Run JobPool.Step {} acts p ∧ Refines m p) ∧
    ∀ row ∈ m.inserted, .remove row ∉ tr →
      (row ∈ m.rows ∧ row ∉ written m.history) ∨ (row ∉ m.rows ∧ (written m.history).count row = 1) := by
  obtain ⟨acts, p, hacts, hp, hwithdrawn⟩ := refines_of_run hdeletes h
  refine ⟨⟨acts, p, hacts, hp⟩, fun row hrow hkept => ?_⟩
  have haccounted := accounted_of_run hacts
  rw [← hp.finished, ← hp.waiting]
  rcases (haccounted.somewhere row).mp ((hp.added row).mpr hrow) with hwaiting | hgone | hfinished
  · exact .inl ⟨hwaiting, fun hfinished => haccounted.finished row hfinished hwaiting⟩
  · exact (hkept (hwithdrawn row hgone)).elim
  · exact .inr ⟨haccounted.finished row hfinished, List.count_eq_one_of_mem haccounted.once hfinished⟩

def oneCommits : List (Event Bool Nat Unit) := toCommit ++ [answered false .commandOk none]

theorem refines_pool_oneCommits : ∃ m : Machine Bool Nat Unit,
    Transition.Run (Step sqlQueue) start oneCommits m ∧ 0 ∉ m.rows ∧ (written m.history).count 0 = 1 := by
  have hlast : (oneCommits.foldlM (step sqlQueue) start).any (fun m => 0 ∈ m.inserted ∧ 0 ∉ m.rows) = true := by
    decide +kernel
  obtain ⟨m, hm, hstate⟩ := (Option.any_eq_true _ _).mp hlast
  obtain ⟨hinserted, hgone⟩ := of_decide_eq_true hstate
  have hrun : Transition.Run (Step sqlQueue) start oneCommits m := .of_foldlM hm
  have hkept : Event.remove 0 ∉ oneCommits := by simp [oneCommits, toCommit, twoRunners, answered]
  exact ⟨m, hrun, hgone, (((refines_pool rfl hrun).2 0 hinserted hkept).resolve_left fun h => hgone h.1).2⟩

end PgCmdQueue.Runner.Iteration.Machine
