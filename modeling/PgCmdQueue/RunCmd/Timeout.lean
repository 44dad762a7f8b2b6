import PgCmdQueue.RunCmd.Signals

/-!
# The timeout of a command

The deadline is only looked at where `poll()` has nothing to report, so what it is worth depends
on the pipes of the child.
-/

namespace PgCmdQueue.RunCmd

open Cpp

variable {c : Call} {s t u : State} {tr tr' : List Event} {e : Event}

/-! ## Iterations -/

def Pc.inside (p : Pc) : Bool := p ≠ .top && p.inLoop

def Inside (c : Call) (s : State) (e : Event) (t : State) : Prop := s.pc.inside = true ∧ Step c s e t

/-- From the head of the loop to where it next comes there, or leaves. -/
inductive Iteration (c : Call) (s : State) : List Event → State → Prop
  | mk {tr : List Event} {u t : State} (head : s.pc = .top) (first : Step c s .go u)
      (rest : Transition.Run (Inside c) u tr t) (ended : t.pc.inside = false) :
      Iteration c s (.go :: tr) t

/-- The child is not reaped, its time is up at the first reading of the clock, and no signal
interrupts the wait. -/
structure Overdue (c : Call) (s : State) (tr : List Event) : Prop where
  timed : 0 < c.queueCmdTimeoutSec
  unreaped : s.reaped = false
  past : c.queueCmdTimeoutSec ≤ s.clock - c.cmdRuntimeStart
  uninterrupted : .poll (.failed .eintr) ∉ tr

def State.SentSigterm (s : State) : Prop := ∃ time, (sigterm, time) ∈ s.sent

/-- The child was found running, the pipes had nothing to report, and the time is still up at the
second reading of the clock. -/
structure FoundIdle (c : Call) (tr : List Event) (t : State) : Prop where
  running : .waitpid .running ∈ tr
  nothing : .poll .none ∈ tr
  past : c.queueCmdTimeoutSec ≤ t.clock - c.cmdRuntimeStart

theorem sentSigterm_iff (h : s.Watched c) : s.SentSigterm ↔ s.triedSigterm = true := by
  obtain ⟨g, -, hg, hmem⟩ := h.stage
  unfold State.SentSigterm
  rw [hg]
  cases g with
  | unsignalled =>
    have htried : s.triedSigterm = false := hmem
    simp [Stage.sent, htried]
  | asked term => exact iff_of_true ⟨term, List.mem_singleton.mpr rfl⟩ hmem.1
  | forced term kill => exact iff_of_true ⟨term, List.mem_cons_self⟩ hmem.1

/-- How far the iteration from `s` has come in `u`, at a place. -/
def Progress (c : Call) (s : State) (tr : List Event) (u : State) : Pc → Prop
  | .waitpid => u.triedSigterm = s.triedSigterm ∧ u.reaped = false ∧ .waitpid .running ∉ tr ∧
    .poll .none ∉ tr
  | .poll _ => u.triedSigterm = s.triedSigterm ∧ (.waitpid .running ∈ tr ↔ u.reaped = false) ∧
    .poll .none ∉ tr
  | .timedOut => u.triedSigterm = s.triedSigterm ∧ (.waitpid .running ∈ tr ↔ u.reaped = false) ∧
    .poll .none ∈ tr
  | .sigkilled => u.triedSigterm = true ∧ s.triedSigterm = true
  | p => if p.serves then u.triedSigterm = s.triedSigterm ∧ .poll .none ∉ tr
    else u.triedSigterm = true ↔ s.triedSigterm = true ∨ FoundIdle c tr u

theorem progress_serves {p : Pc} (hp : p.serves = true) :
    Progress c s tr u p ↔ u.triedSigterm = s.triedSigterm ∧ .poll .none ∉ tr := by
  cases p <;> first | rfl | cases hp

/-- An iteration that does not come to send SIGTERM. -/
theorem progress_unsent (htried : u.triedSigterm = s.triedSigterm) (hbusy : ¬FoundIdle c tr u) :
    u.triedSigterm = true ↔ s.triedSigterm = true ∨ FoundIdle c tr u := by
  rw [htried]
  exact ⟨.inl, fun h => h.resolve_right hbusy⟩

/-- A step on which `poll()` has not told that there is nothing. -/
theorem progress_busy {p : Pc} (hp : p = .top ∨ p = .left ∨ p = .dead ∨ p.serves = true)
    (htried : u.triedSigterm = s.triedSigterm) (hpoll : .poll .none ∉ tr) : Progress c s tr u p := by
  have hbusy : ¬FoundIdle c tr u := fun hidle => hpoll hidle.nothing
  rcases hp with rfl | rfl | rfl | hp
  · exact progress_unsent htried hbusy
  · exact progress_unsent htried hbusy
  · exact progress_unsent htried hbusy
  · exact (progress_serves hp).mpr ⟨htried, hpoll⟩

theorem mem_snoc_of_ne {e' : Event} (h : e' ≠ e) : e' ∈ tr ++ [e] ↔ e' ∈ tr := by
  rw [List.mem_append, List.mem_singleton]
  exact or_iff_left h

theorem progress_moves (hs : Progress c s tr u u.pc) (hin : u.pc.inside = true)
    (h : u.Moves c e t) : Progress c s (tr ++ [e]) t t.pc := by
  cases h with
  | head hpc => rw [hpc] at hin; cases hin
  | after hpc =>
    unfold Pc.inside at hin
    rw [hpc, Bool.and_false] at hin
    cases hin
  | running hpc hnext hw =>
    rw [hpc] at hs
    obtain ⟨htried, hreaped, -, hpoll⟩ := hs
    obtain ⟨-, hreaped', htried', -⟩ := watch_eq hw
    rw [hnext]
    refine ⟨htried'.trans htried, iff_of_true (by simp) (hreaped'.trans hreaped), ?_⟩
    rwa [mem_snoc_of_ne (by nofun)]
  | died hpc hnext hw =>
    rw [hpc] at hs
    obtain ⟨htried, -, hwaitpid, hpoll⟩ := hs
    have hreaped : t.reaped = true := congrArg Watch.reaped hw
    rw [hnext]
    refine ⟨(congrArg Watch.triedSigterm hw).trans htried, ?_, ?_⟩
    · rw [mem_snoc_of_ne (by nofun), hreaped]
      exact iff_of_false hwaitpid nofun
    · rwa [mem_snoc_of_ne (by nofun)]
  | failed hpc hnext hw =>
    rw [hpc] at hs
    obtain ⟨htried, -, -, hpoll⟩ := hs
    exact progress_busy (.inr (.inl hnext)) ((congrArg Watch.triedSigterm hw).trans htried)
      (mt (mem_snoc_of_ne (by nofun)).mp hpoll)
  | idle hpc _ hnext hw =>
    rw [hpc] at hs
    obtain ⟨htried, hwaitpid, -⟩ := hs
    obtain ⟨-, hreaped', htried', -⟩ := watch_eq hw
    rw [hnext]
    refine ⟨htried'.trans htried, ?_, by simp⟩
    rw [mem_snoc_of_ne (by nofun), hreaped']
    exact hwaitpid
  | polled hpc hbusy hnext hw =>
    rw [hpc] at hs
    obtain ⟨htried, -, hpoll⟩ := hs
    have hpoll' := mt (mem_snoc_of_ne fun heq => hbusy (Event.poll.inj heq).symm).mp hpoll
    refine progress_busy ?_ ((congrArg Watch.triedSigterm hw).trans htried) hpoll'
    rcases hnext with hnext | hnext | hnext
    · exact .inl hnext
    · exact .inr (.inl hnext)
    · exact .inr (.inr (.inr hnext))
  | drained hpc hreaped hnext hw =>
    rw [hpc] at hs
    obtain ⟨htried, hwaitpid, -⟩ := hs
    rw [hnext]
    have hgone : .waitpid .running ∉ tr ++ [Event.go] := by
      rw [mem_snoc_of_ne (by nofun), hwaitpid, hreaped]
      nofun
    exact progress_unsent ((congrArg Watch.triedSigterm hw).trans htried) fun hidle =>
      hgone hidle.running
  | early hpc hreaped hearly hnext hw =>
    rw [hpc] at hs
    obtain ⟨htried, -, -⟩ := hs
    obtain ⟨hclock, -, htried', -⟩ := watch_eq hw
    rw [hnext]
    refine progress_unsent (htried'.trans htried) fun hidle => ?_
    have hpast := hidle.past
    rw [hclock] at hpast
    exact Rat.not_le.mpr hearly hpast
  | sigterm hpc hreaped hpast _ hnext hw =>
    rw [hpc] at hs
    obtain ⟨-, hwaitpid, hpoll⟩ := hs
    have hclock : t.clock = u.clock := congrArg Watch.clock hw
    rw [hnext]
    refine iff_of_true (congrArg Watch.triedSigterm hw) (.inr ⟨?_, ?_, hclock ▸ hpast⟩)
    · exact List.mem_append_left _ (hwaitpid.mpr hreaped)
    · exact List.mem_append_left _ hpoll
  | grace hpc _ htried hnext hw =>
    rw [hpc] at hs
    obtain ⟨hsame, -, -⟩ := hs
    rw [hnext]
    exact iff_of_true ((congrArg Watch.triedSigterm hw).trans htried) (.inl (hsame ▸ htried))
  | sigkill hpc _ htried _ hnext hw =>
    rw [hpc] at hs
    obtain ⟨hsame, -, -⟩ := hs
    rw [hnext]
    exact ⟨(congrArg Watch.triedSigterm hw).trans htried, hsame ▸ htried⟩
  | sigkilled hpc _ hnext hw =>
    rw [hpc] at hs
    rw [hnext]
    exact iff_of_true ((congrArg Watch.triedSigterm hw).trans hs.1) (.inl hs.2)
  | serve hpc hquiet hnext hw =>
    obtain ⟨htried, hpoll⟩ := (progress_serves hpc).mp hs
    exact progress_busy hnext ((congrArg Watch.triedSigterm hw).trans htried)
      (mt (mem_snoc_of_ne (hquiet _).symm).mp hpoll)

theorem progress_step (hs : Progress c s tr u u.pc) (h : Inside c u e t) :
    Progress c s (tr ++ [e]) t t.pc := by
  obtain ⟨hin, h⟩ := h
  rcases step_cases h with ⟨hpc, htried, -, -, hreaped, hpoll, hwaitpid⟩ | h
  · have hmem : .poll .none ∈ tr ++ [e] ↔ .poll .none ∈ tr := mem_snoc_of_ne (hpoll .none).symm
    have hmem' : .waitpid .running ∈ tr ++ [e] ↔ .waitpid .running ∈ tr :=
      mem_snoc_of_ne (hwaitpid .running).symm
    rw [hpc]
    generalize u.pc = p at hs hin
    cases p
    case top | left | waitpidAfter | outcome | finished | dead => cases hin
    all_goals
      unfold Progress at hs ⊢
      simp only [htried, hreaped, hmem, hmem']
      exact hs
  · exact progress_moves hs hin h

theorem progress_run (h : Transition.Run (Inside c) u tr t) (hu : Progress c s [e] u u.pc) :
    Progress c s (e :: tr) t t.pc :=
  h.invariant (I := fun tr t => Progress c s (e :: tr) t t.pc) hu fun _ _ _ _ => progress_step

theorem run_iteration (h : Iteration c s tr t) : Transition.Run (Step c) s tr t := by
  obtain ⟨-, hfirst, hrest, -⟩ := h
  exact .cons hfirst (hrest.mono fun _ _ _ => And.right)

theorem step_head (hhead : s.pc = .top) (h : Step c s .go u) :
    u.pc = (if s.reaped then .poll 0 else .waitpid) ∧ u.watch = s.watch := by
  cases stepMoves h with
  | loop hmoves =>
    cases hmoves with
    | top => exact ⟨rfl, rfl⟩
    | timedOut hpc | stdinReady hpc | writeLoop hpc | stdoutReady hpc | stderrReady hpc | hangups hpc
    | left hpc | outcome hpc => cases hhead.symm.trans hpc

theorem progress_head (hhead : s.pc = .top) (h : Step c s .go u) : Progress c s [.go] u u.pc := by
  obtain ⟨hnext, hw⟩ := step_head hhead h
  obtain ⟨-, hreaped, htried, -⟩ := watch_eq hw
  rw [hnext]
  rcases hcase : s.reaped with _ | _
  · exact ⟨htried, hreaped.trans hcase, by simp, by simp⟩
  · exact ⟨htried, iff_of_false (by simp) (by rw [hreaped, hcase]; nofun), by simp⟩

/-- In any iteration that ends, SIGTERM is sent where the loop finds itself idle, or was sent
before. -/
theorem triedSigterm_iteration (h : Iteration c s tr t) :
    t.triedSigterm = true ↔ s.triedSigterm = true ∨ FoundIdle c tr t := by
  obtain ⟨hhead, hfirst, hrest, hended⟩ := h
  have hlast := progress_run hrest (progress_head hhead hfirst)
  generalize t.pc = p at hlast hended
  cases p with
  | top => exact hlast
  | left => exact hlast
  | dead => exact hlast
  | waitpidAfter => exact hlast
  | outcome => exact hlast
  | finished => exact hlast
  | _ => cases hended

/-- What is asked of an iteration. -/
def EndsOverdue (c : Call) (s : State) (tr : List Event) (t : State) : Prop :=
  Overdue c s tr → t.SentSigterm

/-- A busy child outruns its timeout: the deadline is only met where `poll()` reports nothing. -/
theorem endsOverdue_iff {clock : ℚ} (h : Transition.Run (Step c) (init c clock) tr s)
    (hit : Iteration c s tr' t) :
    EndsOverdue c s tr' t ↔ (Overdue c s tr' → s.SentSigterm ∨ FoundIdle c tr' t) := by
  unfold EndsOverdue
  rw [sentSigterm_iff (watched_run h), sentSigterm_iff (watched_run (h.append (run_iteration hit))),
    triedSigterm_iteration hit]

/-! ## A child that writes, and one that sleeps -/

def writes : List Event := [.waitpid .running, .child (.writeStdout (ascii "a")),
  .poll (.ready { stdout := { data := true } }), .go, .go, .read (.data 1), .read (.failed .eagain),
  .go, .go]

def insideNext (s : State) (e : Event) : Option State :=
  if s.pc.inside then s.step impatient e else none

theorem iteration_of_foldlM (hhead : s.pc = .top) (hfirst : s.step impatient .go = some u)
    (hrest : tr.foldlM insideNext u = some t) (hended : t.pc.inside = false) :
    Iteration impatient s (.go :: tr) t := by
  refine ⟨hhead, hfirst, (Transition.Run.of_foldlM hrest).mono fun _ _ _ h => ?_, hended⟩
  unfold insideNext at h
  split at h
  · exact ⟨‹_›, h⟩
  · cases h

theorem endsOverdue_sleeps : ∃ s t, Transition.Run (Step impatient) (init impatient 0) [.tick 3] s ∧
    Iteration impatient s (.go :: sleeps) t ∧ EndsOverdue impatient s (.go :: sleeps) t := by
  have hlast : (([.tick 3] : List Event).foldlM (State.step impatient) (init impatient 0)).any (fun s =>
      s.pc = .top && (s.step impatient .go).any fun u => (sleeps.foldlM insideNext u).any fun t =>
        t.pc = .top ∧ t.clock = 3) = true := by
    decide +kernel
  obtain ⟨s, hs, hs'⟩ := (Option.any_eq_true _ _).mp hlast
  obtain ⟨hhead, hu⟩ := Bool.and_eq_true_iff.mp hs'
  obtain ⟨u, hu, hu'⟩ := (Option.any_eq_true _ _).mp hu
  obtain ⟨t, ht, ht'⟩ := (Option.any_eq_true _ _).mp hu'
  obtain ⟨hend, hclock⟩ := of_decide_eq_true ht'
  have hit := iteration_of_foldlM (of_decide_eq_true hhead) hu ht (by rw [hend]; rfl)
  have hrun := Transition.Run.of_foldlM hs
  refine ⟨s, t, hrun, hit, (endsOverdue_iff hrun hit).mpr fun _ => .inr ⟨?_, ?_, ?_⟩⟩
  · simp [sleeps]
  · simp [sleeps]
  · rw [hclock]
    decide +kernel

/-- One second late, and the child is left alone because it has just written something. -/
theorem not_endsOverdue_writes : ∃ s t,
    Transition.Run (Step impatient) (init impatient 0) (.go :: writes ++ [.tick 3]) s ∧
      Iteration impatient s (.go :: writes) t ∧ ¬EndsOverdue impatient s (.go :: writes) t := by
  have hlast : ((.go :: writes ++ [.tick 3] : List Event).foldlM (State.step impatient)
      (init impatient 0)).any (fun s => (s.pc = .top ∧ s.reaped = false ∧ s.clock = 3) &&
        (s.step impatient .go).any fun u => (writes.foldlM insideNext u).any fun t =>
          t.pc = .top ∧ t.sent.isEmpty) = true := by
    decide +kernel
  obtain ⟨s, hs, hs'⟩ := (Option.any_eq_true _ _).mp hlast
  obtain ⟨hstart, hu⟩ := Bool.and_eq_true_iff.mp hs'
  obtain ⟨hhead, hreaped, hclock⟩ := of_decide_eq_true hstart
  obtain ⟨u, hu, hu'⟩ := (Option.any_eq_true _ _).mp hu
  obtain ⟨t, ht, ht'⟩ := (Option.any_eq_true _ _).mp hu'
  obtain ⟨hend, hsent⟩ := of_decide_eq_true ht'
  have hit := iteration_of_foldlM hhead hu ht (by rw [hend]; rfl)
  refine ⟨s, t, Transition.Run.of_foldlM hs, hit, fun hmeets => ?_⟩
  obtain ⟨time, htime⟩ := hmeets ⟨by decide, hreaped, by rw [hclock]; decide +kernel, by simp [writes]⟩
  rw [List.isEmpty_iff.mp hsent] at htime
  cases htime

end PgCmdQueue.RunCmd
