import PgCmdQueue.RunCmd.Outcome

/-!
# SIGCHLD and the wait in `poll()`

The handler does nothing. All that is wanted of it is that `poll()` returns when the child
exits, and that it only does if it is entered before the signal is handled.
-/

namespace PgCmdQueue.RunCmd

open Cpp

/-! ## The loop and the signal -/

/-- `inPoll` tells that the thread is inside of the call it stands in front of. -/
structure Signalled where
  loop : State
  sigchldPending : Bool := false
  sigchldHandled : Bool := false
  inPoll : Bool := false

inductive SignalEvent where
  | enterPoll
  | leavePoll (r : PollResult)
  | sigchldHandler
  | other (e : Event)

def ChildAct.isExit : ChildAct → Bool
  | .exit _ _ => true
  | _ => false

/-- A handler that has run makes `poll()` fail with EINTR. -/
def Signalled.step (c : Call) (s : Signalled) : SignalEvent → Option Signalled
  | .enterPoll => match s.loop.pc with
    | .poll _ => if s.inPoll then none else some { s with inPoll := true }
    | _ => none
  | .leavePoll r =>
    if s.inPoll then (s.loop.loop c (.poll r)).map fun loop => { s with loop := loop, inPoll := false }
    else none
  | .sigchldHandler =>
    if s.sigchldPending then
      let s := { s with sigchldPending := false, sigchldHandled := true }
      if s.inPoll then
        (s.loop.loop c (.poll (.failed .eintr))).map fun loop => { s with loop := loop, inPoll := false }
      else some s
    else none
  | .other (.poll _) => none
  | .other (.child a) => (s.loop.childStep c a).map fun loop =>
    { s with loop := loop, sigchldPending := s.sigchldPending || a.isExit }
  | .other e => (s.loop.step c e).map fun loop => { s with loop := loop }

def SignalStep (c : Call) (s : Signalled) (e : SignalEvent) (t : Signalled) : Prop :=
  s.step c e = some t

/-- No entry reports anything, now or later, whatever happens at the other ends. -/
def State.NothingToReport (c : Call) (s : State) : Prop :=
  ∀ acts t, Transition.Run (fun s a t => s.childStep c a = some t) s acts t →
    ∀ r, t.reports c r = true → r = {}

/-- Blocked without a timeout, with a child that waits to be reaped and nothing left that
could end the call. -/
def Signalled.Stuck (c : Call) (s : Signalled) : Prop :=
  s.inPoll = true ∧ s.loop.pc = .poll (-1) ∧ (∃ d, s.loop.child = .zombie d) ∧
    s.sigchldHandled = true ∧ s.sigchldPending = false ∧ s.loop.NothingToReport c

variable {c : Call} {s t : State} {e : Event} {timeout : Int}

/-! ## What can be reported -/

def State.noFd (s : State) : Bool := !s.stdinFd.fd && !s.stdoutFd.fd && !s.stderrFd.fd

theorem noFd_child {a : ChildAct} (h : s.ChildMoves c a t) : t.noFd = s.noFd := by
  cases h <;> rfl

/-- `poll()` can report something of every entry, a hangup if there is one. -/
theorem exists_reports (p : PollFd) (able must gone : Bool) (h : must = true → able = true) :
    ∃ r, p.reports able must gone r = true ∧ (p.fd = true → r.hangup = gone) := by
  unfold PollFd.reports
  split
  · refine ⟨⟨p.events && able, gone⟩, ?_, fun _ => rfl⟩
    cases p.events <;> cases able <;> cases must <;> simp_all
  · exact ⟨{}, by simp, fun hfd => absurd hfd ‹_›⟩

theorem reports_noFd (h : s.noFd = true) {r : PollReport} (hr : s.reports c r = true) : r = {} := by
  simp only [State.noFd, Bool.and_eq_true, Bool.not_eq_true'] at h
  obtain ⟨⟨hstdin, hstdout⟩, hstderr⟩ := h
  simp only [State.reports, PollFd.reports, hstdin, hstdout, hstderr, Bool.and_eq_true] at hr
  obtain ⟨⟨h0, h1⟩, h2⟩ := hr
  cases r
  simp_all

/-- The other ends of the pipes are all closed in the end. -/
def State.closed (s : State) : State := { s with
  stdin := { s.stdin with reader := false }
  stdout := { s.stdout with writer := false }
  stderr := { s.stderr with writer := false } }

theorem run_closed (c : Call) (s : State) : Transition.Run (fun s a t => s.childStep c a = some t) s
    [.closeStdin, .closeStdout, .closeStderr] s.closed :=
  ((Transition.Run.single (e := ChildAct.closeStdin) rfl).snoc (e := ChildAct.closeStdout) rfl).snoc
    (e := ChildAct.closeStderr) rfl

theorem exists_reports_closed (c : Call) (s : State) : ∃ r, s.closed.reports c r = true ∧
    (s.stdinFd.fd = true → r.stdin.hangup = true) ∧ (s.stdoutFd.fd = true → r.stdout.hangup = true) ∧
      (s.stderrFd.fd = true → r.stderr.hangup = true) := by
  obtain ⟨r0, h0, hup0⟩ := exists_reports s.stdinFd (s.stdin.buf.length < c.capacity)
    (s.stdin.buf.isEmpty && false) true (by simp)
  obtain ⟨r1, h1, hup1⟩ := exists_reports s.stdoutFd (!s.stdout.buf.isEmpty || true)
    (!s.stdout.buf.isEmpty) true (by simp)
  obtain ⟨r2, h2, hup2⟩ := exists_reports s.stderrFd (!s.stderr.buf.isEmpty || true)
    (!s.stderr.buf.isEmpty) true (by simp)
  refine ⟨⟨r0, r1, r2⟩, ?_, hup0, hup1, hup2⟩
  simp only [State.reports, Bool.and_eq_true]
  exact ⟨⟨h0, h1⟩, h2⟩

theorem nothingToReport_iff (c : Call) (s : State) : s.NothingToReport c ↔ s.noFd = true := by
  constructor
  · intro h
    obtain ⟨r, hr, hstdin, hstdout, hstderr⟩ := exists_reports_closed c s
    obtain rfl := h _ _ (run_closed c s) r hr
    simp only [State.noFd, Bool.and_eq_true, Bool.not_eq_true']
    refine ⟨⟨?_, ?_⟩, ?_⟩
    · exact Bool.eq_false_iff.mpr fun hfd => absurd (hstdin hfd) nofun
    · exact Bool.eq_false_iff.mpr fun hfd => absurd (hstdout hfd) nofun
    · exact Bool.eq_false_iff.mpr fun hfd => absurd (hstderr hfd) nofun
  · intro h acts t hrun r hr
    have ht : t.noFd = true := hrun.invariant_state (I := fun t => t.noFd = true) h
      fun _ _ _ hs hstep => (noFd_child (childMoves hstep)).trans hs
    exact reports_noFd ht hr

/-! ## How the loop comes to wait -/

theorem reaped_onPoll (r : PollResult) : (s.onPoll c r).reaped = s.reaped := by
  unfold State.onPoll
  split <;> rfl

theorem reaped_onTimedOut : (s.onTimedOut c).reaped = s.reaped := by
  unfold State.onTimedOut
  dsimp only
  repeat' split
  all_goals rfl

theorem reaped_onWriteLoop : (s.onWriteLoop c).reaped = s.reaped := by
  unfold State.onWriteLoop
  repeat' split
  all_goals rfl

theorem reaped_onOutcome : (s.onOutcome c).reaped = s.reaped := by
  unfold State.onOutcome
  dsimp only
  repeat' split
  all_goals rfl

theorem reaped_of_loop (h : s.LoopMoves c e t) :
    t.reaped = s.reaped ∨ ∃ d, t.child = .reaped d := by
  cases h with
  | @died d => exact .inr ⟨d, rfl⟩
  | poll => exact .inl (reaped_onPoll _)
  | timedOut => exact .inl reaped_onTimedOut
  | writeLoop => exact .inl reaped_onWriteLoop
  | outcome => exact .inl reaped_onOutcome
  -- The results of the other system calls.
  | @sigkilled r | @waitpidAfter r => cases r <;> exact .inl rfl
  | write =>
    unfold State.onWrite
    split <;> exact .inl rfl
  | readStdout =>
    unfold State.onReadStdout
    split <;> exact .inl rfl
  | readStderr =>
    unfold State.onReadStderr
    split <;> exact .inl rfl
  | top | running | failed | stdinReady | stdoutReady | stderrReady | hangups | left => exact .inl rfl

/-- The loop waits for a child that it has just found running, or has reaped. -/
theorem child_of_loop (h : s.LoopMoves c e t) (hpc : t.pc = .poll timeout) :
    t.child = .running ∨ (s.reaped = true ∧ t.child = s.child) ∨ ∃ d, t.child = .reaped d := by
  cases h with
  | top =>
    dsimp only at hpc
    split at hpc
    · exact .inr (.inl ⟨‹_›, rfl⟩)
    · cases hpc
  | running _ hr =>
    unfold State.waitpidReturns at hr
    exact .inl (of_decide_eq_true (Bool.and_eq_true_iff.mp hr).2)
  | @died d => exact .inr (.inr ⟨d, rfl⟩)
  | failed => cases hpc
  | poll =>
    unfold State.onPoll State.abort at hpc
    split at hpc <;> cases hpc
  | timedOut =>
    unfold State.onTimedOut at hpc
    dsimp only at hpc
    repeat' split at hpc
    all_goals cases hpc
  | @sigkilled r | @waitpidAfter r => cases r <;> cases hpc
  | writeLoop =>
    unfold State.onWriteLoop at hpc
    repeat' split at hpc
    all_goals cases hpc
  | write =>
    unfold State.onWrite State.abort at hpc
    split at hpc <;> cases hpc
  | readStdout hs =>
    unfold State.onReadStdout State.abort at hpc
    split at hpc <;> first | cases hpc | cases hs.symm.trans hpc
  | readStderr hs =>
    unfold State.onReadStderr State.abort at hpc
    split at hpc <;> first | cases hpc | cases hs.symm.trans hpc
  | outcome =>
    rw [(onOutcome_child (c := c) s).1] at hpc
    cases hpc
  | hangups => cases hpc
  | stdinReady | stdoutReady | stderrReady | left =>
    dsimp only at hpc
    split at hpc <;> cases hpc

theorem pc_child {a : ChildAct} (h : s.ChildMoves c a t) : t.pc = s.pc ∧ t.reaped = s.reaped := by
  cases h <;> exact ⟨rfl, rfl⟩

theorem child_child {a : ChildAct} (h : s.ChildMoves c a t) :
    t.child = s.child ∨ s.child = .running ∧ a.isExit = true := by
  cases h with
  | exit hrunning => exact .inr ⟨hrunning, rfl⟩
  | _ => exact .inl rfl

/-! ## Signals that are handled in time -/

/-- The child was found running, `poll()` is not entered yet, and it has nothing to wait for. -/
def Signalled.BeforeSilentPoll (s : Signalled) : Prop :=
  s.inPoll = false ∧ (∃ timeout, s.loop.pc = .poll timeout) ∧ s.loop.noFd = true

def InTime (s : Signalled) : SignalEvent → Prop
  | .sigchldHandler => ¬s.BeforeSilentPoll
  | _ => True

def InTimeStep (c : Call) (s : Signalled) (e : SignalEvent) (t : Signalled) : Prop :=
  InTime s e ∧ SignalStep c s e t

/-- While a child waits to be reaped and its signal was handled, something is left to report. -/
structure Signalled.Wakeful (s : Signalled) : Prop where
  reaped : s.loop.reaped = true → ∃ d, s.loop.child = .reaped d
  waiting : ∀ timeout d, s.loop.pc = .poll timeout → s.loop.child = .zombie d →
    s.sigchldPending = false → s.loop.noFd = false

variable {u v : Signalled} {ev : SignalEvent}

theorem wakeful_loop (hu : u.Wakeful) (h : u.loop.LoopMoves c e t) (pending handled inPoll : Bool) :
    (⟨t, pending, handled, inPoll⟩ : Signalled).Wakeful := by
  constructor
  · intro hreaped
    rcases reaped_of_loop h with hsame | hchild
    · obtain ⟨d, hd⟩ := hu.reaped (hsame ▸ hreaped)
      rcases (leaves_loop h).child with hchild | ⟨d', hd', -⟩
      · exact ⟨d, hchild.trans hd⟩
      · rw [hd] at hd'
        cases hd'
    · exact hchild
  · intro timeout d hpc hd
    -- The loop never comes to wait while it knows of no death and there is one.
    dsimp only at hpc hd
    rcases child_of_loop h hpc with hrunning | ⟨hreaped, hchild⟩ | ⟨d', hd'⟩
    · rw [hrunning] at hd
      cases hd
    · obtain ⟨d', hd'⟩ := hu.reaped hreaped
      rw [hchild, hd'] at hd
      cases hd
    · rw [hd'] at hd
      cases hd

/-- The signal of a child that exits is pending. -/
theorem wakeful_child {a : ChildAct} (hu : u.Wakeful) (h : u.loop.ChildMoves c a t) :
    Signalled.Wakeful { u with loop := t, sigchldPending := u.sigchldPending || a.isExit } := by
  obtain ⟨hpc, hreaped⟩ := pc_child h
  have hfd := noFd_child h
  constructor <;> dsimp only
  · intro hreaped'
    obtain ⟨d, hd⟩ := hu.reaped (hreaped ▸ hreaped')
    rcases child_child h with hchild | ⟨hrunning, -⟩
    · exact ⟨d, hchild.trans hd⟩
    · rw [hrunning] at hd
      cases hd
  · intro timeout d hpc' hd hpending
    rw [Bool.or_eq_false_iff] at hpending
    rcases child_child h with hchild | ⟨-, hexit⟩
    · rw [hfd]
      exact hu.waiting timeout d (hpc ▸ hpc') (hchild ▸ hd) hpending.1
    · rw [hexit] at hpending
      cases hpending.2

theorem wakeful_sigchldHandler (hu : u.Wakeful) (htime : ¬u.BeforeSilentPoll)
    (h : u.step c .sigchldHandler = some v) : v.Wakeful := by
  simp only [Signalled.step, Option.ite_none_right_eq_some] at h
  obtain ⟨-, h⟩ := h
  split at h
  · rw [Option.map_eq_some_iff] at h
    obtain ⟨t, ht, rfl⟩ := h
    exact wakeful_loop hu (loopMoves ht) _ _ _
  · rename_i hin
    cases h
    refine ⟨hu.reaped, fun timeout d hpc _ _ => ?_⟩
    rw [Bool.eq_false_iff]
    exact fun hfd => htime ⟨Bool.eq_false_iff.mpr hin, ⟨timeout, hpc⟩, hfd⟩

theorem wakeful_step (hu : u.Wakeful) (h : InTimeStep c u ev v) : v.Wakeful := by
  obtain ⟨htime, h⟩ := h
  unfold SignalStep at h
  cases ev with
  | enterPoll =>
    simp only [Signalled.step] at h
    split at h
    · split at h <;> cases h
      exact ⟨hu.reaped, hu.waiting⟩
    · cases h
  | leavePoll r =>
    simp only [Signalled.step, Option.ite_none_right_eq_some, Option.map_eq_some_iff] at h
    obtain ⟨-, t, ht, rfl⟩ := h
    exact wakeful_loop hu (loopMoves ht) _ _ _
  | sigchldHandler => exact wakeful_sigchldHandler hu htime h
  | other e =>
    cases e with
    | poll r => cases h
    | child a =>
      simp only [Signalled.step, Option.map_eq_some_iff] at h
      obtain ⟨t, ht, rfl⟩ := h
      exact wakeful_child hu (childMoves ht)
    | tick clock =>
      cases h
      exact ⟨hu.reaped, hu.waiting⟩
    | go | waitpid r | write r | read r =>
      simp only [Signalled.step, State.step, Option.map_eq_some_iff] at h
      obtain ⟨t, ht, rfl⟩ := h
      exact wakeful_loop hu (loopMoves ht) _ _ _

/-- The wakeup is not lost. -/
theorem not_stuck_of_run {clock : ℚ} {tr : List SignalEvent}
    (h : Transition.Run (InTimeStep c) { loop := init c clock } tr u) : ¬u.Stuck c := by
  have hu : u.Wakeful := h.invariant_state ⟨nofun, nofun⟩ fun _ _ _ => wakeful_step
  rintro ⟨-, hpc, ⟨d, hd⟩, -, hpending, hsilent⟩
  have hfd := hu.waiting _ d hpc hd hpending
  rw [(nothingToReport_iff c u.loop).mp hsilent] at hfd
  cases hfd

/-! ## A signal that comes too early -/

/-- The child closes its three pipes, and the loop forgets them. -/
def closesFirst : List SignalEvent := [.other .go, .other (.waitpid .running), .enterPoll,
  .other (.child .closeStdin), .other (.child .closeStdout), .other (.child .closeStderr),
  .leavePoll (.ready { allHungUp with stdin := { hangup := true } }), .other .go, .other .go,
  .other .go, .other .go, .other .go, .other (.waitpid .running)]

/-- Then it exits while the loop is blocked. -/
def signalInPoll : List SignalEvent := closesFirst ++ [.enterPoll,
  .other (.child (.exit .success false)), .sigchldHandler, .other .go, .other (.waitpid (.died .success))]

/-- Then it exits, and the signal is handled, between `waitpid()` and `poll()`. -/
def signalBeforePoll : List SignalEvent := closesFirst ++ [.other (.child (.exit .success false)),
  .sigchldHandler, .enterPoll]

def inTimeNext (u : Signalled) (ev : SignalEvent) : Option Signalled :=
  match ev with
  | .sigchldHandler => if u.inPoll then u.step silent ev else none
  | _ => u.step silent ev

theorem inTimeStep_of_next (h : inTimeNext u ev = some v) : InTimeStep silent u ev v := by
  cases ev with
  | sigchldHandler =>
    simp only [inTimeNext, Option.ite_none_right_eq_some] at h
    refine ⟨fun hearly => ?_, h.2⟩
    rw [hearly.1] at h
    cases h.1
  | _ => exact ⟨trivial, h⟩

theorem not_stuck_of_run_signalInPoll : ∃ u, Transition.Run (InTimeStep silent)
    { loop := init silent 0 } signalInPoll u ∧ u.loop.child = .reaped .success ∧ ¬u.Stuck silent := by
  have hlast : (signalInPoll.foldlM inTimeNext { loop := init silent 0 }).any (fun u =>
      u.loop.child = .reaped .success) = true := by
    decide +kernel
  obtain ⟨u, hu, hu'⟩ := (Option.any_eq_true _ _).mp hlast
  have hrun := (Transition.Run.of_foldlM hu).mono fun _ _ _ => inTimeStep_of_next
  exact ⟨u, hrun, of_decide_eq_true hu', not_stuck_of_run hrun⟩

theorem stuck_signalBeforePoll : ∃ u, Transition.Run (SignalStep silent) { loop := init silent 0 }
    signalBeforePoll u ∧ silent.queueCmdTimeoutSec = 0 ∧ u.Stuck silent := by
  have hlast : (signalBeforePoll.foldlM (Signalled.step silent) { loop := init silent 0 }).any (fun u =>
      u.inPoll = true ∧ u.loop.pc = .poll (-1) ∧ u.loop.child = .zombie .success ∧
        u.sigchldHandled = true ∧ u.sigchldPending = false ∧ u.loop.noFd = true) = true := by
    decide +kernel
  obtain ⟨u, hu, hu'⟩ := (Option.any_eq_true _ _).mp hlast
  obtain ⟨hin, hpc, hchild, hhandled, hpending, hfd⟩ := of_decide_eq_true hu'
  exact ⟨u, Transition.Run.of_foldlM hu, rfl, hin, hpc, ⟨_, hchild⟩, hhandled, hpending,
    (nothingToReport_iff silent u.loop).mpr hfd⟩

end PgCmdQueue.RunCmd
