import PgCmdQueue.RunCmd.Capture

/-!
# The signals that a command is sent

A command that runs for too long gets SIGTERM, and SIGKILL if that does not help.
-/

namespace PgCmdQueue.RunCmd

/-! ## The steps of the loop, as the deadline sees them -/

/-- What the code knows of the time and of the signals it has sent. -/
structure Watch where
  clock : ℚ
  reaped : Bool
  triedSigterm : Bool
  sigtermTime : ℚ
  sent : List (Nat × ℚ)

def State.watch (s : State) : Watch where
  clock := s.clock
  reaped := s.reaped
  triedSigterm := s.triedSigterm
  sigtermTime := s.sigtermTime
  sent := s.sent

/-- The part of an iteration that serves the pipes. -/
def Pc.serves : Pc → Bool
  | .stdinReady => true
  | .writeLoop => true
  | .write => true
  | .stdoutReady => true
  | .readStdout => true
  | .stderrReady => true
  | .readStderr => true
  | .hangups => true
  | _ => false

/-- One case for each thing that the deadline can see happen. -/
inductive State.Moves (c : Call) (s : State) : Event → State → Prop
  | head {t : State} (pc : s.pc = .top) (next : t.pc = if s.reaped then .poll 0 else .waitpid)
      (watch : t.watch = s.watch) : s.Moves c .go t
  | running {t : State} (pc : s.pc = .waitpid) (next : t.pc = .poll (s.pollTimeout c))
      (watch : t.watch = s.watch) : s.Moves c (.waitpid .running) t
  | died {d : Death} {t : State} (pc : s.pc = .waitpid) (next : t.pc = .poll 0)
      (watch : t.watch = { s.watch with reaped := true }) : s.Moves c (.waitpid (.died d)) t
  | failed {err : Errno} {t : State} (pc : s.pc = .waitpid) (next : t.pc = .left)
      (watch : t.watch = s.watch) : s.Moves c (.waitpid (.failed err)) t
  | idle {timeout : Int} {t : State} (pc : s.pc = .poll timeout) (wait : 0 ≤ timeout)
      (next : t.pc = .timedOut) (watch : t.watch = s.watch) : s.Moves c (.poll .none) t
  | polled {timeout : Int} {r : PollResult} {t : State} (pc : s.pc = .poll timeout)
      (busy : r ≠ .none) (next : t.pc = .top ∨ t.pc = .left ∨ t.pc.serves = true)
      (watch : t.watch = s.watch) : s.Moves c (.poll r) t
  | drained {t : State} (pc : s.pc = .timedOut) (reaped : s.reaped = true) (next : t.pc = .left)
      (watch : t.watch = s.watch) : s.Moves c .go t
  | early {t : State} (pc : s.pc = .timedOut) (reaped : s.reaped = false)
      (early : s.clock - c.cmdRuntimeStart < c.queueCmdTimeoutSec) (next : t.pc = .top)
      (watch : t.watch = s.watch) : s.Moves c .go t
  | sigterm {t : State} (pc : s.pc = .timedOut) (reaped : s.reaped = false)
      (past : c.queueCmdTimeoutSec ≤ s.clock - c.cmdRuntimeStart) (tried : s.triedSigterm = false)
      (next : t.pc = .top) (watch : t.watch = { s.watch with
        triedSigterm := true, sigtermTime := s.clock, sent := s.sent ++ [(sigterm, s.clock)] }) :
      s.Moves c .go t
  | grace {t : State} (pc : s.pc = .timedOut) (reaped : s.reaped = false)
      (tried : s.triedSigterm = true) (next : t.pc = .top) (watch : t.watch = s.watch) :
      s.Moves c .go t
  | sigkill {t : State} (pc : s.pc = .timedOut) (reaped : s.reaped = false)
      (tried : s.triedSigterm = true)
      (past : graceSecondsBetweenSigtermAndSigkill < s.clock - s.sigtermTime)
      (next : t.pc = .sigkilled)
      (watch : t.watch = { s.watch with sent := s.sent ++ [(sigkill, s.clock)] }) :
      s.Moves c .go t
  | sigkilled {r : WaitResult} {t : State} (pc : s.pc = .sigkilled) (found : r ≠ .running)
      (next : t.pc = .left) (watch : t.watch = s.watch) : s.Moves c (.waitpid r) t
  | serve {e : Event} {t : State} (pc : s.pc.serves = true) (quiet : ∀ r, e ≠ .poll r)
      (next : t.pc = .top ∨ t.pc = .left ∨ t.pc = .dead ∨ t.pc.serves = true)
      (watch : t.watch = s.watch) : s.Moves c e t
  | after {e : Event} {t : State} (pc : s.pc.inLoop = false) (next : t.pc.inLoop = false)
      (watch : t.watch = s.watch) : s.Moves c e t

variable {c : Call} {s t u : State} {tr tr' : List Event} {e : Event}

theorem moves_poll {timeout : Int} {r : PollResult} (hpc : s.pc = .poll timeout)
    (hr : s.pollReturns c timeout r = true) : s.Moves c (.poll r) (s.onPoll c r) := by
  rcases r with err | _ | report
  · by_cases heintr : err = .eintr
    · subst heintr
      exact .polled hpc nofun (.inl rfl) rfl
    · have habort : s.onPoll c (.failed err) = s.abort "poll() error: " (c.strerror err) := by
        cases err <;> first | rfl | exact absurd rfl heintr
      rw [habort]
      exact .polled hpc nofun (.inr (.inl rfl)) rfl
  · have hwait : 0 ≤ timeout := of_decide_eq_true (Bool.and_eq_true_iff.mp hr).1
    exact .idle hpc hwait rfl rfl
  · exact .polled hpc nofun (.inr (.inr rfl)) rfl

theorem moves_timedOut (hpc : s.pc = .timedOut) : s.Moves c .go (s.onTimedOut c) := by
  unfold State.onTimedOut
  split
  · exact .drained hpc ‹_› rfl rfl
  have hreaped : s.reaped = false := Bool.eq_false_iff.mpr ‹_›
  dsimp only
  split
  · split
    · split
      · exact .sigkill hpc hreaped ‹_› ‹_› rfl rfl
      · exact .grace hpc hreaped ‹_› rfl rfl
    · exact .sigterm hpc hreaped ‹_› (Bool.eq_false_iff.mpr ‹_›) rfl rfl
  · rename_i hearly
    exact .early hpc hreaped (Rat.not_le.mp hearly) rfl rfl

theorem moves_writeLoop (hs : s.pc.serves = true) : s.Moves c .go (s.onWriteLoop c) := by
  unfold State.onWriteLoop
  split
  · exact .serve hs nofun (.inr (.inr (.inr rfl))) rfl
  split <;> exact .serve hs nofun (.inr (.inr (.inr rfl))) rfl

theorem moves_write {r : WriteResult} (hs : s.pc.serves = true) : s.Moves c (.write r) (s.onWrite c r) := by
  unfold State.onWrite
  split
  · exact .serve hs nofun (.inr (.inr (.inr rfl))) rfl
  · exact .serve hs nofun (.inr (.inl rfl)) rfl
  · exact .serve hs nofun (.inr (.inr (.inl rfl))) rfl
  · exact .serve hs nofun (.inr (.inr (.inr rfl))) rfl

theorem moves_readStdout {r : ReadResult} (hs : s.pc.serves = true) :
    s.Moves c (.read r) (s.onReadStdout c r) := by
  unfold State.onReadStdout
  split
  · exact .serve hs nofun (.inr (.inr (.inr rfl))) rfl
  · exact .serve hs nofun (.inr (.inl rfl)) rfl
  · exact .serve hs nofun (.inr (.inr (.inr rfl))) rfl
  · exact .serve hs nofun (.inr (.inr (.inr hs))) rfl

theorem moves_readStderr {r : ReadResult} (hs : s.pc.serves = true) :
    s.Moves c (.read r) (s.onReadStderr c r) := by
  unfold State.onReadStderr
  split
  · exact .serve hs nofun (.inr (.inr (.inr rfl))) rfl
  · exact .serve hs nofun (.inr (.inl rfl)) rfl
  · exact .serve hs nofun (.inr (.inr (.inr rfl))) rfl
  · exact .serve hs nofun (.inr (.inr (.inr hs))) rfl

theorem moves_outcome (hs : s.pc.inLoop = false) : s.Moves c .go (s.onOutcome c) := by
  unfold State.onOutcome
  dsimp only
  split
  · exact .after hs rfl rfl
  split
  · split
    · exact .after hs rfl rfl
    split <;> exact .after hs rfl rfl
  · exact .after hs rfl rfl

theorem moves_loop (h : s.LoopMoves c e t) : s.Moves c e t := by
  cases h with
  | top hpc => exact .head hpc rfl rfl
  | failed hpc => exact .failed hpc rfl rfl
  | running hpc => exact .running hpc rfl rfl
  | died hpc => exact .died hpc rfl rfl
  | poll hpc hr => exact moves_poll hpc hr
  | timedOut hpc => exact moves_timedOut hpc
  | @sigkilled r hpc hr =>
    rcases r with err | _ | d
    · exact .sigkilled hpc nofun rfl rfl
    · cases hr
    · exact .sigkilled hpc nofun rfl rfl
  | stdinReady hpc | stdoutReady hpc | stderrReady hpc =>
    refine .serve (by rw [hpc]; rfl) nofun (.inr (.inr (.inr ?_))) rfl
    dsimp only
    split <;> rfl
  | writeLoop hpc => exact moves_writeLoop (by rw [hpc]; rfl)
  | write hpc => exact moves_write (by rw [hpc]; rfl)
  | readStdout hpc => exact moves_readStdout (by rw [hpc]; rfl)
  | readStderr hpc => exact moves_readStderr (by rw [hpc]; rfl)
  | hangups hpc => exact .serve (by rw [hpc]; rfl) nofun (.inl rfl) rfl
  | left hpc =>
    refine .after (by rw [hpc]; rfl) ?_ rfl
    dsimp only
    split <;> rfl
  | @waitpidAfter r hpc => cases r <;> exact .after (by rw [hpc]; rfl) rfl rfl
  | outcome hpc => exact moves_outcome (by rw [hpc]; rfl)

/-- The child and the clock leave the loop where it is. -/
theorem step_cases (h : Step c s e t) : (t.pc = s.pc ∧ t.triedSigterm = s.triedSigterm ∧
    t.sigtermTime = s.sigtermTime ∧ t.sent = s.sent ∧ t.reaped = s.reaped ∧
      (∀ r, e ≠ .poll r) ∧ ∀ r, e ≠ .waitpid r) ∨ s.Moves c e t := by
  cases stepMoves h with
  | child hmoves => cases hmoves <;> exact .inl ⟨rfl, rfl, rfl, rfl, rfl, nofun, nofun⟩
  | tick => exact .inl ⟨rfl, rfl, rfl, rfl, rfl, nofun, nofun⟩
  | loop hmoves => exact .inr (moves_loop hmoves)

/-! ## What is sent -/

/-- How far a command was pushed, and when. -/
inductive Stage where
  | unsignalled
  | asked (term : ℚ)
  | forced (term kill : ℚ)

def Stage.sent : Stage → List (Nat × ℚ)
  | .unsignalled => []
  | .asked term => [(sigterm, term)]
  | .forced term kill => [(sigterm, term), (sigkill, kill)]

/-- Not before the deadline, and not by force before the grace period is over. -/
def Stage.Lawful (c : Call) : Stage → Prop
  | .unsignalled => True
  | .asked term => c.queueCmdTimeoutSec ≤ term - c.cmdRuntimeStart
  | .forced term kill => c.queueCmdTimeoutSec ≤ term - c.cmdRuntimeStart ∧
    graceSecondsBetweenSigtermAndSigkill < kill - term

/-- The loop is left, or will be in the next step. -/
def Pc.over (p : Pc) : Bool := p = .sigkilled || !p.inLoop

/-- What the loop remembers of the stage. It ends with the last one. -/
def Stage.Remembered (s : State) : Stage → Prop
  | .unsignalled => s.triedSigterm = false
  | .asked term => s.triedSigterm = true ∧ s.sigtermTime = term
  | .forced _ _ => s.triedSigterm = true ∧ s.pc.over = true

/-- A `poll()` without a timeout does not time out. -/
def Pc.Untimed : Pc → Prop
  | .poll timeout => timeout < 0
  | .timedOut => False
  | _ => True

structure State.Watched (c : Call) (s : State) : Prop where
  stage : ∃ g : Stage, g.Lawful c ∧ s.sent = g.sent ∧ g.Remembered s
  untimed : c.queueCmdTimeoutSec = 0 → s.sent = [] ∧ (s.reaped = false → s.pc.Untimed)

theorem watch_eq (h : t.watch = s.watch) : t.clock = s.clock ∧ t.reaped = s.reaped ∧
    t.triedSigterm = s.triedSigterm ∧ t.sigtermTime = s.sigtermTime ∧ t.sent = s.sent := by
  unfold State.watch at h
  simpa only [Watch.mk.injEq] using h

/-- A stage outlasts what neither sends a signal nor comes back to the loop. -/
theorem remembered_of_eq {g : Stage} (hg : g.Remembered s) (htried : t.triedSigterm = s.triedSigterm)
    (htime : t.sigtermTime = s.sigtermTime)
    (hover : s.pc.over = true → t.pc.over = true) : g.Remembered t := by
  cases g with
  | unsignalled => exact htried.trans hg
  | asked term => exact ⟨htried.trans hg.1, htime.trans hg.2⟩
  | forced term kill => exact ⟨htried.trans hg.1, hover hg.2⟩

theorem pollTimeout_neg (h : c.queueCmdTimeoutSec = 0) : s.pollTimeout c < 0 := by
  unfold State.pollTimeout
  rw [if_pos h]
  decide

theorem untimed_of_serves {p : Pc} (h : p.serves = true) : p.Untimed := by
  unfold Pc.serves at h
  split at h <;> trivial

theorem untimed_of_not_inLoop {p : Pc} (h : p.inLoop = false) : p.Untimed := by
  unfold Pc.inLoop at h
  split at h <;> trivial

theorem not_over_of_serves {p : Pc} (h : p.serves = true) : p.over = false := by
  cases p <;> first | rfl | cases h

theorem not_over_of_eq {p : Pc} {Q : Prop} (hpc : s.pc = p) (hp : p.over = false) :
    s.pc.over = true → Q := by
  rw [hpc, hp]
  nofun

/-- A step that sends nothing. -/
theorem State.Watched.quiet (hs : s.Watched c) (hw : t.watch = s.watch)
    (hover : s.pc.over = true → t.pc.over = true)
    (hwait : c.queueCmdTimeoutSec = 0 → s.reaped = false → t.pc.Untimed) : t.Watched c := by
  obtain ⟨-, hreaped, htried, htime, hsent⟩ := watch_eq hw
  obtain ⟨g, hlawful, hg, hmem⟩ := hs.stage
  refine ⟨⟨g, hlawful, hsent.trans hg, remembered_of_eq hmem htried htime hover⟩, fun hzero => ?_⟩
  exact ⟨hsent.trans (hs.untimed hzero).1, fun hr => hwait hzero (hreaped ▸ hr)⟩

theorem watched_moves (hs : s.Watched c) (h : s.Moves c e t) : t.Watched c := by
  cases h with
  | head hpc hnext hw =>
    refine hs.quiet hw (not_over_of_eq hpc rfl) fun _ hr => ?_
    rw [hnext, hr]
    trivial
  | running hpc hnext hw =>
    refine hs.quiet hw (not_over_of_eq hpc rfl) fun hzero _ => ?_
    rw [hnext]
    exact pollTimeout_neg hzero
  | died hpc hnext hw =>
    obtain ⟨g, hlawful, hg, hmem⟩ := hs.stage
    have hsent : t.sent = s.sent := congrArg Watch.sent hw
    have hreaped : t.reaped = true := congrArg Watch.reaped hw
    refine ⟨⟨g, hlawful, hsent.trans hg, remembered_of_eq hmem (congrArg Watch.triedSigterm hw)
      (congrArg Watch.sigtermTime hw) (not_over_of_eq hpc rfl)⟩,
      fun hzero => ⟨hsent.trans (hs.untimed hzero).1, fun hr => ?_⟩⟩
    rw [hreaped] at hr
    cases hr
  | failed hpc hnext hw =>
    refine hs.quiet hw (fun _ => by rw [hnext]; rfl) fun _ _ => ?_
    rw [hnext]
    trivial
  | idle hpc hwait hnext hw =>
    refine hs.quiet hw (not_over_of_eq hpc rfl) fun hzero hr => ?_
    have hneg := (hs.untimed hzero).2 hr
    rw [hpc] at hneg
    exact absurd hwait (Int.not_le.mpr hneg)
  | polled hpc hbusy hnext hw =>
    refine hs.quiet hw (not_over_of_eq hpc rfl) fun _ _ => ?_
    rcases hnext with hnext | hnext | hnext
    · rw [hnext]
      trivial
    · rw [hnext]
      trivial
    · exact untimed_of_serves hnext
  | drained hpc hreaped hnext hw =>
    refine hs.quiet hw (fun _ => by rw [hnext]; rfl) fun _ _ => ?_
    rw [hnext]
    trivial
  | early hpc hreaped hearly hnext hw =>
    refine hs.quiet hw (not_over_of_eq hpc rfl) fun _ _ => ?_
    rw [hnext]
    trivial
  | grace hpc hreaped htried hnext hw =>
    refine hs.quiet hw (not_over_of_eq hpc rfl) fun _ _ => ?_
    rw [hnext]
    trivial
  | sigterm hpc hreaped hpast htried hnext hw =>
    obtain ⟨g, -, hg, hmem⟩ := hs.stage
    have hsent : t.sent = s.sent ++ [(sigterm, s.clock)] := congrArg Watch.sent hw
    -- Without a timeout the loop does not come here.
    refine ⟨⟨.asked s.clock, hpast, ?_, congrArg Watch.triedSigterm hw, congrArg Watch.sigtermTime hw⟩,
      fun hzero => absurd ((hs.untimed hzero).2 hreaped) (by rw [hpc]; exact id)⟩
    cases g with
    | unsignalled =>
      rw [hsent, hg]
      rfl
    | asked term => exact absurd hmem.1 (by rw [htried]; nofun)
    | forced term kill => exact absurd hmem.1 (by rw [htried]; nofun)
  | sigkill hpc hreaped htried hpast hnext hw =>
    obtain ⟨g, hlawful, hg, hmem⟩ := hs.stage
    have hsent : t.sent = s.sent ++ [(sigkill, s.clock)] := congrArg Watch.sent hw
    have htried' : t.triedSigterm = true := (congrArg Watch.triedSigterm hw).trans htried
    refine ⟨?_, fun hzero => absurd ((hs.untimed hzero).2 hreaped) (by rw [hpc]; exact id)⟩
    cases g with
    | unsignalled => exact absurd htried (by rw [show s.triedSigterm = false from hmem]; nofun)
    | asked term =>
      obtain ⟨-, rfl⟩ := hmem
      refine ⟨.forced s.sigtermTime s.clock, ⟨hlawful, hpast⟩, ?_, htried', by rw [hnext]; rfl⟩
      rw [hsent, hg]
      rfl
    | forced term kill => exact not_over_of_eq hpc rfl hmem.2
  | sigkilled hpc hfound hnext hw =>
    refine hs.quiet hw (fun _ => by rw [hnext]; rfl) fun _ _ => ?_
    rw [hnext]
    trivial
  | serve hpc hquiet hnext hw =>
    refine hs.quiet hw (not_over_of_eq rfl (not_over_of_serves hpc)) fun _ _ => ?_
    rcases hnext with hnext | hnext | hnext | hnext
    · rw [hnext]
      trivial
    · rw [hnext]
      trivial
    · rw [hnext]
      trivial
    · exact untimed_of_serves hnext
  | after hpc hnext hw =>
    refine hs.quiet hw (fun _ => ?_) fun _ _ => ?_
    · unfold Pc.over
      rw [hnext]
      exact Bool.or_true _
    · exact untimed_of_not_inLoop hnext

theorem watched_step (hs : s.Watched c) (h : Step c s e t) : t.Watched c := by
  rcases step_cases h with ⟨hpc, htried, htime, hsent, hreaped, -, -⟩ | h
  · obtain ⟨g, hlawful, hg, hmem⟩ := hs.stage
    refine ⟨⟨g, hlawful, hsent.trans hg, remembered_of_eq hmem htried htime ?_⟩, fun hzero => ?_⟩
    · rw [hpc]
      exact id
    · rw [hsent, hreaped, hpc]
      exact hs.untimed hzero
  · exact watched_moves hs h

theorem watched_run {clock : ℚ} (h : Transition.Run (Step c) (init c clock) tr s) : s.Watched c :=
  h.invariant_state ⟨⟨.unsignalled, trivial, rfl, rfl⟩, fun _ => ⟨rfl, fun _ => trivial⟩⟩
    fun _ _ _ => watched_step

/-- A signal goes to a child that is not reaped, at the time that the code has just read. -/
theorem sent_step {clock : ℚ} (hrun : Transition.Run (Step c) (init c clock) tr s) (h : Step c s e t)
    (hsent : t.sent ≠ s.sent) :
    (∀ d, s.child ≠ .reaped d) ∧ ∃ sig, t.sent = s.sent ++ [(sig, s.clock)] := by
  have hchild : s.pc = .timedOut → s.reaped = false → ∀ d, s.child ≠ .reaped d := by
    intro hpc hreaped d hd
    have hat := at_run hrun
    rw [hpc] at hat
    obtain ⟨hdeath, -⟩ := Known.Looping.waiting hat hreaped
    unfold known at hdeath
    rw [hd] at hdeath
    cases hdeath
  rcases step_cases h with ⟨-, -, -, hsame, -⟩ | h
  · exact absurd hsame hsent
  cases h with
  | sigterm hpc hreaped _ _ _ hw => exact ⟨hchild hpc hreaped, sigterm, congrArg Watch.sent hw⟩
  | sigkill hpc hreaped _ _ _ hw => exact ⟨hchild hpc hreaped, sigkill, congrArg Watch.sent hw⟩
  | head _ _ hw => exact absurd (congrArg Watch.sent hw) hsent
  | running _ _ hw => exact absurd (congrArg Watch.sent hw) hsent
  | died _ _ hw => exact absurd (congrArg Watch.sent hw) hsent
  | failed _ _ hw => exact absurd (congrArg Watch.sent hw) hsent
  | idle _ _ _ hw => exact absurd (congrArg Watch.sent hw) hsent
  | polled _ _ _ hw => exact absurd (congrArg Watch.sent hw) hsent
  | drained _ _ _ hw => exact absurd (congrArg Watch.sent hw) hsent
  | early _ _ _ _ hw => exact absurd (congrArg Watch.sent hw) hsent
  | grace _ _ _ _ hw => exact absurd (congrArg Watch.sent hw) hsent
  | sigkilled _ _ _ hw => exact absurd (congrArg Watch.sent hw) hsent
  | serve _ _ _ hw => exact absurd (congrArg Watch.sent hw) hsent
  | after _ _ hw => exact absurd (congrArg Watch.sent hw) hsent

/-- SIGTERM at the deadline, SIGKILL after the grace period, each once and to a child that is
still there. Without a timeout there is no signal. -/
theorem signals_disciplined {clock : ℚ} (h : Transition.Run (Step c) (init c clock) tr s) :
    (∃ g : Stage, g.Lawful c ∧ s.sent = g.sent) ∧ (c.queueCmdTimeoutSec = 0 → s.sent = []) ∧
      ∀ e t, Step c s e t → t.sent ≠ s.sent →
        (∀ d, s.child ≠ .reaped d) ∧ ∃ sig, t.sent = s.sent ++ [(sig, s.clock)] := by
  have hwatched := watched_run h
  obtain ⟨g, hlawful, hg, -⟩ := hwatched.stage
  exact ⟨⟨g, hlawful, hg⟩, fun hzero => (hwatched.untimed hzero).1, fun _ _ => sent_step h⟩

/-- A command with two seconds to run. -/
def impatient : Call := { silent with queueCmdTimeoutSec := 2 }

/-- An iteration with nothing to report. -/
def sleeps : List Event := [.waitpid .running, .poll .none, .go]

theorem signals_disciplined_sleeps : ∃ s, Transition.Run (Step impatient) (init impatient 0)
    (.go :: sleeps ++ .tick 3 :: .go :: sleeps ++ .tick 5 :: .go :: sleeps) s ∧
      s.sent = [(sigterm, 3), (sigkill, 5)] ∧ ∃ g : Stage, g.Lawful impatient ∧ s.sent = g.sent := by
  have hlast : ((.go :: sleeps ++ .tick 3 :: .go :: sleeps ++ .tick 5 :: .go :: sleeps :
      List Event).foldlM (State.step impatient) (init impatient 0)).any (fun s =>
        s.sent = [(sigterm, 3), (sigkill, 5)]) = true := by
    decide +kernel
  obtain ⟨s, hs, hsent⟩ := (Option.any_eq_true _ _).mp hlast
  have hrun := Transition.Run.of_foldlM hs
  exact ⟨s, hrun, of_decide_eq_true hsent, (signals_disciplined hrun).1⟩

end PgCmdQueue.RunCmd
