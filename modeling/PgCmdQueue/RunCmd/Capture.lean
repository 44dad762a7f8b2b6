import PgCmdQueue.Lib.Drain
import PgCmdQueue.RunCmd.Outcome

/-!
# The output of the child

Each of the two output pipes is drained by the loop, whatever it does with the other pipes.
-/

namespace PgCmdQueue.RunCmd

variable {c : Call} {s t : State} {tr : List Event} {e : Event}

/-! ## The loop drains stdout and stderr -/

def Pc.inLoop : Pc → Bool
  | .left => false
  | .waitpidAfter => false
  | .outcome => false
  | .finished => false
  | .dead => false
  | _ => true

def Pc.stdoutPhase (p : Pc) (r : Revents) : Drain.Phase :=
  match p with
  | .stdinReady => .polled r.data r.hangup
  | .writeLoop => .polled r.data r.hangup
  | .write => .polled r.data r.hangup
  | .stdoutReady => .polled r.data r.hangup
  | .readStdout => .reading r.hangup
  | .stderrReady => .drained r.hangup
  | .readStderr => .drained r.hangup
  | .hangups => .drained r.hangup
  | _ => .idle

def Pc.stderrPhase (p : Pc) (r : Revents) : Drain.Phase :=
  match p with
  | .stdinReady => .polled r.data r.hangup
  | .writeLoop => .polled r.data r.hangup
  | .write => .polled r.data r.hangup
  | .stdoutReady => .polled r.data r.hangup
  | .readStdout => .polled r.data r.hangup
  | .stderrReady => .polled r.data r.hangup
  | .readStderr => .reading r.hangup
  | .hangups => .drained r.hangup
  | _ => .idle

def drain (pipe : OutPipe) (fd : PollFd) (captured : Bytes) (phase : Drain.Phase) : Drain.State Byte where
  written := pipe.written
  buf := pipe.buf
  captured := captured
  writer := pipe.writer
  watched := fd.fd
  phase := phase

def State.stdoutDrain (s : State) : Drain.State Byte :=
  drain s.stdout s.stdoutFd s.cmdStdout (s.pc.stdoutPhase s.stdoutFd.revents)

def State.stderrDrain (s : State) : Drain.State Byte :=
  drain s.stderr s.stderrFd s.cmdStderr (s.pc.stderrPhase s.stderrFd.revents)

/-- A step of the loop is one step of the drain, or none. -/
def Drains (x y : Drain.State Byte) : Prop := y = x ∨ ∃ a, Drain.Step x a y

theorem drains_write {pipe : OutPipe} {fd : PollFd} {captured : Bytes} {phase : Drain.Phase}
    {bs : Bytes} (h : pipe.canWrite c bs = true) :
    Drains (drain pipe fd captured phase) (drain (pipe.write bs) fd captured phase) := by
  unfold OutPipe.canWrite at h
  rw [Bool.and_eq_true, Bool.and_eq_true] at h
  exact .inr ⟨_, .write bs h.1.1⟩

theorem drains_close {pipe : OutPipe} {fd : PollFd} {captured : Bytes} {phase : Drain.Phase} :
    Drains (drain pipe fd captured phase) (drain { pipe with writer := false } fd captured phase) :=
  .inr ⟨_, .close⟩

theorem drains_exit {pipe : OutPipe} {fd : PollFd} {captured : Bytes} {phase : Drain.Phase}
    (inherited : Bool) : Drains (drain pipe fd captured phase)
      (drain { pipe with writer := pipe.writer && inherited } fd captured phase) := by
  cases inherited with
  | true =>
    left
    rw [Bool.and_true]
  | false =>
    rw [Bool.and_false]
    exact drains_close

/-- What is reported of an output pipe. -/
theorem reports_out {fd : PollFd} {pipe : OutPipe} {r : Revents}
    (h : fd.reports (!pipe.buf.isEmpty || !pipe.writer) (!pipe.buf.isEmpty) (!pipe.writer) r = true)
    (hevents : fd.events = true) :
    (r.hangup = true → pipe.writer = false) ∧
    (fd.fd = true → (pipe.buf ≠ [] → r.data = true) ∧ (pipe.writer = false → r.hangup = true)) := by
  unfold PollFd.reports at h
  rw [hevents] at h
  split at h
  · rename_i hfd
    obtain ⟨⟨-, hmust⟩, hgone⟩ : ((_ ∧ (_ ∨ _)) ∧ _) := by simpa using h
    refine ⟨fun hh => by rw [hh] at hgone; simpa using hgone.symm, fun _ => ⟨fun hbuf => ?_, fun hw => ?_⟩⟩
    · exact hmust.resolve_left hbuf
    · rw [hgone, hw]
      rfl
  · rename_i hfd
    have hnone : r = {} := of_decide_eq_true h
    rw [hnone]
    exact ⟨nofun, fun hfd' => absurd hfd' hfd⟩

/-- POLLIN is asked for on both descriptors. -/
def State.Asked (s : State) : Prop := s.stdoutFd.events = true ∧ s.stderrFd.events = true

def DrainsBoth (s t : State) : Prop :=
  t.Asked ∧ Drains s.stdoutDrain t.stdoutDrain ∧ Drains s.stderrDrain t.stderrDrain

theorem drains_onPoll {r : PollResult} {timeout : Int} (hpc : s.pc = .poll timeout)
    (hr : s.pollReturns c timeout r = true) (hlive : (s.onPoll c r).pc.inLoop = true)
    (hasked : s.Asked) : DrainsBoth s (s.onPoll c r) := by
  cases s
  cases hpc
  unfold State.onPoll at hlive ⊢
  split at hlive
  · exact ⟨hasked, .inl rfl, .inl rfl⟩
  · cases hlive
  · exact ⟨hasked, .inl rfl, .inl rfl⟩
  · unfold State.pollReturns State.reports at hr
    rw [Bool.and_eq_true, Bool.and_eq_true, Bool.and_eq_true] at hr
    obtain ⟨-, ⟨-, hout⟩, herr⟩ := hr
    obtain ⟨hgone, hdata⟩ := reports_out hout hasked.1
    obtain ⟨hgone', hdata'⟩ := reports_out herr hasked.2
    exact ⟨hasked, .inr ⟨_, .poll rfl hgone fun hfd => (hdata hfd).1⟩,
      .inr ⟨_, .poll rfl hgone' fun hfd => (hdata' hfd).1⟩⟩

theorem drains_onReadStdout {r : ReadResult} (hpc : s.pc = .readStdout)
    (hr : s.stdout.readReturns r = true) (hlive : (s.onReadStdout c r).pc.inLoop = true)
    (hasked : s.Asked) : DrainsBoth s (s.onReadStdout c r) := by
  have hempty : r = .eof ∨ r = .failed .eagain → s.stdout.buf = [] := by
    unfold OutPipe.readReturns at hr
    rintro (rfl | rfl) <;> exact List.isEmpty_iff.mp (Bool.and_eq_true_iff.mp hr).1
  cases s
  cases hpc
  unfold State.onReadStdout at hlive ⊢
  split at hlive
  · exact ⟨hasked, .inr ⟨_, .stop rfl (hempty (.inr rfl))⟩, .inl rfl⟩
  · cases hlive
  · exact ⟨hasked, .inr ⟨_, .stop rfl (hempty (.inl rfl))⟩, .inl rfl⟩
  · exact ⟨hasked, .inr ⟨_, .read _ rfl⟩, .inl rfl⟩

theorem drains_onReadStderr {r : ReadResult} (hpc : s.pc = .readStderr)
    (hr : s.stderr.readReturns r = true) (hlive : (s.onReadStderr c r).pc.inLoop = true)
    (hasked : s.Asked) : DrainsBoth s (s.onReadStderr c r) := by
  have hempty : r = .eof ∨ r = .failed .eagain → s.stderr.buf = [] := by
    unfold OutPipe.readReturns at hr
    rintro (rfl | rfl) <;> exact List.isEmpty_iff.mp (Bool.and_eq_true_iff.mp hr).1
  cases s
  cases hpc
  unfold State.onReadStderr at hlive ⊢
  split at hlive
  · exact ⟨hasked, .inl rfl, .inr ⟨_, .stop rfl (hempty (.inr rfl))⟩⟩
  · cases hlive
  · exact ⟨hasked, .inl rfl, .inr ⟨_, .stop rfl (hempty (.inl rfl))⟩⟩
  · exact ⟨hasked, .inl rfl, .inr ⟨_, .read _ rfl⟩⟩

theorem hungUp_events (fd : PollFd) : fd.hungUp.events = fd.events := by
  unfold PollFd.hungUp
  split <;> rfl

theorem drains_hungUp (pipe : OutPipe) (fd : PollFd) (captured : Bytes) :
    Drains (drain pipe fd captured (.drained fd.revents.hangup))
      (drain pipe fd.hungUp captured .idle) := by
  refine .inr ⟨.finish, ?_⟩
  have hfd : fd.hungUp.fd = (fd.fd && !fd.revents.hangup) := by
    unfold PollFd.hungUp
    cases hh : fd.revents.hangup <;> simp
  unfold drain
  rw [hfd]
  exact .finish rfl

theorem drains_start {pipe : OutPipe} {fd : PollFd} {captured : Bytes}
    (h : fd.revents.data = true) :
    Drains (drain pipe fd captured (.polled fd.revents.data fd.revents.hangup))
      (drain pipe fd captured (.reading fd.revents.hangup)) := by
  rw [h]
  exact .inr ⟨_, .start rfl⟩

theorem drains_skip {pipe : OutPipe} {fd : PollFd} {captured : Bytes}
    (h : ¬fd.revents.data = true) :
    Drains (drain pipe fd captured (.polled fd.revents.data fd.revents.hangup))
      (drain pipe fd captured (.drained fd.revents.hangup)) := by
  rw [Bool.eq_false_iff.mpr h]
  exact .inr ⟨_, .skip rfl⟩

theorem drains_onTimedOut (hpc : s.pc = .timedOut) (hlive : (s.onTimedOut c).pc.inLoop = true)
    (hasked : s.Asked) : DrainsBoth s (s.onTimedOut c) := by
  cases s
  cases hpc
  revert hlive
  unfold State.onTimedOut
  dsimp only
  split
  · intro hlive
    cases hlive
  split
  · split
    · split <;> exact fun _ => ⟨hasked, .inl rfl, .inl rfl⟩
    · exact fun _ => ⟨hasked, .inl rfl, .inl rfl⟩
  · exact fun _ => ⟨hasked, .inl rfl, .inl rfl⟩

theorem drains_onWriteLoop (hpc : s.pc = .writeLoop) (hlive : (s.onWriteLoop c).pc.inLoop = true)
    (hasked : s.Asked) : DrainsBoth s (s.onWriteLoop c) := by
  cases s
  cases hpc
  revert hlive
  unfold State.onWriteLoop
  split
  · exact fun _ => ⟨hasked, .inl rfl, .inl rfl⟩
  split <;> exact fun _ => ⟨hasked, .inl rfl, .inl rfl⟩

theorem drains_onWrite {r : WriteResult} (hpc : s.pc = .write) (hlive : (s.onWrite c r).pc.inLoop = true)
    (hasked : s.Asked) : DrainsBoth s (s.onWrite c r) := by
  cases s
  cases hpc
  unfold State.onWrite at hlive ⊢
  split at hlive
  · exact ⟨hasked, .inl rfl, .inl rfl⟩
  · cases hlive
  · cases hlive
  · exact ⟨hasked, .inl rfl, .inl rfl⟩

theorem drains_loop (h : s.LoopMoves c e t) (hlive : t.pc.inLoop = true) :
    s.pc.inLoop = true ∧ (s.Asked → DrainsBoth s t) := by
  cases h with
  | top hpc | stdinReady hpc =>
    cases s
    cases hpc
    refine ⟨rfl, fun hasked => ⟨hasked, ?_⟩⟩
    unfold State.stdoutDrain State.stderrDrain
    dsimp only
    split <;> exact ⟨.inl rfl, .inl rfl⟩
  | running hpc | died hpc =>
    cases s
    cases hpc
    exact ⟨rfl, fun hasked => ⟨hasked, .inl rfl, .inl rfl⟩⟩
  | failed => cases hlive
  | poll hpc hr => exact ⟨by rw [hpc]; rfl, drains_onPoll hpc hr hlive⟩
  | timedOut hpc => exact ⟨by rw [hpc]; rfl, drains_onTimedOut hpc hlive⟩
  | writeLoop hpc => exact ⟨by rw [hpc]; rfl, drains_onWriteLoop hpc hlive⟩
  | write hpc => exact ⟨by rw [hpc]; rfl, drains_onWrite hpc hlive⟩
  | stdoutReady hpc =>
    cases s
    cases hpc
    refine ⟨rfl, fun hasked => ⟨hasked, ?_⟩⟩
    unfold State.stdoutDrain State.stderrDrain
    dsimp only
    split
    · exact ⟨drains_start ‹_›, .inl rfl⟩
    · exact ⟨drains_skip ‹_›, .inl rfl⟩
  | readStdout hpc hr => exact ⟨by rw [hpc]; rfl, drains_onReadStdout hpc hr hlive⟩
  | stderrReady hpc =>
    cases s
    cases hpc
    refine ⟨rfl, fun hasked => ⟨hasked, ?_⟩⟩
    unfold State.stdoutDrain State.stderrDrain
    dsimp only
    split
    · exact ⟨.inl rfl, drains_start ‹_›⟩
    · exact ⟨.inl rfl, drains_skip ‹_›⟩
  | readStderr hpc hr => exact ⟨by rw [hpc]; rfl, drains_onReadStderr hpc hr hlive⟩
  | hangups hpc =>
    cases s
    cases hpc
    refine ⟨rfl, fun hasked => ⟨?_, drains_hungUp _ _ _, drains_hungUp _ _ _⟩⟩
    exact ⟨(hungUp_events _).trans hasked.1, (hungUp_events _).trans hasked.2⟩
  | left =>
    dsimp only at hlive
    split at hlive <;> cases hlive
  | @sigkilled r | @waitpidAfter r => rcases r with err | _ | d <;> cases hlive
  | outcome =>
    rw [(onOutcome_child (c := c) s).1] at hlive
    cases hlive

theorem drains_child {a : ChildAct} (h : s.ChildMoves c a t) (hasked : s.Asked) : DrainsBoth s t := by
  cases h with
  | writeStdout hcan => exact ⟨hasked, drains_write hcan, .inl rfl⟩
  | closeStdout => exact ⟨hasked, drains_close, .inl rfl⟩
  | writeStderr hcan => exact ⟨hasked, .inl rfl, drains_write hcan⟩
  | closeStderr => exact ⟨hasked, .inl rfl, drains_close⟩
  | exit => exact ⟨hasked, drains_exit _, drains_exit _⟩
  | read | seeEof | closeStdin => exact ⟨hasked, .inl rfl, .inl rfl⟩

theorem drains_step (ht : Step c s e t) (hlive : t.pc.inLoop = true) :
    s.pc.inLoop = true ∧ (s.Asked → DrainsBoth s t) := by
  cases stepMoves ht with
  | child hmoves => exact ⟨(known_child [] hmoves).2 ▸ hlive, drains_child hmoves⟩
  | tick => exact ⟨hlive, fun hasked => ⟨hasked, .inl rfl, .inl rfl⟩⟩
  | loop hmoves => exact drains_loop hmoves hlive

/-- A run of the loop, seen from its output pipes, is a run of two drains. -/
theorem drains_run {clock : ℚ} (h : Transition.Run (Step c) (init c clock) tr s)
    (hlive : s.pc.inLoop = true) : s.Asked ∧
      (∃ acts, Transition.Run Drain.Step (init c clock).stdoutDrain acts s.stdoutDrain) ∧
      ∃ acts, Transition.Run Drain.Step (init c clock).stderrDrain acts s.stderrDrain := by
  have hinit : (init c clock).Asked := ⟨rfl, rfl⟩
  obtain ⟨hasked, hout⟩ := h.simulate (fun s => s.pc.inLoop = true) hlive hinit
    fun s e t ht hlive => (drains_step ht hlive).imp_right fun hs hasked =>
      ⟨(hs hasked).1, (hs hasked).2.1⟩
  obtain ⟨-, herr⟩ := h.simulate (fun s => s.pc.inLoop = true) hlive hinit
    fun s e t ht hlive => (drains_step ht hlive).imp_right fun hs hasked =>
      ⟨(hs hasked).1, (hs hasked).2.2⟩
  exact ⟨hasked, hout, herr⟩

/-! ## The child is the only writer -/

/-- Nothing that the child leaves behind holds its ends of the pipes. -/
def SoleWriter : Event → Prop
  | .child (.exit _ inherited) => inherited = false
  | _ => True

def SoleWriterStep (c : Call) (s : State) (e : Event) (t : State) : Prop :=
  SoleWriter e ∧ Step c s e t

/-- Both pipes are closed at the other end once the child has ended. -/
def State.ClosedAfterEnd (s : State) : Prop :=
  s.child ≠ .running → s.stdout.writer = false ∧ s.stderr.writer = false

theorem closedAfterEnd_step (hs : s.ClosedAfterEnd) (ht : SoleWriterStep c s e t) :
    t.ClosedAfterEnd := by
  obtain ⟨hsole, ht⟩ := ht
  cases stepMoves ht with
  | child hmoves =>
    cases hmoves with
    | @exit d inherited =>
      have hnot : inherited = false := hsole
      rw [hnot]
      exact fun _ => ⟨Bool.and_false _, Bool.and_false _⟩
    | closeStdout => exact fun hend => ⟨rfl, (hs hend).2⟩
    | closeStderr => exact fun hend => ⟨(hs hend).1, rfl⟩
    | _ => exact hs
  | tick => exact hs
  | loop hmoves =>
    obtain ⟨hout, hchild, -, -⟩ := leaves_loop hmoves
    have hwriter : t.stdout.writer = s.stdout.writer := congrArg Outside.outWriter hout
    have hwriter' : t.stderr.writer = s.stderr.writer := congrArg Outside.errWriter hout
    intro hend
    rw [hwriter, hwriter']
    apply hs
    rcases hchild with hsame | ⟨d, hzombie, -⟩
    · rwa [← hsame]
    · rw [hzombie]
      simp

/-! ## The exit of the loop where the child was reaped -/

/-- The pipes are closed and what went into them is in the two fields. -/
structure State.Captured (s : State) : Prop where
  stdoutClosed : s.stdout.writer = false
  stderrClosed : s.stderr.writer = false
  stdout : s.cmdStdout = s.stdout.written
  stderr : s.cmdStderr = s.stderr.written

/-- `poll()` reports nothing: the descriptors of closed pipes were dropped before. -/
theorem captured_of_quiet {clock : ℚ} {timeout : Int}
    (h : Transition.Run (SoleWriterStep c) (init c clock) tr s) (hpc : s.pc = .poll timeout)
    (hreaped : s.reaped = true) (hquiet : s.pollReturns c timeout .none = true) :
    s.Captured ∧ 0 < s.resPid := by
  have hrun : Transition.Run (Step c) (init c clock) tr s := h.mono fun _ _ _ hstep => hstep.2
  have hclosed : s.ClosedAfterEnd :=
    h.invariant_state (fun hend => absurd rfl hend) fun _ _ _ => closedAfterEnd_step
  have hat := at_run hrun
  rw [hpc] at hat
  obtain ⟨-, -, -, -, hcollected⟩ := hat
  rw [if_pos (show (known tr s).reaped = true from hreaped)] at hcollected
  obtain ⟨d, hdeath, hpid, -, -⟩ := hcollected
  have hend : s.child ≠ .running := by
    intro hrunning
    have hdeath' : s.child.death = some d := hdeath
    rw [hrunning] at hdeath'
    cases hdeath'
  obtain ⟨hwriter, hwriter'⟩ := hclosed hend
  obtain ⟨hasked, ⟨acts, hout⟩, ⟨acts', herr⟩⟩ := drains_run hrun (by rw [hpc]; rfl)
  unfold State.pollReturns State.reports at hquiet
  rw [Bool.and_eq_true, Bool.and_eq_true, Bool.and_eq_true] at hquiet
  obtain ⟨-, ⟨-, hnone⟩, hnone'⟩ := hquiet
  have hdropped : s.stdoutFd.fd = true → s.stdout.writer = true := fun hfd =>
    absurd ((reports_out hnone hasked.1).2 hfd).2 (by simp [hwriter])
  have hdropped' : s.stderrFd.fd = true → s.stderr.writer = true := fun hfd =>
    absurd ((reports_out hnone' hasked.2).2 hfd).2 (by simp [hwriter'])
  have hinv : Drain.Inv s.stdoutDrain := Drain.inv_run hout ⟨rfl, nofun, trivial⟩
  have hinv' : Drain.Inv s.stderrDrain := Drain.inv_run herr ⟨rfl, nofun, trivial⟩
  exact ⟨⟨hwriter, hwriter', hinv.captured_eq hwriter hdropped, hinv'.captured_eq hwriter' hdropped'⟩,
    hpid⟩

/-- From there on, up to the end. -/
structure State.Settled (s : State) : Prop where
  captured : s.Captured
  resPid : 0 < s.resPid
  pc : s.pc = .timedOut ∧ s.reaped = true ∨ s.pc = .left ∨ s.pc = .outcome ∨ s.pc = .finished

theorem settled_child {a : ChildAct} (hs : s.Settled) (h : s.ChildMoves c a t) : t.Settled := by
  obtain ⟨⟨hout, herr, hcout, hcerr⟩, hpid, hpc⟩ := hs
  cases h with
  | writeStdout hcan => simp [OutPipe.canWrite, hout] at hcan
  | writeStderr hcan => simp [OutPipe.canWrite, herr] at hcan
  | closeStdout => exact ⟨⟨rfl, herr, hcout, hcerr⟩, hpid, hpc⟩
  | closeStderr => exact ⟨⟨hout, rfl, hcout, hcerr⟩, hpid, hpc⟩
  | exit => exact ⟨⟨by rw [hout]; rfl, by rw [herr]; rfl, hcout, hcerr⟩, hpid, hpc⟩
  | read | seeEof | closeStdin => exact ⟨⟨hout, herr, hcout, hcerr⟩, hpid, hpc⟩

theorem settled_onOutcome (hs : s.Settled) : (s.onOutcome c).Settled := by
  obtain ⟨⟨hout, herr, hcout, hcerr⟩, hpid, -⟩ := hs
  unfold State.onOutcome
  dsimp only
  rw [if_neg (by omega), if_pos hpid]
  split
  · exact ⟨⟨hout, herr, hcout, hcerr⟩, hpid, .inr (.inr (.inr rfl))⟩
  split <;> exact ⟨⟨hout, herr, hcout, hcerr⟩, hpid, .inr (.inr (.inr rfl))⟩

theorem settled_onTimedOut (hs : s.Settled) (hreaped : s.reaped = true) : (s.onTimedOut c).Settled := by
  unfold State.onTimedOut
  rw [if_pos hreaped]
  exact ⟨⟨hs.1.1, hs.1.2, hs.1.3, hs.1.4⟩, hs.resPid, .inr (.inl rfl)⟩

theorem settled_loop (hs : s.Settled) (h : s.LoopMoves c e t) : t.Settled := by
  have hpid := hs.resPid
  cases h with
  | timedOut hpc =>
    rcases hs.pc with ⟨-, hreaped⟩ | hpc' | hpc' | hpc'
    · exact settled_onTimedOut hs hreaped
    all_goals cases hpc.symm.trans hpc'
  | left =>
    refine ⟨⟨hs.1.1, hs.1.2, hs.1.3, hs.1.4⟩, hpid, .inr (.inr (.inl ?_))⟩
    dsimp only
    rw [if_neg (by omega)]
  | outcome => exact settled_onOutcome hs
  | top hpc | running hpc | died hpc | failed hpc | poll hpc | sigkilled hpc | stdinReady hpc
  | writeLoop hpc | write hpc | stdoutReady hpc | readStdout hpc | stderrReady hpc | readStderr hpc
  | hangups hpc | waitpidAfter hpc =>
    rcases hs.pc with ⟨hpc', -⟩ | hpc' | hpc' | hpc' <;> cases hpc.symm.trans hpc'

theorem settled_step (hs : s.Settled) (ht : Step c s e t) : t.Settled := by
  cases stepMoves ht with
  | child hmoves => exact settled_child hs hmoves
  | tick =>
    obtain ⟨⟨hout, herr, hcout, hcerr⟩, hpid, hpc⟩ := hs
    exact ⟨⟨hout, herr, hcout, hcerr⟩, hpid, hpc⟩
  | loop hmoves => exact settled_loop hs hmoves

/-- When `poll()` returns 0 after the child was reaped, the two fields are what was written.
They stay so up to the end. -/
theorem captured_of_reaped {clock : ℚ} {tr' : List Event} {u : State}
    (h : Transition.Run (SoleWriterStep c) (init c clock) tr s) (hreaped : s.reaped = true)
    (hquiet : SoleWriterStep c s (.poll .none) t)
    (hrest : Transition.Run (SoleWriterStep c) t tr' u) :
    u.cmdStdout = u.stdout.written ∧ u.cmdStderr = u.stderr.written := by
  have hu : ∀ {timeout : Int}, s.pc = .poll timeout → s.pollReturns c timeout .none = true →
      t = s.onPoll c .none → u.Settled := by
    rintro timeout hpc hr rfl
    obtain ⟨hcaptured, hpid⟩ := captured_of_quiet h hpc hreaped hr
    have hsettled : (s.onPoll c .none).Settled :=
      ⟨⟨hcaptured.1, hcaptured.2, hcaptured.3, hcaptured.4⟩, hpid, .inl ⟨rfl, hreaped⟩⟩
    exact hrest.invariant_state hsettled fun _ _ _ hs hstep => settled_step hs hstep.2
  cases stepMoves hquiet.2 with
  | loop hmoves =>
    cases hmoves with
    | poll hpc hr => exact ⟨(hu hpc hr rfl).captured.stdout, (hu hpc hr rfl).captured.stderr⟩

/-! ## A command that writes to both -/

/-- Stdout is written in two chunks, and the second is there when the child is reaped. -/
def beforeReaped : List Event := [.go, .waitpid .running, .child (.writeStdout (ascii "ab")),
  .poll (.ready { stdout := { data := true } }), .go, .go, .read (.data 1), .read (.data 1),
  .read (.failed .eagain), .go, .go, .child (.writeStdout (ascii "c")),
  .child (.writeStderr (ascii "d")), .child (.exit .success false), .go,
  .waitpid (.died .success),
  .poll (.ready ⟨⟨false, true⟩, ⟨true, true⟩, ⟨true, true⟩⟩), .go, .go, .read (.data 1), .read .eof,
  .go, .read (.data 1), .read .eof, .go, .go]

def soleNext (s : State) (e : Event) : Option State :=
  match e with
  | .child (.exit _ true) => none
  | e => s.step silent e

theorem soleWriterStep_of_next (h : soleNext s e = some t) : SoleWriterStep silent s e t := by
  unfold soleNext at h
  split at h
  · cases h
  · rename_i hne
    refine ⟨?_, h⟩
    unfold SoleWriter
    split
    · rename_i d inherited
      cases inherited with
      | true => exact absurd rfl (hne d)
      | false => rfl
    · trivial

theorem captured_of_reaped_both : ∃ s t u,
    Transition.Run (SoleWriterStep silent) (init silent 0) beforeReaped s ∧
    SoleWriterStep silent s (.poll .none) t ∧
    Transition.Run (SoleWriterStep silent) t [.go, .go, .go] u ∧
    u.pc = .finished ∧ u.cmdStdout = u.stdout.written ∧ u.cmdStderr = u.stderr.written ∧
    u.cmdStdout = ascii "abc" := by
  have hlast : (beforeReaped.foldlM soleNext (init silent 0)).any (fun s =>
      s.reaped && (soleNext s (.poll .none)).any fun t =>
        ([.go, .go, .go].foldlM soleNext t).any fun u =>
          u.pc = .finished ∧ u.cmdStdout = ascii "abc") = true := by
    decide +kernel
  obtain ⟨s, hs, hs'⟩ := (Option.any_eq_true _ _).mp hlast
  obtain ⟨hreaped, ht⟩ := Bool.and_eq_true_iff.mp hs'
  obtain ⟨t, ht, ht'⟩ := (Option.any_eq_true _ _).mp ht
  obtain ⟨u, hu, hu'⟩ := (Option.any_eq_true _ _).mp ht'
  obtain ⟨hend, hout⟩ := of_decide_eq_true hu'
  have hrun := (Transition.Run.of_foldlM hs).mono fun _ _ _ => soleWriterStep_of_next
  have hstep := soleWriterStep_of_next ht
  have hrest := (Transition.Run.of_foldlM hu).mono fun _ _ _ => soleWriterStep_of_next
  obtain ⟨hcaptured, hcaptured'⟩ := captured_of_reaped hrun hreaped hstep hrest
  exact ⟨s, t, u, hrun, hstep, hrest, hend, hcaptured, hcaptured', hout⟩

end PgCmdQueue.RunCmd
