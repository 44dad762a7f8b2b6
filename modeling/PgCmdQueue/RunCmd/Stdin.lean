import PgCmdQueue.RunCmd.Loop
import Mathlib.Tactic.Linarith

/-!
# The input of the child

The child reads until it sees the end of the file. The loop closes the write end after it
has written everything, which it does only when `poll()` reports POLLOUT.
-/

namespace PgCmdQueue.RunCmd

open Transition

variable {c : Call} {s t : State} {tr : List Event} {e : Event}

/-! ## A child that reads to the end -/

/-- The child keeps its stdin until the end of the file, is not timed out, and no system call
fails but for an interruption or for being about to block. -/
def Patient (c : Call) (s : State) : Event → Prop
  | .child (.exit _ _) => s.stdin.eof = true
  | .child .closeStdin => s.stdin.eof = true
  | .waitpid (.failed _) => False
  | .poll (.failed e) => e = .eintr
  | .write (.failed e) => e = .eintr ∨ e = .eagain
  | .read (.failed e) => e = .eagain
  | .go => s.pc = .timedOut →
    s.reaped = true ∨ s.clock - c.cmdRuntimeStart < c.queueCmdTimeoutSec
  | _ => True

def PatientStep (c : Call) (s : State) (e : Event) (t : State) : Prop := Patient c s e ∧ Step c s e t

/-- The child reads a prefix of `cmd_stdin`, and all of it before the end of the file. No write
fails because the pipe is full. However far the child is, it can still come to the end of
the file, which it only sees after the write end was closed. -/
def Delivers (c : Call) : Prop :=
  ∀ clock tr s, Run (PatientStep c) (init c clock) tr s →
    s.stdin.taken <+: c.cmdStdin ∧ (s.stdin.eof = true → s.stdin.taken = c.cmdStdin) ∧
    Event.write (.failed .eagain) ∉ tr ∧
    (s.stdin.eof = false → CanReach (PatientStep c) s fun t => t.stdin.eof = true)

/-! ## The invariant -/

/-- Where the loop is while the child is running and not timed out. -/
def Pc.feeding : Pc → Bool
  | .sigkilled => false
  | .left => false
  | .waitpidAfter => false
  | .outcome => false
  | .finished => false
  | .dead => false
  | _ => true

/-- The child is still reading. Without input POLLOUT is not asked for, so that the write end
stays open. -/
structure Going (c : Call) (s : State) : Prop where
  eof : s.stdin.eof = false
  reader : s.stdin.reader = true
  child : s.child = .running
  reaped : s.reaped = false
  pc : s.pc.feeding = true
  sent : s.stdin.taken ++ s.stdin.buf = c.cmdStdin.take s.cumStdinBytesWritten
  cum : s.cumStdinBytesWritten ≤ c.cmdStdin.length
  opened : s.stdinWriteFd = true → s.stdinFd.fd = true ∧ s.stdinFd.events = !c.cmdStdin.isEmpty
  closed : s.stdinWriteFd = false → s.cumStdinBytesWritten = c.cmdStdin.length
  hangup : s.stdinFd.revents.hangup = false
  writing : s.pc = .write → s.cumStdinBytesWritten < c.cmdStdin.length
  mute : c.cmdStdin = [] →
    s.stdinWriteFd = true ∧ s.stdinFd.revents.data = false ∧ s.pc ≠ .writeLoop

/-- The child has seen the end of the file. -/
structure Done (c : Call) (s : State) : Prop where
  eof : s.stdin.eof = true
  taken : s.stdin.taken = c.cmdStdin
  buf : s.stdin.buf = []
  cum : s.cumStdinBytesWritten = c.cmdStdin.length
  pc : s.pc ≠ .write

theorem Going.buf_length (hs : Going c s) : s.stdin.buf.length ≤ s.cumStdinBytesWritten := by
  have hlen := congrArg List.length hs.sent
  rw [List.length_append, List.length_take, min_eq_left hs.cum] at hlen
  omega

/-- All that remains fits into the pipe. -/
theorem Going.remaining_le_free (hs : Going c s) (hfits : c.cmdStdin.length ≤ c.capacity) :
    s.remaining c ≤ s.free c := by
  have hbuf := hs.buf_length
  have hcum := hs.cum
  unfold State.remaining State.free
  omega

theorem going_init (c : Call) (clock : ℚ) : Going c (init c clock) where
  eof := rfl
  reader := rfl
  child := rfl
  reaped := rfl
  pc := rfl
  sent := rfl
  cum := Nat.zero_le _
  opened := fun _ => ⟨rfl, rfl⟩
  closed := nofun
  hangup := rfl
  writing := nofun
  mute := fun _ => ⟨rfl, rfl, nofun⟩

/-! ## Steps while the child is reading -/

/-- What the invariant looks at, but for the place in the loop. -/
def State.feed (s : State) : StdinPipe × Child × Bool × Nat × Bool × PollFd :=
  (s.stdin, s.child, s.reaped, s.cumStdinBytesWritten, s.stdinWriteFd, s.stdinFd)

theorem Going.move (hs : Going c s) (hfeed : t.feed = s.feed) (hpc : t.pc.feeding = true)
    (hwrite : t.pc = .write → s.cumStdinBytesWritten < c.cmdStdin.length)
    (hloop : t.pc = .writeLoop → c.cmdStdin ≠ []) : Going c t := by
  unfold State.feed at hfeed
  simp only [Prod.mk.injEq] at hfeed
  obtain ⟨hstdin, hchild, hreaped, hcum, hfd, hpollfd⟩ := hfeed
  refine ⟨?_, ?_, hchild.trans hs.child, hreaped.trans hs.reaped, hpc, ?_, ?_, ?_, ?_, ?_, ?_, ?_⟩
  · rw [hstdin]
    exact hs.eof
  · rw [hstdin]
    exact hs.reader
  · rw [hstdin, hcum]
    exact hs.sent
  · rw [hcum]
    exact hs.cum
  · rw [hfd, hpollfd]
    exact hs.opened
  · rw [hfd, hcum]
    exact hs.closed
  · rw [hpollfd]
    exact hs.hangup
  · rw [hcum]
    exact hwrite
  · intro hempty
    rw [hfd, hpollfd]
    exact ⟨(hs.mute hempty).1, (hs.mute hempty).2.1, fun hp => hloop hp hempty⟩

theorem going_child {a : ChildAct} (hs : Going c s) (hp : Patient c s (.child a))
    (h : s.ChildMoves c a t) : Going c t ∨ (Done c t ∧ s.stdinWriteFd = false) := by
  have hwrite := hs.writing
  have hloop : s.pc = .writeLoop → c.cmdStdin ≠ [] := fun hpc hempty => (hs.mute hempty).2.2 hpc
  cases h with
  | read =>
    refine .inl { hs with sent := ?_ }
    rw [← hs.sent, List.append_assoc, List.take_append_drop]
  | seeEof _ hbuf hclosed =>
    have hcum := hs.closed hclosed
    have hsent := hs.sent
    rw [hcum, List.take_length, hbuf, List.append_nil] at hsent
    exact .inr ⟨⟨rfl, hsent, hbuf, hcum, fun hpc => (hwrite hpc).ne hcum⟩, hclosed⟩
  | closeStdin | exit =>
    have heof : s.stdin.eof = true := hp
    rw [hs.eof] at heof
    cases heof
  | writeStdout | closeStdout | writeStderr | closeStderr => exact .inl (hs.move rfl hs.pc hwrite hloop)

theorem going_onPoll {r : PollResult} {timeout : Int} (hs : Going c s)
    (hp : Patient c s (.poll r)) (hr : s.pollReturns c timeout r = true) : Going c (s.onPoll c r) := by
  unfold State.onPoll
  split
  · exact hs.move rfl rfl nofun nofun
  · rename_i hne
    exact absurd hp hne
  · exact hs.move rfl rfl nofun nofun
  · rename_i r
    have hreports : s.stdinFd.reports (s.stdin.buf.length < c.capacity)
        (s.stdin.buf.isEmpty && s.stdin.reader) (!s.stdin.reader) r.stdin = true := by
      unfold State.pollReturns State.reports at hr
      rw [Bool.and_eq_true, Bool.and_eq_true, Bool.and_eq_true] at hr
      exact hr.2.1.1
    unfold PollFd.reports at hreports
    rw [hs.reader] at hreports
    have hgone : r.stdin.hangup = false ∧
        (s.stdinFd.events = false → s.stdinFd.fd = true → r.stdin.data = false) := by
      split at hreports
      · rename_i hfd
        rw [Bool.and_eq_true, Bool.and_eq_true] at hreports
        obtain ⟨⟨hable, -⟩, hgone⟩ := hreports
        refine ⟨by simpa using hgone, fun hevents _ => ?_⟩
        simpa [hevents] using hable
      · rename_i hfd
        rw [of_decide_eq_true hreports]
        exact ⟨rfl, fun _ h => absurd h hfd⟩
    refine { hs with pc := rfl, hangup := hgone.1, writing := nofun, mute := fun hempty => ?_ }
    obtain ⟨hopen, -, -⟩ := hs.mute hempty
    obtain ⟨hfd, hevents⟩ := hs.opened hopen
    refine ⟨hopen, hgone.2 ?_ hfd, nofun⟩
    rw [hevents, hempty]
    rfl

theorem going_onTimedOut (hs : Going c s) (hp : Patient c s .go) (hpc : s.pc = .timedOut) :
    Going c (s.onTimedOut c) := by
  have hintime : s.clock - c.cmdRuntimeStart < c.queueCmdTimeoutSec := by
    rcases hp hpc with hreaped | hintime
    · rw [hs.reaped] at hreaped
      cases hreaped
    · exact hintime
  unfold State.onTimedOut
  rw [if_neg (by simp [hs.reaped])]
  dsimp only
  rw [if_neg (Rat.not_le.mpr hintime)]
  exact hs.move rfl rfl nofun nofun

theorem going_onWriteLoop (hs : Going c s) (hpc : s.pc = .writeLoop) : Going c (s.onWriteLoop c) := by
  unfold State.onWriteLoop
  split
  · rename_i hmore
    exact hs.move rfl rfl (fun _ => hmore) nofun
  rename_i hmore
  have hcum : s.cumStdinBytesWritten = c.cmdStdin.length :=
    le_antisymm hs.cum (not_lt.mp hmore)
  rw [if_pos hcum]
  exact { hs with
    pc := rfl
    opened := nofun
    closed := fun _ => hcum
    writing := nofun
    mute := fun hempty => absurd hpc (hs.mute hempty).2.2 }

/-- A write finds a reader and room for all that remains. -/
theorem going_onWrite {r : WriteResult} (hs : Going c s) (hfits : c.cmdStdin.length ≤ c.capacity)
    (hp : Patient c s (.write r)) (hpc : s.pc = .write) (hr : s.writeReturns c r = true) :
    Going c (s.onWrite c r) ∧ r ≠ .failed .eagain := by
  have hmore := hs.writing hpc
  have hroom := hs.remaining_le_free hfits
  unfold State.writeReturns at hr
  unfold State.onWrite
  split
  · refine ⟨hs.move rfl rfl nofun fun _ hempty => ?_, nofun⟩
    rw [hempty] at hmore
    cases hmore
  · rename_i err hne
    rcases hp with rfl | rfl
    · exact absurd rfl hne
    · rw [Bool.and_eq_true, Bool.and_eq_true, decide_eq_true_eq] at hr
      omega
  · rw [hs.reader] at hr
    cases hr
  · rename_i n
    have hn : n ≤ c.cmdStdin.length - s.cumStdinBytesWritten := by
      simp only [Bool.and_eq_true, decide_eq_true_eq] at hr
      exact hr.1.1.2
    refine ⟨{ hs with
      pc := rfl
      sent := ?_
      cum := ?_
      closed := fun hclosed => absurd (hs.closed hclosed) hmore.ne
      writing := nofun
      mute := fun hempty => ?_ }, nofun⟩
    · rw [← List.append_assoc, hs.sent, List.take_add]
    · dsimp only
      omega
    · rw [hempty] at hmore
      cases hmore

theorem going_onReadStdout {r : ReadResult} (hs : Going c s) (hp : Patient c s (.read r))
    (hpc : s.pc = .readStdout) : Going c (s.onReadStdout c r) := by
  unfold State.onReadStdout
  split
  · exact hs.move rfl rfl nofun nofun
  · rename_i hne
    exact absurd hp hne
  · exact hs.move rfl rfl nofun nofun
  · exact hs.move rfl hs.pc (by simp [hpc]) (by simp [hpc])

theorem going_onReadStderr {r : ReadResult} (hs : Going c s) (hp : Patient c s (.read r))
    (hpc : s.pc = .readStderr) : Going c (s.onReadStderr c r) := by
  unfold State.onReadStderr
  split
  · exact hs.move rfl rfl nofun nofun
  · rename_i hne
    exact absurd hp hne
  · exact hs.move rfl rfl nofun nofun
  · exact hs.move rfl hs.pc (by simp [hpc]) (by simp [hpc])

theorem going_loop (hs : Going c s) (hfits : c.cmdStdin.length ≤ c.capacity) (hp : Patient c s e)
    (h : s.LoopMoves c e t) : Going c t ∧ e ≠ .write (.failed .eagain) := by
  have hfeeding := hs.pc
  cases h with
  | top => refine ⟨hs.move rfl ?_ ?_ ?_, nofun⟩ <;> simp [hs.reaped, Pc.feeding]
  | failed => exact absurd hp id
  | running => exact ⟨hs.move rfl rfl nofun nofun, nofun⟩
  | died _ hr =>
    unfold State.waitpidReturns at hr
    rw [hs.child] at hr
    cases of_decide_eq_true hr
  | poll _ hr => exact ⟨going_onPoll hs hp hr, nofun⟩
  | timedOut hpc => exact ⟨going_onTimedOut hs hp hpc, nofun⟩
  | stdinReady =>
    refine ⟨hs.move rfl ?_ ?_ fun hloop hempty => ?_, nofun⟩
    · dsimp only
      split <;> rfl
    · dsimp only
      split <;> nofun
    · dsimp only at hloop
      rw [(hs.mute hempty).2.1] at hloop
      cases hloop
  | writeLoop hpc => exact ⟨going_onWriteLoop hs hpc, nofun⟩
  | write hpc hr =>
    obtain ⟨hgoing, hne⟩ := going_onWrite hs hfits hp hpc hr
    exact ⟨hgoing, fun heq => hne (Event.write.inj heq)⟩
  | stdoutReady | stderrReady =>
    refine ⟨hs.move rfl ?_ ?_ ?_, nofun⟩ <;> dsimp only <;> split <;> first | rfl | nofun
  | readStdout hpc => exact ⟨going_onReadStdout hs hp hpc, nofun⟩
  | readStderr hpc => exact ⟨going_onReadStderr hs hp hpc, nofun⟩
  | hangups =>
    have hsame : s.stdinFd.hungUp = s.stdinFd := by
      unfold PollFd.hungUp
      rw [hs.hangup, if_neg Bool.false_ne_true]
    refine ⟨hs.move ?_ rfl nofun nofun, nofun⟩
    unfold State.feed
    dsimp only
    rw [hsame]
  | sigkilled hpc | left hpc | waitpidAfter hpc | outcome hpc =>
    rw [hpc] at hfeeding
    cases hfeeding

/-! ## After the end of the file -/

theorem done_child {a : ChildAct} (hs : Done c s) (h : s.ChildMoves c a t) : Done c t := by
  obtain ⟨heof, htaken, hbuf, hcum, hpc⟩ := hs
  cases h with
  | read _ hpos hle =>
    rw [hbuf] at hle
    exact absurd hle (Nat.not_le.mpr hpos)
  | seeEof => exact ⟨rfl, htaken, hbuf, hcum, hpc⟩
  | closeStdin | writeStdout | closeStdout | writeStderr | closeStderr | exit =>
    exact ⟨heof, htaken, hbuf, hcum, hpc⟩

theorem done_loop (hs : Done c s) (h : s.LoopMoves c e t) :
    Done c t ∧ e ≠ .write (.failed .eagain) := by
  obtain ⟨hout, -, hstdin, hwrite⟩ := leaves_loop h
  obtain ⟨hbuf, hcum⟩ := hstdin hs.pc
  refine ⟨⟨?_, ?_, hbuf.trans hs.buf, hcum.trans hs.cum, ?_⟩, ?_⟩
  · exact (congrArg Outside.eof hout).trans hs.eof
  · exact (congrArg Outside.taken hout).trans hs.taken
  · exact fun hpc => (hwrite hs.pc hpc).ne hs.cum
  · rintro rfl
    cases h with
    | write hpc => exact hs.pc hpc

/-! ## Whole runs -/

theorem feed_step (hfits : c.cmdStdin.length ≤ c.capacity) (hs : Going c s ∨ Done c s)
    (ht : PatientStep c s e t) :
    (Going c t ∨ Done c t) ∧ e ≠ .write (.failed .eagain) := by
  obtain ⟨hp, ht⟩ := ht
  cases stepMoves ht with
  | child hmoves =>
    refine ⟨?_, nofun⟩
    rcases hs with hs | hs
    · exact (going_child hs hp hmoves).imp_right And.left
    · exact .inr (done_child hs hmoves)
  | tick =>
    refine ⟨hs.imp (fun hs => ?_) (fun hs => ?_), nofun⟩
    · exact hs.move rfl hs.pc hs.writing fun hpc hempty => (hs.mute hempty).2.2 hpc
    · exact ⟨hs.eof, hs.taken, hs.buf, hs.cum, hs.pc⟩
  | loop hmoves =>
    rcases hs with hs | hs
    · exact (going_loop hs hfits hp hmoves).imp_left .inl
    · exact (done_loop hs hmoves).imp_left .inr

theorem feed_run {clock : ℚ} (hfits : c.cmdStdin.length ≤ c.capacity)
    (h : Run (PatientStep c) (init c clock) tr s) :
    (Going c s ∨ Done c s) ∧ Event.write (.failed .eagain) ∉ tr := by
  refine h.invariant (I := fun tr s => (Going c s ∨ Done c s) ∧ Event.write (.failed .eagain) ∉ tr)
    ⟨.inl (going_init c clock), List.not_mem_nil⟩ ?_
  rintro tr s e t ⟨hs, htr⟩ ht
  obtain ⟨ht', hne⟩ := feed_step hfits hs ht
  refine ⟨ht', fun hmem => ?_⟩
  rcases List.mem_append.mp hmem with hmem | hmem
  · exact htr hmem
  · exact hne (List.mem_singleton.mp hmem).symm

/-- Without input the end of the file never comes. -/
theorem going_of_empty {clock : ℚ} (hempty : c.cmdStdin = [])
    (h : Run (PatientStep c) (init c clock) tr s) : Going c s := by
  have hfits : c.cmdStdin.length ≤ c.capacity := by simp [hempty]
  refine h.invariant_state (going_init c clock) ?_
  rintro s e t hs ⟨hp, ht⟩
  cases stepMoves ht with
  | child hmoves =>
    rcases going_child hs hp hmoves with hs' | ⟨-, hclosed⟩
    · exact hs'
    · rw [(hs.mute hempty).1] at hclosed
      cases hclosed
  | tick => exact hs.move rfl hs.pc hs.writing fun hpc hempty => (hs.mute hempty).2.2 hpc
  | loop hmoves => exact (going_loop hs hfits hp hmoves).1

/-! ## The way back to the top of the loop -/

variable {P : State → Prop}

theorem Going.advance (hs : Going c s) (hfits : c.cmdStdin.length ≤ c.capacity)
    (hmoves : s.LoopMoves c e t) (hp : Patient c s e)
    (h : Going c t → CanReach (PatientStep c) t P) : CanReach (PatientStep c) s P :=
  .after ⟨hp, step_of_moves hmoves⟩ (h (going_loop hs hfits hp hmoves).1)

theorem patient_go (hpc : s.pc ≠ .timedOut) : Patient c s .go := fun h => absurd h hpc

theorem moves_top (hpc : s.pc = .top) (hreaped : s.reaped = false) :
    s.LoopMoves c .go { s with now := s.clock, pc := .waitpid } := by
  cases s
  cases hpc
  cases hreaped
  exact .top rfl

theorem moves_running (hpc : s.pc = .waitpid) (hchild : s.child = .running) : s.LoopMoves c
    (.waitpid .running) { s with resPid := 0, pc := .poll (s.pollTimeout c) } := by
  refine .running hpc ?_
  unfold State.waitpidReturns
  rw [hchild]
  rfl

/-- The loop is at its top and the child still reading. -/
def AtTop (c : Call) (t : State) : Prop := Going c t ∧ t.pc = .top

theorem top_of_hangups (hs : Going c s) (hfits : c.cmdStdin.length ≤ c.capacity)
    (hpc : s.pc = .hangups) : CanReach (PatientStep c) s (AtTop c) :=
  hs.advance hfits (.hangups hpc) (patient_go (by simp [hpc])) fun ht => .here ⟨ht, rfl⟩

/-- What a pipe gives to the next `read()`. -/
def OutPipe.nextRead (p : OutPipe) : ReadResult :=
  if p.buf = [] then if p.writer then .failed .eagain else .eof
  else .data (min cmdqdPipeBufferSize p.buf.length)

theorem readReturns_nextRead (p : OutPipe) : p.readReturns p.nextRead = true := by
  unfold OutPipe.nextRead
  split
  · split <;> simp_all [OutPipe.readReturns]
  · rename_i hbuf
    have := List.length_pos_iff.mpr hbuf
    have hsize : 0 < cmdqdPipeBufferSize := by decide
    simp only [OutPipe.readReturns, Bool.and_eq_true, decide_eq_true_eq]
    omega

theorem patient_nextRead (p : OutPipe) : Patient c s (.read p.nextRead) := by
  unfold OutPipe.nextRead
  split
  · split
    · exact rfl
    · trivial
  · trivial

theorem top_of_readStderr (hfits : c.cmdStdin.length ≤ c.capacity) (n : Nat) :
    ∀ s, Going c s → s.pc = .readStderr → s.stderr.buf.length = n →
      CanReach (PatientStep c) s (AtTop c) := by
  induction n using Nat.strong_induction_on with
  | _ n ih =>
  intro s hs hpc hn
  refine hs.advance hfits (.readStderr hpc (readReturns_nextRead _)) (patient_nextRead s.stderr) ?_
  unfold OutPipe.nextRead
  split
  · split <;> exact fun ht => top_of_hangups ht hfits rfl
  · rename_i hbuf
    have := List.length_pos_iff.mpr hbuf
    refine fun ht => ih _ ?_ _ ht hpc rfl
    simp [State.onReadStderr, OutPipe.read, cmdqdPipeBufferSize]
    omega

theorem top_of_stderrReady (hs : Going c s) (hfits : c.cmdStdin.length ≤ c.capacity)
    (hpc : s.pc = .stderrReady) : CanReach (PatientStep c) s (AtTop c) := by
  refine hs.advance hfits (.stderrReady hpc) (patient_go (by simp [hpc])) ?_
  split
  · exact fun ht => top_of_readStderr hfits _ _ ht rfl rfl
  · exact fun ht => top_of_hangups ht hfits rfl

theorem top_of_readStdout (hfits : c.cmdStdin.length ≤ c.capacity) (n : Nat) :
    ∀ s, Going c s → s.pc = .readStdout → s.stdout.buf.length = n →
      CanReach (PatientStep c) s (AtTop c) := by
  induction n using Nat.strong_induction_on with
  | _ n ih =>
  intro s hs hpc hn
  refine hs.advance hfits (.readStdout hpc (readReturns_nextRead _)) (patient_nextRead s.stdout) ?_
  unfold OutPipe.nextRead
  split
  · split <;> exact fun ht => top_of_stderrReady ht hfits rfl
  · rename_i hbuf
    have := List.length_pos_iff.mpr hbuf
    refine fun ht => ih _ ?_ _ ht hpc rfl
    simp [State.onReadStdout, OutPipe.read, cmdqdPipeBufferSize]
    omega

theorem top_of_stdoutReady (hs : Going c s) (hfits : c.cmdStdin.length ≤ c.capacity)
    (hpc : s.pc = .stdoutReady) : CanReach (PatientStep c) s (AtTop c) := by
  refine hs.advance hfits (.stdoutReady hpc) (patient_go (by simp [hpc])) ?_
  split
  · exact fun ht => top_of_readStdout hfits _ _ ht rfl rfl
  · exact fun ht => top_of_stderrReady ht hfits rfl

/-- With an empty pipe, all that remains can be written at once. -/
theorem writeReturns_remaining (hs : Going c s) (hfits : c.cmdStdin.length ≤ c.capacity)
    (hpc : s.pc = .write) : s.writeReturns c (.wrote (s.remaining c)) = true := by
  have hmore := hs.writing hpc
  have hroom := hs.remaining_le_free hfits
  have hpos : 0 < s.remaining c := by
    unfold State.remaining
    omega
  simp [State.writeReturns, hs.reader, hpos, hroom]

theorem stdoutReady_of_writeLoop (hs : Going c s) (hfits : c.cmdStdin.length ≤ c.capacity)
    (hpc : s.pc = .writeLoop) : CanReach (PatientStep c) s fun t =>
      Going c t ∧ t.pc = .stdoutReady ∧ t.stdinWriteFd = false := by
  have hclose : ∀ s, Going c s → s.pc = .writeLoop → s.cumStdinBytesWritten = c.cmdStdin.length →
      CanReach (PatientStep c) s fun t =>
        Going c t ∧ t.pc = .stdoutReady ∧ t.stdinWriteFd = false := by
    intro s hs hpc hcum
    refine hs.advance hfits (.writeLoop hpc) (patient_go (by simp [hpc])) fun ht => .here ⟨ht, ?_⟩
    unfold State.onWriteLoop
    rw [if_neg (by omega), if_pos hcum]
    exact ⟨rfl, rfl⟩
  by_cases hmore : s.cumStdinBytesWritten < c.cmdStdin.length
  · refine hs.advance hfits (.writeLoop hpc) (patient_go (by simp [hpc])) ?_
    unfold State.onWriteLoop
    rw [if_pos hmore]
    intro ht
    refine ht.advance hfits (.write rfl (writeReturns_remaining ht hfits rfl)) trivial fun hu =>
      hclose _ hu rfl ?_
    simp only [State.onWrite, State.remaining]
    omega
  · exact hclose s hs hpc (le_antisymm hs.cum (not_lt.mp hmore))

/-- The clock is one that can be set back. -/
theorem top_of_timedOut (hs : Going c s) (hfits : c.cmdStdin.length ≤ c.capacity)
    (hpc : s.pc = .timedOut) : CanReach (PatientStep c) s (AtTop c) := by
  set u : State := { s with clock := c.cmdRuntimeStart + c.queueCmdTimeoutSec - 1 } with hu
  have hgoing : Going c u := hs.move rfl hs.pc hs.writing fun hp hempty => (hs.mute hempty).2.2 hp
  have hintime : u.clock - c.cmdRuntimeStart < c.queueCmdTimeoutSec := by
    rw [hu]
    dsimp only
    linarith
  have htop : (u.onTimedOut c).pc = .top := by
    unfold State.onTimedOut
    rw [if_neg (by simp [hgoing.reaped])]
    dsimp only
    rw [if_neg (Rat.not_le.mpr hintime)]
  have htick : PatientStep c s (.tick u.clock) u := ⟨trivial, rfl⟩
  exact .after htick (hgoing.advance hfits (.timedOut hpc) (fun _ => .inr hintime) fun ht => .here ⟨ht, htop⟩)

/-- From everywhere in the loop. An interrupted `poll()` is the shortest way. -/
theorem can_reach_top (hs : Going c s) (hfits : c.cmdStdin.length ≤ c.capacity) :
    CanReach (PatientStep c) s (AtTop c) := by
  have hpoll : ∀ s timeout, Going c s → s.pc = .poll timeout →
      CanReach (PatientStep c) s (AtTop c) := fun s timeout hs hpc =>
    hs.advance hfits (.poll (r := .failed .eintr) hpc rfl) rfl fun ht => .here ⟨ht, rfl⟩
  have hwriteLoop : ∀ s, Going c s → s.pc = .writeLoop →
      CanReach (PatientStep c) s (AtTop c) := fun s hs hpc =>
    (stdoutReady_of_writeLoop hs hfits hpc).trans fun t ht => top_of_stdoutReady ht.1 hfits ht.2.1
  have hfeeding := hs.pc
  cases hpc : s.pc <;> rw [hpc] at hfeeding
  case top => exact .here ⟨hs, hpc⟩
  case waitpid =>
    exact hs.advance hfits (moves_running hpc hs.child) trivial fun ht =>
      hpoll _ _ ht rfl
  case poll timeout => exact hpoll s timeout hs hpc
  case timedOut => exact top_of_timedOut hs hfits hpc
  case stdinReady =>
    refine hs.advance hfits (.stdinReady hpc) (patient_go (by simp [hpc])) ?_
    split
    · exact fun ht => hwriteLoop _ ht rfl
    · exact fun ht => top_of_stdoutReady ht hfits rfl
  case writeLoop => exact hwriteLoop s hs hpc
  case write =>
    exact hs.advance hfits (.write hpc (writeReturns_remaining hs hfits hpc)) trivial
      fun ht => hwriteLoop _ ht rfl
  case stdoutReady => exact top_of_stdoutReady hs hfits hpc
  case readStdout => exact top_of_readStdout hfits _ s hs hpc rfl
  case stderrReady => exact top_of_stderrReady hs hfits hpc
  case readStderr => exact top_of_readStderr hfits _ s hs hpc rfl
  case hangups => exact top_of_hangups hs hfits hpc
  all_goals cases hfeeding

/-! ## All of the input, and then the end of the file -/

/-- The child empties the pipe. -/
theorem can_empty (hs : Going c s) (h : ∀ t, Going c t → t.stdin.buf = [] → t.pc = s.pc →
      t.stdinWriteFd = s.stdinWriteFd → CanReach (PatientStep c) t P) :
    CanReach (PatientStep c) s P := by
  by_cases hbuf : s.stdin.buf = []
  · exact h s hs hbuf rfl rfl
  set n := s.stdin.buf.length with hn
  set t : State := { s with
    stdin := { s.stdin with buf := s.stdin.buf.drop n, taken := s.stdin.taken ++ s.stdin.buf.take n } }
    with ht
  have hread : s.ChildMoves c (.read n) t := .read hs.reader (List.length_pos_iff.mpr hbuf) hn.le
  have hgoing : Going c t := by
    rcases going_child (a := .read n) hs trivial hread with hgoing | ⟨hdone, -⟩
    · exact hgoing
    · have heof := hdone.eof
      rw [show t.stdin.eof = false from hs.eof] at heof
      cases heof
  have hstep : PatientStep c s (.child (.read n)) t := ⟨trivial, step_of_child hread⟩
  exact .after hstep (h t hgoing List.drop_length rfl rfl)

theorem can_see_eof (hs : Going c s) (hclosed : s.stdinWriteFd = false) :
    CanReach (PatientStep c) s fun t => t.stdin.eof = true := by
  refine can_empty hs fun t ht hbuf _ hfd => ?_
  have heof : PatientStep c t (.child .seeEof) { t with stdin := { t.stdin with eof := true } } :=
    ⟨trivial, step_of_child (.seeEof ht.reader hbuf (hfd.trans hclosed))⟩
  exact .after heof (.here rfl)

/-- What a descriptor of the child's output can report. -/
def PollFd.seen (fd : PollFd) (pipe : OutPipe) : Revents :=
  if fd.fd then { data := fd.events && !pipe.buf.isEmpty, hangup := !pipe.writer } else {}

theorem reports_seen (fd : PollFd) (pipe : OutPipe) :
    fd.reports (!pipe.buf.isEmpty || !pipe.writer) (!pipe.buf.isEmpty) (!pipe.writer)
      (fd.seen pipe) = true := by
  unfold PollFd.reports PollFd.seen
  split
  · cases fd.events <;> cases pipe.buf.isEmpty <;> simp
  · rfl

def State.pollout (s : State) : PollReport :=
  ⟨{ data := true }, s.stdoutFd.seen s.stdout, s.stderrFd.seen s.stderr⟩

/-- POLLOUT is reported of an empty pipe if it was asked for. -/
theorem moves_pollout {timeout : Int} (hpc : s.pc = .poll timeout) (hreader : s.stdin.reader = true)
    (hbuf : s.stdin.buf = []) (hfd : s.stdinFd.fd = true) (hevents : s.stdinFd.events = true) :
    s.LoopMoves c (.poll (.ready s.pollout)) (s.onPoll c (.ready s.pollout)) := by
  have hsome : s.pollout ≠ {} := fun h => by cases congrArg (·.stdin.data) h
  have hstdin : s.stdinFd.reports (s.stdin.buf.length < c.capacity)
      (s.stdin.buf.isEmpty && s.stdin.reader) (!s.stdin.reader) { data := true } = true := by
    simp [PollFd.reports, hreader, hbuf, hfd, hevents, capacity_pos]
  apply State.LoopMoves.poll hpc
  simp only [State.pollReturns, State.reports, Bool.and_eq_true, decide_eq_true_eq]
  exact ⟨hsome, ⟨hstdin, reports_seen _ _⟩, reports_seen _ _⟩

theorem can_close (hs : AtTop c s) (hfits : c.cmdStdin.length ≤ c.capacity) (hne : c.cmdStdin ≠ [])
    (hopen : s.stdinWriteFd = true) (hbuf : s.stdin.buf = []) :
    CanReach (PatientStep c) s fun t => Going c t ∧ t.stdinWriteFd = false := by
  obtain ⟨hgoing, hpc⟩ := hs
  obtain ⟨hfd, hevents⟩ := hgoing.opened hopen
  rw [List.isEmpty_eq_false_iff.mpr hne] at hevents
  refine hgoing.advance hfits (moves_top hpc hgoing.reaped) (patient_go (by simp [hpc])) fun ht => ?_
  refine ht.advance hfits (moves_running rfl hgoing.child) trivial fun ht => ?_
  refine ht.advance hfits (moves_pollout rfl hgoing.reader hbuf hfd hevents) trivial fun ht => ?_
  refine ht.advance hfits (.stdinReady rfl) (patient_go nofun) fun ht => ?_
  exact (stdoutReady_of_writeLoop ht hfits rfl).trans fun u hu => .here ⟨hu.1, hu.2.2⟩

theorem can_deliver (hs : Going c s) (hfits : c.cmdStdin.length ≤ c.capacity) (hne : c.cmdStdin ≠ []) :
    CanReach (PatientStep c) s fun t => t.stdin.eof = true := by
  refine (can_reach_top hs hfits).trans fun t ht => ?_
  refine can_empty ht.1 fun u hu hbuf hpc hfd => ?_
  cases hopen : u.stdinWriteFd with
  | false => exact can_see_eof hu hopen
  | true =>
    exact (can_close ⟨hu, hpc.trans ht.2⟩ hfits hne hopen hbuf).trans fun v hv => can_see_eof hv.1 hv.2

/-! ## Input that does not fit into the pipe -/

theorem can_after (hmoves : s.LoopMoves c e t) (hp : Patient c s e)
    (h : CanReach (PatientStep c) t P) : CanReach (PatientStep c) s P :=
  .after ⟨hp, step_of_moves hmoves⟩ h

/-- The inner loop is about to write to a full pipe. -/
def AtFullPipe (c : Call) (t : State) : Prop :=
  t.pc = .write ∧ t.stdin.reader = true ∧ t.free c = 0 ∧ 0 < t.remaining c

theorem onWriteLoop_more (h : s.cumStdinBytesWritten < c.cmdStdin.length) :
    s.onWriteLoop c = { s with pc := .write } := if_pos h

/-- The first write fills the pipe, and the inner loop goes on. -/
theorem full_of_writeLoop (hlong : c.capacity < c.cmdStdin.length) (hpc : s.pc = .writeLoop)
    (hreader : s.stdin.reader = true) (hbuf : s.stdin.buf = []) (hcum : s.cumStdinBytesWritten = 0) :
    CanReach (PatientStep c) s (AtFullPipe c) := by
  have hcap := capacity_pos c
  have hpipeBuf := c.capacity.property
  have hmore : s.cumStdinBytesWritten < c.cmdStdin.length := by omega
  refine can_after (.writeLoop hpc) (patient_go (by simp [hpc])) ?_
  rw [onWriteLoop_more hmore]
  refine can_after (.write (r := .wrote c.capacity) rfl ?_) trivial ?_
  · simp only [State.writeReturns, State.remaining, State.free, hreader, hbuf, hcum, Bool.and_eq_true,
      Bool.or_eq_true, decide_eq_true_eq, List.length_nil]
    refine ⟨⟨⟨⟨trivial, hcap⟩, ?_⟩, ?_⟩, .inl ?_⟩ <;> omega
  refine can_after (.writeLoop rfl) (patient_go nofun) ?_
  rw [onWriteLoop_more (by simp [State.onWrite, hcum]; omega)]
  refine .here ⟨rfl, hreader, ?_, ?_⟩
  · simp [State.free, State.onWrite, hbuf, hcum]
    omega
  · simp [State.remaining, State.onWrite, hcum]
    omega

theorem can_fill (clock : ℚ) (hlong : c.capacity < c.cmdStdin.length) :
    CanReach (PatientStep c) (init c clock) (AtFullPipe c) := by
  have hevents : (init c clock).stdinFd.events = true := by
    have hne : c.cmdStdin ≠ [] := List.ne_nil_of_length_pos (by omega)
    simp [init, hne]
  refine can_after (moves_top rfl rfl) (patient_go nofun) ?_
  refine can_after (moves_running rfl rfl) trivial ?_
  refine can_after (moves_pollout rfl rfl rfl rfl hevents) trivial ?_
  refine can_after (.stdinReady rfl) (patient_go nofun) ?_
  exact full_of_writeLoop hlong rfl rfl rfl rfl

theorem moves_eagain (hs : AtFullPipe c s) : ∃ t, s.LoopMoves c (.write (.failed .eagain)) t := by
  obtain ⟨hpc, hreader, hfree, hmore⟩ := hs
  refine ⟨_, .write hpc ?_⟩
  simp [State.writeReturns, hreader, hfree, hmore]

/-! ## When the input is delivered -/

/-- There is input, and the pipe holds it. -/
theorem delivers_iff (c : Call) :
    Delivers c ↔ c.cmdStdin ≠ [] ∧ c.cmdStdin.length ≤ c.capacity := by
  constructor
  · intro h
    constructor
    · intro hempty
      obtain ⟨-, -, -, hreach⟩ := h 0 [] (init c 0) .nil
      obtain ⟨tr, t, hrun, heof⟩ := hreach rfl
      rw [(going_of_empty hempty hrun).eof] at heof
      cases heof
    · by_contra hlong
      obtain ⟨tr, s, hrun, hfull⟩ := can_fill 0 (not_le.mp hlong)
      obtain ⟨t, ht⟩ := moves_eagain hfull
      have hagain : PatientStep c s (.write (.failed .eagain)) t := ⟨.inr rfl, step_of_moves ht⟩
      obtain ⟨-, -, hnone, -⟩ := h 0 _ t (hrun.snoc hagain)
      exact hnone (List.mem_append_right _ (List.mem_singleton_self _))
  · rintro ⟨hne, hfits⟩ clock tr s hrun
    obtain ⟨hs | hs, htr⟩ := feed_run hfits hrun
    · refine ⟨?_, fun heof => ?_, htr, fun _ => can_deliver hs hfits hne⟩
      · exact (List.prefix_append _ _).trans (hs.sent ▸ List.take_prefix _ _)
      · rw [hs.eof] at heof
        cases heof
    · refine ⟨hs.taken ▸ List.prefix_refl _, fun _ => hs.taken, htr, fun heof => ?_⟩
      rw [hs.eof] at heof
      cases heof

/-- Without input, everything is delivered from the start, and the write end stays open. -/
theorem not_delivers_silent : ¬Delivers silent ∧
    ∀ tr s, Run (PatientStep silent) (init silent 0) tr s →
      s.stdin.taken = silent.cmdStdin ∧ s.stdin.eof = false ∧ s.stdinWriteFd = true := by
  have hopen : ∀ tr s, Run (PatientStep silent) (init silent 0) tr s →
      s.stdin.taken = silent.cmdStdin ∧ s.stdin.eof = false ∧ s.stdinWriteFd = true := by
    intro tr s h
    have hs := going_of_empty rfl h
    have hsent := hs.sent
    rw [show silent.cmdStdin = [] from rfl, List.take_nil, List.append_eq_nil_iff] at hsent
    exact ⟨hsent.1, hs.eof, (hs.mute rfl).1⟩
  refine ⟨fun h => ?_, hopen⟩
  obtain ⟨-, -, -, hreach⟩ := h 0 [] (init silent 0) .nil
  obtain ⟨tr, t, hrun, heof⟩ := hreach rfl
  rw [(hopen tr t hrun).2.1] at heof
  cases heof

end PgCmdQueue.RunCmd
