import PgCmdQueue.RunCmd.Loop

/-!
# What `run_cmd` records of the child's end

The queue's table takes a row with an exit code or with a signal, never with both.
-/

namespace PgCmdQueue.RunCmd

variable {c : Call} {s t : State} {tr : List Event} {e : Event}

/-! ## What was asked for and what the system answered -/

/-- The end is what the two fields tell, and only one of them is set. -/
def Death.RecordedAs (d : Death) (cmdExitCode cmdTermSig : Option Int) : Prop :=
  match d with
  | .exited status => cmdExitCode = some (status : Int) ∧ cmdTermSig = none
  | .signaled sig _ => cmdTermSig = some (sig : Int) ∧ cmdExitCode = none

/-- `run_cmd` has returned, the child is reaped and its end is recorded. -/
def State.RecordsDeath (s : State) : Prop :=
  s.pc = .finished ∧ ∃ d, s.child = .reaped d ∧ d.RecordedAs s.cmdExitCode s.cmdTermSig

/-- A write raised SIGPIPE, or `waitpid()` failed. -/
def Event.fatal : Event → Bool
  | .write .sigpipe => true
  | .waitpid (.failed _) => true
  | _ => false

/-- A system call failed and the loop is left for it. This includes a write that failed with
EAGAIN. -/
def Event.breaks : Event → Bool
  | .poll (.failed e) => e ≠ .eintr
  | .write (.failed e) => e ≠ .eintr
  | .read (.failed e) => e ≠ .eagain
  | _ => false

/-- `waitpid()` returned the status of a child that a signal killed. -/
def Event.killed : Event → Bool
  | .waitpid (.died (.signaled _ _)) => true
  | _ => false

/-- Nothing went wrong, or the one thing that did is hidden by the signal. -/
def Undisturbed (tr : List Event) : Prop :=
  tr.any Event.fatal = false ∧ (tr.any Event.breaks = true → tr.any Event.killed = true)

/-! ## The status -/

section

variable (status : Fin 256) (sig : { n : Nat // 0 < n ∧ n < 127 }) (coreDumped : Bool)

theorem wtermsig_signaled : wtermsig (Death.signaled sig coreDumped).wstatus = sig := by
  obtain ⟨sig, hpos, hlt⟩ := sig
  unfold wtermsig Death.wstatus
  cases coreDumped <;> simp <;> omega

theorem wifexited_exited : wifexited (Death.exited status).wstatus = true := by
  unfold wifexited Death.wstatus
  rw [decide_eq_true_eq]
  dsimp only
  omega

theorem wifexited_signaled : wifexited (Death.signaled sig coreDumped).wstatus = false := by
  have hsig := wtermsig_signaled sig coreDumped
  have hpos := sig.property.1
  unfold wtermsig at hsig
  unfold wifexited
  rw [hsig, decide_eq_false_iff_not]
  omega

theorem wifsignaled_signaled : wifsignaled (Death.signaled sig coreDumped).wstatus = true := by
  have hsig := wtermsig_signaled sig coreDumped
  unfold wtermsig at hsig
  unfold wifsignaled
  rw [hsig, decide_eq_true_eq]
  exact sig.property

theorem wexitstatus_exited : wexitstatus (Death.exited status).wstatus = status := by
  have hlt := status.isLt
  unfold wexitstatus Death.wstatus
  dsimp only
  omega

end

/-! ## What is known at each place of the loop -/

/-- What the trace tells, and what of the state counts for the outcome. -/
structure Known where
  fatal : Bool
  breaks : Bool
  killed : Bool
  death : Option Death
  resPid : Int
  wstatus : Nat
  reaped : Bool
  cmdTermSig : Option Int
  cmdExitCode : Option Int

def Child.death : Child → Option Death
  | .reaped d => some d
  | _ => none

def known (tr : List Event) (s : State) : Known where
  fatal := tr.any Event.fatal
  breaks := tr.any Event.breaks
  killed := tr.any Event.killed
  death := s.child.death
  resPid := s.resPid
  wstatus := s.wstatus
  reaped := s.reaped
  cmdTermSig := s.cmdTermSig
  cmdExitCode := s.cmdExitCode

def Death.isSignaled : Death → Bool
  | .exited _ => false
  | .signaled _ _ => true

namespace Known

def Waiting (k : Known) : Prop := k.death = none ∧ k.resPid = 0 ∧ k.killed = false

def Collected (k : Known) : Prop :=
  ∃ d, k.death = some d ∧ 0 < k.resPid ∧ k.wstatus = d.wstatus ∧ k.killed = d.isSignaled

def Looping (k : Known) : Prop :=
  k.fatal = false ∧ k.breaks = false ∧ k.cmdTermSig = none ∧ k.cmdExitCode = none ∧
    if k.reaped then k.Collected else k.Waiting

/-- The loop was left because the child was reaped, because of an error, or because
`waitpid()` failed. -/
def Left (k : Known) : Prop :=
  k.cmdExitCode = none ∧
    ((k.fatal = false ∧ k.breaks = false ∧ k.cmdTermSig = none ∧ k.Collected) ∨
     (k.fatal = false ∧ k.breaks = true ∧ k.cmdTermSig = some sigabrt ∧ (k.Waiting ∨ k.Collected)) ∨
     (k.fatal = true ∧ k.resPid < 0 ∧ k.death = none))

def Records (k : Known) : Prop :=
  ∃ d, k.death = some d ∧ d.RecordedAs k.cmdExitCode k.cmdTermSig

/-- The invariant of a place. -/
def At (k : Known) : Pc → Prop
  | .finished => k.Records ↔ k.fatal = false ∧ (k.breaks = true → k.killed = true)
  | .dead => k.fatal = true
  | .left => k.Left
  | .outcome => k.Left
  | .waitpidAfter => k.Left ∧ k.resPid = 0
  | .waitpid => k.Looping ∧ k.reaped = false
  | .sigkilled => k.Looping ∧ k.reaped = false
  | _ => k.Looping

end Known

theorem known_snoc (hquiet : e.fatal = false ∧ e.breaks = false ∧ e.killed = false)
    (hsame : known [] t = known [] s) : known (tr ++ [e]) t = known tr s := by
  obtain ⟨hfatal, hbreaks, hkilled⟩ := hquiet
  unfold known at hsame ⊢
  simp only [Known.mk.injEq, List.any_append, List.any_cons, List.any_nil, hfatal, hbreaks, hkilled,
    Bool.or_false, true_and] at hsame ⊢
  exact hsame

/-- What holds at a place is not touched by a step that adds nothing to what is known. -/
theorem at_quiet {p : Pc} (hs : (known tr s).At p)
    (hquiet : e.fatal = false ∧ e.breaks = false ∧ e.killed = false)
    (hsame : known [] t = known [] s) : (known (tr ++ [e]) t).At p := by
  rwa [known_snoc hquiet hsame]

/-- The child changes nothing of what is known. -/
theorem known_child {a : ChildAct} (tr : List Event) (h : s.ChildMoves c a t) :
    known (tr ++ [.child a]) t = known tr s ∧ t.pc = s.pc := by
  cases h with
  | exit hrunning =>
    refine ⟨known_snoc ⟨rfl, rfl, rfl⟩ ?_, rfl⟩
    unfold known
    rw [hrunning]
    rfl
  | _ => exact ⟨known_snoc ⟨rfl, rfl, rfl⟩ rfl, rfl⟩

/-! ## The steps of the loop -/

theorem left_abort (hs : (known tr s).Looping) (what : String) (strerror : Bytes)
    (he : e.fatal = false ∧ e.breaks = true ∧ e.killed = false) :
    (known (tr ++ [e]) (s.abort what strerror)).Left := by
  obtain ⟨hfatal, hbreaks, hkilled⟩ := he
  obtain ⟨hf, -, -, hcode, hwait⟩ := hs
  refine ⟨hcode, .inr (.inl ⟨?_, ?_, rfl, ?_⟩)⟩
  · have : tr.any Event.fatal = false := hf
    simp [known, this, hfatal]
  · simp [known, hbreaks]
  · have hsame : (known (tr ++ [e]) (s.abort what strerror)).killed = (known tr s).killed := by
      simp [known, hkilled]
    split at hwait
    · obtain ⟨d, hd, hpid, hstatus, hk⟩ := hwait
      exact .inr ⟨d, hd, hpid, hstatus, hsame.trans hk⟩
    · obtain ⟨hd, hpid, hk⟩ := hwait
      exact .inl ⟨hd, hpid, hsame.trans hk⟩

/-- What `waitpid()` adds, where the child was not reaped before. -/
theorem waitpid_spec {r : WaitResult} {wnohang : Bool} (c : Call) (next : Pc)
    (hs : (known tr s).Waiting) (hr : s.waitpidReturns wnohang r = true) :
    let k := known (tr ++ [.waitpid r]) (s.onWaitpid c next r)
    (s.onWaitpid c next r).pc = next ∧ k.breaks = (known tr s).breaks ∧ k.reaped = (known tr s).reaped ∧
    k.cmdTermSig = (known tr s).cmdTermSig ∧ k.cmdExitCode = (known tr s).cmdExitCode ∧
    match r with
    | .failed _ => k.fatal = true ∧ k.resPid < 0 ∧ k.death = none
    | .running => wnohang = true ∧ k.fatal = (known tr s).fatal ∧ k.Waiting
    | .died _ => k.fatal = (known tr s).fatal ∧ k.Collected := by
  obtain ⟨hdeath, hpid, hkilled⟩ := hs
  have hkilled' : tr.any Event.killed = false := hkilled
  rcases r with err | _ | d
  · refine ⟨rfl, ?_, rfl, rfl, rfl, ?_, Int.negSucc_lt_zero 0, hdeath⟩
    · simp [known, Event.breaks]
    · simp [known, Event.fatal]
  · refine ⟨rfl, ?_, rfl, rfl, rfl, ?_, ?_, hdeath, rfl, ?_⟩
    · simp [known, Event.breaks]
    · exact (Bool.and_eq_true_iff.mp hr).1
    · simp [known, Event.fatal]
    · simp [known, Event.killed, hkilled']
  · refine ⟨rfl, ?_, rfl, rfl, rfl, ?_, d, rfl, ?_, rfl, ?_⟩
    · simp [known, Event.breaks]
    · simp [known, Event.fatal]
    · exact Int.natCast_pos.mpr c.pid.pos
    · cases d <;> simp [known, Event.killed, Death.isSignaled, hkilled']

theorem Known.Looping.waiting {k : Known} (h : k.Looping) (hreaped : k.reaped = false) :
    k.Waiting := by
  obtain ⟨-, -, -, -, hwait⟩ := h
  rwa [hreaped, if_neg Bool.false_ne_true] at hwait

/-- The other `waitpid()` calls come after the child was reaped, or after a failure. -/
theorem Known.Left.waiting {k : Known} (h : k.Left) (hpid : k.resPid = 0) :
    k.fatal = false ∧ k.breaks = true ∧ k.cmdTermSig = some (sigabrt : Int) ∧ k.Waiting := by
  rcases h with ⟨-, ⟨-, -, -, d, -, hpos, -⟩ | ⟨hfatal, hbreaks, hsig, hw | ⟨d, -, hpos, -⟩⟩ | ⟨-, hneg, -⟩⟩
  · omega
  · exact ⟨hfatal, hbreaks, hsig, hw⟩
  · omega
  · omega

theorem at_failed {err : Errno} (hs : (known tr s).Looping) (hreaped : s.reaped = false)
    (hr : s.waitpidReturns true (.failed err) = true) :
    (known (tr ++ [.waitpid (.failed err)]) (s.onWaitpid c .left (.failed err))).Left := by
  obtain ⟨-, -, -, -, hcode, hlost⟩ := waitpid_spec c .left (hs.waiting hreaped) hr
  obtain ⟨-, -, -, hcode', -⟩ := hs
  exact ⟨hcode.trans hcode', .inr (.inr hlost)⟩

theorem at_running (hs : (known tr s).Looping) (hreaped : s.reaped = false)
    (hr : s.waitpidReturns true .running = true) : (known (tr ++ [.waitpid .running])
      (s.onWaitpid c (.poll (s.pollTimeout c)) .running)).Looping := by
  obtain ⟨-, hbreaks', hreaped', hsig', hcode', -, hfatal', hw⟩ :=
    waitpid_spec c (.poll (s.pollTimeout c)) (hs.waiting hreaped) hr
  obtain ⟨hfatal, hbreaks, hsig, hcode, -⟩ := hs
  refine ⟨hfatal'.trans hfatal, hbreaks'.trans hbreaks, hsig'.trans hsig, hcode'.trans hcode, ?_⟩
  rw [hreaped', if_neg (by simpa [known] using hreaped)]
  exact hw

theorem at_died {d : Death} (hs : (known tr s).Looping) (hreaped : s.reaped = false)
    (hr : s.waitpidReturns true (.died d) = true) : (known (tr ++ [.waitpid (.died d)])
      { s.onWaitpid c (.poll 0) (.died d) with reaped := true }).Looping := by
  obtain ⟨-, hbreaks', -, hsig', hcode', hfatal', hcollected⟩ :=
    waitpid_spec c (.poll 0) (hs.waiting hreaped) hr
  obtain ⟨hfatal, hbreaks, hsig, hcode, -⟩ := hs
  exact ⟨hfatal'.trans hfatal, hbreaks'.trans hbreaks, hsig'.trans hsig, hcode'.trans hcode,
    hcollected⟩

theorem at_sigkilled {r : WaitResult} (hs : (known tr s).Looping) (hreaped : s.reaped = false)
    (hr : s.waitpidReturns false r = true) :
    (known (tr ++ [.waitpid r]) (s.onWaitpid c .left r)).At (s.onWaitpid c .left r).pc := by
  have hw := hs.waiting hreaped
  obtain ⟨hfatal, hbreaks, hsig, hcode, -⟩ := hs
  obtain ⟨hpc, hbreaks', -, hsig', hcode', hspec⟩ := waitpid_spec c .left hw hr
  rw [hpc]
  refine ⟨hcode'.trans hcode, ?_⟩
  rcases r with err | _ | d
  · exact .inr (.inr hspec)
  · cases hspec.1
  · exact .inl ⟨hspec.1.trans hfatal, hbreaks'.trans hbreaks, hsig'.trans hsig, hspec.2⟩

theorem at_waitpidAfter {r : WaitResult} (hs : (known tr s).Left) (hpid : s.resPid = 0)
    (hr : s.waitpidReturns true r = true) :
    (known (tr ++ [.waitpid r]) (s.onWaitpid c .outcome r)).At (s.onWaitpid c .outcome r).pc := by
  obtain ⟨hfatal, hbreaks, hsig, hw⟩ := hs.waiting hpid
  obtain ⟨hpc, hbreaks', -, hsig', hcode', hspec⟩ :=
    waitpid_spec c .outcome hw hr
  rw [hpc]
  refine ⟨hcode'.trans hs.1, .inr ?_⟩
  rcases r with err | _ | d
  · exact .inr hspec
  · exact .inl ⟨hspec.2.1.trans hfatal, hbreaks'.trans hbreaks, hsig'.trans hsig, .inl hspec.2.2⟩
  · exact .inl ⟨hspec.1.trans hfatal, hbreaks'.trans hbreaks, hsig'.trans hsig, .inr hspec.2⟩

/-- A child that is known to be reaped gets its exit code, or its signal in place of SIGABRT. -/
theorem onOutcome_exited {status : Fin 256} (hpid : 0 < s.resPid)
    (hstatus : s.wstatus = (Death.exited status).wstatus) : s.onOutcome c =
      { s with stdinWriteFd := false, pc := .finished, cmdExitCode := some (status : Int) } := by
  have hneg : ¬s.resPid < 0 := by omega
  have hexited : wifexited s.wstatus = true := by rw [hstatus, wifexited_exited]
  have hcode : wexitstatus s.wstatus = status := by rw [hstatus, wexitstatus_exited]
  unfold State.onOutcome
  dsimp only
  rw [if_neg hneg, if_pos hpid, if_pos hexited, hcode]

theorem onOutcome_signaled {sig : { n : Nat // 0 < n ∧ n < 127 }} {coreDumped : Bool}
    (hpid : 0 < s.resPid) (hstatus : s.wstatus = (Death.signaled sig coreDumped).wstatus) :
    s.onOutcome c =
      { s with stdinWriteFd := false, pc := .finished, cmdTermSig := some (sig : Int) } := by
  have hneg : ¬s.resPid < 0 := by omega
  have hexited : ¬wifexited s.wstatus = true := by rw [hstatus, wifexited_signaled]; simp
  have hsignaled : wifsignaled s.wstatus = true := by rw [hstatus, wifsignaled_signaled]
  have hsig : wtermsig s.wstatus = sig := by rw [hstatus, wtermsig_signaled]
  unfold State.onOutcome
  dsimp only
  rw [if_neg hneg, if_pos hpid, if_neg hexited, if_pos hsignaled, hsig]

theorem onOutcome_child (s : State) :
    (s.onOutcome c).pc = .finished ∧ (s.onOutcome c).child = s.child := by
  unfold State.onOutcome
  dsimp only
  split
  · exact ⟨rfl, rfl⟩
  split
  · split
    · exact ⟨rfl, rfl⟩
    split <;> exact ⟨rfl, rfl⟩
  · exact ⟨rfl, rfl⟩

theorem Known.not_records_of_none {k : Known} (h : k.death = none) : ¬k.Records := by
  rintro ⟨d, hd, -⟩
  rw [h] at hd
  cases hd

theorem at_outcome (hs : (known tr s).Left) :
    (known (tr ++ [.go]) (s.onOutcome c)).At (s.onOutcome c).pc := by
  obtain ⟨hpc, hchild⟩ := onOutcome_child (c := c) s
  rw [hpc]
  set k := known (tr ++ [.go]) (s.onOutcome c) with hk
  have hfatal : k.fatal = (known tr s).fatal := by simp [hk, known, Event.fatal]
  have hbreaks : k.breaks = (known tr s).breaks := by simp [hk, known, Event.breaks]
  have hkilled : k.killed = (known tr s).killed := by simp [hk, known, Event.killed]
  have hdeath : k.death = (known tr s).death := by simp [hk, known, hchild]
  unfold Known.At
  rw [hfatal, hbreaks, hkilled]
  obtain ⟨hcode, hs⟩ := hs
  -- With the child reaped, its exit code stands beside SIGABRT; its signal replaces it.
  have hcollected : ∀ d, s.child.death = some d → 0 < s.resPid → s.wstatus = d.wstatus →
      (k.Records ↔ (s.cmdTermSig = none ∨ d.isSignaled = true)) := by
    intro d hd hpid hstatus
    have hd' : k.death = some d := hdeath.trans hd
    have hrecords : k.Records ↔ d.RecordedAs k.cmdExitCode k.cmdTermSig := by
      constructor
      · rintro ⟨d', hd'', h⟩
        rw [hd', Option.some.injEq] at hd''
        subst hd''
        exact h
      · exact fun h => ⟨d, hd', h⟩
    rw [hrecords]
    cases d with
    | exited status =>
      have hsame := onOutcome_exited (c := c) hpid hstatus
      simp [hk, known, hsame, Death.isSignaled, Death.RecordedAs]
    | signaled sig coreDumped =>
      have hsame := onOutcome_signaled (c := c) hpid hstatus
      have hcode' : s.cmdExitCode = none := hcode
      simp [hk, known, hsame, Death.isSignaled, Death.RecordedAs, hcode']
  rcases hs with ⟨hf, hb, hsig, d, hd, hpid, hstatus, -⟩ | ⟨hf, hb, hsig, hw | ⟨d, hd, hpid, hstatus, hkd⟩⟩ |
    ⟨hf, -, hd⟩
  · rw [hcollected d hd hpid hstatus, hf, hb]
    simpa using .inl hsig
  · refine iff_of_false (Known.not_records_of_none (hdeath.trans hw.1)) ?_
    rw [hb, hw.2.2]
    simp
  · rw [hcollected d hd hpid hstatus, hf, hb, hkd]
    have hsig' : s.cmdTermSig = some (sigabrt : Int) := hsig
    simp [hsig']
  · refine iff_of_false (Known.not_records_of_none (hdeath.trans hd)) ?_
    rw [hf]
    simp

theorem at_poll {r : PollResult} (hs : (known tr s).Looping) :
    (known (tr ++ [.poll r]) (s.onPoll c r)).At (s.onPoll c r).pc := by
  unfold State.onPoll
  split
  · exact at_quiet hs ⟨rfl, rfl, rfl⟩ rfl
  · rename_i err hne
    refine left_abort hs _ _ ⟨rfl, ?_, rfl⟩
    exact decide_eq_true hne
  · exact at_quiet hs ⟨rfl, rfl, rfl⟩ rfl
  · exact at_quiet hs ⟨rfl, rfl, rfl⟩ rfl

theorem at_timedOut (hs : (known tr s).Looping) :
    (known (tr ++ [.go]) (s.onTimedOut c)).At (s.onTimedOut c).pc := by
  unfold State.onTimedOut
  by_cases hreaped : s.reaped = true
  · rw [if_pos hreaped, known_snoc ⟨rfl, rfl, rfl⟩ rfl]
    obtain ⟨hfatal, hbreaks, hsig, hcode, hcollected⟩ := hs
    rw [show (known tr s).reaped = true from hreaped, if_pos rfl] at hcollected
    exact ⟨hcode, .inl ⟨hfatal, hbreaks, hsig, hcollected⟩⟩
  · rw [if_neg hreaped]
    dsimp only
    split
    · split
      · split
        · exact at_quiet ⟨hs, Bool.eq_false_iff.mpr hreaped⟩ ⟨rfl, rfl, rfl⟩ rfl
        · exact at_quiet hs ⟨rfl, rfl, rfl⟩ rfl
      · exact at_quiet hs ⟨rfl, rfl, rfl⟩ rfl
    · exact at_quiet hs ⟨rfl, rfl, rfl⟩ rfl

theorem at_write {r : WriteResult} (hs : (known tr s).Looping) :
    (known (tr ++ [.write r]) (s.onWrite c r)).At (s.onWrite c r).pc := by
  unfold State.onWrite
  split
  · exact at_quiet hs ⟨rfl, rfl, rfl⟩ rfl
  · rename_i err hne
    refine left_abort hs _ _ ⟨rfl, ?_, rfl⟩
    exact decide_eq_true hne
  · simp [Known.At, known, Event.fatal]
  · exact at_quiet hs ⟨rfl, rfl, rfl⟩ rfl

theorem at_readStdout {r : ReadResult} (hs : (known tr s).Looping) (hpc : s.pc = .readStdout) :
    (known (tr ++ [.read r]) (s.onReadStdout c r)).At (s.onReadStdout c r).pc := by
  unfold State.onReadStdout
  split
  · exact at_quiet hs ⟨rfl, rfl, rfl⟩ rfl
  · rename_i err hne
    refine left_abort hs _ _ ⟨rfl, ?_, rfl⟩
    exact decide_eq_true hne
  · exact at_quiet hs ⟨rfl, rfl, rfl⟩ rfl
  · dsimp only
    rw [hpc]
    exact at_quiet hs ⟨rfl, rfl, rfl⟩ rfl

theorem at_readStderr {r : ReadResult} (hs : (known tr s).Looping) (hpc : s.pc = .readStderr) :
    (known (tr ++ [.read r]) (s.onReadStderr c r)).At (s.onReadStderr c r).pc := by
  unfold State.onReadStderr
  split
  · exact at_quiet hs ⟨rfl, rfl, rfl⟩ rfl
  · rename_i err hne
    refine left_abort hs _ _ ⟨rfl, ?_, rfl⟩
    exact decide_eq_true hne
  · exact at_quiet hs ⟨rfl, rfl, rfl⟩ rfl
  · dsimp only
    rw [hpc]
    exact at_quiet hs ⟨rfl, rfl, rfl⟩ rfl

theorem at_writeLoop (hs : (known tr s).Looping) :
    (known (tr ++ [.go]) (s.onWriteLoop c)).At (s.onWriteLoop c).pc := by
  unfold State.onWriteLoop
  split
  · exact at_quiet hs ⟨rfl, rfl, rfl⟩ rfl
  split
  · exact at_quiet hs ⟨rfl, rfl, rfl⟩ rfl
  · exact at_quiet hs ⟨rfl, rfl, rfl⟩ rfl

theorem at_loop (hs : (known tr s).At s.pc) (h : s.LoopMoves c e t) :
    (known (tr ++ [e]) t).At t.pc := by
  cases h with
  | top hpc =>
    rw [hpc] at hs
    refine at_quiet (s := s) ?_ ⟨rfl, rfl, rfl⟩ rfl
    split
    · exact hs
    · rename_i hreaped
      exact ⟨hs, Bool.eq_false_iff.mpr hreaped⟩
  | failed hpc hr =>
    rw [hpc] at hs
    exact at_failed hs.1 hs.2 hr
  | running hpc hr =>
    rw [hpc] at hs
    exact at_running hs.1 hs.2 hr
  | died hpc hr =>
    rw [hpc] at hs
    exact at_died hs.1 hs.2 hr
  | poll hpc =>
    rw [hpc] at hs
    exact at_poll hs
  | timedOut hpc =>
    rw [hpc] at hs
    exact at_timedOut hs
  | sigkilled hpc hr =>
    rw [hpc] at hs
    exact at_sigkilled hs.1 hs.2 hr
  | writeLoop hpc =>
    rw [hpc] at hs
    exact at_writeLoop hs
  | write hpc =>
    rw [hpc] at hs
    exact at_write hs
  | readStdout hpc =>
    rw [hpc] at hs
    exact at_readStdout hs hpc
  | readStderr hpc =>
    rw [hpc] at hs
    exact at_readStderr hs hpc
  | stdinReady hpc | stdoutReady hpc | stderrReady hpc =>
    rw [hpc] at hs
    refine at_quiet (s := s) ?_ ⟨rfl, rfl, rfl⟩ rfl
    split <;> exact hs
  | hangups hpc =>
    rw [hpc] at hs
    exact at_quiet (s := s) hs ⟨rfl, rfl, rfl⟩ rfl
  | left hpc =>
    rw [hpc] at hs
    refine at_quiet (s := s) ?_ ⟨rfl, rfl, rfl⟩ rfl
    split
    · exact ⟨hs, ‹_›⟩
    · exact hs
  | waitpidAfter hpc hr =>
    rw [hpc] at hs
    exact at_waitpidAfter hs.1 hs.2 hr
  | outcome hpc =>
    rw [hpc] at hs
    exact at_outcome hs

theorem at_step (hs : (known tr s).At s.pc) (ht : Step c s e t) : (known (tr ++ [e]) t).At t.pc := by
  cases stepMoves ht with
  | child hmoves =>
    obtain ⟨hsame, hpc⟩ := known_child tr hmoves
    rwa [hsame, hpc]
  | tick => exact at_quiet hs ⟨rfl, rfl, rfl⟩ rfl
  | loop hmoves => exact at_loop hs hmoves

/-! ## Whole runs -/

theorem at_run {clock : ℚ} (h : Transition.Run (Step c) (init c clock) tr s) :
    (known tr s).At s.pc := by
  refine h.invariant (I := fun tr s => (known tr s).At s.pc) ?_ fun _ _ _ _ => at_step
  exact ⟨rfl, rfl, rfl, rfl, rfl, rfl, rfl⟩

/-- The values that `run_cmd` stores in `cmd_term_sig`. -/
def IsStoredSig (sig : Int) : Prop := sig = -1 ∨ sig = -2 ∨ (0 < sig ∧ sig < 127)

/-- What is stored makes an outcome, if it is not both. -/
def Stored (s : State) : Prop :=
  (∀ sig ∈ s.cmdTermSig, IsStoredSig sig) ∧ ∀ code ∈ s.cmdExitCode, ∃ i : Fin 256, code = (i : Int)

theorem stored_of_eq (hs : Stored s) (hsig : t.cmdTermSig = s.cmdTermSig)
    (hcode : t.cmdExitCode = s.cmdExitCode) : Stored t := by
  unfold Stored
  rwa [hsig, hcode]

theorem stored_signaled {sig : Int} (hs : Stored s) (hsig : IsStoredSig sig)
    (ht : t.cmdTermSig = some sig) (hcode : t.cmdExitCode = s.cmdExitCode) : Stored t := by
  refine ⟨fun sig' h => ?_, hcode ▸ hs.2⟩
  rw [ht] at h
  exact Option.some.inj h ▸ hsig

theorem stored_abort (hs : Stored s) (what : String) (strerror : Bytes) : Stored (s.abort what strerror) :=
  stored_signaled hs (.inr (.inr (by decide))) rfl rfl

theorem stored_onWaitpid (hs : Stored s) (next : Pc) (r : WaitResult) : Stored (s.onWaitpid c next r) := by
  rcases r with err | _ | d <;> exact stored_of_eq hs rfl rfl

theorem stored_onOutcome (hs : Stored s) : Stored (s.onOutcome c) := by
  unfold State.onOutcome
  dsimp only
  split
  · exact stored_signaled hs (.inl rfl) rfl rfl
  split
  · split
    · refine ⟨hs.1, ?_⟩
      rintro code ⟨⟩
      have hlt : wexitstatus s.wstatus < 256 := Nat.mod_lt _ (by decide)
      exact ⟨⟨_, hlt⟩, rfl⟩
    split
    · rename_i hsignaled
      have hsig : 0 < s.wstatus % 128 ∧ s.wstatus % 128 < 127 := of_decide_eq_true hsignaled
      refine stored_signaled hs (.inr (.inr ?_)) rfl rfl
      unfold wtermsig
      omega
    · exact stored_signaled hs (.inr (.inl rfl)) rfl rfl
  · exact stored_of_eq hs rfl rfl

theorem stored_loop (hs : Stored s) (h : s.LoopMoves c e t) : Stored t := by
  cases h with
  | poll | write | readStdout | readStderr =>
    simp only [State.onPoll, State.onWrite, State.onReadStdout, State.onReadStderr]
    split <;> first | exact stored_abort hs _ _ | exact stored_of_eq hs rfl rfl
  | timedOut | writeLoop =>
    simp only [State.onTimedOut, State.onWriteLoop]
    split_ifs <;> exact stored_of_eq hs rfl rfl
  | running | failed | sigkilled | waitpidAfter => exact stored_onWaitpid hs _ _
  | died => exact stored_of_eq (stored_onWaitpid hs _ _) rfl rfl
  | outcome => exact stored_onOutcome hs
  | _ => exact stored_of_eq hs rfl rfl

theorem stored_step (hs : Stored s) (h : Step c s e t) : Stored t := by
  cases stepMoves h with
  | child moves => cases moves <;> exact stored_of_eq hs rfl rfl
  | tick => exact stored_of_eq hs rfl rfl
  | loop moves => exact stored_loop hs moves

theorem stored_run {clock : ℚ} (h : Transition.Run (Step c) (init c clock) tr s) : Stored s :=
  h.invariant_state (I := Stored) ⟨nofun, nofun⟩ fun _ _ _ hs ht => stored_step hs ht

/-! ## A command with one byte of input -/

def allHungUp : PollReport := { stdout := { hangup := true }, stderr := { hangup := true } }

/-- The child reads the byte and exits. -/
def reads : List Event := [.go, .waitpid .running, .poll (.ready { stdin := { data := true } }), .go,
  .go, .write (.wrote 1), .go, .go, .go, .go, .child (.read 1), .child .seeEof,
  .child (.exit (.exited 3) false), .go, .waitpid (.died (.exited 3)), .poll (.ready allHungUp), .go,
  .go, .go, .go, .go, .poll .none, .go, .go, .go]

/-- The child exits without reading. -/
def ignores : List Event := [.go, .waitpid .running, .child (.exit .success false),
  .poll (.ready { allHungUp with stdin := { data := true, hangup := true } }), .go, .go,
  .write .sigpipe]

end PgCmdQueue.RunCmd
