import PgCmdQueue.RunCmd.Descriptors

/-!
# No command has a pipe of another one

Whatever the order of the steps of the runners and of the processes they fork.
-/

namespace PgCmdQueue.RunCmd.Descriptors

open FdTable

variable {ι : Type} {limit : Nat} {i j : ι} {c d : Stream × Side} {p : Pipes} {t t' : Table (File ι)}
  {call n : Nat} {s u : State ι} {e : Event ι} {q : Process ι}

/-! ## What the daemon has -/

def Pc.MayHold (pc : Pc) (c : Stream × Side) : Prop :=
  match pc with
  | .idle => False
  | .opening str => c.1.fileno < str.fileno
  | .forking => True
  | .forked => True
  | .closing todo => c ∈ todo ∨ c.2 ≠ c.1.childSide
  | .looping => c.2 ≠ c.1.childSide
  | .returning todo => c ∈ todo

/-- Its end of the command's standard input may have been closed in the loop. -/
def Pc.MustHold (pc : Pc) (c : Stream × Side) : Prop :=
  match pc with
  | .opening str => c.1.fileno < str.fileno
  | .forking => True
  | .forked => True
  | .closing _ => c.2 ≠ c.1.childSide
  | .looping => c.1 ≠ .stdin ∧ c.2 ≠ c.1.childSide
  | _ => False

structure Runner.Fits (r : Runner) : Prop where
  may : ∀ c n, r.pipes.fd c = some n → r.pc.MayHold c
  must : ∀ c, r.pc.MustHold c → r.pipes.fd c ≠ none
  todo : ∀ todo, r.pc = .closing todo → ∀ c ∈ todo, c.2 = c.1.childSide

variable {r : Runner}

theorem mem_destructorCloses (c : Stream × Side) : c ∈ destructorCloses := by
  obtain ⟨str, side⟩ := c
  cases str <;> cases side <;> decide

theorem fits_returning : Runner.Fits { r with pc := .returning destructorCloses } :=
  ⟨fun c _ _ => mem_destructorCloses c, nofun, nofun⟩

/-- A step that closes an end, or none. -/
theorem fits_close {pc : Pc} (h : r.Fits) (hmay : ∀ d, d ≠ c → r.pc.MayHold d → pc.MayHold d)
    (hmust : ∀ d, pc.MustHold d → d ≠ c ∧ r.pc.MustHold d)
    (htodo : ∀ todo, pc = .closing todo → ∀ d ∈ todo, d.2 = d.1.childSide) :
    Runner.Fits { r with pc := pc, pipes := (r.pipes.close t c).1 } := by
  refine ⟨fun d n hd => ?_, fun d hd => ?_, htodo⟩
  · replace hd : (r.pipes.close t c).1.fd d = some n := hd
    rw [fd_close] at hd
    split at hd
    · cases hd
    · exact hmay d ‹_› (h.may d n hd)
  · obtain ⟨hne, hmust⟩ := hmust d hd
    show (r.pipes.close t c).1.fd d ≠ none
    rw [fd_close, if_neg hne]
    exact h.must d hmust

theorem fits_closing {todo : List (Stream × Side)} (h : r.Fits) (hpc : r.pc = .closing (c :: todo)) :
    Runner.Fits { r with pc := .closing todo, pipes := (r.pipes.close t c).1 } := by
  have hside := h.todo _ hpc
  rw [List.forall_mem_cons] at hside
  apply fits_close h
  · intro d hd hmay
    rw [hpc] at hmay
    refine hmay.imp_left fun hmem => ?_
    exact (List.mem_cons.mp hmem).resolve_left hd
  · intro d hd
    refine ⟨?_, by rw [hpc]; exact hd⟩
    rintro rfl
    exact hd hside.1
  · rintro todo' h'
    cases h'
    exact hside.2

theorem fits_returning_cons {todo : List (Stream × Side)} (h : r.Fits) (hpc : r.pc = .returning (c :: todo)) :
    Runner.Fits { r with pc := .returning todo, pipes := (r.pipes.close t c).1 } := by
  apply fits_close h
  · intro d hd hmay
    rw [hpc] at hmay
    exact (List.mem_cons.mp hmay).resolve_left hd
  · nofun
  · nofun

theorem fits_stdinWritten (h : r.Fits) (hpc : r.pc = .looping) :
    Runner.Fits { r with pc := .looping, pipes := (r.pipes.close t (.stdin, .write)).1 } := by
  apply fits_close h
  · intro d _ hmay
    rw [hpc] at hmay
    exact hmay
  · intro d hd
    refine ⟨?_, by rw [hpc]; exact hd⟩
    rintro rfl
    exact hd.1 rfl
  · nofun

theorem fits_opening {str : Stream} {a b : Nat} (h : r.Fits) (hpc : r.pc = .opening str) :
    Runner.Fits ⟨.afterOpening str, r.call, Function.update r.pipes str ⟨some a, some b⟩⟩ := by
  have hfd : ∀ c : Stream × Side, c.1 ≠ str →
      Pipes.fd (Function.update r.pipes str ⟨some a, some b⟩) c = r.pipes.fd c := by
    intro c hc
    simp [Pipes.fd, hc]
  have hnext : ∀ c : Stream × Side, (c.1.fileno ≤ str.fileno ↔ (Pc.afterOpening str).MayHold c) ∧
      ((Pc.afterOpening str).MustHold c ↔ c.1.fileno ≤ str.fileno) := by
    rintro ⟨str', side⟩
    cases str <;> cases str' <;> simp [Stream.fileno, Pc.afterOpening, Pc.MayHold, Pc.MustHold]
  refine ⟨fun c n hc => ?_, fun c hc => ?_, ?_⟩
  · apply (hnext c).1.mp
    by_cases hstr : c.1 = str
    · exact Nat.le_of_eq (congrArg Stream.fileno hstr)
    · have hmay := h.may c n (hfd c hstr ▸ hc)
      rw [hpc] at hmay
      exact Nat.le_of_lt hmay
  · replace hc := (hnext c).2.mp hc
    by_cases hstr : c.1 = str
    · obtain ⟨str', side⟩ := c
      cases hstr
      cases side <;> simp [Pipes.fd, PipeFds.fd]
    · show Pipes.fd (Function.update r.pipes str ⟨some a, some b⟩) c ≠ none
      rw [hfd c hstr]
      apply h.must
      rw [hpc]
      exact Nat.lt_of_le_of_ne hc fun h => hstr (fileno_inj h)
  · cases str <;> simp [Pc.afterOpening]

/-! ## Every interleaving -/

/-- The daemon when its first runner starts: its standard streams are open, and no pipe is. -/
structure Fresh (limit : Nat) (t : Table (File ι)) : Prop where
  below : Below limit t
  stdio : ∀ n < 3, ∃ x, t n = some (.other x)
  noPipe : ∀ n e, t n ≠ some (.pipe e)

structure Inv (limit : Nat) (s : State ι) : Prop where
  below : Below limit s.fds
  stdio : ∀ n < 3, ∃ x, s.fds n = some (.other x)
  held : ∀ i, Held s.fds i (s.runners i).call (s.runners i).pipes
  fits : ∀ i, (s.runners i).Fits
  sound : ∀ q ∈ s.processes, q.Sound limit

theorem inv_init (h : Fresh limit t) : Inv limit { fds := t } := by
  refine ⟨h.below, h.stdio, fun i => ⟨?_, fun n e hn => absurd hn (h.noPipe n e)⟩, fun i => ?_, by simp⟩
  · rintro ⟨str, side⟩ n hn
    cases side <;> cases hn
  · refine ⟨?_, nofun, nofun⟩
    rintro ⟨str, side⟩ n hn
    cases side <;> cases hn

/-- Every end of a pipe is out of the way of the standard streams. -/
theorem Inv.high (h : Inv limit s) (hc : (s.runners i).pipes.fd c = some n) : 3 ≤ n := by
  by_contra hlt
  obtain ⟨x, hx⟩ := h.stdio n (by omega)
  rw [(h.held i).own c n hc] at hx
  cases hx

theorem Inv.processes {ps : List (Process ι)} (h : Inv limit s) (hps : ∀ q ∈ ps, q.Sound limit) :
    Inv limit { s with processes := ps } :=
  ⟨h.below, h.stdio, h.held, h.fits, hps⟩

theorem Inv.set_process {k : Nat} (h : Inv limit s) (hq : q.Sound limit) :
    Inv limit { s with processes := s.processes.set k q } := by
  apply h.processes
  intro q' hq'
  rcases List.mem_or_eq_of_mem_set hq' with hmem | rfl
  · exact h.sound q' hmem
  · exact hq

theorem Inv.openOther {x : Nat} (h : Inv limit s) (hn : lowest limit s.fds = some n) :
    Inv limit { s with fds := put s.fds n (.other x) } := by
  obtain ⟨hlt, hfree, -⟩ := lowest_eq_some_iff.mp hn
  refine ⟨below_put h.below hlt, fun m hm => ?_, fun i => (h.held i).frame (same_put_other hfree),
    h.fits, h.sound⟩
  obtain ⟨y, hy⟩ := h.stdio m hm
  refine ⟨y, put_eq_some_iff.mpr (.inr ⟨?_, hy⟩)⟩
  rintro rfl
  rw [hfree] at hy
  cases hy

theorem Inv.closeOther {x : Nat} (h : Inv limit s) (hn : s.fds n = some (.other x)) (h3 : 3 ≤ n) :
    Inv limit { s with fds := FdTable.close s.fds n } := by
  refine ⟨below_close h.below, fun m hm => ?_, fun i => (h.held i).frame (same_close_other hn), h.fits,
    h.sound⟩
  obtain ⟨y, hy⟩ := h.stdio m hm
  exact ⟨y, close_eq_some_iff.mpr ⟨by omega, hy⟩⟩

section Interleavings

variable [DecidableEq ι]

/-- One runner moves, and the others do not notice. -/
theorem Inv.move (h : Inv limit s) (hbelow : Below limit t') (hheld : Held t' i r.call r.pipes)
    (hfits : r.Fits) (hstdio : ∀ n < 3, t' n = s.fds n) (hsame : ∀ j ≠ i, Same j s.fds t') :
    Inv limit { s.set i r with fds := t' } := by
  refine ⟨hbelow, fun n hn => ?_, fun j => ?_, fun j => ?_, h.sound⟩
  · obtain ⟨x, hx⟩ := h.stdio n hn
    exact ⟨x, (hstdio n hn).trans hx⟩
  · by_cases hj : j = i
    · subst hj
      simpa [State.set] using hheld
    · simpa [State.set, hj] using (h.held j).frame (hsame j hj)
  · by_cases hj : j = i
    · subst hj
      simpa [State.set] using hfits
    · simpa [State.set, hj] using h.fits j

theorem Inv.rename (h : Inv limit s) (hcall : r.call = (s.runners i).call)
    (hpipes : r.pipes = (s.runners i).pipes) (hfits : r.Fits) : Inv limit (s.set i r) :=
  h.move h.below (by rw [hcall, hpipes]; exact h.held i) hfits (fun _ _ => rfl) fun _ _ _ _ _ => Iff.rfl

theorem Inv.closeEnd {pc : Pc} (h : Inv limit s)
    (hfits : Runner.Fits { s.runners i with
      pc := pc, pipes := ((s.runners i).pipes.close s.fds c).1 }) :
    Inv limit (s.closeEnd i c pc) := by
  apply h.move ?_ (h.held i).close hfits ?_ fun j hj => same_close (h.held i).own hj
  · rw [table_close]
    cases (s.runners i).pipes.fd c with
    | none => exact h.below
    | some n => exact below_close h.below
  · intro m hm
    rw [table_close]
    rcases hfd : (s.runners i).pipes.fd c with _ | n
    · rfl
    · have := h.high hfd
      exact close_ne (by omega)

theorem Inv.pipe {str : Stream} {a b : Nat} (h : Inv limit s) (hpc : (s.runners i).pc = .opening str)
    (hp : Piped limit s.fds (.pipe ⟨i, (s.runners i).call, str, .read⟩)
      (.pipe ⟨i, (s.runners i).call, str, .write⟩) a b t') :
    Inv limit { s.set i ⟨.afterOpening str, (s.runners i).call,
      Function.update (s.runners i).pipes str ⟨some a, some b⟩⟩ with fds := t' } := by
  have hnone : ∀ side, (s.runners i).pipes.fd (str, side) = none := by
    intro side
    by_contra hsome
    obtain ⟨m, hm⟩ := Option.ne_none_iff_exists'.mp hsome
    have hmay := (h.fits i).may _ m hm
    rw [hpc] at hmay
    exact Nat.lt_irrefl _ hmay
  refine h.move (hp.below h.below) ((h.held i).pipe hnone hp) (fits_opening (h.fits i) hpc) (fun m hm => ?_)
    fun j hj => same_pipe (Ne.symm hj) (Ne.symm hj) hp
  obtain ⟨x, hx⟩ := h.stdio m hm
  have ha := hp.freeRead
  have hb := hp.freeWrite
  rw [hp.table, put_ne, put_ne]
  · rintro rfl
    rw [ha] at hx
    cases hx
  · rintro rfl
    rw [hb] at hx
    cases hx

theorem Inv.forkChild (h : Inv limit s) (hpc : (s.runners i).pc = .forking) : Inv limit (s.forkChild i) := by
  have hmust : ∀ c, (s.runners i).pipes.fd c ≠ none := by
    intro c
    apply (h.fits i).must
    rw [hpc]
    trivial
  have hfits : Runner.Fits { s.runners i with pc := .forked } :=
    ⟨fun _ _ _ => trivial, fun c _ => hmust c, nofun⟩
  have hset : Inv limit (s.set i { s.runners i with pc := .forked }) := h.rename rfl rfl hfits
  apply hset.processes
  intro q hq
  rcases List.mem_append.mp hq with hq | hq
  · exact h.sound q hq
  · rw [List.mem_singleton] at hq
    subst hq
    refine ⟨⟨h.below, (h.held i).own, fun c n hc => h.high hc, fun str => hmust _⟩, ?_⟩
    intro c hc
    unfold childCloses at hc
    simp only [List.mem_cons, List.not_mem_nil, or_false] at hc
    rcases hc with rfl | rfl | rfl <;> nofun

theorem Inv.enter (h : Inv limit s) (hpc : (s.runners i).pc = .idle) :
    Inv limit (s.set i ⟨.opening .stdin, (s.runners i).call + 1, fun _ => {}⟩) := by
  have hnone : ∀ n e, s.fds n = some (.pipe e) → e.runner ≠ i := by
    intro n e hn hi
    have hmay := (h.fits i).may _ n ((h.held i).all n e hn hi).2
    rw [hpc] at hmay
    exact hmay
  have hempty : ∀ c n, Pipes.fd (fun _ => {}) c ≠ some n := by
    rintro ⟨str, side⟩ n
    cases side <;> nofun
  refine h.move h.below ⟨fun c n hc => absurd hc (hempty c n), fun n e hn hi => absurd hi (hnone n e hn)⟩
    ⟨fun c n hc => absurd hc (hempty c n), fun c hc => absurd hc (Nat.not_lt_zero _), nofun⟩
    (fun _ _ => rfl) fun _ _ _ _ _ => Iff.rfl

theorem Inv.detach (h : Inv limit s) (hpc : (s.runners i).pc = .forked) :
    Inv limit (s.set i { s.runners i with pc := .closing parentCloses }) := by
  have hclose : ∀ c, c ∈ parentCloses ↔ c.2 = c.1.childSide := by
    rintro ⟨str, side⟩
    cases str <;> cases side <;> simp [parentCloses, Stream.childSide]
  refine h.rename rfl rfl ⟨fun c _ _ => ?_, fun c _ => ?_, ?_⟩
  · by_cases hc : c.2 = c.1.childSide
    · exact .inl ((hclose c).mpr hc)
    · exact .inr hc
  · apply (h.fits i).must
    rw [hpc]
    trivial
  · rintro todo h' c hc
    cases h'
    exact (hclose c).mp hc

theorem Inv.looping (h : Inv limit s) (hpc : (s.runners i).pc = .closing []) :
    Inv limit (s.set i { s.runners i with pc := .looping }) := by
  refine h.rename rfl rfl ⟨fun c n hc => ?_, fun c hc => (h.fits i).must c ?_, nofun⟩
  · have hmay := (h.fits i).may c n hc
    rw [hpc] at hmay
    exact hmay.resolve_left (by simp)
  · rw [hpc]
    exact hc.2

theorem Inv.idle (h : Inv limit s) (hpc : (s.runners i).pc = .returning []) :
    Inv limit (s.set i { s.runners i with pc := .idle }) := by
  refine h.rename rfl rfl ⟨fun c n hc => ?_, nofun, nofun⟩
  have hmay := (h.fits i).may c n hc
  rw [hpc] at hmay
  exact absurd hmay (by simp [Pc.MayHold])

theorem inv_step (h : Inv limit s) (hu : Step limit s e u) : Inv limit u := by
  unfold Step at hu
  cases e with
  | openOther x =>
    obtain ⟨n, hn, rfl⟩ := Option.map_eq_some_iff.mp hu
    exact h.openOther hn
  | closeOther n =>
    simp only [State.step] at hu
    split at hu
    · split at hu
      · cases hu
        exact h.closeOther ‹_› ‹_›
      · cases hu
    · cases hu
  | call i =>
    simp only [State.step] at hu
    split at hu
    · cases hu
      exact h.enter ‹_›
    · cases hu
  | pipe i =>
    simp only [State.step] at hu
    split at hu
    · obtain ⟨⟨a, b, t⟩, hp, rfl⟩ := Option.map_eq_some_iff.mp hu
      exact h.pipe ‹_› (piped_of_pipe hp)
    · cases hu
  | fork i ok =>
    simp only [State.step] at hu
    split at hu
    · split at hu
      · cases hu
        exact h.forkChild ‹_›
      · cases hu
        exact h.rename rfl rfl fits_returning
    · cases hu
  | detach i ok =>
    simp only [State.step] at hu
    split at hu
    · cases hu
      cases ok with
      | false => exact h.rename rfl rfl fits_returning
      | true => exact h.detach ‹_›
    · cases hu
  | close i =>
    simp only [State.step] at hu
    split at hu
    · cases hu
      exact h.looping ‹_›
    · cases hu
      exact h.closeEnd (fits_closing (h.fits i) ‹_›)
    · cases hu
      exact h.idle ‹_›
    · cases hu
      exact h.closeEnd (fits_returning_cons (h.fits i) ‹_›)
    · cases hu
  | stdinWritten i =>
    simp only [State.step] at hu
    split at hu
    · cases hu
      exact h.closeEnd (fits_stdinWritten (h.fits i) ‹_›)
    · cases hu
  | leave i =>
    simp only [State.step] at hu
    split at hu
    · cases hu
      exact h.rename rfl rfl fits_returning
    · cases hu
  | child k =>
    simp only [State.step, Option.bind_eq_bind, Option.bind_eq_some_iff, Option.pure_def,
      Option.some.injEq] at hu
    obtain ⟨p, hp, q, hq, rfl⟩ := hu
    exact h.set_process (sound_next (h.sound p (List.mem_of_getElem? hp)) hq).1
  | program k a =>
    simp only [State.step, Option.bind_eq_bind, Option.bind_eq_some_iff] at hu
    obtain ⟨p, hp, hu⟩ := hu
    split at hu
    · cases hu
      exact h.set_process (sound_apply (h.sound p (List.mem_of_getElem? hp)) ‹_› a)
    · cases hu
  | programForks k =>
    simp only [State.step, Option.bind_eq_bind, Option.bind_eq_some_iff] at hu
    obtain ⟨p, hp, hu⟩ := hu
    split at hu
    · cases hu
      apply h.processes
      intro q hq
      rcases List.mem_append.mp hq with hq | hq
      · exact h.sound q hq
      · rw [List.mem_singleton.mp hq]
        exact h.sound p (List.mem_of_getElem? hp)
    · cases hu
  | exit k =>
    cases hu
    apply h.processes
    intro q hq
    exact h.sound q (List.mem_of_mem_eraseIdx hq)

variable {tr : List (Event ι)}

theorem inv_run (h : Fresh limit t) (hrun : Transition.Run (Step limit) { fds := t } tr s) : Inv limit s :=
  hrun.invariant_state (inv_init h) fun _ _ _ => inv_step

/-- A program starts with its three ends and nothing else, and never gets at a pipe of another
command. -/
theorem executes_with_own_ends (h : Fresh limit t) (hrun : Transition.Run (Step limit) { fds := t } tr s)
    (hq : q ∈ s.processes) :
    (q.pc = .detaching → q.fds = childFds q.runner q.call) ∧
      (q.pc = .executed → ∀ n e, q.fds n = some (.pipe e) →
        e.runner = q.runner ∧ e.call = q.call ∧ e.side = e.stream.childSide) := by
  have hsound := (inv_run h hrun).sound q hq
  unfold Process.Sound at hsound
  constructor
  · intro hpc
    simpa only [hpc] using hsound
  · intro hpc
    simpa only [hpc] using hsound

/-- The daemon has ends only of calls that are in progress, and in the loop only those that it needs. -/
theorem daemon_keeps_no_end (h : Fresh limit t) (hrun : Transition.Run (Step limit) { fds := t } tr s) :
    (∀ n e, s.fds n = some (.pipe e) → e.call = (s.runners e.runner).call ∧
      (s.runners e.runner).pc ≠ .idle ∧
      ((s.runners e.runner).pc = .looping → e.side ≠ e.stream.childSide)) ∧
    ∀ i str, (s.runners i).pc = .looping → str ≠ .stdin →
      ∃ n, s.fds n = some (.pipe ⟨i, (s.runners i).call, str, .read⟩) := by
  have hinv := inv_run h hrun
  constructor
  · intro n e hn
    obtain ⟨hcall, hfd⟩ := (hinv.held e.runner).all n e hn rfl
    have hmay := (hinv.fits e.runner).may _ n hfd
    refine ⟨hcall, fun hpc => ?_, fun hpc => ?_⟩
    · rw [hpc] at hmay
      exact hmay
    · rw [hpc] at hmay
      exact hmay
  · intro i str hpc hstr
    have hmust : (s.runners i).pipes.fd (str, .read) ≠ none := by
      apply (hinv.fits i).must
      rw [hpc]
      refine ⟨hstr, ?_⟩
      cases str
      · exact absurd rfl hstr
      · nofun
      · nofun
    obtain ⟨n, hn⟩ := Option.ne_none_iff_exists'.mp hmust
    exact ⟨n, (hinv.held i).own _ n hn⟩

end Interleavings

/-! ## One command, by one runner -/

def stdio : Table (File Unit) := fun n => if n < 3 then some (.other n) else none

theorem fresh_stdio : Fresh 9 stdio := by
  refine ⟨fun n hn => ?_, fun n hn => ⟨n, if_pos hn⟩, fun n e => ?_⟩
  · exact if_neg (by omega)
  · unfold stdio
    split <;> simp

/-- Up to the program. -/
def forks : List (Event Unit) :=
  [.call (), .pipe (), .pipe (), .pipe (), .fork () true, .detach () true] ++
    List.replicate 15 (.child 0)

/-- And on to its end, with the parent in its loop. -/
def ends : List (Event Unit) := forks ++ List.replicate 4 (.close ()) ++ [.child 0, .exit 0]

def after (tr : List (Event Unit)) : State Unit := (tr.foldlM (State.step 9) { fds := stdio }).getD { fds := stdio }

theorem run_forks : Transition.Run (Step 9) { fds := stdio } forks (after forks) :=
  Transition.Run.of_foldlM rfl

theorem run_ends : Transition.Run (Step 9) { fds := stdio } ends (after ends) :=
  Transition.Run.of_foldlM rfl

theorem first_executes_with_own_ends :
    ∃ q, (after forks).processes = [q] ∧ q.fds = childFds () 1 := by
  have hmem : ∀ q, (after forks).processes = [q] → q ∈ (after forks).processes := by
    intro q hq
    simp [hq]
  refine ⟨_, rfl, (executes_with_own_ends fresh_stdio run_forks (hmem _ rfl)).1 rfl⟩

theorem daemon_reads_stdout : ∃ n, (after ends).fds n = some (.pipe ⟨(), 1, .stdout, .read⟩) :=
  (daemon_keeps_no_end fresh_stdio run_ends).2 () .stdout rfl nofun

end PgCmdQueue.RunCmd.Descriptors
