import PgCmdQueue.Lib.FdTable
import PgCmdQueue.Lib.Run

/-!
# The descriptors of the daemon and of its commands

The runners share the descriptors of the daemon, and `fork()` copies them all.
-/

namespace PgCmdQueue.RunCmd.Descriptors

open FdTable

inductive Stream where
  | stdin
  | stdout
  | stderr
  deriving DecidableEq

inductive Side where
  | read
  | write
  deriving DecidableEq

/-- `STDIN_FILENO` and the like. -/
def Stream.fileno : Stream → Nat
  | .stdin => 0
  | .stdout => 1
  | .stderr => 2

/-- The end that the command has. -/
def Stream.childSide : Stream → Side
  | .stdin => .read
  | .stdout => .write
  | .stderr => .write

/-- An end of a pipe. `call` counts the calls of `run_cmd` that its runner has made. -/
structure End (ι : Type) where
  runner : ι
  call : Nat
  stream : Stream
  side : Side
  deriving DecidableEq

inductive File (ι : Type) where
  | pipe (e : End ι)
  | other (x : Nat)
  deriving DecidableEq

/-- -1 is `none`. -/
structure PipeFds where
  readFd : Option Nat := none
  writeFd : Option Nat := none

variable {ι : Type}

namespace PipeFds

def fd (p : PipeFds) : Side → Option Nat
  | .read => p.readFd
  | .write => p.writeFd

def forget (p : PipeFds) : Side → PipeFds
  | .read => { p with readFd := none }
  | .write => { p with writeFd := none }

/-- Nothing is closed twice. -/
def closeFd (p : PipeFds) (side : Side) (t : Table (File ι)) : PipeFds × Table (File ι) :=
  match p.fd side with
  | none => (p, t)
  | some n => (p.forget side, close t n)

def closeReadFd (p : PipeFds) (t : Table (File ι)) : PipeFds × Table (File ι) := p.closeFd .read t

def closeWriteFd (p : PipeFds) (t : Table (File ι)) : PipeFds × Table (File ι) := p.closeFd .write t

end PipeFds

/-- `stdin_fds`, `stdout_fds` and `stderr_fds` -/
abbrev Pipes := Stream → PipeFds

def Pipes.fd (p : Pipes) (c : Stream × Side) : Option Nat := (p c.1).fd c.2

def Pipes.close (p : Pipes) (t : Table (File ι)) (c : Stream × Side) : Pipes × Table (File ι) :=
  let r := match c.2 with
    | .read => (p c.1).closeReadFd t
    | .write => (p c.1).closeWriteFd t
  (Function.update p c.1 r.1, r.2)

/-! ## The parent -/

def parentCloses : List (Stream × Side) := [(.stdin, .read), (.stdout, .write), (.stderr, .write)]

def childCloses : List (Stream × Side) := [(.stdin, .write), (.stdout, .read), (.stderr, .read)]

/-- `~PipeFds()` of the three, the last one first. -/
def destructorCloses : List (Stream × Side) :=
  [(.stderr, .read), (.stderr, .write), (.stdout, .read), (.stdout, .write), (.stdin, .read),
    (.stdin, .write)]

/-- Where a runner is in `run_cmd`. -/
inductive Pc where
  | idle
  | opening (stream : Stream)
  | forking
  | forked
  | closing (todo : List (Stream × Side))
  | looping
  | returning (todo : List (Stream × Side))

structure Runner where
  pc : Pc := .idle
  call : Nat := 0
  pipes : Pipes := fun _ => {}

def Pc.afterOpening : Stream → Pc
  | .stdin => .opening .stdout
  | .stdout => .opening .stderr
  | .stderr => .forking

/-! ## The child -/

inductive ChildPc where
  | closing (todo : List (Stream × Side))
  | duping (todo : List Stream)
  | sweeping (i : Nat)
  | detaching
  | executed

/-- A process that a runner has forked, or that such a process has forked. -/
structure Process (ι : Type) where
  runner : ι
  call : Nat
  pc : ChildPc
  pipes : Pipes
  fds : Table (File ι)

/-- `limit` is `rlim_cur`. -/
def Process.next (limit : Nat) (p : Process ι) : Option (Process ι) :=
  match p.pc with
  | .closing [] => some { p with pc := .duping [.stdin, .stdout, .stderr] }
  | .closing (c :: todo) =>
    some { p with pc := .closing todo, pipes := (p.pipes.close p.fds c).1, fds := (p.pipes.close p.fds c).2 }
  | .duping [] => some { p with pc := .sweeping 3 }
  | .duping (s :: todo) =>
    match p.pipes.fd (s, s.childSide) with
    | none => some { p with pc := .duping todo }
    | some n => some { p with pc := .duping todo, fds := dup2 p.fds n s.fileno }
  | .sweeping i =>
    if i < limit then some { p with pc := .sweeping (i + 1), fds := close p.fds i }
    else some { p with pc := .detaching }
  | .detaching => some { p with pc := .executed }
  | .executed => none

/-- What a program does with its descriptors. What it opens is no pipe of the daemon's. -/
inductive Act where
  | close (n : Nat)
  | dup2 (old new : Nat)
  | open (n x : Nat)

def Act.apply (t : Table (File ι)) : Act → Table (File ι)
  | .close n => FdTable.close t n
  | .dup2 old new => FdTable.dup2 t old new
  | .open n x => put t n (.other x)

/-! ## All of them -/

structure State (ι : Type) where
  fds : Table (File ι)
  runners : ι → Runner := fun _ => {}
  processes : List (Process ι) := []

/-- `openOther` and `closeOther` are for the daemon's log, connections and kill pipes. -/
inductive Event (ι : Type) where
  | openOther (x : Nat)
  | closeOther (n : Nat)
  | call (i : ι)
  | pipe (i : ι)
  | fork (i : ι) (ok : Bool)
  | detach (i : ι) (ok : Bool)
  | close (i : ι)
  | stdinWritten (i : ι)
  | leave (i : ι)
  | child (k : Nat)
  | program (k : Nat) (a : Act)
  | programForks (k : Nat)
  | exit (k : Nat)

section Steps

variable [DecidableEq ι]

def State.set (s : State ι) (i : ι) (r : Runner) : State ι := { s with runners := Function.update s.runners i r }

/-- The next of the closes that are left to do. -/
def State.closeEnd (s : State ι) (i : ι) (c : Stream × Side) (pc : Pc) : State ι :=
  let r := s.runners i
  { s.set i { r with pc := pc, pipes := (r.pipes.close s.fds c).1 } with fds := (r.pipes.close s.fds c).2 }

def State.forkChild (s : State ι) (i : ι) : State ι :=
  let r := s.runners i
  { s.set i { r with pc := .forked } with
    processes := s.processes ++ [⟨i, r.call, .closing childCloses, r.pipes, s.fds⟩] }

/-- The daemon never closes its standard streams. A `pipe()` that fails ends it, so there is no
step. -/
def State.step (limit : Nat) (s : State ι) : Event ι → Option (State ι)
  | .openOther x => (lowest limit s.fds).map fun n => { s with fds := put s.fds n (.other x) }
  | .closeOther n =>
    match s.fds n with
    | some (.other _) => if 3 ≤ n then some { s with fds := close s.fds n } else none
    | _ => none
  | .call i =>
    match (s.runners i).pc with
    | .idle => some (s.set i ⟨.opening .stdin, (s.runners i).call + 1, fun _ => {}⟩)
    | _ => none
  | .pipe i =>
    match (s.runners i).pc with
    | .opening str =>
      let r := s.runners i
      (pipe limit s.fds (.pipe ⟨i, r.call, str, .read⟩) (.pipe ⟨i, r.call, str, .write⟩)).map fun p =>
        { s.set i ⟨.afterOpening str, r.call, Function.update r.pipes str ⟨some p.1, some p.2.1⟩⟩ with
          fds := p.2.2 }
    | _ => none
  | .fork i ok =>
    match (s.runners i).pc with
    | .forking =>
      if ok then some (s.forkChild i)
      else some (s.set i { s.runners i with pc := .returning destructorCloses })
    | _ => none
  | .detach i ok =>
    match (s.runners i).pc with
    | .forked =>
      some (s.set i { s.runners i with
        pc := if ok then .closing parentCloses else .returning destructorCloses })
    | _ => none
  | .close i =>
    match (s.runners i).pc with
    | .closing [] => some (s.set i { s.runners i with pc := .looping })
    | .closing (c :: todo) => some (s.closeEnd i c (.closing todo))
    | .returning [] => some (s.set i { s.runners i with pc := .idle })
    | .returning (c :: todo) => some (s.closeEnd i c (.returning todo))
    | _ => none
  | .stdinWritten i =>
    match (s.runners i).pc with
    | .looping => some (s.closeEnd i (.stdin, .write) .looping)
    | _ => none
  | .leave i =>
    match (s.runners i).pc with
    | .looping => some (s.set i { s.runners i with pc := .returning destructorCloses })
    | _ => none
  | .child k => do
    let p ← s.processes[k]?
    let q ← p.next limit
    return { s with processes := s.processes.set k q }
  | .program k a => do
    let p ← s.processes[k]?
    match p.pc with
    | .executed => return { s with processes := s.processes.set k { p with fds := a.apply p.fds } }
    | _ => none
  | .programForks k => do
    let p ← s.processes[k]?
    match p.pc with
    | .executed => return { s with processes := s.processes ++ [p] }
    | _ => none
  | .exit k => some { s with processes := s.processes.eraseIdx k }

def Step (limit : Nat) (s : State ι) (e : Event ι) (t : State ι) : Prop := s.step limit e = some t

end Steps

/-- Nothing but standard input, output and error, each one the command's end of its pipe. -/
def childFds (i : ι) (call : Nat) : Table (File ι)
  | 0 => some (.pipe ⟨i, call, .stdin, .read⟩)
  | 1 => some (.pipe ⟨i, call, .stdout, .write⟩)
  | 2 => some (.pipe ⟨i, call, .stderr, .write⟩)
  | _ => none

variable {limit : Nat} {i j : ι} {c d : Stream × Side} {p : Pipes} {t t' : Table (File ι)} {call n : Nat}
  {s u : State ι} {e : Event ι} {q : Process ι}

/-! ## Closing an end -/

theorem pipes_close :
    p.close t c = (Function.update p c.1 ((p c.1).closeFd c.2 t).1, ((p c.1).closeFd c.2 t).2) := by
  obtain ⟨str, side⟩ := c
  cases side <;> rfl

theorem fd_close : (p.close t c).1.fd d = if d = c then none else p.fd d := by
  obtain ⟨str, side⟩ := c
  obtain ⟨str', side'⟩ := d
  rw [pipes_close]
  unfold Pipes.fd PipeFds.closeFd
  by_cases hstr : str' = str
  · subst hstr
    rcases hfd : (p str').fd side with _ | n <;> cases side <;> cases side' <;>
      simp_all [PipeFds.fd, PipeFds.forget]
  · simp [hstr]

theorem table_close : (p.close t c).2 = (p.fd c).elim t (close t) := by
  rw [pipes_close]
  unfold Pipes.fd PipeFds.closeFd
  rcases (p c.1).fd c.2 with _ | n <;> rfl

/-- The objects tell the truth about the descriptors of a process. -/
def Open (t : Table (File ι)) (i : ι) (call : Nat) (p : Pipes) : Prop :=
  ∀ c n, p.fd c = some n → t n = some (.pipe ⟨i, call, c.1, c.2⟩)

/-- And nothing is open on a pipe of the runner besides. -/
structure Held (t : Table (File ι)) (i : ι) (call : Nat) (p : Pipes) : Prop where
  own : Open t i call p
  all : ∀ n e, t n = some (.pipe e) → e.runner = i → e.call = call ∧ p.fd (e.stream, e.side) = some n

theorem Open.inj (h : Open t i call p) (hc : p.fd c = some n) (hd : p.fd d = some n) : c = d := by
  have hsame := (h c n hc).symm.trans (h d n hd)
  simp only [Option.some.injEq, File.pipe.injEq, End.mk.injEq, true_and] at hsame
  exact Prod.ext hsame.1 hsame.2

theorem Open.close (h : Open t i call p) : Open (p.close t c).2 i call (p.close t c).1 := by
  intro d m hd
  rw [fd_close] at hd
  split at hd
  · cases hd
  · rename_i hne
    rw [table_close]
    rcases hfd : p.fd c with _ | n
    · exact h d m hd
    · show FdTable.close t n m = _
      rw [close_ne, h d m hd]
      rintro rfl
      exact hne (h.inj hd hfd)

theorem Held.close (h : Held t i call p) : Held (p.close t c).2 i call (p.close t c).1 := by
  refine ⟨h.own.close, fun m e hm hi => ?_⟩
  have hopen : t m = some (.pipe e) ∧ p.fd c ≠ some m := by
    rw [table_close] at hm
    rcases hfd : p.fd c with _ | n
    · rw [hfd] at hm
      exact ⟨hm, nofun⟩
    · rw [hfd] at hm
      obtain ⟨hne, hm⟩ := close_eq_some_iff.mp hm
      exact ⟨hm, fun h => hne (Option.some.inj h).symm⟩
  obtain ⟨hcall, hfd⟩ := h.all m e hopen.1 hi
  refine ⟨hcall, ?_⟩
  rw [fd_close, if_neg, hfd]
  rintro rfl
  exact hopen.2 hfd

/-- No difference to the descriptors on pipes of the runner. -/
def Same (i : ι) (t t' : Table (File ι)) : Prop :=
  ∀ n e, e.runner = i → (t' n = some (.pipe e) ↔ t n = some (.pipe e))

theorem Held.frame (h : Held t i call p) (hsame : Same i t t') : Held t' i call p :=
  ⟨fun c n hc => (hsame n _ rfl).mpr (h.own c n hc), fun n e hn hi => h.all n e ((hsame n e hi).mp hn) hi⟩

theorem same_close (h : Open t j call p) (hij : i ≠ j) : Same i t (p.close t c).2 := by
  intro n e hi
  rw [table_close]
  rcases hfd : p.fd c with _ | m
  · exact Iff.rfl
  · show FdTable.close t m n = _ ↔ _
    rw [close_eq_some_iff, and_iff_right_iff_imp]
    rintro hn rfl
    rw [h c n hfd] at hn
    simp only [Option.some.injEq, File.pipe.injEq] at hn
    exact hij (by rw [← hi, ← hn])

theorem same_put_other {x : Nat} (h : t n = none) : Same i t (put t n (.other x)) := by
  intro m e _
  rw [put_eq_some_iff]
  constructor
  · rintro (⟨-, hx⟩ | ⟨-, hm⟩)
    · cases hx
    · exact hm
  · intro hm
    refine .inr ⟨?_, hm⟩
    rintro rfl
    rw [h] at hm
    cases hm

theorem same_close_other {x : Nat} (h : t n = some (.other x)) : Same i t (close t n) := by
  intro m e _
  rw [close_eq_some_iff, and_iff_right_iff_imp]
  rintro hm rfl
  rw [h] at hm
  cases hm

theorem Held.pipe {str : Stream} {a b : Nat} (h : Held t i call p)
    (hnone : ∀ side, p.fd (str, side) = none)
    (hp : Piped limit t (.pipe ⟨i, call, str, .read⟩) (.pipe ⟨i, call, str, .write⟩) a b t') :
    Held t' i call (Function.update p str ⟨some a, some b⟩) := by
  have hord := hp.ordered
  have hfd : ∀ c, Pipes.fd (Function.update p str ⟨some a, some b⟩) c =
      if c = (str, .read) then some a else if c = (str, .write) then some b else p.fd c := by
    rintro ⟨str', side⟩
    by_cases hstr : str' = str
    · subst hstr
      cases side <;> simp [Pipes.fd, PipeFds.fd]
    · simp [Pipes.fd, hstr]
  have ht : ∀ m x, t' m = some x ↔
      m = b ∧ .pipe ⟨i, call, str, .write⟩ = x ∨ m = a ∧ .pipe ⟨i, call, str, .read⟩ = x ∨ t m = some x := by
    intro m x
    have ha := hp.freeRead
    have hb := hp.freeWrite
    rw [hp.table, put_eq_some_iff, put_eq_some_iff]
    grind
  constructor
  · intro c m hc
    rw [hfd] at hc
    rw [ht]
    split at hc
    · exact .inr (.inl ⟨(Option.some.inj hc).symm, by simp [*]⟩)
    split at hc
    · exact .inl ⟨(Option.some.inj hc).symm, by simp [*]⟩
    · exact .inr (.inr (h.own c m hc))
  · intro m e hm hi
    rw [hfd]
    rcases (ht m _).mp hm with ⟨rfl, he⟩ | ⟨rfl, he⟩ | hm
    · simp [← File.pipe.inj he]
    · simp [← File.pipe.inj he]
    · obtain ⟨hcall, hopen⟩ := h.all m e hm hi
      refine ⟨hcall, ?_⟩
      rw [if_neg, if_neg, hopen]
      all_goals
        intro hc
        rw [hc, hnone] at hopen
        cases hopen

theorem same_pipe {r w : End ι} {a b : Nat} (hr : r.runner ≠ i) (hw : w.runner ≠ i)
    (hp : Piped limit t (.pipe r) (.pipe w) a b t') : Same i t t' := by
  intro m e hi
  have ha := hp.freeRead
  have hb := hp.freeWrite
  rw [hp.table, put_eq_some_iff, put_eq_some_iff]
  grind

/-! ## What a child has -/

def Process.ownEnd (q : Process ι) (str : Stream) : File ι := .pipe ⟨q.runner, q.call, str, str.childSide⟩

/-- The command's ends are there to be copied, out of reach of `dup2()`. -/
structure Process.Ready (limit : Nat) (q : Process ι) : Prop where
  below : Below limit q.fds
  own : Open q.fds q.runner q.call q.pipes
  high : ∀ c n, q.pipes.fd c = some n → 3 ≤ n
  has : ∀ str, q.pipes.fd (str, str.childSide) ≠ none

def Process.Placed (q : Process ι) (str : Stream) : Prop := q.fds str.fileno = some (q.ownEnd str)

def Process.Sound (limit : Nat) (q : Process ι) : Prop :=
  match q.pc with
  | .closing todo => q.Ready limit ∧ ∀ c ∈ todo, c.2 ≠ c.1.childSide
  | .duping todo => q.Ready limit ∧ ∀ str ∉ todo, q.Placed str
  | .sweeping k => Below limit q.fds ∧ (∀ str, q.Placed str) ∧ 3 ≤ k ∧ ∀ n, 3 ≤ n → n < k → q.fds n = none
  | .detaching => q.fds = childFds q.runner q.call
  | .executed => ∀ n e, q.fds n = some (.pipe e) →
      e.runner = q.runner ∧ e.call = q.call ∧ e.side = e.stream.childSide

theorem fileno_lt (str : Stream) : str.fileno < 3 := by cases str <;> decide

theorem fileno_inj {str str' : Stream} (h : str.fileno = str'.fileno) : str = str' := by
  cases str <;> cases str' <;> first | rfl | cases h

theorem Process.Ready.lt (h : q.Ready limit) (hc : q.pipes.fd c = some n) : n < limit := by
  by_contra hle
  have hnone := h.below n (by omega)
  rw [h.own c n hc] at hnone
  cases hnone

theorem ready_close (h : q.Ready limit) (hc : c.2 ≠ c.1.childSide) (pc : ChildPc) :
    Process.Ready limit { q with
      pc := pc, pipes := (q.pipes.close q.fds c).1, fds := (q.pipes.close q.fds c).2 } := by
  refine ⟨?_, h.own.close, fun d n hd => ?_, fun str => ?_⟩
  · show Below limit (q.pipes.close q.fds c).2
    rw [table_close]
    cases q.pipes.fd c with
    | none => exact h.below
    | some n => exact below_close h.below
  · replace hd : (q.pipes.close q.fds c).1.fd d = some n := hd
    rw [fd_close] at hd
    split at hd
    · cases hd
    · exact h.high d n hd
  · show (q.pipes.close q.fds c).1.fd _ ≠ none
    rw [fd_close, if_neg]
    · exact h.has str
    · rintro rfl
      exact hc rfl

/-- The copy goes to a number that no end has. -/
theorem ready_dup2 {str : Stream} (h : q.Ready limit) (hn : q.pipes.fd (str, str.childSide) = some n)
    (pc : ChildPc) : Process.Ready limit { q with pc := pc, fds := dup2 q.fds n str.fileno } := by
  have hlt := fileno_lt str
  refine ⟨below_dup2 h.below ?_, fun d m hd => ?_, h.high, h.has⟩
  · have := h.lt hn
    have := h.high _ _ hn
    omega
  · have := h.high d m hd
    show dup2 q.fds n str.fileno m = _
    rw [dup2_ne (by omega)]
    exact h.own d m hd

theorem childFds_fileno (i : ι) (call : Nat) (str : Stream) :
    childFds i call str.fileno = some (.pipe ⟨i, call, str, str.childSide⟩) := by
  cases str <;> rfl

theorem childFds_of_le (i : ι) (call : Nat) (h : 3 ≤ n) : childFds i call n = none := by
  match n, h with
  | n + 3, _ => rfl

theorem childFds_eq_some {e : End ι} (h : childFds i call n = some (.pipe e)) :
    e.runner = i ∧ e.call = call ∧ e.side = e.stream.childSide := by
  unfold childFds at h
  split at h
  all_goals
    cases h
    try exact ⟨rfl, rfl, rfl⟩

theorem fds_eq_childFds (hlow : ∀ str, q.Placed str) (hhigh : ∀ n, 3 ≤ n → q.fds n = none) :
    q.fds = childFds q.runner q.call := by
  funext n
  by_cases h : 3 ≤ n
  · rw [hhigh n h, childFds_of_le _ _ h]
  · have hfileno : ∃ str : Stream, str.fileno = n := by
      match n, h with
      | 0, _ => exact ⟨.stdin, rfl⟩
      | 1, _ => exact ⟨.stdout, rfl⟩
      | 2, _ => exact ⟨.stderr, rfl⟩
      | n + 3, h => omega
    obtain ⟨str, rfl⟩ := hfileno
    rw [childFds_fileno]
    exact hlow str

theorem sound_next {r : Process ι} (h : q.Sound limit) (hr : q.next limit = some r) :
    r.Sound limit ∧ r.runner = q.runner ∧ r.call = q.call := by
  obtain ⟨i, call, pc, pipes, fds⟩ := q
  cases pc with
  | closing todo =>
    obtain ⟨hready, htodo⟩ := h
    cases todo with
    | nil =>
      cases hr
      refine ⟨⟨⟨hready.below, hready.own, hready.high, hready.has⟩, fun str hstr => ?_⟩, rfl, rfl⟩
      exact absurd (by cases str <;> simp) hstr
    | cons c todo =>
      cases hr
      rw [List.forall_mem_cons] at htodo
      exact ⟨⟨ready_close hready htodo.1 _, htodo.2⟩, rfl, rfl⟩
  | duping todo =>
    obtain ⟨hready, hplaced⟩ := h
    cases todo with
    | nil =>
      cases hr
      exact ⟨⟨hready.below, fun str => hplaced str (by simp), Nat.le_refl _, fun n h3 h => by omega⟩, rfl, rfl⟩
    | cons str todo =>
      obtain ⟨n, hn⟩ := Option.ne_none_iff_exists'.mp (hready.has str)
      unfold Process.next at hr
      simp only [hn] at hr
      cases hr
      refine ⟨⟨ready_dup2 hready hn _, fun str' hstr' => ?_⟩, rfl, rfl⟩
      show dup2 fds n str.fileno str'.fileno = _
      by_cases hsame : str' = str
      · subst hsame
        exact dup2_self (hready.own _ n hn)
      · rw [dup2_ne (fun h => hsame (fileno_inj h))]
        exact hplaced str' (by simp [hsame, hstr'])
  | sweeping k =>
    obtain ⟨hbelow, hplaced, hk, hswept⟩ := h
    unfold Process.next at hr
    dsimp only at hr
    split at hr
    · cases hr
      refine ⟨⟨below_close hbelow, fun str => ?_, by omega, fun n h3 h => ?_⟩, rfl, rfl⟩
      · have := fileno_lt str
        show close fds k str.fileno = _
        rw [close_ne (by omega)]
        exact hplaced str
      · show close fds k n = none
        by_cases hnk : n = k
        · rw [hnk, close_self]
        · rw [close_ne hnk]
          exact hswept n h3 (by omega)
    · cases hr
      refine ⟨fds_eq_childFds hplaced fun n h3 => ?_, rfl, rfl⟩
      by_cases hn : n < k
      · exact hswept n h3 hn
      · exact hbelow n (by omega)
  | detaching =>
    cases hr
    refine ⟨fun n e hn => ?_, rfl, rfl⟩
    replace h : fds = childFds i call := h
    rw [h] at hn
    exact childFds_eq_some hn
  | executed => cases hr

theorem sound_apply (h : q.Sound limit) (hq : q.pc = .executed) (a : Act) :
    Process.Sound limit { q with fds := a.apply q.fds } := by
  unfold Process.Sound at h ⊢
  simp only [hq] at h ⊢
  intro n e hn
  cases a with
  | close m => exact h n e (close_eq_some_iff.mp hn).2
  | dup2 old new =>
    by_cases hnew : n = new
    · subst hnew
      rcases hold : q.fds old with _ | f
      · rw [Act.apply, dup2, hold] at hn
        exact h n e hn
      · rw [Act.apply, dup2_self hold] at hn
        exact h old e (hold.trans hn)
    · rw [Act.apply, dup2_ne hnew] at hn
      exact h n e hn
  | «open» m x =>
    rcases put_eq_some_iff.mp hn with ⟨-, hx⟩ | ⟨-, hn⟩
    · cases hx
    · exact h n e hn

end PgCmdQueue.RunCmd.Descriptors
