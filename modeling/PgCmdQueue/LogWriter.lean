import PgCmdQueue.Lib.Run
import PgCmdQueue.Logger

/-!
# The thread that writes the log

Any number of threads queue lines and post a semaphore. One thread waits for it and writes the
lines out.
-/

namespace PgCmdQueue.LogWriter

open Cpp

/-- `for (std::string real_line; std::getline(iss, real_line); )`. `acc` is what has been read of
the first line. -/
def getlines (acc : Bytes) : Bytes → List Bytes
  | [] => if acc = [] then [] else [acc]
  | c :: rest => if c = ch '\n' then acc :: getlines [] rest else getlines (acc ++ [c]) rest

/-- `fputs(real_line.c_str(), f); fputs("\n", f)` -/
def fputsLine (line : Bytes) : Bytes := cStr line ++ [ch '\n']

def printed (line : Bytes) : Bytes := (getlines [] line).flatMap fputsLine

/-- Where the writer is in `writeLog`. -/
inductive Pc where
  | test
  | wait
  | woken
  | take
  | writing (line : LogLine) (rest : List Bytes)
  | done
  deriving DecidableEq

/-- `posting` counts the threads that have yet to call `sem_post`, and `taken` are the lines that the
writer has taken from the queue. -/
structure State where
  logger : Logger := {}
  linesPending : Nat := 0
  posting : Nat := 0
  running : Bool := true
  reload : Bool := false
  file : Bool := false
  graceCounter : Nat := 0
  pc : Pc := .test
  taken : List LogLine := []
  toStdout : Bytes := []
  toFile : Bytes := []

/-- What `reOpen` comes to. Its error is logged if the level is enabled. -/
inductive Reopened where
  | noPath
  | opened
  | failed (logged : Option LogLine)

inductive Event where
  | push (line : LogLine)
  | post
  | queueReOpen
  | quit
  | go
  | semWait
  | reOpen (r : Reopened)
  | write (ok : Bool)

def State.push (s : State) (line : LogLine) : State :=
  { s with logger := { s.logger with lines := s.logger.lines ++ [line] } }

/-- The writer's own `log()` posts before it goes on. -/
def State.onReOpen (s : State) : Reopened → State
  | .noPath => { s with pc := .take, reload := false, file := false }
  | .opened => { s with pc := .take, reload := false, file := true }
  | .failed none => { s with pc := .take, reload := false, file := false }
  | .failed (some line) =>
    { s.push line with pc := .take, reload := false, file := false, linesPending := s.linesPending + 1 }

/-- `running || (!lines.empty() && graceCounter++ < 1000)` -/
def State.onTest (s : State) : State :=
  if s.running then { s with pc := .wait }
  else if s.logger.lines = [] then { s with pc := .done }
  else if s.graceCounter < 1000 then { s with pc := .wait, graceCounter := s.graceCounter + 1 }
  else { s with pc := .done, graceCounter := s.graceCounter + 1 }

def State.onTake (s : State) : State :=
  match s.logger.lines with
  | [] => { s with pc := .test }
  | line :: lines => { s with
      logger := { s.logger with lines := lines }
      taken := s.taken ++ [line]
      pc := .writing line (getlines [] line.line) }

/-- A line that the file does not take is printed only if it goes to stdout anyway. -/
def State.onWrite (s : State) (line : LogLine) (realLine : Bytes) (rest : List Bytes) (ok : Bool) : State :=
  { s with
    toFile := if s.file && ok then s.toFile ++ fputsLine realLine else s.toFile
    logger := if s.file && !ok then { s.logger with alsoLogToStd := true } else s.logger
    toStdout := if !s.file || line.alsoToStdOut then s.toStdout ++ fputsLine realLine else s.toStdout
    pc := .writing line rest }

def State.step (s : State) : Event → Option State
  | .push line => some { s.push line with posting := s.posting + 1 }
  | .post =>
    if 0 < s.posting then some { s with posting := s.posting - 1, linesPending := s.linesPending + 1 }
    else none
  | .queueReOpen => some { s with reload := true, posting := s.posting + 1 }
  | .quit => if s.running then some { s with running := false, posting := s.posting + 1 } else none
  | .go =>
    match s.pc with
    | .test => some s.onTest
    | .woken => if s.reload then none else some { s with pc := .take }
    | .take => some s.onTake
    | .writing _ [] => some { s with pc := .test }
    | _ => none
  | .semWait =>
    match s.pc with
    | .wait => if 0 < s.linesPending then some { s with pc := .woken, linesPending := s.linesPending - 1 } else none
    | _ => none
  | .reOpen r =>
    match s.pc with
    | .woken => if s.reload then some (s.onReOpen r) else none
    | _ => none
  | .write ok =>
    match s.pc with
    | .writing line (realLine :: rest) => some (s.onWrite line realLine rest ok)
    | _ => none

def Step (s : State) (e : Event) (t : State) : Prop := s.step e = some t

/-- The line that an event puts into the queue. -/
def Event.pushed : Event → Option LogLine
  | .push line => some line
  | .reOpen (.failed logged) => logged
  | _ => none

/-! ## What a step can be -/

inductive State.Moves (s : State) : Event → State → Prop
  | push (line : LogLine) : s.Moves (.push line) { s.push line with posting := s.posting + 1 }
  | post (waits : 0 < s.posting) :
      s.Moves .post { s with posting := s.posting - 1, linesPending := s.linesPending + 1 }
  | queueReOpen : s.Moves .queueReOpen { s with reload := true, posting := s.posting + 1 }
  | quit (running : s.running = true) :
      s.Moves .quit { s with running := false, posting := s.posting + 1 }
  | goOn (pc : s.pc = .test) (running : s.running = true) : s.Moves .go { s with pc := .wait }
  | drained (pc : s.pc = .test) (running : s.running = false) (empty : s.logger.lines = []) :
      s.Moves .go { s with pc := .done }
  | grace (pc : s.pc = .test) (running : s.running = false) (lines : s.logger.lines ≠ [])
      (left : s.graceCounter < 1000) :
      s.Moves .go { s with pc := .wait, graceCounter := s.graceCounter + 1 }
  | gaveUp (pc : s.pc = .test) (running : s.running = false) (lines : s.logger.lines ≠ [])
      (exceeded : 1000 ≤ s.graceCounter) :
      s.Moves .go { s with pc := .done, graceCounter := s.graceCounter + 1 }
  | semWait (pc : s.pc = .wait) (posted : 0 < s.linesPending) :
      s.Moves .semWait { s with pc := .woken, linesPending := s.linesPending - 1 }
  | keep (pc : s.pc = .woken) (reload : s.reload = false) : s.Moves .go { s with pc := .take }
  | reOpen {r : Reopened} (pc : s.pc = .woken) (reload : s.reload = true) :
      s.Moves (.reOpen r) (s.onReOpen r)
  | empty (pc : s.pc = .take) (lines : s.logger.lines = []) : s.Moves .go { s with pc := .test }
  | took {line : LogLine} {rest : List LogLine} (pc : s.pc = .take)
      (lines : s.logger.lines = line :: rest) :
      s.Moves .go { s with
        logger := { s.logger with lines := rest }
        taken := s.taken ++ [line]
        pc := .writing line (getlines [] line.line) }
  | write {line : LogLine} {realLine : Bytes} {rest : List Bytes} {ok : Bool}
      (pc : s.pc = .writing line (realLine :: rest)) :
      s.Moves (.write ok) (s.onWrite line realLine rest ok)
  | wrote {line : LogLine} (pc : s.pc = .writing line []) : s.Moves .go { s with pc := .test }

variable {s t : State} {e : Event} {tr : List Event}

theorem moves_go (h : s.step .go = some t) : s.Moves .go t := by
  simp only [State.step] at h
  split at h
  · rename_i hpc
    cases h
    unfold State.onTest
    split
    · exact .goOn hpc ‹_›
    have hrunning : s.running = false := by simpa using ‹¬s.running = true›
    split
    · exact .drained hpc hrunning ‹_›
    split
    · exact .grace hpc hrunning ‹_› ‹_›
    · exact .gaveUp hpc hrunning ‹_› (Nat.le_of_not_lt ‹_›)
  · split at h
    · cases h
    · cases h
      exact .keep ‹_› (by simpa using ‹¬s.reload = true›)
  · cases h
    unfold State.onTake
    split
    · exact .empty ‹_› ‹_›
    · exact .took ‹_› ‹_›
  · cases h
    exact .wrote ‹_›
  · cases h

theorem moves_of_step (h : Step s e t) : s.Moves e t := by
  cases e with
  | push line =>
    cases h
    exact .push line
  | post =>
    simp only [Step, State.step] at h
    split at h
    · cases h
      exact .post ‹_›
    · cases h
  | queueReOpen =>
    cases h
    exact .queueReOpen
  | quit =>
    simp only [Step, State.step] at h
    split at h
    · cases h
      exact .quit ‹_›
    · cases h
  | go => exact moves_go h
  | semWait =>
    simp only [Step, State.step] at h
    split at h
    · split at h
      · cases h
        exact .semWait ‹_› ‹_›
      · cases h
    · cases h
  | reOpen r =>
    simp only [Step, State.step] at h
    split at h
    · split at h
      · cases h
        exact .reOpen ‹_› ‹_›
      · cases h
    · cases h
  | write ok =>
    simp only [Step, State.step] at h
    split at h
    · cases h
      exact .write ‹_›
    · cases h

@[simp] theorem onWrite_lines {line : LogLine} {realLine : Bytes} {rest : List Bytes} {ok : Bool} :
    (s.onWrite line realLine rest ok).logger.lines = s.logger.lines := by
  unfold State.onWrite
  dsimp only
  split <;> rfl

/-! ## No line is lost, and none overtakes another -/

theorem taken_step (h : Step s e t) :
    t.taken ++ t.logger.lines = s.taken ++ s.logger.lines ++ e.pushed.toList := by
  cases moves_of_step h with
  | push line => simp [State.push, Event.pushed]
  | @reOpen r =>
    cases r with
    | failed logged => cases logged <;> simp [State.onReOpen, State.push, Event.pushed]
    | _ => simp [State.onReOpen, Event.pushed]
  | took _ hlines => simp [hlines, Event.pushed]
  | write =>
    rw [onWrite_lines]
    simp [State.onWrite, Event.pushed]
  | _ => simp [Event.pushed]

/-- Every line that was queued has been taken or waits, in the order of the queue. -/
theorem taken_run (h : Transition.Run Step {} tr s) :
    s.taken ++ s.logger.lines = tr.filterMap Event.pushed :=
  h.invariant (I := fun tr s => s.taken ++ s.logger.lines = tr.filterMap Event.pushed) rfl
    fun tr t e u ht hu => by
      rw [taken_step hu, ht]
      cases he : e.pushed <;> simp [he]

/-! ## What is printed -/

/-- Nothing is open at the end of the text. -/
def Terminated (x : Bytes) : Prop := x = [] ∨ x.getLast? = some (ch '\n')

instance (x : Bytes) : Decidable (Terminated x) := inferInstanceAs (Decidable (_ ∨ _))

variable {acc line x y : Bytes}

theorem terminated_append_newline : Terminated (x ++ ch '\n' :: y) ↔ Terminated y := by
  unfold Terminated
  cases y with
  | nil => simp
  | cons c y => simp [List.getLast?_append, List.getLast?_cons]

theorem flatMap_getlines (hacc : ch '\n' ∉ acc) : (getlines acc line).flatMap (· ++ [ch '\n']) =
    if Terminated (acc ++ line) then acc ++ line else acc ++ line ++ [ch '\n'] := by
  induction line generalizing acc with
  | nil =>
    unfold getlines
    by_cases h : acc = []
    · simp [h, Terminated]
    · have hlast : acc.getLast? ≠ some (ch '\n') := fun hl => hacc (List.mem_of_getLast? hl)
      simp [h, Terminated, hlast]
  | cons c rest ih =>
    unfold getlines
    split
    · rename_i hc
      subst hc
      rw [List.flatMap_cons, ih List.not_mem_nil]
      simp only [terminated_append_newline, List.nil_append]
      split <;> simp
    · have hacc' : ch '\n' ∉ acc ++ [c] := by simp [hacc, Ne.symm ‹c ≠ ch '\n'›]
      rw [ih hacc', List.append_assoc, List.singleton_append]

theorem nulFree_getlines (hacc : NulFree acc) (hline : NulFree line) : ∀ l ∈ getlines acc line, NulFree l := by
  induction line generalizing acc with
  | nil =>
    unfold getlines
    split <;> simp [hacc]
  | cons c rest ih =>
    rw [nulFree_cons] at hline
    unfold getlines
    split
    · rw [List.forall_mem_cons]
      exact ⟨hacc, ih (by simp [NulFree]) hline.2⟩
    · exact ih (nulFree_append.mpr ⟨hacc, by simpa [NulFree] using hline.1⟩) hline.2

/-- A line that has no line end gets one. An empty line is not printed. -/
theorem printed_eq (h : NulFree line) :
    printed line = if Terminated line then line else line ++ [ch '\n'] := by
  have hputs : printed line = (getlines [] line).flatMap (· ++ [ch '\n']) := by
    apply List.flatMap_congr
    intro l hl
    rw [fputsLine, cStr_of_nulFree (nulFree_getlines (by simp [NulFree]) h l hl)]
  rw [hputs, flatMap_getlines List.not_mem_nil, List.nil_append]

/-- What is left to print of the line that the writer is at. -/
def Pc.unprinted : Pc → Bytes
  | .writing _ rest => rest.flatMap fputsLine
  | _ => []

def NoFile : Event → Prop
  | .queueReOpen => False
  | _ => True

structure Printed (s : State) : Prop where
  reload : s.reload = false
  file : s.file = false
  stdout : s.toStdout ++ s.pc.unprinted = s.taken.flatMap fun l => printed l.line

theorem printed_step (hs : Printed s) (h : Step s e t) (he : NoFile e) : Printed t := by
  obtain ⟨hreload, hfile, hstdout⟩ := hs
  cases moves_of_step h with
  | queueReOpen => exact he.elim
  | goOn hpc | drained hpc | grace hpc | gaveUp hpc | semWait hpc | keep hpc | empty hpc | wrote hpc =>
    rw [hpc] at hstdout
    exact ⟨hreload, hfile, hstdout⟩
  | reOpen _ hreload' =>
    rw [hreload] at hreload'
    cases hreload'
  | took hpc hlines =>
    rw [hpc] at hstdout
    refine ⟨hreload, hfile, ?_⟩
    rw [List.flatMap_append, ← hstdout]
    simp [Pc.unprinted, printed]
  | write hpc =>
    rw [hpc] at hstdout
    refine ⟨hreload, hfile, Eq.trans ?_ hstdout⟩
    simp [State.onWrite, hfile, Pc.unprinted]
  | _ => exact ⟨hreload, hfile, hstdout⟩

/-- `line`, ended. -/
def ended (line : Bytes) : Bytes := if Terminated line then line else line ++ [ch '\n']

/-- The daemon opens no log file, so that all of it goes to stdout. What is there, with what is left
of the line that is being printed, are the first of the lines that were queued, whole and in order. -/
theorem stdout_run (h : Transition.Run Step {} tr s) (hfile : ∀ e ∈ tr, NoFile e)
    (hnul : ∀ l ∈ tr.filterMap Event.pushed, NulFree l.line) :
    ∃ waiting, tr.filterMap Event.pushed = s.taken ++ waiting ∧
      s.toStdout ++ s.pc.unprinted = s.taken.flatMap fun l => ended l.line := by
  have hprinted : Printed s := by
    refine (h.restrict hfile).invariant_state ⟨rfl, rfl, rfl⟩ ?_
    exact fun t e u ht hu => printed_step ht hu.2 hu.1
  have htaken := taken_run h
  refine ⟨s.logger.lines, htaken.symm, hprinted.stdout.trans ?_⟩
  apply List.flatMap_congr
  intro l hl
  exact printed_eq (hnul l (htaken ▸ List.mem_append_left _ hl))

/-! ## No wake-up is lost -/

/-- The writer has been woken and has yet to look for a line. -/
def Pc.served (pc : Pc) : Nat :=
  match pc with
  | .woken => 1
  | .take => 1
  | _ => 0

/-- There is a post for every line, for a file to be reopened and for the end. -/
structure Posted (s : State) : Prop where
  lines : s.logger.lines.length ≤ s.linesPending + s.posting + s.pc.served
  reload : s.reload = true → s.pc ≠ .woken → 0 < s.linesPending + s.posting
  quit : s.running = false → s.pc = .wait → 0 < s.linesPending + s.posting
  grace : s.running = true → s.graceCounter = 0

/-- Whoever changes a flag posts afterwards. -/
theorem Posted.posting (hs : Posted s) (hlines : t.logger.lines = s.logger.lines) (hpc : t.pc = s.pc)
    (hposting : t.linesPending + t.posting = s.linesPending + s.posting + 1)
    (hgrace : t.running = true → t.graceCounter = 0) : Posted t := by
  have hle := hs.lines
  refine ⟨?_, fun _ _ => by omega, fun _ _ => by omega, hgrace⟩
  rw [hlines, hpc]
  omega

theorem posted_step (hs : Posted s) (h : Step s e t) : Posted t := by
  have ⟨hlines, hreload, hquit, hgrace⟩ := hs
  cases moves_of_step h with
  | push line =>
    refine ⟨?_, fun _ _ => ?_, fun _ _ => ?_, hgrace⟩
    · simp only [State.push, List.length_append, List.length_singleton]
      omega
    · simp [State.push]
    · simp [State.push]
  | post hwaits =>
    have hsum : s.linesPending + 1 + (s.posting - 1) = s.linesPending + s.posting := by omega
    refine ⟨?_, fun hr hpc => ?_, fun hq hpc => ?_, hgrace⟩
    · show s.logger.lines.length ≤ s.linesPending + 1 + (s.posting - 1) + s.pc.served
      omega
    · exact hsum ▸ hreload hr hpc
    · exact hsum ▸ hquit hq hpc
  | queueReOpen => exact hs.posting rfl rfl rfl hgrace
  | quit => exact hs.posting rfl rfl rfl nofun
  | goOn hpc hrunning =>
    rw [hpc] at hlines hreload
    refine ⟨hlines, fun hr _ => hreload hr nofun, fun hq => ?_, hgrace⟩
    rw [hrunning] at hq
    cases hq
  | drained hpc _ hempty =>
    rw [hpc] at hlines hreload
    exact ⟨hlines, fun hr _ => hreload hr nofun, nofun, hgrace⟩
  | grace hpc hrunning hne _ =>
    have hpos := List.length_pos_of_ne_nil hne
    rw [hpc] at hlines hreload
    simp only [Pc.served] at hlines
    refine ⟨hlines, fun hr _ => hreload hr nofun, fun _ _ => ?_, fun hr => ?_⟩
    · show 0 < s.linesPending + s.posting
      omega
    · rw [hrunning] at hr
      cases hr
  | gaveUp hpc hrunning =>
    rw [hpc] at hlines hreload
    refine ⟨hlines, fun hr _ => hreload hr nofun, nofun, fun hr => ?_⟩
    rw [hrunning] at hr
    cases hr
  | semWait hpc hposted =>
    rw [hpc] at hlines
    simp only [Pc.served] at hlines
    refine ⟨?_, fun _ hne => absurd rfl hne, nofun, hgrace⟩
    show s.logger.lines.length ≤ s.linesPending - 1 + s.posting + 1
    omega
  | keep hpc hr =>
    rw [hpc] at hlines
    refine ⟨hlines, fun hr' => ?_, nofun, hgrace⟩
    rw [hr] at hr'
    cases hr'
  | @reOpen r hpc _ =>
    rw [hpc] at hlines
    simp only [Pc.served] at hlines
    rcases r with _ | _ | _ | line
    case failed.some =>
      refine ⟨?_, nofun, nofun, hgrace⟩
      simp only [State.onReOpen, State.push, List.length_append, List.length_singleton, Pc.served]
      omega
    all_goals exact ⟨hlines, nofun, nofun, hgrace⟩
  | empty hpc hempty =>
    rw [hpc] at hreload
    refine ⟨?_, fun hr _ => hreload hr nofun, nofun, hgrace⟩
    simp [hempty]
  | @took _ rest hpc hcons =>
    rw [hpc] at hlines hreload
    rw [hcons, List.length_cons] at hlines
    simp only [Pc.served] at hlines
    refine ⟨?_, fun hr _ => hreload hr nofun, nofun, hgrace⟩
    show rest.length ≤ s.linesPending + s.posting
    omega
  | write hpc =>
    rw [hpc] at hlines hreload
    refine ⟨?_, fun hr _ => hreload hr nofun, nofun, hgrace⟩
    rw [onWrite_lines]
    exact hlines
  | wrote hpc =>
    rw [hpc] at hlines hreload
    exact ⟨hlines, fun hr _ => hreload hr nofun, nofun, hgrace⟩

theorem posted_run (h : Transition.Run Step {} tr s) : Posted s :=
  h.invariant_state ⟨Nat.zero_le _, nofun, nofun, fun _ => rfl⟩ fun _ _ _ => posted_step

/-- The writer sleeps only when there is nothing to do: no line waits, no file is to be reopened, and
nobody waits for the writer to end. -/
theorem nothing_to_do_of_asleep (h : Transition.Run Step {} tr s) (hpc : s.pc = .wait)
    (hsem : s.linesPending = 0) (hposting : s.posting = 0) :
    s.logger.lines = [] ∧ s.reload = false ∧ s.running = true := by
  obtain ⟨hlines, hreload, hquit, -⟩ := posted_run h
  rw [hpc] at hlines hreload
  rw [hsem, hposting] at hlines hreload hquit
  refine ⟨List.eq_nil_of_length_eq_zero (by simpa [Pc.served] using hlines), ?_, ?_⟩
  · by_contra hr
    exact Nat.lt_irrefl _ (hreload (by simpa using hr) nofun)
  · by_contra hr
    exact Nat.lt_irrefl _ (hquit (by simpa using hr) hpc)

/-! ## The end -/

/-- Nobody logs any more. -/
def Quiet (e : Event) : Prop := e.pushed = none

/-- The writer is past a test that it passes once more than it counts. -/
def Pc.early (pc : Pc) : Nat :=
  match pc with
  | .wait => 1
  | .woken => 1
  | .take => 1
  | _ => 0

/-- How many lines the writer may still take after `quit`. -/
def State.left (s : State) : Nat :=
  if s.pc = .done then 0 else min s.logger.lines.length (1000 - s.graceCounter + s.pc.early)

theorem left_step (h : Step s e t) (he : Quiet e) (hquit : s.running = false) :
    t.running = false ∧ t.taken.length + t.left = s.taken.length + s.left := by
  cases moves_of_step h with
  | push line => cases he
  | quit hrunning =>
    rw [hquit] at hrunning
    cases hrunning
  | goOn _ hrunning =>
    rw [hquit] at hrunning
    cases hrunning
  | drained hpc _ hempty => exact ⟨hquit, by simp [State.left, hpc, hempty]⟩
  | grace hpc _ hne hleft =>
    refine ⟨hquit, ?_⟩
    simp only [State.left, hpc, Pc.early, reduceCtorEq, if_false]
    omega
  | gaveUp hpc _ _ hover =>
    refine ⟨hquit, ?_⟩
    simp only [State.left, hpc, Pc.early, reduceCtorEq, if_false, if_true]
    omega
  | semWait hpc | keep hpc => exact ⟨hquit, by simp [State.left, hpc, Pc.early]⟩
  | @reOpen r hpc =>
    rcases r with _ | _ | _ | line
    case failed.some => cases he
    all_goals exact ⟨hquit, by simp [State.left, State.onReOpen, hpc, Pc.early]⟩
  | empty hpc hempty => exact ⟨hquit, by simp [State.left, hpc, hempty]⟩
  | took hpc hcons =>
    refine ⟨hquit, ?_⟩
    simp only [State.left, hpc, hcons, Pc.early, reduceCtorEq, if_false, List.length_append,
      List.length_cons, List.length_nil]
    omega
  | write hpc =>
    refine ⟨hquit, ?_⟩
    simp only [State.left, onWrite_lines, hpc]
    rfl
  | wrote hpc => exact ⟨hquit, by simp [State.left, hpc, Pc.early]⟩
  | _ => exact ⟨hquit, rfl⟩

theorem left_run (h : Transition.Run Step s tr t) (hquiet : ∀ e ∈ tr, Quiet e) (hquit : s.running = false) :
    t.taken ++ t.logger.lines = s.taken ++ s.logger.lines ∧
      t.taken.length + t.left = s.taken.length + s.left := by
  have hinv := (h.restrict hquiet).invariant_state (I := fun u => u.running = false ∧
    u.taken ++ u.logger.lines = s.taken ++ s.logger.lines ∧
      u.taken.length + u.left = s.taken.length + s.left) ⟨hquit, rfl, rfl⟩ ?_
  · exact hinv.2
  · rintro u e v ⟨hquit, htaken, hleft⟩ ⟨he, hv⟩
    obtain ⟨hquit', hleft'⟩ := left_step hv he hquit
    refine ⟨hquit', ?_, hleft'.trans hleft⟩
    rw [taken_step hv, he, htaken]
    simp

theorem quit_of_done (h : Transition.Run Step {} tr s) : s.pc = .done → s.running = false := by
  refine h.invariant_state (I := fun s => s.pc = .done → s.running = false) nofun fun t e u ht hu => ?_
  cases moves_of_step hu with
  | quit => exact fun _ => rfl
  | drained _ hrunning | gaveUp _ hrunning => exact fun _ => hrunning
  | @reOpen r =>
    rcases r with _ | _ | _ | line <;> nofun
  | push | post | queueReOpen => exact ht
  | _ => nofun

/-- What has been taken of a list tells what is left of it. -/
theorem take_drop_of_append {α : Type} {xs ys zs ws : List α} {k : Nat} (h : xs ++ ys = zs ++ ws)
    (hlen : xs.length = zs.length + min ws.length k) : xs = zs ++ ws.take k ∧ ys = ws.drop k := by
  have hsplit : xs ++ ys = (zs ++ ws.take k) ++ ws.drop k := by
    rw [h, List.append_assoc, List.take_append_drop]
  apply List.append_inj hsplit
  rw [List.length_append, List.length_take, hlen, Nat.min_comm]

/-- `quit()` waits for the lines that are queued, but for no more than 1000, or 1001 if the writer has
just looked at `running`. What is left then is never written. -/
theorem quit_loses_rest (h : Transition.Run Step {} tr s) {tr' : List Event}
    (h' : Transition.Run Step s (.quit :: tr') t) (hquiet : ∀ e ∈ tr', Quiet e) (hdone : t.pc = .done) :
    t.taken = s.taken ++ s.logger.lines.take (1000 + s.pc.early) ∧
      t.logger.lines = s.logger.lines.drop (1000 + s.pc.early) := by
  obtain ⟨u, hu, hrun⟩ := h'.of_cons
  cases moves_of_step hu with
  | quit hrunning =>
    have hgrace := (posted_run h).grace hrunning
    have hne : s.pc ≠ .done := by
      intro hpc
      rw [quit_of_done h hpc] at hrunning
      cases hrunning
    obtain ⟨htaken, hleft⟩ := left_run hrun hquiet rfl
    apply take_drop_of_append htaken
    simp only [State.left, hdone, hne, if_true, if_false, hgrace] at hleft
    exact hleft

/-! ## `quit()` returns -/

/-- The steps that are left for a line. -/
def lineSteps (line : LogLine) : Nat := (getlines [] line.line).length + 5

/-- The steps that are left in a round, more when it will end with a line. -/
def Pc.steps (pc : Pc) (more : Bool) : Nat :=
  match pc with
  | .test => if more then 5 else 1
  | .wait => 4
  | .woken => 3
  | .take => 2
  | .writing _ rest => rest.length + 6
  | .done => 0

/-- The steps that are left for the writer after `quit`, and the posts that are to come. -/
def State.potential (s : State) : Nat :=
  (s.logger.lines.map lineSteps).sum + s.pc.steps (!s.logger.lines.isEmpty) + s.posting

/-- What the writer does, and the posts. -/
def Event.own (e : Event) : Bool :=
  match e with
  | .post => true
  | .go => true
  | .semWait => true
  | .reOpen _ => true
  | .write _ => true
  | _ => false

theorem potential_step (h : Step s e t) (he : Quiet e) (hown : e.own = true) (hquit : s.running = false) :
    t.potential < s.potential := by
  unfold State.potential
  cases moves_of_step h with
  | push | queueReOpen | quit => cases hown
  | goOn _ hrunning =>
    rw [hquit] at hrunning
    cases hrunning
  | post hwaits =>
    dsimp only
    omega
  | drained hpc _ hempty => simp [hpc, hempty, Pc.steps]
  | grace hpc _ hne | gaveUp hpc _ hne =>
    have hmore : s.logger.lines.isEmpty = false := by simpa using hne
    simp [hpc, hmore, Pc.steps]
  | semWait hpc | keep hpc => simp [hpc, Pc.steps]
  | @reOpen r hpc =>
    rcases r with _ | _ | _ | line
    case failed.some => cases he
    all_goals simp [State.onReOpen, hpc, Pc.steps]
  | empty hpc hempty => simp [hpc, hempty, Pc.steps]
  | took hpc hcons =>
    simp only [hpc, hcons, Pc.steps, lineSteps, List.map_cons, List.sum_cons]
    omega
  | write hpc =>
    rw [onWrite_lines]
    simp [State.onWrite, hpc, Pc.steps]
  | wrote hpc =>
    simp only [hpc, Pc.steps, List.length_nil]
    split <;> omega

/-- Until it is done, the writer can go on, if need be after a post that is on its way. -/
theorem goes_on (hs : Posted s) (hquit : s.running = false) (hpc : s.pc ≠ .done) :
    ∃ e t, Quiet e ∧ e.own = true ∧ Step s e t := by
  rcases hcase : s.pc with _ | _ | _ | _ | ⟨line, _ | ⟨realLine, rest⟩⟩ | _
  case wait =>
    have hposted := hs.quit hquit hcase
    by_cases hsem : 0 < s.linesPending
    · exact ⟨.semWait, _, rfl, rfl, by simp [Step, State.step, hcase, hsem]; rfl⟩
    · exact ⟨.post, _, rfl, rfl, by simp [Step, State.step, show 0 < s.posting by omega]; rfl⟩
  case woken =>
    by_cases hreload : s.reload = true
    · exact ⟨.reOpen .noPath, _, rfl, rfl, by simp [Step, State.step, hcase, hreload]; rfl⟩
    · exact ⟨.go, _, rfl, rfl, by simp [Step, State.step, hcase, hreload]; rfl⟩
  case writing.cons => exact ⟨.write true, _, rfl, rfl, by simp [Step, State.step, hcase]; rfl⟩
  case done => exact absurd hcase hpc
  all_goals exact ⟨.go, _, rfl, rfl, by simp [Step, State.step, hcase]; rfl⟩

theorem running_step (h : Step s e t) (hquit : s.running = false) : t.running = false := by
  cases moves_of_step h with
  | @reOpen r => rcases r with _ | _ | _ | line <;> exact hquit
  | quit => rfl
  | _ => exact hquit

/-- A step after `quit` by which nothing is logged. -/
def EndingStep (s : State) (e : Event) (t : State) : Prop := s.running = false ∧ Quiet e ∧ Step s e t

theorem ending_run (h : Transition.Run Step s tr t) (hquit : s.running = false)
    (hquiet : ∀ e ∈ tr, Quiet e) : t.running = false ∧ Transition.Run EndingStep s tr t :=
  (h.restrict hquiet).invariant (I := fun tr u => u.running = false ∧ Transition.Run EndingStep s tr u)
    ⟨hquit, .nil⟩ fun _ _ _ _ hu hv => ⟨running_step hv.2 hu.1, hu.2.snoc ⟨hu.1, hv⟩⟩

def hello : LogLine := ⟨ascii "hello", true⟩

/-- The writer goes to sleep, and a thread logs. -/
def logs : List Event := [.go, .push hello, .post]

def prints : List Event := [.semWait, .go, .go, .write true, .go]

def after (tr : List Event) : State := (tr.foldlM State.step {}).getD {}

theorem run_prints : Transition.Run Step {} (logs ++ prints ++ [.go]) (after (logs ++ prints ++ [.go])) :=
  Transition.Run.of_foldlM rfl

theorem stdout_hello : (after (logs ++ prints ++ [.go])).toStdout = ascii "hello\n" := by
  have hfile : ∀ e ∈ logs ++ prints ++ [.go], NoFile e := by simp [logs, prints, NoFile]
  obtain ⟨waiting, -, hout⟩ := stdout_run run_prints hfile (by decide)
  have hdone : (after (logs ++ prints ++ [.go])).pc.unprinted = [] := by rfl
  rw [hdone, List.append_nil] at hout
  exact hout.trans (by decide)

theorem asleep_after_hello : (after (logs ++ prints ++ [.go])).logger.lines = [] :=
  (nothing_to_do_of_asleep run_prints rfl rfl rfl).1

theorem run_logs : Transition.Run Step {} logs (after logs) := Transition.Run.of_foldlM rfl

theorem quit_prints_hello :
    (after (logs ++ .quit :: prints ++ [.go])).taken = [hello] := by
  have hrun : Transition.Run Step (after logs) (.quit :: prints ++ [.go])
      (after (logs ++ .quit :: prints ++ [.go])) := Transition.Run.of_foldlM rfl
  exact (quit_loses_rest run_logs hrun (by simp [prints, Quiet, Event.pushed]) rfl).1

end PgCmdQueue.LogWriter
