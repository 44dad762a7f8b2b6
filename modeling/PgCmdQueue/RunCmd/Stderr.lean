import PgCmdQueue.Lib.Lines
import PgCmdQueue.Logger
import PgCmdQueue.RunCmd.Capture

/-!
# The lines of stderr in the log

While the command runs, every read from its stderr is followed by `flush_stderr`. Between two
calls only the position is kept.
-/

namespace PgCmdQueue.RunCmd

open Cpp Lines

/-- `logged` has the messages that were handed to the logger. -/
structure Stderr where
  cmdStderr : Bytes := []
  flushStderrPos : Nat := 0
  logged : List (LogLevel × Bytes) := []

def isLineEnd (c : Byte) : Bool := c == ch '\n' || c == ch '\r'

def Stderr.log (s : Stderr) (level : LogLevel) (line : Bytes) : Stderr :=
  { s with logged := s.logged ++ [(level, cStr line)] }

/-- The loop over the characters, and the line that it leaves. The position is an `int`. -/
def Stderr.flushLoop (level : LogLevel) (s : Stderr) (line : Bytes) : Bytes → Option (Stderr × Bytes)
  | [] => some (s, line)
  | c :: v =>
    let (s, line) :=
      if isLineEnd c then (if line = [] then s else s.log level line, []) else (s, line ++ [c])
    if s.flushStderrPos < Logger.intMax then
      flushLoop level { s with flushStderrPos := s.flushStderrPos + 1 } line v
    else none

def Stderr.flushStderr (s : Stderr) (level : LogLevel) (flushOnEnd : Bool) : Option Stderr :=
  if s.cmdStderr.length < s.flushStderrPos then none
  else do
    let (s, line) ← s.flushLoop level [] (s.cmdStderr.drop s.flushStderrPos)
    return if flushOnEnd ∧ line ≠ [] then s.log level line else s

/-- What is read from the pipe before a call, and the call. -/
def Stderr.readChunk (s : Stderr) (chunk : Bytes) : Option Stderr :=
  { s with cmdStderr := s.cmdStderr ++ chunk }.flushStderr .notice false

def flushes (chunks : List Bytes) : Option Stderr := chunks.foldlM Stderr.readChunk {}

/-- Every line that is ended in the whole of stderr is logged, whole and once. -/
def LogsLines (chunks : List Bytes) : Prop :=
  ∃ s, flushes chunks = some s ∧
    s.logged = (closed isLineEnd [] chunks.flatten).map (LogLevel.notice, ·)

variable {chunks : List Bytes} {chunk line v : Bytes} {level : LogLevel} {s : Stderr}

/-! ## What a call logs -/

theorem flushLoop_eq (hpos : s.flushStderrPos ≤ Logger.intMax) :
    s.flushLoop level line v =
      if s.flushStderrPos + v.length ≤ Logger.intMax then
        some ({ s with
          flushStderrPos := s.flushStderrPos + v.length
          logged := s.logged ++ (closed isLineEnd line v).map fun l => (level, cStr l) },
          left isLineEnd line v)
      else none := by
  induction v generalizing s line with
  | nil => simp [Stderr.flushLoop, hpos]
  | cons c v ih =>
    unfold Stderr.flushLoop
    by_cases hlt : s.flushStderrPos < Logger.intMax
    · cases hc : isLineEnd c
      · simp only [hlt, Bool.false_eq_true, if_false, if_true]
        rw [ih (by exact hlt)]
        simp [closed_cons, left_cons, hc, Nat.add_assoc, Nat.add_comm 1]
      · by_cases hline : line = []
        · simp only [hline, hlt, if_true]
          rw [ih (by exact hlt)]
          simp [closed_cons, left_cons, hc, Nat.add_assoc, Nat.add_comm 1]
        · simp only [hline, hlt, if_true, if_false, Stderr.log]
          rw [ih (by exact hlt)]
          simp [closed_cons, left_cons, hc, hline, Nat.add_assoc, Nat.add_comm 1]
    · have hover : ¬s.flushStderrPos + (c :: v).length ≤ Logger.intMax := by
        rw [List.length_cons]
        omega
      rw [if_neg hover]
      cases hc : isLineEnd c
      · simp [hlt]
      · by_cases hline : line = [] <;> simp [hlt, hline, Stderr.log]

/-- A call logs the lines that end in the new chunk, as if there were nothing before it. -/
theorem readChunk_eq (hpos : s.flushStderrPos = s.cmdStderr.length)
    (hlen : s.cmdStderr.length ≤ Logger.intMax) :
    s.readChunk chunk =
      if s.cmdStderr.length + chunk.length ≤ Logger.intMax then
        some ⟨s.cmdStderr ++ chunk, s.cmdStderr.length + chunk.length,
          s.logged ++ (closed isLineEnd [] chunk).map fun l => (.notice, cStr l)⟩
      else none := by
  unfold Stderr.readChunk Stderr.flushStderr
  rw [if_neg (by simp [hpos])]
  simp only [hpos, List.drop_left]
  rw [flushLoop_eq (by exact hpos ▸ hlen)]
  split <;> rfl

theorem flushes_from (hpos : s.flushStderrPos = s.cmdStderr.length)
    (hlen : s.cmdStderr.length ≤ Logger.intMax) :
    chunks.foldlM Stderr.readChunk s =
      if s.cmdStderr.length + chunks.flatten.length ≤ Logger.intMax then
        some ⟨s.cmdStderr ++ chunks.flatten, s.cmdStderr.length + chunks.flatten.length,
          s.logged ++ (chunks.flatMap (closed isLineEnd [])).map fun l => (.notice, cStr l)⟩
      else none := by
  induction chunks generalizing s with
  | nil =>
    obtain ⟨cmdStderr, pos, logged⟩ := s
    obtain rfl : pos = cmdStderr.length := hpos
    simp [show cmdStderr.length ≤ Logger.intMax from hlen]
  | cons chunk chunks ih =>
    rw [List.foldlM_cons, readChunk_eq hpos hlen, List.flatten_cons, List.length_append]
    split
    · rename_i hle
      simp only [Option.bind_eq_bind, Option.bind_some]
      rw [ih (by simp) (by simpa using hle)]
      simp [Nat.add_assoc]
    · rw [if_neg (by omega)]
      rfl

theorem flushes_eq (chunks : List Bytes) :
    flushes chunks =
      if chunks.flatten.length ≤ Logger.intMax then
        some ⟨chunks.flatten, chunks.flatten.length,
          (chunks.flatMap (closed isLineEnd [])).map fun l => (.notice, cStr l)⟩
      else none := by
  have : chunks.foldlM Stderr.readChunk {} = _ := flushes_from rfl (by decide)
  simpa [flushes] using this

theorem size_map_cStr (lines : List Bytes) : size (lines.map cStr) ≤ size lines := by
  induction lines with
  | nil => exact le_rfl
  | cons line lines ih =>
    have := cStr_length_le line
    simp only [size, List.map_cons, List.flatten_cons, List.length_append] at ih ⊢
    omega

theorem whole_of_logsLines (h : LogsLines chunks) : Whole isLineEnd chunks := by
  obtain ⟨s, hs, hlogged⟩ := h
  rw [flushes_eq] at hs
  split at hs <;> cases hs
  have hlines := congrArg (List.map Prod.snd) hlogged
  simp only [List.map_map, Function.comp_def, List.map_id'] at hlines
  -- Neither the cuts nor the NULs can add anything.
  apply size_chunks.2
  have hle : size (chunks.flatMap (closed isLineEnd [])) ≤ size (closed isLineEnd [] chunks.flatten) :=
    size_chunks.1
  have hcStr := size_map_cStr (chunks.flatMap (closed isLineEnd []))
  rw [hlines] at hcStr
  omega

/-- The unfinished line is a local variable, and the position is behind it when the call
returns. -/
theorem logsLines_iff (chunks : List Bytes) : LogsLines chunks ↔
    (chunks.Pairwise fun c d => (∀ x ∈ c.getLast?, isLineEnd x = true) ∨ ∀ x ∈ d, isLineEnd x = false) ∧
      (∀ line ∈ closed isLineEnd [] chunks.flatten, NulFree line) ∧
      chunks.flatten.length ≤ 2147483647 := by
  constructor
  · intro h
    have hwhole := whole_of_logsLines h
    obtain ⟨s, hs, hlogged⟩ := h
    rw [flushes_eq] at hs
    split at hs <;> cases hs
    refine ⟨hwhole, fun line hline => ?_, ‹_›⟩
    rw [closed_of_whole hwhole, List.map_inj_left] at hlogged
    have := (Prod.mk.inj (hlogged line hline)).2
    exact this ▸ nulFree_cStr line
  · rintro ⟨hwhole, hnul, hlen⟩
    refine ⟨_, (flushes_eq chunks).trans (if_pos hlen), ?_⟩
    rw [closed_of_whole hwhole]
    exact List.map_congr_left fun line hline => by rw [cStr_of_nulFree (hnul line hline)]

/-- A line that is read in two parts loses the first one. -/
theorem not_logsLines_cut : ¬LogsLines [ascii "copied 10", ascii "0 files\n"] := by
  intro h
  have := whole_of_logsLines h
  revert this
  unfold Whole
  decide

/-! ## The calls of a run -/

structure Logged where
  run : State
  stderr : Stderr := {}

/-- The call stands behind the loop that reads from the pipe. -/
def Logged.next (c : Call) (s : Logged) (e : Event) : Option Logged := do
  let t ← s.run.step c e
  let stderr := { s.stderr with cmdStderr := t.cmdStderr }
  if s.run.pc = .readStderr ∧ t.pc = .hangups then
    return ⟨t, ← stderr.flushStderr .notice false⟩
  else return ⟨t, stderr⟩

def LoggedStep (c : Call) (s : Logged) (e : Event) (t : Logged) : Prop := s.next c e = some t

/-- The calls so far have flushed these chunks, and what was read since the last one is
pending. -/
structure Flushed (s : Logged) (chunks : List Bytes) : Prop where
  flushed : ∃ f, flushes chunks = some f ∧ s.stderr.flushStderrPos = f.flushStderrPos ∧
    s.stderr.logged = f.logged
  pending : s.run.pc.inLoop = true → ∃ pending, s.run.cmdStderr = chunks.flatten ++ pending ∧
    (s.run.pc ≠ .readStderr → pending = [])

variable {c : Call} {r t : State} {e : Event} {x y : Logged} {tr : List Event}

/-- Within the loop only the reads from stderr add to what is captured of it. -/
theorem reads_loop (h : r.LoopMoves c e t) (hlive : t.pc.inLoop = true) (hr : r.pc.inLoop = true) :
    (r.pc = .readStderr ∧ ∃ bs, t.cmdStderr = r.cmdStderr ++ bs ∧
      (t.pc = .readStderr ∨ t.pc = .hangups ∧ bs = [])) ∨
    (r.pc ≠ .readStderr ∧ t.cmdStderr = r.cmdStderr) := by
  cases h with
  | readStderr hpc =>
    refine .inl ⟨hpc, ?_⟩
    unfold State.onReadStderr at hlive ⊢
    split at hlive
    · exact ⟨[], by simp, .inr ⟨rfl, rfl⟩⟩
    · cases hlive
    · exact ⟨[], by simp, .inr ⟨rfl, rfl⟩⟩
    · exact ⟨_, rfl, .inl hpc⟩
  | running hpc | died hpc | top hpc | stdinReady hpc | stdoutReady hpc | stderrReady hpc
  | hangups hpc => exact .inr ⟨by simp [hpc], rfl⟩
  | failed hpc => cases hlive
  | @sigkilled res hpc => cases res <;> cases hlive
  | poll hpc =>
    refine .inr ⟨by simp [hpc], ?_⟩
    unfold State.onPoll at hlive ⊢
    split at hlive <;> first | rfl | cases hlive
  | timedOut hpc =>
    refine .inr ⟨by simp [hpc], ?_⟩
    unfold State.onTimedOut
    dsimp only
    repeat' split
    all_goals rfl
  | writeLoop hpc =>
    refine .inr ⟨by simp [hpc], ?_⟩
    unfold State.onWriteLoop
    split
    · rfl
    · split <;> rfl
  | write hpc =>
    refine .inr ⟨by simp [hpc], ?_⟩
    unfold State.onWrite at hlive ⊢
    split at hlive <;> first | rfl | cases hlive
  | readStdout hpc =>
    refine .inr ⟨by simp [hpc], ?_⟩
    unfold State.onReadStdout at hlive ⊢
    split at hlive <;> first | rfl | cases hlive
  | left hpc | waitpidAfter hpc | outcome hpc =>
    rw [hpc] at hr
    cases hr

theorem reads_step (h : Step c r e t) (hlive : t.pc.inLoop = true) : r.pc.inLoop = true ∧
    ((r.pc = .readStderr ∧ ∃ bs, t.cmdStderr = r.cmdStderr ++ bs ∧
      (t.pc = .readStderr ∨ t.pc = .hangups ∧ bs = [])) ∨
    (r.pc ≠ .readStderr ∧ t.cmdStderr = r.cmdStderr)) := by
  have hr := (drains_step h hlive).1
  refine ⟨hr, ?_⟩
  cases stepMoves h with
  | loop hmoves => exact reads_loop hmoves hlive hr
  | tick =>
    by_cases hpc : r.pc = .readStderr
    · exact .inl ⟨hpc, [], by simp, .inl hpc⟩
    · exact .inr ⟨hpc, rfl⟩
  | child hmoves =>
    have hsame : t.cmdStderr = r.cmdStderr ∧ t.pc = r.pc := by cases hmoves <;> exact ⟨rfl, rfl⟩
    by_cases hpc : r.pc = .readStderr
    · exact .inl ⟨hpc, [], by simp [hsame.1], .inl (hsame.2.trans hpc)⟩
    · exact .inr ⟨hpc, hsame.1⟩

/-- A call flushes what is pending as one more chunk. -/
theorem flushed_call {chunks : List Bytes} {pending : Bytes} {s' : Stderr} (h : Flushed x chunks)
    (hcall : { x.stderr with cmdStderr := chunks.flatten ++ pending }.flushStderr .notice false =
      some s') : flushes (chunks ++ [pending]) = some s' := by
  obtain ⟨f, hf, hpos, hlogged⟩ := h.flushed
  have hall : f.cmdStderr = chunks.flatten := by
    rw [flushes_eq] at hf
    split at hf <;> cases hf
    rfl
  have hread : f.readChunk pending = some s' := by
    dsimp only at hcall
    rw [hpos, hlogged] at hcall
    unfold Stderr.readChunk
    rw [hall]
    exact hcall
  unfold flushes at hf ⊢
  rw [List.foldlM_append, hf]
  simpa using hread

theorem flushed_step {chunks : List Bytes} (h : LoggedStep c x e y) (hx : Flushed x chunks) :
    ∃ chunks, Flushed y chunks := by
  unfold LoggedStep Logged.next at h
  obtain ⟨t, ht, h⟩ := Option.bind_eq_some_iff.mp h
  have hmoves := reads_step ht
  dsimp only at h
  split at h
  · rename_i hcall
    obtain ⟨s', hs', h⟩ := Option.bind_eq_some_iff.mp h
    cases h
    have hlive : t.pc.inLoop = true := by rw [hcall.2]; rfl
    obtain ⟨hx', hreads⟩ := hmoves hlive
    obtain ⟨pending, hpending, -⟩ := hx.pending hx'
    have hsame : t.cmdStderr = x.run.cmdStderr := by
      rcases hreads with ⟨-, bs, hbs, hpc | ⟨-, rfl⟩⟩ | ⟨hne, -⟩
      · rw [hcall.2] at hpc
        cases hpc
      · rw [hbs, List.append_nil]
      · exact absurd hcall.1 hne
    rw [hsame, hpending] at hs'
    refine ⟨chunks ++ [pending], ⟨_, flushed_call hx hs', rfl, rfl⟩, fun _ => ⟨[], ?_, fun _ => rfl⟩⟩
    rw [hsame, hpending]
    simp
  · rename_i hcall
    cases h
    refine ⟨chunks, hx.flushed, fun hlive => ?_⟩
    obtain ⟨hx', hreads⟩ := hmoves hlive
    obtain ⟨pending, hpending, hnil⟩ := hx.pending hx'
    rcases hreads with ⟨hpc, bs, hbs, ht' | ht'⟩ | ⟨hne, hsame⟩
    · refine ⟨pending ++ bs, ?_, fun hne => absurd ht' hne⟩
      simp only [hbs, hpending, List.append_assoc]
    · exact absurd ⟨hpc, ht'.1⟩ hcall
    · refine ⟨pending, by simp only [hsame, hpending], fun _ => hnil hne⟩

/-- Whatever the command does, what is logged of a run is what the calls log of some chunks, and
between the reads these make up all that was captured. -/
theorem logged_run {clock : ℚ} (h : Transition.Run (LoggedStep c) ⟨init c clock, {}⟩ tr x) :
    ∃ chunks, Flushed x chunks := by
  induction h with
  | nil => exact ⟨[], ⟨_, rfl, rfl, rfl⟩, fun _ => ⟨[], rfl, fun _ => rfl⟩⟩
  | snoc _ hstep ih =>
    obtain ⟨chunks, hchunks⟩ := ih
    exact flushed_step hstep hchunks

end PgCmdQueue.RunCmd
