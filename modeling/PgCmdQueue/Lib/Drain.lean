import PgCmdQueue.Lib.Run

/-!
# Reading a pipe to its end

A loop polls the read end, reads after data was reported until nothing is left, and drops
the descriptor after a hangup was reported. The other end is written and closed at any time.
-/

namespace Drain

/-- How far the loop is with what the last `poll` reported. -/
inductive Phase where
  | idle
  | polled (data hangup : Bool)
  | reading (hangup : Bool)
  | drained (hangup : Bool)

/-- `written` and `captured` are what went in and what came out. -/
structure State (α : Type*) where
  written : List α
  buf : List α
  captured : List α
  writer : Bool
  watched : Bool
  phase : Phase

inductive Act (α : Type*) where
  | write (bs : List α)
  | close
  | poll (data hangup : Bool)
  | start
  | skip
  | read (n : Nat)
  | stop
  | finish

/-- `poll` reports data that is there, and no hangup while there is a writer. Reading stops
only when nothing is left. -/
inductive Step {α : Type*} (s : State α) : Act α → State α → Prop
  | write (bs : List α) : s.writer = true →
      Step s (.write bs) { s with written := s.written ++ bs, buf := s.buf ++ bs }
  | close : Step s .close { s with writer := false }
  | poll {data hangup : Bool} : s.phase = .idle → (hangup = true → s.writer = false) →
      (s.watched = true → s.buf ≠ [] → data = true) →
      Step s (.poll data hangup) { s with phase := .polled data hangup }
  | start {hangup : Bool} : s.phase = .polled true hangup →
      Step s .start { s with phase := .reading hangup }
  | skip {hangup : Bool} : s.phase = .polled false hangup →
      Step s .skip { s with phase := .drained hangup }
  | read {hangup : Bool} (n : Nat) : s.phase = .reading hangup →
      Step s (.read n) { s with captured := s.captured ++ s.buf.take n, buf := s.buf.drop n }
  | stop {hangup : Bool} : s.phase = .reading hangup → s.buf = [] →
      Step s .stop { s with phase := .drained hangup }
  | finish {hangup : Bool} : s.phase = .drained hangup →
      Step s .finish { s with watched := s.watched && !hangup, phase := .idle }

variable {α : Type*} {s t : State α} {a : Act α} {tr : List (Act α)}

/-! ## The invariant -/

/-- After a hangup nothing is added, and what is left was reported with it. -/
def Phase.Sound (buf : List α) (writer : Bool) : Phase → Prop
  | .idle => True
  | .polled data hangup => hangup = true → writer = false ∧ (buf ≠ [] → data = true)
  | .reading hangup => hangup = true → writer = false
  | .drained hangup => hangup = true → writer = false ∧ buf = []

structure Inv (s : State α) : Prop where
  split : s.written = s.captured ++ s.buf
  dropped : s.watched = false → s.writer = false ∧ s.buf = []
  sound : s.phase.Sound s.buf s.writer

theorem Phase.Sound.write {p : Phase} {buf : List α} (h : p.Sound buf true) (bs : List α) :
    p.Sound (buf ++ bs) true := by
  cases p with
  | idle => trivial
  | polled data hangup => exact fun hh => absurd (h hh).1 Bool.noConfusion
  | reading hangup => exact fun hh => absurd (h hh) Bool.noConfusion
  | drained hangup => exact fun hh => absurd (h hh).1 Bool.noConfusion

theorem Phase.Sound.close {p : Phase} {buf : List α} {writer : Bool} (h : p.Sound buf writer) :
    p.Sound buf false := by
  cases p with
  | idle => trivial
  | polled data hangup => exact fun hh => ⟨rfl, (h hh).2⟩
  | reading hangup => exact fun _ => rfl
  | drained hangup => exact fun hh => ⟨rfl, (h hh).2⟩

theorem inv_step (hs : Inv s) (ht : Step s a t) : Inv t := by
  obtain ⟨hsplit, hdropped, hsound⟩ := hs
  cases ht with
  | write bs hw =>
    rw [hw] at hdropped hsound
    refine ⟨?_, fun h => absurd (hdropped h).1 Bool.noConfusion, ?_⟩
    · rw [hsplit, List.append_assoc]
    · rw [hw]
      exact hsound.write bs
  | close => exact ⟨hsplit, fun h => ⟨rfl, (hdropped h).2⟩, hsound.close⟩
  | poll _ hhangup hdata =>
    refine ⟨hsplit, hdropped, fun hh => ⟨hhangup hh, fun hbuf => ?_⟩⟩
    by_cases hwatched : s.watched = true
    · exact hdata hwatched hbuf
    · exact absurd (hdropped (Bool.eq_false_iff.mpr hwatched)).2 hbuf
  | start hp =>
    rw [hp] at hsound
    exact ⟨hsplit, hdropped, fun hh => (hsound hh).1⟩
  | skip hp =>
    rw [hp] at hsound
    refine ⟨hsplit, hdropped, fun hh => ⟨(hsound hh).1, ?_⟩⟩
    by_contra hbuf
    cases (hsound hh).2 hbuf
  | read n hp =>
    rw [hp] at hsound
    refine ⟨?_, fun h => ⟨(hdropped h).1, ?_⟩, ?_⟩
    · rw [List.append_assoc, List.take_append_drop, hsplit]
    · rw [(hdropped h).2, List.drop_nil]
    · rw [hp]
      exact hsound
  | stop hp hbuf =>
    rw [hp] at hsound
    exact ⟨hsplit, hdropped, fun hh => ⟨hsound hh, hbuf⟩⟩
  | @finish hangup hp =>
    rw [hp] at hsound
    refine ⟨hsplit, fun h => ?_, trivial⟩
    cases hangup with
    | true => exact hsound rfl
    | false => exact hdropped (by simpa using h)

theorem inv_run (h : Transition.Run Step s tr t) (hs : Inv s) : Inv t :=
  h.invariant_state hs fun _ _ _ => inv_step

/-- Once the writer is gone and `poll` reports no hangup, all was read. -/
theorem Inv.captured_eq (hs : Inv s) (hwriter : s.writer = false)
    (hquiet : s.watched = true → s.writer = true) : s.captured = s.written := by
  by_cases hwatched : s.watched = true
  · rw [hquiet hwatched] at hwriter
    cases hwriter
  · rw [hs.split, (hs.dropped (Bool.eq_false_iff.mpr hwatched)).2, List.append_nil]

end Drain
