import PgCmdQueue.Runner.Stop
import Mathlib.Algebra.Order.BigOperators.Group.Finset

/-!
# Waiting for the runners

`join_all_threads()` waits for one runner after the other. Each of them was asked to stop, and comes to
its end if it is not disturbed for ever.
-/

namespace PgCmdQueue.Runner.Stop

variable {p : Pipe} {s t : State} {e : Event} {tr : List Event}

/-! ## A runner that was asked to stop -/

/-- The places on the way out. -/
def RunnerPc.leaving : RunnerPc → Bool
  | .notifyTest => true
  | .reselectTest => true
  | .reconnectTest => true
  | .loopsLeft => true
  | .returned => true
  | _ => false

structure State.Asked (s : State) : Prop where
  noticed : s.Noticed
  leaving : s.keepRunning = false → s.runner.leaving = true

theorem leaving_onReadError {r : ReadResult} {total : Nat} :
    (s.onReadError r total).runner.leaving = true := by
  unfold State.onReadError
  split
  · split <;> rfl
  · rfl

theorem leaving_runnerStep (hs : s.keepRunning = false → s.runner.leaving = true)
    (ht : s.runnerStep e = some t) (hkeep : t.keepRunning = false) : t.runner.leaving = true := by
  cases runnerMoves ht with
  | readError => exact leaving_onReadError
  | reconnectTest =>
    have hkeep : s.keepRunning = false := hkeep
    simp [hkeep, RunnerPc.leaving]
  | reselectTest =>
    have hkeep : s.keepRunning = false := hkeep
    simp [hkeep, RunnerPc.leaving]
  | notifyTest =>
    have hkeep : s.keepRunning = false := hkeep
    simp [hkeep, RunnerPc.leaving]
  | connectFailed | pollInterrupted | pollFailed | pollTimeout | connected | consumeFailed | loopsLeft => rfl
  | start hpc | iterated hpc | notifies hpc | pollReady hpc | consumed hpc | polled hpc | read hpc =>
    have := hs hkeep
    simp [hpc, RunnerPc.leaving] at this

theorem asked_runnerStep (hs : s.Asked) (ht : s.runnerStep e = some t) : t.Asked :=
  ⟨noticed_moves hs.noticed (runnerMoves ht), leaving_runnerStep hs.leaving ht⟩

/-- The main thread leaves the runner where it is. -/
theorem mainStep_frame (ht : s.mainStep p e = some t) :
    t.runner = s.runner ∧ t.keepRunning = s.keepRunning := by
  unfold State.mainStep at ht
  split at ht
  · cases ht
    exact ⟨rfl, rfl⟩
  · cases ht
    split <;> exact ⟨rfl, rfl⟩
  · split at ht
    · simp only [Option.some.injEq] at ht
      subst ht
      split <;> exact ⟨rfl, rfl⟩
    · cases ht
  · cases ht

/-- A call of `kill()` that came after the start has asked for it. -/
theorem asked_of_run (h : Transition.Run (AfterStartStep p) {} tr s) (hkilled : s.killed = true) :
    s.Asked := by
  have hs : s.Inv ∧ (s.keepRunning = false → s.runner.leaving = true) := by
    refine h.invariant_state (I := fun s => s.Inv ∧ (s.keepRunning = false → s.runner.leaving = true))
      ⟨⟨fun _ => .inl rfl, nofun, nofun, nofun, nofun, nofun⟩, nofun⟩ ?_
    rintro s e t ⟨hinv, hleaving⟩ hstep
    refine ⟨inv_step hinv hstep, ?_⟩
    obtain ⟨-, hstep⟩ := hstep
    unfold Step State.step at hstep
    rw [Option.or_eq_some_iff] at hstep
    rcases hstep with hmain | ⟨-, hrunner⟩
    · obtain ⟨hrunner, hkeep⟩ := mainStep_frame hmain
      rwa [hrunner, hkeep]
    · exact leaving_runnerStep hleaving hrunner
  exact ⟨hs.1.killed hkilled, hs.2⟩

/-! ## How far it is -/

/-- What takes a runner back: a notification, a signal, or a connection that is lost. -/
def Event.disturbs : Event → Bool
  | .notifies (some _) => true
  | .poll .interrupted => true
  | .iterated .connectionLost => true
  | .consumeInput false => true
  | .read .interrupted => true
  | _ => false

/-- The steps to the end, when nothing takes the runner back. -/
def State.stepsLeft (s : State) : Nat :=
  match s.runner with
  | .start => 16
  | .reconnectTest => if s.keepRunning then 14 else 2
  | .connecting => 13
  | .reselectTest => if s.keepRunning then if s.goBackToReconnectLoop then 15 else 12 else 3
  | .iteration => 11
  | .notifyTest => if s.keepRunning then 10 else 4
  | .notifies => 9
  | .poll => 8
  | .polled true true => 7
  | .polled false true => 6
  | .polled true false => 12
  | .polled false false => 11
  | .readKillPipe _ => 5
  | .loopsLeft => 1
  | .returned => 0

/-- The bytes in the pipe are read one number at a time. -/
def State.potential (s : State) : Nat := s.stepsLeft + s.killPipe

/-- In the loops there is a whole number to read. -/
theorem State.Asked.pipe (hs : s.Asked) (hleaving : s.runner.leaving = false) :
    match s.runner with
    | .readKillPipe total => sizeofInt ≤ total ∨ (total = 0 ∧ sizeofInt ≤ s.killPipe)
    | _ => sizeofInt ≤ s.killPipe := by
  rcases hs.noticed with h | h | h | h
  · simp [h, RunnerPc.leaving] at hleaving
  · simp [h, RunnerPc.leaving] at hleaving
  · simp [hs.leaving h] at hleaving
  · exact h

theorem State.Asked.keepRunning (hs : s.Asked) (hleaving : s.runner.leaving = false) :
    s.keepRunning = true := by
  by_contra hkeep
  simp [hs.leaving (by simpa using hkeep)] at hleaving

theorem pipe_of_poll {conn killPipe : Bool} (hpc : s.runner = .poll)
    (ht : s.runnerStep (.poll (.ready conn killPipe)) = some t) : killPipe = decide (0 < s.killPipe) := by
  simp only [State.runnerStep, hpc] at ht
  split at ht
  · rename_i hready
    rw [Bool.and_eq_true, decide_eq_true_eq] at hready
    exact hready.2
  · cases ht

theorem pipe_of_timeout (hpc : s.runner = .poll) (ht : s.runnerStep (.poll .timeout) = some t) :
    s.killPipe = 0 := by
  simp only [State.runnerStep, hpc] at ht
  split at ht
  · assumption
  · cases ht

theorem readReturns_of_read {r : ReadResult} {total : Nat} (hpc : s.runner = .readKillPipe total)
    (ht : s.runnerStep (.read r) = some t) : s.readReturns r = true := by
  simp only [State.runnerStep, hpc] at ht
  split at ht
  · assumption
  · cases ht

/-- Nothing is left to be read only if a whole number was read before. -/
theorem potential_onReadError {r : ReadResult} {total : Nat} (hs : s.Asked)
    (hpc : s.runner = .readKillPipe total) (hr : s.readReturns r = true) (hdata : ∀ n, r ≠ .data n) :
    (r ≠ .interrupted → (s.onReadError r total).potential < s.potential) ∧
      (s.onReadError r total).potential ≤ s.potential + 8 := by
  have hkeep := hs.keepRunning (by simp [hpc, RunnerPc.leaving])
  have hpipe := hs.pipe (by simp [hpc, RunnerPc.leaving])
  have hbefore : s.potential = 5 + s.killPipe := by simp [State.potential, State.stepsLeft, hpc]
  rw [hpc] at hpipe
  dsimp only at hpipe
  unfold State.onReadError
  by_cases htotal : total < sizeofInt
  · rw [if_pos htotal]
    cases r with
    | again =>
      simp only [State.readReturns, decide_eq_true_eq] at hr
      omega
    | interrupted =>
      simp [State.potential, State.stepsLeft, hkeep, hpc]
      omega
    | failed =>
      simp [State.potential, State.stepsLeft, hpc]
      omega
    | data n => exact absurd rfl (hdata n)
  · rw [if_neg htotal]
    simp [State.potential, State.stepsLeft, hpc]
    omega

theorem potential_runnerStep (hs : s.Asked) (ht : s.runnerStep e = some t) :
    (e.disturbs = false → t.potential < s.potential) ∧ t.potential ≤ s.potential + 8 := by
  have hmoves := runnerMoves ht
  cases hmoves with
  | start hpc => simp [State.potential, State.stepsLeft, hpc]; split <;> omega
  | reconnectTest hpc =>
    by_cases hkeep : s.keepRunning = true <;> simp [State.potential, State.stepsLeft, hpc, hkeep] <;> omega
  | connected hpc =>
    have hkeep := hs.keepRunning (by simp [hpc, RunnerPc.leaving])
    simp [State.potential, State.stepsLeft, hpc, hkeep]
    omega
  | connectFailed hpc => simp [State.potential, State.stepsLeft, hpc]; omega
  | reselectTest hpc =>
    by_cases hkeep : s.keepRunning = true <;> by_cases hback : s.goBackToReconnectLoop = true <;>
      simp [State.potential, State.stepsLeft, hpc, hkeep, hback] <;> omega
  | @iterated next hpc =>
    have hkeep := hs.keepRunning (by simp [hpc, RunnerPc.leaving])
    cases next <;> simp [State.potential, State.stepsLeft, hpc, hkeep, Event.disturbs] <;> omega
  | notifyTest hpc =>
    by_cases hkeep : s.keepRunning = true <;> simp [State.potential, State.stepsLeft, hpc, hkeep] <;> omega
  | @notifies isForMe hpc =>
    have hkeep := hs.keepRunning (by simp [hpc, RunnerPc.leaving])
    rcases isForMe with _ | _ | _ <;> by_cases hback : s.goBackToReconnectLoop = true <;>
      simp [State.potential, State.stepsLeft, hpc, hkeep, hback, Event.disturbs] <;> omega
  | pollInterrupted hpc =>
    have hkeep := hs.keepRunning (by simp [hpc, RunnerPc.leaving])
    simp [State.potential, State.stepsLeft, hpc, hkeep, Event.disturbs]
    omega
  | pollFailed hpc => simp [State.potential, State.stepsLeft, hpc]; omega
  | pollTimeout hpc =>
    have hpipe := hs.pipe (by simp [hpc, RunnerPc.leaving])
    have hempty := pipe_of_timeout hpc ht
    rw [hpc] at hpipe
    simp [sizeofInt, hempty] at hpipe
  | @pollReady conn killPipe hpc =>
    have hpipe := hs.pipe (by simp [hpc, RunnerPc.leaving])
    have hready := pipe_of_poll hpc ht
    rw [hpc] at hpipe
    have hkillPipe : killPipe = true := by
      rw [hready, decide_eq_true_eq]
      exact Nat.lt_of_lt_of_le (by decide) hpipe
    subst hkillPipe
    cases conn <;> simp [State.potential, State.stepsLeft, hpc] <;> omega
  | @consumed killPipe hpc =>
    cases killPipe <;> simp [State.potential, State.stepsLeft, hpc] <;> omega
  | @consumeFailed killPipe hpc =>
    have hkeep := hs.keepRunning (by simp [hpc, RunnerPc.leaving])
    cases killPipe <;> simp [State.potential, State.stepsLeft, hpc, hkeep, Event.disturbs] <;> omega
  | @polled killPipe hpc =>
    have hkeep := hs.keepRunning (by simp [hpc, RunnerPc.leaving])
    cases killPipe <;> simp [State.potential, State.stepsLeft, hpc, hkeep] <;> omega
  | @read total n hpc hn =>
    have hr := readReturns_of_read hpc ht
    simp only [State.readReturns, Bool.and_eq_true, decide_eq_true_eq] at hr
    simp [State.potential, State.stepsLeft, hpc]
    omega
  | @readError total r hpc =>
    have hr := readReturns_of_read hpc ht
    have hdata : ∀ n, r ≠ .data n := by
      rintro n rfl
      simp only [State.runnerStep, hpc, hr, if_true, Option.some.injEq] at ht
      have hleaving := @leaving_onReadError s (.data n) total
      simp [← ht, RunnerPc.leaving] at hleaving
    obtain ⟨hdrop, hgrow⟩ := potential_onReadError hs hpc hr hdata
    refine ⟨fun hdisturbs => hdrop ?_, hgrow⟩
    rintro rfl
    simp [Event.disturbs] at hdisturbs
  | loopsLeft hpc => simp [State.potential, State.stepsLeft, hpc]; omega

/-- A runner that has not returned can go on by itself. -/
theorem State.Asked.moves (hs : s.Asked) (hreturned : s.runner ≠ .returned) :
    ∃ e, e.disturbs = false ∧ ∃ t, s.runnerStep e = some t := by
  cases hpc : s.runner with
  | start | reconnectTest | reselectTest | notifyTest | loopsLeft =>
    exact ⟨.go, rfl, by simp [State.runnerStep, hpc]⟩
  | connecting => exact ⟨.runnerSessionStart true, rfl, by simp [State.runnerStep, hpc]⟩
  | iteration => exact ⟨.iterated .committed, rfl, by simp [State.runnerStep, hpc]⟩
  | notifies => exact ⟨.notifies none, rfl, by simp [State.runnerStep, hpc]⟩
  | poll =>
    have hpipe := hs.pipe (by simp [hpc, RunnerPc.leaving])
    rw [hpc] at hpipe
    have hready : 0 < s.killPipe := Nat.lt_of_lt_of_le (by decide) hpipe
    exact ⟨.poll (.ready false true), rfl, by simp [State.runnerStep, hpc, hready]⟩
  | polled conn killPipe =>
    cases conn
    · exact ⟨.go, rfl, by simp [State.runnerStep, hpc]⟩
    · exact ⟨.consumeInput true, rfl, by simp [State.runnerStep, hpc]⟩
  | readKillPipe total =>
    by_cases hempty : s.killPipe = 0
    · exact ⟨.read .again, rfl, by simp [State.runnerStep, hpc, State.readReturns, hempty]⟩
    · refine ⟨.read (.data (min sizeofInt s.killPipe)), rfl, ?_⟩
      have hdata : 0 < min sizeofInt s.killPipe := Nat.lt_min.mpr ⟨by decide, Nat.pos_of_ne_zero hempty⟩
      simp [State.runnerStep, hpc, State.readReturns, hdata]
  | returned => exact absurd hpc hreturned

theorem stepsLeft_le : s.stepsLeft ≤ 16 := by
  unfold State.stepsLeft
  repeat' split
  all_goals omega

/-! ## All runners -/

/-- The threads of the runners, and the ones that `join_all_threads()` still has to wait for. -/
structure Joining (ι : Type*) where
  runners : ι → State
  toJoin : List ι

inductive JoinEvent (ι : Type*) where
  | runner (i : ι) (e : Event)
  | join

def JoinEvent.disturbs {ι : Type*} : JoinEvent ι → Bool
  | .runner _ e => e.disturbs
  | .join => false

section

variable {ι : Type*} [DecidableEq ι]

/-- `join()` returns when the function of the thread has returned. -/
def Joining.step (d : Joining ι) : JoinEvent ι → Option (Joining ι)
  | .runner i e => (d.runners i).runnerStep e |>.map fun t =>
    { d with runners := Function.update d.runners i t }
  | .join => match d.toJoin with
    | [] => none
    | i :: toJoin => if (d.runners i).runner = .returned then some { d with toJoin } else none

def Joining.Step (d : Joining ι) (e : JoinEvent ι) (d' : Joining ι) : Prop := d.step e = some d'

variable {d d' : Joining ι} {a : JoinEvent ι} {as : List (JoinEvent ι)} {i : ι}

theorem Joining.Step.cases (h : d.Step a d') :
    (∃ i e t, a = .runner i e ∧ (d.runners i).runnerStep e = some t ∧
      d' = { d with runners := Function.update d.runners i t }) ∨
    (∃ i toJoin, a = .join ∧ d.toJoin = i :: toJoin ∧ (d.runners i).runner = .returned ∧
      d' = { d with toJoin }) := by
  unfold Joining.Step Joining.step at h
  cases a with
  | runner i e =>
    rw [Option.map_eq_some_iff] at h
    obtain ⟨t, ht, rfl⟩ := h
    exact .inl ⟨i, e, t, rfl, ht, rfl⟩
  | join =>
    dsimp only at h
    split at h
    · cases h
    · rename_i i toJoin hjoin
      split at h <;> cases h
      exact .inr ⟨i, toJoin, rfl, hjoin, ‹_›, rfl⟩

theorem asked_step (hs : ∀ i, (d.runners i).Asked) (h : d.Step a d') : ∀ i, (d'.runners i).Asked := by
  obtain ⟨i, e, t, -, ht, rfl⟩ | ⟨i, toJoin, -, -, -, rfl⟩ := h.cases
  · intro j
    by_cases hj : j = i
    · subst hj
      simpa using asked_runnerStep (hs j) ht
    · simpa [hj] using hs j
  · exact hs

theorem returned_step (hs : (d.runners i).runner = .returned) (h : d.Step a d') :
    (d'.runners i).runner = .returned := by
  obtain ⟨j, e, t, -, ht, rfl⟩ | ⟨j, toJoin, -, -, -, rfl⟩ := h.cases
  · by_cases hj : i = j
    · subst hj
      simp [State.runnerStep, hs] at ht
    · simpa [hj] using hs
  · exact hs

/-- A thread is waited for until it has returned. -/
theorem returned_of_joined (h : Transition.Run Joining.Step d as d') (hi : i ∈ d.toJoin) :
    i ∈ d'.toJoin ∨ (d'.runners i).runner = .returned := by
  refine h.invariant_state (I := fun d => i ∈ d.toJoin ∨ (d.runners i).runner = .returned) (.inl hi) ?_
  rintro d a d' (hi | hi) hstep
  · obtain ⟨j, e, t, -, -, rfl⟩ | ⟨j, toJoin, -, hjoin, hreturned, rfl⟩ := hstep.cases
    · exact .inl hi
    · rw [hjoin, List.mem_cons] at hi
      rcases hi with rfl | hi
      · exact .inr hreturned
      · exact .inl hi
  · exact .inr (returned_step hi hstep)

/-- Nobody waits for anything but a runner that can go on. -/
theorem join_progress (hs : ∀ i, (d.runners i).Asked) (hjoin : d.toJoin ≠ []) :
    ∃ a : JoinEvent ι, a.disturbs = false ∧ ∃ d', d.Step a d' := by
  obtain ⟨i, toJoin, hjoin⟩ := List.exists_cons_of_ne_nil hjoin
  by_cases hreturned : (d.runners i).runner = .returned
  · exact ⟨.join, rfl, _, by simp [Joining.Step, Joining.step, hjoin, hreturned]; rfl⟩
  · obtain ⟨e, he, t, ht⟩ := (hs i).moves hreturned
    exact ⟨.runner i e, he, _, by simp [Joining.Step, Joining.step, ht]; rfl⟩

variable [Fintype ι]

def Joining.potential (d : Joining ι) : Nat := ∑ i, (d.runners i).potential + d.toJoin.length

theorem potential_step (hs : ∀ i, (d.runners i).Asked) (h : d.Step a d') :
    (a.disturbs = false → d'.potential < d.potential) ∧ d'.potential ≤ d.potential + 8 := by
  obtain ⟨i, e, t, rfl, ht, rfl⟩ | ⟨i, toJoin, rfl, hjoin, -, rfl⟩ := h.cases
  · obtain ⟨hdrop, hgrow⟩ := potential_runnerStep (hs i) ht
    have hsum : ∀ f : ι → Nat, ∑ j, f j = f i + ∑ j ∈ Finset.univ.erase i, f j := fun f =>
      (Finset.add_sum_erase _ f (Finset.mem_univ i)).symm
    have hrest : ∑ j ∈ Finset.univ.erase i, (Function.update d.runners i t j).potential =
        ∑ j ∈ Finset.univ.erase i, (d.runners j).potential := by
      refine Finset.sum_congr rfl fun j hj => ?_
      rw [Function.update_of_ne (Finset.ne_of_mem_erase hj)]
    simp only [Joining.potential]
    rw [hsum, hsum fun j => (d.runners j).potential, hrest, Function.update_self]
    refine ⟨fun hdisturbs => ?_, by omega⟩
    have := hdrop hdisturbs
    omega
  · simp [Joining.potential, hjoin]
    omega

end

/-! ## A notification in between -/

/-- The signal comes while a command runs. -/
def askedInIteration : List Event :=
  [.go, .go, .runnerSessionStart true, .go, .kill, .testRunning, .write (.wrote 4), .write (.wrote 0)]

def goesToItsEnd : List (JoinEvent Unit) := [.iterated .committed, .go, .notifies (some false), .go,
  .notifies none, .poll (.ready false true), .go, .read (.data 4), .read .again, .go, .go, .go, .go].map
    (.runner ()) ++ [.join]

end PgCmdQueue.Runner.Stop
