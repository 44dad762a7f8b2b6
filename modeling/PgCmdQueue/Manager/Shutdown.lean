import PgCmdQueue.Manager.MainThread

/-!
# How the main thread comes to its end

It leaves its loops after every signal, wherever the signal finds it, and hardly for anything else.
-/

namespace PgCmdQueue.MainThread

open Runner.Stop

variable {p : Pipe} {asserts : Bool} {s t : State} {e : Event} {tr tr' : List Event}

/-! ## What the main thread knows of signals -/

/-- The pipe had something in it when `poll()` looked. -/
def Pc.killPipe : Pc → Bool
  | .selectQueues (.listener killPipe) _ => killPipe
  | .sleepFor (.listener killPipe) _ => killPipe
  | .polled _ killPipe => killPipe
  | .notifies killPipe => killPipe
  | _ => false

structure State.Inv (s : State) : Prop where
  whole : sizeofInt ∣ s.killPipe
  seen : s.sigRecv = [] → s.inHandler = 0 ∧ s.killPipe = 0 ∧ s.keepRunning = true
  pending : s.sigRecv ≠ [] → s.keepRunning = true → s.pc ≠ .readKillPipe sizeofInt →
    0 < s.inHandler ∨ 0 < s.killPipe
  noted : s.pc.killPipe = true → 0 < s.killPipe
  reading : ∀ b, s.pc = .readKillPipe b → s.sigRecv ≠ [] ∧ (b = 0 ∧ 0 < s.killPipe ∨ b = sizeofInt)

/-- Where no step depends on the pipe. -/
theorem State.Inv.moved (hs : s.Inv) {c : Connection.State} {pc : Pc}
    (hread : s.pc ≠ .readKillPipe sizeofInt) (hnext : ∀ b, pc ≠ .readKillPipe b)
    (hnoted : pc.killPipe = true → s.pc.killPipe = true) :
    State.Inv { s with connection := c, pc := pc } :=
  ⟨hs.whole, hs.seen, fun hsig hkeep _ => hs.pending hsig hkeep hread, fun h => hs.noted (hnoted h),
    fun b hb => absurd hb (hnext b)⟩

/-- The main thread has been told to stop. -/
theorem State.Inv.told (hs : s.Inv) (hsig : s.sigRecv ≠ []) :
    State.Inv { s with keepRunning := false, pc := .poll } :=
  ⟨hs.whole, fun h => absurd h hsig, nofun, nofun, nofun⟩

theorem State.Inv.sigRecv (hs : s.Inv) (hpipe : 0 < s.killPipe) : s.sigRecv ≠ [] := by
  intro hsig
  rw [(hs.seen hsig).2.1] at hpipe
  cases hpipe

theorem killPipe_next {caller : Caller} {w : Nat} :
    caller.next.killPipe = (Pc.selectQueues caller w).killPipe ∧ ∀ b, caller.next ≠ .readKillPipe b := by
  cases caller <;> exact ⟨rfl, nofun⟩

/-- A whole number is read at once, as only whole numbers are written. -/
theorem inv_readSome {b n : Nat} (hs : s.Inv) (hpc : s.pc = .readKillPipe b)
    (hall : n = min (sizeofInt - b) s.killPipe) (hpos : 0 < n) :
    State.Inv { s with killPipe := s.killPipe - n, pc := .readKillPipe (b + n) } := by
  obtain ⟨hsig, hread⟩ := hs.reading b hpc
  obtain ⟨k, hk⟩ := hs.whole
  rw [sizeofInt] at hread hk hall
  have hwhole : b = 0 ∧ n = sizeofInt := by
    rw [sizeofInt]
    omega
  obtain ⟨rfl, rfl⟩ := hwhole
  refine ⟨?_, fun h => absurd h hsig, fun _ _ hne => ?_, nofun, fun b hb => ?_⟩
  · exact Nat.dvd_sub hs.whole (Nat.dvd_refl _)
  · simp at hne
  · cases hb
    exact ⟨hsig, .inr (Nat.zero_add _)⟩

theorem inv_step (hs : s.Inv) (h : Step p asserts s e t) : t.Inv := by
  cases moves_of_step h with
  | signal =>
    exact ⟨hs.whole, nofun, fun _ _ _ => .inl (Nat.succ_pos _), hs.noted,
      fun b hb => ⟨nofun, (hs.reading b hb).2⟩⟩
  | handlerWrites hin =>
    have hmore : 0 < s.killPipe + sizeofInt := Nat.add_pos_right _ (by decide)
    have hsig : s.sigRecv ≠ [] := fun hsig => by simp [(hs.seen hsig).1] at hin
    exact ⟨Nat.dvd_add hs.whole (Nat.dvd_refl _), fun h => absurd h hsig, fun _ _ _ => .inr hmore,
      fun _ => hmore, fun b hb => ⟨hsig, (hs.reading b hb).2.imp_left fun h => ⟨h.1, hmore⟩⟩⟩
  | connection hpc => exact hs.moved (by simp [hpc]) (by split <;> nofun) (by split <;> nofun)
  | nullConn hpc => exact hs.moved (by simp [hpc]) nofun nofun
  | @selected caller w ok hpc =>
    obtain ⟨hkill, hnext⟩ := @killPipe_next caller w
    refine hs.moved (by simp [hpc]) ?_ ?_ <;> split
    · exact hnext
    · nofun
    · rw [hkill, hpc]
      exact id
    · rw [hpc]
      cases caller <;> exact id
  | @gaveUp caller w hpc =>
    obtain ⟨hkill, hnext⟩ := @killPipe_next caller w
    exact hs.moved (by simp [hpc]) hnext (by rw [hkill, hpc]; exact id)
  | @sleepFor caller w hpc =>
    refine ⟨hs.whole, fun hsig => ?_, fun hsig hkeep => ?_, fun hkill => ?_, nofun⟩
    · obtain ⟨hin, hempty, hkeep⟩ := hs.seen hsig
      exact ⟨hin, hempty, by simpa [hkeep] using hsig⟩
    · simp at hkeep
      exact absurd hkeep.2 hsig
    · refine hs.noted ?_
      rw [hpc]
      cases caller <;> exact hkill
  | listen hpc => exact hs.moved (by simp [hpc]) (by split <;> nofun) (by split <;> nofun)
  | pollInterrupted | readInterrupted => exact hs
  | pollFailed hpc => exact hs.moved (by simp [hpc]) nofun nofun
  | pollReady hpc hkeep hpipe =>
    refine ⟨hs.whole, hs.seen, fun hsig hkeep _ => ?_, fun hkill => ?_, nofun⟩
    · exact hs.pending hsig hkeep (by simp [hpc])
    · have hkill : _ = true := hkill
      rw [hpipe] at hkill
      exact of_decide_eq_true hkill
  | pollEnds hpc => exact hs.moved (by simp [hpc]) nofun nofun
  | @polled conn killPipe hpc =>
    have hpipe : killPipe = true → 0 < s.killPipe := fun h => hs.noted (by simpa [hpc, Pc.killPipe] using h)
    rcases conn with _ | _
    · rcases killPipe with _ | _
      · exact hs.moved (by simp [hpc]) nofun nofun
      · have hpos := hpipe rfl
        exact ⟨hs.whole, hs.seen, fun _ _ _ => .inr hpos, nofun, fun b hb => by
          cases hb
          exact ⟨hs.sigRecv hpos, .inl ⟨rfl, hpos⟩⟩⟩
    · exact hs.moved (by simp [hpc]) nofun (by simp [hpc, Pc.killPipe])
  | notifiesRead hpc => exact hs.moved (by simp [hpc]) nofun (by simp [hpc, Pc.killPipe])
  | notified hpc hkeep hnext =>
    rcases hnext with rfl | rfl | rfl <;> exact hs.moved (by simp [hpc]) nofun (by simp [hpc, Pc.killPipe])
  | notifiesEnds hpc => exact hs.moved (by simp [hpc]) nofun (by simp [hpc, Pc.killPipe])
  | readFailed hpc | readAll hpc => exact hs.told (hs.reading _ hpc).1
  | readSome hpc hall hpos => exact inv_readSome hs hpc hall hpos
  | stopAllRunners hpc => exact hs.moved (by simp [hpc]) nofun nofun

theorem inv_nil : State.Inv {} :=
  ⟨Nat.dvd_zero _, fun _ => ⟨rfl, rfl, rfl⟩, fun h => absurd rfl h, nofun, nofun⟩

theorem inv_run (h : Transition.Run (Step p asserts) {} tr s) : s.Inv :=
  h.invariant_state inv_nil fun _ _ _ => inv_step

/-! ## How far it is after a signal -/

/-- What comes from outside: more signals, calls that are interrupted, and input from the server. -/
def Event.disturbs : Event → Bool
  | .signal _ => true
  | .poll .interrupted => true
  | .poll (.ready _ false) => true
  | .notifies (some _) => true
  | .read .interrupted => true
  | _ => false

def Pc.over : Pc → Bool
  | .joinAllThreads _ => true
  | .nullConn => true
  | .terminated => true
  | _ => false

def connectionStepsLeft : Connection.Pc → Nat
  | .entry => 2
  | .connectTest => 1
  | .connect => 3
  | .connectSleep => 2
  | .resetTest => 1
  | .reset => 3
  | .resetSleep => 2
  | .returned => 0

/-- The steps to the end once a signal was received, when nothing comes in between. -/
def State.stepsLeft (s : State) : Nat :=
  match s.pc with
  | .maintainConnection => 13 + connectionStepsLeft s.connection.pc
  | .sleepFor .main _ => 14
  | .selectQueues .main _ => 13
  | .listen => 12
  | .poll => if s.keepRunning then 11 else 2
  | .selectQueues (.listener _) _ => if s.keepRunning then 14 else 10
  | .sleepFor (.listener _) _ => 11
  | .polled true killPipe => if s.keepRunning && !killPipe then 14 else 10
  | .notifies killPipe => if s.keepRunning && !killPipe then 13 else 9
  | .polled false killPipe => if s.keepRunning && !killPipe then 12 else 8
  | .readKillPipe bytesRead => 3 + (sizeofInt - bytesRead)
  | .stopAllRunners => 1
  | _ => 0

def State.potential (s : State) : Nat := s.stepsLeft + s.inHandler

theorem connectionStepsLeft_lt {c c' : Connection.State} {e : Connection.Event}
    (h : c.step false true e = some c') : connectionStepsLeft c'.pc < connectionStepsLeft c.pc := by
  cases Connection.moves_of_step h with
  | entry hpc => rcases hconn : c.conn with _ | _ | _ <;> simp [hpc, connectionStepsLeft]
  | connectTest hpc | resetTest hpc => simp [hpc, connectionStepsLeft]
  | @connect ok hpc | @reset ok hpc => cases ok <;> simp [hpc, connectionStepsLeft]
  | connectSleep hpc | resetSleep hpc => simp [hpc, connectionStepsLeft, Connection.State.sleepFor]

theorem sigRecv_step (hsig : s.sigRecv ≠ []) (h : Step p asserts s e t) : t.sigRecv ≠ [] := by
  cases moves_of_step h with
  | signal => nofun
  | _ => exact hsig

theorem potential_step (hsig : s.sigRecv ≠ []) (h : Step p asserts s e t) :
    (e.disturbs = false → t.potential < s.potential) ∧ t.potential ≤ s.potential + 5 := by
  cases moves_of_step h with
  | signal =>
    refine ⟨nofun, ?_⟩
    have hsame : s.stepsLeft + (s.inHandler + 1) ≤ s.stepsLeft + s.inHandler + 5 := by omega
    exact hsame
  | handlerWrites hin =>
    have hless : s.stepsLeft + (s.inHandler - 1) < s.stepsLeft + s.inHandler := by omega
    exact ⟨fun _ => hless, hless.le.trans (Nat.le_add_right _ _)⟩
  | @connection e c hpc hc =>
    have hsteps := connectionStepsLeft_lt (by simpa [hsig] using hc)
    by_cases hreturned : c.pc = .returned <;>
      simp [State.potential, State.stepsLeft, hpc, hreturned] <;> omega
  | @nullConn caller w ok hpc =>
    by_cases hkeep : s.keepRunning = true <;> cases caller <;>
      simp [State.potential, State.stepsLeft, hpc, hkeep] <;> omega
  | @selected caller w ok hpc hkeep =>
    rcases caller with _ | _ | _ <;> cases ok <;>
      simp [State.potential, State.stepsLeft, hpc, Caller.next, Caller.retrySelect, hkeep] <;> omega
  | @gaveUp caller w hpc hkeep =>
    rcases caller with _ | _ | _ <;>
      simp [State.potential, State.stepsLeft, hpc, Caller.next, hkeep] <;> omega
  | @sleepFor caller w hpc =>
    rcases caller with _ | _ | _ <;> simp [State.potential, State.stepsLeft, hpc, hsig] <;> omega
  | listen hpc =>
    split <;> by_cases hkeep : s.keepRunning = true <;>
      simp [State.potential, State.stepsLeft, hpc, hkeep] <;> omega
  | pollInterrupted hpc | readInterrupted hpc => simp [Event.disturbs]
  | pollFailed hpc hkeep =>
    simp [State.potential, State.stepsLeft, hpc, hkeep]
    omega
  | @pollReady conn killPipe hpc hkeep hpipe hready =>
    cases conn <;> cases killPipe <;>
      simp [State.potential, State.stepsLeft, hpc, hkeep, Event.disturbs] at hready ⊢ <;> omega
  | pollEnds hpc hkeep =>
    simp [State.potential, State.stepsLeft, hpc, hkeep]
    omega
  | @polled conn killPipe hpc =>
    by_cases hkeep : s.keepRunning = true <;> cases conn <;> cases killPipe <;>
      simp [State.potential, State.stepsLeft, hpc, hkeep, sizeofInt] <;> omega
  | @notifiesRead killPipe hpc hkeep =>
    cases killPipe <;> simp [State.potential, State.stepsLeft, hpc, hkeep] <;> omega
  | @notified killPipe extra next hpc hkeep hnext =>
    rcases hnext with rfl | rfl | rfl <;> cases killPipe <;>
      simp [State.potential, State.stepsLeft, hpc, hkeep, Event.disturbs] <;> omega
  | @notifiesEnds killPipe hpc hkeep =>
    cases killPipe <;> simp [State.potential, State.stepsLeft, hpc, hkeep] <;> omega
  | readFailed hpc | readAll hpc =>
    simp [State.potential, State.stepsLeft, hpc]
    omega
  | readSome hpc hall hpos =>
    simp [State.potential, State.stepsLeft, hpc]
    omega
  | stopAllRunners hpc =>
    simp [State.potential, State.stepsLeft, hpc]
    omega

/-- `maintain_connection` has not come back. -/
def State.Connecting (s : State) : Prop := s.pc = .maintainConnection → s.connection.pc ≠ .returned

theorem next_ne_maintainConnection {caller : Caller} : caller.next ≠ .maintainConnection := by
  cases caller <;> nofun

theorem connecting_step (hs : s.Connecting) (h : Step p asserts s e t) : t.Connecting := by
  cases moves_of_step h with
  | signal | handlerWrites | pollInterrupted | readInterrupted => exact hs
  | connection => exact fun hpc => by simpa using hpc
  | selected =>
    refine fun hpc => absurd hpc ?_
    dsimp only
    split
    · exact next_ne_maintainConnection
    · nofun
  | gaveUp => exact fun hpc => absurd hpc next_ne_maintainConnection
  | notified hpc hkeep hnext => rcases hnext with rfl | rfl | rfl <;> exact nofun
  | @polled conn killPipe =>
    refine fun hpc => absurd hpc ?_
    cases conn <;> cases killPipe <;> nofun
  | listen =>
    refine fun hpc => absurd hpc ?_
    dsimp only
    split <;> nofun
  | _ => exact nofun

theorem connection_moves {sigNumReceived : Bool} {c : Connection.State} (hc : c.pc ≠ .returned) :
    ∃ e c', c.step false sigNumReceived e = some c' := by
  cases hpc : c.pc with
  | entry | connectTest | resetTest => exact ⟨.go, by simp [Connection.State.step, hpc]⟩
  | connect => exact ⟨.connectdb true, by simp [Connection.State.step, hpc]⟩
  | reset => exact ⟨.reset true, by simp [Connection.State.step, hpc]⟩
  | connectSleep | resetSleep => exact ⟨.sleepFor, by simp [Connection.State.step, hpc]⟩
  | returned => exact absurd hpc hc

/-- The main thread can always go on by itself. It never waits for a pipe that nobody will write to. -/
theorem moves_undisturbed (hs : s.Inv) (hconn : s.Connecting) (hsig : s.sigRecv ≠ [])
    (hover : s.pc.over = false) : ∃ e : Event, e.disturbs = false ∧ ∃ t, Step p asserts s e t := by
  cases hpc : s.pc with
  | maintainConnection =>
    obtain ⟨e, c, hc⟩ : ∃ e c, s.connection.step false true e = some c := connection_moves (hconn hpc)
    exact ⟨.connection e, rfl, by
      simp [Step, State.step, State.handlerStep, State.mainStep, hpc, hsig, hc]⟩
  | selectQueues caller w =>
    by_cases hkeep : s.keepRunning = true
    · exact ⟨.select true, rfl, by
        simp [Step, State.step, State.handlerStep, State.mainStep, hpc, hkeep]⟩
    · exact ⟨.go, rfl, by simp [Step, State.step, State.handlerStep, State.mainStep, hpc, hkeep]⟩
  | sleepFor caller w =>
    exact ⟨.sleepFor, rfl, by simp [Step, State.step, State.handlerStep, State.mainStep, hpc]⟩
  | listen => exact ⟨.listen .ok, rfl, by simp [Step, State.step, State.handlerStep, State.mainStep, hpc]⟩
  | poll =>
    by_cases hkeep : s.keepRunning = true
    · by_cases hpipe : 0 < s.killPipe
      · exact ⟨.poll (.ready false true), rfl,
          by simp [Step, State.step, State.handlerStep, State.mainStep, hpc, hkeep, hpipe]⟩
      · have hin := (hs.pending hsig hkeep (by simp [hpc])).resolve_right hpipe
        have hroom : s.killPipe + sizeofInt ≤ p.capacity := by
          have := p.capacity.2
          have := p.pipeBuf.2
          rw [sizeofInt]
          omega
        exact ⟨.handlerWrites, rfl, by simp [Step, State.step, State.handlerStep, hin, hroom]⟩
    · exact ⟨.go, rfl, by simp [Step, State.step, State.handlerStep, State.mainStep, hpc, hkeep]⟩
  | polled conn killPipe =>
    exact ⟨.go, rfl, by simp [Step, State.step, State.handlerStep, State.mainStep, hpc]⟩
  | notifies killPipe =>
    by_cases hkeep : s.keepRunning = true
    · exact ⟨.notifies none, rfl, by
        simp [Step, State.step, State.handlerStep, State.mainStep, hpc, hkeep]⟩
    · exact ⟨.go, rfl, by simp [Step, State.step, State.handlerStep, State.mainStep, hpc, hkeep]⟩
  | readKillPipe b =>
    refine ⟨.read (.data (min (sizeofInt - b) s.killPipe)), rfl, ?_⟩
    have hready : 0 < s.killPipe ∨ sizeofInt ≤ b := by
      rcases (hs.reading b hpc).2 with ⟨-, hpos⟩ | rfl
      · exact .inl hpos
      · exact .inr le_rfl
    simp [Step, State.step, State.handlerStep, State.mainStep, State.readKillPipe, hpc, hready]
  | stopAllRunners =>
    exact ⟨.go, rfl, by simp [Step, State.step, State.handlerStep, State.mainStep, hpc]⟩
  | joinAllThreads | nullConn | terminated => simp [hpc, Pc.over] at hover

theorem connecting_run (h : Transition.Run (Step p asserts) {} tr s) : s.Connecting :=
  h.invariant_state (I := State.Connecting) nofun fun _ _ _ => connecting_step

theorem stepsLeft_le : s.stepsLeft ≤ 16 := by
  have hconnection : connectionStepsLeft s.connection.pc ≤ 3 := by cases s.connection.pc <;> decide
  unfold State.stepsLeft
  repeat' split
  all_goals
    try rw [sizeofInt]
    omega

/-- SIGTERM comes while notifications are read, and its handler writes behind the next `poll()`. -/
def toldWhileReading : List Event := [.connection .go, .connection .go, .connection (.connectdb true),
  .select true, .listen .ok, .poll (.ready true false), .go, .signal .term]

def stops : List Event := [.notifies none, .go, .handlerWrites, .poll (.ready false true), .go,
  .read (.data 4), .read (.data 0), .go, .go]

/-- `LISTEN` or `poll()` does not succeed. -/
def Event.fails : Event → Bool
  | .listen r => r ≠ .ok
  | .poll .failed => true
  | _ => false

def Pc.stops : Pc → Bool
  | .stopAllRunners => true
  | .joinAllThreads _ => true
  | _ => false

def Explained (tr : List Event) (s : State) : Prop :=
  s.pc.stops = true → s.sigRecv ≠ [] ∨ ∃ e ∈ tr, e.fails = true

theorem Explained.mono {c : Connection.State} {sigs : List Sig} {n m : Nat} (hs : Explained tr s)
    (hsigs : s.sigRecv ≠ [] → sigs ≠ []) :
    Explained (tr ++ [e]) { s with connection := c, sigRecv := sigs, inHandler := n, killPipe := m } :=
  fun hpc => (hs hpc).imp hsigs fun ⟨e, he, hfails⟩ => ⟨e, List.mem_append_left _ he, hfails⟩

theorem explained_of_stops (h : s.pc.stops = false) : Explained tr s := by
  intro hstops
  rw [h] at hstops
  cases hstops

theorem stops_next {caller : Caller} : caller.next.stops = false := by cases caller <;> rfl

theorem explained_step (hs : Explained tr s) (hinv : s.Inv) (h : Step p asserts s e t) :
    Explained (tr ++ [e]) t := by
  cases moves_of_step h with
  | signal => exact hs.mono fun _ => nofun
  | handlerWrites | pollInterrupted | readInterrupted => exact hs.mono id
  | @listen r hpc =>
    intro hstops
    by_cases hr : r = .ok
    · simp [hr, Pc.stops] at hstops
    · exact .inr ⟨.listen r, by simp, by simpa [Event.fails] using hr⟩
  | pollFailed => exact fun _ => .inr ⟨.poll .failed, by simp, rfl⟩
  | pollEnds hpc hkeep =>
    refine fun _ => .inl fun hsig => ?_
    rw [(hinv.seen hsig).2.2] at hkeep
    cases hkeep
  | stopAllRunners hpc =>
    exact fun _ => (hs (by rw [hpc]; rfl)).imp_right fun ⟨e, he, hfails⟩ =>
      ⟨e, List.mem_append_left _ he, hfails⟩
  | connection => exact explained_of_stops (by dsimp only; split <;> rfl)
  | @polled conn killPipe => exact explained_of_stops (by cases conn <;> cases killPipe <;> rfl)
  | selected => exact explained_of_stops (by dsimp only; split <;> first | exact stops_next | rfl)
  | gaveUp => exact explained_of_stops stops_next
  | notified hpc hkeep hnext => exact explained_of_stops (by rcases hnext with rfl | rfl | rfl <;> rfl)
  | _ => exact nofun

/-- Without a signal, the main thread comes to `stop_all_runners()` only behind a `LISTEN` or a `poll()` that
failed. -/
theorem explained_of_run (h : Transition.Run (Step p asserts) {} tr s) (hstops : s.pc.stops = true) :
    s.sigRecv ≠ [] ∨ ∃ e ∈ tr, e.fails = true :=
  (h.along inv_nil fun _ _ _ => inv_step).invariant (I := Explained) nofun
    (fun _ _ _ _ hs hstep => explained_step hs hstep.1 hstep.2) hstops

def listenFails : List Event := [.connection .go, .connection .go, .connection (.connectdb true),
  .select false, .listen .failed]

theorem explained_of_run_listenFails : ∃ s, Transition.Run (Step linuxPipe false) {} listenFails s ∧
    (s.sigRecv ≠ [] ∨ ∃ e ∈ listenFails, e.fails = true) := by
  have hlast : ((listenFails.foldlM (State.step linuxPipe false) {}).any fun s => s.pc.stops) = true := by
    decide +kernel
  obtain ⟨s, hs, hstops⟩ := (Option.any_eq_true _ _).mp hlast
  have hrun := Transition.Run.of_foldlM hs
  exact ⟨s, hrun, explained_of_run hrun hstops⟩

/-- The connection is opened or reset. -/
def Event.attempts : Event → Bool
  | .connection (.connectdb _) => true
  | .connection (.reset _) => true
  | _ => false

def Event.selects : Event → Bool
  | .select _ => true
  | _ => false

/-- In front of the result of the first SELECT. -/
def Pc.early : Pc → Bool
  | .maintainConnection => true
  | .selectQueues .main _ => true
  | .sleepFor .main _ => true
  | _ => false

/-- Where the main thread can be without a connection object. -/
def State.Unconnected (s : State) : Prop :=
  s.keepRunning = true ∧
    (s.pc = .maintainConnection ∧ s.connection.pc ∈ [.entry, .connectTest, .connect] ∨
      s.sigRecv ≠ [] ∧ (s.pc = .selectQueues .main 1 ∨ s.pc = .nullConn))

structure Origin (tr : List Event) (s : State) : Prop where
  conn : s.connection.conn = none ↔ ∀ e ∈ tr, e.attempts = false
  unconnected : s.connection.conn = none → s.Unconnected
  nullConn : s.pc = .nullConn → s.connection.conn = none
  early : s.pc.early = true → ∀ e ∈ tr, e.selects = false

theorem forall_mem_snoc {q : Event → Bool} (he : q e = false) :
    (∀ a ∈ tr ++ [e], q a = false) ↔ ∀ a ∈ tr, q a = false := by
  rw [List.forall_mem_append, List.forall_mem_singleton]
  exact and_iff_left he

/-- The main thread stays where it is. -/
theorem Origin.stays {sigs : List Sig} {n m : Nat} (hs : Origin tr s)
    (hsigs : s.sigRecv ≠ [] → sigs ≠ []) (he : e.attempts = false) (hselects : e.selects = false) :
    Origin (tr ++ [e]) { s with sigRecv := sigs, inHandler := n, killPipe := m } := by
  refine ⟨?_, fun hnone => ?_, hs.nullConn, ?_⟩
  · rw [forall_mem_snoc he]
    exact hs.conn
  · exact (hs.unconnected hnone).imp_right (Or.imp_right (And.imp_left hsigs))
  · rw [forall_mem_snoc hselects]
    exact hs.early

/-- It goes on with a connection object. -/
theorem Origin.moved {n : Nat} {keep : Bool} {pc : Pc} (hs : Origin tr s)
    (hconn : s.connection.conn ≠ none) (he : e.attempts = false) (hnull : pc ≠ .nullConn)
    (hearly : pc.early = true → s.pc.early = true ∧ e.selects = false) :
    Origin (tr ++ [e]) { s with killPipe := n, keepRunning := keep, pc := pc } := by
  refine ⟨?_, fun h => absurd h hconn, fun h => absurd h hnull, fun h => ?_⟩
  · rw [forall_mem_snoc he]
    exact hs.conn
  · obtain ⟨hpc, hselects⟩ := hearly h
    rw [forall_mem_snoc hselects]
    exact hs.early hpc

theorem Origin.connected (hs : Origin tr s) (hpc : s.pc ≠ .maintainConnection ∧
    s.pc ≠ .selectQueues .main 1 ∧ s.pc ≠ .nullConn) : s.connection.conn ≠ none := by
  intro hnone
  rcases (hs.unconnected hnone).2 with ⟨h, -⟩ | ⟨-, h | h⟩
  · exact hpc.1 h
  · exact hpc.2.1 h
  · exact hpc.2.2 h

/-- `maintain_connection` comes back without an object only if there was a signal. -/
theorem unconnected_connection {c : Connection.State} {a : Connection.Event} (hs : s.Unconnected)
    (hpc : s.pc = .maintainConnection) (hconn : s.connection.conn = none) (hnone : c.conn = none)
    (hc : s.connection.step false (s.sigRecv ≠ []) a = some c) :
    State.Unconnected { s with
      connection := c
      pc := if c.pc = .returned then .selectQueues .main 1 else .maintainConnection } := by
  obtain ⟨hkeep, ⟨-, hplace⟩ | ⟨-, hplace⟩⟩ := hs
  · cases Connection.moves_of_step hc with
    | entry hentry => exact ⟨hkeep, .inl (by simp [hconn])⟩
    | connectTest htest =>
      by_cases hsig : s.sigRecv = []
      · exact ⟨hkeep, .inl (by simp [hsig])⟩
      · exact ⟨hkeep, .inr (by simp [hsig])⟩
    | connect | reset => cases hnone
    | connectSleep hplace' | resetTest hplace' | resetSleep hplace' => simp [hplace'] at hplace
  · simp [hpc] at hplace

theorem origin_connection {c : Connection.State} {a : Connection.Event} (hs : Origin tr s)
    (hpc : s.pc = .maintainConnection)
    (hc : s.connection.step false (s.sigRecv ≠ []) a = some c) :
    Origin (tr ++ [.connection a]) { s with
      connection := c
      pc := if c.pc = .returned then .selectQueues .main 1 else .maintainConnection } := by
  have hconn : (c.conn = none ↔ ∀ e ∈ tr ++ [Event.connection a], e.attempts = false) ∧
      (c.conn = none → s.connection.conn = none) := by
    cases Connection.moves_of_step hc with
    | connect | reset => exact ⟨by simp [Event.attempts], nofun⟩
    | entry | connectTest | connectSleep | resetTest | resetSleep =>
      exact ⟨by rw [forall_mem_snoc rfl]; exact hs.conn, id⟩
  refine ⟨hconn.1, fun hnone => ?_, fun hnull => ?_, fun _ => ?_⟩
  · have hbefore := hconn.2 hnone
    exact unconnected_connection (hs.unconnected hbefore) hpc hbefore hnone hc
  · dsimp only at hnull
    split at hnull <;> cases hnull
  · rw [forall_mem_snoc rfl]
    exact hs.early (by rw [hpc]; rfl)

theorem origin_step (hs : Origin tr s) (h : Step p asserts s e t) : Origin (tr ++ [e]) t := by
  cases moves_of_step h with
  | signal => exact hs.stays (fun _ => nofun) rfl rfl
  | handlerWrites | pollInterrupted | readInterrupted => exact hs.stays id rfl rfl
  | connection hpc hc => exact origin_connection hs hpc hc
  | nullConn hpc hconn =>
    obtain ⟨hkeep, ⟨hplace, -⟩ | ⟨hsig, -⟩⟩ := hs.unconnected hconn
    · simp [hpc] at hplace
    · refine ⟨?_, fun _ => ⟨hkeep, .inr ⟨hsig, .inr rfl⟩⟩, fun _ => hconn, nofun⟩
      rw [forall_mem_snoc rfl]
      exact hs.conn
  | @selected caller w ok hpc hkeep hconn =>
    exact hs.moved hconn rfl (by cases caller <;> cases ok <;> nofun) (by cases caller <;> cases ok <;> nofun)
  | @gaveUp caller w hpc hkeep =>
    have hconn : s.connection.conn ≠ none := fun hnone => by
      rw [(hs.unconnected hnone).1] at hkeep
      cases hkeep
    exact hs.moved hconn rfl (by cases caller <;> nofun) (by cases caller <;> nofun)
  | @sleepFor caller w hpc =>
    refine hs.moved (hs.connected (by simp [hpc])) rfl nofun fun hearly => ⟨?_, rfl⟩
    rw [hpc]
    cases caller <;> exact hearly
  | listen hpc =>
    exact hs.moved (hs.connected (by simp [hpc])) rfl (by split <;> nofun) (by split <;> nofun)
  | pollFailed hpc | pollReady hpc | pollEnds hpc | notifiesRead hpc | notifiesEnds hpc
  | readFailed hpc | readAll hpc | readSome hpc | stopAllRunners hpc =>
    exact hs.moved (hs.connected (by simp [hpc])) rfl nofun nofun
  | @polled conn killPipe hpc =>
    exact hs.moved (hs.connected (by simp [hpc])) rfl (by cases conn <;> cases killPipe <;> nofun)
      (by cases conn <;> cases killPipe <;> nofun)
  | notified hpc hkeep hnext =>
    rcases hnext with rfl | rfl | rfl <;> exact hs.moved (hs.connected (by simp [hpc])) rfl nofun nofun

/-- At its first SELECT, the main thread uses an object that is not there if and only if it never tried to
connect, and that takes a signal. -/
theorem nullConn_iff (h : Transition.Run (Step p asserts) {} tr s)
    (hselect : ∃ e ∈ tr, e.selects = true) :
    (s.pc = .nullConn ↔ ∀ e ∈ tr, e.attempts = false) ∧ (s.pc = .nullConn → s.sigRecv ≠ []) := by
  have hs : Origin tr s := h.invariant (I := Origin)
    ⟨by simp, fun _ => ⟨rfl, .inl ⟨rfl, by simp⟩⟩, nofun, fun _ => by simp⟩
    fun _ _ _ _ hs hstep => origin_step hs hstep
  obtain ⟨e, he, hselects⟩ := hselect
  have hlate : s.pc.early = false := by
    by_contra hearly
    rw [hs.early (by simpa using hearly) e he] at hselects
    cases hselects
  refine ⟨⟨fun hpc => hs.conn.mp (hs.nullConn hpc), fun hno => ?_⟩, fun hpc => ?_⟩
  · rcases (hs.unconnected (hs.conn.mpr hno)).2 with ⟨hpc, -⟩ | ⟨-, hpc | hpc⟩
    · simp [hpc, Pc.early] at hlate
    · simp [hpc, Pc.early] at hlate
    · exact hpc
  · rcases (hs.unconnected (hs.nullConn hpc)).2 with ⟨h, -⟩ | ⟨hsig, -⟩
    · simp [hpc] at h
    · exact hsig

/-- SIGTERM comes right behind the installation of the handlers. -/
theorem nullConn_iff_of_early : ∃ s, Transition.Run (Step linuxPipe false) {}
    [.signal .term, .connection .go, .connection .go, .select true] s ∧ s.pc = .nullConn := by
  have hlast : ([.signal .term, .connection .go, .connection .go, .select true].foldlM
      (State.step linuxPipe false) {}).isSome = true := by
    decide +kernel
  obtain ⟨s, hs⟩ := Option.isSome_iff_exists.mp hlast
  have hrun := Transition.Run.of_foldlM hs
  exact ⟨s, hrun, (nullConn_iff hrun ⟨.select true, by simp, rfl⟩).1.mpr (by decide)⟩

end PgCmdQueue.MainThread
