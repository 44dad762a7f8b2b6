import PgCmdQueue.Lib.Backoff
import PgCmdQueue.Lib.Run

/-!
# Keeping a connection

`maintain_connection` connects or resets until the connection works or a signal was seen.
-/

namespace PgCmdQueue.Connection

/-! ## Steps -/

inductive Pc where
  | entry
  | connectTest
  | connect
  | connectSleep
  | resetTest
  | reset
  | resetSleep
  | returned
  deriving DecidableEq

/-- `conn` tells whether the status is `CONNECTION_OK`, if there is an object at all. `sleeps` has the
seconds of all waits. -/
structure State where
  conn : Option Bool
  connectRetrySeconds : Nat := 1
  sleeps : List Nat := []
  pc : Pc := .entry
  deriving DecidableEq

inductive Event where
  | go
  | connectdb (ok : Bool)
  | reset (ok : Bool)
  | sleepFor
  deriving DecidableEq

def maxConnectRetrySeconds : Nat := 60

def State.sleepFor (s : State) (next : Pc) : State :=
  { s with
    sleeps := s.sleeps ++ [s.connectRetrySeconds]
    connectRetrySeconds := Backoff.next maxConnectRetrySeconds s.connectRetrySeconds
    pc := next }

/-- `sigNumReceived` is what the test at the head of a loop finds. -/
def State.step (oneShot sigNumReceived : Bool) (s : State) (e : Event) : Option State :=
  match s.pc, e with
  | .entry, .go => some { s with pc := match s.conn with
      | none => .connectTest
      | some true => .returned
      | some false => if oneShot then .returned else .resetTest }
  | .connectTest, .go => some { s with pc := if sigNumReceived then .returned else .connect }
  | .connect, .connectdb ok =>
    some { s with conn := some ok, pc := if ok || oneShot then .returned else .connectSleep }
  | .connectSleep, .sleepFor => some (s.sleepFor .connectTest)
  | .resetTest, .go => some { s with pc := if sigNumReceived then .returned else .reset }
  | .reset, .reset ok => some { s with conn := some ok, pc := if ok then .returned else .resetSleep }
  | .resetSleep, .sleepFor => some (s.sleepFor .resetTest)
  | _, _ => none

/-- A label has what the thread does, and what it would see of the signals. -/
def Step (oneShot : Bool) (s : State) (e : Event × Bool) (t : State) : Prop :=
  s.step oneShot e.2 e.1 = some t

variable {oneShot sigNumReceived : Bool} {s t : State} {e : Event}

/-- One case for each thing that the function does. -/
inductive State.Moves (oneShot sigNumReceived : Bool) (s : State) : Event → State → Prop
  | entry (pc : s.pc = .entry) : s.Moves oneShot sigNumReceived .go { s with pc := match s.conn with
      | none => .connectTest
      | some true => .returned
      | some false => if oneShot then .returned else .resetTest }
  | connectTest (pc : s.pc = .connectTest) : s.Moves oneShot sigNumReceived .go
      { s with pc := if sigNumReceived then .returned else .connect }
  | connect {ok : Bool} (pc : s.pc = .connect) : s.Moves oneShot sigNumReceived (.connectdb ok)
      { s with conn := some ok, pc := if ok || oneShot then .returned else .connectSleep }
  | connectSleep (pc : s.pc = .connectSleep) :
      s.Moves oneShot sigNumReceived .sleepFor (s.sleepFor .connectTest)
  | resetTest (pc : s.pc = .resetTest) : s.Moves oneShot sigNumReceived .go
      { s with pc := if sigNumReceived then .returned else .reset }
  | reset {ok : Bool} (pc : s.pc = .reset) : s.Moves oneShot sigNumReceived (.reset ok)
      { s with conn := some ok, pc := if ok then .returned else .resetSleep }
  | resetSleep (pc : s.pc = .resetSleep) :
      s.Moves oneShot sigNumReceived .sleepFor (s.sleepFor .resetTest)

theorem moves_of_step (h : s.step oneShot sigNumReceived e = some t) :
    s.Moves oneShot sigNumReceived e t := by
  unfold State.step at h
  split at h
  case h_1 hpc =>
    cases h
    exact .entry hpc
  case h_2 hpc =>
    cases h
    exact .connectTest hpc
  case h_3 hpc =>
    cases h
    exact .connect hpc
  case h_4 hpc =>
    cases h
    exact .connectSleep hpc
  case h_5 hpc =>
    cases h
    exact .resetTest hpc
  case h_6 hpc =>
    cases h
    exact .reset hpc
  case h_7 hpc =>
    cases h
    exact .resetSleep hpc
  case h_8 => cases h

/-! ## What it comes back with -/

variable {conn : Option Bool} {tr : List (Event × Bool)}

/-- The waits so far, and the next one. -/
structure State.Doubling (s : State) : Prop where
  sleeps : s.sleeps = (List.range s.sleeps.length).map (Backoff.waits maxConnectRetrySeconds)
  connectRetrySeconds :
    s.connectRetrySeconds = Backoff.waits maxConnectRetrySeconds s.sleeps.length

theorem waits_maxConnectRetrySeconds (k : Nat) : Backoff.waits maxConnectRetrySeconds k = 2 ^ min k 5 := by
  have hlog : Nat.log 2 maxConnectRetrySeconds = 5 :=
    Nat.log_eq_of_pow_le_of_lt_pow (by decide) (by decide)
  rw [Backoff.waits, hlog]

theorem doubling_sleepFor {next : Pc} (hs : s.Doubling) : (s.sleepFor next).Doubling := by
  have hlength : (s.sleepFor next).sleeps.length = s.sleeps.length + 1 := by simp [State.sleepFor]
  constructor
  · rw [hlength, List.range_succ, List.map_append, ← hs.sleeps]
    simp [State.sleepFor, hs.connectRetrySeconds]
  · rw [hlength, ← Backoff.next_waits, ← hs.connectRetrySeconds]
    rfl

theorem doubling_step (hs : s.Doubling) (h : s.step oneShot sigNumReceived e = some t) : t.Doubling := by
  cases moves_of_step h with
  | connectSleep | resetSleep => exact doubling_sleepFor hs
  | entry | connectTest | connect | resetTest | reset => exact ⟨hs.sleeps, hs.connectRetrySeconds⟩

/-- Why the function is where it is, with all that happened before. -/
structure Origin (oneShot : Bool) (conn : Option Bool) (tr : List (Event × Bool)) (s : State) : Prop where
  returned : s.pc = .returned → s.conn = some true ∨ oneShot = true ∨ (.go, true) ∈ tr
  same : (∀ a ∈ tr, a.1 = .go) → s.conn = conn
  none : s.conn = none → conn = none ∧ match s.pc with
    | .entry => tr = []
    | .connectTest => ∃ b, tr = [(.go, b)]
    | .connect => True
    | .returned => ∃ b, tr = [(.go, b), (.go, true)]
    | _ => False

theorem origin_step (hs : Origin oneShot conn tr s) (h : s.step oneShot sigNumReceived e = some t) :
    Origin oneShot conn (tr ++ [(e, sigNumReceived)]) t := by
  have hsame : (∀ a ∈ tr ++ [(e, sigNumReceived)], a.1 = .go) → s.conn = conn ∧ e = .go := fun hall =>
    ⟨hs.same fun a ha => hall a (List.mem_append_left _ ha), hall (e, sigNumReceived) (by simp)⟩
  cases moves_of_step h with
  | entry hpc =>
    refine ⟨fun hreturned => ?_, fun hall => (hsame hall).1, fun hnone => ?_⟩
    · rcases hconn : s.conn with _ | _ | _ <;> simp [hconn] at hreturned
      · exact .inr (.inl hreturned)
      · exact .inl rfl
    · have hnone : s.conn = none := hnone
      obtain ⟨hconn, htr⟩ := hs.none hnone
      rw [hpc] at htr
      rw [hnone, htr]
      exact ⟨hconn, sigNumReceived, rfl⟩
  | connectTest hpc =>
    refine ⟨fun hreturned => ?_, fun hall => (hsame hall).1, fun hnone => ?_⟩
    · cases sigNumReceived
      · cases hreturned
      · exact .inr (.inr (by simp))
    · obtain ⟨hconn, htr⟩ := hs.none hnone
      rw [hpc] at htr
      obtain ⟨b, rfl⟩ := htr
      cases sigNumReceived
      · exact ⟨hconn, trivial⟩
      · exact ⟨hconn, b, rfl⟩
  | @connect ok hpc =>
    refine ⟨fun hreturned => ?_, fun hall => ?_, nofun⟩
    · cases ok <;> cases oneShot <;> simp at hreturned ⊢
    · cases (hsame hall).2
  | resetTest hpc =>
    refine ⟨fun hreturned => ?_, fun hall => (hsame hall).1, fun hnone => ?_⟩
    · cases sigNumReceived
      · cases hreturned
      · exact .inr (.inr (by simp))
    · have htr := (hs.none hnone).2
      simp [hpc] at htr
  | @reset ok hpc =>
    refine ⟨fun hreturned => ?_, fun hall => ?_, nofun⟩
    · cases ok <;> simp at hreturned ⊢
    · cases (hsame hall).2
  | connectSleep hpc | resetSleep hpc =>
    refine ⟨nofun, fun hall => ?_, fun hnone => ?_⟩
    · cases (hsame hall).2
    · have htr := (hs.none hnone).2
      simp [hpc] at htr

/-- The function gives up only because of a signal, if it may try more than once. Without a connection
object it comes back only when the first test sees one. The waits go up to 32 seconds. -/
theorem maintained (h : Transition.Run (Step oneShot) { conn := conn } tr t) (ht : t.pc = .returned) :
    (t.conn = some true ∨ oneShot = true ∨ (.go, true) ∈ tr) ∧
    (t.conn = none ↔ conn = none ∧ ∃ b, tr = [(.go, b), (.go, true)]) ∧
    t.sleeps = (List.range t.sleeps.length).map fun k => 2 ^ min k 5 := by
  have horigin : Origin oneShot conn tr t :=
    h.invariant (I := Origin oneShot conn) ⟨nofun, fun _ => rfl, fun hnone => ⟨hnone, rfl⟩⟩
      fun _ _ _ _ hs hstep => origin_step hs hstep
  have hdoubling : t.Doubling := h.invariant_state (I := State.Doubling) ⟨rfl, by simp⟩
    fun _ _ _ hs hstep => doubling_step hs hstep
  refine ⟨horigin.returned ht, ⟨fun hnone => ?_, ?_⟩, ?_⟩
  · obtain ⟨hconn, htr⟩ := horigin.none hnone
    rw [ht] at htr
    exact ⟨hconn, htr⟩
  · rintro ⟨rfl, b, rfl⟩
    exact horigin.same (by simp)
  · conv_lhs => rw [hdoubling.sleeps]
    exact List.map_congr_left fun k _ => waits_maxConnectRetrySeconds k

/-- Two attempts fail, and the third one succeeds. -/
theorem maintained_thirdAttempt :
    ∃ t : State, t.conn = some true ∧ t.sleeps = [1, 2] ∧
      t.sleeps = (List.range 2).map fun k => 2 ^ min k 5 := by
  have hlast : ([(.go, false), (.go, false), (.connectdb false, false), (.sleepFor, false), (.go, false),
      (.connectdb false, false), (.sleepFor, false), (.go, false), (.connectdb true, false)].foldlM
        (fun s (a : Event × Bool) => State.step false a.2 s a.1) { conn := none }).any (fun t =>
        t.pc = .returned ∧ t.conn = some true ∧ t.sleeps = [1, 2]) = true := by
    decide
  obtain ⟨t, ht, ht'⟩ := (Option.any_eq_true _ _).mp hlast
  obtain ⟨hpc, hconn, hsleeps⟩ := of_decide_eq_true ht'
  have hrun : Transition.Run (Step false) _ _ t := Transition.Run.of_foldlM ht
  refine ⟨t, hconn, hsleeps, ?_⟩
  have := (maintained hrun hpc).2.2
  rwa [hsleeps] at this ⊢

end PgCmdQueue.Connection
