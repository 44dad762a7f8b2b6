import PgCmdQueue.Runner.Progress
import Mathlib.Logic.Function.Basic

/-!
# Input that is not UTF-8

The statements that select from a nix queue convert `cmd_stdin` to text, and fail when they have
chosen a row for which that cannot be done.
-/

namespace PgCmdQueue.Runner

open Cpp Postgres

/-! ## The select list -/

/-- What may follow the first byte of a character of several bytes. -/
def utf8Second (a b : Byte) : Bool :=
  match a with
  | 0xE0 => 0xA0 ≤ b && b ≤ 0xBF
  | 0xED => 0x80 ≤ b && b ≤ 0x9F
  | 0xF0 => 0x90 ≤ b && b ≤ 0xBF
  | 0xF4 => 0x80 ≤ b && b ≤ 0x8F
  | _ => 0x80 ≤ b && b ≤ 0xBF

def utf8Tail (b : Byte) : Bool := 0x80 ≤ b && b ≤ 0xBF

/-- The server takes a NUL for no character of a text. -/
def utf8Legal : Bytes → Bool
  | [] => true
  | [a] => 0 < a && a < 0x80
  | a :: b :: rest =>
    if a < 0x80 then 0 < a && utf8Legal (b :: rest)
    else if a < 0xC2 then false
    else if a < 0xE0 then utf8Second a b && utf8Legal rest
    else match rest with
      | [] => false
      | c :: rest =>
        if a < 0xF0 then utf8Second a b && utf8Tail c && utf8Legal rest
        else match rest with
          | [] => false
          | d :: rest => a < 0xF5 && utf8Second a b && utf8Tail c && utf8Tail d && utf8Legal rest

/-- `convert_from(cmd_stdin, 'UTF8')` raises no error. -/
def selectListEvaluates (cmdStdin : Option Bytes) : Bool := cmdStdin.all utf8Legal

example : utf8Legal [0x61, 0xC3, 0xA9, 0xF0, 0x9F, 0x98, 0x80] = true ∧ utf8Legal [0xC3] = false := by
  decide

theorem ne_zero_of_utf8Tail {b : Byte} (h : utf8Tail b = true) : b ≠ 0 := by
  rintro rfl
  revert h
  decide

theorem ne_zero_of_utf8Second {a b : Byte} (h : utf8Second a b = true) : b ≠ 0 := by
  rintro rfl
  revert h
  unfold utf8Second
  split <;> decide

theorem ne_zero_of_lt {a : Byte} (h : 0 < a) : a ≠ 0 := by
  rintro rfl
  exact absurd h (by decide)

theorem ne_zero_of_not_lt {a : Byte} (h : ¬a < 0x80) : a ≠ 0 := by
  rintro rfl
  exact h (by decide)

/-- A text has no NUL. -/
theorem nulFree_of_utf8Legal {x : Bytes} (h : utf8Legal x = true) : NulFree x := by
  fun_induction utf8Legal x with
  | case1 => exact List.forall_mem_nil _
  | case2 a =>
    simp only [Bool.and_eq_true, decide_eq_true_eq] at h
    exact nulFree_cons.mpr ⟨ne_zero_of_lt h.1, List.forall_mem_nil _⟩
  | case3 a b rest hlt ih =>
    simp only [Bool.and_eq_true, decide_eq_true_eq] at h
    exact nulFree_cons.mpr ⟨ne_zero_of_lt h.1, ih h.2⟩
  | case4 => cases h
  | case5 a b rest hge _ _ ih =>
    simp only [Bool.and_eq_true] at h
    rw [nulFree_cons, nulFree_cons]
    exact ⟨ne_zero_of_not_lt hge, ne_zero_of_utf8Second h.1, ih h.2⟩
  | case6 => cases h
  | case7 a b hge _ _ c rest _ ih =>
    simp only [Bool.and_eq_true] at h
    rw [nulFree_cons, nulFree_cons, nulFree_cons]
    exact ⟨ne_zero_of_not_lt hge, ne_zero_of_utf8Second h.1.1, ne_zero_of_utf8Tail h.1.2, ih h.2⟩
  | case8 => cases h
  | case9 a b hge _ _ c _ d rest ih =>
    simp only [Bool.and_eq_true] at h
    obtain ⟨⟨⟨⟨-, hb⟩, hc⟩, hd⟩, hrest⟩ := h
    rw [nulFree_cons, nulFree_cons, nulFree_cons, nulFree_cons]
    exact ⟨ne_zero_of_not_lt hge, ne_zero_of_utf8Second hb, ne_zero_of_utf8Tail hc,
      ne_zero_of_utf8Tail hd, ih hrest⟩
/-! ## Steps -/

/-- `cmdStdin` has the value of the row with the key. -/
structure NixState where
  session : State
  cmdStdin : Key → Option Bytes

inductive NixEvent where
  | insert (key : Key) (cmdQueuedSince : Int) (cmdStdin : Option Bytes)
  | select (stmt : Prepared) (locked : List Key) (found : Option Key)
  | selectFails (stmt : Prepared) (locked : List Key) (chosen : Key)
  | other (e : Event)

def NixEvent.round : NixEvent → RoundEvent
  | .insert key since _ => .other (.insert key since)
  | .select stmt locked found => .select stmt locked found
  | .selectFails _ _ _ => .other .selectFails
  | .other e => .other e

/-- A select fails as a whole if the row it has chosen raises an error, and only then. -/
def NixState.admits (cfg : Config) (n : NixState) : NixEvent → Bool
  | .insert _ _ _ => true
  | .select _ _ found => found.all fun key => selectListEvaluates (n.cmdStdin key)
  | .selectFails stmt locked chosen => n.session.prepared cfg = stmt &&
    (n.session.skipLocked locked).selectReturns cfg (some chosen) &&
      !selectListEvaluates (n.cmdStdin chosen)
  | .other (.insert _ _) => false
  | .other .selectFails => false
  | .other _ => true

def NixEvent.inserted (cmdStdin : Key → Option Bytes) : NixEvent → Key → Option Bytes
  | .insert key _ value => Function.update cmdStdin key value
  | _ => cmdStdin

def NixState.step (cfg : Config) (n : NixState) (e : NixEvent) : Option NixState :=
  if n.admits cfg e then
    (n.session.roundStep cfg e.round).map fun t =>
      { session := t, cmdStdin := e.inserted n.cmdStdin }
  else none

def NixStep (cfg : Config) (n : NixState) (e : NixEvent) (m : NixState) : Prop :=
  n.step cfg e = some m

/-- A row that `select_oldest_cmd` and `select_random_cmd` may choose. -/
def NixState.Eligible (n : NixState) (locked : List Key) (key : Key) : Prop :=
  key ∈ n.session.rows ∧ key ∉ locked ∧ key ∉ n.session.updatedCmd

/-- No row that may be chosen raises an error. -/
def NixState.Evaluates (n : NixState) : NixEvent → Prop
  | .select stmt locked _ => stmt ≠ .selectNotifyCmd →
    ∀ key, n.Eligible locked key → selectListEvaluates (n.cmdStdin key) = true
  | .selectFails stmt locked _ => stmt ≠ .selectNotifyCmd →
    ∀ key, n.Eligible locked key → selectListEvaluates (n.cmdStdin key) = true
  | _ => True

def EvaluatesStep (cfg : Config) (n : NixState) (e : NixEvent) (m : NixState) : Prop :=
  (n.Evaluates e ∧ Recorded n.session e.round) ∧ NixStep cfg n e m

def NixEvent.own (e : NixEvent) : Bool := e.round.own

def NixEvent.endsRound (e : NixEvent) : Bool := e.round.endsRound

/-- The rows that have been selected, in whichever way. -/
def selections (round : List NixEvent) : List Key := round.filterMap fun e => e.round.selected

variable {cfg : Config} {n m : NixState} {s t : State} {e : NixEvent} {key k : Key}
  {round : List NixEvent} {U : Finset Key}

theorem nixStep_iff : NixStep cfg n e m ↔ n.admits cfg e = true ∧
    RoundStep cfg n.session e.round m.session ∧ m.cmdStdin = e.inserted n.cmdStdin := by
  unfold NixStep NixState.step RoundStep
  rw [Option.ite_none_right_eq_some, Option.map_eq_some_iff]
  constructor
  · rintro ⟨hadmits, t, ht, rfl⟩
    exact ⟨hadmits, ht, rfl⟩
  · rintro ⟨hadmits, ht, hstdin⟩
    exact ⟨hadmits, m.session, ht, by rw [← hstdin]⟩

theorem selections_snoc (round : List NixEvent) (e : NixEvent) :
    selections (round ++ [e]) = selections round ++ e.round.selected.toList := by
  rw [selections, List.filterMap_append]
  cases h : e.round.selected <;> simp [selections, h]

/-- The row that is chosen is one that may be. -/
theorem eligible_of_selectReturns {stmt : Prepared} {locked : List Key}
    (hstmt : n.session.prepared cfg = stmt) (hfree : stmt ≠ .selectNotifyCmd)
    (h : (n.session.skipLocked locked).selectReturns cfg (some key) = true) :
    n.Eligible locked key := by
  have hn : n.session.notifyCmd = none := by
    rw [← Option.not_isSome_iff_eq_none, ← prepared_eq_selectNotifyCmd cfg, hstmt]
    exact hfree
  obtain ⟨⟨row, hrow⟩, -⟩ := selectReturns_some h
  rw [lookup_skipLocked] at hrow
  split at hrow
  · cases hrow
  · refine ⟨AList.lookup_isSome.mp ?_, ‹_›, selectReturns_free (s := n.session.skipLocked locked) h hn⟩
    rw [hrow]
    rfl

/-- Where no eligible row raises an error, only a statement for a notification can fail. -/
theorem notify_of_selectFails {stmt : Prepared} {locked : List Key} {chosen : Key}
    (h : EvaluatesStep cfg n (.selectFails stmt locked chosen) m) : stmt = .selectNotifyCmd := by
  obtain ⟨⟨hevaluates, -⟩, h⟩ := h
  have hadmits := (nixStep_iff.mp h).1
  simp only [NixState.admits, Bool.and_eq_true, decide_eq_true_eq, Bool.not_eq_true'] at hadmits
  obtain ⟨⟨hstmt, hchosen⟩, hraises⟩ := hadmits
  by_contra hfree
  rw [hevaluates hfree chosen (eligible_of_selectReturns hstmt hfree hchosen)] at hraises
  cases hraises

theorem notifyCmd_of_selectFails (h : EvaluatesStep cfg n e m)
    (he : e.round = .other .selectFails) : n.session.notifyCmd ≠ none := by
  cases e with
  | insert => cases he
  | select => cases he
  | selectFails stmt locked chosen =>
    have hnotify := notify_of_selectFails h
    have hadmits := (nixStep_iff.mp h.2).1
    simp only [NixState.admits, Bool.and_eq_true, decide_eq_true_eq] at hadmits
    rw [← Option.isSome_iff_ne_none, ← prepared_eq_selectNotifyCmd cfg]
    exact hadmits.1.1.trans hnotify
  | other ev =>
    cases he
    cases (nixStep_iff.mp h.2).1

/-! ## Rounds -/

theorem own_le (h : Transition.Run (EvaluatesStep cfg) n round m)
    (hround : ∀ e ∈ round, e.endsRound = false) :
    round.countP NixEvent.own ≤ n.session.potential + 9 * round.countP fun e => !e.own := by
  have hstep : ∀ n e m, e.endsRound = false ∧ EvaluatesStep cfg n e m →
      (e.own = true → m.session.potential < n.session.potential) ∧
        (e.own = false → m.session.potential ≤ n.session.potential + 9) := by
    rintro n e m ⟨hround, he⟩
    exact potential_step (nixStep_iff.mp he.2).2.1 he.1.2 hround (notifyCmd_of_selectFails he)
  have hcount := (h.restrict hround).countP_le (φ := fun n : NixState => n.session.potential)
    (fun n e m he => (hstep n e m he).1) (fun n e m he => (hstep n e m he).2)
  omega

theorem selectedSince_run (h : Transition.Run (EvaluatesStep cfg) n round m)
    (hbegin : n.session.pc = .begin) (hround : ∀ e ∈ round, e.endsRound = false) :
    m.session.SelectedSince n.session.updatedCmd (selections round) := by
  refine (h.restrict hround).invariant
    (I := fun round m => m.session.SelectedSince n.session.updatedCmd (selections round)) ?_ ?_
  · rw [State.SelectedSince, hbegin]
    exact fun k hk => .inl hk
  · intro round t e u ih he
    rw [selections_snoc]
    exact selectedSince_step ih (nixStep_iff.mp he.2.2).2.1 he.2.1.2 he.1

theorem exists_nixStep (cfg : Config) (hgone : m.session.pc ≠ .gone) :
    ∃ e u, e.own = true ∧ NixStep cfg m e u := by
  by_cases hbegin : m.session.pc = .begin
  · obtain ⟨found, hfound⟩ := exists_selectReturns cfg (m.session.skipLocked [])
    by_cases hevaluates : (found.all fun key => selectListEvaluates (m.cmdStdin key)) = true
    · refine ⟨.select (m.session.prepared cfg) [] found,
        ⟨m.session.selected cfg found, m.cmdStdin⟩, rfl, nixStep_iff.mpr ⟨hevaluates, ?_, rfl⟩⟩
      unfold RoundStep NixEvent.round State.roundStep
      exact if_pos ⟨hbegin, rfl, hfound⟩
    · rcases found with _ | key
      · exact absurd rfl hevaluates
      · refine ⟨.selectFails (m.session.prepared cfg) [] key,
          ⟨{ m.session with pc := .notifies }, m.cmdStdin⟩, rfl, nixStep_iff.mpr ⟨?_, ?_, rfl⟩⟩
        · simp only [NixState.admits, hfound, Bool.and_eq_true, decide_eq_true_eq, Bool.not_eq_true']
          exact ⟨⟨trivial, trivial⟩, Bool.eq_false_iff.mpr hevaluates⟩
        · refine roundStep_of_runnerStep rfl nofun ?_
          unfold State.runnerStep
          rw [hbegin]
  · obtain ⟨ev, hown, -, hselect, hfails, ht⟩ := exists_next cfg hbegin hgone
    obtain ⟨t, ht⟩ := Option.isSome_iff_exists.mp ht
    refine ⟨.other ev, ⟨t, m.cmdStdin⟩, hown, nixStep_iff.mpr ⟨?_, ?_, rfl⟩⟩
    · cases ev with
      | insert => cases hown
      | selectFails => exact absurd rfl hfails
      | _ => rfl
    · exact roundStep_of_runnerStep hown hselect ht

/-- In a round whose eligible rows can all be selected, none of them is left waiting: no select
fails but for a notification, the runner can always go on and comes to the end of the round after
a bounded number of steps, and each row has been selected by then unless it is locked. -/
theorem round_ends (hbegin : n.session.pc = .begin)
    (h : Transition.Run (EvaluatesStep cfg) n round m) (hround : ∀ e ∈ round, e.endsRound = false) :
    (∀ stmt locked chosen, .selectFails stmt locked chosen ∈ round → stmt = .selectNotifyCmd) ∧
    (m.session.pc ≠ .gone → ∃ e u, e.own = true ∧ NixStep cfg m e u) ∧
    round.countP NixEvent.own ≤ 5 * n.session.rows.keys.length +
      4 * (n.session.unread.length + n.session.inFlight.length) + 7 +
      9 * (round.countP fun e => !e.own) ∧
    ∀ stmt locked u, NixStep cfg m (.select stmt locked none) u → stmt ≠ .selectNotifyCmd →
      ∀ key ∈ m.session.rows, key ∉ locked → key ∉ n.session.updatedCmd → key ∈ selections round := by
  refine ⟨?_, exists_nixStep cfg, ?_, ?_⟩
  · refine h.invariant (I := fun round _ => ∀ stmt locked chosen,
      .selectFails stmt locked chosen ∈ round → stmt = .selectNotifyCmd) nofun ?_
    intro round t e u ih he stmt locked chosen hmem
    rcases List.mem_append.mp hmem with hmem | hmem
    · exact ih stmt locked chosen hmem
    · rw [List.mem_singleton] at hmem
      subst hmem
      exact notify_of_selectFails he
  · have hown := own_le h hround
    have hsize := potential_le_size n.session
    omega
  · intro stmt locked u hlast hfree key hrow hlocked hkey
    exact selected_of_none (selectedSince_run h hbegin hround) (nixStep_iff.mp hlast).2.1 hfree
      hrow hlocked hkey

/-! ## A row that raises an error -/

/-- The failure leaves nothing behind: the runner comes back to where it was. -/
theorem run_selectFails {stmt : Prepared} {locked : List Key} {chosen : Key}
    (hbegin : n.session.pc = .begin) (hnotify : n.session.notifyCmd = none)
    (hunread : n.session.unread = [])
    (hfails : n.admits cfg (.selectFails stmt locked chosen) = true) :
    Transition.Run (NixStep cfg) n
      [.selectFails stmt locked chosen, .other .notifies, .other .pollTimeout] n := by
  obtain ⟨s, cmdStdin⟩ := n
  dsimp only at hbegin hnotify hunread
  have hselect : NixStep cfg ⟨s, cmdStdin⟩ (.selectFails stmt locked chosen)
      ⟨{ s with pc := .notifies }, cmdStdin⟩ := by
    refine nixStep_iff.mpr ⟨hfails, roundStep_of_runnerStep rfl (by simp) ?_, rfl⟩
    simp [State.runnerStep, hbegin]
  have hpoll : NixStep cfg ⟨{ s with pc := .notifies }, cmdStdin⟩ (.other .notifies)
      ⟨{ s with pc := .poll s.reselectWaitTimeLeft }, cmdStdin⟩ := by
    refine nixStep_iff.mpr ⟨rfl, roundStep_of_runnerStep rfl (by simp) ?_, rfl⟩
    simp only [State.runnerStep, hunread, hnotify]
    rfl
  have htimeout : NixStep cfg ⟨{ s with pc := .poll s.reselectWaitTimeLeft }, cmdStdin⟩
      (.other .pollTimeout) ⟨s, cmdStdin⟩ := by
    refine nixStep_iff.mpr ⟨rfl, roundStep_of_runnerStep rfl (by simp) ?_, rfl⟩
    simp only [State.runnerStep, ← hbegin]
  exact Transition.Run.cons hselect (Transition.Run.cons hpoll (Transition.Run.single htimeout))

def emptyQueue : NixState := { session := { rows := ∅ }, cmdStdin := fun _ => none }

/-- The input of the older row is the byte `0xFF`. -/
def latin1First : List NixEvent := [.insert report 1 (some [0xFF]), .insert cleanup 2 (some []),
  .other (.runnerSessionStart true)]

theorem run_selectFails_latin1First : ∃ n, Transition.Run (NixStep nightly) emptyQueue latin1First n ∧
    n.Eligible [] cleanup ∧ selectListEvaluates (n.cmdStdin cleanup) = true ∧
    ∃ round, round ≠ [] ∧ (∀ e ∈ round, e.own = true ∧ e.endsRound = false) ∧
      selections round = [] ∧ Transition.Run (NixStep nightly) n round n := by
  have hlast : (latin1First.foldlM (NixState.step nightly) emptyQueue).any (fun n =>
      n.session.pc = .begin ∧ n.session.notifyCmd = none ∧ n.session.unread = [] ∧
        n.admits nightly (.selectFails .selectOldestCmd [] report) = true ∧
        cleanup ∈ n.session.rows ∧ cleanup ∉ n.session.updatedCmd ∧
        selectListEvaluates (n.cmdStdin cleanup) = true) = true := by
    decide +kernel
  obtain ⟨n, hn, hn'⟩ := (Option.any_eq_true _ _).mp hlast
  obtain ⟨hbegin, hnotify, hunread, hfails, hrow, hfree, hevaluates⟩ := of_decide_eq_true hn'
  refine ⟨n, Transition.Run.of_foldlM hn, ⟨hrow, nofun, hfree⟩, hevaluates, _, ?_, ?_, ?_,
    run_selectFails hbegin hnotify hunread hfails⟩
  · nofun
  · decide
  · rfl

def utf8Before : List NixEvent := [.insert report 1 (some [0xC3, 0xA9]), .insert cleanup 2 none,
  .other (.runnerSessionStart true)]

def utf8Round : List NixEvent := [.select .selectOldestCmd [] (some report),
  .other (.update true true), .other (.commit true), .other .notifies, .other .pollTimeout,
  .select .selectOldestCmd [] (some cleanup), .other .updateFails,
  .other (.rememberFailedUpdate true), .other .notifies, .other .pollTimeout]

def recordedEvent : NixEvent → Bool
  | .other (.update returned _) => returned
  | .other (.rememberFailedUpdate ok) => ok
  | .other (.commit ok) => ok
  | _ => true

def evaluatesNext (n : NixState) (e : NixEvent) : Option NixState :=
  if recordedEvent e && n.session.rows.keys.all fun key => selectListEvaluates (n.cmdStdin key) then
    n.step nightly e
  else none

theorem evaluatesStep_of_next (h : evaluatesNext n e = some m) : EvaluatesStep nightly n e m := by
  unfold evaluatesNext at h
  rw [Option.ite_none_right_eq_some, Bool.and_eq_true] at h
  obtain ⟨⟨hrecorded, hall⟩, h⟩ := h
  have hrows : ∀ locked key, n.Eligible locked key → selectListEvaluates (n.cmdStdin key) = true :=
    fun locked key hkey => List.all_eq_true.mp hall key (AList.mem_keys.mp hkey.1)
  refine ⟨⟨?_, ?_⟩, h⟩
  · cases e with
    | select stmt locked found => exact fun _ => hrows locked
    | selectFails stmt locked chosen => exact fun _ => hrows locked
    | _ => exact trivial
  · cases e with
    | other ev =>
      cases ev with
      | update returned kept => exact .inl hrecorded
      | rememberFailedUpdate ok => exact .inl hrecorded
      | commit ok => exact hrecorded
      | _ => exact trivial
    | _ => exact trivial

theorem round_ends_utf8 : ∃ n m, (utf8Before.foldlM (NixState.step nightly) emptyQueue = some n) ∧
    Transition.Run (EvaluatesStep nightly) n utf8Round m ∧
    (∀ stmt locked u, NixStep nightly m (.select stmt locked none) u → stmt ≠ .selectNotifyCmd →
      ∀ key ∈ m.session.rows, key ∉ locked → key ∉ n.session.updatedCmd →
        key ∈ selections utf8Round) := by
  have hlast : (utf8Before.foldlM (NixState.step nightly) emptyQueue).any (fun n =>
      n.session.pc = .begin ∧ (utf8Round.foldlM evaluatesNext n).isSome = true) = true := by
    decide +kernel
  obtain ⟨n, hn, hn'⟩ := (Option.any_eq_true _ _).mp hlast
  obtain ⟨hbegin, hsome⟩ := of_decide_eq_true hn'
  obtain ⟨m, hm⟩ := Option.isSome_iff_exists.mp hsome
  have hrun := (Transition.Run.of_foldlM hm).mono fun _ _ _ => evaluatesStep_of_next
  exact ⟨n, m, hn, hrun, (round_ends hbegin hrun (by decide)).2.2.2⟩

end PgCmdQueue.Runner
