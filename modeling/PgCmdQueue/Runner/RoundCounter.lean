import PgCmdQueue.Runner.Session

/-!
# The range of the round counter

The setting is a `bigint` that wraps around, and the runner keeps what is returned in an `int`.
-/

namespace PgCmdQueue.Runner

def bigintMax : Nat := 9223372036854775807

/-- One call of `enter_reselect_round()`, after `rounds` committed rounds of the session.
`reselectRound` is what the runner has made of the returned text. -/
structure RoundCall where
  rounds : Nat
  setting : Nat
  newSetting : Nat
  returned : Nat
  reselectRound : Option Nat
  deriving DecidableEq

/-- Nothing overflows, and the conversion is exact. -/
structure RoundCall.Fits (call : RoundCall) : Prop where
  setting : call.setting ≤ bigintMax
  newSetting : call.newSetting ≤ bigintMax
  reselectRound : call.reselectRound = some call.returned

/-- `rounds` has the rounds that the session has committed, and `entered` tells of one that it has
not. -/
structure Numbered where
  runner : State
  rounds : Nat := 0
  entered : Bool := false
  calls : List RoundCall := []

def Numbered.after (s : Numbered) (t : State) : Event → Numbered
  | .runnerSessionStart _ => { s with runner := t, rounds := 0, entered := false }
  | .enterReselectRound true =>
    let (setting, returned) := enterReselectRound s.runner.roundSetting
    { s with
      runner := t
      entered := t.pc ≠ .gone
      calls := s.calls ++ [⟨s.rounds, s.runner.roundSetting, setting, returned,
        if t.pc = .gone then none else some t.reselectRound⟩] }
  | .commit ok =>
    { s with runner := t, rounds := if ok && s.entered then s.rounds + 1 else s.rounds, entered := false }
  | _ => { s with runner := t }

def Numbered.next (cfg : Config) (s : Numbered) (e : Event) : Option Numbered :=
  (s.runner.step cfg e).map fun t => s.after t e

def NumberedStep (cfg : Config) (s : Numbered) (e : Event) (t : Numbered) : Prop :=
  s.next cfg e = some t

variable {cfg : Config} {s t : State} {e : Event} {x y : Numbered} {tr : List Event} {n : Nat}

/-! ## The setting alone -/

/-- The setting never leaves the range of a `bigint`, also not when it wraps around. -/
theorem enterReselectRound_le (h : n ≤ bigintMax) :
    (enterReselectRound n).1 ≤ bigintMax ∧ (enterReselectRound n).2 < bigintMax := by
  unfold enterReselectRound bigintMax at *
  by_cases hmax : n = 9223372036854775807
  · simp [hmax]
  · simp only [hmax, if_false]
    omega

/-- However many rounds a session goes through. -/
theorem iterate_enterReselectRound_le (n : Nat) :
    (fun setting => (enterReselectRound setting).1)^[n] 0 ≤ bigintMax := by
  induction n with
  | zero => exact Nat.zero_le _
  | succ n ih =>
    rw [Function.iterate_succ_apply']
    exact (enterReselectRound_le ih).1

theorem enterReselectRound_eq (h : n < bigintMax) : enterReselectRound n = (n + 1, n) := by
  unfold enterReselectRound
  rw [if_neg (by unfold bigintMax at h; omega)]

/-! ## The calls of a run -/

/-- The setting is the number of rounds that the session has committed, until a conversion fails. -/
structure Numbered.Inv (x : Numbered) : Prop where
  setting : x.runner.pc.listening = true → x.runner.roundSetting = x.rounds ∧ x.rounds ≤ 2147483648
  commit : ∀ tx, x.runner.pc = .commit tx →
    tx.roundSetting = (if x.entered then x.rounds + 1 else x.rounds) ∧ tx.roundSetting ≤ 2147483648
  entered : x.runner.pc.listening = true → (∀ tx, x.runner.pc ≠ .commit tx) → x.entered = false
  calls : ∀ call ∈ x.calls, call.rounds ≤ 2147483648 ∧ call.setting = call.rounds ∧
    call.newSetting = call.rounds + 1 ∧ call.returned = call.rounds ∧
    call.reselectRound = stoi call.rounds

theorem fits_iff_of_inv (h : x.Inv) {call : RoundCall} (hcall : call ∈ x.calls) :
    call.Fits ↔ call.rounds < 2147483648 := by
  obtain ⟨hle, hsetting, hnew, hreturned, hround⟩ := h.calls call hcall
  constructor
  · intro hfits
    have := hfits.reselectRound
    rw [hround] at this
    unfold stoi at this
    split at this
    · omega
    · cases this
  · intro hlt
    refine ⟨?_, ?_, ?_⟩
    · unfold bigintMax
      omega
    · unfold bigintMax
      omega
    · rw [hround, hreturned]
      unfold stoi
      rw [if_pos (by omega)]

theorem Numbered.inv_init {rows : QueueTable} : ({ runner := { rows := rows } } : Numbered).Inv :=
  ⟨nofun, nofun, nofun, nofun⟩

theorem Numbered.inv_keep (hx : x.Inv) (hpc : t.pc = x.runner.pc)
    (hsetting : t.roundSetting = x.runner.roundSetting) : ({ x with runner := t } : Numbered).Inv := by
  obtain ⟨h1, h2, h3, h4⟩ := hx
  refine ⟨?_, ?_, ?_, h4⟩
  · simpa only [hpc, hsetting] using h1
  · simpa only [hpc] using h2
  · simpa only [hpc] using h3

theorem Numbered.inv_leave (hx : x.Inv) (hpc : t.pc.listening = false) :
    ({ x with runner := t } : Numbered).Inv := by
  refine ⟨fun h => ?_, fun tx htx => ?_, fun h => ?_, hx.calls⟩
  · rw [hpc] at h
    cases h
  · rw [htx] at hpc
    cases hpc
  · rw [hpc] at h
    cases h

/-- A transaction that opens or goes on with the setting that the session has. -/
theorem Numbered.inv_move (hx : x.Inv) (hlistening : x.runner.pc.listening = true)
    (hnot : ∀ tx, x.runner.pc ≠ .commit tx) (hsetting : t.roundSetting = x.runner.roundSetting)
    (hcommit : ∀ tx, t.pc = .commit tx → tx.roundSetting = x.runner.roundSetting) :
    ({ x with runner := t } : Numbered).Inv := by
  have hentered := hx.entered hlistening hnot
  obtain ⟨hrounds, hle⟩ := hx.setting hlistening
  refine ⟨fun _ => ⟨hsetting.trans hrounds, hle⟩, fun tx htx => ?_, fun _ _ => hentered, hx.calls⟩
  simp only [hentered, Bool.false_eq_true, if_false]
  rw [hcommit tx htx, hrounds]
  exact ⟨rfl, hle⟩

theorem inv_sessionStarted (hx : x.Inv) (hpc : t.pc = .begin) (hsetting : t.roundSetting = 0) :
    (x.after t (.runnerSessionStart true)).Inv := by
  refine ⟨fun _ => ⟨hsetting, by simp [Numbered.after]⟩, fun tx htx => ?_, fun _ _ => rfl, hx.calls⟩
  have htx : t.pc = .commit tx := htx
  rw [hpc] at htx
  cases htx

theorem Numbered.inv_committed {tx : Tx} {ok : Bool} (hx : x.Inv) (hpc : x.runner.pc = .commit tx)
    (ht : t.pc = .notifies)
    (hsetting : t.roundSetting = if ok then tx.roundSetting else x.runner.roundSetting) :
    (x.after t (.commit ok)).Inv := by
  obtain ⟨hrounds, hle⟩ := hx.setting (by rw [hpc]; rfl)
  obtain ⟨htx, htxle⟩ := hx.commit tx hpc
  refine ⟨fun _ => ?_, fun tx htx => ?_, fun _ _ => rfl, hx.calls⟩
  · show t.roundSetting = (if ok && x.entered then x.rounds + 1 else x.rounds) ∧
      (if ok && x.entered then x.rounds + 1 else x.rounds) ≤ 2147483648
    cases ok
    · exact ⟨hsetting.trans hrounds, hle⟩
    · rw [Bool.true_and, ← htx]
      exact ⟨hsetting, htxle⟩
  · have htx : t.pc = .commit tx := htx
    rw [ht] at htx
    cases htx

/-- One call more. The round that it enters is the next one, unless the runner ends there. -/
theorem Numbered.inv_entered (hx : x.Inv) (hpc : x.runner.pc = .enterReselectRound)
    (h : x.runner.runnerStep cfg (.enterReselectRound true) = some t) :
    (x.after t (.enterReselectRound true)).Inv := by
  obtain ⟨hrounds, hle⟩ := hx.setting (by rw [hpc]; rfl)
  have hcall : enterReselectRound x.runner.roundSetting = (x.rounds + 1, x.rounds) := by
    rw [hrounds]
    exact enterReselectRound_eq (by unfold bigintMax; omega)
  unfold State.runnerStep at h
  simp only [hpc, hcall, if_true] at h
  have hcalls : ∀ reselectRound, reselectRound = stoi x.rounds →
      ∀ call ∈ x.calls ++ [⟨x.rounds, x.runner.roundSetting, x.rounds + 1, x.rounds, reselectRound⟩],
        call.rounds ≤ 2147483648 ∧ call.setting = call.rounds ∧ call.newSetting = call.rounds + 1 ∧
          call.returned = call.rounds ∧ call.reselectRound = stoi call.rounds := by
    intro reselectRound hround call hmem
    rcases List.mem_append.mp hmem with hmem | hmem
    · exact hx.calls call hmem
    · rw [List.mem_singleton] at hmem
      subst hmem
      exact ⟨hle, hrounds, rfl, rfl, hround⟩
  unfold Numbered.after
  rw [hcall]
  cases hstoi : stoi x.rounds with
  | none =>
    rw [hstoi] at h
    cases h
    exact ⟨nofun, nofun, nofun, hcalls _ hstoi.symm⟩
  | some round =>
    rw [hstoi] at h
    cases h
    have hlt : x.rounds ≤ 2147483647 := by
      unfold stoi at hstoi
      split at hstoi
      · assumption
      · cases hstoi
    refine ⟨fun _ => ⟨hrounds, hle⟩, fun tx htx => ?_, fun _ hne => absurd rfl (hne _), hcalls _ hstoi.symm⟩
    cases htx
    exact ⟨rfl, by simp only []; omega⟩

theorem Numbered.inv_step (hx : x.Inv) (h : NumberedStep cfg x e y) : y.Inv := by
  obtain ⟨t, ht, rfl⟩ := Option.map_eq_some_iff.mp h
  unfold State.step at ht
  rcases Option.or_eq_some_iff.mp ht with ht | ⟨-, ht⟩
  · cases otherMoves ht with
    | connectionLost | stop => exact Numbered.inv_leave hx rfl
    | _ => exact Numbered.inv_keep hx rfl rfl
  · have hmoves := runnerMoves ht
    cases hmoves with
    | sessionStarted => exact inv_sessionStarted hx rfl rfl
    | sessionFailed => exact ⟨nofun, nofun, nofun, hx.calls⟩
    | @roundFailed ok hpc =>
      cases ok with
      | true => exact Numbered.inv_entered hx hpc ht
      | false => exact Numbered.inv_leave hx rfl
    | roundEntered hpc => exact Numbered.inv_entered hx hpc ht
    | committed hpc => exact Numbered.inv_committed hx hpc rfl rfl
    | commitFailed hpc => exact Numbered.inv_committed hx hpc rfl rfl
    | notifyFailed => exact Numbered.inv_leave hx rfl
    | @select found hpc =>
      have hsame : (x.runner.selected cfg found).roundSetting = x.runner.roundSetting ∧
          ∀ tx, (x.runner.selected cfg found).pc = .commit tx →
            tx.roundSetting = x.runner.roundSetting := by
        unfold State.selected State.tx
        cases found with
        | some key => exact ⟨rfl, nofun⟩
        | none =>
          dsimp only
          split
          · refine ⟨rfl, fun tx htx => ?_⟩
            cases htx
            rfl
          · exact ⟨rfl, nofun⟩
      exact Numbered.inv_move hx (by rw [hpc]; rfl) (by rw [hpc]; nofun) hsame.1 hsame.2
    | update hpc =>
      refine Numbered.inv_move hx (by rw [hpc]; rfl) (by rw [hpc]; nofun) rfl fun tx htx => ?_
      cases htx
      rfl
    | selectFails hpc | updateFails hpc | remembered hpc | notRemembered hpc | notifiesRead hpc
    | notified hpc | ignored hpc | pollTimeout hpc | wake hpc =>
      refine Numbered.inv_move hx (by rw [hpc]; rfl) (by rw [hpc]; nofun) rfl ?_
      simp [hpc]

/-- A call fits just in case its session has committed fewer than `2 ^ 31` rounds before it. The
setting could go on, but `std::stoi` does not. -/
theorem roundsFit_iff {rows : QueueTable}
    (h : Transition.Run (NumberedStep cfg) { runner := { rows := rows } } tr x) :
    (∀ call ∈ x.calls, call.Fits) ↔ ∀ call ∈ x.calls, call.rounds < 2147483648 := by
  have hx : x.Inv := h.invariant_state Numbered.inv_init fun _ _ _ => Numbered.inv_step
  constructor
  · intro hfits call hcall
    exact (fits_iff_of_inv hx hcall).mp (hfits call hcall)
  · intro hlt call hcall
    exact (fits_iff_of_inv hx hcall).mpr (hlt call hcall)

/-! ## A session that goes on for long -/

def idleQueue : Config where
  asserts := true
  reserved := fun _ => false
  nspname := ascii "cmdq"
  relname := ascii "nightly_cmd"
  queueReselectIntervalMsec := 0
  queueReselectRandomizedEveryNth := none

/-- A round in which no command is found. -/
def idleRound : List Event := [.select none, .enterReselectRound true, .commit true, .notifies, .pollTimeout]

/-- An empty queue, with `n` rounds behind it. -/
structure Idle (pc : Pc) (n : Nat) (x : Numbered) : Prop where
  rows : x.runner.rows = ∅
  pc : x.runner.pc = pc
  notifyCmd : x.runner.notifyCmd = none
  unread : x.runner.unread = []
  rounds : x.rounds = n
  setting : x.runner.roundSetting = n

theorem numberedStep_of (h : s.step cfg e = some t) (hs : x.runner = s) :
    NumberedStep cfg x e (x.after t e) := by
  unfold NumberedStep Numbered.next
  rw [hs, h]
  rfl

theorem idle_start : ∃ x, Transition.Run (NumberedStep idleQueue) { runner := { rows := ∅ } }
    [.runnerSessionStart true] x ∧ Idle .begin 0 x :=
  ⟨_, .single rfl, rfl, rfl, rfl, rfl, rfl, rfl⟩

/-- The runner finds nothing. -/
theorem idle_select (hx : Idle .begin n x) :
    ∃ y, NumberedStep idleQueue x (.select none) y ∧ Idle .enterReselectRound n y := by
  have hreturns : x.runner.selectReturns idleQueue none = true := by
    simp [State.selectReturns, hx.notifyCmd, hx.rows]
  refine ⟨_, numberedStep_of (t := x.runner.selected idleQueue none) ?_ rfl, ?_⟩
  · simp [State.step, State.otherStep, State.runnerStep, hx.pc, hreturns]
  · have hselected : x.runner.selected idleQueue none = { x.runner with
        reselectNextWhen := x.runner.now + 1000000 * idleQueue.queueReselectIntervalMsec
        pc := .enterReselectRound } := by
      simp [State.selected, hx.notifyCmd]
    rw [hselected]
    exact ⟨hx.rows, rfl, hx.notifyCmd, hx.unread, hx.rounds, hx.setting⟩

theorem idle_enter (hx : Idle .enterReselectRound n x) (hn : n < 2147483648) :
    ∃ y, NumberedStep idleQueue x (.enterReselectRound true) y ∧ y.entered = true ∧
      Idle (.commit { updatedCmd := ∅, roundSetting := n + 1 }) n y := by
  have hcall : enterReselectRound n = (n + 1, n) :=
    enterReselectRound_eq (by unfold bigintMax; omega)
  have hstoi : stoi n = some n := if_pos (by omega)
  refine ⟨_, numberedStep_of (t := { x.runner with
    reselectRound := n, pc := .commit { updatedCmd := ∅, roundSetting := n + 1 } }) ?_ rfl, rfl, ?_⟩
  · simp [State.step, State.otherStep, State.runnerStep, hx.pc, hx.setting, hcall, hstoi]
  · exact ⟨hx.rows, rfl, hx.notifyCmd, hx.unread, hx.rounds, hx.setting⟩

theorem idle_commit (hx : Idle (.commit { updatedCmd := ∅, roundSetting := n + 1 }) n x)
    (hentered : x.entered = true) :
    ∃ y, NumberedStep idleQueue x (.commit true) y ∧ Idle .notifies (n + 1) y := by
  refine ⟨_, numberedStep_of
    (t := x.runner.committed { updatedCmd := ∅, roundSetting := n + 1 }) ?_ rfl, ?_⟩
  · simp [State.step, State.otherStep, State.runnerStep, hx.pc]
  · refine ⟨hx.rows, rfl, hx.notifyCmd, hx.unread, ?_, rfl⟩
    simp [Numbered.after, hentered, hx.rounds]

theorem idle_round (hx : Idle .begin n x) (hn : n < 2147483648) :
    ∃ y, Transition.Run (NumberedStep idleQueue) x idleRound y ∧ Idle .begin (n + 1) y := by
  obtain ⟨x₁, hselect, hx₁⟩ := idle_select hx
  obtain ⟨x₂, henter, hentered, hx₂⟩ := idle_enter hx₁ hn
  obtain ⟨x₃, hcommit, hx₃⟩ := idle_commit hx₂ hentered
  have hnotifies : x₃.runner.step idleQueue .notifies =
      some { x₃.runner with notifyCmd := none, pc := .poll x₃.runner.reselectWaitTimeLeft } := by
    simp [State.step, State.otherStep, State.runnerStep, hx₃.pc, hx₃.unread]
  refine ⟨_, .cons hselect (.cons henter (.cons hcommit (.cons (numberedStep_of hnotifies rfl)
    (.single (numberedStep_of rfl rfl))))), ?_⟩
  exact ⟨hx₃.rows, rfl, rfl, hx₃.unread, hx₃.rounds, hx₃.setting⟩

theorem idle_rounds (n : Nat) (hn : n ≤ 2147483648) :
    ∃ tr x, Transition.Run (NumberedStep idleQueue) { runner := { rows := ∅ } } tr x ∧
      Idle .begin n x := by
  induction n with
  | zero =>
    obtain ⟨x, hrun, hx⟩ := idle_start
    exact ⟨_, x, hrun, hx⟩
  | succ n ih =>
    obtain ⟨tr, x, hrun, hx⟩ := ih (by omega)
    obtain ⟨y, hround, hy⟩ := idle_round hx (by omega)
    exact ⟨_, y, hrun.append hround, hy⟩

/-- A session that ends its first round. -/
theorem roundsFit_first : ∃ tr x, Transition.Run (NumberedStep idleQueue) { runner := { rows := ∅ } } tr x ∧
    x.calls = [⟨0, 0, 1, 0, some 0⟩] ∧ ∀ call ∈ x.calls, call.Fits := by
  have hlast : ((([.runnerSessionStart true, .select none, .enterReselectRound true] :
      List Event).foldlM (Numbered.next idleQueue) { runner := { rows := ∅ } }).any
        (fun x => x.calls = [⟨0, 0, 1, 0, some 0⟩])) = true := by
    decide +kernel
  obtain ⟨x, hx, hcalls⟩ := (Option.any_eq_true _ _).mp hlast
  have hcalls := of_decide_eq_true hcalls
  have hrun := Transition.Run.of_foldlM hx
  refine ⟨_, x, hrun, hcalls, (roundsFit_iff hrun).mpr ?_⟩
  simp [hcalls]

/-- An empty queue ends the daemon when its session has gone through `2 ^ 31` rounds. -/
theorem not_roundsFit_idle : ¬∀ tr x,
    Transition.Run (NumberedStep idleQueue) { runner := { rows := ∅ } } tr x → ∀ call ∈ x.calls, call.Fits := by
  intro h
  obtain ⟨tr, x, hrun, hx⟩ := idle_rounds 2147483648 le_rfl
  obtain ⟨y, hselect, hy⟩ := idle_select hx
  have hstoi : stoi 2147483648 = none := by decide
  have henter : y.runner.step idleQueue (.enterReselectRound true) =
      some { y.runner with pc := .gone } := by
    simp [State.step, State.otherStep, State.runnerStep, hy.pc, hy.setting, enterReselectRound, hstoi]
  have hfits := h _ _ ((hrun.snoc hselect).snoc (numberedStep_of henter rfl)) _
    (List.mem_append_right _ (List.mem_singleton_self _))
  exact nomatch hfits.reselectRound

end PgCmdQueue.Runner
