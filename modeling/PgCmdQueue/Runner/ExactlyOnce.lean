import PgCmdQueue.Runner.Progress

/-!
# Every row exactly once in a round

Nobody else touches the queue, nobody notifies the runner, and an UPDATE that succeeds returns its
row and is committed.
-/

namespace PgCmdQueue.Runner

open Cpp Postgres

variable {cfg : Config} {s t u s₀ : State} {e : RoundEvent} {ev : Event} {stmt : Prepared}
  {locked : List Key} {found : Option Key} {key k : Key} {P : List Key} {round : List RoundEvent}

/-! ## Undisturbed rounds -/

def Undisturbed : RoundEvent → Prop
  | .select _ locked _ => locked = []
  | .other (.tick _) => True
  | .other (.receive _) => True
  | .other (.update returned _) => returned = true
  | .other .updateFails => True
  | .other (.rememberFailedUpdate ok) => ok = true
  | .other (.enterReselectRound ok) => ok = true
  | .other (.commit ok) => ok = true
  | .other .notifies => True
  | .other .pollTimeout => True
  | .other (.wake _) => True
  | .other _ => False

def UndisturbedStep (cfg : Config) (s : State) (e : RoundEvent) (t : State) : Prop :=
  Undisturbed e ∧ RoundStep cfg s e t

/-- The session has not been notified of anything. -/
structure State.Silent (s : State) : Prop where
  notifyCmd : s.notifyCmd = none
  unread : s.unread = []
  inFlight : s.inFlight = []
  connected : s.pc ≠ .connect
  fresh : ∀ key, s.pc = .running key ∨ s.pc = .rolledBack key → key ∉ s.updatedCmd

/-- The session has just begun, or `enter_reselect_round()` was just called and is not committed. -/
structure State.RoundStarts (s : State) : Prop where
  silent : s.Silent
  start : (s.pc = .begin ∧ s.updatedCmd = ∅) ∨
    (∃ tx, s.pc = .commit tx ∧ tx.updatedCmd = ∅ ∧ tx.removed = none) ∨ s.pc = .gone

/-! ## Silence -/

theorem recorded_of_undisturbed (h : Undisturbed e) : Recorded s e := by
  unfold Recorded
  split
  · exact .inl h
  · exact .inl h
  · exact h
  · trivial

theorem remembered_of_undisturbed (h : Undisturbed e) : Remembered s e := by
  unfold Remembered
  split
  · exact fun _ => h
  · exact fun _ => h
  · exact fun _ _ => h
  · trivial

theorem skipLocked_nil (s : State) : s.skipLocked [] = s := rfl

theorem silent_select (hs : s.Silent) (h : RoundStep cfg s (.select stmt [] found) t) : t.Silent := by
  obtain ⟨-, -, hfound, rfl⟩ := roundStep_select h
  rcases found with _ | key
  · rw [State.selected, hs.notifyCmd]
    refine ⟨rfl, hs.unread, hs.inFlight, by simp, fun key hkey => ?_⟩
    rcases hkey with hkey | hkey <;> cases hkey
  · refine ⟨hs.notifyCmd, hs.unread, hs.inFlight, by simp [State.selected], fun k hk => ?_⟩
    rcases hk with hk | hk <;> cases hk
    exact selectReturns_free (s := s) hfound hs.notifyCmd

theorem consumeInput_silent (hs : s.Silent) (n : Nat) :
    (s.consumeInput n).unread = [] ∧ (s.consumeInput n).inFlight = [] := by
  simp [State.consumeInput, hs.unread, hs.inFlight]

theorem silent_otherStep (hs : s.Silent) (he : Undisturbed (.other ev))
    (ht : s.otherStep cfg ev = some t) : t.Silent := by
  cases otherMoves ht with
  | tick => exact ⟨hs.notifyCmd, hs.unread, hs.inFlight, hs.connected, hs.fresh⟩
  | receive =>
    obtain ⟨hunread, hflight⟩ := consumeInput_silent hs _
    exact ⟨hs.notifyCmd, hunread, hflight, hs.connected, hs.fresh⟩
  | insert | remove | notifyOther | connectionLost | stop => exact he.elim

theorem silent_of_pc (hnotify : t.notifyCmd = none) (hunread : t.unread = [])
    (hflight : t.inFlight = []) (hconnected : t.pc ≠ .connect) (hrunning : ∀ key, t.pc ≠ .running key)
    (hrolled : ∀ key, t.pc ≠ .rolledBack key) : t.Silent := by
  refine ⟨hnotify, hunread, hflight, hconnected, fun key hkey => ?_⟩
  rcases hkey with hkey | hkey
  · exact absurd hkey (hrunning key)
  · exact absurd hkey (hrolled key)

theorem silent_runnerStep (hs : s.Silent) (he : Undisturbed (.other ev))
    (hselect : ∀ found, ev ≠ .select found) (ht : s.runnerStep cfg ev = some t) : t.Silent := by
  cases runnerMoves ht with
  | sessionStarted | sessionFailed | selectFails => exact he.elim
  | select => exact absurd rfl (hselect _)
  | updateFails hpc =>
    refine ⟨hs.notifyCmd, hs.unread, hs.inFlight, nofun, fun k hk => ?_⟩
    rcases hk with hk | hk <;> cases hk
    exact hs.fresh _ (.inl hpc)
  | notifiesRead => exact silent_of_pc rfl hs.unread hs.inFlight nofun nofun nofun
  | notified _ hunread | ignored _ hunread | notifyFailed _ hunread =>
    rw [hs.unread] at hunread
    cases hunread
  | wake =>
    obtain ⟨hunread, hflight⟩ := consumeInput_silent hs _
    exact silent_of_pc hs.notifyCmd hunread hflight nofun nofun nofun
  | update | remembered | notRemembered | roundEntered | roundFailed | committed | commitFailed
  | pollTimeout =>
    exact silent_of_pc hs.notifyCmd hs.unread hs.inFlight nofun nofun nofun

theorem silent_step (hs : s.Silent) (h : UndisturbedStep cfg s e t) : t.Silent := by
  obtain ⟨he, h⟩ := h
  cases e with
  | select stmt locked found =>
    obtain rfl : locked = [] := he
    exact silent_select hs h
  | other ev =>
    obtain ⟨hselect, ht | ht⟩ := roundStep_other h
    · exact silent_otherStep hs he ht
    · exact silent_runnerStep hs he hselect ht

/-! ## Accounts of a round -/

/-- In the round that began in `s₀`, the rows `P` were picked. -/
structure State.Accounts (cfg : Config) (s₀ : State) (P : List Key) (s : State) : Prop where
  reselectRound : s.reselectRound = s₀.reselectRound
  alive : s.pc = .gone → s₀.pc = .gone
  rows : ∀ k, k ∈ s₀.rows ↔ k ∈ s.rows ∨ k ∈ P
  since : ∀ k ∈ s.rows, s.rows.cmdQueuedSince k = s₀.rows.cmdQueuedSince k
  removed : ∀ tx key, s.pc = .commit tx → tx.removed = some key → key ∈ P
  ended : s.pc = .enterReselectRound → ∀ k ∈ s.rows, k ∈ P
  sorted : s₀.prepared cfg = .selectOldestCmd →
    P.Pairwise fun a b => s₀.rows.cmdQueuedSince a ≤ s₀.rows.cmdQueuedSince b
  left : s₀.prepared cfg = .selectOldestCmd →
    ∀ p ∈ P, ∀ k ∈ s.rows, k ∉ P → s₀.rows.cmdQueuedSince p ≤ s₀.rows.cmdQueuedSince k

theorem State.Accounts.frame (hs : s₀.Accounts cfg P s) (hrows : t.rows = s.rows)
    (hround : t.reselectRound = s.reselectRound) (halive : t.pc = .gone → s.pc = .gone)
    (hremoved : ∀ tx key, t.pc = .commit tx → tx.removed = some key → key ∈ P)
    (hended : t.pc = .enterReselectRound → s.pc = .enterReselectRound) : s₀.Accounts cfg P t where
  reselectRound := hround.trans hs.reselectRound
  alive h := hs.alive (halive h)
  rows := by
    rw [hrows]
    exact hs.rows
  since := by
    rw [hrows]
    exact hs.since
  removed := hremoved
  ended h := by
    rw [hrows]
    exact hs.ended (hended h)
  sorted := hs.sorted
  left := by
    rw [hrows]
    exact hs.left

theorem prepared_eq (hnotify : s.notifyCmd = s₀.notifyCmd)
    (hround : s.reselectRound = s₀.reselectRound) : s.prepared cfg = s₀.prepared cfg := by
  unfold State.prepared
  rw [hnotify, hround]

/-- The oldest row is chosen of those that are not excluded. -/
theorem selectReturns_oldest (h : s.selectReturns cfg (some key) = true)
    (hstmt : s.prepared cfg = .selectOldestCmd) (hrow : k ∈ s.rows) (hk : k ∉ s.updatedCmd) :
    s.rows.cmdQueuedSince key ≤ s.rows.cmdQueuedSince k := by
  obtain ⟨row', hrow'⟩ := Option.isSome_iff_exists.mp (AList.lookup_isSome.mpr hrow)
  have hmem : ⟨k, row'⟩ ∈ s.rows.entries := AList.mem_lookup_iff.mp hrow'
  obtain ⟨⟨row, hkey⟩, -⟩ := selectReturns_some h
  rw [cmdQueuedSince_of_lookup hkey, cmdQueuedSince_of_lookup hrow']
  rcases hn : s.notifyCmd with _ | n
  swap
  · simp only [State.prepared, hn] at hstmt
    cases hstmt
  have hall : (s.rows.entries.all fun e =>
      e.1 ∈ s.updatedCmd || row.cmdQueuedSince ≤ e.2.cmdQueuedSince) = true := by
    simp only [State.prepared, hn] at hstmt
    simp only [State.selectReturns, hkey, hn, Bool.and_eq_true] at h
    rcases hnth : cfg.queueReselectRandomizedEveryNth with _ | nth
    · simp only [hnth, Bool.false_or] at h
      exact h.2
    · simp only [hnth] at h hstmt
      by_cases hrandom : s.reselectRound % (nth : Nat) = 0
      · rw [if_pos hrandom] at hstmt
        cases hstmt
      · simpa [hrandom] using h.2
  have hle := List.all_eq_true.mp hall _ hmem
  rw [Bool.or_eq_true] at hle
  exact of_decide_eq_true (hle.resolve_left fun h => hk (of_decide_eq_true h))

theorem keys_markSelected (rows : QueueTable) : k ∈ rows.markSelected key ↔ k ∈ rows := by
  rw [← mem_keySet, ← mem_keySet, keySet_markSelected]

theorem cmdQueuedSince_markSelected (rows : QueueTable) :
    (rows.markSelected key).cmdQueuedSince k = rows.cmdQueuedSince k := by
  unfold QueueTable.cmdQueuedSince
  rw [lookup_markSelected]
  rcases rows.lookup k with _ | row
  · rfl
  · dsimp only [Option.map_some, Option.elim_some]
    split <;> rfl

theorem accounts_select (hs : s₀.Accounts cfg P s) (hsilent : s.Silent) (hs₀ : s₀.notifyCmd = none)
    (hexcludes : s.Excludes P) (hselected : s.SelectedSince ∅ P)
    (h : RoundStep cfg s (.select stmt [] found) t) :
    s₀.Accounts cfg (P ++ found.toList) t := by
  obtain ⟨hpc, -, hfound, rfl⟩ := roundStep_select h
  rw [skipLocked_nil] at hfound
  have hP : ∀ k ∈ s.updatedCmd, k ∈ P := fun k hk =>
    (hselected.updatedCmd hpc k hk).resolve_left (Finset.notMem_empty k)
  rcases found with _ | key
  · rw [Option.toList_none, List.append_nil, State.selected, hsilent.notifyCmd]
    have hall := (selectReturns_none hfound).2 hsilent.notifyCmd
    refine ⟨hs.reselectRound, by simp, hs.rows, hs.since, by simp, fun _ k hk => ?_, hs.sorted,
      hs.left⟩
    obtain ⟨row, hrow⟩ := Option.isSome_iff_exists.mp (AList.lookup_isSome.mpr hk)
    exact hP k (hall k row hrow)
  · obtain ⟨row, hrow⟩ := (selectReturns_some hfound).1
    have hkey : key ∈ s.rows := AList.lookup_isSome.mp (by rw [hrow]; rfl)
    have hfree : key ∉ s.updatedCmd := selectReturns_free hfound hsilent.notifyCmd
    have hprepared : s.prepared cfg = s₀.prepared cfg :=
      prepared_eq (hsilent.notifyCmd.trans hs₀.symm) hs.reselectRound
    rw [Option.toList_some]
    refine ⟨hs.reselectRound, by simp [State.selected], fun k => ?_, fun k hk => ?_,
      by simp [State.selected], by simp [State.selected], fun hstmt => ?_,
      fun hstmt p hp k hk hkP => ?_⟩
    · rw [hs.rows k, State.selected, keys_markSelected, List.mem_append, List.mem_singleton]
      constructor
      · rintro (h | h)
        · exact .inl h
        · exact .inr (.inl h)
      · rintro (h | h | rfl)
        · exact .inl h
        · exact .inr h
        · exact .inl hkey
    · rw [State.selected, keys_markSelected] at hk
      rw [State.selected, cmdQueuedSince_markSelected]
      exact hs.since k hk
    · refine List.pairwise_append.mpr ⟨hs.sorted hstmt, List.pairwise_singleton _ _, ?_⟩
      intro p hp k hk
      obtain rfl := List.mem_singleton.mp hk
      exact hs.left hstmt p hp k hkey fun hin => hfree (hexcludes.updatedCmd hpc k hin)
    · rw [State.selected, keys_markSelected] at hk
      rw [List.mem_append, not_or] at hkP
      rcases List.mem_append.mp hp with hp | hp
      · exact hs.left hstmt p hp k hk hkP.1
      · obtain rfl := List.mem_singleton.mp hp
        rw [← hs.since _ hkey, ← hs.since k hk]
        exact selectReturns_oldest hfound (hprepared.trans hstmt) hk fun hin => hkP.1 (hP k hin)

theorem accounts_commit {tx : Tx} (hs : s₀.Accounts cfg P s) (hpc : s.pc = .commit tx) :
    s₀.Accounts cfg P (s.committed tx) := by
  have hgone : ∀ k, k ∈ (s.committed tx).rows ↔ k ∈ s.rows ∧ tx.removed ≠ some k := by
    intro k
    rw [State.committed]
    cases htx : tx.removed with
    | none => simp
    | some key =>
      dsimp only
      rw [AList.mem_erase, and_comm, ne_eq, ne_eq, Option.some.injEq, eq_comm]
  have hsince : ∀ k ∈ (s.committed tx).rows,
      (s.committed tx).rows.cmdQueuedSince k = s.rows.cmdQueuedSince k := by
    intro k hk
    have hne := ((hgone k).mp hk).2
    rw [State.committed]
    cases htx : tx.removed with
    | none => rfl
    | some key =>
      have hkey : k ≠ key := by
        rintro rfl
        exact hne htx
      unfold QueueTable.cmdQueuedSince
      dsimp only
      rw [AList.lookup_erase_ne hkey]
  refine ⟨hs.reselectRound, by simp [State.committed], fun k => ?_, fun k hk => ?_,
    by simp [State.committed], by simp [State.committed], hs.sorted,
    fun hstmt p hp k hk => hs.left hstmt p hp k ((hgone k).mp hk).1⟩
  · rw [hs.rows k, hgone]
    constructor
    · rintro (h | h)
      · by_cases hk : tx.removed = some k
        · exact .inr (hs.removed tx k hpc hk)
        · exact .inl ⟨h, hk⟩
      · exact .inr h
    · rintro (h | h)
      · exact .inl h.1
      · exact .inr h
  · rw [hsince k hk]
    exact hs.since k ((hgone k).mp hk).1

theorem accounts_other (hs : s₀.Accounts cfg P s) (hsilent : s.Silent)
    (hselected : s.SelectedSince ∅ P) (h : UndisturbedStep cfg s (.other ev) t)
    (hround : RoundEvent.endsRound (.other ev) = false) : s₀.Accounts cfg P t := by
  obtain ⟨he, h⟩ := h
  obtain ⟨hselect, ht | ht⟩ := roundStep_other h
  · cases otherMoves ht with
    | tick | receive => exact hs.frame rfl rfl id hs.removed id
    | insert | remove | notifyOther | connectionLost | stop => exact he.elim
  · cases runnerMoves ht with
    | sessionStarted | sessionFailed | roundEntered | roundFailed => cases hround
    | select => exact absurd rfl (hselect _)
    | selectFails => exact he.elim
    | update hpc =>
      rw [State.SelectedSince, hpc] at hselected
      refine hs.frame rfl rfl (by simp) (fun tx k htx hk => ?_) (by simp)
      cases htx
      dsimp only at hk
      split at hk <;> cases hk
      exact hselected.1
    | committed hpc => exact accounts_commit hs hpc
    | notified _ hunread | ignored _ hunread | notifyFailed _ hunread =>
      rw [hsilent.unread] at hunread
      cases hunread
    | updateFails | remembered | notRemembered | commitFailed | notifiesRead | pollTimeout | wake =>
      exact hs.frame rfl rfl (by simp) (by simp) (by simp)

/-! ## Whole rounds -/

theorem picked_eq_selected (hs : s.Silent) (h : RoundStep cfg s e t) : e.picked = e.selected := by
  cases e with
  | other ev => rfl
  | select stmt locked found =>
    cases stmt with
    | selectNotifyCmd =>
      have hsome := (prepared_eq_selectNotifyCmd cfg).mp (roundStep_select h).2.1
      rw [hs.notifyCmd] at hsome
      cases hsome
    | _ => rfl

theorem accounts_start (cfg : Config) (hs₀ : s₀.RoundStarts) :
    s₀.SelectedSince ∅ [] ∧ s₀.Accounts cfg [] s₀ := by
  constructor
  · unfold State.SelectedSince
    rcases hs₀.start with ⟨hpc, hnone⟩ | ⟨tx, hpc, hnone, -⟩ | hpc <;> rw [hpc]
    · rw [hnone]
      exact fun k hk => absurd hk (Finset.notMem_empty k)
    · rw [← hnone]
      exact fun k hk => .inl hk
    · trivial
  · refine ⟨rfl, id, fun k => by simp, fun _ _ => rfl, fun tx key htx hkey => ?_, fun hpc => ?_,
      fun _ => List.Pairwise.nil, nofun⟩
    · rcases hs₀.start with ⟨hpc, -⟩ | ⟨tx', hpc, -, hnone⟩ | hpc <;> rw [hpc] at htx <;> cases htx
      rw [hnone] at hkey
      cases hkey
    · rcases hs₀.start with ⟨hpc', -⟩ | ⟨tx', hpc', -⟩ | hpc' <;> rw [hpc'] at hpc <;> cases hpc

/-- What holds of the rows picked so far. -/
structure State.InRound (cfg : Config) (s₀ : State) (P : List Key) (s : State) : Prop where
  silent : s.Silent
  excludes : s.Excludes P
  selected : s.SelectedSince ∅ P
  accounts : s₀.Accounts cfg P s

theorem inRound_step (hs₀ : s₀.notifyCmd = none) (hs : s₀.InRound cfg P s)
    (h : UndisturbedStep cfg s e t) (hround : e.endsRound = false) :
    s₀.InRound cfg (P ++ e.picked.toList) t where
  silent := silent_step hs.silent h
  excludes := (excludes_step hs.excludes ⟨remembered_of_undisturbed h.1, h.2⟩ hround).1
  selected := by
    rw [picked_eq_selected hs.silent h.2]
    exact selectedSince_step hs.selected h.2 (recorded_of_undisturbed h.1) hround
  accounts := by
    cases e with
    | select stmt locked found =>
      rw [picked_eq_selected hs.silent h.2]
      obtain ⟨rfl, h⟩ := h
      exact accounts_select hs.accounts hs.silent hs₀ hs.excludes hs.selected h
    | other ev =>
      rw [show (RoundEvent.other ev).picked.toList = [] from rfl, List.append_nil]
      exact accounts_other hs.accounts hs.silent hs.selected h hround

theorem inRound_run (hs₀ : s₀.RoundStarts) (h : Transition.Run (UndisturbedStep cfg) s₀ round t)
    (hround : ∀ e ∈ round, e.endsRound = false) : s₀.InRound cfg (picks round) t := by
  refine (h.restrict hround).invariant (I := fun round t => s₀.InRound cfg (picks round) t) ?_ ?_
  · obtain ⟨hselected, haccounts⟩ := accounts_start cfg hs₀
    exact ⟨hs₀.silent, excludes_of_updatedCmd nofun nofun, hselected, haccounts⟩
  · rintro round t e u ih ⟨hround, he⟩
    rw [picks_snoc]
    exact inRound_step hs₀.silent.notifyCmd ih he hround

theorem roundStep_enterReselectRound {ok : Bool}
    (h : RoundStep cfg s (.other (.enterReselectRound ok)) t) : s.pc = .enterReselectRound ∧
      ((∃ tx, t.pc = .commit tx ∧ tx.updatedCmd = ∅ ∧ tx.removed = none) ∨ t.pc = .gone) := by
  obtain ⟨-, ht | ht⟩ := roundStep_other h
  · cases ht
  cases runnerMoves ht with
  | roundEntered hpc => exact ⟨hpc, .inl ⟨_, rfl, rfl, rfl⟩⟩
  | roundFailed hpc => exact ⟨hpc, .inr rfl⟩

theorem roundStep_runnerSessionStart
    (h : RoundStep cfg s (.other (.runnerSessionStart true)) t) : t.RoundStarts := by
  obtain ⟨-, ht | ht⟩ := roundStep_other h
  · cases ht
  cases runnerMoves ht with
  | sessionStarted =>
    refine ⟨⟨rfl, rfl, rfl, nofun, fun key hkey => ?_⟩, .inl ⟨rfl, rfl⟩⟩
    rcases hkey with hkey | hkey <;> cases hkey

/-- The rows that were picked are those that were there. -/
theorem perm_of_enterReselectRound {ok : Bool} (hs₀ : s₀.RoundStarts)
    (h : Transition.Run (UndisturbedStep cfg) s₀ round t)
    (hround : ∀ e ∈ round, e.endsRound = false)
    (hlast : RoundStep cfg t (.other (.enterReselectRound ok)) u) :
    (picks round).Perm s₀.rows.keys := by
  have ht := inRound_run hs₀ h hround
  have hpc := (roundStep_enterReselectRound hlast).1
  have hnodup : (picks round).Nodup :=
    nodup_of_run (h.mono fun _ _ _ he => ⟨remembered_of_undisturbed he.1, he.2⟩) hround
  refine (List.perm_ext_iff_of_nodup hnodup s₀.rows.keys_nodup).mpr fun k => ?_
  rw [← AList.mem_keys, ht.accounts.rows k]
  constructor
  · exact .inr
  · rintro (hk | hk)
    · exact ht.accounts.ended hpc k hk
    · exact hk

theorem exists_undisturbedStep (cfg : Config) (hs : s.Silent) (hgone : s.pc ≠ .gone) :
    ∃ e t, e.own = true ∧ UndisturbedStep cfg s e t := by
  have hnext : ∀ ev, RoundEvent.own (.other ev) = true → (∀ found, ev ≠ .select found) →
      Undisturbed (.other ev) → (s.runnerStep cfg ev).isSome = true →
      ∃ e t, e.own = true ∧ UndisturbedStep cfg s e t := by
    intro ev hown hselect he ht
    obtain ⟨t, ht⟩ := Option.isSome_iff_exists.mp ht
    exact ⟨.other ev, t, hown, he, roundStep_of_runnerStep hown hselect ht⟩
  cases hpc : s.pc with
  | connect => exact absurd hpc hs.connected
  | begin =>
    obtain ⟨found, hfound⟩ := exists_selectReturns cfg s
    refine ⟨.select (s.prepared cfg) [] found, s.selected cfg found, rfl, rfl, ?_⟩
    unfold RoundStep State.roundStep
    exact if_pos ⟨hpc, rfl, hfound⟩
  | running key => exact hnext (.update true true) rfl (by simp) rfl (by simp [State.runnerStep, hpc])
  | rolledBack key =>
    have hfresh := hs.fresh key (.inr hpc)
    exact hnext (.rememberFailedUpdate true) rfl (by simp) rfl (by simp [State.runnerStep, hpc, hfresh])
  | enterReselectRound =>
    refine hnext (.enterReselectRound true) rfl (by simp) rfl ?_
    simp only [State.runnerStep, hpc]
    split <;> rfl
  | commit tx => exact hnext (.commit true) rfl (by simp) rfl (by simp [State.runnerStep, hpc])
  | notifies =>
    refine hnext .notifies rfl (by simp) trivial ?_
    simp [State.runnerStep, hpc, hs.unread]
  | poll timeoutMsec =>
    exact hnext .pollTimeout rfl (by simp) trivial (by simp [State.runnerStep, hpc])
  | gone => exact absurd hpc hgone

theorem roundStarts_of_run {tr : List RoundEvent} (hs : s.RoundStarts)
    (h : Transition.Run (UndisturbedStep cfg) s tr s₀)
    (hstart : tr = [] ∨ ∃ tr', tr = tr' ++ [.other (.enterReselectRound true)]) :
    s₀.RoundStarts := by
  rcases hstart with rfl | ⟨tr', rfl⟩
  · rw [h.of_nil]
    exact hs
  · obtain ⟨t, ht, hlast⟩ := h.of_snoc
    have hsilent : t.Silent := ht.invariant_state hs.silent fun _ _ _ => silent_step
    refine ⟨silent_step hsilent hlast, ?_⟩
    rcases (roundStep_enterReselectRound hlast.2).2 with hcommit | hgone
    · exact .inr (.inl hcommit)
    · exact .inr (.inr hgone)

theorem own_le_of_undisturbed (hs₀ : s₀.RoundStarts)
    (h : Transition.Run (UndisturbedStep cfg) s₀ round t) (hround : ∀ e ∈ round, e.endsRound = false) :
    round.countP RoundEvent.own ≤ 5 * s₀.rows.keys.length + 7 + 9 * round.countP fun e => !e.own := by
  have hstep : ∀ s e t, e.endsRound = false ∧ UndisturbedStep cfg s e t →
      (e.own = true → t.potential < s.potential) ∧
        (e.own = false → t.potential ≤ s.potential + 9) := by
    rintro s e t ⟨hround, he, h⟩
    refine potential_step h (recorded_of_undisturbed he) hround fun hfails => ?_
    rw [hfails] at he
    exact he.elim
  have hcount := (h.restrict hround).countP_le (φ := State.potential)
    (fun s e t he => (hstep s e t he).1) (fun s e t he => (hstep s e t he).2)
  have hsize := potential_le_size s₀
  rw [hs₀.silent.unread, hs₀.silent.inFlight] at hsize
  simp only [List.length_nil] at hsize
  omega

/-- The same statement selects throughout the round. -/
theorem prepared_of_mem (hs₀ : s₀.RoundStarts)
    (h : Transition.Run (UndisturbedStep cfg) s₀ round t) (hround : ∀ e ∈ round, e.endsRound = false)
    (hmem : .select stmt locked found ∈ round) : stmt = s₀.prepared cfg := by
  obtain ⟨before, after, rfl⟩ := List.append_of_mem hmem
  obtain ⟨s, hs, hafter⟩ := h.of_append
  have hin := inRound_run hs₀ hs fun e he => hround e (List.mem_append_left _ he)
  obtain ⟨v, hselect, -⟩ := hafter.of_cons
  rw [← (roundStep_select hselect.2).2.1]
  exact prepared_eq (hin.silent.notifyCmd.trans hs₀.silent.notifyCmd.symm) hin.accounts.reselectRound

/-- From the start of the session on, each round runs every row of the queue once. -/
theorem rows_once {tr : List RoundEvent} (hsession : RoundStep cfg u (.other (.runnerSessionStart true)) s)
    (hbefore : Transition.Run (UndisturbedStep cfg) s tr s₀)
    (hstart : tr = [] ∨ ∃ tr', tr = tr' ++ [.other (.enterReselectRound true)])
    (h : Transition.Run (UndisturbedStep cfg) s₀ round t)
    (hround : ∀ e ∈ round, e.endsRound = false) :
    (∀ v, RoundStep cfg t (.other (.enterReselectRound true)) v →
      (picks round).Perm s₀.rows.keys ∧
      (s₀.prepared cfg = .selectOldestCmd → (picks round).Pairwise fun a b =>
        s₀.rows.cmdQueuedSince a ≤ s₀.rows.cmdQueuedSince b)) ∧
    (∀ stmt locked found, .select stmt locked found ∈ round → stmt = s₀.prepared cfg) ∧
    (s₀.pc ≠ .gone → ∃ e v, e.own = true ∧ UndisturbedStep cfg t e v) ∧
    round.countP RoundEvent.own ≤
      5 * s₀.rows.keys.length + 7 + 9 * round.countP fun e => !e.own := by
  have hs₀ := roundStarts_of_run (roundStep_runnerSessionStart hsession) hbefore hstart
  have ht := inRound_run hs₀ h hround
  refine ⟨fun v hlast => ⟨perm_of_enterReselectRound hs₀ h hround hlast, ht.accounts.sorted⟩,
    fun stmt locked found => prepared_of_mem hs₀ h hround, fun hgone => ?_,
    own_le_of_undisturbed hs₀ h hround⟩
  exact exists_undisturbedStep cfg ht.silent fun hgone' => hgone (ht.accounts.alive hgone')

/-- The UPDATE of the first row deletes it, and that of the second one fails. -/
def oneRound : List RoundEvent := [.select .selectOldestCmd [] (some report),
  .other (.update true false), .other (.commit true), .other .notifies, .other .pollTimeout,
  .select .selectOldestCmd [] (some cleanup), .other .updateFails,
  .other (.rememberFailedUpdate true), .other .notifies, .other .pollTimeout,
  .select .selectOldestCmd [] none]

theorem undisturbed_oneRound : ∀ e ∈ oneRound, Undisturbed e := by
  simp [oneRound, Undisturbed]

theorem rows_once_oneRound : ∃ s t v, Transition.Run (UndisturbedStep nightly) s oneRound t ∧
    RoundStep nightly t (.other (.enterReselectRound true)) v ∧
    s.rows.keys = [cleanup, report] ∧ (picks oneRound).Perm s.rows.keys := by
  have hlast : ([.other (.insert report 1), .other (.insert cleanup 2)].foldlM
      (State.roundStep nightly) { rows := ∅ }).any (fun u =>
        (u.roundStep nightly (.other (.runnerSessionStart true))).any fun s =>
          s.rows.keys = [cleanup, report] ∧
          (oneRound.foldlM (State.roundStep nightly) s).any fun t =>
            (t.roundStep nightly (.other (.enterReselectRound true))).isSome) = true := by
    decide +kernel
  obtain ⟨u, -, hu⟩ := (Option.any_eq_true _ _).mp hlast
  obtain ⟨s, hs, hs'⟩ := (Option.any_eq_true _ _).mp hu
  obtain ⟨hkeys, ht⟩ := of_decide_eq_true hs'
  obtain ⟨t, ht, ht'⟩ := (Option.any_eq_true _ _).mp ht
  obtain ⟨v, hv⟩ := Option.isSome_iff_exists.mp ht'
  have hrun : Transition.Run (UndisturbedStep nightly) s oneRound t :=
    (Transition.Run.of_foldlM ht).restrict undisturbed_oneRound
  exact ⟨s, t, v, hrun, hv, hkeys,
    ((rows_once hs .nil (.inl rfl) hrun (by decide)).1 v hv).1⟩

end PgCmdQueue.Runner
