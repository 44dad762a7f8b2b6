import PgCmdQueue.Runner.NoLost

/-!
# Reselect rounds

A round begins with the session, or where `enter_reselect_round()` truncates `updated_cmd`. The
table has rows that other sessions have locked.
-/

namespace PgCmdQueue.Runner

open Cpp Postgres

/-! ## Steps -/

/-- What `prepare_to_select_cmd_from_queue` prepares. -/
inductive Prepared where
  | selectOldestCmd
  | selectRandomCmd
  | selectNotifyCmd
  deriving DecidableEq

def State.prepared (cfg : Config) (s : State) : Prepared :=
  match s.notifyCmd with
  | some _ => .selectNotifyCmd
  | none =>
    match cfg.queueReselectRandomizedEveryNth with
    | some nth => if s.reselectRound % (nth : Nat) = 0 then .selectRandomCmd else .selectOldestCmd
    | none => .selectOldestCmd

/-- What `SKIP LOCKED` leaves to select from. -/
def State.skipLocked (s : State) (locked : List Key) : State :=
  { s with rows := locked.foldl (fun rows key => rows.erase key) s.rows }

inductive RoundEvent where
  | select (stmt : Prepared) (locked : List Key) (found : Option Key)
  | other (e : Event)

def State.roundStep (cfg : Config) (s : State) : RoundEvent → Option State
  | .select stmt locked found =>
    if s.pc = .begin ∧ s.prepared cfg = stmt ∧
        (s.skipLocked locked).selectReturns cfg found = true then
      some (s.selected cfg found)
    else none
  | .other (.select _) => none
  | .other e => s.step cfg e

def RoundStep (cfg : Config) (s : State) (e : RoundEvent) (t : State) : Prop :=
  s.roundStep cfg e = some t

/-- A round ends here, and another may begin. -/
def RoundEvent.endsRound : RoundEvent → Bool
  | .other (.runnerSessionStart _) => true
  | .other (.enterReselectRound _) => true
  | _ => false

/-- The row that `select_oldest_cmd` or `select_random_cmd` has returned. -/
def RoundEvent.picked : RoundEvent → Option Key
  | .select .selectNotifyCmd _ _ => none
  | .select _ _ found => found
  | .other _ => none

def picks (round : List RoundEvent) : List Key := round.filterMap RoundEvent.picked

variable {cfg : Config} {s t u : State} {e : RoundEvent} {ev : Event} {stmt : Prepared}
  {locked : List Key} {found : Option Key} {key k : Key} {row : Row} {P : List Key}

theorem roundStep_select (h : RoundStep cfg s (.select stmt locked found) t) :
    s.pc = .begin ∧ s.prepared cfg = stmt ∧
      (s.skipLocked locked).selectReturns cfg found = true ∧ t = s.selected cfg found := by
  unfold RoundStep State.roundStep at h
  dsimp only at h
  split at h
  · rename_i hcan
    cases h
    exact ⟨hcan.1, hcan.2.1, hcan.2.2, rfl⟩
  · cases h

theorem roundStep_other (h : RoundStep cfg s (.other ev) t) :
    (∀ found, ev ≠ .select found) ∧
      (s.otherStep cfg ev = some t ∨ s.runnerStep cfg ev = some t) := by
  unfold RoundStep State.roundStep at h
  cases ev with
  | select found => cases h
  | _ =>
    refine ⟨nofun, ?_⟩
    exact (Option.or_eq_some_iff.mp h).imp_right And.right

/-- Nobody else interferes with what the session remembers. -/
theorem otherStep_cases (ht : s.otherStep cfg ev = some t) :
    (t.pc = s.pc ∧ t.updatedCmd = s.updatedCmd ∧ t.notifyCmd = s.notifyCmd) ∨
      t.pc = .connect ∨ t.pc = .gone := by
  cases otherMoves ht with
  | insert => exact .inl ⟨rfl, rfl, rfl⟩
  | remove => exact .inl ⟨rfl, rfl, rfl⟩
  | notifyOther => exact .inl ⟨rfl, rfl, rfl⟩
  | tick => exact .inl ⟨rfl, rfl, rfl⟩
  | receive => exact .inl ⟨rfl, rfl, rfl⟩
  | connectionLost => exact .inr (.inl rfl)
  | stop => exact .inr (.inr rfl)

theorem prepared_eq_selectNotifyCmd (cfg : Config) : s.prepared cfg = .selectNotifyCmd ↔ s.notifyCmd.isSome := by
  unfold State.prepared
  cases s.notifyCmd with
  | some n => simp
  | none =>
    dsimp only
    split
    · split <;> simp
    · simp

theorem lookup_skipLocked (s : State) (locked : List Key) (k : Key) :
    (s.skipLocked locked).rows.lookup k = if k ∈ locked then none else s.rows.lookup k := by
  unfold State.skipLocked
  dsimp only
  generalize s.rows = rows
  induction locked generalizing rows with
  | nil => simp
  | cons key locked ih =>
    rw [List.foldl_cons, ih]
    by_cases hk : k = key
    · subst hk
      have hgone : (rows.erase k).lookup k = none := AList.lookup_erase k rows
      simp [hgone]
    · simp [hk, AList.lookup_erase_ne]

/-- A free choice leaves out what is in `updated_cmd`. -/
theorem selectReturns_free (h : s.selectReturns cfg (some key) = true) (hn : s.notifyCmd = none) :
    key ∉ s.updatedCmd := by
  unfold State.selectReturns at h
  rcases hrow : s.rows.lookup key with _ | row
  · simp [hrow] at h
  · simp only [hrow, hn, Bool.and_eq_true] at h
    exact of_decide_eq_true h.1

/-! ## At most once in a round -/

/-- What was picked will stand in `updated_cmd`: its UPDATE returns it and is committed, or fails
and is remembered. -/
def Remembered (s : State) : RoundEvent → Prop
  | .other (.update returned _) => s.notifyCmd = none → returned = true
  | .other (.rememberFailedUpdate ok) => s.notifyCmd = none → ok = true
  | .other (.commit ok) => s.notifyCmd = none → s.pc.locked.isSome = true → ok = true
  | _ => True

def RememberedStep (cfg : Config) (s : State) (e : RoundEvent) (t : State) : Prop :=
  Remembered s e ∧ RoundStep cfg s e t

/-- What was picked is excluded by now, or will be when the iteration is over. -/
def State.Excludes (s : State) (P : List Key) : Prop :=
  match s.pc with
  | .running key => ∀ k ∈ P, k ∈ s.updatedCmd ∨ (s.notifyCmd = none ∧ k = key)
  | .rolledBack key => ∀ k ∈ P, k ∈ s.updatedCmd ∨ (s.notifyCmd = none ∧ k = key)
  | .commit tx => ∀ k ∈ P, k ∈ tx.updatedCmd ∧
    (k ∈ s.updatedCmd ∨ (s.notifyCmd = none ∧ tx.locked.isSome = true))
  | .connect => True
  | .enterReselectRound => True
  | .gone => True
  | _ => ∀ k ∈ P, k ∈ s.updatedCmd

theorem State.Excludes.updatedCmd (hs : s.Excludes P) (hpc : s.pc = .begin) :
    ∀ k ∈ P, k ∈ s.updatedCmd := by
  rw [State.Excludes, hpc] at hs
  exact hs

theorem excludes_of_updatedCmd (h : ∀ k ∈ P, k ∈ t.updatedCmd)
    (hpc : ∀ tx, t.pc = .commit tx → ∀ k ∈ P, k ∈ tx.updatedCmd) : t.Excludes P := by
  unfold State.Excludes
  split
  · exact fun k hk => .inl (h k hk)
  · exact fun k hk => .inl (h k hk)
  · exact fun k hk => ⟨hpc _ ‹_› k hk, .inl (h k hk)⟩
  · trivial
  · trivial
  · trivial
  · exact h

theorem excludes_otherStep (hs : s.Excludes P) (ht : s.otherStep cfg ev = some t) :
    t.Excludes P := by
  unfold State.Excludes at hs ⊢
  rcases otherStep_cases ht with ⟨hpc, hupdated, hnotify⟩ | hpc | hpc
  · rw [hpc, hupdated, hnotify]
    exact hs
  · rw [hpc]
    trivial
  · rw [hpc]
    trivial

theorem excludes_runnerStep (hs : s.Excludes P) (he : Remembered s (.other ev))
    (hround : RoundEvent.endsRound (.other ev) = false) (hselect : ∀ found, ev ≠ .select found)
    (ht : s.runnerStep cfg ev = some t) : t.Excludes P := by
  unfold State.Excludes at hs
  cases runnerMoves ht with
  | sessionStarted | sessionFailed | roundEntered | roundFailed => cases hround
  | select => exact absurd rfl (hselect _)
  | @update key returned kept hpc =>
    rw [hpc] at hs
    intro k hk
    dsimp only at hs ⊢
    rcases hs k hk with hin | ⟨hn, rfl⟩
    · refine ⟨?_, .inl hin⟩
      split
      · exact Finset.mem_insert_of_mem hin
      · exact hin
    · have hreturned : returned = true := he hn
      rw [hreturned]
      exact ⟨Finset.mem_insert_self _ _, .inr ⟨hn, rfl⟩⟩
  | remembered hpc =>
    rw [hpc] at hs
    intro k hk
    rcases hs k hk with hin | ⟨-, rfl⟩
    · exact Finset.mem_insert_of_mem hin
    · exact Finset.mem_insert_self _ _
  | notRemembered hpc =>
    rw [hpc] at hs
    intro k hk
    rcases hs k hk with hin | ⟨hn, -⟩
    · exact hin
    · cases he hn
  | committed hpc =>
    rw [hpc] at hs
    exact fun k hk => (hs k hk).1
  | commitFailed hpc =>
    rw [hpc] at hs
    intro k hk
    rcases (hs k hk).2 with hin | ⟨hn, hlocked⟩
    · exact hin
    · cases he hn (by rw [hpc]; exact hlocked)
  | ignored hpc =>
    rw [hpc] at hs
    exact excludes_of_updatedCmd hs fun tx htx => absurd (hpc.symm.trans htx) nofun
  | notifyFailed => trivial
  | selectFails hpc | updateFails hpc | notifiesRead hpc | notified hpc | pollTimeout hpc | wake hpc =>
    rw [hpc] at hs
    exact hs

theorem excludes_select (hs : s.Excludes P)
    (h : RoundStep cfg s (.select stmt locked found) t) :
    t.Excludes (P ++ (RoundEvent.select stmt locked found).picked.toList) ∧
      ∀ key, (RoundEvent.select stmt locked found).picked = some key → key ∉ P := by
  obtain ⟨hpc, hstmt, hfound, rfl⟩ := roundStep_select h
  have hP := hs.updatedCmd hpc
  rcases hn : s.notifyCmd with _ | n
  · have hne : stmt ≠ .selectNotifyCmd := by
      intro hsame
      have hsome := (prepared_eq_selectNotifyCmd cfg).mp (hstmt.trans hsame)
      rw [hn] at hsome
      cases hsome
    have hpicked : (RoundEvent.select stmt locked found).picked = found := by
      cases stmt with
      | selectNotifyCmd => exact absurd rfl hne
      | _ => rfl
    rw [hpicked]
    rcases found with _ | key
    · refine ⟨?_, nofun⟩
      rw [State.selected, hn]
      exact trivial
    · have hfree : key ∉ s.updatedCmd := selectReturns_free (s := s.skipLocked locked) hfound hn
      refine ⟨fun k hk => ?_, ?_⟩
      · rcases List.mem_append.mp hk with hk | hk
        · exact .inl (hP k hk)
        · exact .inr ⟨hn, by simpa using hk⟩
      · rintro k hk hmem
        cases hk
        exact hfree (hP _ hmem)
  · have hnotify : stmt = .selectNotifyCmd :=
      hstmt.symm.trans ((prepared_eq_selectNotifyCmd cfg).mpr (by rw [hn]; rfl))
    rw [hnotify]
    refine ⟨?_, nofun⟩
    rw [show (RoundEvent.select .selectNotifyCmd locked found).picked.toList = [] from rfl,
      List.append_nil]
    rcases found with _ | key
    · rw [State.selected, hn]
      exact excludes_of_updatedCmd hP fun tx htx => by cases htx; exact hP
    · exact excludes_of_updatedCmd hP nofun

theorem excludes_step (hs : s.Excludes P) (h : RememberedStep cfg s e t)
    (hround : e.endsRound = false) :
    t.Excludes (P ++ e.picked.toList) ∧ ∀ key, e.picked = some key → key ∉ P := by
  obtain ⟨he, h⟩ := h
  cases e with
  | select stmt locked found => exact excludes_select hs h
  | other ev =>
    refine ⟨?_, nofun⟩
    rw [show (RoundEvent.other ev).picked.toList = [] from rfl, List.append_nil]
    obtain ⟨hselect, ht | ht⟩ := roundStep_other h
    · exact excludes_otherStep hs ht
    · exact excludes_runnerStep hs he hround hselect ht

theorem picks_snoc (round : List RoundEvent) (e : RoundEvent) :
    picks (round ++ [e]) = picks round ++ e.picked.toList := by
  rw [picks, List.filterMap_append]
  cases h : e.picked <;> simp [picks, h]

theorem nodup_of_run {round : List RoundEvent} (h : Transition.Run (RememberedStep cfg) s round t)
    (hround : ∀ e ∈ round, e.endsRound = false) : (picks round).Nodup := by
  suffices hkept : (picks round).Nodup ∧ t.Excludes (picks round) from hkept.1
  refine (h.restrict hround).invariant
    (I := fun round t => (picks round).Nodup ∧ t.Excludes (picks round)) ⟨List.nodup_nil, ?_⟩ ?_
  · exact excludes_of_updatedCmd nofun nofun
  · rintro round t e u ⟨hnodup, hexcludes⟩ ⟨hround, he⟩
    obtain ⟨hexcludes, hfresh⟩ := excludes_step hexcludes he hround
    rw [picks_snoc]
    refine ⟨List.nodup_append.mpr ⟨hnodup, ?_, ?_⟩, hexcludes⟩
    · cases e.picked <;> simp
    · rintro a ha b hb rfl
      exact hfresh a (by simpa using hb) ha

/-- No row is picked twice in a round. -/
theorem picks_nodup {rows : QueueTable} {tr round : List RoundEvent}
    (h : Transition.Run (RememberedStep cfg) { rows := rows } (tr ++ round) s)
    (hround : ∀ e ∈ round, e.endsRound = false) : (picks round).Nodup := by
  obtain ⟨u, -, h⟩ := h.of_append
  exact nodup_of_run h hround

/-! ## An UPDATE that a trigger suppresses -/

def cleanup : Key := (ascii "cleanup", some (ascii "tmp"))

def beforeRound : List RoundEvent := [.other (.insert report 1), .other (.insert cleanup 2),
  .other (.runnerSessionStart true)]

/-- The first row is updated, and the UPDATE of the second one raises an error. -/
def remembered : List RoundEvent := [.select .selectOldestCmd [] (some report),
  .other (.update true true), .other (.commit true), .other .notifies, .other .pollTimeout,
  .select .selectOldestCmd [] (some cleanup), .other .updateFails,
  .other (.rememberFailedUpdate true), .other .notifies, .other .pollTimeout]

/-- A trigger returns NULL before the UPDATE of the row. -/
def suppressed : List RoundEvent := [.select .selectOldestCmd [] (some report),
  .other (.update false true), .other (.commit true), .other .notifies, .other .pollTimeout,
  .select .selectOldestCmd [] (some report)]

def rememberedNext (s : State) (e : RoundEvent) : Option State :=
  match e with
  | .other (.update returned kept) =>
    if returned then s.roundStep nightly (.other (.update returned kept)) else none
  | .other (.rememberFailedUpdate ok) =>
    if ok then s.roundStep nightly (.other (.rememberFailedUpdate ok)) else none
  | .other (.commit ok) => if ok then s.roundStep nightly (.other (.commit ok)) else none
  | e => s.roundStep nightly e

theorem rememberedStep_of_next (h : rememberedNext s e = some t) : RememberedStep nightly s e t := by
  unfold rememberedNext at h
  split at h
  · rw [Option.ite_none_right_eq_some] at h
    exact ⟨fun _ => h.1, h.2⟩
  · rw [Option.ite_none_right_eq_some] at h
    exact ⟨fun _ => h.1, h.2⟩
  · rw [Option.ite_none_right_eq_some] at h
    exact ⟨fun _ _ => h.1, h.2⟩
  · rename_i hupdate hremember hcommit
    refine ⟨?_, h⟩
    unfold Remembered
    split
    · exact (hupdate _ _ rfl).elim
    · exact (hremember _ rfl).elim
    · exact (hcommit _ rfl).elim
    · trivial

theorem picks_nodup_remembered : ∃ s, Transition.Run (RememberedStep nightly) { rows := ∅ }
    (beforeRound ++ remembered) s ∧ picks remembered = [report, cleanup] ∧
      (picks remembered).Nodup := by
  have hlast : ((beforeRound ++ remembered).foldlM rememberedNext { rows := ∅ }).isSome = true := by
    decide +kernel
  obtain ⟨s, hs⟩ := Option.isSome_iff_exists.mp hlast
  have hrun := (Transition.Run.of_foldlM hs).mono fun _ _ _ => rememberedStep_of_next
  exact ⟨s, hrun, rfl, picks_nodup hrun (by decide)⟩

theorem not_nodup_suppressed : ∃ s, Transition.Run (RoundStep nightly) { rows := ∅ }
    (beforeRound ++ suppressed) s ∧ (∀ e ∈ suppressed, e.endsRound = false) ∧
      ¬(picks suppressed).Nodup := by
  have hlast : ((beforeRound ++ suppressed).foldlM (State.roundStep nightly) { rows := ∅ }).isSome =
      true := by
    decide +kernel
  obtain ⟨s, hs⟩ := Option.isSome_iff_exists.mp hlast
  exact ⟨s, Transition.Run.of_foldlM hs, by decide, by decide⟩

end PgCmdQueue.Runner
