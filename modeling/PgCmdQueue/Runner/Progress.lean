import PgCmdQueue.Runner.Rounds
import Mathlib.Data.Finset.Card
import Mathlib.Data.Finset.Max
import Mathlib.Data.Finset.SDiff

/-!
# A round does not go on for ever

As long as the UPDATE of each command is recorded, or removes its row, the runner comes to the end
of a round after a number of steps that the table and the notifications bound.
-/

namespace PgCmdQueue.Runner

open Cpp Postgres

variable {cfg : Config} {s t u : State} {e : RoundEvent} {ev : Event} {stmt : Prepared}
  {locked : List Key} {found : Option Key} {key k : Key}

/-! ## The potential -/

/-- A step of the runner itself. -/
def RoundEvent.own : RoundEvent → Bool
  | .select _ _ _ => true
  | .other (.insert _ _) => false
  | .other (.remove _) => false
  | .other (.notifyOther _) => false
  | .other (.tick _) => false
  | .other (.receive _) => false
  | .other .connectionLost => false
  | .other .stop => false
  | .other (.wake _) => false
  | .other _ => true

def QueueTable.keySet (rows : QueueTable) : Finset Key := rows.keys.toFinset

/-- The rows that may still be picked in the round. -/
def State.toDo (s : State) : Finset Key :=
  match s.pc with
  | .running key => (s.rows.keySet \ s.updatedCmd).erase key
  | .rolledBack key => (s.rows.keySet \ s.updatedCmd).erase key
  | .commit tx => (s.rows.keySet \ tx.updatedCmd) \ tx.removed.elim ∅ singleton
  | .connect => ∅
  | .enterReselectRound => ∅
  | .gone => ∅
  | _ => s.rows.keySet \ s.updatedCmd

def State.weight (s : State) : Nat :=
  match s.pc with
  | .begin => if s.notifyCmd.isSome then 6 else 1
  | .running _ => 5
  | .rolledBack _ => 4
  | .commit _ => 4
  | .notifies => 3
  | .poll _ => if s.notifyCmd.isSome then 7 else 2
  | .connect => 0
  | .enterReselectRound => 0
  | .gone => 0

def State.potential (s : State) : Nat :=
  5 * s.toDo.card + 4 * (s.unread.length + s.inFlight.length) + s.weight

/-- The UPDATE returns its row or removes it and is committed, or it fails and `updated_cmd` has
the row then. -/
def Recorded (s : State) : RoundEvent → Prop
  | .other (.update returned kept) => returned = true ∨ kept = false
  | .other (.rememberFailedUpdate ok) => ok = true ∨ ∃ key ∈ s.updatedCmd, s.pc = .rolledBack key
  | .other (.commit ok) => ok = true
  | _ => True

theorem mem_keySet {rows : QueueTable} : k ∈ rows.keySet ↔ k ∈ rows := by
  rw [QueueTable.keySet, List.mem_toFinset, AList.mem_keys]

theorem keySet_markSelected (rows : QueueTable) (key : Key) :
    (rows.markSelected key).keySet = rows.keySet := by
  ext k
  rw [mem_keySet, mem_keySet, ← AList.lookup_isSome, ← AList.lookup_isSome,
    lookup_markSelected, Option.isSome_map]

/-! ## What the steps do to it -/

theorem potential_lt_select (h : RoundStep cfg s (.select stmt locked found) t) :
    t.potential < s.potential := by
  obtain ⟨hpc, -, hfound, rfl⟩ := roundStep_select h
  rcases hn : s.notifyCmd with _ | n
  · rcases found with _ | key
    · rw [State.selected, hn]
      simp only [State.potential, State.toDo, State.weight, hpc, hn, Option.isSome_none,
        Bool.false_eq_true, if_false, Finset.card_empty]
      omega
    · have hkey : key ∈ s.rows.keySet \ s.updatedCmd := by
        obtain ⟨⟨row, hrow⟩, -⟩ := selectReturns_some hfound
        rw [lookup_skipLocked] at hrow
        split at hrow
        · cases hrow
        · rw [Finset.mem_sdiff, mem_keySet, ← AList.lookup_isSome, hrow]
          exact ⟨rfl, selectReturns_free (s := s.skipLocked locked) hfound hn⟩
      have hcard := Finset.card_erase_lt_of_mem hkey
      simp only [State.selected, State.potential, State.toDo, State.weight, hpc, hn,
        keySet_markSelected, Option.isSome_none, Bool.false_eq_true, if_false]
      omega
  · rcases found with _ | key
    · rw [State.selected, hn]
      simp [State.potential, State.toDo, State.weight, State.tx, hpc, hn]
    · have hcard := Finset.card_erase_le (a := key) (s := s.rows.keySet \ s.updatedCmd)
      simp only [State.selected, State.potential, State.toDo, State.weight, hpc, hn,
        keySet_markSelected, Option.isSome_some, if_true]
      omega

theorem toDo_subset {X : Finset Key} (hpc : t.pc = s.pc) (hupdated : t.updatedCmd = s.updatedCmd)
    (hrows : t.rows.keySet ⊆ s.rows.keySet ∪ X) : t.toDo ⊆ s.toDo ∪ X := by
  unfold State.toDo
  rw [hpc, hupdated]
  intro k hk
  have hmem : k ∈ t.rows.keySet → k ∈ s.rows.keySet ∨ k ∈ X := fun h => by simpa using hrows h
  split at hk
  case h_4 | h_5 | h_6 => exact absurd hk (Finset.notMem_empty k)
  all_goals
    simp only [Finset.mem_erase, Finset.mem_sdiff, Finset.mem_union] at hk ⊢
    tauto

theorem weight_eq (hpc : t.pc = s.pc) (hnotify : t.notifyCmd = s.notifyCmd) :
    t.weight = s.weight := by
  unfold State.weight
  rw [hpc, hnotify]

/-- A row and a notification more. -/
theorem potential_le {X : Finset Key} (hpc : t.pc = s.pc) (hupdated : t.updatedCmd = s.updatedCmd)
    (hnotify : t.notifyCmd = s.notifyCmd) (hrows : t.rows.keySet ⊆ s.rows.keySet ∪ X)
    (hX : X.card ≤ 1)
    (hsent : t.unread.length + t.inFlight.length ≤ s.unread.length + s.inFlight.length + 1) :
    t.potential ≤ s.potential + 9 := by
  have hcard := (Finset.card_le_card (toDo_subset hpc hupdated hrows)).trans
    (Finset.card_union_le s.toDo X)
  have hweight := weight_eq hpc hnotify
  unfold State.potential
  omega

theorem length_consumeInput (s : State) (n : Nat) :
    (s.consumeInput n).unread.length + (s.consumeInput n).inFlight.length =
      s.unread.length + s.inFlight.length := by
  rw [← List.length_append, ← List.length_append, consumeInput_pending]

theorem length_send (s : State) (extra : Bytes) :
    (s.send extra).unread.length + (s.send extra).inFlight.length ≤
      s.unread.length + s.inFlight.length + 1 := by
  unfold State.send
  dsimp only
  split
  · simp [Nat.add_assoc]
  · simp

theorem potential_otherStep (ht : s.otherStep cfg ev = some t) :
    t.potential ≤ s.potential + 9 := by
  cases otherMoves ht with
  | @insert key =>
    refine potential_le (X := {key}) rfl rfl rfl (fun k hk => ?_) (by simp) (length_send s _)
    rw [mem_keySet] at hk
    rw [Finset.mem_union, Finset.mem_singleton, mem_keySet]
    exact ((AList.mem_insert _).mp hk).symm
  | remove =>
    refine potential_le (X := ∅) rfl rfl rfl (fun k hk => ?_) (by simp) (Nat.le_succ _)
    rw [mem_keySet] at hk
    rw [Finset.union_empty, mem_keySet]
    exact (AList.mem_erase.mp hk).2
  | notifyOther =>
    exact potential_le (X := ∅) rfl rfl rfl Finset.subset_union_left (by simp) (length_send s _)
  | tick => exact potential_le (X := ∅) rfl rfl rfl Finset.subset_union_left (by simp) (Nat.le_succ _)
  | @receive n =>
    exact potential_le (X := ∅) rfl rfl rfl Finset.subset_union_left (by simp)
      ((length_consumeInput s n).le.trans (Nat.le_succ _))
  | connectionLost => simp [State.potential, State.toDo, State.weight]
  | stop =>
    simp only [State.potential, State.toDo, State.weight, Finset.card_empty]
    omega

theorem potential_wake {n : Nat} {timeoutMsec : Int} (hpc : s.pc = .poll timeoutMsec) :
    State.potential { s.consumeInput n with pc := .notifies } ≤ s.potential + 9 := by
  have hlength := length_consumeInput s n
  have hsame : (s.consumeInput n).rows = s.rows ∧ (s.consumeInput n).updatedCmd = s.updatedCmd :=
    ⟨rfl, rfl⟩
  simp only [State.potential, State.toDo, State.weight, hpc, hsame.1, hsame.2]
  omega

/-- The row that was running is excluded or removed when the transaction is over. -/
theorem potential_lt_update {tx : Tx} (hpc : s.pc = .running key)
    (hdone : key ∈ tx.updatedCmd ∨ tx.removed = some key) (hkept : s.updatedCmd ⊆ tx.updatedCmd) :
    State.potential { s with pc := .commit tx } < s.potential := by
  have hsub : (s.rows.keySet \ tx.updatedCmd) \ tx.removed.elim ∅ singleton ⊆
      (s.rows.keySet \ s.updatedCmd).erase key := by
    intro k hk
    simp only [Finset.mem_sdiff] at hk
    refine Finset.mem_erase.mpr ⟨?_, Finset.mem_sdiff.mpr ⟨hk.1.1, fun h => hk.1.2 (hkept h)⟩⟩
    rintro rfl
    rcases hdone with hin | hremoved
    · exact hk.1.2 hin
    · refine hk.2 ?_
      rw [hremoved]
      exact Finset.mem_singleton_self _
  have hcard := Finset.card_le_card hsub
  simp only [State.potential, State.toDo, State.weight, hpc]
  omega

theorem potential_lt_remembered (hpc : s.pc = .rolledBack key) :
    State.potential { s with updatedCmd := insert key s.updatedCmd, pc := .notifies } < s.potential := by
  have hsame : s.rows.keySet \ insert key s.updatedCmd =
      (s.rows.keySet \ s.updatedCmd).erase key := by
    ext k
    simp only [Finset.mem_sdiff, Finset.mem_insert, Finset.mem_erase]
    tauto
  simp [State.potential, State.toDo, State.weight, hpc, hsame]

theorem potential_lt_notRemembered (hpc : s.pc = .rolledBack key) (hin : key ∈ s.updatedCmd) :
    State.potential { s with pc := .notifies } < s.potential := by
  have hsame : (s.rows.keySet \ s.updatedCmd).erase key = s.rows.keySet \ s.updatedCmd :=
    Finset.erase_eq_of_notMem fun hmem => (Finset.mem_sdiff.mp hmem).2 hin
  simp [State.potential, State.toDo, State.weight, hpc, hsame]

theorem potential_lt_committed {tx : Tx} (hpc : s.pc = .commit tx) :
    (s.committed tx).potential < s.potential := by
  have hsub : (s.committed tx).rows.keySet \ tx.updatedCmd ⊆
      (s.rows.keySet \ tx.updatedCmd) \ tx.removed.elim ∅ singleton := by
    intro k hk
    rw [Finset.mem_sdiff, mem_keySet, State.committed] at hk
    rw [Finset.mem_sdiff, Finset.mem_sdiff, mem_keySet]
    cases hremoved : tx.removed with
    | none =>
      rw [hremoved] at hk
      exact ⟨hk, by simp⟩
    | some key =>
      rw [hremoved] at hk
      obtain ⟨hne, hmem⟩ := AList.mem_erase.mp hk.1
      exact ⟨⟨hmem, hk.2⟩, by simpa using hne⟩
  have hcard := Finset.card_le_card hsub
  have hsame : (s.committed tx).unread = s.unread ∧ (s.committed tx).inFlight = s.inFlight ∧
      (s.committed tx).updatedCmd = tx.updatedCmd ∧ (s.committed tx).pc = .notifies :=
    ⟨rfl, rfl, rfl, rfl⟩
  simp only [State.potential, State.toDo, State.weight, hpc, hsame]
  omega

theorem potential_lt_runnerStep (hrec : Recorded s (.other ev))
    (hround : RoundEvent.endsRound (.other ev) = false) (hown : RoundEvent.own (.other ev) = true)
    (hselect : ∀ found, ev ≠ .select found) (hfails : ev = .selectFails → s.notifyCmd ≠ none)
    (ht : s.runnerStep cfg ev = some t) : t.potential < s.potential := by
  cases runnerMoves ht with
  | sessionStarted | sessionFailed | roundEntered | roundFailed => cases hround
  | select => exact absurd rfl (hselect _)
  | wake => cases hown
  | selectFails hpc =>
    have hsome : s.notifyCmd.isSome = true := by
      rw [Option.isSome_iff_ne_none]
      exact hfails rfl
    simp [State.potential, State.toDo, State.weight, hpc, hsome]
  | update hpc =>
    refine potential_lt_update hpc (hrec.imp ?_ ?_) ?_
    · rintro rfl
      exact Finset.mem_insert_self _ _
    · rintro rfl
      rfl
    · dsimp only
      split
      · exact Finset.subset_insert _ _
      · exact Finset.Subset.refl _
  | updateFails hpc => simp [State.potential, State.toDo, State.weight, hpc]
  | remembered hpc => exact potential_lt_remembered hpc
  | notRemembered hpc =>
    obtain ⟨key', hin, hkey'⟩ := hrec.resolve_left nofun
    cases hpc.symm.trans hkey'
    exact potential_lt_notRemembered hpc hin
  | committed hpc => exact potential_lt_committed hpc
  | commitFailed => cases hrec
  | notifiesRead hpc hunread => simp [State.potential, State.toDo, State.weight, hpc, hunread]
  | notified hpc hunread =>
    simp only [State.potential, State.toDo, State.weight, hpc, hunread, List.length_cons,
      Option.isSome_some, if_true]
    omega
  | ignored hpc hunread =>
    simp only [State.potential, State.toDo, State.weight, hpc, hunread, List.length_cons]
    omega
  | notifyFailed hpc hunread =>
    simp only [State.potential, State.toDo, State.weight, hpc, hunread, List.length_cons,
      Finset.card_empty]
    omega
  | pollTimeout hpc =>
    simp only [State.potential, State.toDo, State.weight, hpc]
    split <;> omega

theorem roundStep_of_runnerStep (hown : RoundEvent.own (.other ev) = true)
    (hselect : ∀ found, ev ≠ .select found) (ht : s.runnerStep cfg ev = some t) :
    RoundStep cfg s (.other ev) t := by
  have hother : s.otherStep cfg ev = none := by
    cases ev with
    | insert | remove | notifyOther | tick | receive | connectionLost | stop => cases hown
    | _ => rfl
  have hstep : s.roundStep cfg (.other ev) = s.step cfg ev := by
    cases ev with
    | select found => exact absurd rfl (hselect found)
    | _ => rfl
  rw [RoundStep, hstep, State.step, hother, Option.none_or]
  exact ht

theorem potential_step (h : RoundStep cfg s e t) (hrec : Recorded s e) (hround : e.endsRound = false)
    (hfails : e = .other .selectFails → s.notifyCmd ≠ none) :
    (e.own = true → t.potential < s.potential) ∧
      (e.own = false → t.potential ≤ s.potential + 9) := by
  cases e with
  | select stmt locked found => exact ⟨fun _ => potential_lt_select h, nofun⟩
  | other ev =>
    obtain ⟨hselect, ht | ht⟩ := roundStep_other h
    · refine ⟨fun hown => ?_, fun _ => potential_otherStep ht⟩
      cases ev with
      | insert | remove | notifyOther | tick | receive | connectionLost | stop => cases hown
      | _ => cases ht
    · refine ⟨fun hown => ?_, fun hother => ?_⟩
      · exact potential_lt_runnerStep hrec hround hown hselect (fun h => hfails (h ▸ rfl)) ht
      · cases runnerMoves ht with
        | wake hpc => exact potential_wake hpc
        | _ => cases hother

/-- What a round may take, before other sessions do anything more. -/
theorem potential_le_size (s : State) :
    s.potential ≤ 5 * s.rows.keys.length + 4 * (s.unread.length + s.inFlight.length) + 7 := by
  have hkeys : s.rows.keySet.card ≤ s.rows.keys.length := List.toFinset_card_le _
  have htoDo : s.toDo ⊆ s.rows.keySet := by
    unfold State.toDo
    intro k hk
    split at hk
    case h_4 | h_5 | h_6 => exact absurd hk (Finset.notMem_empty k)
    all_goals
      simp only [Finset.mem_erase, Finset.mem_sdiff] at hk
      tauto
  have hcard := Finset.card_le_card htoDo
  have hweight : s.weight ≤ 7 := by
    unfold State.weight
    split
    case h_1 | h_6 => split <;> decide
    all_goals decide
  unfold State.potential
  omega

/-! ## What is excluded was selected -/

/-- The row that has been selected, in whichever way. -/
def RoundEvent.selected : RoundEvent → Option Key
  | .select _ _ found => found
  | .other _ => none

/-- `updated_cmd` has only keys of `U` and of `S`, the rows selected since, or will have when the
transaction is over. -/
def State.SelectedSince (U : Finset Key) (S : List Key) (s : State) : Prop :=
  match s.pc with
  | .running key => key ∈ S ∧ ∀ k ∈ s.updatedCmd, k ∈ U ∨ k ∈ S
  | .rolledBack key => key ∈ S ∧ ∀ k ∈ s.updatedCmd, k ∈ U ∨ k ∈ S
  | .commit tx => ∀ k ∈ tx.updatedCmd, k ∈ U ∨ k ∈ S
  | .connect => True
  | .gone => True
  | _ => ∀ k ∈ s.updatedCmd, k ∈ U ∨ k ∈ S

variable {U : Finset Key} {S : List Key}

theorem State.SelectedSince.updatedCmd (hs : s.SelectedSince U S) (hpc : s.pc = .begin) :
    ∀ k ∈ s.updatedCmd, k ∈ U ∨ k ∈ S := by
  rw [State.SelectedSince, hpc] at hs
  exact hs

theorem selectedSince_select (hs : s.SelectedSince U S)
    (h : RoundStep cfg s (.select stmt locked found) t) :
    t.SelectedSince U (S ++ found.toList) := by
  obtain ⟨hpc, -, hfound, rfl⟩ := roundStep_select h
  have hupdated := hs.updatedCmd hpc
  rcases found with _ | key
  · rw [Option.toList_none, List.append_nil]
    rw [State.selected]
    split
    · exact hupdated
    · exact hupdated
  · refine ⟨List.mem_append_right _ (List.mem_singleton.mpr rfl), fun k hk => ?_⟩
    rcases hupdated k hk with hin | hin
    · exact .inl hin
    · exact .inr (List.mem_append_left _ hin)

theorem selectedSince_otherStep (hs : s.SelectedSince U S) (ht : s.otherStep cfg ev = some t) :
    t.SelectedSince U S := by
  unfold State.SelectedSince at hs ⊢
  rcases otherStep_cases ht with ⟨hpc, hupdated, -⟩ | hpc | hpc
  · rw [hpc, hupdated]
    exact hs
  · rw [hpc]
    trivial
  · rw [hpc]
    trivial

theorem selectedSince_runnerStep (hs : s.SelectedSince U S) (hrec : Recorded s (.other ev))
    (hround : RoundEvent.endsRound (.other ev) = false) (hselect : ∀ found, ev ≠ .select found)
    (ht : s.runnerStep cfg ev = some t) : t.SelectedSince U S := by
  unfold State.SelectedSince at hs
  cases runnerMoves ht with
  | sessionStarted | sessionFailed | roundEntered | roundFailed => cases hround
  | select => exact absurd rfl (hselect _)
  | update hpc =>
    rw [hpc] at hs
    obtain ⟨hkey, hupdated⟩ := hs
    intro k hk
    dsimp only at hk
    split at hk
    · rcases Finset.mem_insert.mp hk with rfl | hk
      · exact .inr hkey
      · exact hupdated k hk
    · exact hupdated k hk
  | remembered hpc =>
    rw [hpc] at hs
    obtain ⟨hkey, hupdated⟩ := hs
    intro k hk
    rcases Finset.mem_insert.mp hk with rfl | hk
    · exact .inr hkey
    · exact hupdated k hk
  | notRemembered hpc =>
    rw [hpc] at hs
    exact hs.2
  | commitFailed => cases hrec
  | ignored hpc =>
    rw [hpc] at hs
    unfold State.SelectedSince
    dsimp only
    rw [hpc]
    exact hs
  | notifyFailed => trivial
  | selectFails hpc | updateFails hpc | committed hpc | notifiesRead hpc | notified hpc
  | pollTimeout hpc | wake hpc =>
    rw [hpc] at hs
    exact hs

theorem selectedSince_step (hs : s.SelectedSince U S) (h : RoundStep cfg s e t)
    (hrec : Recorded s e) (hround : e.endsRound = false) :
    t.SelectedSince U (S ++ e.selected.toList) := by
  cases e with
  | select stmt locked found => exact selectedSince_select hs h
  | other ev =>
    rw [show (RoundEvent.other ev).selected.toList = [] from rfl, List.append_nil]
    obtain ⟨hselect, ht | ht⟩ := roundStep_other h
    · exact selectedSince_otherStep hs ht
    · exact selectedSince_runnerStep hs hrec hround hselect ht

/-- When no row is left to be picked, the others were selected or are locked. -/
theorem selected_of_none (hs : s.SelectedSince U S)
    (h : RoundStep cfg s (.select stmt locked none) t) (hstmt : stmt ≠ .selectNotifyCmd)
    (hrow : key ∈ s.rows) (hlocked : key ∉ locked) (hkey : key ∉ U) : key ∈ S := by
  obtain ⟨hpc, hprepared, hnone, -⟩ := roundStep_select h
  have hn : s.notifyCmd = none := by
    rw [← Option.not_isSome_iff_eq_none, ← prepared_eq_selectNotifyCmd cfg, hprepared]
    exact hstmt
  obtain ⟨row, hrow⟩ := Option.isSome_iff_exists.mp (AList.lookup_isSome.mpr hrow)
  have hleft : (s.skipLocked locked).rows.lookup key = some row := by
    rw [lookup_skipLocked, if_neg hlocked, hrow]
  have hupdated : key ∈ s.updatedCmd := (selectReturns_none hnone).2 hn key row hleft
  exact (hs.updatedCmd hpc key hupdated).resolve_left hkey

/-! ## A next step -/

def QueueTable.cmdQueuedSince (rows : QueueTable) (key : Key) : Int :=
  (rows.lookup key).elim 0 Row.cmdQueuedSince

theorem cmdQueuedSince_of_lookup {rows : QueueTable} {row : Row} (h : rows.lookup key = some row) :
    rows.cmdQueuedSince key = row.cmdQueuedSince := by
  rw [QueueTable.cmdQueuedSince, h]
  rfl

theorem exists_selectReturns (cfg : Config) (s : State) :
    ∃ found, s.selectReturns cfg found = true := by
  rcases hn : s.notifyCmd with _ | n
  · rcases (s.rows.keySet \ s.updatedCmd).eq_empty_or_nonempty with hnone | hsome
    · refine ⟨none, ?_⟩
      rw [Finset.sdiff_eq_empty_iff_subset] at hnone
      simp only [State.selectReturns, hn, List.all_eq_true]
      intro k hk
      exact decide_eq_true (hnone (List.mem_toFinset.mpr hk))
    · obtain ⟨key, hkey, hmin⟩ := Finset.exists_min_image _ s.rows.cmdQueuedSince hsome
      rw [Finset.mem_sdiff, mem_keySet, ← AList.lookup_isSome, Option.isSome_iff_exists] at hkey
      obtain ⟨⟨row, hrow⟩, hfree⟩ := hkey
      refine ⟨some key, ?_⟩
      simp only [State.selectReturns, hrow, hn, Bool.and_eq_true, Bool.or_eq_true, List.all_eq_true,
        decide_eq_true_eq]
      refine ⟨hfree, .inr fun entry hentry => ?_⟩
      by_cases hin : entry.1 ∈ s.updatedCmd
      · exact .inl hin
      · have hlookup : s.rows.lookup entry.1 = some entry.2 := AList.mem_lookup_iff.mpr hentry
        have hmem : entry.1 ∈ s.rows.keySet \ s.updatedCmd := by
          rw [Finset.mem_sdiff, mem_keySet, ← AList.lookup_isSome, hlookup]
          exact ⟨rfl, hin⟩
        have hle := hmin _ hmem
        rw [cmdQueuedSince_of_lookup hrow, cmdQueuedSince_of_lookup hlookup] at hle
        exact .inr hle
  · rcases hrow : s.rows.lookup (notifyKey n) with _ | row
    · refine ⟨none, ?_⟩
      simpa [State.selectReturns, hn] using AList.lookup_eq_none.mp hrow
    · refine ⟨some (notifyKey n), ?_⟩
      simp [State.selectReturns, hn, hrow]

/-- Away from the select, the runner always has a step that records what was picked. -/
theorem exists_next (cfg : Config) (hbegin : s.pc ≠ .begin) (hgone : s.pc ≠ .gone) :
    ∃ ev, RoundEvent.own (.other ev) = true ∧ Recorded s (.other ev) ∧
      (∀ found, ev ≠ .select found) ∧ ev ≠ .selectFails ∧ (s.runnerStep cfg ev).isSome = true := by
  cases hpc : s.pc with
  | connect =>
    exact ⟨.runnerSessionStart true, rfl, trivial, nofun, nofun, by simp [State.runnerStep, hpc]⟩
  | begin => exact absurd hpc hbegin
  | running key =>
    exact ⟨.update true true, rfl, .inl rfl, nofun, nofun, by simp [State.runnerStep, hpc]⟩
  | rolledBack key =>
    by_cases hin : key ∈ s.updatedCmd
    · -- The INSERT would violate the unique constraint.
      exact ⟨.rememberFailedUpdate false, rfl, .inr ⟨key, hin, hpc⟩, nofun, nofun,
        by simp [State.runnerStep, hpc]⟩
    · exact ⟨.rememberFailedUpdate true, rfl, .inl rfl, nofun, nofun,
        by simp [State.runnerStep, hpc, hin]⟩
  | enterReselectRound =>
    refine ⟨.enterReselectRound true, rfl, trivial, nofun, nofun, ?_⟩
    simp only [State.runnerStep, hpc]
    split <;> rfl
  | commit tx => exact ⟨.commit true, rfl, rfl, nofun, nofun, by simp [State.runnerStep, hpc]⟩
  | notifies =>
    refine ⟨.notifies, rfl, trivial, nofun, nofun, ?_⟩
    simp only [State.runnerStep, hpc]
    split
    · rfl
    · split <;> rfl
  | poll timeoutMsec =>
    exact ⟨.pollTimeout, rfl, trivial, nofun, nofun, by simp [State.runnerStep, hpc]⟩
  | gone => exact absurd hpc hgone

end PgCmdQueue.Runner
