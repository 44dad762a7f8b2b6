import PgCmdQueue.Runner.Session

/-!
# No command is lost

A row that no SELECT has returned yet is announced by a notification, or the next select
that is not asked for one command can return it and the timer for that select has run out.
-/

namespace PgCmdQueue.Runner

open Cpp Postgres

variable {cfg : Config} {s t : State} {e : Event} {key k : Key} {row : Row}

/-! ## The invariant -/

/-- A notification that will make the runner select the key. -/
def State.Due (cfg : Config) (s : State) (key : Key) : Prop :=
  (∃ extra ∈ s.unread ++ s.inFlight, answerNotify cfg.asserts cfg.cmdClassIdentity extra =
    .ok (some ⟨cfg.cmdClassIdentity, key.1, key.2⟩)) ∨
  (s.pc = .begin ∧ s.notifyCmd.map notifyKey = some key)

/-- The runner comes back to `begin` from here without excluding the key or waiting. -/
def Pc.leadsTo : Pc → Key → Prop
  | .rolledBack failed, key => failed ≠ key
  | .enterReselectRound, _ => False
  | .commit tx, key => key ∉ tx.updatedCmd
  | .poll timeoutMsec, _ => timeoutMsec = 0
  | _, _ => True

def State.Early (s : State) (key : Key) : Prop :=
  s.reselectNextWhen ≤ s.now ∧ key ∉ s.updatedCmd ∧ s.pc.leadsTo key

structure Inv (cfg : Config) (s : State) : Prop where
  running : ∀ key, s.pc = .running key →
    ∃ row, s.rows.lookup key = some row ∧ row.selected = true
  found : s.pc.listening = true → ∀ key row, s.rows.lookup key = some row →
    row.selected = false → s.Due cfg key ∨ s.Early key

/-! ## What the steps change -/

theorem lookup_markSelected (rows : QueueTable) (key k : Key) :
    (rows.markSelected key).lookup k = (rows.lookup k).map fun row =>
      if k = key then { row with selected := true } else row := by
  unfold QueueTable.markSelected
  rcases hrow : rows.lookup key with _ | row
  · rcases hk : rows.lookup k with _ | row'
    · simp
    · have hne : k ≠ key := by
        rintro rfl
        rw [hrow] at hk
        cases hk
      simp [hne]
  · by_cases hk : k = key
    · subst hk
      simp [AList.lookup_insert, hrow]
    · simp [AList.lookup_insert_ne hk, hk]

theorem answerNotify_of_decodes {payload : Bytes} (h : cfg.Decodes key)
    (hsent : cfg.payload key = some payload) :
    answerNotify cfg.asserts cfg.cmdClassIdentity payload =
      .ok (some ⟨cfg.cmdClassIdentity, key.1, key.2⟩) := by
  unfold answerNotify parseNotifyPayload
  rw [h payload hsent]
  exact congrArg _ (if_pos rfl)

/-- Notifications that stay are still due, and so is what the runner was told to select. -/
theorem State.Due.mono (h : s.Due cfg key) (hsub : s.unread ++ s.inFlight ⊆ t.unread ++ t.inFlight)
    (hpc : s.pc = .begin → t.pc = .begin ∧ t.notifyCmd = s.notifyCmd) : t.Due cfg key := by
  rcases h with ⟨extra, hmem, hextra⟩ | ⟨hbegin, hkey⟩
  · exact .inl ⟨extra, hsub hmem, hextra⟩
  · obtain ⟨hbegin', hsame⟩ := hpc hbegin
    exact .inr ⟨hbegin', by rw [hsame, hkey]⟩

theorem consumeInput_pending (s : State) (n : Nat) :
    (s.consumeInput n).unread ++ (s.consumeInput n).inFlight = s.unread ++ s.inFlight := by
  simp [State.consumeInput, List.append_assoc]

theorem send_pending (s : State) (extra : Bytes) :
    s.unread ++ s.inFlight ⊆ (s.send extra).unread ++ (s.send extra).inFlight := by
  intro x hx
  simp only [State.send, ← List.append_assoc]
  exact List.mem_append_left _ hx

theorem reselectWaitTimeLeft_of_le (h : s.reselectNextWhen ≤ s.now) :
    s.reselectWaitTimeLeft = 0 := by
  unfold State.reselectWaitTimeLeft
  apply max_eq_left
  have := Int.tdiv_nonneg (a := s.now - s.reselectNextWhen) (b := 1000000) (by omega) (by omega)
  rw [← Int.neg_sub, Int.neg_tdiv]
  omega

/-- A row that the runner has not selected is found by the SELECT unless it is excluded. -/
theorem selectReturns_none (h : s.selectReturns cfg none = true) :
    (∀ n, s.notifyCmd = some n → s.rows.lookup (notifyKey n) = none) ∧
    (s.notifyCmd = none → ∀ key row, s.rows.lookup key = some row → key ∈ s.updatedCmd) := by
  unfold State.selectReturns at h
  constructor
  · intro n hn
    rw [hn] at h
    exact AList.lookup_eq_none.mpr (by simpa using h)
  · intro hn key row hrow
    rw [hn] at h
    have hmem : key ∈ s.rows.keys := AList.mem_keys.mp (AList.lookup_isSome.mp (by rw [hrow]; rfl))
    exact of_decide_eq_true (List.all_eq_true.mp h key hmem)

theorem selectReturns_some (h : s.selectReturns cfg (some key) = true) :
    (∃ row, s.rows.lookup key = some row) ∧
      ∀ n, s.notifyCmd = some n → notifyKey n = key := by
  unfold State.selectReturns at h
  rcases hrow : s.rows.lookup key with _ | row
  · simp [hrow] at h
  · refine ⟨⟨row, rfl⟩, fun n hn => ?_⟩
    simpa [hrow, hn] using h

/-! ## The other sessions, the clock and the network -/

/-- Only the clock moves, and notifications are added or move. -/
theorem Inv.frame (hs : Inv cfg s) (hrows : t.rows = s.rows) (hpc : t.pc = s.pc)
    (hupdated : t.updatedCmd = s.updatedCmd) (hnext : t.reselectNextWhen = s.reselectNextWhen)
    (hnow : s.now ≤ t.now) (hnotify : t.notifyCmd = s.notifyCmd)
    (hsub : s.unread ++ s.inFlight ⊆ t.unread ++ t.inFlight) : Inv cfg t := by
  refine ⟨fun key hkey => ?_, fun hl key row hrow hsel => ?_⟩
  · rw [hrows]
    exact hs.running key (hpc ▸ hkey)
  · rw [hrows] at hrow
    rcases hs.found (hpc ▸ hl) key row hrow hsel with hdue | ⟨hwhen, hkey, hleads⟩
    · exact .inl (hdue.mono hsub fun hbegin => ⟨hpc ▸ hbegin, hnotify⟩)
    · refine .inr ⟨?_, hupdated ▸ hkey, hpc ▸ hleads⟩
      rw [hnext]
      exact hwhen.trans hnow

theorem inv_insert {since : Int} {payload : Bytes} (hs : Inv cfg s) (hdecodes : cfg.Decodes key)
    (hfresh : key ∉ s.rows) (hsent : cfg.payload key = some payload) :
    Inv cfg { s.send payload with rows := s.rows.insert key { cmdQueuedSince := since } } := by
  have hother : ∀ k row, s.rows.lookup k = some row → k ≠ key := by
    rintro k row hrow rfl
    exact hfresh (AList.lookup_isSome.mp (by rw [hrow]; rfl))
  refine ⟨fun k hk => ?_, fun hl k row hrow hsel => ?_⟩
  · obtain ⟨row, hrow, hsel⟩ := hs.running k hk
    exact ⟨row, by rw [← hrow]; exact AList.lookup_insert_ne (hother k row hrow), hsel⟩
  by_cases hk : k = key
  · subst hk
    refine .inl (.inl ⟨payload, ?_, answerNotify_of_decodes hdecodes hsent⟩)
    have hlisten : s.pc.listening = true := hl
    simp [State.send, hlisten]
  · rw [show AList.lookup k (AList.insert key _ s.rows) = s.rows.lookup k from
      AList.lookup_insert_ne hk] at hrow
    rcases hs.found hl k row hrow hsel with hdue | hearly
    · exact .inl (hdue.mono (send_pending s payload) fun hbegin => ⟨hbegin, rfl⟩)
    · exact .inr hearly

theorem inv_remove (hs : Inv cfg s) (hlocked : s.pc.locked ≠ some key) :
    Inv cfg { s with rows := s.rows.erase key } := by
  refine ⟨fun k hk => ?_, fun hl k row hrow hsel => ?_⟩
  · have hne : k ≠ key := by
      rintro rfl
      exact hlocked (by rw [show s.pc = _ from hk]; rfl)
    rw [AList.lookup_erase_ne hne]
    exact hs.running k hk
  · have hne : k ≠ key := by
      rintro rfl
      rw [show AList.lookup k (AList.erase k s.rows) = none from AList.lookup_erase k s.rows] at hrow
      cases hrow
    rw [show AList.lookup k (AList.erase key s.rows) = s.rows.lookup k from
      AList.lookup_erase_ne hne] at hrow
    exact hs.found hl k row hrow hsel

/-- Nothing is asked of a runner that does not listen. -/
theorem Inv.of_not_listening (hl : s.pc.listening = false) : Inv cfg s := by
  refine ⟨fun key hkey => ?_, fun hl' => ?_⟩
  · rw [hkey] at hl
    cases hl
  · rw [hl] at hl'
    cases hl'

theorem inv_otherStep (hs : Inv cfg s) (ha : Assumed cfg e) (ht : s.otherStep cfg e = some t) :
    Inv cfg t := by
  cases otherMoves ht with
  | insert hfresh hsent => exact inv_insert hs ha hfresh hsent
  | remove hlocked => exact inv_remove hs hlocked
  | notifyOther => exact hs.frame rfl rfl rfl rfl le_rfl rfl (send_pending s _)
  | @tick ns =>
    exact hs.frame rfl rfl rfl rfl (Int.le_add_of_nonneg_right (Int.natCast_nonneg ns)) rfl
      (List.Subset.refl _)
  | receive => exact hs.frame rfl rfl rfl rfl le_rfl rfl fun x hx => by rwa [consumeInput_pending]
  | connectionLost => exact .of_not_listening rfl
  | stop => exact .of_not_listening rfl

/-! ## The runner -/

/-- The row that is returned is the one that was asked for, and where none is, none is left
that could have been. -/
theorem inv_select {found : Option Key} (hs : Inv cfg s) (hpc : s.pc = .begin)
    (hfound : s.selectReturns cfg found = true) : Inv cfg (s.selected cfg found) := by
  have hl : s.pc.listening = true := by rw [hpc]; rfl
  rcases found with _ | key
  · obtain ⟨hnotified, hfree⟩ := selectReturns_none hfound
    unfold State.selected
    rcases hn : s.notifyCmd with _ | n
    · -- What is left is excluded, hence announced.
      refine ⟨nofun, fun _ key row hrow hsel => ?_⟩
      rcases hs.found hl key row hrow hsel with hdue | ⟨-, hkey, -⟩
      · rcases hdue with hpending | ⟨-, hkey⟩
        · exact .inl (.inl hpending)
        · rw [hn] at hkey
          cases hkey
      · exact absurd (hfree hn key row hrow) hkey
    · refine ⟨nofun, fun _ key row hrow hsel => ?_⟩
      rcases hs.found hl key row hrow hsel with hdue | ⟨hwhen, hkey, -⟩
      · rcases hdue with hpending | ⟨-, hkey⟩
        · exact .inl (.inl hpending)
        · rw [hn, Option.map_some, Option.some.injEq] at hkey
          have hnone := hnotified n hn
          rw [hkey, show s.rows.lookup key = some row from hrow] at hnone
          cases hnone
      · exact .inr ⟨hwhen, hkey, hkey⟩
  · obtain ⟨⟨row, hrow⟩, hnotified⟩ := selectReturns_some hfound
    unfold State.selected
    refine ⟨fun k hk => ?_, fun _ k row' hrow' hsel => ?_⟩
    · cases hk
      exact ⟨{ row with selected := true }, by rw [lookup_markSelected, hrow]; simp, rfl⟩
    · rw [show AList.lookup k (s.rows.markSelected key) = _ from lookup_markSelected _ _ _,
        Option.map_eq_some_iff] at hrow'
      obtain ⟨row'', hrow'', rfl⟩ := hrow'
      have hne : k ≠ key := by
        rintro rfl
        simp at hsel
      rw [if_neg hne] at hsel
      rcases hs.found hl k row'' hrow'' hsel with hdue | ⟨hwhen, hkey, -⟩
      · rcases hdue with hpending | ⟨-, hkey⟩
        · exact .inl (.inl hpending)
        · obtain ⟨n, hn, hkey⟩ := Option.map_eq_some_iff.mp hkey
          exact absurd (hkey.symm.trans (hnotified n hn)) hne
      · exact .inr ⟨hwhen, hkey, trivial⟩

/-- From a step that selects nothing: what is due stays due unless it was just asked for. -/
theorem Inv.onward (hs : Inv cfg s) (hpc : s.pc ≠ .begin) (hrunning : ∀ key, t.pc ≠ .running key)
    (hl : s.pc.listening = true)
    (hrows : ∀ key row, t.rows.lookup key = some row → s.rows.lookup key = some row)
    (hsub : s.unread ++ s.inFlight ⊆ t.unread ++ t.inFlight)
    (hearly : ∀ key row, s.rows.lookup key = some row → row.selected = false →
      s.Early key → t.Early key) : Inv cfg t := by
  refine ⟨fun key hkey => absurd hkey (hrunning key), fun _ key row hrow hsel => ?_⟩
  rcases hs.found hl key row (hrows key row hrow) hsel with hdue | he
  · exact .inl (hdue.mono hsub fun hbegin => absurd hbegin hpc)
  · exact .inr (hearly key row (hrows key row hrow) hsel he)

/-- A notification that announces a row is the one that is answered, or stays. -/
theorem State.Due.answered {extra : Bytes} {rest : List Bytes} {n : Option NotifyCmd}
    (h : s.Due cfg key) (hpc : s.pc = .notifies) (hunread : s.unread = extra :: rest)
    (hanswer : answerNotify cfg.asserts cfg.cmdClassIdentity extra = .ok n) :
    (∃ x ∈ rest ++ s.inFlight, answerNotify cfg.asserts cfg.cmdClassIdentity x =
      .ok (some ⟨cfg.cmdClassIdentity, key.1, key.2⟩)) ∨
    n = some ⟨cfg.cmdClassIdentity, key.1, key.2⟩ := by
  rcases h with ⟨x, hx, hxkey⟩ | ⟨hbegin, -⟩
  · rw [hunread, List.cons_append, List.mem_cons] at hx
    rcases hx with rfl | hx
    · rw [hanswer] at hxkey
      cases hxkey
      exact .inr rfl
    · exact .inl ⟨x, hx, hxkey⟩
  · rw [hpc] at hbegin
    cases hbegin

theorem inv_notifiesRead (hs : Inv cfg s) (hpc : s.pc = .notifies) (hunread : s.unread = []) :
    Inv cfg { s with notifyCmd := none, pc := .poll s.reselectWaitTimeLeft } := by
  refine hs.onward (by simp [hpc]) (by simp) (by simp [hpc, Pc.listening]) (fun _ _ h => h)
    (by rw [hunread]; simp) ?_
  rintro key row - - ⟨hwhen, hkey, -⟩
  exact ⟨hwhen, hkey, reselectWaitTimeLeft_of_le hwhen⟩

theorem inv_ignored {extra : Bytes} {rest : List Bytes} (hs : Inv cfg s) (hpc : s.pc = .notifies)
    (hunread : s.unread = extra :: rest)
    (hanswer : answerNotify cfg.asserts cfg.cmdClassIdentity extra = .ok none) :
    Inv cfg { s with unread := rest, notifyCmd := none } := by
  have hl : s.pc.listening = true := by rw [hpc]; rfl
  refine ⟨fun key hkey => absurd (hpc.symm.trans hkey) nofun, fun _ key row hrow hsel => ?_⟩
  rcases hs.found hl key row hrow hsel with hdue | ⟨hwhen, hkey, hleads⟩
  · rcases hdue.answered hpc hunread hanswer with hstays | hn
    · exact .inl (.inl hstays)
    · cases hn
  · exact .inr ⟨hwhen, hkey, hleads⟩

theorem inv_notified {extra : Bytes} {rest : List Bytes} {n : NotifyCmd} (hs : Inv cfg s)
    (hpc : s.pc = .notifies) (hunread : s.unread = extra :: rest)
    (hanswer : answerNotify cfg.asserts cfg.cmdClassIdentity extra = .ok (some n)) :
    Inv cfg { s with unread := rest, notifyCmd := some n, pc := .begin } := by
  have hl : s.pc.listening = true := by rw [hpc]; rfl
  refine ⟨nofun, fun _ key row hrow hsel => ?_⟩
  rcases hs.found hl key row hrow hsel with hdue | ⟨hwhen, hkey, -⟩
  · rcases hdue.answered hpc hunread hanswer with hstays | hn
    · exact .inl (.inl hstays)
    · cases hn
      exact .inl (.inr ⟨rfl, rfl⟩)
  · exact .inr ⟨hwhen, hkey, trivial⟩

/-- The row that is running was selected. -/
theorem Inv.ne_running (hs : Inv cfg s) (hpc : s.pc = .running key)
    (hrow : s.rows.lookup k = some row) (hsel : row.selected = false) : k ≠ key := by
  rintro rfl
  obtain ⟨row', hrow', hsel'⟩ := hs.running k hpc
  rw [hrow] at hrow'
  cases hrow'
  rw [hsel] at hsel'
  cases hsel'

theorem inv_update {returned kept : Bool} (hs : Inv cfg s)
    (h : s.RunnerMoves cfg (.update returned kept) t) : Inv cfg t := by
  cases h with
  | update hpc =>
    refine hs.onward (by rw [hpc]; simp) (by simp) (by rw [hpc]; rfl) (fun _ _ h => h)
      (List.Subset.refl _) ?_
    rintro k row hrow hsel ⟨hwhen, hkey, -⟩
    refine ⟨hwhen, hkey, ?_⟩
    have hne := hs.ne_running hpc hrow hsel
    unfold Pc.leadsTo
    dsimp only
    split
    · exact fun hmem => (Finset.mem_insert.mp hmem).elim hne hkey
    · exact hkey

theorem inv_updateFails (hs : Inv cfg s) (hpc : s.pc = .running key) :
    Inv cfg { s with pc := .rolledBack key } := by
  refine hs.onward (by simp [hpc]) (by simp) (by simp [hpc, Pc.listening]) (fun _ _ h => h)
    (List.Subset.refl _) ?_
  rintro k row hrow hsel ⟨hwhen, hkey, -⟩
  exact ⟨hwhen, hkey, (hs.ne_running hpc hrow hsel).symm⟩

theorem inv_remembered (hs : Inv cfg s) (hpc : s.pc = .rolledBack key) :
    Inv cfg { s with updatedCmd := insert key s.updatedCmd, pc := .notifies } := by
  refine hs.onward (by simp [hpc]) (by simp) (by simp [hpc, Pc.listening]) (fun _ _ h => h)
    (List.Subset.refl _) ?_
  rintro k row - - ⟨hwhen, hkey, hleads⟩
  rw [hpc] at hleads
  refine ⟨hwhen, fun hmem => ?_, trivial⟩
  exact (Finset.mem_insert.mp hmem).elim (fun heq => hleads heq.symm) hkey

theorem inv_roundEntered {round : Nat} {tx : Tx} (hs : Inv cfg s) (hpc : s.pc = .enterReselectRound) :
    Inv cfg { s with reselectRound := round, pc := .commit tx } := by
  refine hs.onward (by simp [hpc]) (by simp) (by simp [hpc, Pc.listening]) (fun _ _ h => h)
    (List.Subset.refl _) ?_
  rintro k row - - ⟨-, -, hleads⟩
  rw [hpc] at hleads
  cases hleads

theorem inv_committed {tx : Tx} (hs : Inv cfg s) (hpc : s.pc = .commit tx) :
    Inv cfg (s.committed tx) := by
  refine hs.onward (by simp [hpc]) (by simp [State.committed]) (by simp [hpc, Pc.listening]) ?_
    (List.Subset.refl _) ?_
  · intro k row hrow
    unfold State.committed at hrow
    dsimp only at hrow
    split at hrow
    · rename_i removed _
      have hne : k ≠ removed := by
        rintro rfl
        rw [AList.lookup_erase] at hrow
        cases hrow
      rwa [AList.lookup_erase_ne hne] at hrow
    · exact hrow
  · rintro k row - - ⟨hwhen, hkey, hleads⟩
    rw [hpc] at hleads
    exact ⟨hwhen, hleads, trivial⟩

/-- Nothing was done, and the notifications are next. -/
theorem inv_failed (hs : Inv cfg s) (hbegin : s.pc ≠ .begin) (hl : s.pc.listening = true) :
    Inv cfg { s with pc := .notifies } := by
  refine hs.onward hbegin (by simp) hl (fun _ _ h => h) (List.Subset.refl _) ?_
  rintro k row - - ⟨hwhen, hkey, -⟩
  exact ⟨hwhen, hkey, trivial⟩

theorem inv_pollTimeout {timeoutMsec : Int} (hs : Inv cfg s) (hpc : s.pc = .poll timeoutMsec) :
    Inv cfg { s with pc := .begin } := by
  refine ⟨nofun, fun _ key row hrow hsel => ?_⟩
  rcases hs.found (by simp [hpc, Pc.listening]) key row hrow hsel with hdue | ⟨hwhen, hkey, -⟩
  · rcases hdue with hpending | ⟨hbegin, -⟩
    · exact .inl (.inl hpending)
    · rw [hpc] at hbegin
      cases hbegin
  · exact .inr ⟨hwhen, hkey, trivial⟩

theorem inv_wake {timeoutMsec : Int} (n : Nat) (hs : Inv cfg s) (hpc : s.pc = .poll timeoutMsec) :
    Inv cfg { s.consumeInput n with pc := .notifies } := by
  refine hs.onward (by simp [hpc]) (by simp) (by simp [hpc, Pc.listening]) (fun _ _ h => h) ?_ ?_
  · intro x hx
    have := consumeInput_pending s n
    rwa [← this] at hx
  · rintro key row - - ⟨hwhen, hkey, -⟩
    exact ⟨hwhen, hkey, trivial⟩

theorem inv_runnerStep (hs : Inv cfg s) (ha : Assumed cfg e) (ht : s.runnerStep cfg e = some t) :
    Inv cfg t := by
  cases runnerMoves ht with
  | sessionStarted =>
    -- A new session excludes nothing and need not wait.
    refine ⟨nofun, fun _ key row _ _ => ?_⟩
    exact .inr ⟨le_rfl, Finset.notMem_empty key, trivial⟩
  | sessionFailed => exact .of_not_listening rfl
  | select hpc hfound => exact inv_select hs hpc hfound
  | selectFails => exact absurd ha id
  | update hpc => exact inv_update hs (.update hpc)
  | updateFails hpc => exact inv_updateFails hs hpc
  | remembered hpc => exact inv_remembered hs hpc
  | notRemembered hpc => exact inv_failed hs (by simp [hpc]) (by simp [hpc, Pc.listening])
  | roundEntered hpc => exact inv_roundEntered hs hpc
  | roundFailed => exact .of_not_listening rfl
  | committed hpc => exact inv_committed hs hpc
  | commitFailed hpc => exact inv_failed hs (by simp [hpc]) (by simp [hpc, Pc.listening])
  | notifiesRead hpc hunread => exact inv_notifiesRead hs hpc hunread
  | notified hpc hunread hanswer => exact inv_notified hs hpc hunread hanswer
  | ignored hpc hunread hanswer => exact inv_ignored hs hpc hunread hanswer
  | notifyFailed => exact .of_not_listening rfl
  | pollTimeout hpc => exact inv_pollTimeout hs hpc
  | wake hpc => exact inv_wake _ hs hpc

theorem inv_step (hs : Inv cfg s) (h : AssumedStep cfg s e t) : Inv cfg t := by
  obtain ⟨ha, ht⟩ := h
  unfold Step State.step at ht
  rw [Option.or_eq_some_iff] at ht
  rcases ht with ht | ⟨-, ht⟩
  · exact inv_otherStep hs ha ht
  · exact inv_runnerStep hs ha ht

/-! ## Whole runs -/

theorem inv_run {rows : QueueTable} {tr : List Event}
    (h : Transition.Run (AssumedStep cfg) { rows := rows } tr s) : Inv cfg s :=
  h.invariant_state (.of_not_listening rfl) fun _ _ _ => inv_step

/-- Nothing in the queue waits for the timer before it was selected once. -/
theorem allSelected_of_asleep {rows : QueueTable} {tr : List Event}
    (h : Transition.Run (AssumedStep cfg) { rows := rows } tr s) (ha : s.Asleep) :
    s.AllSelected := by
  obtain ⟨⟨timeoutMsec, hpc, hpos⟩, hflight, hunread⟩ := ha
  intro key row hrow
  by_contra hsel
  rw [Bool.not_eq_true] at hsel
  rcases (inv_run h).found (by rw [hpc]; rfl) key row hrow hsel with
    (⟨extra, hmem, -⟩ | ⟨hbegin, -⟩) | ⟨-, -, hleads⟩
  · rw [hflight, hunread] at hmem
    cases hmem
  · rw [hpc] at hbegin
    cases hbegin
  · rw [hpc] at hleads
    exact absurd hleads hpos.ne'

/-! ## A row that is inserted twice in a round -/

def nightly : Config where
  asserts := true
  reserved := fun _ => false
  nspname := ascii "cmdq"
  relname := ascii "nightly"
  queueReselectIntervalMsec := 300000
  queueReselectRandomizedEveryNth := none

def report : Key := (ascii "report", none)

theorem decodes_report : nightly.Decodes report := by
  intro payload hsent
  cases hsent
  exact (decodes_iff _ _ _ _ _ _).mpr (by decide)

/-- The row is there before the session and is deleted once it was run. -/
def reinserted : List Event := [.insert report 1, .runnerSessionStart true, .select (some report),
  .update true false, .commit true, .insert report 2, .notifies, .wake 1, .notifies,
  .select (some report), .update true true, .commit true, .notifies, .pollTimeout, .select none,
  .enterReselectRound true, .commit true, .notifies]

def assumedNext (s : State) (e : Event) : Option State :=
  match e with
  | .insert key since => if key = report then s.step nightly (.insert key since) else none
  | .selectFails => none
  | e => s.step nightly e

theorem assumedStep_of_next (h : assumedNext s e = some t) : AssumedStep nightly s e t := by
  unfold assumedNext at h
  cases e with
  | insert key since =>
    dsimp only at h
    split at h
    · rename_i hkey
      exact ⟨by rw [hkey]; exact decodes_report, h⟩
    · cases h
  | selectFails => cases h
  | _ => exact ⟨trivial, h⟩

theorem allSelected_reinserted : ∃ s, Transition.Run (AssumedStep nightly) { rows := ∅ } reinserted s ∧
    s.Asleep ∧ s.AllSelected ∧ report ∈ s.rows := by
  have hlast : (reinserted.foldlM assumedNext { rows := ∅ }).any (fun s =>
      s.pc = .poll 300000 ∧ s.inFlight = [] ∧ s.unread = [] ∧ report ∈ s.rows) = true := by
    decide +kernel
  obtain ⟨s, hs, hs'⟩ := (Option.any_eq_true _ _).mp hlast
  have hrun := (Transition.Run.of_foldlM hs).mono fun _ _ _ => assumedStep_of_next
  obtain ⟨hpc, hflight, hunread, hmem⟩ := of_decide_eq_true hs'
  have hasleep : s.Asleep := ⟨⟨300000, hpc, by decide⟩, hflight, hunread⟩
  exact ⟨s, hrun, hasleep, allSelected_of_asleep hrun hasleep, hmem⟩

end PgCmdQueue.Runner
