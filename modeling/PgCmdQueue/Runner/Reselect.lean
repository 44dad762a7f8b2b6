import PgCmdQueue.Runner.Rounds
import Mathlib.Data.PNat.Defs

/-!
# The counter of the reselect rounds

The runner tests a number of its own, and the database hands it the next one when a round ends.
Rounds are numbered from 0, the first of the session.
-/

namespace PgCmdQueue.Runner

open Cpp Postgres

/-! ## What a session tells of its rounds -/

/-- `counters` has the number that is tested in each round, and `stmts` the statements that chose
freely, each with the round it was used in. -/
structure Counted where
  runner : State
  counters : List Nat := []
  stmts : List (Nat × Prepared) := []

/-- What is told after a step that leads the runner to `t`. -/
def Counted.counted (s : Counted) (t : State) : RoundEvent → Counted
  | .select stmt _ _ =>
    if stmt = .selectNotifyCmd then { s with runner := t }
    else { s with runner := t, stmts := s.stmts ++ [(s.counters.length - 1, stmt)] }
  | .other (.runnerSessionStart ok) =>
    if ok then { runner := t, counters := [t.reselectRound] } else { s with runner := t }
  | .other (.enterReselectRound _) =>
    if t.pc = .gone then { s with runner := t }
    else { s with runner := t, counters := s.counters ++ [t.reselectRound] }
  | .other _ => { s with runner := t }

def Counted.next (cfg : Config) (s : Counted) (e : RoundEvent) : Option Counted :=
  (s.runner.roundStep cfg e).map fun t => s.counted t e

def CountedStep (cfg : Config) (s : Counted) (e : RoundEvent) (t : Counted) : Prop :=
  s.next cfg e = some t

/-- Every round is tested by its number, the ones that `n` divides are randomized, and there is
one of them among any `n` in a row. -/
structure CountsRounds (n : ℕ+) (s : Counted) : Prop where
  number : ∀ (k : Nat) (counter : Nat), s.counters[k]? = some counter → counter = k
  randomized : ∀ k stmt, (k, stmt) ∈ s.stmts → (stmt = .selectRandomCmd ↔ (n : Nat) ∣ k)
  window : ∀ i, i + n ≤ s.counters.length →
    ((s.counters.drop i).take n).countP (· % (n : Nat) = 0) = 1

variable {cfg : Config} {s t : State} {e : RoundEvent} {ev : Event} {n : ℕ+} {c d : Counted}
  {tr : List RoundEvent}

/-! ## Steps -/

/-- The setting that the session will have when the open transaction is committed. -/
def State.pendingSetting (s : State) : Nat :=
  match s.pc with
  | .commit tx => tx.roundSetting
  | _ => s.roundSetting

/-- What a step does to the two counters. -/
inductive Counted.Moves (cfg : Config) (c : Counted) : RoundEvent → Counted → Prop
  | start {e : RoundEvent} {d : Counted} (round : d.runner.reselectRound = 0)
      (setting : d.runner.roundSetting = 0 ∧ d.runner.pendingSetting = 0)
      (told : d.counters = [0] ∧ d.stmts = []) : c.Moves cfg e d
  | enter {e : RoundEvent} {d : Counted} {round : Nat} (listening : c.runner.pc.listening = true)
      (returned : round = (enterReselectRound c.runner.pendingSetting).2)
      (bound : round ≤ 2147483647) (tested : d.runner.reselectRound = round)
      (setting : d.runner.pendingSetting = (enterReselectRound c.runner.pendingSetting).1)
      (told : d.counters = c.counters ++ [round] ∧ d.stmts = c.stmts) : c.Moves cfg e d
  | select {e : RoundEvent} {d : Counted} {stmt : Prepared}
      (listening : c.runner.pc.listening = true) (prepared : c.runner.prepared cfg = stmt)
      (free : stmt ≠ .selectNotifyCmd) (round : d.runner.reselectRound = c.runner.reselectRound)
      (setting : d.runner.roundSetting = c.runner.roundSetting ∧
        d.runner.pendingSetting = c.runner.pendingSetting)
      (told : d.counters = c.counters ∧ d.stmts = c.stmts ++ [(c.counters.length - 1, stmt)]) :
      c.Moves cfg e d
  | keep {e : RoundEvent} {d : Counted} (listening : c.runner.pc.listening = true)
      (round : d.runner.reselectRound = c.runner.reselectRound)
      (stored : d.runner.roundSetting = c.runner.roundSetting ∨
        d.runner.roundSetting = c.runner.pendingSetting)
      (setting : d.runner.pendingSetting = c.runner.pendingSetting)
      (told : d.counters = c.counters ∧ d.stmts = c.stmts) : c.Moves cfg e d
  | rollback {d : Counted} (listening : c.runner.pc.listening = true)
      (round : d.runner.reselectRound = c.runner.reselectRound)
      (setting : d.runner.roundSetting = c.runner.roundSetting ∧
        d.runner.pendingSetting = c.runner.roundSetting)
      (told : d.counters = c.counters ∧ d.stmts = c.stmts) :
      c.Moves cfg (.other (.commit false)) d
  | leave {e : RoundEvent} {d : Counted} (gone : d.runner.pc.listening = false)
      (told : d.counters = c.counters ∧ d.stmts = c.stmts) : c.Moves cfg e d

theorem settings_otherStep (h : s.otherStep cfg ev = some t) :
    t.reselectRound = s.reselectRound ∧ t.roundSetting = s.roundSetting := by
  cases otherMoves h <;> exact ⟨rfl, rfl⟩

/-- Nobody else takes part in the counting. -/
theorem moves_otherStep (h : c.runner.otherStep cfg ev = some t) :
    c.Moves cfg (.other ev) (c.counted t (.other ev)) := by
  have htold : c.counted t (.other ev) = { c with runner := t } := by
    cases ev <;> first | rfl | cases h
  obtain ⟨hround, hsetting⟩ := settings_otherStep h
  rw [htold]
  rcases otherStep_cases h with ⟨hpc, -, -⟩ | hpc | hpc
  · by_cases hlistening : c.runner.pc.listening = true
    · refine .keep hlistening hround (.inl hsetting) ?_ ⟨rfl, rfl⟩
      unfold State.pendingSetting
      rw [hpc, hsetting]
    · refine .leave ?_ ⟨rfl, rfl⟩
      rw [hpc]
      exact Bool.eq_false_iff.mpr hlistening
  · exact .leave (by rw [hpc]; rfl) ⟨rfl, rfl⟩
  · exact .leave (by rw [hpc]; rfl) ⟨rfl, rfl⟩

theorem pendingSetting_of_pc {p : Pc} (hpc : s.pc = p) (hp : ∀ tx, p ≠ .commit tx) :
    s.pendingSetting = s.roundSetting := by
  unfold State.pendingSetting
  rw [hpc]
  cases p <;> first | rfl | exact absurd rfl (hp _)

theorem stoi_eq_some {k round : Nat} (h : stoi k = some round) : round = k ∧ round ≤ 2147483647 := by
  unfold stoi at h
  split at h
  · cases h
    exact ⟨rfl, ‹_›⟩
  · cases h

theorem moves_runnerStep (hsel : ∀ found, ev ≠ .select found)
    (h : c.runner.runnerStep cfg ev = some t) :
    c.Moves cfg (.other ev) (c.counted t (.other ev)) := by
  cases runnerMoves h with
  | sessionStarted => exact .start rfl ⟨rfl, rfl⟩ ⟨rfl, rfl⟩
  | sessionFailed => exact .leave rfl ⟨rfl, rfl⟩
  | select => exact absurd rfl (hsel _)
  | roundEntered hpc hround =>
    obtain ⟨hreturned, hbound⟩ := stoi_eq_some hround
    have hpending := pendingSetting_of_pc hpc nofun
    rw [← hpending] at hreturned
    exact .enter (by rw [hpc]; rfl) hreturned hbound rfl (by rw [hpending]; rfl) ⟨rfl, rfl⟩
  | roundFailed => exact .leave rfl ⟨rfl, rfl⟩
  | @committed tx hpc =>
    have hpending : c.runner.pendingSetting = tx.roundSetting := by
      unfold State.pendingSetting
      rw [hpc]
    exact .keep (by rw [hpc]; rfl) rfl (.inr hpending.symm) hpending.symm ⟨rfl, rfl⟩
  | commitFailed hpc => exact .rollback (by rw [hpc]; rfl) rfl ⟨rfl, rfl⟩ ⟨rfl, rfl⟩
  | ignored hpc =>
    have hpending := pendingSetting_of_pc hpc nofun
    exact .keep (by rw [hpc]; rfl) rfl (.inl rfl) (.trans (pendingSetting_of_pc hpc nofun) hpending.symm)
      ⟨rfl, rfl⟩
  | notifyFailed => exact .leave rfl ⟨rfl, rfl⟩
  | selectFails hpc | update hpc | updateFails hpc | remembered hpc | notRemembered hpc
  | notifiesRead hpc | notified hpc | pollTimeout hpc | wake hpc =>
    exact .keep (by rw [hpc]; rfl) rfl (.inl rfl) (pendingSetting_of_pc hpc nofun).symm ⟨rfl, rfl⟩

theorem moves_select {stmt : Prepared} {locked : List Key} {found : Option Key}
    (h : RoundStep cfg c.runner (.select stmt locked found) t) :
    c.Moves cfg (.select stmt locked found) (c.counted t (.select stmt locked found)) := by
  obtain ⟨hpc, hstmt, -, rfl⟩ := roundStep_select h
  have hlistening : c.runner.pc.listening = true := by rw [hpc]; rfl
  have hsettings : (c.runner.selected cfg found).reselectRound = c.runner.reselectRound ∧
      (c.runner.selected cfg found).roundSetting = c.runner.roundSetting ∧
      (c.runner.selected cfg found).pendingSetting = c.runner.pendingSetting := by
    rw [pendingSetting_of_pc hpc nofun]
    unfold State.selected
    cases found with
    | some key => exact ⟨rfl, rfl, rfl⟩
    | none =>
      dsimp only
      split <;> exact ⟨rfl, rfl, rfl⟩
  obtain ⟨hround, hstored, hsetting⟩ := hsettings
  unfold Counted.counted
  dsimp only
  by_cases hnotify : stmt = .selectNotifyCmd
  · rw [if_pos hnotify]
    exact .keep hlistening hround (.inl hstored) hsetting ⟨rfl, rfl⟩
  · rw [if_neg hnotify]
    exact .select hlistening hstmt hnotify hround ⟨hstored, hsetting⟩ ⟨rfl, rfl⟩

theorem moves_step (h : CountedStep cfg c e d) : c.Moves cfg e d := by
  unfold CountedStep Counted.next at h
  rw [Option.map_eq_some_iff] at h
  obtain ⟨t, ht, rfl⟩ := h
  cases e with
  | select stmt locked found => exact moves_select ht
  | other ev =>
    obtain ⟨hsel, hother | hrunner⟩ := roundStep_other ht
    · exact moves_otherStep hother
    · exact moves_runnerStep hsel hrunner

/-- What was told last is what the runner tests. -/
theorem tested_run {rows : QueueTable}
    (h : Transition.Run (CountedStep cfg) { runner := { rows := rows } } tr c)
    (hlistening : c.runner.pc.listening = true) :
    c.counters.getLast? = some c.runner.reselectRound := by
  refine h.invariant_state (I := fun c => c.runner.pc.listening = true →
    c.counters.getLast? = some c.runner.reselectRound) nofun (fun c e d hc hstep hlive => ?_) hlistening
  cases moves_step hstep with
  | start hround _ htold => rw [htold.1, hround]; rfl
  | enter _ _ _ htested _ htold => rw [htold.1, htested, List.getLast?_concat]
  | select hc' _ _ hround _ htold => rw [htold.1, hround, hc hc']
  | keep hc' hround _ _ htold => rw [htold.1, hround, hc hc']
  | rollback hc' hround _ htold => rw [htold.1, hround, hc hc']
  | leave hgone =>
    rw [hgone] at hlive
    cases hlive

/-- A free choice is random in the rounds that `n` divides the tested number of. -/
theorem prepared_free {stmt : Prepared} (hn : cfg.queueReselectRandomizedEveryNth = some n)
    (h : s.prepared cfg = stmt) (hfree : stmt ≠ .selectNotifyCmd) :
    stmt = .selectRandomCmd ↔ (n : Nat) ∣ s.reselectRound := by
  unfold State.prepared at h
  cases hnotify : s.notifyCmd with
  | some notify =>
    rw [hnotify] at h
    exact absurd h.symm hfree
  | none =>
    rw [hnotify, hn] at h
    dsimp only at h
    rw [Nat.dvd_iff_mod_eq_zero]
    subst h
    split
    · exact iff_of_true rfl ‹_›
    · exact iff_of_false nofun ‹_›

/-! ## The second round -/

/-- The session has not begun, or is in its first round, or it has tested 0 twice. -/
def Counted.Opening (c : Counted) : Prop :=
  (c.counters = [] ∧ c.stmts = [] ∧ c.runner.pc.listening = false) ∨
  (c.counters = [0] ∧ (∀ told ∈ c.stmts, told = (0, .selectRandomCmd)) ∧
    (c.runner.pc.listening = true → c.runner.reselectRound = 0 ∧ c.runner.roundSetting = 0 ∧
      c.runner.pendingSetting = 0)) ∨
  ∃ l, c.counters = 0 :: 0 :: l

theorem opening_listening (hc : c.Opening) (hlistening : c.runner.pc.listening = true) :
    (c.counters = [0] ∧ (∀ told ∈ c.stmts, told = (0, .selectRandomCmd)) ∧
      c.runner.reselectRound = 0 ∧ c.runner.roundSetting = 0 ∧ c.runner.pendingSetting = 0) ∨
    ∃ l, c.counters = 0 :: 0 :: l := by
  rcases hc with ⟨-, -, hout⟩ | ⟨hone, hrandom, hzero⟩ | htwo
  · rw [hout] at hlistening
    cases hlistening
  · exact .inl ⟨hone, hrandom, hzero hlistening⟩
  · exact .inr htwo

theorem opening_moves (hn : cfg.queueReselectRandomizedEveryNth = some n) (hc : c.Opening)
    (h : c.Moves cfg e d) : d.Opening := by
  cases h with
  | start hround hsetting htold =>
    obtain ⟨hcounters, hstmts⟩ := htold
    refine .inr (.inl ⟨hcounters, ?_, fun _ => ⟨hround, hsetting⟩⟩)
    rw [hstmts]
    nofun
  | @enter _ _ round hlistening hreturned hbound htested hsetting htold =>
    obtain ⟨hcounters, -⟩ := htold
    rcases opening_listening hc hlistening with ⟨hone, -, -, -, hpending⟩ | ⟨l, htwo⟩
    · rw [hpending] at hreturned
      obtain rfl : round = 0 := hreturned
      exact .inr (.inr ⟨[], by rw [hcounters, hone]; rfl⟩)
    · exact .inr (.inr ⟨l ++ [round], by rw [hcounters, htwo]; rfl⟩)
  | @select _ _ stmt hlistening hprepared hfree hround hsetting htold =>
    obtain ⟨hcounters, hstmts⟩ := htold
    rcases opening_listening hc hlistening with ⟨hone, hrandom, hzeroRound, hzeroSetting⟩ | ⟨l, htwo⟩
    · refine .inr (.inl ⟨hcounters.trans hone, ?_, fun _ => ?_⟩)
      · have hstmt := (prepared_free hn hprepared hfree).mpr (by rw [hzeroRound]; exact Nat.dvd_zero _)
        rw [hstmts, hone, hstmt]
        intro told hmem
        rcases List.mem_append.mp hmem with hmem | hmem
        · exact hrandom told hmem
        · exact List.mem_singleton.mp hmem
      · rw [hround, hsetting.1, hsetting.2]
        exact ⟨hzeroRound, hzeroSetting⟩
    · exact .inr (.inr ⟨l, hcounters.trans htwo⟩)
  | keep hlistening hround hstored hsetting htold =>
    obtain ⟨hcounters, hstmts⟩ := htold
    rcases opening_listening hc hlistening with
      ⟨hone, hrandom, hzeroRound, hzeroSetting, hzeroPending⟩ | ⟨l, htwo⟩
    · refine .inr (.inl ⟨hcounters.trans hone, by rwa [hstmts], fun _ => ?_⟩)
      rw [hround, hsetting]
      exact ⟨hzeroRound, hstored.elim (·.trans hzeroSetting) (·.trans hzeroPending), hzeroPending⟩
    · exact .inr (.inr ⟨l, hcounters.trans htwo⟩)
  | rollback hlistening hround hsetting htold =>
    obtain ⟨hcounters, hstmts⟩ := htold
    rcases opening_listening hc hlistening with ⟨hone, hrandom, hzeroRound, hzeroSetting, -⟩ | ⟨l, htwo⟩
    · refine .inr (.inl ⟨hcounters.trans hone, by rwa [hstmts], fun _ => ?_⟩)
      rw [hround, hsetting.1, hsetting.2]
      exact ⟨hzeroRound, hzeroSetting, hzeroSetting⟩
    · exact .inr (.inr ⟨l, hcounters.trans htwo⟩)
  | leave hgone htold =>
    obtain ⟨hcounters, hstmts⟩ := htold
    rcases hc with ⟨hnone, hnil, -⟩ | ⟨hone, hrandom, -⟩ | ⟨l, htwo⟩
    · exact .inl ⟨hcounters.trans hnone, hstmts.trans hnil, hgone⟩
    · refine .inr (.inl ⟨hcounters.trans hone, by rwa [hstmts], fun hlistening => ?_⟩)
      rw [hgone] at hlistening
      cases hlistening
    · exact .inr (.inr ⟨l, hcounters.trans htwo⟩)

theorem opening_run {rows : QueueTable} (hn : cfg.queueReselectRandomizedEveryNth = some n)
    (h : Transition.Run (CountedStep cfg) { runner := { rows := rows } } tr c) : c.Opening :=
  h.invariant_state (.inl ⟨rfl, rfl, rfl⟩) fun _ _ _ hs hstep => opening_moves hn hs (moves_step hstep)

theorem countsRounds_nil (h : c.counters = []) (hstmts : c.stmts = []) : CountsRounds n c := by
  refine ⟨?_, ?_, fun i hi => ?_⟩
  · rw [h]
    nofun
  · rw [hstmts]
    nofun
  · rw [h] at hi
    have hlen : i + (n : Nat) ≤ 0 := hi
    have hpos := n.pos
    omega

theorem countsRounds_one (h : c.counters = [0]) (hstmts : ∀ told ∈ c.stmts, told = (0, .selectRandomCmd)) :
    CountsRounds n c := by
  refine ⟨fun k counter hk => ?_, fun k stmt hmem => ?_, fun i hi => ?_⟩
  · rw [h] at hk
    cases k with
    | zero => exact (Option.some.inj hk).symm
    | succ k => cases hk
  · cases hstmts _ hmem
    exact iff_of_true rfl (Nat.dvd_zero _)
  · rw [h] at hi ⊢
    have hlen : i + (n : Nat) ≤ 1 := hi
    have hpos := n.pos
    obtain ⟨rfl, hone⟩ : i = 0 ∧ (n : Nat) = 1 := by omega
    rw [hone]
    rfl

/-- The second round is tested by 0 like the first one, so no session counts any further. -/
theorem countsRounds_iff {rows : QueueTable} (hn : cfg.queueReselectRandomizedEveryNth = some n)
    (h : Transition.Run (CountedStep cfg) { runner := { rows := rows } } tr c) :
    CountsRounds n c ↔ c.counters.length ≤ 1 := by
  rcases opening_run hn h with ⟨hnone, hnil, -⟩ | ⟨hone, hrandom, -⟩ | ⟨l, htwo⟩
  · exact iff_of_true (countsRounds_nil hnone hnil) (by simp [hnone])
  · exact iff_of_true (countsRounds_one hone hrandom) (by simp [hone])
  · refine iff_of_false (fun hcounts => ?_) (by simp [htwo])
    exact absurd (hcounts.number 1 0 (by rw [htwo]; rfl)) nofun

/-! ## The rounds that are randomized instead -/

def CommittedStep (cfg : Config) (s : Counted) (e : RoundEvent) (t : Counted) : Prop :=
  e ≠ .other (.commit false) ∧ CountedStep cfg s e t

/-- In the rounds from the second on, the number is one behind. -/
def Counted.Behind (n : ℕ+) (c : Counted) : Prop :=
  (c.counters = [] ∧ c.stmts = [] ∧ c.runner.pc.listening = false) ∨
  ∃ m ≤ 2147483648, c.counters = 0 :: List.range m ∧
    (∀ told ∈ c.stmts, told.2 = .selectRandomCmd ↔ (n : Nat) ∣ told.1 - 1) ∧
    (c.runner.pc.listening = true → c.runner.reselectRound = m - 1 ∧ c.runner.pendingSetting = m)

theorem behind_listening (hc : c.Behind n) (hlistening : c.runner.pc.listening = true) :
    ∃ m ≤ 2147483648, c.counters = 0 :: List.range m ∧
      (∀ told ∈ c.stmts, told.2 = .selectRandomCmd ↔ (n : Nat) ∣ told.1 - 1) ∧
      c.runner.reselectRound = m - 1 ∧ c.runner.pendingSetting = m := by
  rcases hc with ⟨-, -, hout⟩ | ⟨m, hm, hrange, hrandom, hlast⟩
  · rw [hout] at hlistening
    cases hlistening
  · exact ⟨m, hm, hrange, hrandom, hlast hlistening⟩

theorem behind_moves (hn : cfg.queueReselectRandomizedEveryNth = some n) (hc : c.Behind n)
    (he : e ≠ .other (.commit false)) (h : c.Moves cfg e d) : d.Behind n := by
  cases h with
  | start hround hsetting htold =>
    obtain ⟨hcounters, hstmts⟩ := htold
    refine .inr ⟨0, by omega, hcounters, ?_, fun _ => ⟨hround, hsetting.2⟩⟩
    rw [hstmts]
    nofun
  | @enter _ _ round hlistening hreturned hbound htested hsetting htold =>
    obtain ⟨hcounters, hstmts⟩ := htold
    obtain ⟨m, hm, hrange, hrandom, -, hpending⟩ := behind_listening hc hlistening
    -- The round was fetched before the setting could wrap around.
    have hnext : enterReselectRound c.runner.pendingSetting = (m + 1, m) := by
      rw [hpending]
      unfold enterReselectRound
      rw [if_neg (by omega)]
    rw [hnext] at hreturned hsetting
    obtain rfl : round = m := hreturned
    refine .inr ⟨round + 1, by omega, ?_, by rwa [hstmts], fun _ => ⟨htested, hsetting⟩⟩
    rw [hcounters, hrange, List.range_succ]
    rfl
  | @select _ _ stmt hlistening hprepared hfree hround hsetting htold =>
    obtain ⟨hcounters, hstmts⟩ := htold
    obtain ⟨m, hm, hrange, hrandom, htested, hpending⟩ := behind_listening hc hlistening
    refine .inr ⟨m, hm, hcounters.trans hrange, ?_, fun _ => ⟨hround.trans htested, hsetting.2.trans hpending⟩⟩
    rw [hstmts]
    intro told hmem
    rcases List.mem_append.mp hmem with hmem | hmem
    · exact hrandom told hmem
    · rw [List.mem_singleton.mp hmem, hrange, List.length_cons, List.length_range, Nat.add_sub_cancel,
        ← htested]
      exact prepared_free hn hprepared hfree
  | keep hlistening hround _ hsetting htold =>
    obtain ⟨hcounters, hstmts⟩ := htold
    obtain ⟨m, hm, hrange, hrandom, hlast⟩ := behind_listening hc hlistening
    refine .inr ⟨m, hm, hcounters.trans hrange, by rwa [hstmts], fun _ => ?_⟩
    rw [hround, hsetting]
    exact hlast
  | rollback => exact absurd rfl he
  | leave hgone htold =>
    obtain ⟨hcounters, hstmts⟩ := htold
    rcases hc with ⟨hnone, hnil, -⟩ | ⟨m, hm, hrange, hrandom, -⟩
    · exact .inl ⟨hcounters.trans hnone, hstmts.trans hnil, hgone⟩
    · refine .inr ⟨m, hm, hcounters.trans hrange, by rwa [hstmts], fun hlistening => ?_⟩
      rw [hgone] at hlistening
      cases hlistening

/-- Where every COMMIT succeeds, the free choices are random in the first round, in the second,
and then in every `n`th. -/
theorem randomized_of_committed {rows : QueueTable} {k : Nat} {stmt : Prepared}
    (hn : cfg.queueReselectRandomizedEveryNth = some n)
    (h : Transition.Run (CommittedStep cfg) { runner := { rows := rows } } tr c)
    (hmem : (k, stmt) ∈ c.stmts) : stmt = .selectRandomCmd ↔ (n : Nat) ∣ k - 1 := by
  have hbehind : c.Behind n := h.invariant_state (I := Counted.Behind n) (.inl ⟨rfl, rfl, rfl⟩)
    fun _ _ _ hs hstep => behind_moves hn hs hstep.1 (moves_step hstep.2)
  rcases hbehind with ⟨-, hnil, -⟩ | ⟨_, -, -, hrandom, -⟩
  · rw [hnil] at hmem
    cases hmem
  · exact hrandom _ hmem

/-! ## Three rounds -/

/-- Every third round is to be randomized. -/
def everyThird : Config := { nightly with queueReselectRandomizedEveryNth := some 3 }

def emptyRound (stmt : Prepared) : List RoundEvent := [.select stmt [] none,
  .other (.enterReselectRound true), .other (.commit true), .other .notifies, .other .pollTimeout]

theorem countsRounds_everyThird : ∃ c : Counted, Transition.Run (CountedStep everyThird)
    { runner := { rows := ∅ } } [.other (.runnerSessionStart true)] c ∧ CountsRounds 3 c := by
  have hlast : (([.other (.runnerSessionStart true)] : List RoundEvent).foldlM (Counted.next everyThird)
      { runner := { rows := ∅ } }).any (fun c => c.counters.length ≤ 1) = true := by
    decide +kernel
  obtain ⟨c, hc, hlen⟩ := (Option.any_eq_true _ _).mp hlast
  have hrun := Transition.Run.of_foldlM hc
  exact ⟨c, hrun, (countsRounds_iff rfl hrun).mpr (of_decide_eq_true hlen)⟩

theorem not_countsRounds_everyThird : ∃ c : Counted, Transition.Run (CountedStep everyThird)
    { runner := { rows := ∅ } } (.other (.runnerSessionStart true) :: emptyRound .selectRandomCmd ++
      [.select .selectRandomCmd [] none]) c ∧
    c.counters = [0, 0] ∧ c.stmts = [(0, .selectRandomCmd), (1, .selectRandomCmd)] ∧
      ¬CountsRounds 3 c := by
  have hlast : ((.other (.runnerSessionStart true) :: emptyRound .selectRandomCmd ++
      [.select .selectRandomCmd [] none] : List RoundEvent).foldlM (Counted.next everyThird)
      { runner := { rows := ∅ } }).any (fun c => c.counters = [0, 0] ∧
        c.stmts = [(0, .selectRandomCmd), (1, .selectRandomCmd)]) = true := by
    decide +kernel
  obtain ⟨c, hc, htold⟩ := (Option.any_eq_true _ _).mp hlast
  obtain ⟨hcounters, hstmts⟩ := of_decide_eq_true htold
  refine ⟨c, Transition.Run.of_foldlM hc, hcounters, hstmts, fun hcounts => ?_⟩
  exact absurd (hcounts.number 1 0 (by rw [hcounters]; rfl)) nofun

end PgCmdQueue.Runner
