import PgCmdQueue.WithCmdqd.Wrapper

/-!
# What is left when `with_cmdqd` has ended

`clean_exit()` is called from `main()` and from the handler of a signal, at any place of either.
-/

namespace PgCmdQueue.WithCmdqd

open RunCmd

variable {asserts : Bool} {s t : State} {e : Event} {tr : List Event} {sig : Sig} {d : Death}
  {code wstatus garbage : Nat} {child : Option Child}

/-! ## A child -/

@[simp]
theorem unreaped_ends : Unreaped (ends d child) ↔ Unreaped child := by
  unfold Unreaped
  rcases child with _ | (_ | _ | _) <;> simp [ends]

@[simp]
theorem ends_eq_reaped {d' : Death} : ends d child = some (.reaped d') ↔ child = some (.reaped d') := by
  rcases child with _ | (_ | _ | _) <;> simp [ends]

@[simp]
theorem ends_eq_none : ends d child = none ↔ child = none := by
  rcases child with _ | (_ | _ | _) <;> simp [ends]

@[simp]
theorem not_unreaped_reaped : ¬Unreaped (some (.reaped d)) := by
  simp [Unreaped]

@[simp]
theorem not_unreaped_none : ¬Unreaped none := by
  simp [Unreaped]

theorem not_reaped (h : Unreaped child) : ¬Reaped child := by
  rintro ⟨d, rfl⟩
  exact not_unreaped_reaped h

/-- Where there is a child, `waitpid()` returns its status. -/
theorem waitpid_unreaped {r : Option Child × Nat} (h : Unreaped child)
    (hr : waitpid garbage child = some r) : ∃ d, r = (some (.reaped d), d.wstatus) := by
  rcases h with rfl | ⟨d, rfl⟩
  · cases hr
  · cases hr
    exact ⟨d, rfl⟩

theorem exitCodeOfPsql_wstatus (d : Death) : exitCodeOfPsql d.wstatus = match d with
    | .exited status => status
    | .signaled sig _ => 128 + sig := by
  unfold exitCodeOfPsql
  cases d with
  | exited status => rw [if_pos (wifexited_exited status), wexitstatus_exited]
  | signaled sig coreDumped =>
    rw [if_neg (by simp [wifexited_signaled]), if_pos (wifsignaled_signaled sig coreDumped),
      wtermsig_signaled]

/-- Only one end passes the checks of `clean_exit()`. -/
theorem eq_success (hsignaled : wifsignaled d.wstatus = false) (hstatus : wexitstatus d.wstatus = 0) :
    d = .success := by
  cases d with
  | exited status =>
    rw [wexitstatus_exited] at hstatus
    unfold Death.success
    congr
    apply Fin.ext
    exact hstatus
  | signaled sig coreDumped =>
    rw [wifsignaled_signaled] at hsignaled
    cases hsignaled

/-! ## What the exit code tells -/

/-- Where the code comes from that `clean_exit()` was called with. -/
inductive Origin (s : State) : Nat → Prop
  | timeout (quiet : s.handling = []) (psql : s.psql = none) : Origin s exitCmdqdSigusr1Timeout
  | command {d : Death} (quiet : s.handling = []) (ready : s.cmdqdIsReady = true)
      (psql : s.psql = some (.reaped d)) : Origin s (exitCodeOfPsql d.wstatus)
  | signal {sig : Sig} (mem : sig ∈ s.handling) : Origin s (128 + sig.num)

theorem Origin.of_eq (ho : Origin s code) (hhandling : t.handling = s.handling)
    (hready : t.cmdqdIsReady = s.cmdqdIsReady) (hpsql : t.psql = s.psql) : Origin t code := by
  cases ho with
  | timeout quiet psql => exact .timeout (hhandling.trans quiet) (hpsql.trans psql)
  | command quiet ready psql =>
    exact .command (hhandling.trans quiet) (hready.trans ready) (hpsql.trans psql)
  | signal mem => exact .signal (hhandling ▸ mem)

/-- Why the program exits with a code. -/
inductive Cause (s : State) : Nat → Prop
  | cmdqdForkError (cmdqd : s.cmdqd = none) : Cause s exitCmdqdForkError
  | sigusr1Timeout (cmdqd : s.cmdqd = some (.reaped .success)) (psql : s.psql = none) :
      Cause s exitCmdqdSigusr1Timeout
  | cmdqdFailure {d : Death} (cmdqd : s.cmdqd = some (.reaped d))
      (failed : d = .success → s.history.late = true) : Cause s exitCmdqdFailure
  | psqlForkError (ready : s.cmdqdIsReady = true) (psql : s.psql = none) : Cause s exitPsqlForkError
  | command {d : Death} (quiet : s.handling = []) (ready : s.cmdqdIsReady = true)
      (cmdqd : s.cmdqd = some (.reaped .success)) (psql : s.psql = some (.reaped d)) :
      Cause s (exitCodeOfPsql d.wstatus)
  | signal {sig : Sig} (mem : sig ∈ s.handling) : Cause s (128 + sig.num)

/-! ## What holds at each place -/

/-- The course of `main()` from the start of the daemon to the end of the command. -/
structure State.Undisturbed (s : State) : Prop where
  pidSet : s.cmdqdPidSet = true
  cmdqd : Unreaped s.cmdqd
  quiet : s.handling = []
  history : s.history = {}

/-- The daemon is still to be stopped. -/
structure State.Owns (s : State) : Prop where
  pidSet : s.cmdqdPidSet = true
  cmdqd : Unreaped s.cmdqd
  early : s.history.early = false
  late : s.history.late = false
  strayed : s.history.strayed = false
  forkFailed : s.history.psqlForkFailed = true → s.handling ≠ []

/-- A signal calls `clean_exit()` once more, with the pid of a daemon that is reaped. -/
structure State.Late (s : State) : Prop where
  pidSet : s.cmdqdPidSet = true
  cmdqd : Reaped s.cmdqd
  terminated : s.history.terminated = true
  early : s.history.early = false
  late : s.history.late = true
  handling : s.handling ≠ []

/-- The daemon will not be stopped any more. -/
structure State.Disowned (s : State) : Prop where
  pidSet : s.cmdqdPidSet = false
  cmdqd : Unreaped s.cmdqd ↔ s.history.early = true
  terminated : Reaped s.cmdqd → s.history.terminated = true
  strayed : s.history.strayed = s.history.late
  forkFailed : s.history.psqlForkFailed = true → s.handling ≠ []
  late : s.history.late = true → s.handling ≠ []

/-- The daemon's status is known. -/
structure State.Stored (s : State) (wstatus : Nat) : Prop where
  cmdqd : ∃ d, s.cmdqd = some (.reaped d) ∧ (s.history.late = false → wstatus = d.wstatus)
  terminated : s.history.terminated = true
  early : s.history.early = false
  strayed : s.history.strayed = s.history.late
  forkFailed : s.history.psqlForkFailed = true → s.handling ≠ []
  late : s.history.late = true → s.handling ≠ []

/-- `fork()` failed for the command. -/
structure State.PsqlForkFailed (s : State) : Prop where
  pidSet : s.cmdqdPidSet = true
  cmdqd : Unreaped s.cmdqd
  ready : s.cmdqdIsReady = true
  psql : s.psql = none
  quiet : s.handling = []
  history : s.history = { psqlForkFailed := true }

def State.Ends (s : State) (code : Nat) : Prop :=
  (s.Disowned ∧ Cause s code) ∨ (s.PsqlForkFailed ∧ code = exitPsqlForkError)

def Inv (s : State) : Prop :=
  match s.pc with
  | .forkCmdqd => s.cmdqdPidSet = false ∧ s.cmdqd = none ∧ s.psql = none ∧ s.handling = [] ∧ s.history = {}
  | .assign => s.cmdqdPidSet = false ∧ Unreaped s.cmdqd ∧ s.psql = none ∧ s.handling = [] ∧ s.history = {}
  | .sleep | .slept => s.Undisturbed ∧ s.psql = none
  | .forkPsql => s.Undisturbed ∧ s.psql = none ∧ s.cmdqdIsReady = true
  | .waitPsql => s.Undisturbed ∧ Unreaped s.psql ∧ s.cmdqdIsReady = true
  | .psqlEnded wstatus => s.Undisturbed ∧ s.cmdqdIsReady = true ∧
      ∃ d, s.psql = some (.reaped d) ∧ wstatus = d.wstatus
  | .clean code => (s.Owns ∨ s.Late ∨ s.Disowned ∧ s.handling ≠ []) ∧ Origin s code
  | .cleanWait code => (s.Owns ∧ s.history.terminated = true ∨ s.Late ∧ s.history.strayed = true) ∧
      Origin s code
  | .cleanReaped code wstatus => s.Stored wstatus ∧ s.cmdqdPidSet = true ∧ Origin s code
  | .cleanStatus code wstatus => s.Stored wstatus ∧ s.cmdqdPidSet = false ∧ Origin s code
  | .exiting code => s.Ends code
  | .exited code => s.Ends code
  | .aborted => s.history.late = true

theorem State.Undisturbed.owns (hs : s.Undisturbed) : s.Owns := by
  obtain ⟨hpid, hcmdqd, -, hhistory⟩ := hs
  constructor <;> simp [hpid, hcmdqd, hhistory]

theorem State.PsqlForkFailed.owns (hs : s.PsqlForkFailed) (hsig : t.handling ≠ [])
    (ht : t.cmdqdPidSet = s.cmdqdPidSet ∧ t.cmdqd = s.cmdqd ∧ t.history = s.history) : t.Owns := by
  obtain ⟨hpid, hcmdqd, -, -, -, hhistory⟩ := hs
  obtain ⟨hpid', hcmdqd', hhistory'⟩ := ht
  constructor <;> simp [hpid, hcmdqd, hhistory, hpid', hcmdqd', hhistory', hsig]

/-! ## The steps -/

/-- A handler that calls `clean_exit()`. -/
theorem inv_fatal (hs : Inv s) (hover : s.pc.over = false) (hfatal : s.Fatal sig) :
    Inv (s.handleSignal sig) := by
  unfold State.handleSignal
  rw [if_pos hfatal]
  refine ⟨?_, .signal List.mem_cons_self⟩
  unfold Inv at hs
  cases hpc : s.pc <;> rw [hpc] at hs hover <;> dsimp only at hs
  case forkCmdqd =>
    obtain ⟨hpid, hcmdqd, -, -, hhistory⟩ := hs
    refine .inr (.inr ⟨?_, by simp⟩)
    constructor <;> simp [hpid, hcmdqd, hhistory, Reaped]
  case assign =>
    obtain ⟨hpid, hcmdqd, -, -, hhistory⟩ := hs
    refine .inr (.inr ⟨?_, by simp⟩)
    constructor <;> simp [hpid, hcmdqd, hhistory, not_reaped hcmdqd]
  case sleep | slept | forkPsql | waitPsql | psqlEnded =>
    have howns := hs.1.owns
    left
    constructor <;> simp [howns.pidSet, howns.cmdqd, howns.early, howns.late, howns.strayed]
  case clean =>
    obtain ⟨howns | hlate | ⟨hdisowned, -⟩, -⟩ := hs
    · left
      constructor <;> simp [howns.pidSet, howns.cmdqd, howns.early, howns.late, howns.strayed]
    · right; left
      constructor <;> simp [hlate.pidSet, hlate.cmdqd, hlate.early, hlate.late, hlate.terminated]
    · refine .inr (.inr ⟨?_, by simp⟩)
      constructor <;> simp [hdisowned.pidSet, hdisowned.cmdqd, hdisowned.strayed]
      exact hdisowned.terminated
  case cleanWait =>
    obtain ⟨⟨howns, -⟩ | ⟨hlate, -⟩, -⟩ := hs
    · left
      constructor <;> simp [howns.pidSet, howns.cmdqd, howns.early, howns.late, howns.strayed]
    · right; left
      constructor <;> simp [hlate.pidSet, hlate.cmdqd, hlate.early, hlate.late, hlate.terminated]
  case cleanReaped =>
    obtain ⟨hstored, hpid, -⟩ := hs
    obtain ⟨d, hd, -⟩ := hstored.cmdqd
    right; left
    constructor <;> simp [hpid, hd, Reaped, hstored.terminated, hstored.early]
  case cleanStatus =>
    obtain ⟨hstored, hpid, -⟩ := hs
    obtain ⟨d, hd, -⟩ := hstored.cmdqd
    refine .inr (.inr ⟨?_, by simp⟩)
    constructor <;> simp [hpid, hd, hstored.terminated, hstored.early, hstored.strayed]
  case exiting =>
    rcases hs with ⟨hdisowned, -⟩ | ⟨hfailed, -⟩
    · refine .inr (.inr ⟨?_, by simp⟩)
      constructor <;> simp [hdisowned.pidSet, hdisowned.cmdqd, hdisowned.strayed]
      exact hdisowned.terminated
    · left
      exact hfailed.owns (by simp) ⟨rfl, rfl, by simp⟩
  case exited | aborted => cases hover

/-- The states differ at most in their place, and in what a child's end, or SIGUSR1 from the
daemon, changes. -/
structure Same (s t : State) : Prop where
  pidSet : t.cmdqdPidSet = s.cmdqdPidSet
  ready : s.cmdqdIsReady = true → t.cmdqdIsReady = true
  handling : t.handling = s.handling
  history : t.history = s.history
  cmdqd : t.cmdqd = s.cmdqd ∨ ∃ d, t.cmdqd = ends d s.cmdqd
  psql : t.psql = s.psql ∨ ∃ d, t.psql = ends d s.psql

namespace Same

variable (h : Same s t)

include h

theorem unreaped_cmdqd : Unreaped t.cmdqd ↔ Unreaped s.cmdqd := by
  rcases h.cmdqd with hsame | ⟨d, hends⟩ <;> simp [*]

theorem cmdqd_eq_reaped : t.cmdqd = some (.reaped d) ↔ s.cmdqd = some (.reaped d) := by
  rcases h.cmdqd with hsame | ⟨d, hends⟩ <;> simp [*]

theorem reaped_cmdqd : Reaped t.cmdqd ↔ Reaped s.cmdqd := by
  simp [Reaped, h.cmdqd_eq_reaped]

theorem cmdqd_eq_none : t.cmdqd = none ↔ s.cmdqd = none := by
  rcases h.cmdqd with hsame | ⟨d, hends⟩ <;> simp [*]

theorem unreaped_psql : Unreaped t.psql ↔ Unreaped s.psql := by
  rcases h.psql with hsame | ⟨d, hends⟩ <;> simp [*]

theorem psql_eq_reaped : t.psql = some (.reaped d) ↔ s.psql = some (.reaped d) := by
  rcases h.psql with hsame | ⟨d, hends⟩ <;> simp [*]

theorem psql_eq_none : t.psql = none ↔ s.psql = none := by
  rcases h.psql with hsame | ⟨d, hends⟩ <;> simp [*]

theorem origin (ho : Origin s code) : Origin t code := by
  cases ho with
  | timeout quiet psql => exact .timeout (h.handling ▸ quiet) (h.psql_eq_none.mpr psql)
  | command quiet ready psql =>
    exact .command (h.handling ▸ quiet) (h.ready ready) (h.psql_eq_reaped.mpr psql)
  | signal mem => exact .signal (h.handling ▸ mem)

theorem cause (hc : Cause s code) : Cause t code := by
  cases hc with
  | cmdqdForkError cmdqd => exact .cmdqdForkError (h.cmdqd_eq_none.mpr cmdqd)
  | sigusr1Timeout cmdqd psql =>
    exact .sigusr1Timeout (h.cmdqd_eq_reaped.mpr cmdqd) (h.psql_eq_none.mpr psql)
  | cmdqdFailure cmdqd failed =>
    exact .cmdqdFailure (h.cmdqd_eq_reaped.mpr cmdqd) (h.history ▸ failed)
  | psqlForkError ready psql => exact .psqlForkError (h.ready ready) (h.psql_eq_none.mpr psql)
  | command quiet ready cmdqd psql =>
    exact .command (h.handling ▸ quiet) (h.ready ready) (h.cmdqd_eq_reaped.mpr cmdqd)
      (h.psql_eq_reaped.mpr psql)
  | signal mem => exact .signal (h.handling ▸ mem)

theorem undisturbed (hs : s.Undisturbed) : t.Undisturbed := by
  obtain ⟨hpid, hcmdqd, hquiet, hhistory⟩ := hs
  constructor <;> simp [h.unreaped_cmdqd, h.pidSet, h.handling, h.history, *]

theorem owns (hs : s.Owns) : t.Owns := by
  obtain ⟨hpid, hcmdqd, hearly, hlate, hstrayed, hfailed⟩ := hs
  constructor <;> simp [h.unreaped_cmdqd, h.pidSet, h.handling, h.history, *]
  exact hfailed

theorem late (hs : s.Late) : t.Late := by
  obtain ⟨hpid, hcmdqd, hterminated, hearly, hlate, hhandling⟩ := hs
  constructor <;> simp [h.reaped_cmdqd, h.pidSet, h.handling, h.history, *]

theorem disowned (hs : s.Disowned) : t.Disowned := by
  obtain ⟨hpid, hcmdqd, hterminated, hstrayed, hfailed, hlate⟩ := hs
  constructor <;> simp [h.unreaped_cmdqd, h.reaped_cmdqd, h.pidSet, h.handling, h.history, *]
  · exact hterminated
  · exact hfailed
  · exact hlate

theorem stored (hs : s.Stored wstatus) : t.Stored wstatus := by
  obtain ⟨hcmdqd, hterminated, hearly, hstrayed, hfailed, hlate⟩ := hs
  constructor <;> simp [h.cmdqd_eq_reaped, h.handling, h.history, *]
  · exact hfailed
  · exact hlate

theorem ends {code : Nat} (hs : s.Ends code) : t.Ends code := by
  rcases hs with ⟨hdisowned, hcause⟩ | ⟨⟨hpid, hcmdqd, hready, hpsql, hquiet, hhistory⟩, hcode⟩
  · exact .inl ⟨h.disowned hdisowned, h.cause hcause⟩
  · exact .inr ⟨⟨h.pidSet.trans hpid, h.unreaped_cmdqd.mpr hcmdqd, h.ready hready,
      h.psql_eq_none.mpr hpsql, h.handling.trans hquiet, h.history.trans hhistory⟩, hcode⟩

theorem inv (hpc : t.pc = s.pc) (hs : Inv s) : Inv t := by
  unfold Inv at hs ⊢
  rw [hpc]
  cases hpc : s.pc <;> rw [hpc] at hs <;> dsimp only at hs ⊢
  case forkCmdqd | assign =>
    simpa [h.cmdqd_eq_none, h.psql_eq_none, h.unreaped_cmdqd, h.pidSet, h.handling, h.history] using hs
  case sleep | slept => exact ⟨h.undisturbed hs.1, h.psql_eq_none.mpr hs.2⟩
  case forkPsql => exact ⟨h.undisturbed hs.1, h.psql_eq_none.mpr hs.2.1, h.ready hs.2.2⟩
  case waitPsql => exact ⟨h.undisturbed hs.1, h.unreaped_psql.mpr hs.2.1, h.ready hs.2.2⟩
  case psqlEnded =>
    obtain ⟨hmain, hready, d, hd, hstatus⟩ := hs
    exact ⟨h.undisturbed hmain, h.ready hready, d, h.psql_eq_reaped.mpr hd, hstatus⟩
  case clean => exact ⟨hs.1.imp h.owns (Or.imp h.late fun ⟨hdisowned, hhandling⟩ =>
    ⟨h.disowned hdisowned, h.handling ▸ hhandling⟩), h.origin hs.2⟩
  case cleanWait =>
    rw [h.history]
    exact ⟨hs.1.imp (And.imp_left h.owns) (And.imp_left h.late), h.origin hs.2⟩
  case cleanReaped | cleanStatus => exact ⟨h.stored hs.1, h.pidSet.trans hs.2.1, h.origin hs.2.2⟩
  case exiting | exited => exact h.ends hs
  case aborted => rwa [h.history]

end Same

theorem same_pc (s : State) (pc : Pc) : Same s { s with pc := pc } :=
  ⟨rfl, id, rfl, rfl, .inl rfl, .inl rfl⟩

/-! ## The program's own steps -/

theorem inv_handleSignal (hs : Inv s) (hover : s.pc.over = false) : Inv (s.handleSignal sig) := by
  by_cases hfatal : s.Fatal sig
  · exact inv_fatal hs hover hfatal
  · unfold State.handleSignal
    rw [if_neg hfatal]
    split
    · exact Same.inv (s := s) ⟨rfl, fun _ => rfl, rfl, rfl, .inl rfl, .inl rfl⟩ rfl hs
    · exact hs

theorem Origin.cause (ho : Origin s code) (hstored : s.Stored wstatus)
    (hsignaled : wifsignaled wstatus = false) (hstatus : wexitstatus wstatus = 0) : Cause s code := by
  have hsuccess : s.handling = [] → s.cmdqd = some (.reaped .success) := by
    intro hquiet
    obtain ⟨d, hd, hw⟩ := hstored.cmdqd
    have hlate : s.history.late = false := by
      by_contra hlate
      exact hstored.late (by simpa using hlate) hquiet
    rw [hw hlate] at hsignaled hstatus
    rw [hd, eq_success hsignaled hstatus]
  cases ho with
  | timeout quiet psql => exact .sigusr1Timeout (hsuccess quiet) psql
  | command quiet ready psql => exact .command quiet ready (hsuccess quiet) psql
  | signal mem => exact .signal mem

theorem State.Stored.failure (hs : s.Stored wstatus)
    (hfailed : wifsignaled wstatus = true ∨ wexitstatus wstatus ≠ 0) : Cause s exitCmdqdFailure := by
  obtain ⟨d, hd, hw⟩ := hs.cmdqd
  refine .cmdqdFailure hd fun hsuccess => ?_
  by_contra hlate
  rw [hw (by simpa using hlate), hsuccess] at hfailed
  revert hfailed
  decide

/-- A status that is not that of an end comes from `wstatus` not being set. -/
theorem State.Stored.late_of_abort (hs : s.Stored wstatus) (hsignaled : wifsignaled wstatus = false)
    (hexited : wifexited wstatus = false) : s.history.late = true := by
  obtain ⟨d, -, hw⟩ := hs.cmdqd
  by_contra hlate
  rw [hw (by simpa using hlate)] at hsignaled hexited
  cases d with
  | exited status =>
    rw [wifexited_exited] at hexited
    cases hexited
  | signaled sig coreDumped =>
    rw [wifsignaled_signaled] at hsignaled
    cases hsignaled

theorem State.Stored.disowned (hs : s.Stored wstatus) (hpid : s.cmdqdPidSet = false) : s.Disowned := by
  obtain ⟨⟨d, hd, -⟩, hterminated, hearly, hstrayed, hfailed, hlate⟩ := hs
  constructor <;> simp [hpid, hd, hterminated, hearly, hstrayed]
  · exact hfailed
  · exact hlate

theorem inv_checkCmdqd (hs : s.Stored wstatus) (hpid : s.cmdqdPidSet = false) (ho : Origin s code) :
    Inv (s.checkCmdqd asserts code wstatus) := by
  have hends {code : Nat} (hcause : Cause s code) : Inv { s with pc := .exiting code } :=
    .inl ⟨(same_pc s _).disowned (hs.disowned hpid), (same_pc s _).cause hcause⟩
  unfold State.checkCmdqd
  split
  · exact hends (hs.failure (.inl ‹_›))
  · rename_i hsignaled
    rw [Bool.not_eq_true] at hsignaled
    split
    · rename_i habort
      exact hs.late_of_abort hsignaled (by simpa using habort.2)
    · split
      · exact hends (hs.failure (.inr ‹_›))
      · exact hends (ho.cause hs hsignaled (by simpa using ‹¬wexitstatus wstatus ≠ 0›))

theorem inv_kill (hs : s.Owns ∨ s.Late) (ho : Origin s code) :
    Inv { s.kill with pc := .cleanWait code } := by
  have ho' : Origin { s.kill with pc := .cleanWait code } code := ho.of_eq rfl rfl rfl
  rcases hs with howns | hlate
  · have hunreaped := not_reaped howns.cmdqd
    refine ⟨.inl ⟨?_, by simp [State.kill, hunreaped]⟩, ho'⟩
    exact ⟨howns.pidSet, howns.cmdqd, howns.early, howns.late,
      by simp [State.kill, howns.strayed, hunreaped], howns.forkFailed⟩
  · refine ⟨.inr ⟨?_, by simp [State.kill, hlate.cmdqd]⟩, ho'⟩
    exact ⟨hlate.pidSet, hlate.cmdqd, by simp [State.kill, hlate.terminated], hlate.early, hlate.late,
      hlate.handling⟩

theorem inv_clean (hs : (s.Owns ∨ s.Late ∨ s.Disowned ∧ s.handling ≠ []) ∧ Origin s code) :
    Inv (if s.cmdqdPidSet then { s.kill with pc := .cleanWait code } else { s with pc := .exiting code }) := by
  obtain ⟨howns | hlate | ⟨hdisowned, hhandling⟩, ho⟩ := hs
  · rw [if_pos howns.pidSet]
    exact inv_kill (.inl howns) ho
  · rw [if_pos hlate.pidSet]
    exact inv_kill (.inr hlate) ho
  · rw [if_neg (by simp [hdisowned.pidSet])]
    refine .inl ⟨(same_pc s _).disowned hdisowned, ?_⟩
    cases ho with
    | timeout quiet | command quiet => exact absurd quiet hhandling
    | signal mem => exact .signal mem

theorem inv_go (hs : Inv s) (ht : s.go asserts = some t) : Inv t := by
  unfold State.go at ht
  unfold Inv at hs
  cases hpc : s.pc <;> rw [hpc] at hs ht <;> dsimp only at hs ht <;> cases ht
  case assign =>
    obtain ⟨-, hcmdqd, hpsql, hquiet, hhistory⟩ := hs
    exact ⟨⟨rfl, hcmdqd, hquiet, hhistory⟩, hpsql⟩
  case sleep => exact ⟨(same_pc s _).undisturbed hs.1, hs.2⟩
  case slept =>
    obtain ⟨hmain, hpsql⟩ := hs
    split
    · exact ⟨(same_pc s _).undisturbed hmain, hpsql, ‹_›⟩
    · exact ⟨.inl ((same_pc s _).owns hmain.owns), .timeout hmain.quiet hpsql⟩
  case psqlEnded =>
    obtain ⟨hmain, hready, d, hd, rfl⟩ := hs
    exact ⟨.inl ((same_pc s _).owns hmain.owns), .command hmain.quiet hready hd⟩
  case clean => exact inv_clean hs
  case cleanReaped =>
    obtain ⟨hstored, -, ho⟩ := hs
    obtain ⟨hcmdqd, hterminated, hearly, hstrayed, hfailed, hlate⟩ := hstored
    exact ⟨⟨hcmdqd, hterminated, hearly, hstrayed, hfailed, hlate⟩, rfl, ho.of_eq rfl rfl rfl⟩
  case cleanStatus => exact inv_checkCmdqd hs.1 hs.2.1 hs.2.2
  case exiting => exact (same_pc s _).ends hs

theorem inv_fork {succeeds : Bool} (hs : Inv s) (ht : s.fork succeeds = some t) : Inv t := by
  unfold State.fork at ht
  unfold Inv at hs
  cases hpc : s.pc <;> rw [hpc] at hs ht <;> dsimp only at hs ht <;> cases ht
  case forkCmdqd =>
    obtain ⟨hpid, hcmdqd, hpsql, hquiet, hhistory⟩ := hs
    cases succeeds
    · refine .inl ⟨?_, .cmdqdForkError hcmdqd⟩
      constructor <;> simp [hpid, hcmdqd, hhistory, Reaped]
    · exact ⟨hpid, .inl rfl, hpsql, hquiet, hhistory⟩
  case forkPsql =>
    obtain ⟨⟨hpid, hcmdqd, hquiet, hhistory⟩, hpsql, hready⟩ := hs
    cases succeeds
    · exact .inr ⟨⟨hpid, hcmdqd, hready, hpsql, hquiet, by simp [hhistory]⟩, rfl⟩
    · exact ⟨⟨hpid, hcmdqd, hquiet, hhistory⟩, .inl rfl, hready⟩

theorem inv_wait (hs : Inv s) (ht : s.wait garbage = some t) : Inv t := by
  unfold State.wait at ht
  unfold Inv at hs
  cases hpc : s.pc <;> rw [hpc] at hs ht <;> dsimp only at hs ht
  case waitPsql =>
    obtain ⟨⟨hpid, hcmdqd, hquiet, hhistory⟩, hpsql, hready⟩ := hs
    obtain ⟨r, hr, rfl⟩ := Option.map_eq_some_iff.mp ht
    obtain ⟨d, rfl⟩ := waitpid_unreaped hpsql hr
    exact ⟨⟨hpid, hcmdqd, hquiet, hhistory⟩, hready, d, rfl, rfl⟩
  case cleanWait =>
    obtain ⟨hplace, ho⟩ := hs
    obtain ⟨r, hr, rfl⟩ := Option.map_eq_some_iff.mp ht
    rcases hplace with ⟨howns, hterminated⟩ | ⟨hlate, hstrayed⟩
    · obtain ⟨d, rfl⟩ := waitpid_unreaped howns.cmdqd hr
      refine ⟨?_, howns.pidSet, ho.of_eq rfl rfl rfl⟩
      exact ⟨⟨d, rfl, fun _ => rfl⟩, hterminated, howns.early, howns.strayed.trans howns.late.symm,
        howns.forkFailed, by simp [howns.late]⟩
    -- There is no child any more, so `wstatus` can be anything.
    · obtain ⟨d, hd⟩ := hlate.cmdqd
      rw [hd] at hr
      cases hr
      refine ⟨?_, hlate.pidSet, ho.of_eq rfl rfl rfl⟩
      exact ⟨⟨d, rfl, by simp [hlate.late]⟩, hlate.terminated, hlate.early, hstrayed.trans hlate.late.symm,
        fun _ => hlate.handling, fun _ => hlate.handling⟩
  all_goals cases ht

theorem inv_step (hs : Inv s) (ht : Step asserts s e t) : Inv t := by
  unfold Step State.step at ht
  cases e with
  | go => exact inv_go hs ht
  | fork => exact inv_fork hs ht
  | waitpid => exact inv_wait hs ht
  | signal =>
    dsimp only at ht
    split at ht <;> cases ht
    exact inv_handleSignal hs (by simp_all)
  | cmdqdEnds d =>
    cases ht
    exact Same.inv (s := s) ⟨rfl, id, rfl, rfl, .inr ⟨d, rfl⟩, .inl rfl⟩ rfl hs
  | psqlEnds d =>
    cases ht
    exact Same.inv (s := s) ⟨rfl, id, rfl, rfl, .inl rfl, .inr ⟨d, rfl⟩⟩ rfl hs

theorem inv_run (h : Transition.Run (Step asserts) {} tr s) : Inv s :=
  h.invariant_state ⟨rfl, rfl, rfl, rfl, rfl⟩ fun _ _ _ => inv_step

/-! ## The end -/

theorem ends_of_exited (h : Transition.Run (Step asserts) {} tr s) (hpc : s.pc = .exited code) :
    s.Ends code := by
  have hs := inv_run h
  unfold Inv at hs
  rwa [hpc] at hs

/-- The exit code is one of `psql` only if nothing else went wrong, and then it is that of `psql`. -/
theorem exited_iff (h : Transition.Run (Step asserts) {} tr s) (hpc : s.pc = .exited code)
    {status : Fin 256} (hstatus : status ≤ 3) :
    code = status ↔ s.cmdqdIsReady = true ∧ s.handling = [] ∧
      s.cmdqd = some (.reaped .success) ∧ s.psql = some (.reaped (.exited status)) := by
  replace hstatus : status.val ≤ 3 := hstatus
  constructor
  · intro hcode
    have hsmall : code ≤ 3 := hcode ▸ hstatus
    rcases ends_of_exited h hpc with ⟨-, hcause⟩ | ⟨-, rfl⟩
    · cases hcause with
      | @command d quiet ready cmdqd psql =>
        rw [exitCodeOfPsql_wstatus] at hcode
        cases d with
        | exited status' => exact ⟨ready, quiet, cmdqd, Fin.ext hcode ▸ psql⟩
        | signaled sig coreDumped =>
          dsimp only at hcode
          omega
      | signal mem => omega
      | _ => simp [exitCmdqdForkError, exitCmdqdSigusr1Timeout, exitCmdqdFailure, exitPsqlForkError] at hsmall
    · simp [exitPsqlForkError] at hsmall
  · rintro ⟨-, hquiet, hcmdqd, hpsql⟩
    rcases ends_of_exited h hpc with ⟨hdisowned, hcause⟩ | ⟨hfailed, -⟩
    · cases hcause with
      | cmdqdForkError cmdqd => simp [hcmdqd] at cmdqd
      | sigusr1Timeout cmdqd psql | psqlForkError ready psql => simp [hpsql] at psql
      | cmdqdFailure cmdqd failed =>
        rw [hcmdqd] at cmdqd
        cases cmdqd
        exact absurd hquiet (hdisowned.late (failed rfl))
      | command quiet ready cmdqd psql =>
        rw [hpsql] at psql
        cases psql
        rw [exitCodeOfPsql_wstatus]
      | signal mem => simp [hquiet] at mem
    · simp [hfailed.psql] at hpsql

/-- The state that the events lead to. -/
def after (tr : List Event) : State := (tr.foldlM (State.step true) {}).getD {}

theorem run_after (h : (tr.foldlM (State.step true) {}).isSome = true) :
    Transition.Run (Step true) {} tr (after tr) := by
  obtain ⟨s, hs⟩ := Option.isSome_iff_exists.mp h
  apply Transition.Run.of_foldlM
  rw [after, hs, Option.getD_some]

/-- The daemon reports, the command succeeds and the daemon is stopped. -/
def stopped : List Event := [.fork true, .go, .signal .usr1, .go, .go, .fork true, .psqlEnds .success,
  .signal .chld, .waitpid 0, .go, .go, .cmdqdEnds .success, .waitpid 0, .go, .go, .go]

theorem exited_iff_of_stopped : 0 = (0 : Fin 256).val ↔ (after stopped).cmdqdIsReady = true ∧
    (after stopped).handling = [] ∧ (after stopped).cmdqd = some (.reaped .success) ∧
      (after stopped).psql = some (.reaped (.exited 0)) :=
  exited_iff (run_after (by decide)) (by decide +kernel) (by decide)

/-- A daemon runs on in two cases only, and a daemon that does not was told to stop. -/
theorem orphaned_iff (h : Transition.Run (Step asserts) {} tr s) (hpc : s.pc = .exited code) :
    (Unreaped s.cmdqd ↔ s.history.early = true ∨ (s.history.psqlForkFailed = true ∧ s.handling = [])) ∧
    (Reaped s.cmdqd → s.history.terminated = true) ∧
    (s.history.strayed = true ↔ s.history.late = true) := by
  rcases ends_of_exited h hpc with ⟨hdisowned, -⟩ | ⟨⟨-, hcmdqd, -, -, hquiet, hhistory⟩, -⟩
  · refine ⟨?_, hdisowned.terminated, by rw [hdisowned.strayed]⟩
    rw [hdisowned.cmdqd]
    exact ⟨.inl, fun hor => hor.elim id fun ⟨hfailed, hquiet⟩ => absurd hquiet (hdisowned.forkFailed hfailed)⟩
  · simp [hcmdqd, hquiet, hhistory, not_reaped hcmdqd]

/-- SIGINT comes while `fork()` returns. -/
def orphaned : List Event := [.fork true, .signal .int, .go, .go]

theorem orphaned_iff_of_sigint : (after orphaned).pc = .exited 130 ∧
    (Unreaped (after orphaned).cmdqd ↔ (after orphaned).history.early = true ∨
      ((after orphaned).history.psqlForkFailed = true ∧ (after orphaned).handling = [])) ∧
    (Reaped (after orphaned).cmdqd → (after orphaned).history.terminated = true) ∧
    ((after orphaned).history.strayed = true ↔ (after orphaned).history.late = true) :=
  ⟨by decide, orphaned_iff (run_after (by decide)) (by decide : _ = Pc.exited 130)⟩

end PgCmdQueue.WithCmdqd
