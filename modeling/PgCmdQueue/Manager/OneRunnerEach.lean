import PgCmdQueue.Manager.Runners

/-!
# The threads of the manager

A class gets at most one runner thread, whatever lists of queues are read.
-/

namespace PgCmdQueue.Manager

open Cpp

/-! ## The threads that are created -/

/-- The class that a thread is created for. `emplace` makes the runner first and looks for the key then. -/
def createdBy (m : Manager) (q : CmdQueue) : List Bytes :=
  if q.isValid && !m.queueHasRunnerAlready q && knownTemplate q then [q.cmdClassIdentity] else []

def createdByRows (m : Manager) : List CmdQueue → List Bytes
  | [] => []
  | q :: rows => m.createdBy q ++ (m.readQueue q).createdByRows rows

def created (m : Manager) (e : Event) : List Bytes :=
  match m.listRead e with
  | some rows => { m with newCmdClasses := [] }.createdByRows rows
  | none => []

/-- A manager, and the classes of all threads that it has created. -/
structure Threads where
  manager : Manager := {}
  created : List Bytes := []

def Threads.step (s : Threads) (e : Event) : Except CppError Threads := do
  return ⟨← s.manager.step e, s.created ++ s.manager.created e⟩

def Threads.run (es : List Event) : Except CppError Threads := es.foldlM Threads.step {}

/-- What the key and the checks of `cmd_queue` make sure of. -/
structure QueueList (rows : List CmdQueue) : Prop where
  distinct : (rows.map (·.cmdClassIdentity)).Nodup
  knownTemplate : ∀ q ∈ rows, knownTemplate q = true

def Event.Admitted : Event → Prop
  | .refresh _ _ rows => QueueList rows
  | _ => True

/-- No class has a runner of both kinds. -/
def KeysDisjoint (m : Manager) : Prop := ∀ cls ∈ m.nixCmdQueueRunners, cls ∉ m.sqlCmdQueueRunners

structure OneRunnerEach (s : Threads) : Prop where
  created_nodup : s.created.Nodup
  created_mem : ∀ cls ∈ s.created, s.manager.runner cls ≠ none
  disjoint : s.manager.KeysDisjoint
  oldCmdClasses : ∀ cls ∈ s.manager.oldCmdClasses, s.manager.runner cls ≠ none

variable {m m' : Manager} {cls c : Bytes} {q : CmdQueue} {rows : List CmdQueue} {s : Threads} {e : Event}

/-! ## One list -/

theorem runner_ne_none : m.runner cls ≠ none ↔ cls ∈ m.nixCmdQueueRunners ∨ cls ∈ m.sqlCmdQueueRunners := by
  rw [ne_eq, runner_eq_none]
  tauto

theorem mem_createdBy : c ∈ m.createdBy q ↔
    m.runner c = none ∧ q.isValid = true ∧ knownTemplate q = true ∧ q.cmdClassIdentity = c := by
  have hhas : m.queueHasRunnerAlready q = false ↔ m.runner q.cmdClassIdentity = none := by
    rw [← Bool.not_eq_true, queueHasRunnerAlready_iff, ne_eq, not_not]
  unfold createdBy
  split
  · rename_i h
    simp only [Bool.and_eq_true, Bool.not_eq_true'] at h
    rw [List.mem_singleton]
    constructor
    · rintro rfl
      exact ⟨hhas.mp h.1.2, h.1.1, h.2, rfl⟩
    · exact fun hc => hc.2.2.2.symm
  · rename_i h
    refine iff_of_false List.not_mem_nil fun hc => h ?_
    obtain ⟨hnone, hvalid, hknown, rfl⟩ := hc
    simp [hvalid, hknown, hhas.mpr hnone]

theorem runner_readQueue_mono (h : m.runner c ≠ none) : (m.readQueue q).runner c ≠ none := by
  rw [runner_readQueue]
  cases hr : m.runner c with
  | none => exact absurd hr h
  | some r => simp

theorem runner_readQueues_mono (h : m.runner c ≠ none) : (rows.foldl readQueue m).runner c ≠ none := by
  obtain ⟨r, hr⟩ := Option.ne_none_iff_exists'.mp h
  rw [(runner_readQueues rows).1 r hr]
  simp

theorem runner_createdBy (h : c ∈ m.createdBy q) : (m.readQueue q).runner c ≠ none := by
  obtain ⟨hnone, hvalid, hknown, hc⟩ := mem_createdBy.mp h
  rw [runner_readQueue, hnone, if_pos ⟨hvalid, hknown, hc⟩]
  simp

/-- A thread is created for a class that had none. -/
theorem createdByRows_spec (m : Manager) (rows : List CmdQueue) : (m.createdByRows rows).Nodup ∧
    ∀ c ∈ m.createdByRows rows, m.runner c = none ∧ (rows.foldl readQueue m).runner c ≠ none := by
  induction rows generalizing m with
  | nil => exact ⟨List.nodup_nil, List.forall_mem_nil _⟩
  | cons q rows ih =>
    obtain ⟨hnodup, hrows⟩ := ih (m.readQueue q)
    have hfirst : (m.createdBy q).Nodup := by
      unfold createdBy
      split
      · exact List.nodup_singleton _
      · exact List.nodup_nil
    have hdisjoint : List.Disjoint (m.createdBy q) ((m.readQueue q).createdByRows rows) := fun c hc hc' =>
      runner_createdBy hc (hrows c hc').1
    refine ⟨hfirst.append hnodup hdisjoint, fun c hc => ?_⟩
    rw [List.foldl_cons]
    rcases List.mem_append.mp hc with hc | hc
    · exact ⟨(mem_createdBy.mp hc).1, runner_readQueues_mono (runner_createdBy hc)⟩
    · refine ⟨?_, (hrows c hc).2⟩
      by_contra hsome
      exact runner_readQueue_mono hsome (hrows c hc).1

/-! ## The keys of the maps -/

theorem mem_emplace {runners : RunnerMap} {r : CmdQueueRunner} :
    c ∈ emplace runners cls r ↔ c = cls ∨ c ∈ runners := by
  unfold emplace
  split
  · rename_i h
    constructor
    · exact .inr
    · rintro (rfl | hc)
      · exact h
      · exact hc
  · exact AList.mem_insert _

theorem keysDisjoint_addRunner (hm : m.KeysDisjoint) (h : m.runner q.cmdClassIdentity = none) :
    (m.addRunner q).KeysDisjoint := by
  obtain ⟨hnix, hsql⟩ := runner_eq_none.mp h
  unfold addRunner
  split
  · intro c hc
    rcases mem_emplace.mp hc with rfl | hc
    · exact hsql
    · exact hm c hc
  split
  · intro c hc hc'
    rcases mem_emplace.mp hc' with rfl | hc'
    · exact hnix hc
    · exact hm c hc hc'
  · exact hm

theorem keysDisjoint_newCmdClasses {l : List Bytes} :
    KeysDisjoint { m with newCmdClasses := l } ↔ m.KeysDisjoint := Iff.rfl

theorem keysDisjoint_readQueue (hm : m.KeysDisjoint) : (m.readQueue q).KeysDisjoint := by
  unfold readQueue
  split
  · rw [keysDisjoint_newCmdClasses]
    split
    · exact hm
    · rename_i hhas
      refine keysDisjoint_addRunner hm ?_
      by_contra hne
      exact hhas (queueHasRunnerAlready_iff.mpr hne)
  · exact hm

theorem keysDisjoint_readQueues (hm : m.KeysDisjoint) : (rows.foldl readQueue m).KeysDisjoint := by
  induction rows generalizing m with
  | nil => exact hm
  | cons q rows ih => exact ih (keysDisjoint_readQueue hm)

/-- What asks a runner to stop, or tells that it runs, changes no key. -/
def SameKeys (m m' : Manager) : Prop :=
  (∀ c, c ∈ m'.nixCmdQueueRunners ↔ c ∈ m.nixCmdQueueRunners) ∧
    ∀ c, c ∈ m'.sqlCmdQueueRunners ↔ c ∈ m.sqlCmdQueueRunners

theorem SameKeys.runner (h : m.SameKeys m') : m'.runner c ≠ none ↔ m.runner c ≠ none := by
  rw [runner_ne_none, runner_ne_none, h.1, h.2]

theorem SameKeys.disjoint (h : m.SameKeys m') (hm : m.KeysDisjoint) : m'.KeysDisjoint := by
  intro c hc hc'
  exact hm c ((h.1 c).mp hc) ((h.2 c).mp hc')

theorem mem_insert_iff {runners : RunnerMap} {r r' : CmdQueueRunner} (h : runners.lookup cls = some r) :
    c ∈ runners.insert cls r' ↔ c ∈ runners := by
  rw [AList.mem_insert]
  constructor
  · rintro (rfl | hc)
    · exact AList.lookup_isSome.mp (by rw [h]; rfl)
    · exact hc
  · exact .inr

theorem sameKeys_stopRunner {sigNum : Nat} (h : m.stopRunner cls sigNum = .ok m') : m.SameKeys m' := by
  unfold stopRunner at h
  cases hnix : m.nixCmdQueueRunners.lookup cls with
  | some r =>
    rw [hnix] at h
    cases h
    exact ⟨fun c => mem_insert_iff hnix, fun c => Iff.rfl⟩
  | none =>
    cases hsql : m.sqlCmdQueueRunners.lookup cls with
    | some r =>
      rw [hnix, hsql] at h
      cases h
      exact ⟨fun c => Iff.rfl, fun c => mem_insert_iff hsql⟩
    | none =>
      rw [hnix, hsql] at h
      cases h

theorem sameKeys_setRunning (m : Manager) (cls : Bytes) (running : Bool) :
    m.SameKeys (m.setRunning cls running) := by
  unfold setRunning
  cases hnix : m.nixCmdQueueRunners.lookup cls with
  | some r => exact ⟨fun c => mem_insert_iff hnix, fun c => Iff.rfl⟩
  | none =>
    cases hsql : m.sqlCmdQueueRunners.lookup cls with
    | some r => exact ⟨fun c => Iff.rfl, fun c => mem_insert_iff hsql⟩
    | none => exact ⟨fun c => Iff.rfl, fun c => Iff.rfl⟩

theorem SameKeys.trans {m₁ : Manager} (h : m.SameKeys m₁) (h' : m₁.SameKeys m') : m.SameKeys m' :=
  ⟨fun c => (h'.1 c).trans (h.1 c), fun c => (h'.2 c).trans (h.2 c)⟩

theorem sameKeys_stopIfGone (l : List Bytes) (h : l.foldlM stopIfGone m = .ok m') : m.SameKeys m' := by
  induction l generalizing m with
  | nil =>
    cases h
    exact ⟨fun c => Iff.rfl, fun c => Iff.rfl⟩
  | cons cls l ih =>
    obtain ⟨m₁, hm₁, h⟩ := bind_eq_ok h
    refine SameKeys.trans ?_ (ih h)
    unfold stopIfGone at hm₁
    split at hm₁
    · cases hm₁
      exact ⟨fun c => Iff.rfl, fun c => Iff.rfl⟩
    · exact sameKeys_stopRunner hm₁

/-! ## Whole histories -/

/-- A list that is read finds a runner for each class that it asks to stop. -/
theorem oneRunnerEach_readQueueList (hs : OneRunnerEach s) (hrows : QueueList rows) :
    ∃ m', s.manager.readQueueList rows = .ok m' ∧
      OneRunnerEach ⟨m', s.created ++ { s.manager with newCmdClasses := [] }.createdByRows rows⟩ := by
  obtain ⟨m₁, hm₁⟩ : ∃ m₁, m₁ = rows.foldl readQueue { s.manager with newCmdClasses := [] } := ⟨_, rfl⟩
  have hmono {c : Bytes} (h : s.manager.runner c ≠ none) : m₁.runner c ≠ none :=
    hm₁ ▸ runner_readQueues_mono h
  have hold : m₁.oldCmdClasses = s.manager.oldCmdClasses := hm₁ ▸ (readQueues_rest rows).1
  obtain ⟨m₂, hm₂, -⟩ := stopIfGone_spec m₁.oldCmdClasses fun c hc => hmono (hs.oldCmdClasses c (hold ▸ hc))
  have hkeys : m₁.SameKeys m₂ := sameKeys_stopIfGone _ hm₂
  have hlist : s.manager.readQueueList rows = .ok { m₂ with oldCmdClasses := m₂.newCmdClasses } := by
    unfold readQueueList
    rw [← hm₁]
    simp only [hm₂, bind, Except.bind, pure, Except.pure]
  obtain ⟨hnodup, hcreated⟩ := createdByRows_spec { s.manager with newCmdClasses := [] } rows
  rw [← hm₁] at hcreated
  refine ⟨_, hlist, ?_, fun c hc => ?_, ?_, fun c hc => ?_⟩
  · refine hs.created_nodup.append hnodup fun c hc hc' => ?_
    exact hs.created_mem c hc (hcreated c hc').1
  · refine hkeys.runner.mpr ?_
    rcases List.mem_append.mp hc with hc | hc
    · exact hmono (hs.created_mem c hc)
    · exact (hcreated c hc).2
  · refine hkeys.disjoint ?_
    rw [hm₁]
    exact keysDisjoint_readQueues hs.disjoint
  · refine hkeys.runner.mpr ?_
    obtain ⟨q, hq, rfl⟩ := List.mem_map.mp ((readQueueList_rest hlist).1 c |>.mp hc)
    obtain ⟨hq, hvalid⟩ := List.mem_filter.mp hq
    have hstartable : Startable rows q.cmdClassIdentity := ⟨q, hq, hvalid, hrows.knownTemplate q hq, rfl⟩
    obtain ⟨-, hnone⟩ :=
      runner_readQueues (m := { s.manager with newCmdClasses := [] }) (c := q.cmdClassIdentity) rows
    by_contra hgone
    have hbefore : s.manager.runner q.cmdClassIdentity = none := by
      by_contra hbefore
      exact hmono hbefore hgone
    rcases hnone hbefore with ⟨-, hstart⟩ | ⟨hrunner, -⟩
    · exact hstart hstartable
    · rw [← hm₁, hgone] at hrunner
      cases hrunner

theorem selectQueues_rows {keepRunning retrySelect : Bool} {failures : List Bool} {rows' : List CmdQueue}
    (h : selectQueues keepRunning retrySelect failures rows = .succeeded rows') : rows' = rows := by
  induction failures generalizing keepRunning with
  | nil =>
    unfold selectQueues at h
    split at h <;> cases h
    rfl
  | cons signal failures ih =>
    unfold selectQueues at h
    split at h
    · dsimp only at h
      split at h
      · exact ih h
      · cases h
    · cases h

theorem oneRunnerEach_step (hs : OneRunnerEach s) (he : e.Admitted) :
    ∃ s', s.step e = .ok s' ∧ OneRunnerEach s' := by
  have hstep {m' : Manager} (h : s.manager.step e = .ok m') :
      s.step e = .ok ⟨m', s.created ++ s.manager.created e⟩ := by
    unfold Threads.step
    rw [h]
    rfl
  have hsame {m' : Manager} (h : s.manager.step e = .ok m') (hkeys : s.manager.SameKeys m')
      (hold : m'.oldCmdClasses = s.manager.oldCmdClasses) (hread : s.manager.listRead e = none) :
      ∃ s', s.step e = .ok s' ∧ OneRunnerEach s' := by
    have hcreated : s.manager.created e = [] := by
      unfold Manager.created
      rw [hread]
    refine ⟨_, hstep h, ?_⟩
    rw [hcreated, List.append_nil]
    exact ⟨hs.created_nodup, fun c hc => hkeys.runner.mpr (hs.created_mem c hc), hkeys.disjoint hs.disjoint,
      fun c hc => hkeys.runner.mpr (hs.oldCmdClasses c (hold ▸ hc))⟩
  cases e with
  | threadStarted cls => exact hsame rfl (sameKeys_setRunning _ _ _) (setRunning_spec _ _ _).2.1 rfl
  | threadEnded cls => exact hsame rfl (sameKeys_setRunning _ _ _) (setRunning_spec _ _ _).2.1 rfl
  | refresh retrySelect failures rows =>
    cases hsel : selectQueues s.manager.keepRunning retrySelect failures rows with
    | gaveUp =>
      refine hsame ?_ ⟨fun c => Iff.rfl, fun c => Iff.rfl⟩ rfl ?_
      · simp only [Manager.step, refreshQueueList, hsel]
      · simp only [listRead, hsel]
    | interrupted =>
      have hs' : OneRunnerEach ⟨{ s.manager with keepRunning := false }, s.created⟩ :=
        ⟨hs.created_nodup, hs.created_mem, hs.disjoint, hs.oldCmdClasses⟩
      have hnil : QueueList [] := ⟨List.nodup_nil, List.forall_mem_nil _⟩
      obtain ⟨m', hm', hone⟩ := oneRunnerEach_readQueueList hs' hnil
      have hcreated : s.manager.created (.refresh retrySelect failures rows) = [] := by
        simp only [Manager.created, listRead, hsel]
      refine ⟨⟨m', s.created⟩, ?_, ?_⟩
      · refine (hstep ?_).trans (by rw [hcreated, List.append_nil])
        simp only [Manager.step, refreshQueueList, hsel]
        exact hm'
      · simpa [createdByRows] using hone
    | succeeded rows' =>
      obtain rfl := selectQueues_rows hsel
      obtain ⟨m', hm', hone⟩ := oneRunnerEach_readQueueList hs he
      refine ⟨_, @hstep m' ?_, ?_⟩
      · simp only [Manager.step, refreshQueueList, hsel]
        exact hm'
      · simpa only [Manager.created, listRead, hsel] using hone

theorem oneRunnerEach_run (es : List Event) (hes : ∀ e ∈ es, e.Admitted) :
    ∃ s, Threads.run es = .ok s ∧ OneRunnerEach s := by
  have hfrom {s : Threads} (hs : OneRunnerEach s) :
      ∃ s', es.foldlM Threads.step s = .ok s' ∧ OneRunnerEach s' := by
    induction es generalizing s with
    | nil => exact ⟨s, rfl, hs⟩
    | cons e es ih =>
      rw [List.forall_mem_cons] at hes
      obtain ⟨s₁, hs₁, hone⟩ := oneRunnerEach_step hs hes.1
      obtain ⟨s', hs', hone'⟩ := ih hes.2 hone
      refine ⟨s', ?_, hone'⟩
      rw [List.foldlM_cons, hs₁]
      exact hs'
  refine hfrom ⟨List.nodup_nil, List.forall_mem_nil _, fun c hc => ?_, List.forall_mem_nil _⟩
  exact absurd hc (AList.notMem_empty c)

/-- The log of the threads changes nothing. -/
theorem manager_run (es : List Event) : (Threads.run es).map (·.manager) = run es := by
  have hfrom (s : Threads) : (es.foldlM Threads.step s).map (·.manager) = es.foldlM step s.manager := by
    induction es generalizing s with
    | nil => rfl
    | cons e es ih =>
      rw [List.foldlM_cons, List.foldlM_cons, Threads.step]
      cases s.manager.step e with
      | error err => rfl
      | ok m' => exact ih ⟨m', s.created ++ s.manager.created e⟩
  exact hfrom {}

/-- No list makes `stop_runner` throw, or a second thread for a class. -/
theorem one_runner_each (es : List Event) (hes : ∀ e ∈ es, e.Admitted) :
    ∃ s, Threads.run es = .ok s ∧ s.created.Nodup ∧
      (∀ cls, ¬(cls ∈ s.manager.nixCmdQueueRunners ∧ cls ∈ s.manager.sqlCmdQueueRunners)) ∧
        ∀ cls ∈ s.manager.oldCmdClasses,
          cls ∈ s.manager.nixCmdQueueRunners ∨ cls ∈ s.manager.sqlCmdQueueRunners := by
  obtain ⟨s, hs, hone⟩ := oneRunnerEach_run es hes
  refine ⟨s, hs, hone.created_nodup, fun cls h => hone.disjoint cls h.1 h.2, fun cls h => ?_⟩
  exact runner_ne_none.mp (hone.oldCmdClasses cls h)

def nightlyInSql : CmdQueue := { nightly with cmdSignatureClassRelname := ascii "sql_queue_cmd_template" }

/-- The queue goes, and comes back as one of the other kind. -/
def changed : List Event := [.refresh true [] [nightly], .threadStarted nightly.cmdClassIdentity,
  .refresh false [false] [], .refresh true [] [], .refresh true [false] [nightlyInSql]]

theorem admitted_changed : ∀ e ∈ changed, e.Admitted := by
  have hlist (q : CmdQueue) (hq : knownTemplate q = true) : QueueList [q] :=
    ⟨List.nodup_singleton _, by simpa using hq⟩
  simp only [changed, List.forall_mem_cons]
  exact ⟨hlist _ (by decide), trivial, ⟨List.nodup_nil, List.forall_mem_nil _⟩,
    ⟨List.nodup_nil, List.forall_mem_nil _⟩, hlist _ (by decide), List.forall_mem_nil _⟩

theorem one_runner_each_changed : ∃ s, Threads.run changed = .ok s ∧ s.created.Nodup ∧
    (∀ cls, ¬(cls ∈ s.manager.nixCmdQueueRunners ∧ cls ∈ s.manager.sqlCmdQueueRunners)) ∧
      ∀ cls ∈ s.manager.oldCmdClasses,
        cls ∈ s.manager.nixCmdQueueRunners ∨ cls ∈ s.manager.sqlCmdQueueRunners :=
  one_runner_each changed admitted_changed

end PgCmdQueue.Manager
