import Mathlib.Data.List.Basic

/-!
# Programs over a transactional session

A program executes statements over one session. The server performs a statement, or it fails,
or the connection is lost with or without the statement having been performed.
-/

namespace Transaction

variable {X L R F M α β : Type}

/-! ## Sessions -/

/-- What a statement has changed, and the rows that it has written. -/
structure Change (X L : Type) where
  what : X
  writes : List L := []
  deriving DecidableEq

def written (cs : List (Change X L)) : List L := cs.flatMap Change.writes

@[simp] theorem written_nil : written ([] : List (Change X L)) = [] := rfl

@[simp] theorem written_append (cs cs' : List (Change X L)) :
    written (cs ++ cs') = written cs ++ written cs' := List.flatMap_append

/-- The changes and the row locks of a transaction, up to a savepoint or up to now. -/
structure Level (X L : Type) where
  pending : List (Change X L) := []
  locks : List L := []

def Level.extend (now : Level X L) (changes : List (Change X L)) (rows : List L) : Level X L where
  pending := now.pending ++ changes
  locks := now.locks ++ rows

/-- The innermost savepoint is first. A failed transaction has only its savepoints left. -/
inductive Session (X L : Type) where
  | idle
  | inTransaction (now : Level X L) (savepoints : List (Level X L))
  | inError (savepoints : List (Level X L))
  | lost

inductive Status where
  | idle
  | inTrans
  | inError
  | unknown
  deriving DecidableEq

namespace Session

def status : Session X L → Status
  | idle => .idle
  | inTransaction _ _ => .inTrans
  | inError _ => .inError
  | lost => .unknown

def levels : Session X L → List (Level X L)
  | inTransaction now savepoints => now :: savepoints
  | inError savepoints => savepoints
  | _ => []

def savepoints : Session X L → List (Level X L)
  | inTransaction _ savepoints => savepoints
  | inError savepoints => savepoints
  | _ => []

def locks (s : Session X L) : List L := s.levels.flatMap Level.locks

/-- The rows that the open transaction has written, as it sees them itself. -/
def written : Session X L → List L
  | inTransaction now _ => Transaction.written now.pending
  | _ => []

end Session

/-! ## Statements -/

/-- Savepoints are only ever named from the inside out. -/
inductive Control where
  | begin
  | savepoint
  | rollbackTo
  | release
  | rollback
  | commit
  deriving DecidableEq

/-- `replies` are the answers when the statement is performed. `forUpdate` are the rows that it
locks beside those that it writes. -/
inductive Stmt (X L R : Type) where
  | control (c : Control) (replies : R → Bool)
  | query (replies : R → Bool) (changes : R → List (Change X L)) (forUpdate : R → List L)

namespace Stmt

def replies : Stmt X L R → R → Bool
  | control _ replies => replies
  | query replies _ _ => replies

def changes : Stmt X L R → R → List (Change X L)
  | control _ _ => fun _ => []
  | query _ changes _ => changes

/-- The rows that the statement locks. -/
def takes : Stmt X L R → R → List L
  | control _ _ => fun _ => []
  | query _ changes forUpdate => fun r => forUpdate r ++ written (changes r)

/-- An error in it can end the transaction at once. -/
def ends : Stmt X L R → Bool
  | control .commit _ => true
  | control .rollback _ => true
  | _ => false

end Stmt

namespace Session

/-- The session afterwards and what is committed. -/
def control (s : Session X L) : Control → Option (Session X L × List (Change X L))
  | .begin => match s with
    | idle => some (inTransaction {} [], [])
    | inTransaction now saved => some (inTransaction now saved, [])
    | _ => none
  | .savepoint => match s with
    | inTransaction now saved => some (inTransaction now (now :: saved), [])
    | _ => none
  | .rollbackTo => match s with
    | inTransaction _ (level :: saved) => some (inTransaction level (level :: saved), [])
    | inError (level :: saved) => some (inTransaction level (level :: saved), [])
    | _ => none
  | .release => match s with
    | inTransaction now (_ :: saved) => some (inTransaction now saved, [])
    | _ => none
  | .rollback => match s with
    | lost => none
    | _ => some (idle, [])
  | .commit => match s with
    | inTransaction now _ => some (idle, now.pending)
    | lost => none
    | _ => some (idle, [])

/-- Outside a transaction a statement commits what it changes. -/
def query (changes : List (Change X L)) (rows : List L) :
    Session X L → Option (Session X L × List (Change X L))
  | idle => some (idle, changes)
  | inTransaction now saved => some (inTransaction (now.extend changes rows) saved, [])
  | _ => none

def performs (s : Session X L) (stmt : Stmt X L R) (r : R) :
    Option (Session X L × List (Change X L)) :=
  match stmt with
  | .control c _ => s.control c
  | .query _ changes _ => s.query (changes r) (stmt.takes r)

/-- After an error. -/
def fails (ended : Bool) : Session X L → Session X L
  | inTransaction _ saved => if ended then idle else inError saved
  | inError saved => if ended then idle else inError saved
  | s => s

end Session

/-- `performed` is the answer that did not arrive. -/
inductive Outcome (R F : Type) where
  | done (r : R)
  | error (f : F) (ended : Bool)
  | lost (f : F) (performed : Option R)

def Outcome.reply : Outcome R F → Option R
  | done r => some r
  | error _ _ => none
  | lost _ performed => performed

structure Executed (X L R F : Type) where
  session : Session X L
  committed : List (Change X L)
  answer : Except F R

def Session.exec (s : Session X L) (stmt : Stmt X L R) : Outcome R F → Option (Executed X L R F)
  | .done r =>
    if stmt.replies r then (s.performs stmt r).map fun p => ⟨p.1, p.2, .ok r⟩ else none
  | .error f ended =>
    match s with
    | lost => none
    | s => some ⟨s.fails (ended && stmt.ends), [], .error f⟩
  | .lost f none => some ⟨lost, [], .error f⟩
  | .lost f (some r) =>
    if stmt.replies r then (s.performs stmt r).map fun p => ⟨lost, p.2, .error f⟩ else none

/-! ## Programs -/

/-- `mark` tells the others what the program is doing. -/
inductive Prog (X L R F M α : Type) where
  | ret (a : α)
  | exec (stmt : Stmt X L R) (next : Except F R → Prog X L R F M α)
  | status (next : Status → Prog X L R F M α)
  | mark (m : M) (next : Prog X L R F M α)

namespace Prog

def bind : Prog X L R F M α → (α → Prog X L R F M β) → Prog X L R F M β
  | ret a, k => k a
  | exec stmt next, k => exec stmt fun answer => (next answer).bind k
  | status next, k => status fun st => (next st).bind k
  | mark m next, k => mark m (next.bind k)

instance : Monad (Prog X L R F M) where
  pure := ret
  bind := bind

end Prog

/-- `committed` is what the session has committed since it was last looked at. -/
structure World (X L M : Type) where
  session : Session X L
  committed : List (Change X L) := []
  mark : M

def World.after (w : World X L M) (x : Executed X L R F) : World X L M :=
  { w with session := x.session, committed := w.committed ++ x.committed }

structure Thread (X L R F M α : Type) where
  world : World X L M
  prog : Prog X L R F M α

inductive Label (R F : Type) where
  | outcome (o : Outcome R F)
  | go

def Thread.step (t : Thread X L R F M α) : Label R F → Option (Thread X L R F M α)
  | .outcome o => match t.prog with
    | .exec stmt next =>
      (t.world.session.exec stmt o).map fun x => ⟨t.world.after x, next x.answer⟩
    | _ => none
  | .go => match t.prog with
    | .status next => some ⟨t.world, next t.world.session.status⟩
    | .mark m next => some ⟨{ t.world with mark := m }, next⟩
    | _ => none

/-- The statement that the step answers. -/
def Thread.answered (t : Thread X L R F M α) : Label R F → Option (Stmt X L R × Outcome R F)
  | .outcome o => match t.prog with
    | .exec stmt _ => some (stmt, o)
    | _ => none
  | .go => none

def Thread.commits (t : Thread X L R F M α) (l : Label R F) : List (Change X L) :=
  match t.answered l with
  | some (stmt, o) => ((t.world.session.exec stmt o).map Executed.committed).getD []
  | none => []

/-! ## What a statement can do -/

namespace Session

variable {s s' : Session X L} {stmt : Stmt X L R} {r : R} {c : List (Change X L)}
  {level : Level X L} {ended : Bool}

/-- A level of the session is an old one, or the open one with the changes of the statement, or
that of a new transaction. -/
theorem levels_of_performs (h : s.performs stmt r = some (s', c)) (hlevel : level ∈ s'.levels) :
    level ∈ s.levels ∨ (∃ replies, stmt = .control .begin replies ∧ level = {}) ∨
      ∃ now saved, s = .inTransaction now saved ∧
        level = now.extend (stmt.changes r) (stmt.takes r) := by
  cases stmt with
  | control ctl replies =>
    rcases s with _ | ⟨now, _ | ⟨saved, rest⟩⟩ | ⟨_ | ⟨saved, rest⟩⟩ | _ <;> cases ctl <;>
      cases h <;> grind [levels]
  | query replies changes forUpdate =>
    rcases s with _ | ⟨now, saved⟩ | saved | _ <;> cases h
    · simp [levels] at hlevel
    · rcases List.mem_cons.mp hlevel with rfl | hold
      · exact .inr (.inr ⟨now, saved, rfl, rfl⟩)
      · exact .inl (List.mem_cons_of_mem _ hold)

/-- What is committed is the changes of the statement or those of the open transaction, which
ends. -/
theorem committed_of_performs (h : s.performs stmt r = some (s', c)) :
    c = [] ∨ (s'.levels = [] ∧
      ((s = .idle ∧ c = stmt.changes r) ∨ ∃ now ∈ s.levels, c = now.pending)) := by
  cases stmt with
  | control ctl replies =>
    rcases s with _ | ⟨now, _ | ⟨saved, rest⟩⟩ | ⟨_ | ⟨saved, rest⟩⟩ | _ <;> cases ctl <;>
      cases h <;> simp [levels]
  | query replies changes forUpdate =>
    rcases s with _ | ⟨now, saved⟩ | saved | _ <;> cases h
    · exact .inr ⟨rfl, .inl ⟨rfl, rfl⟩⟩
    · exact .inl rfl

theorem levels_of_fails (hlevel : level ∈ (s.fails ended).levels) : level ∈ s.levels := by
  rcases s with _ | ⟨now, saved⟩ | saved | _ <;> cases ended <;> simp_all [fails, levels]

/-- A statement is performed, or it has failed and has committed nothing. In both cases the
connection may be lost. -/
theorem exec_cases {o : Outcome R F} {x : Executed X L R F} (h : s.exec stmt o = some x) :
    (∃ r s', o.reply = some r ∧ stmt.replies r = true ∧
      s.performs stmt r = some (s', x.committed) ∧ (x.session = s' ∨ x.session = .lost)) ∨
    (x.committed = [] ∧ (x.session = .lost ∨ ∃ ended, x.session = s.fails ended)) := by
  cases o with
  | done r =>
    simp only [exec] at h
    split at h
    · rename_i hreplies
      obtain ⟨⟨s', c⟩, hperforms, rfl⟩ := Option.map_eq_some_iff.mp h
      exact .inl ⟨r, s', rfl, hreplies, hperforms, .inl rfl⟩
    · cases h
  | error f ended =>
    cases s <;> cases h <;> exact .inr ⟨rfl, .inr ⟨ended && stmt.ends, rfl⟩⟩
  | lost f performed =>
    cases performed with
    | none =>
      cases h
      exact .inr ⟨rfl, .inl rfl⟩
    | some r =>
      simp only [exec] at h
      split at h
      · rename_i hreplies
        obtain ⟨⟨s', c⟩, hperforms, rfl⟩ := Option.map_eq_some_iff.mp h
        exact .inl ⟨r, s', rfl, hreplies, hperforms, .inr rfl⟩
      · cases h

/-! ### Locks -/

/-- Every level has locked what it has written. -/
def Guarded (s : Session X L) : Prop :=
  ∀ level ∈ s.levels, ∀ l ∈ Transaction.written level.pending, l ∈ level.locks

/-- No row is written twice in the transaction. -/
def Distinct (s : Session X L) : Prop :=
  ∀ level ∈ s.levels, (Transaction.written level.pending).Nodup

theorem mem_locks {l : L} : l ∈ s.locks ↔ ∃ level ∈ s.levels, l ∈ level.locks := by
  simp [locks]

theorem locks_of_levels (h : s.levels = []) : s.locks = [] := by
  rw [locks, h, List.flatMap_nil]

/-- What holds of the levels of a session survives a statement when it survives performing one. -/
theorem levels_of_exec {o : Outcome R F} {x : Executed X L R F} {P : Level X L → Prop}
    (h : s.exec stmt o = some x) (hs : ∀ level ∈ s.levels, P level) (hnew : P {})
    (hextend : ∀ r now saved, o.reply = some r → s = .inTransaction now saved →
      P (now.extend (stmt.changes r) (stmt.takes r))) :
    ∀ level ∈ x.session.levels, P level := by
  intro level hlevel
  rcases exec_cases h with ⟨r, s', hreply, _, hp, hsession⟩ | ⟨_, hsession⟩
  · rcases hsession with hsession | hsession <;> rw [hsession] at hlevel
    · rcases levels_of_performs hp hlevel with hold | ⟨_, _, rfl⟩ | ⟨now, saved, hs', rfl⟩
      · exact hs level hold
      · exact hnew
      · exact hextend r now saved hreply hs'
    · cases hlevel
  · rcases hsession with hsession | ⟨ended, hsession⟩ <;> rw [hsession] at hlevel
    · cases hlevel
    · exact hs level (levels_of_fails hlevel)

end Session

namespace Stmt

/-- The rows that the statement has locked when it was performed. -/
def taken (stmt : Stmt X L R) (o : Outcome R F) : List L := (o.reply.map stmt.takes).getD []

theorem mem_taken {stmt : Stmt X L R} {o : Outcome R F} {l : L} :
    l ∈ stmt.taken o ↔ ∃ r, o.reply = some r ∧ l ∈ stmt.takes r := by
  unfold taken
  cases o.reply <;> simp

theorem takes_of_written {stmt : Stmt X L R} {r : R} {l : L} (h : l ∈ written (stmt.changes r)) :
    l ∈ stmt.takes r := by
  cases stmt with
  | control c replies => cases h
  | query replies changes forUpdate => exact List.mem_append_right _ h

end Stmt

namespace Session

variable {s : Session X L} {stmt : Stmt X L R} {o : Outcome R F} {x : Executed X L R F}

theorem locks_of_exec {l : L} (h : s.exec stmt o = some x) (hl : l ∈ x.session.locks) :
    l ∈ s.locks ∨ l ∈ stmt.taken o := by
  obtain ⟨level, hlevel, hlock⟩ := mem_locks.mp hl
  refine levels_of_exec (P := fun level => l ∈ level.locks → l ∈ s.locks ∨ l ∈ stmt.taken o)
    h ?_ ?_ ?_ level hlevel hlock
  · exact fun level hlevel hlock => .inl (mem_locks.mpr ⟨level, hlevel, hlock⟩)
  · simp
  · intro r now saved hreply hs hlock
    rcases List.mem_append.mp hlock with hold | hnew
    · rw [hs]
      exact .inl (mem_locks.mpr ⟨now, List.mem_cons_self, hold⟩)
    · exact .inr (Stmt.mem_taken.mpr ⟨r, hreply, hnew⟩)

theorem Guarded.exec (hs : s.Guarded) (h : s.exec stmt o = some x) : x.session.Guarded := by
  refine levels_of_exec h hs (by simp) ?_
  rintro r now saved - rfl l hl
  rw [Level.extend, written_append] at hl
  rcases List.mem_append.mp hl with hold | hnew
  · exact List.mem_append_left _ (hs now List.mem_cons_self l hold)
  · exact List.mem_append_right _ (Stmt.takes_of_written hnew)

/-- A transaction ends with its commit, and has locked what it commits. -/
theorem Guarded.committed (hs : s.Guarded) (h : s.exec stmt o = some x) {l : L}
    (hl : l ∈ Transaction.written x.committed) :
    x.session.levels = [] ∧ (l ∈ s.locks ∨ l ∈ stmt.taken o) := by
  rcases exec_cases h with ⟨r, s', hreply, _, hp, hsession⟩ | ⟨hnothing, _⟩
  · rcases committed_of_performs hp with hnothing | ⟨hlevels, hwhat⟩
    · simp [hnothing] at hl
    · refine ⟨?_, ?_⟩
      · rcases hsession with hsession | hsession <;> rw [hsession]
        · exact hlevels
        · rfl
      · rcases hwhat with ⟨_, hwhat⟩ | ⟨now, hnow, hwhat⟩ <;> rw [hwhat] at hl
        · exact .inr (Stmt.mem_taken.mpr ⟨r, hreply, Stmt.takes_of_written hl⟩)
        · exact .inl (mem_locks.mpr ⟨now, hnow, hs now hnow l hl⟩)
  · simp [hnothing] at hl

/-- The statement writes no row twice, and none that the transaction has written before. -/
def WritesAnew (s : Session X L) (stmt : Stmt X L R) (o : Outcome R F) : Prop :=
  ∀ r ∈ o.reply, (Transaction.written (stmt.changes r)).Nodup ∧
    ∀ l ∈ Transaction.written (stmt.changes r), l ∉ s.written

instance [DecidableEq L] : Decidable (s.WritesAnew stmt o) :=
  inferInstanceAs (Decidable (∀ r ∈ o.reply, _))

theorem Distinct.exec (hs : s.Distinct) (hanew : s.WritesAnew stmt o)
    (h : s.exec stmt o = some x) : x.session.Distinct := by
  refine levels_of_exec h hs (by simp) ?_
  rintro r now saved hreply rfl
  obtain ⟨hnodup, hnew⟩ := hanew r hreply
  rw [Level.extend, written_append]
  refine List.nodup_append.mpr ⟨hs now List.mem_cons_self, hnodup, ?_⟩
  rintro l hold _ hl rfl
  exact hnew l hl hold

theorem Distinct.committed (hs : s.Distinct) (hanew : s.WritesAnew stmt o)
    (h : s.exec stmt o = some x) : (Transaction.written x.committed).Nodup := by
  rcases exec_cases h with ⟨r, s', hreply, _, hp, _⟩ | ⟨hnothing, _⟩
  · rcases committed_of_performs hp with hnothing | ⟨_, ⟨_, hwhat⟩ | ⟨now, hnow, hwhat⟩⟩
    · simp [hnothing]
    · rw [hwhat]
      exact (hanew r hreply).1
    · rw [hwhat]
      exact hs now hnow
  · simp [hnothing]

end Session

/-! ## Preconditions -/

section

variable (may : Session X L → Stmt X L R → Outcome R F → Prop) (always : World X L M → Prop)

/-- From this world `always` holds until the program ends, and the postcondition then. -/
def Prog.wp (post : α → World X L M → Prop) : Prog X L R F M α → World X L M → Prop
  | .ret a, w => post a w
  | .exec stmt next, w =>
    always w ∧ ∀ o x, may w.session stmt o → w.session.exec stmt o = some x →
      (next x.answer).wp post (w.after x)
  | .status next, w => always w ∧ (next w.session.status).wp post w
  | .mark m next, w => always w ∧ next.wp post { w with mark := m }

def Thread.Permits (t : Thread X L R F M α) (l : Label R F) : Prop :=
  ∀ stmt o, t.answered l = some (stmt, o) → may t.world.session stmt o

variable {may always} {post : α → World X L M → Prop} {w : World X L M}
  {p : Prog X L R F M α} {t t' : Thread X L R F M α} {l : Label R F}

theorem Prog.wp_bind {mid : β → World X L M → Prop} {x : Prog X L R F M β}
    {k : β → Prog X L R F M α} (h : x.wp may always mid w)
    (hk : ∀ b w, mid b w → (k b).wp may always post w) :
    (x >>= k).wp may always post w := by
  induction x generalizing w with
  | ret b => exact hk b w h
  | exec stmt next ih => exact ⟨h.1, fun o x hmay hx => ih _ (h.2 o x hmay hx)⟩
  | status next ih => exact ⟨h.1, ih _ h.2⟩
  | mark m next ih => exact ⟨h.1, ih h.2⟩

theorem Prog.wp_status {k : Status → Prog X L R F M α} (now : always w)
    (h : (k w.session.status).wp may always post w) :
    (Prog.status .ret >>= k).wp may always post w := ⟨now, h⟩

theorem Prog.wp_mark {m : M} {k : Unit → Prog X L R F M α} (now : always w)
    (h : (k ()).wp may always post { w with mark := m }) :
    (Prog.mark m (.ret ()) >>= k).wp may always post w := ⟨now, h⟩

/-- The three outcomes of a statement. -/
theorem Prog.wp_exec {stmt : Stmt X L R} {k : Except F R → Prog X L R F M α}
    (now : always w)
    (done : ∀ r s c, may w.session stmt (.done r) → stmt.replies r = true →
      w.session.performs stmt r = some (s, c) →
      (k (.ok r)).wp may always post { w with session := s, committed := w.committed ++ c })
    (error : ∀ f ended, may w.session stmt (.error f ended) → w.session ≠ .lost →
      (k (.error f)).wp may always post
        { w with session := w.session.fails (ended && stmt.ends) })
    (lost : ∀ f performed c, may w.session stmt (.lost f performed) →
      (c = [] ∨ ∃ r s, stmt.replies r = true ∧ w.session.performs stmt r = some (s, c)) →
      (k (.error f)).wp may always post
        { w with session := .lost, committed := w.committed ++ c }) :
    (Prog.exec stmt .ret >>= k).wp may always post w := by
  refine ⟨now, fun o x hmay hx => ?_⟩
  cases o with
  | done r =>
    simp only [Session.exec] at hx
    split at hx
    · rename_i hreplies
      obtain ⟨⟨s, c⟩, hperforms, rfl⟩ := Option.map_eq_some_iff.mp hx
      exact done r s c hmay hreplies hperforms
    · cases hx
  | error f ended =>
    obtain ⟨hlive, rfl⟩ : w.session ≠ .lost ∧
        x = ⟨w.session.fails (ended && stmt.ends), [], .error f⟩ := by
      cases hs : w.session <;> rw [hs] at hx <;> cases hx <;> exact ⟨by simp, rfl⟩
    rw [World.after, List.append_nil]
    exact error f ended hmay hlive
  | lost f performed =>
    cases performed with
    | none =>
      cases hx
      exact lost f none [] hmay (.inl rfl)
    | some r =>
      simp only [Session.exec] at hx
      split at hx
      · rename_i hreplies
        obtain ⟨⟨s, c⟩, hperforms, rfl⟩ := Option.map_eq_some_iff.mp hx
        exact lost f (some r) c hmay (.inr ⟨r, s, hreplies, hperforms⟩)
      · cases hx

/-- A statement whose answer the program does not look at. -/
theorem Prog.wp_exec_any {stmt : Stmt X L R} {k : Except F R → Prog X L R F M α}
    {P : World X L M → Prop} (now : always w)
    (done : ∀ r s c, stmt.replies r = true → w.session.performs stmt r = some (s, c) →
      P { w with session := s, committed := w.committed ++ c })
    (error : ∀ ended, P { w with session := w.session.fails ended })
    (lost : ∀ c, (c = [] ∨ ∃ r s, stmt.replies r = true ∧ w.session.performs stmt r = some (s, c)) →
      P { w with session := .lost, committed := w.committed ++ c })
    (hk : ∀ answer w, P w → (k answer).wp may always post w) :
    (Prog.exec stmt .ret >>= k).wp may always post w :=
  Prog.wp_exec now (fun r s c _ hr hp => hk _ _ (done r s c hr hp))
    (fun _ _ _ _ => hk _ _ (error _)) (fun _ _ c _ hc => hk _ _ (lost c hc))

/-- A statement that does not commit, and whose error does not end the transaction. -/
theorem Prog.wp_exec_open {stmt : Stmt X L R} {k : Except F R → Prog X L R F M α}
    (now : always w) (hends : stmt.ends = false)
    (hcommits : ∀ r s c, w.session.performs stmt r = some (s, c) → c = [])
    (done : ∀ r s, stmt.replies r = true → w.session.performs stmt r = some (s, []) →
      (k (.ok r)).wp may always post { w with session := s })
    (failed : ∀ f s, s = .lost ∨ s = w.session.fails false →
      (k (.error f)).wp may always post { w with session := s }) :
    (Prog.exec stmt .ret >>= k).wp may always post w := by
  refine Prog.wp_exec now (fun r s c _ hr hp => ?_) (fun f ended _ _ => ?_)
    (fun f performed c _ hc => ?_)
  · obtain rfl := hcommits r s c hp
    rw [List.append_nil]
    exact done r s hr hp
  · rw [hends, Bool.and_false]
    exact failed f _ (.inr rfl)
  · obtain rfl : c = [] := by
      rcases hc with hc | ⟨r, s, _, hp⟩
      · exact hc
      · exact hcommits r s c hp
    rw [List.append_nil]
    exact failed f _ (.inl rfl)

/-- A step of the program leads to a world from which the rest is as good. -/
theorem Thread.wp_step (h : t.prog.wp may always post t.world) (hmay : t.Permits may l)
    (hstep : t.step l = some t') : t'.prog.wp may always post t'.world := by
  obtain ⟨w, p⟩ := t
  cases l with
  | outcome o =>
    cases p with
    | exec stmt next =>
      obtain ⟨x, hx, rfl⟩ := Option.map_eq_some_iff.mp hstep
      exact h.2 o x (hmay stmt o rfl) hx
    | ret a => cases hstep
    | status next => cases hstep
    | mark m next => cases hstep
  | go =>
    cases p with
    | status next =>
      cases hstep
      exact h.2
    | mark m next =>
      cases hstep
      exact h.2
    | ret a => cases hstep
    | exec stmt next => cases hstep

/-- At any time the program has ended or `always` holds. -/
theorem Prog.wp_now (h : p.wp may always post w) :
    always w ∨ ∃ a, p = .ret a ∧ post a w := by
  cases p with
  | ret a => exact .inr ⟨a, rfl, h⟩
  | exec stmt next => exact .inl h.1
  | status next => exact .inl h.1
  | mark m next => exact .inl h.1

end

end Transaction
