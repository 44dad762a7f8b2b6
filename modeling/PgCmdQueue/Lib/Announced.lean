import PgCmdQueue.Lib.Transaction

/-!
# What a program has announced before a statement

The marks of a program come before the statements that depend on them.
-/

namespace Transaction

variable {X L R F M α β : Type}

/-- After the marks so far, each statement is one that `ok` allows, and `post` holds at the end. -/
def Prog.Announced (ok : List M → Stmt X L R → Prop) (post : α → List M → Prop) :
    List M → Prog X L R F M α → Prop
  | marks, .ret a => post a marks
  | marks, .exec stmt next => ok marks stmt ∧ ∀ answer, (next answer).Announced ok post marks
  | marks, .status next => ∀ st, (next st).Announced ok post marks
  | marks, .mark m next => next.Announced ok post (marks ++ [m])

variable {ok : List M → Stmt X L R → Prop} {post : α → List M → Prop} {marks : List M}

theorem Prog.Announced.bind {mid : β → List M → Prop} {x : Prog X L R F M β} {k : β → Prog X L R F M α}
    (h : x.Announced ok mid marks) (hk : ∀ b marks, mid b marks → (k b).Announced ok post marks) :
    (x >>= k).Announced ok post marks := by
  induction x generalizing marks with
  | ret b => exact hk b marks h
  | exec stmt next ih => exact ⟨h.1, fun answer => ih answer (h.2 answer)⟩
  | status next ih => exact fun st => ih st (h st)
  | mark m next ih => exact ih h

theorem Prog.Announced.mono {weaker : α → List M → Prop} {x : Prog X L R F M α} (h : x.Announced ok post marks)
    (hpost : ∀ a marks, post a marks → weaker a marks) : x.Announced ok weaker marks := by
  induction x generalizing marks with
  | ret a => exact hpost a marks h
  | exec stmt next ih => exact ⟨h.1, fun answer => ih answer (h.2 answer)⟩
  | status next ih => exact fun st => ih st (h st)
  | mark m next ih => exact ih h

theorem Prog.Announced.exec {stmt : Stmt X L R} {k : Except F R → Prog X L R F M α} (now : ok marks stmt)
    (hk : ∀ answer, (k answer).Announced ok post marks) :
    (Prog.exec stmt .ret >>= k).Announced ok post marks := ⟨now, hk⟩

theorem Prog.Announced.status {k : Status → Prog X L R F M α} (hk : ∀ st, (k st).Announced ok post marks) :
    (Prog.status .ret >>= k).Announced ok post marks := hk

theorem Prog.Announced.mark {m : M} {k : Unit → Prog X L R F M α}
    (h : (k ()).Announced ok post (marks ++ [m])) :
    (Prog.mark m (.ret ()) >>= k).Announced ok post marks := h

/-- The marks with the one that the step sets. -/
def Thread.marksAfter (t : Thread X L R F M α) (marks : List M) : Label R F → List M
  | .outcome _ => marks
  | .go => match t.prog with
    | .mark m _ => marks ++ [m]
    | _ => marks

theorem Thread.announced_step {t t' : Thread X L R F M α} {l : Label R F}
    (h : t.prog.Announced ok post marks) (hstep : t.step l = some t') :
    t'.prog.Announced ok post (t.marksAfter marks l) := by
  obtain ⟨w, p⟩ := t
  cases l with
  | outcome o =>
    cases p with
    | exec stmt next =>
      obtain ⟨x, -, rfl⟩ := Option.map_eq_some_iff.mp hstep
      exact h.2 x.answer
    | ret a => cases hstep
    | status next => cases hstep
    | mark m next => cases hstep
  | go =>
    cases p with
    | status next =>
      cases hstep
      exact h w.session.status
    | mark m next =>
      cases hstep
      exact h
    | ret a => cases hstep
    | exec stmt next => cases hstep

theorem Thread.announced_answered {t : Thread X L R F M α} {l : Label R F} {stmt : Stmt X L R}
    {o : Outcome R F} (h : t.prog.Announced ok post marks) (hanswered : t.answered l = some (stmt, o)) :
    ok marks stmt := by
  obtain ⟨w, p⟩ := t
  cases l with
  | go => cases hanswered
  | outcome o' =>
    cases p with
    | exec stmt' next =>
      cases hanswered
      exact h.1
    | ret a => cases hanswered
    | status next => cases hanswered
    | mark m next => cases hanswered

theorem Thread.prefix_marksAfter (t : Thread X L R F M α) (marks : List M) (l : Label R F) :
    marks <+: t.marksAfter marks l := by
  unfold marksAfter
  split
  · exact List.prefix_rfl
  · split
    · exact List.prefix_append ..
    · exact List.prefix_rfl

end Transaction
