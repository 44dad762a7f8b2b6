import Mathlib.Data.Set.Basic
import Mathlib.Data.Set.Insert
import Mathlib.Logic.Function.Basic
import PgCmdQueue.Lib.Run

/-!
# A pool of jobs

Clients add jobs and withdraw them. A worker claims jobs that no other one has claimed, and finishes some of
the jobs that it has claimed.
-/

namespace JobPool

variable {ι R : Type*}

/-- `added` and `withdrawn` keep what has ever been added and withdrawn. -/
structure Pool (ι R : Type*) where
  waiting : Set R := ∅
  claimed : ι → Set R := fun _ => ∅
  added : Set R := ∅
  withdrawn : Set R := ∅
  finished : List R := []

/-- The worker has these claims now. -/
def Pool.hold [DecidableEq ι] (p : Pool ι R) (i : ι) (rs : Set R) : Pool ι R :=
  { p with claimed := Function.update p.claimed i rs }

@[simp] theorem Pool.hold_self [DecidableEq ι] (p : Pool ι R) (i : ι) (rs : Set R) :
    (p.hold i rs).claimed i = rs := Function.update_self ..

@[simp] theorem Pool.hold_other [DecidableEq ι] (p : Pool ι R) {i j : ι} (hj : j ≠ i) (rs : Set R) :
    (p.hold i rs).claimed j = p.claimed j := Function.update_of_ne hj ..

theorem Pool.hold_hold [DecidableEq ι] (p : Pool ι R) (i : ι) (rs rs' : Set R) :
    (p.hold i rs).hold i rs' = p.hold i rs' := by
  unfold Pool.hold
  rw [Function.update_idem]

/-- These jobs wait, and no other worker has claimed them. -/
def Pool.FreeFor (p : Pool ι R) (i : ι) (rs : Set R) : Prop :=
  rs ⊆ p.waiting ∧ ∀ j, j ≠ i → ∀ r ∈ rs, r ∉ p.claimed j

inductive Action (ι R : Type*) where
  | add (r : R)
  | withdraw (r : R)
  | claim (i : ι) (rs : Set R)
  | drop (i : ι) (rs : Set R)
  | finish (i : ι) (rs : List R)

/-- A job that is claimed goes on to wait until it is finished. With the last of its jobs a worker gives up
the rest of its claims. -/
inductive Step [DecidableEq ι] (p : Pool ι R) : Action ι R → Pool ι R → Prop
  | add {r : R} (fresh : r ∉ p.added) :
      Step p (.add r) { p with waiting := insert r p.waiting, added := insert r p.added }
  | withdraw {r : R} (unclaimed : ∀ i, r ∉ p.claimed i) : Step p (.withdraw r) { p with
      waiting := p.waiting \ {r}
      withdrawn := p.withdrawn ∪ p.waiting ∩ {r} }
  | claim {i : ι} {rs : Set R} (free : p.FreeFor i rs) : Step p (.claim i rs) (p.hold i (p.claimed i ∪ rs))
  | drop {i : ι} {rs : Set R} : Step p (.drop i rs) (p.hold i (p.claimed i \ rs))
  | finish {i : ι} {rs : List R} (mine : ∀ r ∈ rs, r ∈ p.claimed i) (distinct : rs.Nodup) :
      Step p (.finish i rs) { p.hold i ∅ with
        waiting := p.waiting \ {r | r ∈ rs}
        finished := p.finished ++ rs }

/-- Every job is in one place, and has one worker at most. -/
structure Accounted (p : Pool ι R) : Prop where
  claimed : ∀ i, p.claimed i ⊆ p.waiting
  apart : ∀ i j r, r ∈ p.claimed i → r ∈ p.claimed j → i = j
  somewhere : ∀ r, r ∈ p.added ↔ r ∈ p.waiting ∨ r ∈ p.withdrawn ∨ r ∈ p.finished
  withdrawn : ∀ r ∈ p.withdrawn, r ∉ p.waiting ∧ r ∉ p.finished
  finished : ∀ r ∈ p.finished, r ∉ p.waiting
  once : p.finished.Nodup

theorem accounted_empty : Accounted ({} : Pool ι R) where
  claimed _ := Set.empty_subset _
  apart _ _ _ hr := hr.elim
  somewhere r := by simp
  withdrawn _ hr := hr.elim
  finished := by simp
  once := List.nodup_nil

variable {p p' : Pool ι R} {a : Action ι R} {i : ι} {r : R} {rs : Set R} {done : List R}

theorem Accounted.add (h : Accounted p) (hr : r ∉ p.added) :
    Accounted { p with waiting := insert r p.waiting, added := insert r p.added } := by
  have hnew : r ∉ p.withdrawn ∧ r ∉ p.finished := by
    rw [h.somewhere] at hr
    tauto
  refine { h with claimed := ?_, somewhere := ?_, withdrawn := ?_, finished := ?_ }
  · exact fun i => (h.claimed i).trans (Set.subset_insert r p.waiting)
  · intro r'
    rw [Set.mem_insert_iff, Set.mem_insert_iff, h.somewhere, or_assoc]
  · intro r' hr'
    refine ⟨?_, (h.withdrawn r' hr').2⟩
    rintro (rfl | hwaiting)
    · exact hnew.1 hr'
    · exact (h.withdrawn r' hr').1 hwaiting
  · rintro r' hr' (rfl | hwaiting)
    · exact hnew.2 hr'
    · exact h.finished r' hr' hwaiting

theorem Accounted.withdraw (h : Accounted p) (hr : ∀ i, r ∉ p.claimed i) :
    Accounted { p with waiting := p.waiting \ {r}, withdrawn := p.withdrawn ∪ p.waiting ∩ {r} } := by
  refine { h with claimed := ?_, somewhere := ?_, withdrawn := ?_, finished := ?_ }
  · intro i r' hr'
    refine ⟨h.claimed i hr', ?_⟩
    rintro rfl
    exact hr i hr'
  · intro r'
    rw [h.somewhere]
    by_cases hsame : r' = r
    · subst hsame
      simp
      tauto
    · simp [hsame]
  · rintro r' (hold | ⟨hwaiting, rfl⟩)
    · exact ⟨fun hwaiting => (h.withdrawn r' hold).1 hwaiting.1, (h.withdrawn r' hold).2⟩
    · exact ⟨fun hleft => hleft.2 rfl, fun hfinished => h.finished _ hfinished hwaiting⟩
  · exact fun r' hr' hwaiting => h.finished r' hr' hwaiting.1

theorem Accounted.freeFor (h : Accounted p) (i : ι) : p.FreeFor i (p.claimed i) :=
  ⟨h.claimed i, fun j hj r hr hr' => hj (h.apart j i r hr' hr)⟩

theorem Pool.FreeFor.union {rs' : Set R} (h : p.FreeFor i rs) (h' : p.FreeFor i rs') :
    p.FreeFor i (rs ∪ rs') :=
  ⟨Set.union_subset h.1 h'.1, fun j hj r hr => hr.elim (h.2 j hj r) (h'.2 j hj r)⟩

theorem Pool.FreeFor.mono {rs' : Set R} (h : p.FreeFor i rs) (hrs : rs' ⊆ rs) : p.FreeFor i rs' :=
  ⟨hrs.trans h.1, fun j hj r hr => h.2 j hj r (hrs hr)⟩

variable [DecidableEq ι]

/-- A worker has other claims. -/
theorem Accounted.hold (h : Accounted p) (hfree : p.FreeFor i rs) : Accounted (p.hold i rs) := by
  refine { h with claimed := ?_, apart := ?_ }
  · intro j
    by_cases hj : j = i
    · rw [hj, Pool.hold_self]
      exact hfree.1
    · rw [Pool.hold_other p hj]
      exact h.claimed j
  · intro j k r hr hr'
    by_cases hj : j = i <;> by_cases hk : k = i
    · rw [hj, hk]
    · rw [hj, Pool.hold_self] at hr
      rw [Pool.hold_other p hk] at hr'
      exact (hfree.2 k hk r hr hr').elim
    · rw [Pool.hold_other p hj] at hr
      rw [hk, Pool.hold_self] at hr'
      exact (hfree.2 j hj r hr' hr).elim
    · rw [Pool.hold_other p hj] at hr
      rw [Pool.hold_other p hk] at hr'
      exact h.apart j k r hr hr'

theorem Accounted.finish (h : Accounted p) (hmine : ∀ r ∈ done, r ∈ p.claimed i) (hdone : done.Nodup) :
    Accounted { p.hold i ∅ with
      waiting := p.waiting \ {r | r ∈ done}
      finished := p.finished ++ done } := by
  have hwaits : ∀ r ∈ done, r ∈ p.waiting := fun r hr => h.claimed i (hmine r hr)
  have hclaims := h.hold ((h.freeFor i).mono (Set.empty_subset _))
  refine ⟨?_, hclaims.apart, ?_, ?_, ?_, ?_⟩
  · intro j r hr
    refine ⟨hclaims.claimed j hr, fun hgone => ?_⟩
    change r ∈ (p.hold i ∅).claimed j at hr
    by_cases hj : j = i
    · rw [hj, Pool.hold_self] at hr
      exact hr
    · rw [Pool.hold_other p hj] at hr
      exact hj (h.apart j i r hr (hmine r hgone))
  · intro r
    have hr := hwaits r
    change r ∈ p.added ↔ (r ∈ p.waiting ∧ r ∉ done) ∨ r ∈ p.withdrawn ∨ r ∈ p.finished ++ done
    rw [h.somewhere, List.mem_append]
    tauto
  · intro r hr
    obtain ⟨hwaiting, hfinished⟩ := h.withdrawn r hr
    refine ⟨fun hleft => hwaiting hleft.1, fun hr' => ?_⟩
    rcases List.mem_append.mp hr' with hold | hnew
    · exact hfinished hold
    · exact hwaiting (hwaits r hnew)
  · intro r hr hleft
    rcases List.mem_append.mp hr with hold | hnew
    · exact h.finished r hold hleft.1
    · exact hleft.2 hnew
  · refine List.nodup_append.mpr ⟨h.once, hdone, ?_⟩
    rintro r hold _ hnew rfl
    exact h.finished r hold (hwaits r hnew)

theorem Accounted.step (h : Accounted p) (hstep : Step p a p') : Accounted p' := by
  cases hstep with
  | add hr => exact h.add hr
  | withdraw hr => exact h.withdraw hr
  | claim hfree => exact h.hold ((h.freeFor _).union hfree)
  | drop => exact h.hold ((h.freeFor _).mono fun r hr => hr.1)
  | finish hmine hdone => exact h.finish hmine hdone

theorem accounted_of_run {tr : List (Action ι R)} (h : Transition.Run Step {} tr p) : Accounted p :=
  h.invariant_state accounted_empty fun _ _ _ => Accounted.step

/-! ## More than one step -/

/-- A worker can come to have any claims that are free for it. -/
theorem run_hold (h : p.FreeFor i rs) : ∃ tr, Transition.Run Step p tr (p.hold i rs) := by
  have hclaim := Step.claim h
  have hdrop : Step (p.hold i (p.claimed i ∪ rs)) (.drop i {r | r ∉ rs}) _ := .drop
  have hleft : (p.claimed i ∪ rs) \ {r | r ∉ rs} = rs := by
    ext r
    change (r ∈ p.claimed i ∨ r ∈ rs) ∧ ¬r ∉ rs ↔ r ∈ rs
    tauto
  rw [Pool.hold_self, hleft, Pool.hold_hold] at hdrop
  exact ⟨_, (Transition.Run.single hclaim).snoc hdrop⟩

/-- It can claim jobs and finish them at once. -/
theorem run_finish (h : p.FreeFor i {r | r ∈ done}) (hdone : done.Nodup) :
    ∃ tr, Transition.Run Step p tr { p.hold i ∅ with
      waiting := p.waiting \ {r | r ∈ done}
      finished := p.finished ++ done } := by
  obtain ⟨tr, hheld⟩ := run_hold h
  have hfinish : Step (p.hold i {r | r ∈ done}) (.finish i done) _ := .finish (by simp) hdone
  rw [Pool.hold_hold] at hfinish
  exact ⟨_, hheld.snoc hfinish⟩

end JobPool
