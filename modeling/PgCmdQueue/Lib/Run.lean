import Mathlib.Data.List.Basic

/-!
# Runs of a labelled transition relation

A run keeps the labels of its steps, so an invariant can speak of the history.
-/

namespace Transition

variable {σ ε : Type*} {step step' : σ → ε → σ → Prop} {s t u : σ} {e : ε} {tr tr' : List ε}

/-- The steps labelled `tr`, oldest first, lead from `s` to the last state. -/
inductive Run (step : σ → ε → σ → Prop) (s : σ) : List ε → σ → Prop
  | nil : Run step s [] s
  | snoc {tr : List ε} {t u : σ} {e : ε} :
      Run step s tr t → step t e u → Run step s (tr ++ [e]) u

theorem Run.single (h : step s e t) : Run step s [e] t := Run.nil.snoc h

theorem Run.append (h : Run step s tr t) (h' : Run step t tr' u) :
    Run step s (tr ++ tr') u := by
  induction h' with
  | nil => simpa using h
  | snoc _ he ih =>
    rw [← List.append_assoc]
    exact ih.snoc he

theorem Run.cons (h : step s e t) (h' : Run step t tr u) : Run step s (e :: tr) u :=
  (Run.single h).append h'

theorem Run.of_nil (h : Run step s [] t) : t = s := by
  generalize htr : ([] : List ε) = tr at h
  cases h with
  | nil => rfl
  | snoc => simp at htr

/-- The last step of a run. -/
theorem Run.of_snoc (h : Run step s (tr ++ [e]) u) : ∃ t, Run step s tr t ∧ step t e u := by
  generalize htr : tr ++ [e] = tr' at h
  cases h with
  | nil => simp at htr
  | snoc h he =>
    obtain ⟨rfl, hsame⟩ := List.append_inj' htr rfl
    cases hsame
    exact ⟨_, h, he⟩

theorem Run.of_append (h : Run step s (tr ++ tr') u) :
    ∃ t, Run step s tr t ∧ Run step t tr' u := by
  induction tr' generalizing tr with
  | nil =>
    rw [List.append_nil] at h
    exact ⟨u, h, .nil⟩
  | cons e tr' ih =>
    rw [List.append_cons] at h
    obtain ⟨v, hv, h⟩ := ih h
    obtain ⟨t, ht, he⟩ := hv.of_snoc
    exact ⟨t, ht, Run.cons he h⟩

/-- The first step of a run. -/
theorem Run.of_cons (h : Run step s (e :: tr) u) : ∃ t, step s e t ∧ Run step t tr u := by
  rw [← List.singleton_append] at h
  obtain ⟨t, ht, h⟩ := h.of_append
  rw [← List.nil_append [e]] at ht
  obtain ⟨v, hv, he⟩ := ht.of_snoc
  rw [hv.of_nil] at he
  exact ⟨t, he, h⟩

theorem Run.mono (hstep : ∀ s e t, step s e t → step' s e t) (h : Run step s tr t) :
    Run step' s tr t := by
  induction h with
  | nil => exact .nil
  | snoc _ he ih => exact ih.snoc (hstep _ _ _ he)

/-- The steps of a program that computes its next state. -/
theorem Run.of_foldlM {next : σ → ε → Option σ} (h : tr.foldlM next s = some t) :
    Run (fun s e t => next s e = some t) s tr t := by
  induction tr generalizing s with
  | nil =>
    cases h
    exact .nil
  | cons e tr ih =>
    rw [List.foldlM_cons, Option.bind_eq_bind, Option.bind_eq_some_iff] at h
    obtain ⟨u, hu, h⟩ := h
    exact Run.cons hu (ih h)

/-- While the states are `live`, and along an invariant, a step is one of another relation or
leaves its state alone. -/
theorem Run.simulate {τ ε' : Type*} {step' : τ → ε' → τ → Prop} {f : σ → τ} {I : σ → Prop}
    (live : σ → Prop) (h : Run step s tr t) (hlive : live t) (hs : I s)
    (sim : ∀ s e t, step s e t → live t →
      live s ∧ (I s → I t ∧ (f t = f s ∨ ∃ a, step' (f s) a (f t)))) :
    I t ∧ ∃ tr', Run step' (f s) tr' (f t) := by
  induction h with
  | nil => exact ⟨hs, [], .nil⟩
  | snoc _ he ih =>
    obtain ⟨hlive', hsim⟩ := sim _ _ _ he hlive
    obtain ⟨hI, tr', htr'⟩ := ih hlive'
    obtain ⟨hI', hsame | ⟨a, ha⟩⟩ := hsim hI
    · rw [hsame]
      exact ⟨hI', tr', htr'⟩
    · exact ⟨hI', tr' ++ [a], htr'.snoc ha⟩

/-- What holds at the start and survives every step holds after every run. -/
theorem Run.invariant {I : List ε → σ → Prop} (h : Run step s tr t) (start : I [] s)
    (keep : ∀ tr t e u, I tr t → step t e u → I (tr ++ [e]) u) : I tr t := by
  induction h with
  | nil => exact start
  | snoc _ he ih => exact keep _ _ _ _ ih he

/-- `Run.invariant` for an invariant that does not look at the history. -/
theorem Run.invariant_state {I : σ → Prop} (h : Run step s tr t) (start : I s)
    (keep : ∀ t e u, I t → step t e u → I u) : I t :=
  h.invariant (I := fun _ => I) start fun _ t e u => keep t e u

/-- An invariant holds wherever a step of the run is taken. -/
theorem Run.along {I : σ → Prop} (h : Run step s tr t) (start : I s)
    (keep : ∀ t e u, I t → step t e u → I u) : Run (fun s e t => I s ∧ step s e t) s tr t := by
  induction h with
  | nil => exact .nil
  | snoc h he ih => exact ih.snoc ⟨h.invariant_state start keep, he⟩

/-- A run by labels that all have a property. -/
theorem Run.restrict {p : ε → Prop} (h : Run step s tr t) (hp : ∀ e ∈ tr, p e) :
    Run (fun s e t => p e ∧ step s e t) s tr t := by
  induction h with
  | nil => exact .nil
  | snoc _ he ih =>
    exact (ih fun e hmem => hp e (List.mem_append_left _ hmem)).snoc ⟨hp _ (by simp), he⟩

/-! ## How often a program can act -/

/-- The steps of the program use up a potential, and the other ones add at most `k` to it. -/
theorem Run.countP_le {φ : σ → ℕ} {own : ε → Bool} {k : ℕ} (h : Run step s tr t)
    (hown : ∀ s e t, step s e t → own e = true → φ t < φ s)
    (hother : ∀ s e t, step s e t → own e = false → φ t ≤ φ s + k) :
    φ t + tr.countP own ≤ φ s + k * tr.countP fun e => !own e := by
  induction h with
  | nil => simp
  | @snoc tr t u e _ he ih =>
    rw [List.countP_append, List.countP_append, List.countP_singleton, List.countP_singleton]
    rcases hcase : own e with _ | _
    · have hgrow := hother _ _ _ he hcase
      simp only [Bool.not_false, if_true, Bool.false_eq_true, if_false]
      rw [Nat.mul_add]
      omega
    · have hdrop := hown _ _ _ he hcase
      simp only [Bool.not_true, if_true, Bool.false_eq_true, if_false, Nat.add_zero]
      omega

/-! ## What a state can come to -/

/-- Some run from the state ends in one with the property. -/
def CanReach (step : σ → ε → σ → Prop) (s : σ) (P : σ → Prop) : Prop :=
  ∃ tr t, Run step s tr t ∧ P t

variable {P Q : σ → Prop}

theorem CanReach.here (h : P s) : CanReach step s P := ⟨[], s, .nil, h⟩

theorem CanReach.after (h : step s e t) (ht : CanReach step t P) : CanReach step s P := by
  obtain ⟨tr, u, hu, hP⟩ := ht
  exact ⟨e :: tr, u, Run.cons h hu, hP⟩

theorem CanReach.trans (h : CanReach step s P) (hPQ : ∀ t, P t → CanReach step t Q) :
    CanReach step s Q := by
  obtain ⟨tr, t, ht, hP⟩ := h
  obtain ⟨tr', u, hu, hQ⟩ := hPQ t hP
  exact ⟨tr ++ tr', u, ht.append hu, hQ⟩

end Transition
