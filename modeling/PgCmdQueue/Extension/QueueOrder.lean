import PgCmdQueue.Extension.RunSqlCmdQueue
import Mathlib.Data.List.Perm.Basic

/-!
# The order in which `run_sql_cmd_queue` works

Every iteration selects the row that waits longest. Whether a row is still there after its UPDATE is up to
the triggers of the table.
-/

namespace PgCmdQueue.RunSqlCmdQueue

/-! ## The table -/

/-- `cmdQueuedSince` is in microseconds. -/
structure QueueRow where
  cmdId : Bytes
  cmdSubid : Option Bytes
  cmdQueuedSince : Int
  deriving DecidableEq

def QueueRow.key (r : QueueRow) : Bytes × Option Bytes := (r.cmdId, r.cmdSubid)

/-- `ORDER BY cmd_queued_since LIMIT 1`. -/
def First (r : QueueRow) (rows : List QueueRow) : Prop :=
  r ∈ rows ∧ ∀ r' ∈ rows, r.cmdQueuedSince ≤ r'.cmdQueuedSince

/-- A call and the rows in its table. `done` has the row of every command that it has executed. -/
structure QueueState where
  rows : List QueueRow
  call : State := {}
  done : List QueueRow := []

inductive QueueEvent where
  | command (r : QueueRow) (x : Execution)
  | nothing (d : StackedDiagnostics)
  | aborts

def QueueEvent.event : QueueEvent → Event
  | .command r x => .command r.cmdId r.cmdSubid x
  | .nothing d => .nothing d
  | .aborts => .aborts

/-- What is in the table after the UPDATE. `keeps` stands for its triggers. -/
def updated (keeps : QueueRow → Update → Bool) (rows : List QueueRow) (r : QueueRow) (u : Update) :
    List QueueRow :=
  if keeps r u then rows else rows.filter fun r' => r'.key ≠ r.key

/-- Neither other sessions nor the commands themselves touch the table. -/
inductive QueueStep (p : Params) (keeps : QueueRow → Update → Bool) :
    QueueState → QueueEvent → QueueState → Prop
  | command {s : QueueState} {r : QueueRow} {x : Execution} {call : State} {u : Update}
      (first : First r s.rows) (step : Step p s.call (.command r.cmdId r.cmdSubid x) call)
      (performed : call.performed = s.call.performed ++ [(x, u)]) :
      QueueStep p keeps s (.command r x)
        { rows := updated keeps s.rows r u, call := call, done := s.done ++ [r] }
  | nothing {s : QueueState} {d : StackedDiagnostics} {call : State} (empty : s.rows = [])
      (step : Step p s.call (.nothing d) call) : QueueStep p keeps s (.nothing d) { s with call := call }
  | aborts {s : QueueState} {call : State} (step : Step p s.call .aborts call) :
      QueueStep p keeps s .aborts { s with call := call }

variable {p : Params} {keeps : QueueRow → Update → Bool} {s t : QueueState} {e : QueueEvent}
  {tr : List QueueEvent} {rows : List QueueRow} {r : QueueRow}

/-! ## One row after the other -/

/-- The rows in the order in which they wait. -/
structure Waiting (rows : List QueueRow) : Prop where
  sorted : rows.Pairwise fun r r' => r.cmdQueuedSince < r'.cmdQueuedSince
  distinct : (rows.map QueueRow.key).Nodup

/-- The executions of rows that have been executed one after the other, each this many times. -/
def blocks (gone : List (QueueRow × Nat)) : List QueueRow := gone.flatMap fun b => List.replicate b.2 b.1

/-- The rows that are gone were executed in their order, each of them until it was gone. The first of the
ones that are left may have been executed as well. -/
structure InOrder (keeps : QueueRow → Update → Bool) (rows : List QueueRow) (s : QueueState)
    (gone : List (QueueRow × Nat)) (left : List QueueRow) (n : Nat) : Prop where
  whole : rows = gone.map Prod.fst ++ left
  remaining : s.rows.Perm left
  done : s.done = blocks gone ++ (left.take 1).flatMap (List.replicate n)
  executed : ∀ b ∈ gone, 1 ≤ b.2
  once : (∀ r u, keeps r u = false) → (∀ b ∈ gone, b.2 = 1) ∧ n = 0

theorem waiting_suffix {l l' : List QueueRow} (h : Waiting (l ++ l')) : Waiting l' :=
  ⟨(List.pairwise_append.mp h.sorted).2.1,
    (List.nodup_append.mp (by simpa using h.distinct)).2.1⟩

/-- Only the row that waits longest is selected. -/
theorem left_of_first {left : List QueueRow} (hleft : Waiting left) (hperm : rows.Perm left)
    (h : First r rows) : ∃ rest, left = r :: rest := by
  obtain ⟨hmem, hfirst⟩ := h
  cases left with
  | nil => simp [hperm.eq_nil] at hmem
  | cons head rest =>
    have hsorted := List.pairwise_cons.mp hleft.sorted
    rcases List.mem_cons.mp (hperm.mem_iff.mp hmem) with rfl | hrest
    · exact ⟨rest, rfl⟩
    · have hlater := hsorted.1 r hrest
      have hearlier := hfirst head (hperm.mem_iff.mpr List.mem_cons_self)
      omega

theorem filter_key {rest : List QueueRow} (h : Waiting (r :: rest)) :
    (r :: rest).filter (fun r' => r'.key ≠ r.key) = rest := by
  have hdistinct := List.nodup_cons.mp h.distinct
  rw [List.filter_cons_of_neg (by simp), List.filter_eq_self]
  intro r' hr'
  simp only [ne_eq, decide_eq_true_eq]
  intro hkey
  exact hdistinct.1 (hkey ▸ List.mem_map_of_mem hr')

theorem blocks_snoc (gone : List (QueueRow × Nat)) (b : QueueRow × Nat) :
    blocks (gone ++ [b]) = blocks gone ++ List.replicate b.2 b.1 := by
  simp [blocks]

theorem inOrder_command {gone : List (QueueRow × Nat)} {left : List QueueRow} {n : Nat} {u : Update}
    {call : State} (hrows : Waiting rows) (hs : InOrder keeps rows s gone left n) (hfirst : First r s.rows) :
    ∃ gone left n, InOrder keeps rows ⟨updated keeps s.rows r u, call, s.done ++ [r]⟩ gone left n := by
  have hleft : Waiting left := waiting_suffix (hs.whole ▸ hrows)
  obtain ⟨rest, rfl⟩ := left_of_first hleft hs.remaining hfirst
  have hdone : s.done ++ [r] = blocks gone ++ List.replicate (n + 1) r := by
    rw [hs.done, List.replicate_succ']
    simp
  cases hkeeps : keeps r u with
  | true =>
    refine ⟨gone, r :: rest, n + 1, hs.whole, ?_, ?_, hs.executed, fun hnone => ?_⟩
    · simpa [updated, hkeeps] using hs.remaining
    · simpa using hdone
    · rw [hnone] at hkeeps
      cases hkeeps
  | false =>
    refine ⟨gone ++ [(r, n + 1)], rest, 0, ?_, ?_, ?_, ?_, fun hnone => ?_⟩
    · simpa using hs.whole
    · have hfilter := hs.remaining.filter fun r' => r'.key ≠ r.key
      rw [filter_key hleft] at hfilter
      simpa [updated, hkeeps] using hfilter
    · have hnone : (rest.take 1).flatMap (List.replicate 0) = [] :=
        List.flatMap_eq_nil_iff.mpr fun _ _ => rfl
      rw [blocks_snoc, hnone, List.append_nil]
      exact hdone
    · rw [List.forall_mem_append, List.forall_mem_singleton]
      exact ⟨hs.executed, Nat.le_add_left 1 n⟩
    · obtain ⟨hgone, rfl⟩ := hs.once hnone
      rw [List.forall_mem_append, List.forall_mem_singleton]
      exact ⟨⟨hgone, rfl⟩, rfl⟩

theorem inOrder_step {gone : List (QueueRow × Nat)} {left : List QueueRow} {n : Nat} (hrows : Waiting rows)
    (hs : InOrder keeps rows s gone left n) (h : QueueStep p keeps s e t) :
    ∃ gone left n, InOrder keeps rows t gone left n := by
  cases h with
  | command hfirst => exact inOrder_command hrows hs hfirst
  | nothing | aborts => exact ⟨gone, left, n, hs.whole, hs.remaining, hs.done, hs.executed, hs.once⟩

theorem inOrder_run {q : List QueueRow} (hrows : Waiting rows) (hq : q.Perm rows)
    (h : Transition.Run (QueueStep p keeps) { rows := q } tr s) :
    ∃ gone left n, InOrder keeps rows s gone left n := by
  refine h.invariant_state (I := fun s => ∃ gone left n, InOrder keeps rows s gone left n) ?_ ?_
  · refine ⟨[], rows, 0, rfl, hq, ?_, nofun, fun _ => ⟨nofun, rfl⟩⟩
    exact (List.flatMap_eq_nil_iff.mpr fun _ _ => rfl).symm
  · rintro s e t ⟨gone, left, n, hs⟩ hstep
    exact inOrder_step hrows hs hstep

/-! ## The end of a call -/

/-- Why a call is over. -/
def Ends (p : Params) (tr : List QueueEvent) (s : QueueState) : Prop :=
  .aborts ∈ tr ∨ s.rows = [] ∨ p.maxIterations = some (s.call.i : Int) ∨ 2147483648 ≤ s.call.i

theorem ends_of_exited {q : List QueueRow} (h : Transition.Run (QueueStep p keeps) { rows := q } tr s)
    (hexited : s.call.exited = true) : Ends p tr s := by
  cases h with
  | nil => cases hexited
  | snoc _ hstep =>
    cases hstep with
    | command hfirst hcall =>
      unfold Step State.step at hcall
      split at hcall <;> cases hcall
      simp only [State.next, Bool.or_eq_true, decide_eq_true_eq] at hexited
      rcases hexited with hmax | hbound
      · exact .inr (.inr (.inl hmax))
      · exact .inr (.inr (.inr (Nat.succ_le_succ hbound)))
    | nothing hempty => exact .inr (.inl hempty)
    | aborts => exact .inl (by simp)

def earlier : QueueRow := ⟨ascii "one", none, 0⟩

def later : QueueRow := ⟨ascii "two", none, 1⟩

/-- The table has the rows in another order. -/
def deletes : List QueueEvent := [.command earlier (.returns []), .command later (.returns []), .nothing {}]

end PgCmdQueue.RunSqlCmdQueue
