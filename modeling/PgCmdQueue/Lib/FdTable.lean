import Mathlib.Logic.Function.Basic
import Mathlib.Data.List.Basic

/-!
# Tables of descriptors

A descriptor is a number below a limit. A new one is the lowest number that is free.
-/

namespace FdTable

/-- What every number is open on. -/
abbrev Table (α : Type*) := Nat → Option α

variable {α : Type*}

def lowest (limit : Nat) (t : Table α) : Option Nat := (List.range limit).find? fun n => (t n).isNone

def put (t : Table α) (n : Nat) (x : α) : Table α := Function.update t n (some x)

def close (t : Table α) (n : Nat) : Table α := Function.update t n none

/-- `pipe()`: two new descriptors, the one to read from first. -/
def pipe (limit : Nat) (t : Table α) (r w : α) : Option (Nat × Nat × Table α) :=
  (lowest limit t).bind fun i =>
    (lowest limit (put t i r)).map fun j => (i, j, put (put t i r) j w)

/-- `dup2()` leaves the table alone if there is nothing to copy. -/
def dup2 (t : Table α) (old new : Nat) : Table α :=
  if (t old).isSome then Function.update t new (t old) else t

/-- Every descriptor is below the limit. -/
def Below (limit : Nat) (t : Table α) : Prop := ∀ n, limit ≤ n → t n = none

variable {limit m n i j old new : Nat} {t t' : Table α} {x y r w : α}

@[simp] theorem put_self : put t n x n = some x := Function.update_self ..
@[simp] theorem close_self : close t n n = none := Function.update_self ..

theorem put_ne (h : m ≠ n) : put t n x m = t m := Function.update_of_ne h ..
theorem close_ne (h : m ≠ n) : close t n m = t m := Function.update_of_ne h ..

/-- What is still open after a close was open before it, under another number. -/
theorem close_eq_some_iff : close t n m = some x ↔ m ≠ n ∧ t m = some x := by
  by_cases h : m = n
  · simp [h]
  · simp [h, close_ne h]

theorem put_eq_some_iff : put t n x m = some y ↔ m = n ∧ x = y ∨ m ≠ n ∧ t m = some y := by
  by_cases h : m = n
  · simp [h]
  · simp [h, put_ne h]

theorem lowest_eq_some_iff : lowest limit t = some n ↔
    n < limit ∧ t n = none ∧ ∀ m < n, t m ≠ none := by
  unfold lowest
  simp [and_left_comm, Option.isSome_iff_ne_none]

theorem dup2_self (h : t old = some x) : dup2 t old new new = some x := by
  simp [dup2, h]

theorem dup2_ne (h : m ≠ new) : dup2 t old new m = t m := by
  unfold dup2
  split
  · exact Function.update_of_ne h ..
  · rfl

/-- What `pipe()` does when it succeeds. -/
structure Piped (limit : Nat) (t : Table α) (r w : α) (i j : Nat) (t' : Table α) : Prop where
  ordered : i < j
  limited : j < limit
  freeRead : t i = none
  freeWrite : t j = none
  table : t' = put (put t i r) j w

theorem piped_of_pipe (h : pipe limit t r w = some (i, j, t')) : Piped limit t r w i j t' := by
  unfold pipe at h
  simp only [Option.bind_eq_some_iff, Option.map_eq_some_iff, Prod.mk.injEq] at h
  obtain ⟨i', hi, j', hj, rfl, rfl, rfl⟩ := h
  obtain ⟨-, hi, hlow⟩ := lowest_eq_some_iff.mp hi
  obtain ⟨hj, hfree, -⟩ := lowest_eq_some_iff.mp hj
  have hne : j' ≠ i' := by
    rintro rfl
    simp at hfree
  rw [put_ne hne] at hfree
  have hle : i' ≤ j' := by
    by_contra hlt
    exact hlow j' (by omega) hfree
  exact ⟨by omega, hj, hi, hfree, rfl⟩

/-! ## The limit -/

theorem below_put (h : Below limit t) (hn : n < limit) : Below limit (put t n x) := by
  intro m hm
  rw [put_ne (by omega)]
  exact h m hm

theorem below_close (h : Below limit t) : Below limit (close t n) := by
  intro m hm
  by_cases hmn : m = n
  · rw [hmn, close_self]
  · rw [close_ne hmn, h m hm]

theorem Piped.below (h : Piped limit t r w i j t') (ht : Below limit t) : Below limit t' := by
  rw [h.table]
  exact below_put (below_put ht (by have := h.ordered; have := h.limited; omega)) h.limited

theorem below_dup2 (h : Below limit t) (hn : new < limit) : Below limit (dup2 t old new) := by
  intro m hm
  rw [dup2_ne (by omega), h m hm]

end FdTable
