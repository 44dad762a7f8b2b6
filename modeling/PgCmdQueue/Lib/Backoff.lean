import Mathlib.Algebra.Order.Ring.Nat
import Mathlib.Data.Nat.Log

/-!
# Waits that double

A loop that tries again waits twice as long each time, as long as the double stays within a bound.
-/

namespace Backoff

variable {bound k : ℕ}

def next (bound wait : ℕ) : ℕ := if wait * 2 ≤ bound then wait * 2 else wait

/-- The waits from the first one on, which is 1. -/
def waits (bound : ℕ) (k : ℕ) : ℕ := 2 ^ min k (Nat.log 2 bound)

@[simp] theorem waits_zero : waits bound 0 = 1 := by simp [waits]

theorem next_waits : next bound (waits bound k) = waits bound (k + 1) := by
  unfold next waits
  by_cases hk : k < Nat.log 2 bound
  · have hbound : bound ≠ 0 := by
      rintro rfl
      simp at hk
    have hle : 2 ^ k * 2 ≤ bound := by
      rw [← Nat.pow_succ]
      exact (Nat.pow_le_pow_right (by decide) hk).trans (Nat.pow_log_le_self 2 hbound)
    rw [Nat.min_eq_left hk.le, Nat.min_eq_left hk, if_pos hle, Nat.pow_succ]
  · have hlt : bound < 2 ^ Nat.log 2 bound * 2 := by
      rw [← Nat.pow_succ]
      exact Nat.lt_pow_succ_log_self (by decide) bound
    rw [Nat.min_eq_right (by omega), Nat.min_eq_right (by omega), if_neg (by omega)]

end Backoff
