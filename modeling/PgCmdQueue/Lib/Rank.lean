import Mathlib.Data.List.Count
import Mathlib.Data.List.Nodup
import Mathlib.Data.List.Perm.Subperm
import Mathlib.Order.Lattice

/-!
# Ranks in a list

The rank of a row among rows in an order is one more than the number of those before it.
-/

namespace Rank

variable {α : Type*} [LinearOrder α] {xs : List α} {x y : α} {n : Nat}

/-- `rank() over (order by ..)` for the row `x`. -/
def rank (xs : List α) (x : α) : Nat := 1 + xs.countP (· < x)

theorem rank_pos (xs : List α) (x : α) : 0 < rank xs x := Nat.add_pos_left Nat.one_pos _

theorem rank_le (hx : x ∈ xs) : rank xs x ≤ xs.length := by
  have hlt : xs.countP (· < x) < xs.length := by
    rw [List.countP_lt_length_iff]
    exact ⟨x, hx, by simp⟩
  unfold rank
  omega

theorem rank_lt_rank (hx : x ∈ xs) (h : x < y) : rank xs x < rank xs y := by
  unfold rank
  have hperm := List.perm_cons_erase hx
  rw [hperm.countP_eq, hperm.countP_eq, List.countP_cons_of_neg (by simp),
    List.countP_cons_of_pos (by simpa using h)]
  have hrest : (xs.erase x).countP (· < x) ≤ (xs.erase x).countP (· < y) := by
    refine List.countP_mono_left fun z _ hz => ?_
    exact decide_eq_true ((of_decide_eq_true hz).trans h)
  omega

theorem rank_inj (hx : x ∈ xs) (hy : y ∈ xs) (h : rank xs x = rank xs y) : x = y := by
  rcases lt_trichotomy x y with hlt | heq | hlt
  · exact absurd h (rank_lt_rank hx hlt).ne
  · exact heq
  · exact absurd h (rank_lt_rank hy hlt).ne'

/-- The ranks of different rows are the numbers from 1 on. -/
theorem map_rank_perm (h : xs.Nodup) : (xs.map (rank xs)).Perm (List.range' 1 xs.length) := by
  have hnodup : (xs.map (rank xs)).Nodup := by
    rw [List.nodup_map_iff_inj_on h]
    exact fun x hx y hy => rank_inj hx hy
  have hsubset : xs.map (rank xs) ⊆ List.range' 1 xs.length := by
    intro k hk
    obtain ⟨x, hx, rfl⟩ := List.mem_map.mp hk
    have := rank_pos xs x
    have := rank_le hx
    rw [List.mem_range'_1]
    omega
  exact (List.subperm_of_subset hnodup hsubset).perm_of_length_le (by simp)

theorem length_filter_rank (h : xs.Nodup) (n : Nat) :
    (xs.filter (rank xs · = n)).length = if 1 ≤ n ∧ n ≤ xs.length then 1 else 0 := by
  have hcount : (xs.filter (rank xs · = n)).length = (xs.map (rank xs)).count n := by
    rw [← List.countP_eq_length_filter, List.count, List.countP_map]
    rfl
  rw [hcount, (map_rank_perm h).count_eq, List.Nodup.count List.nodup_range']
  congr 1
  rw [List.mem_range'_1, Nat.add_comm, Nat.lt_succ_iff]

end Rank
