import PgCmdQueue.Lib.Binary64

/-!
# The milliseconds of an interval

`cmdqd.cmd_queue` multiplies the seconds of `queue_reselect_interval` by `10^3`, which is a
`double precision`, so that both the seconds and the product are rounded.
-/

namespace PgCmdQueue.Extension

open Binary64 Printf

/-- A month is not always of as many days, nor a day of as many hours. -/
structure Interval where
  months : Int := 0
  days : Int := 0
  usec : Int := 0

/-- `extract('epoch' from …)`, in microseconds: a year has 365.25 days, and a month behind the
last whole year 30. -/
def Interval.epochUsec (i : Interval) : Int :=
  ((4 * 365 + 1) * i.months.tdiv 12 + 4 * 30 * i.months.tmod 12 + 4 * i.days) * (86400 / 4) * 1000000 +
    i.usec

/-- `extract('epoch' from …)`, a `numeric`. -/
def Interval.epoch (i : Interval) : ℚ := i.epochUsec / 1000000

/-- `extract('epoch' from …) * 10^3`. The `numeric` becomes a `double precision` first. -/
def Interval.epochMsec (i : Interval) : ℚ := nearest (nearest i.epoch * 1000)

/-- The interval in whole milliseconds. -/
def Interval.wholeMsec (i : Interval) : Int := i.epochUsec.tdiv 1000

/-- Rounding makes less than `n` of `n` milliseconds. The number is seen where its seconds have 53
bits in front of the point. -/
def RoundsBelow (n : ℕ) : Prop :=
  ∃ s, 1000 * 2 ^ 52 ≤ n * 2 ^ s ∧ n * 2 ^ s < 2 ^ 62 ∧ 256 < n * 2 ^ s % 1000 ∧ n * 2 ^ s % 1000 < 500

/-- The product, of so many microseconds. -/
def msecOf (u : ℕ) : ℚ := nearest (nearest ((u : ℚ) / 1000000) * 1000)

variable {n u : ℕ}

/-! ## Not a whole number of milliseconds -/

theorem msecOf_error (hu : 0 < u) : |msecOf u - u / 1000| ≤ u / 1000 / 2 ^ 51 := by
  have hx : (0 : ℚ) < u / 1000000 := by
    have : (0 : ℚ) < u := by exact_mod_cast hu
    linarith
  have h1 := abs_le.mp (abs_nearest_sub_le hx)
  have hy : 0 < nearest ((u : ℚ) / 1000000) * 1000 := mul_pos (nearest_pos hx) (by norm_num)
  have h2 := abs_le.mp (abs_nearest_sub_le hy)
  unfold msecOf
  rw [abs_le]
  constructor <;> linarith [h1.1, h1.2, h2.1, h2.2]

theorem msecOf_near (hn : u / 1000 ≤ 2 ^ 31) (hu : 0 < u) :
    u / 1000 - 1 / 2 ^ 19 ≤ msecOf u ∧ msecOf u ≤ (u : ℚ) / 1000 + 1 / 2 ^ 19 := by
  have herr := abs_le.mp (msecOf_error hu)
  have hq : (u : ℚ) ≤ 2 ^ 32 * 1000 := by
    have : u ≤ 2 ^ 32 * 1000 := by omega
    exact_mod_cast this
  constructor <;> linarith [herr.1, herr.2]

theorem msecOf_lt (hn : u / 1000 ≤ 2 ^ 31) (hu : 0 < u) : msecOf u < 10 ^ 15 := by
  have hq : (u : ℚ) ≤ 2 ^ 32 * 1000 := by
    have : u ≤ 2 ^ 32 * 1000 := by omega
    exact_mod_cast this
  linarith [(msecOf_near hn hu).2]

/-- The error is less than a microsecond. -/
theorem floor_msecOf_of_mod (hn : u / 1000 ≤ 2 ^ 31) (hr : u % 1000 ≠ 0) :
    ⌊msecOf u⌋₊ = u / 1000 := by
  obtain ⟨hlo, hhi⟩ := msecOf_near hn (by omega)
  have h1 : ((u / 1000 : ℕ) : ℚ) * 1000 + 1 ≤ u := by
    have : u / 1000 * 1000 + 1 ≤ u := by omega
    exact_mod_cast this
  have h2 : (u : ℚ) + 1 ≤ (((u / 1000 : ℕ) : ℚ) + 1) * 1000 := by
    have : u + 1 ≤ (u / 1000 + 1) * 1000 := by omega
    exact_mod_cast this
  have h0 : (0 : ℚ) ≤ ((u / 1000 : ℕ) : ℚ) := Nat.cast_nonneg _
  rw [Nat.floor_eq_iff (by linarith)]
  constructor <;> linarith

/-! ## A whole number of milliseconds -/

theorem msecOf_whole (n : ℕ) : msecOf (1000 * n) = nearest (nearest ((n : ℚ) / 1000) * 1000) := by
  unfold msecOf
  congr 3
  push_cast
  ring

theorem exists_scale (h0 : 0 < n) (hn : n ≤ 2 ^ 31) :
    ∃ s, 31 ≤ s ∧ 1000 * 2 ^ 52 ≤ n * 2 ^ s ∧ n * 2 ^ s < 1000 * 2 ^ 53 := by
  have hq : 2 ^ 31 ≤ (1000 * 2 ^ 53 - 1) / n := by
    rw [Nat.le_div_iff_mul_le h0]
    omega
  have hlo := Nat.pow_log_le_self 2 (by omega : (1000 * 2 ^ 53 - 1) / n ≠ 0)
  have hhi := Nat.lt_pow_succ_log_self one_lt_two ((1000 * 2 ^ 53 - 1) / n)
  have hs := Nat.le_log_of_pow_le one_lt_two hq
  rw [Nat.le_div_iff_mul_le h0] at hlo
  rw [Nat.div_lt_iff_lt_mul h0] at hhi
  generalize Nat.log 2 ((1000 * 2 ^ 53 - 1) / n) = s at hlo hhi hs
  rw [Nat.succ_eq_add_one, pow_succ 2 s, Nat.mul_right_comm] at hhi
  refine ⟨s, hs, ?_, ?_⟩ <;>
    · rw [Nat.mul_comm n]
      omega

theorem natCast_scaled (n s : ℕ) : (n : ℚ) = ((n * 2 ^ s : ℕ) : ℚ) * 2 ^ (-(s : ℤ)) := by
  have h2 : (2 : ℚ) ^ s ≠ 0 := by simp
  rw [zpow_neg, zpow_natCast]
  push_cast
  field_simp

/-- The seconds, rounded, in the unit of their last bit. -/
def roundedSeconds (m : ℕ) : ℕ := if m % 1000 < 500 then m / 1000 else m / 1000 + 1

theorem msecOf_scaled {s : ℕ} (hl : 1000 * 2 ^ 52 ≤ n * 2 ^ s) (hu : n * 2 ^ s < 1000 * 2 ^ 53)
    (ht : n * 2 ^ s % 1000 ≠ 500) :
    msecOf (1000 * n) =
      nearest (((1000 * roundedSeconds (n * 2 ^ s) : ℕ) : ℚ) * 2 ^ (-(s : ℤ))) := by
  have hx : (n : ℚ) / 1000 = ((n * 2 ^ s : ℕ) : ℚ) / (1000 : ℕ) * 2 ^ (-(s : ℤ)) := by
    rw [div_mul_eq_mul_div, ← natCast_scaled]
    norm_num
  have hlo : (2 : ℚ) ^ 52 ≤ ((n * 2 ^ s : ℕ) : ℚ) / (1000 : ℕ) := by
    rw [le_div_iff₀ (by norm_num), mul_comm]
    exact_mod_cast hl
  have hhi : ((n * 2 ^ s : ℕ) : ℚ) / (1000 : ℕ) < 2 ^ 53 := by
    rw [div_lt_iff₀ (by norm_num), mul_comm (2 ^ 53)]
    exact_mod_cast hu
  have hr : divHalfEven (n * 2 ^ s) 1000 = roundedSeconds (n * 2 ^ s) := by
    unfold divHalfEven roundedSeconds
    split <;> split <;> omega
  rw [msecOf_whole, hx, nearest_scaled hlo hhi, roundHalfEven_div _ _ (by norm_num), hr]
  congr 1
  push_cast
  ring

theorem divHalfEven_below {k m r : ℕ} (hk : k + r = 1024 * m) (hr : r < 500) :
    1024 * m ≤ divHalfEven k (2 ^ 9) * 2 ^ 9 ↔ r ≤ 256 := by
  unfold divHalfEven
  rcases lt_trichotomy r 256 with h | h | h
  · rcases Nat.eq_zero_or_pos r with h0 | h0
    · rw [if_pos (by omega)]
      omega
    · rw [if_neg (by omega)]
      omega
  · -- The number itself is even.
    rw [if_neg (by omega)]
    omega
  · rw [if_pos (by omega)]
    omega

theorem divHalfEven_below_long {k m r : ℕ} (hk : k + r = 1024 * m) (hr : r < 500) :
    1024 * m ≤ divHalfEven k (2 ^ 10) * 2 ^ 10 := by
  unfold divHalfEven
  split <;> omega

theorem divHalfEven_above {k m r : ℕ} (hk : k = 1024 * m + r) :
    1024 * m ≤ divHalfEven k (2 ^ 9) * 2 ^ 9 ∧ 1024 * m ≤ divHalfEven k (2 ^ 10) * 2 ^ 10 := by
  unfold divHalfEven
  constructor <;> split <;> omega

/-- Whether the product falls below is seen from what the first rounding takes away. -/
theorem le_msecOf_iff {s : ℕ} (hs : 31 ≤ s) (hl : 1000 * 2 ^ 52 ≤ n * 2 ^ s)
    (hu : n * 2 ^ s < 1000 * 2 ^ 53) :
    n ≤ msecOf (1000 * n) ↔ ¬(n * 2 ^ s < 2 ^ 62 ∧ 256 < n * 2 ^ s % 1000 ∧ n * 2 ^ s % 1000 < 500) := by
  obtain ⟨t, rfl⟩ : ∃ t, s = 31 + t := ⟨s - 31, by omega⟩
  obtain ⟨m, hm⟩ : ∃ m, n * 2 ^ (31 + t) = 2 ^ 31 * m := ⟨n * 2 ^ t, by rw [pow_add]; ring⟩
  have hunit : (0 : ℚ) < 2 ^ (-((31 + t : ℕ) : ℤ)) := zpow_pos two_pos _
  rw [msecOf_scaled hl hu (by omega)]
  rw [hm] at hl hu ⊢
  obtain ⟨k, hk⟩ : ∃ k, k = 1000 * roundedSeconds (2 ^ 31 * m) := ⟨_, rfl⟩
  rw [← hk]
  have hcmp (r : ℕ) : (n : ℚ) ≤ (r : ℚ) * 2 ^ (-((31 + t : ℕ) : ℤ)) ↔ 1024 * (2 ^ 21 * m) ≤ r := by
    have : 1024 * (2 ^ 21 * m) = 2 ^ 31 * m := by ring
    rw [natCast_scaled n (31 + t), hm, this, mul_le_mul_iff_left₀ hunit]
    exact_mod_cast Iff.rfl
  have hrange : 2 ^ 52 * 2 ^ 9 ≤ k ∧ k < 2 ^ 53 * 2 ^ 10 := by
    unfold roundedSeconds at hk
    split at hk <;> omega
  by_cases hr : 2 ^ 31 * m % 1000 < 500
  · rw [roundedSeconds, if_pos hr] at hk
    have hsum : k + 2 ^ 31 * m % 1000 = 1024 * (2 ^ 21 * m) := by omega
    by_cases hb : k < 2 ^ 53 * 2 ^ 9
    · rw [nearest_natCast_scaled hrange.1 hb, hcmp, divHalfEven_below hsum hr]
      omega
    · rw [nearest_natCast_scaled (e := 10) (by omega) hrange.2, hcmp]
      have := divHalfEven_below_long hsum hr
      omega
  · rw [roundedSeconds, if_neg hr] at hk
    have hsum : k = 1024 * (2 ^ 21 * m) + (1000 - 2 ^ 31 * m % 1000) := by omega
    obtain ⟨hlo, hhi⟩ := divHalfEven_above hsum
    by_cases hb : k < 2 ^ 53 * 2 ^ 9
    · rw [nearest_natCast_scaled hrange.1 hb, hcmp]
      omega
    · rw [nearest_natCast_scaled (e := 10) (by omega) hrange.2, hcmp]
      omega

theorem not_roundsBelow_zero : ¬RoundsBelow 0 := by
  rintro ⟨s, hs, -⟩
  simp at hs

theorem roundsBelow_iff {s : ℕ} (hl : 1000 * 2 ^ 52 ≤ n * 2 ^ s) (hu : n * 2 ^ s < 1000 * 2 ^ 53) :
    RoundsBelow n ↔ n * 2 ^ s < 2 ^ 62 ∧ 256 < n * 2 ^ s % 1000 ∧ n * 2 ^ s % 1000 < 500 := by
  refine ⟨?_, fun h => ⟨s, hl, h⟩⟩
  rintro ⟨t, htl, htu, ht⟩
  -- Twice the number is too large, and half of it too small.
  have hdouble {i j : ℕ} (h : i < j) : 2 * (n * 2 ^ i) ≤ n * 2 ^ j := by
    have : n * 2 ^ (i + 1) ≤ n * 2 ^ j := Nat.mul_le_mul_left n (Nat.pow_le_pow_right two_pos h)
    rw [pow_succ] at this
    linarith
  rcases lt_trichotomy s t with hst | rfl | hst
  · have := hdouble hst
    omega
  · exact ⟨htu, ht⟩
  · have := hdouble hst
    omega

/-- The milliseconds are kept, unless they are a whole number that rounding falls below. -/
theorem floor_msecOf_iff (hn : u / 1000 ≤ 2 ^ 31) :
    ⌊msecOf u⌋₊ = u / 1000 ↔ (u % 1000 = 0 → ¬RoundsBelow (u / 1000)) := by
  by_cases hr : u % 1000 = 0
  · obtain ⟨n, rfl⟩ : ∃ n, u = 1000 * n := ⟨u / 1000, by omega⟩
    have hdiv : 1000 * n / 1000 = n := by omega
    rw [hdiv] at hn ⊢
    rcases Nat.eq_zero_or_pos n with rfl | h0
    · simp [msecOf, not_roundsBelow_zero]
    obtain ⟨s, hs, hl, hu⟩ := exists_scale h0 hn
    obtain ⟨-, hhi⟩ := msecOf_near (u := 1000 * n) (by omega) (by omega)
    push_cast at hhi
    rw [roundsBelow_iff hl hu, ← le_msecOf_iff hs hl hu, Nat.floor_eq_iff' h0.ne']
    constructor
    · exact fun h _ => h.1
    · exact fun h => ⟨h hr, by linarith⟩
  · exact iff_of_true (floor_msecOf_of_mod hn hr) fun h => absurd h hr

example : ⌊msecOf 1001000⌋₊ = 1000 := by decide +kernel

theorem msecOf_pos (h : 0 < u) : 1 / 5000 ≤ msecOf u := by
  have hu : (1 : ℚ) ≤ u := by exact_mod_cast h
  have h1 := (nearest_bounds (x := (u : ℚ) / 1000000) (by linarith)).1
  have h2 := (nearest_bounds (x := nearest ((u : ℚ) / 1000000) * 1000) (by linarith)).1
  unfold msecOf
  linarith

@[simp] theorem nearest_msecOf (u : ℕ) : nearest (msecOf u) = msecOf u := nearest_nearest _

theorem Interval.epochMsec_eq (i : Interval) :
    i.epochMsec = if i.epochUsec < 0 then -msecOf i.epochUsec.natAbs else msecOf i.epochUsec.natAbs := by
  unfold epochMsec epoch msecOf
  obtain ⟨u, hu | hu⟩ := Int.eq_nat_or_neg i.epochUsec
  · rw [if_neg (by omega), hu, Int.natAbs_natCast, Int.cast_natCast]
  · rcases Nat.eq_zero_or_pos u with rfl | h0
    · simp [hu]
    · rw [if_pos (by omega), hu, Int.natAbs_neg, Int.natAbs_natCast, Int.cast_neg, Int.cast_natCast, neg_div,
        nearest_neg, neg_mul, nearest_neg]

theorem Interval.wholeMsec_eq (i : Interval) : i.wholeMsec =
    if i.epochUsec < 0 then -((i.epochUsec.natAbs / 1000 : ℕ) : ℤ) else (i.epochUsec.natAbs / 1000 : ℕ) := by
  unfold wholeMsec
  obtain ⟨u, hu | hu⟩ := Int.eq_nat_or_neg i.epochUsec
  · rw [if_neg (by omega), hu, Int.natAbs_natCast]
    exact Int.ofNat_tdiv u 1000
  · rcases Nat.eq_zero_or_pos u with rfl | h0
    · simp [hu]
    · rw [if_pos (by omega), hu, Int.natAbs_neg, Int.natAbs_natCast, Int.neg_tdiv]
      congr 1

end PgCmdQueue.Extension
