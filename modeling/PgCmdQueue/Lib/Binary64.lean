import Mathlib.Data.Int.Log
import Mathlib.Data.Nat.Prime.Basic
import Mathlib.Tactic.Linarith
import PgCmdQueue.Lib.Printf

/-!
# Numbers of 53 bits

The values of a `double` that is neither too large nor too small, and rounding to them.
-/

namespace Binary64

open Printf

/-- The value of 53 bits that is nearest, and from the middle the even one. The exponent has no
bounds. -/
def nearest (x : ℚ) : ℚ :=
  let ulp : ℚ := 2 ^ (Int.log 2 |x| - 52)
  roundHalfEven (x / ulp) * ulp

variable {x y : ℚ} {m : ℤ} {k : ℤ}

/-! ## To an integer -/

theorem abs_sub_roundHalfEven_le (x : ℚ) : |x - roundHalfEven x| ≤ 1 / 2 := by
  have hl := Int.floor_le x
  have hu := Int.lt_floor_add_one x
  unfold roundHalfEven
  split
  · rename_i h
    rw [abs_le]
    constructor <;> rcases h with h | h <;> linarith
  · rename_i h
    rw [not_or, not_lt] at h
    rw [abs_le]
    push_cast
    constructor <;> linarith [h.1]

/-- A tie goes to the even side. -/
theorem even_of_tie (h : |x - roundHalfEven x| = 1 / 2) : roundHalfEven x % 2 = 0 := by
  have hl := Int.floor_le x
  have hu := Int.lt_floor_add_one x
  unfold roundHalfEven at h ⊢
  split
  · rename_i hx
    rw [if_pos hx, abs_of_nonneg (by linarith)] at h
    rcases hx with hx | hx
    · linarith
    · exact hx.2
  · rename_i hx
    rw [if_neg hx] at h
    rw [not_or, not_lt, not_and] at hx
    push_cast at h
    rw [abs_of_nonpos (by linarith)] at h
    have := hx.2 (by linarith)
    omega

theorem roundHalfEven_eq (h : |x - m| ≤ 1 / 2) (ht : |x - m| = 1 / 2 → m % 2 = 0) :
    roundHalfEven x = m := by
  have hr := abs_sub_roundHalfEven_le x
  by_contra hne
  have hd : |(roundHalfEven x : ℚ) - m| ≤ |x - roundHalfEven x| + |x - m| := by
    rw [abs_sub_comm x (roundHalfEven x : ℚ)]
    exact abs_sub_le _ _ _
  have h1 : (1 : ℚ) ≤ |(roundHalfEven x : ℚ) - m| := by
    rw [← Int.cast_sub, ← Int.cast_abs]
    exact_mod_cast Int.one_le_abs (sub_ne_zero.mpr hne)
  -- Both are at a distance of a half, so that both are even, and they are next to each other.
  have hm := ht (by linarith)
  have hx := even_of_tie (x := x) (by linarith)
  have h2 : |roundHalfEven x - m| ≤ 1 := by
    have : |(roundHalfEven x : ℚ) - m| ≤ 1 := by linarith
    rw [← Int.cast_sub, ← Int.cast_abs] at this
    exact_mod_cast this
  rw [abs_le] at h2
  omega

theorem roundHalfEven_eq_of_lt (h : |x - m| < 1 / 2) : roundHalfEven x = m :=
  roundHalfEven_eq h.le fun ht => absurd ht h.ne

@[simp] theorem roundHalfEven_intCast (m : ℤ) : roundHalfEven (m : ℚ) = m :=
  roundHalfEven_eq_of_lt (by norm_num)

theorem roundHalfEven_neg (x : ℚ) : roundHalfEven (-x) = -roundHalfEven x := by
  have hd : |-x - ((-roundHalfEven x : ℤ) : ℚ)| = |x - roundHalfEven x| := by
    push_cast
    rw [← abs_neg]
    congr 1
    ring
  refine roundHalfEven_eq (hd ▸ abs_sub_roundHalfEven_le x) fun ht => ?_
  have := even_of_tie (hd ▸ ht)
  omega

theorem roundHalfEven_mono (h : x ≤ y) : roundHalfEven x ≤ roundHalfEven y := by
  have hx := abs_le.mp (abs_sub_roundHalfEven_le x)
  have hy := abs_le.mp (abs_sub_roundHalfEven_le y)
  by_contra hlt
  have h1 : (roundHalfEven y : ℚ) + 1 ≤ roundHalfEven x := by exact_mod_cast Int.not_le.mp hlt
  have hxy : x = y := by linarith
  rw [hxy] at hlt
  exact hlt le_rfl

def divHalfEven (n d : ℕ) : ℕ :=
  if 2 * (n % d) < d ∨ 2 * (n % d) = d ∧ n / d % 2 = 0 then n / d else n / d + 1

theorem roundHalfEven_div (n d : ℕ) (hd : 0 < d) : roundHalfEven ((n : ℚ) / d) = divHalfEven n d := by
  have hq : (0 : ℚ) < d := by exact_mod_cast hd
  have hfloor : ⌊(n : ℚ) / d⌋ = (n / d : ℕ) := by
    exact_mod_cast Rat.floor_natCast_div_natCast n d
  have hrest : (n : ℚ) / d - (n / d : ℕ) = ((n % d : ℕ) : ℚ) / d := by
    have : (n : ℚ) = d * (n / d : ℕ) + (n % d : ℕ) := by exact_mod_cast (Nat.div_add_mod n d).symm
    field_simp
    linarith
  have hlt : ((n % d : ℕ) : ℚ) / d < 1 / 2 ↔ 2 * (n % d) < d := by
    rw [div_lt_div_iff₀ hq two_pos, one_mul, mul_comm]
    exact_mod_cast Iff.rfl
  have heq : ((n % d : ℕ) : ℚ) / d = 1 / 2 ↔ 2 * (n % d) = d := by
    rw [div_eq_div_iff hq.ne' two_ne_zero, one_mul, mul_comm]
    exact_mod_cast Iff.rfl
  have heven : ((n / d : ℕ) : ℤ) % 2 = 0 ↔ n / d % 2 = 0 := by omega
  unfold roundHalfEven divHalfEven
  rw [hfloor, Int.cast_natCast, hrest]
  simp only [hlt, heq, heven]
  split <;> simp

/-! ## To 53 bits -/

@[simp] theorem nearest_zero : nearest 0 = 0 := by
  have h : roundHalfEven 0 = 0 := roundHalfEven_intCast 0
  simp [nearest, h]

theorem nearest_neg (x : ℚ) : nearest (-x) = -nearest x := by
  unfold nearest
  dsimp only
  rw [abs_neg, neg_div, roundHalfEven_neg]
  push_cast
  ring

/-- A number is rounded where it has 53 bits in front of the point. -/
theorem nearest_scaled (hl : 2 ^ 52 ≤ y) (hu : y < 2 ^ 53) (k : ℤ) :
    nearest (y * 2 ^ k) = roundHalfEven y * 2 ^ k := by
  have hk : (0 : ℚ) < 2 ^ k := zpow_pos two_pos k
  have hy : 0 < y := by linarith
  have hlog : Int.log 2 (y * 2 ^ k) = 52 + k := by
    apply le_antisymm
    · have : y * 2 ^ k < ((2 : ℕ) : ℚ) ^ (53 + k) := by
        rw [Nat.cast_ofNat, zpow_add₀ two_ne_zero]
        exact mul_lt_mul_of_pos_right hu hk
      have := (Int.lt_zpow_iff_log_lt one_lt_two (mul_pos hy hk)).mp this
      omega
    · apply (Int.zpow_le_iff_le_log one_lt_two (mul_pos hy hk)).mp
      rw [Nat.cast_ofNat, zpow_add₀ two_ne_zero]
      exact mul_le_mul_of_nonneg_right hl hk.le
  unfold nearest
  dsimp only
  rw [abs_of_pos (mul_pos hy hk), hlog, add_sub_cancel_left, mul_div_cancel_right₀ _ hk.ne']

theorem nearest_natCast_scaled {n e : ℕ} (hl : 2 ^ 52 * 2 ^ e ≤ n) (hu : n < 2 ^ 53 * 2 ^ e) (k : ℤ) :
    nearest (n * 2 ^ k) = ((divHalfEven n (2 ^ e) * 2 ^ e : ℕ) : ℚ) * 2 ^ k := by
  have he : (0 : ℚ) < (2 ^ e : ℕ) := by exact_mod_cast Nat.two_pow_pos e
  have hn : (n : ℚ) * 2 ^ k = (n : ℚ) / (2 ^ e : ℕ) * 2 ^ (e + k) := by
    rw [zpow_add₀ two_ne_zero, zpow_natCast, ← mul_assoc]
    push_cast
    rw [div_mul_cancel₀ _ (by simp)]
  have hlo : (2 : ℚ) ^ 52 ≤ (n : ℚ) / (2 ^ e : ℕ) := by
    rw [le_div_iff₀ he]
    exact_mod_cast hl
  have hhi : (n : ℚ) / (2 ^ e : ℕ) < 2 ^ 53 := by
    rw [div_lt_iff₀ he]
    exact_mod_cast hu
  rw [hn, nearest_scaled hlo hhi, roundHalfEven_div _ _ (Nat.two_pow_pos e), zpow_add₀ two_ne_zero,
    zpow_natCast, ← mul_assoc]
  push_cast
  rfl

theorem exists_scaled (hx : 0 < x) :
    ∃ (y : ℚ) (k : ℤ), 2 ^ 52 ≤ y ∧ y < 2 ^ 53 ∧ x = y * 2 ^ k := by
  have hk : (0 : ℚ) < 2 ^ (Int.log 2 x - 52) := zpow_pos two_pos _
  have hlo := Int.zpow_log_le_self one_lt_two hx
  have hhi := Int.lt_zpow_succ_log_self one_lt_two x
  rw [Nat.cast_ofNat] at hlo hhi
  refine ⟨x / 2 ^ (Int.log 2 x - 52), Int.log 2 x - 52, ?_, ?_, (div_mul_cancel₀ _ hk.ne').symm⟩
  · rw [le_div_iff₀ hk, ← zpow_natCast, ← zpow_add₀ two_ne_zero]
    simpa using hlo
  · rw [div_lt_iff₀ hk, ← zpow_natCast, ← zpow_add₀ two_ne_zero]
    convert hhi using 2
    push_cast
    ring

theorem roundHalfEven_bits (hl : 2 ^ 52 ≤ y) (hu : y < 2 ^ 53) :
    2 ^ 52 ≤ roundHalfEven y ∧ roundHalfEven y ≤ 2 ^ 53 := by
  have hlo := roundHalfEven_mono (x := ((2 ^ 52 : ℤ) : ℚ)) (y := y) (by exact_mod_cast hl)
  have hhi := roundHalfEven_mono (x := y) (y := ((2 ^ 53 : ℤ) : ℚ)) (by exact_mod_cast hu.le)
  rw [roundHalfEven_intCast] at hlo hhi
  exact ⟨hlo, hhi⟩

theorem nearest_mono_of_pos (hx : 0 < x) (h : x ≤ y) : nearest x ≤ nearest y := by
  obtain ⟨a, j, hal, hau, rfl⟩ := exists_scaled hx
  obtain ⟨b, k, hbl, hbu, rfl⟩ := exists_scaled (hx.trans_le h)
  have hj : (0 : ℚ) < 2 ^ j := zpow_pos two_pos j
  have hk : (0 : ℚ) < 2 ^ k := zpow_pos two_pos k
  rw [nearest_scaled hal hau, nearest_scaled hbl hbu]
  rcases lt_trichotomy j k with hjk | rfl | hjk
  · -- The larger number has a larger unit, and is at least its `2 ^ 52`.
    have hunit : (2 : ℚ) * 2 ^ j ≤ 2 ^ k := by
      rw [← zpow_one_add₀ two_ne_zero]
      exact zpow_le_zpow_right₀ one_le_two (by omega)
    have ha : (roundHalfEven a : ℚ) ≤ 2 ^ 53 := by exact_mod_cast (roundHalfEven_bits hal hau).2
    have hb : (2 : ℚ) ^ 52 ≤ roundHalfEven b := by exact_mod_cast (roundHalfEven_bits hbl hbu).1
    calc (roundHalfEven a : ℚ) * 2 ^ j ≤ 2 ^ 53 * 2 ^ j := by gcongr
      _ = 2 ^ 52 * (2 * 2 ^ j) := by ring
      _ ≤ 2 ^ 52 * 2 ^ k := by gcongr
      _ ≤ roundHalfEven b * 2 ^ k := by gcongr
  · have hab : a ≤ b := le_of_mul_le_mul_right h hj
    have : (roundHalfEven a : ℚ) ≤ roundHalfEven b := by exact_mod_cast roundHalfEven_mono hab
    gcongr
  · have hunit : (2 : ℚ) * 2 ^ k ≤ 2 ^ j := by
      rw [← zpow_one_add₀ two_ne_zero]
      exact zpow_le_zpow_right₀ one_le_two (by omega)
    nlinarith

theorem nearest_pos (hx : 0 < x) : 0 < nearest x := by
  obtain ⟨y, k, hl, hu, rfl⟩ := exists_scaled hx
  rw [nearest_scaled hl hu]
  have hy : (0 : ℚ) < roundHalfEven y := by
    have := (roundHalfEven_bits hl hu).1
    exact_mod_cast lt_of_lt_of_le (by norm_num) this
  exact mul_pos hy (zpow_pos two_pos k)

/-- Rounding changes a number by less than a half of it. -/
theorem nearest_bounds (hx : 0 < x) : x / 2 ≤ nearest x ∧ nearest x ≤ 2 * x := by
  obtain ⟨y, k, hl, hu, rfl⟩ := exists_scaled hx
  have hk : (0 : ℚ) < 2 ^ k := zpow_pos two_pos k
  rw [nearest_scaled hl hu]
  have hb := roundHalfEven_bits hl hu
  have hlo : (2 : ℚ) ^ 52 ≤ roundHalfEven y := by exact_mod_cast hb.1
  have hhi : (roundHalfEven y : ℚ) ≤ 2 ^ 53 := by exact_mod_cast hb.2
  constructor
  · rw [mul_div_right_comm]
    gcongr
    linarith
  · rw [← mul_assoc]
    gcongr
    linarith

theorem abs_nearest_sub_le (hx : 0 < x) : |nearest x - x| ≤ x / 2 ^ 53 := by
  obtain ⟨y, k, hl, hu, rfl⟩ := exists_scaled hx
  have hk : (0 : ℚ) < 2 ^ k := zpow_pos two_pos k
  rw [nearest_scaled hl hu, ← sub_mul, abs_mul, abs_of_pos hk, abs_sub_comm, mul_div_right_comm]
  have := abs_sub_roundHalfEven_le y
  gcongr
  linarith

/-- Below a power of two, rounding changes a number by at most half the unit there. -/
theorem abs_nearest_sub_le_zpow {n : ℤ} (h : |x| < 2 ^ n) : |nearest x - x| ≤ 2 ^ (n - 54) := by
  have hpos {x : ℚ} (hx : 0 < x) (h : x < 2 ^ n) : |nearest x - x| ≤ 2 ^ (n - 54) := by
    obtain ⟨y, k, hl, hu, rfl⟩ := exists_scaled hx
    have hk : (0 : ℚ) < 2 ^ k := zpow_pos two_pos k
    have hlt : (2 : ℚ) ^ (52 + k) < 2 ^ n := by
      refine lt_of_le_of_lt ?_ h
      rw [zpow_add₀ two_ne_zero]
      exact mul_le_mul_of_nonneg_right hl hk.le
    have hkn : k - 1 ≤ n - 54 := by
      have := (zpow_lt_zpow_iff_right₀ one_lt_two).mp hlt
      omega
    rw [nearest_scaled hl hu, ← sub_mul, abs_mul, abs_of_pos hk, abs_sub_comm]
    calc |y - roundHalfEven y| * 2 ^ k ≤ 1 / 2 * 2 ^ k :=
          mul_le_mul_of_nonneg_right (abs_sub_roundHalfEven_le y) hk.le
      _ = 2 ^ (k - 1) := by rw [zpow_sub_one₀ two_ne_zero]; ring
      _ ≤ 2 ^ (n - 54) := zpow_le_zpow_right₀ one_le_two hkn
  rcases lt_trichotomy x 0 with hx | rfl | hx
  · rw [abs_of_neg hx] at h
    have := hpos (neg_pos.mpr hx) h
    rwa [nearest_neg, ← neg_add', abs_neg, ← sub_eq_add_neg] at this
  · rw [nearest_zero, sub_zero, abs_zero]
    exact (zpow_pos two_pos _).le
  · exact hpos hx (abs_of_pos hx ▸ h)

theorem nearest_natCast_mul {n : ℕ} (hn : n ≤ 2 ^ 53) (k : ℤ) :
    nearest (n * 2 ^ k) = n * 2 ^ k := by
  rcases Nat.eq_zero_or_pos n with rfl | hpos
  · simp
  have hq : (n : ℚ) ≤ 2 ^ 53 := by exact_mod_cast hn
  obtain ⟨y, j, hl, hu, hy⟩ := exists_scaled (x := (n : ℚ)) (by exact_mod_cast hpos)
  -- The scaled number is an integer, too.
  obtain ⟨m, rfl⟩ : ∃ m : ℤ, y = m := by
    rcases le_or_gt j 0 with hj | hj
    · obtain ⟨i, rfl⟩ : ∃ i : ℕ, j = -i := ⟨(-j).toNat, by omega⟩
      refine ⟨n * 2 ^ i, ?_⟩
      push_cast
      rw [hy, zpow_neg, zpow_natCast, inv_mul_cancel_right₀ (by simp)]
    · refine ⟨2 ^ 52, ?_⟩
      have hunit : (2 : ℚ) ^ (1 : ℤ) ≤ 2 ^ j := zpow_le_zpow_right₀ one_le_two (by omega)
      rw [zpow_one] at hunit
      push_cast
      nlinarith
  rw [hy, mul_assoc, ← zpow_add₀ two_ne_zero, nearest_scaled hl hu, roundHalfEven_intCast]

theorem nearest_natCast {n : ℕ} (hn : n ≤ 2 ^ 53) : nearest (n : ℚ) = n := by
  simpa using nearest_natCast_mul hn 0

/-- What has 53 bits is kept. -/
theorem nearest_eq (hm : m.natAbs ≤ 2 ^ 53) (k : ℤ) : nearest (m * 2 ^ k) = m * 2 ^ k := by
  rcases Int.natAbs_eq m with h | h
  · rw [h, Int.cast_natCast, nearest_natCast_mul hm]
  · rw [h, Int.cast_neg, Int.cast_natCast, neg_mul, nearest_neg, nearest_natCast_mul hm]

/-- A whole number that is not larger can be subtracted exactly. -/
theorem nearest_sub_natCast {c : ℕ} (hx : nearest x = x) (hc : c ≤ x) (hlarge : x < 2 ^ 53) :
    nearest (x - c) = x - c := by
  rcases (Nat.cast_nonneg c).trans hc |>.eq_or_lt with h0 | h0
  · have : c = 0 := by
      rw [← h0] at hc
      exact_mod_cast le_antisymm hc (Nat.cast_nonneg c)
    simp [this, ← h0]
  obtain ⟨y, k, hl, hu, hy⟩ := exists_scaled h0
  have hbits := roundHalfEven_bits hl hu
  have hround : x = roundHalfEven y * 2 ^ k := by
    rw [← nearest_scaled hl hu, ← hy, hx]
  have hk0 : k ≤ 0 := by
    by_contra hk
    have hunit : (2 : ℚ) ^ (1 : ℤ) ≤ 2 ^ k := zpow_le_zpow_right₀ one_le_two (by omega)
    have hlo : (2 : ℚ) ^ 52 ≤ roundHalfEven y := by exact_mod_cast hbits.1
    rw [hround] at hlarge
    rw [zpow_one] at hunit
    nlinarith
  obtain ⟨i, rfl⟩ : ∃ i : ℕ, k = -i := ⟨(-k).toNat, by omega⟩
  have hi : (0 : ℚ) < 2 ^ (-(i : ℤ)) := zpow_pos two_pos _
  have hsub : x - c = ((roundHalfEven y - c * 2 ^ i : ℤ) : ℚ) * 2 ^ (-(i : ℤ)) := by
    rw [hround]
    push_cast
    rw [sub_mul, mul_assoc, zpow_neg, zpow_natCast, mul_inv_cancel₀ (by simp), mul_one]
  have hnonneg : 0 ≤ roundHalfEven y - c * 2 ^ i := by
    have : (0 : ℚ) ≤ ((roundHalfEven y - c * 2 ^ i : ℤ) : ℚ) := by
      refine nonneg_of_mul_nonneg_left ?_ hi
      rw [← hsub]
      linarith
    exact_mod_cast this
  have hle : roundHalfEven y - (c : ℤ) * 2 ^ i ≤ roundHalfEven y := by
    have : (0 : ℤ) ≤ (c : ℤ) * 2 ^ i := by positivity
    omega
  rw [hsub, nearest_eq (by omega)]

@[simp] theorem nearest_nearest (x : ℚ) : nearest (nearest x) = nearest x := by
  have hpos {x : ℚ} (hx : 0 < x) : nearest (nearest x) = nearest x := by
    obtain ⟨y, k, hl, hu, rfl⟩ := exists_scaled hx
    rw [nearest_scaled hl hu]
    have := roundHalfEven_bits hl hu
    exact nearest_eq (by omega) k
  rcases lt_trichotomy x 0 with hx | rfl | hx
  · have := hpos (neg_pos.mpr hx)
    rw [nearest_neg, nearest_neg] at this
    exact neg_injective this
  · simp
  · exact hpos hx

theorem nearest_eq_zero : nearest x = 0 ↔ x = 0 := by
  refine ⟨fun h => ?_, fun h => by simp [h]⟩
  rcases lt_trichotomy x 0 with hx | hx | hx
  · have := nearest_pos (neg_pos.mpr hx)
    rw [nearest_neg, h] at this
    simp at this
  · exact hx
  · exact absurd h (nearest_pos hx).ne'

theorem den_of_nearest (h : nearest x = x) : ∃ s, x.den = 2 ^ s := by
  have hpow (n : ℤ) (k : ℤ) : ∃ s, ((n : ℚ) * 2 ^ k).den = 2 ^ s := by
    rcases le_or_gt 0 k with hk | hk
    · obtain ⟨i, rfl⟩ : ∃ i : ℕ, k = i := ⟨k.toNat, by omega⟩
      refine ⟨0, ?_⟩
      have : (n : ℚ) * 2 ^ (i : ℤ) = ((n * 2 ^ i : ℤ) : ℚ) := by
        push_cast
        rw [zpow_natCast]
      rw [this, Rat.den_intCast, pow_zero]
    · obtain ⟨i, rfl⟩ : ∃ i : ℕ, k = -i := ⟨(-k).toNat, by omega⟩
      have : (n : ℚ) * 2 ^ (-(i : ℤ)) = n / ((2 ^ i : ℤ) : ℚ) := by
        push_cast
        rw [zpow_neg, zpow_natCast, div_eq_mul_inv]
      rw [this, ← Rat.divInt_eq_div]
      have hdvd := Rat.den_dvd n (2 ^ i)
      obtain ⟨s, -, hs⟩ := (Nat.dvd_prime_pow Nat.prime_two).mp (by exact_mod_cast hdvd)
      exact ⟨s, hs⟩
  unfold nearest at h
  rw [← h]
  exact hpow _ _

end Binary64
