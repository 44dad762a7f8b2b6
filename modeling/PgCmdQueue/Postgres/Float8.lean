import Mathlib.Algebra.Order.Floor.Semifield
import PgCmdQueue.Lib.Binary64

/-!
# The text of a `double precision`

The server prints the shortest numeral that is read as the number.
-/

namespace PgCmdQueue.Postgres

open Binary64 Cpp Decimal Printf

/-- The digits of a numeral that is read as `x`, and the power of ten of the last one: as few as
there can be from `p` on, and of two numerals the nearer one. -/
def shortestFrom (x : ℚ) : ℕ → ℤ → ℕ × ℤ
  | 0, p => (⌊x / 10 ^ p⌋₊, p)
  | more + 1, p =>
    let below := ⌊x / 10 ^ p⌋₊
    match [(roundHalfEven (x / 10 ^ p)).toNat, below, below + 1].find?
      (fun m : ℕ => nearest (m * 10 ^ p) = x) with
    | some m => (m, p)
    | none => shortestFrom x more (p - 1)

/-- The numeral with all digits is read as the number. -/
def shortest (x : ℚ) : ℕ × ℤ :=
  let first := Int.log 10 x + 1
  shortestFrom x (first + Nat.log 2 x.den).toNat first

def plain (m : ℕ) (p : ℤ) : Bytes :=
  if 0 ≤ p then decimal (m * 10 ^ p.toNat)
  else
    let places := (-p).toNat
    let fraction := decimal (m % 10 ^ places)
    decimal (m / 10 ^ places) ++ ch '.' :: (List.replicate (places - fraction.length) (ch '0') ++ fraction)

def exponent (m : ℕ) (p : ℤ) : ℤ := p + (decimal m).length - 1

def scientific (m : ℕ) (p : ℤ) : Bytes :=
  let e := decimal (exponent m p).natAbs
  (decimal m).take 1 ++ (if (decimal m).length = 1 then [] else ch '.' :: (decimal m).drop 1) ++
    ch 'e' :: (if exponent m p < 0 then ch '-' else ch '+') :: (List.replicate (2 - e.length) (ch '0') ++ e)

def unsigned (x : ℚ) : Bytes :=
  let (m, p) := shortest x
  if -4 ≤ exponent m p ∧ exponent m p < 15 then plain m p else scientific m p

def float8out (x : ℚ) : Bytes :=
  if x = 0 then [ch '0'] else (if x < 0 then [ch '-'] else []) ++ unsigned |x|

/-! ## The search -/

variable {x : ℚ} {m : ℕ} {p : ℤ}

theorem shortestFrom_found {more : ℕ} (h : (shortestFrom x (more + 1) p).2 ≠ p) :
    ¬ nearest (⌊x / 10 ^ p⌋₊ * 10 ^ p) = x ∧
      shortestFrom x (more + 1) p = shortestFrom x more (p - 1) := by
  rw [shortestFrom] at h ⊢
  split at h
  · exact absurd rfl h
  · rename_i hnone
    have hall := List.find?_eq_none.mp hnone
    refine ⟨?_, rfl⟩
    simpa using hall ⌊x / 10 ^ p⌋₊ (by simp)

theorem reads_floor {a : ℕ} (hx : nearest x = x) (ha : x = a * 10 ^ p) :
    nearest (⌊x / 10 ^ p⌋₊ * 10 ^ p) = x := by
  have hp : (10 : ℚ) ^ p ≠ 0 := zpow_ne_zero p (by norm_num)
  have hd : x / 10 ^ p = a := by rw [ha, mul_div_cancel_right₀ _ hp]
  rw [hd, Nat.floor_natCast, ← ha, hx]

/-- The search does not go on below a place where all digits are there. -/
theorem le_shortestFrom {more : ℕ} {q : ℤ} {a : ℕ} (hx : nearest x = x) (ha : x = a * 10 ^ q)
    (hq : q ≤ p) : q ≤ (shortestFrom x more p).2 := by
  induction more generalizing p with
  | zero => exact hq
  | succ more ih =>
    by_cases hp : (shortestFrom x (more + 1) p).2 = p
    · rw [hp]
      exact hq
    · obtain ⟨hnot, heq⟩ := shortestFrom_found hp
      rw [heq]
      refine ih ?_
      by_contra hlt
      obtain rfl : q = p := by omega
      exact hnot (reads_floor hx ha)

theorem shortestFrom_reads {more : ℕ} {a : ℕ} (hx : nearest x = x) (ha : x = a * 10 ^ (p - more)) :
    nearest ((shortestFrom x more p).1 * 10 ^ (shortestFrom x more p).2) = x := by
  induction more generalizing p with
  | zero =>
    rw [Nat.cast_zero, sub_zero] at ha
    exact reads_floor hx ha
  | succ more ih =>
    rw [shortestFrom]
    split
    · rename_i hsome
      simpa using List.find?_some hsome
    · refine ih ?_
      rw [ha]
      congr 2
      push_cast
      ring

theorem shortest_reads (h0 : 0 < x) (hx : nearest x = x) :
    nearest ((shortest x).1 * 10 ^ (shortest x).2) = x := by
  obtain ⟨s, hs⟩ := den_of_nearest hx
  have hnum : (x.num.toNat : ℚ) = x.num := by
    exact_mod_cast Int.toNat_of_nonneg (Rat.num_pos.mpr h0).le
  have hden : x = x.num / 2 ^ s := by
    have := Rat.num_div_den x
    rw [hs] at this
    exact_mod_cast this.symm
  have ha : x = ((x.num.toNat * 5 ^ s : ℕ) : ℚ) * 10 ^ (-(s : ℤ)) := by
    have h5 : (5 : ℚ) ^ s ≠ 0 := by simp
    push_cast
    rw [hnum, zpow_neg, zpow_natCast, ← div_eq_mul_inv, show (10 : ℚ) = 2 * 5 by norm_num, mul_pow,
      mul_div_mul_right _ _ h5]
    exact hden
  have hfirst : -(s : ℤ) ≤ Int.log 10 x := by
    have h1 : (1 : ℚ) ≤ x.num := by exact_mod_cast Rat.num_pos.mpr h0
    apply (Int.zpow_le_iff_le_log (by norm_num) h0).mp
    rw [hden, zpow_neg, zpow_natCast, ← one_div]
    push_cast
    gcongr
    norm_num
  unfold shortest
  refine shortestFrom_reads hx (a := x.num.toNat * 5 ^ s) ?_
  rw [hs, Nat.log_pow (by norm_num)]
  have : Int.log 10 x + 1 - ((Int.log 10 x + 1 + (s : ℤ)).toNat : ℤ) = -s := by omega
  rw [this]
  exact ha

theorem shortest_natCast {a : ℕ} (h : 0 < a) (hx : nearest a = (a : ℚ)) : 0 ≤ (shortest (a : ℚ)).2 := by
  unfold shortest
  refine le_shortestFrom hx (q := 0) (a := a) (by simp) ?_
  have : (1 : ℚ) ≤ a := by exact_mod_cast h
  rw [Int.log_of_one_le_right 10 this]
  omega

/-! ## The text -/

theorem exponent_bounds (h : 0 < m) :
    (10 : ℚ) ^ exponent m p ≤ m * 10 ^ p ∧ m * 10 ^ p < (10 : ℚ) ^ (exponent m p + 1) := by
  have hp : (0 : ℚ) < 10 ^ p := zpow_pos (by norm_num) p
  have he : exponent m p = Nat.log 10 m + p := by
    unfold exponent
    rw [length_decimal h.ne']
    push_cast
    ring
  have hlo : (10 : ℚ) ^ Nat.log 10 m ≤ m := by exact_mod_cast Nat.pow_log_le_self 10 h.ne'
  have hhi : (m : ℚ) < 10 ^ (Nat.log 10 m + 1) := by
    exact_mod_cast Nat.lt_pow_succ_log_self (by norm_num) m
  rw [he, add_right_comm, zpow_add₀ (by norm_num), zpow_add₀ (by norm_num)]
  constructor
  · rw [zpow_natCast]
    gcongr
  · have : (10 : ℚ) ^ ((Nat.log 10 m : ℤ) + 1) = 10 ^ (Nat.log 10 m + 1) := by
      exact_mod_cast zpow_natCast (10 : ℚ) (Nat.log 10 m + 1)
    rw [this]
    gcongr

/-- In front of the point stands the integer part. -/
theorem takeWhile_plain (m : ℕ) (p : ℤ) :
    (plain m p).takeWhile isDigit = decimal ⌊(m : ℚ) * 10 ^ p⌋₊ := by
  unfold plain
  split
  · rename_i hp
    obtain ⟨k, rfl⟩ : ∃ k : ℕ, p = k := ⟨p.toNat, by omega⟩
    have hv : (m : ℚ) * 10 ^ (k : ℤ) = ((m * 10 ^ k : ℕ) : ℚ) := by
      push_cast
      rw [zpow_natCast]
    rw [hv, Nat.floor_natCast, Int.toNat_natCast]
    exact List.takeWhile_eq_self_iff.mpr fun c hc => digits_decimal hc
  · obtain ⟨k, rfl⟩ : ∃ k : ℕ, p = -k := ⟨(-p).toNat, by omega⟩
    have hv : (m : ℚ) * 10 ^ (-(k : ℤ)) = (m : ℚ) / ((10 ^ k : ℕ) : ℚ) := by
      push_cast
      rw [zpow_neg, zpow_natCast, div_eq_mul_inv]
    dsimp only
    rw [hv, Nat.floor_div_eq_div, neg_neg, Int.toNat_natCast]
    exact takeWhile_decimal (by simp; decide)

/-! ## The integer part -/

theorem shortest_pos (h0 : 0 < x) (hx : nearest x = x) : 0 < (shortest x).1 := by
  by_contra h
  have hreads := shortest_reads h0 hx
  rw [Nat.eq_zero_of_not_pos h, Nat.cast_zero, zero_mul, nearest_zero] at hreads
  exact h0.ne hreads

/-- A whole number is printed without a point. -/
theorem shortest_whole {a : ℕ} (h : 0 < a) (hx : nearest a = (a : ℚ)) :
    ∃ n : ℕ, ((shortest (a : ℚ)).1 : ℚ) * 10 ^ (shortest (a : ℚ)).2 = n := by
  obtain ⟨k, hk⟩ : ∃ k : ℕ, (shortest (a : ℚ)).2 = k := ⟨(shortest (a : ℚ)).2.toNat, by
    have := shortest_natCast h hx
    omega⟩
  refine ⟨(shortest (a : ℚ)).1 * 10 ^ k, ?_⟩
  rw [hk]
  push_cast
  rw [zpow_natCast]

theorem floor_le_shortest (h0 : 0 < x) (hx : nearest x = x) (hlarge : x < 2 ^ 53) :
    (⌊x⌋₊ : ℚ) ≤ (shortest x).1 * 10 ^ (shortest x).2 := by
  by_contra hlt
  rw [not_le] at hlt
  have hreads := shortest_reads h0 hx
  have hm : (0 : ℚ) < (shortest x).1 := by exact_mod_cast shortest_pos h0 hx
  have hfloor : ⌊x⌋₊ < 2 ^ 53 := by
    rw [Nat.floor_lt h0.le]
    exact_mod_cast hlarge
  have hle := nearest_mono_of_pos (mul_pos hm (zpow_pos (by norm_num) _)) hlt.le
  rw [hreads, nearest_natCast hfloor.le] at hle
  have hwhole : x = (⌊x⌋₊ : ℚ) := le_antisymm hle (Nat.floor_le h0.le)
  have hpos : 0 < ⌊x⌋₊ := by
    have : (0 : ℚ) < (⌊x⌋₊ : ℚ) := hwhole ▸ h0
    exact_mod_cast this
  obtain ⟨n, hn⟩ := shortest_whole hpos (nearest_natCast hfloor.le)
  rw [← hwhole] at hn
  rw [hn] at hreads hlt
  have hsmall : n < ⌊x⌋₊ := by exact_mod_cast hlt
  rw [nearest_natCast (by omega)] at hreads
  rw [hreads] at hlt
  exact absurd (Nat.floor_le h0.le) (not_le.mpr hlt)

theorem shortest_lt_succ (h0 : 0 < x) (hx : nearest x = x) (hlarge : x < 2 ^ 53) :
    (shortest x).1 * 10 ^ (shortest x).2 < (⌊x⌋₊ : ℚ) + 1 := by
  by_contra hge
  rw [not_lt] at hge
  have hfloor : ⌊x⌋₊ < 2 ^ 53 := by
    rw [Nat.floor_lt h0.le]
    exact_mod_cast hlarge
  have hsucc : ((⌊x⌋₊ + 1 : ℕ) : ℚ) = (⌊x⌋₊ : ℚ) + 1 := Nat.cast_succ _
  rw [← hsucc] at hge
  have hle := nearest_mono_of_pos (by exact_mod_cast Nat.succ_pos _) hge
  rw [shortest_reads h0 hx, nearest_natCast hfloor, hsucc] at hle
  exact absurd (Nat.lt_floor_add_one x) (not_lt.mpr hle)

/-- Below 2^53, what is read as a number has the same integer part. -/
theorem floor_shortest (h0 : 0 < x) (hx : nearest x = x) (hlarge : x < 2 ^ 53) :
    ⌊((shortest x).1 : ℚ) * 10 ^ (shortest x).2⌋₊ = ⌊x⌋₊ := by
  have hle := floor_le_shortest h0 hx hlarge
  rw [Nat.floor_eq_iff ((Nat.cast_nonneg _).trans hle)]
  exact ⟨hle, shortest_lt_succ h0 hx hlarge⟩

theorem exponent_lt (h0 : 0 < x) (hx : nearest x = x) (hlarge : x < 10 ^ 15) :
    exponent (shortest x).1 (shortest x).2 < 15 := by
  have hreads := shortest_reads h0 hx
  obtain ⟨hlo, -⟩ := exponent_bounds (p := (shortest x).2) (shortest_pos h0 hx)
  by_contra he
  have hle : (10 : ℚ) ^ 15 ≤ (shortest x).1 * 10 ^ (shortest x).2 := by
    refine le_trans ?_ hlo
    exact_mod_cast zpow_le_zpow_right₀ (by norm_num : (1 : ℚ) ≤ 10)
      (by omega : ((15 : ℕ) : ℤ) ≤ exponent (shortest x).1 (shortest x).2)
  have hten : nearest (10 ^ 15 : ℚ) = 10 ^ 15 := by
    exact_mod_cast nearest_natCast (n := 10 ^ 15) (by norm_num)
  have hle := nearest_mono_of_pos (by norm_num) hle
  rw [hreads, hten] at hle
  exact absurd hlarge (not_lt.mpr hle)

theorem exponent_ge (h0 : 1 / 5000 ≤ x) (hx : nearest x = x) :
    -4 ≤ exponent (shortest x).1 (shortest x).2 := by
  have hpos : 0 < x := by linarith
  have hreads := shortest_reads hpos hx
  obtain ⟨hlo, hhi⟩ := exponent_bounds (p := (shortest x).2) (shortest_pos hpos hx)
  have hv : 0 < ((shortest x).1 : ℚ) * 10 ^ (shortest x).2 := lt_of_lt_of_le (zpow_pos (by norm_num) _) hlo
  have htwice := (nearest_bounds hv).2
  rw [hreads] at htwice
  by_contra he
  have hsmall : (10 : ℚ) ^ (exponent (shortest x).1 (shortest x).2 + 1) ≤ 10 ^ (-4 : ℤ) :=
    zpow_le_zpow_right₀ (by norm_num) (by omega)
  norm_num at hsmall
  linarith

theorem takeWhile_unsigned (h0 : 1 / 5000 ≤ x) (hx : nearest x = x) (hlarge : x < 10 ^ 15) :
    (unsigned x).takeWhile isDigit = decimal ⌊x⌋₊ := by
  have hpos : 0 < x := by linarith
  unfold unsigned
  dsimp only
  rw [if_pos ⟨exponent_ge h0 hx, exponent_lt hpos hx hlarge⟩, takeWhile_plain,
    floor_shortest hpos hx (by linarith)]

example : float8out (nearest (nearest (1001 / 1000) * 1000)) = ascii "1000.9999999999999" := by
  decide +kernel

theorem nulFree_float8out (x : ℚ) : NulFree (float8out x) := by
  have hzeros (k : ℕ) : NulFree (List.replicate k (ch '0')) := by
    intro c hc
    rw [(List.mem_replicate.mp hc).2]
    decide
  have hplain (m : ℕ) (p : ℤ) : NulFree (plain m p) := by
    unfold plain
    split
    · exact nulFree_decimal _
    · exact nulFree_append.mpr ⟨nulFree_decimal _, nulFree_cons.mpr
        ⟨by decide, nulFree_append.mpr ⟨hzeros _, nulFree_decimal _⟩⟩⟩
  have hscientific (m : ℕ) (p : ℤ) : NulFree (scientific m p) := by
    have hdigits := nulFree_decimal m
    have hrest : NulFree (if (decimal m).length = 1 then [] else ch '.' :: (decimal m).drop 1) := by
      split
      · exact List.forall_mem_nil _
      · exact nulFree_cons.mpr ⟨by decide, fun c hc => hdigits c (List.mem_of_mem_drop hc)⟩
    refine nulFree_append.mpr ⟨nulFree_append.mpr
      ⟨fun c hc => hdigits c (List.mem_of_mem_take hc), hrest⟩, nulFree_cons.mpr ⟨by decide,
        nulFree_cons.mpr ⟨by split <;> decide, nulFree_append.mpr ⟨hzeros _, nulFree_decimal _⟩⟩⟩⟩
  unfold float8out unsigned
  split
  · decide
  · refine nulFree_append.mpr ⟨by split <;> decide, ?_⟩
    dsimp only
    split
    · exact hplain _ _
    · exact hscientific _ _

end PgCmdQueue.Postgres
