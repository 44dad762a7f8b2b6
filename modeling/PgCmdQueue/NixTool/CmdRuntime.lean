import PgCmdQueue.Lib.Binary64
import PgCmdQueue.NixTool.UpdateStmt

/-!
# The time that a command ran

The clock counts microseconds. The daemon divides them by a million, prints the `double` with six
digits behind the point, and the server makes microseconds of the text. The row that is updated
has to pass the checks of its table.
-/

namespace PgCmdQueue.NixTool

open Binary64 Cpp Decimal Postgres Printf

/-! ## From the clock to the server -/

/-- `unix_timestamp()`, from the microseconds that the clock shows. -/
def unixTimestamp (us : ℕ) : ℚ := nearest (nearest us / 1000000)

/-- The seconds from 1970 to 2000, where the times of the server begin. -/
def postgresEpoch : ℕ := 946684800

/-- `to_timestamp(double precision)` as the server computes it, in microseconds since 1970. -/
def toTimestamp (seconds : ℚ) : ℤ :=
  roundHalfEven (nearest (nearest (seconds - postgresEpoch) * 1000000)) + postgresEpoch * 1000000

/-- Up to the year 2106. -/
def maxMicroseconds : ℕ := 2 ^ 32 * 1000000

variable {us : ℕ}

theorem nearest_us (h : us < maxMicroseconds) : nearest (us : ℚ) = us := by
  unfold maxMicroseconds at h
  exact nearest_natCast (by omega)

theorem us_lt (h : us < maxMicroseconds) : (us : ℚ) / 1000000 < 2 ^ 32 := by
  rw [div_lt_iff₀ (by norm_num)]
  exact_mod_cast h

theorem unixTimestamp_nonneg (h : us < maxMicroseconds) : 0 ≤ unixTimestamp us := by
  unfold unixTimestamp
  rw [nearest_us h]
  rcases (Nat.cast_nonneg us : (0 : ℚ) ≤ us).eq_or_lt with h0 | h0
  · simp [← h0]
  · exact (nearest_pos (by positivity)).le

theorem abs_unixTimestamp_sub_le (h : us < maxMicroseconds) :
    |unixTimestamp us - us / 1000000| ≤ 2 ^ (-22 : ℤ) := by
  unfold unixTimestamp
  rw [nearest_us h]
  refine abs_nearest_sub_le_zpow (n := 32) ?_
  rw [abs_of_nonneg (by positivity)]
  exact_mod_cast us_lt h

/-- Six digits are enough for the microseconds. -/
theorem roundHalfEven_unixTimestamp (h : us < maxMicroseconds) :
    roundHalfEven (|unixTimestamp us| * 1000000) = us := by
  have hclose := abs_unixTimestamp_sub_le h
  rw [abs_of_nonneg (unixTimestamp_nonneg h)]
  apply roundHalfEven_eq_of_lt
  have hscale : unixTimestamp us * 1000000 - (us : ℤ) =
      (unixTimestamp us - us / 1000000) * 1000000 := by
    push_cast
    ring
  rw [hscale, abs_mul, abs_of_pos (by norm_num : (0 : ℚ) < 1000000)]
  norm_num at hclose ⊢
  linarith

def microseconds (us : ℕ) : Bytes :=
  List.replicate (6 - (decimal (us % 1000000)).length) (ch '0') ++ decimal (us % 1000000)

/-- The digits that are printed are those of the clock. -/
theorem fixedPoint_unixTimestamp (h : us < maxMicroseconds) :
    fixedPoint (unixTimestamp us) = decimal (us / 1000000) ++ ch '.' :: microseconds us := by
  unfold fixedPoint
  rw [roundHalfEven_unixTimestamp h, if_neg (not_lt.mpr (unixTimestamp_nonneg h)), Int.natAbs_natCast]
  rfl

theorem digits_microseconds : ∀ c ∈ microseconds us, isDigit c = true := by
  intro c hc
  rcases List.mem_append.mp hc with hc | hc
  · rw [(List.mem_replicate.mp hc).2]
    decide
  · exact digits_decimal hc

@[simp] theorem length_microseconds (us : ℕ) : (microseconds us).length = 6 := by
  have := length_decimal_le (k := 6) (n := us % 1000000) (by omega) (by omega)
  simp only [microseconds, List.length_append, List.length_replicate]
  omega

theorem float8In_unixTimestamp (h : us < maxMicroseconds) :
    float8In (fixedPoint (unixTimestamp us)) = some ((us : ℚ) / 1000000) := by
  have hvalue : value (microseconds us) = us % 1000000 := by
    unfold microseconds
    exact (value_zeros _ _).trans (value_decimal _)
  have hsplit : (us : ℚ) = 1000000 * (us / 1000000 : ℕ) + (us % 1000000 : ℕ) := by
    exact_mod_cast (Nat.div_add_mod us 1000000).symm
  rw [fixedPoint_unixTimestamp h, float8In, if_neg (head?_decimal _ _),
    numeralIn_point digits_microseconds, hvalue, length_microseconds]
  congr 1
  rw [hsplit]
  ring

theorem length_fixedPoint (h : us < maxMicroseconds) : (fixedPoint (unixTimestamp us)).length ≤ 17 := by
  unfold maxMicroseconds at h
  have := length_decimal_le (k := 10) (n := us / 1000000) (by omega) (by omega)
  rw [fixedPoint_unixTimestamp h, List.length_append, List.length_cons, length_microseconds]
  omega

/-- What is left of the epoch is less than half a microsecond away from the clock. -/
theorem abs_toTimestamp_lt (h : us < maxMicroseconds) :
    |nearest (nearest (unixTimestamp us - postgresEpoch) * 1000000) -
      ((us - postgresEpoch * 1000000 : ℤ) : ℚ)| < 1 / 2 := by
  have hclock := abs_unixTimestamp_sub_le h
  have hus := us_lt h
  have h0 := unixTimestamp_nonneg h
  have hepoch : (postgresEpoch : ℚ) = 946684800 := by norm_num [postgresEpoch]
  set x := unixTimestamp us with hx
  have hnearest : nearest x = x := nearest_nearest _
  norm_num at hclock
  rw [abs_le] at hclock
  rw [hepoch]
  push_cast
  rw [hepoch]
  by_cases hc : (946684800 : ℚ) ≤ x
  · -- From 2000 on the difference is exact.
    have hsub : nearest (x - 946684800) = x - 946684800 := by
      have := nearest_sub_natCast (c := 946684800) hnearest (by exact_mod_cast hc) (by linarith)
      exact_mod_cast this
    have hproduct : |nearest ((x - 946684800) * 1000000) - (x - 946684800) * 1000000| ≤ 2 ^ (52 - 54 : ℤ) := by
      apply abs_nearest_sub_le_zpow
      rw [abs_of_nonneg (by linarith)]
      norm_num
      linarith
    rw [hsub]
    norm_num at hproduct
    rw [abs_le] at hproduct
    rw [abs_lt]
    constructor <;> linarith
  · have hsub : |nearest (x - 946684800) - (x - 946684800)| ≤ 2 ^ (30 - 54 : ℤ) := by
      apply abs_nearest_sub_le_zpow
      rw [abs_of_nonpos (by linarith)]
      norm_num
      linarith
    norm_num at hsub
    rw [abs_le] at hsub
    have hproduct : |nearest (nearest (x - 946684800) * 1000000) - nearest (x - 946684800) * 1000000| ≤
        2 ^ (50 - 54 : ℤ) := by
      apply abs_nearest_sub_le_zpow
      rw [abs_lt]
      constructor <;> norm_num <;> linarith
    norm_num at hproduct
    rw [abs_le] at hproduct
    rw [abs_lt]
    constructor <;> linarith

theorem toTimestamp_unixTimestamp (h : us < maxMicroseconds) : toTimestamp (unixTimestamp us) = us := by
  unfold toTimestamp
  rw [roundHalfEven_eq_of_lt (abs_toTimestamp_lt h)]
  ring

/-! ## The row -/

def TstzRange.lower : TstzRange → Option ℚ
  | .empty => none
  | .between lower _ => some lower

def TstzRange.upper : TstzRange → Option ℚ
  | .empty => none
  | .between _ upper => some upper

/-- The arguments tell which values are not NULL. -/
def numNonnulls (present : List Bool) : ℕ := present.count true

def NixCmdRow.checkExitedNormallyOrNot (row : NixCmdRow) : Bool :=
  numNonnulls [row.cmdExitCode.isSome, row.cmdTermSig.isSome] ∈ [0, 1]

def NixCmdRow.checkFinishedInFull (row : NixCmdRow) : Bool :=
  numNonnulls [row.cmdRuntime.isSome, (row.cmdRuntime.bind (·.lower)).isSome,
    (row.cmdRuntime.bind (·.upper)).isSome, row.cmdExitCode.isSome, row.cmdTermSig.isSome,
    row.cmdStdout.isSome, row.cmdStderr.isSome] ∈ [0, 6]

/-- The row as the statement leaves it, with the times in microseconds. There is none if the
statement raises an error. -/
def UpdateCmd.record (u : UpdateCmd) (row : NixCmdRow) : Option NixCmdRow :=
  (UpdateCmd.set { u with
    runtimeStart := toTimestamp (nearest u.runtimeStart)
    runtimeEnd := toTimestamp (nearest u.runtimeEnd) } row).filter fun row =>
      row.checkExitedNormallyOrNot && row.checkFinishedInFull

variable {c : FinishedCmd} {started ended : ℕ}

/-- An empty range has no bounds, so that a row with it is not finished in full. -/
theorem checks_eq {row : NixCmdRow} {runtime : TstzRange} (hruntime : row.cmdRuntime = some runtime)
    (hstdout : row.cmdStdout.isSome = true) (hstderr : row.cmdStderr.isSome = true) :
    (row.checkExitedNormallyOrNot && row.checkFinishedInFull) =
      decide (runtime ≠ .empty ∧ row.cmdExitCode.isSome ≠ row.cmdTermSig.isSome) := by
  unfold NixCmdRow.checkExitedNormallyOrNot NixCmdRow.checkFinishedInFull
  rw [hruntime, hstdout, hstderr]
  cases runtime <;> cases row.cmdExitCode <;> cases row.cmdTermSig <;> rfl

theorem tstzrange_cases (s e : ℤ) : tstzrange s e =
    if e < s then none else some (if s = e then .empty else .between s e) := by
  unfold tstzrange
  simp only [Int.cast_lt, Int.cast_inj]
  split_ifs <;> rfl

theorem record_eq {u : UpdateCmd} {row : NixCmdRow} {s e : ℤ}
    (hs : toTimestamp (nearest u.runtimeStart) = s) (he : toTimestamp (nearest u.runtimeEnd) = e)
    (hstdout : u.cmdStdout.isSome = true) (hstderr : u.cmdStderr.isSome = true) :
    u.record row =
      if s < e ∧ u.cmdExitCode.isSome ≠ u.cmdTermSig.isSome then
        some { row with
          cmdRuntime := some (.between s e)
          cmdExitCode := u.cmdExitCode
          cmdTermSig := u.cmdTermSig
          cmdStdout := u.cmdStdout
          cmdStderr := u.cmdStderr }
      else none := by
  unfold UpdateCmd.record UpdateCmd.set
  rw [hs, he, tstzrange_cases]
  rcases lt_trichotomy s e with hlt | rfl | hlt
  · rw [if_neg hlt.asymm, if_neg hlt.ne, Option.map_some, Option.filter_some,
      checks_eq rfl hstdout hstderr]
    simp [hlt]
  · rw [if_neg (lt_irrefl s), if_pos rfl, Option.map_some, Option.filter_some,
      checks_eq rfl hstdout hstderr]
    simp
  · rw [if_pos hlt, if_neg (by simp [hlt.asymm])]
    rfl

/-- A command that ran for a second and a millionth. -/
def report : FinishedCmd := { invoice with
  cmdRuntimeStart := unixTimestamp 1690182000999999
  cmdRuntimeEnd := unixTimestamp 1690182002000000 }

def invoiceRow : NixCmdRow := { cmdId := ascii "O'Brien", cmdSubid := none }

end PgCmdQueue.NixTool
