import PgCmdQueue.Extension.Interval
import PgCmdQueue.Postgres.Float8
import PgCmdQueue.QueueCmd
import PgCmdQueue.RunCmd.Loop

/-!
# Queues decoded from a selected row

The view turns two intervals into numbers, the server turns these into texts, and the
constructor reads an `int` and a `double` from them.
-/

namespace PgCmdQueue.QueueMetadata

open Binary64 Cpp Decimal Extension Postgres Printf

/-! ## Numbers from texts -/

def isSpace (c : Byte) : Bool := c = 32 || (9 ≤ c && c ≤ 13)

/-- Whether there is a minus sign, and what comes behind blanks and a sign. -/
def signed (x : Bytes) : Bool × Bytes :=
  match x.dropWhile isSpace with
  | [] => (false, [])
  | c :: x => if c = ch '-' then (true, x) else if c = ch '+' then (false, x) else (false, c :: x)

/-- What comes behind the digits is left out. -/
def stoi (x : Bytes) : Except CppError Int :=
  let (negative, x) := signed x
  let digits := x.takeWhile isDigit
  let i : Int := if negative then -value digits else value digits
  if digits = [] then .error .invalidArgument
  else if i < -2 ^ 31 ∨ 2 ^ 31 ≤ i then .error .outOfRange
  else .ok i

/-- Digits, with a point in front, behind or between. The text of a `numeric` has no exponent. -/
def stod (x : Bytes) : Except CppError ℚ :=
  let (negative, x) := signed x
  let whole := x.takeWhile isDigit
  let fraction := match x.dropWhile isDigit with
    | [] => []
    | c :: x => if c = ch '.' then x.takeWhile isDigit else []
  let magnitude : ℚ := value (whole ++ fraction) / 10 ^ fraction.length
  if whole ++ fraction = [] then .error .invalidArgument
  else .ok (nearest (if negative then -magnitude else magnitude))

/-! ## The view and the statement -/

/-- A row of `cmd_queue`, with what the view adds to it. -/
structure QueueRow where
  cmdClassIdentity : Bytes
  cmdClassRelname : Bytes
  cmdSignatureClassRelname : Bytes
  queueRunnerRole : Option Bytes := none
  queueNotifyChannel : Option Bytes := none
  queueReselectInterval : Interval := { usec := 5 * 60 * 1000000 }
  queueReselectRandomizedEveryNth : Option { n : Int // 0 < n ∧ n < 2 ^ 31 } := none
  queueCmdTimeout : Option Interval := none
  ansiFg : Bytes := []

/-- The columns of `SELECT_STMT`. -/
def fieldNumbers : AList fun _ : Bytes => Nat :=
  (["cmd_class_identity", "cmd_class_relname", "cmd_signature_class_relname", "queue_runner_role",
    "queue_notify_channel", "queue_reselect_interval_msec", "queue_reselect_randomized_every_nth",
    "queue_cmd_timeout_sec", "ansi_fg"].zipIdx.map fun (name, i) => ⟨ascii name, i⟩).toAList

/-- A `numeric` that counts microseconds in seconds has six digits behind the point. -/
def QueueRow.texts (q : QueueRow) : List (Option Bytes) :=
  [some q.cmdClassIdentity, some q.cmdClassRelname, some q.cmdSignatureClassRelname, q.queueRunnerRole,
    q.queueNotifyChannel, some (float8out q.queueReselectInterval.epochMsec),
    q.queueReselectRandomizedEveryNth.map fun n => decimalInt n,
    q.queueCmdTimeout.map fun t => fixedPoint t.epoch, some q.ansiFg]

def QueueRow.selected (q : QueueRow) : ResultRow := ⟨fieldNumbers, fun n => q.texts.getD n none⟩

/-! ## The constructor -/

/-- A number is `none` as long as it has not been set. -/
structure CmdQueue where
  isValid : Bool := false
  cmdClassIdentity : Bytes := []
  cmdClassRelname : Bytes := []
  cmdSignatureClassRelname : Bytes := []
  queueRunnerRole : Option Bytes := none
  queueNotifyChannel : Option Bytes := none
  queueReselectIntervalMsec : Option Int := none
  queueReselectRandomizedEveryNth : Option Int := none
  queueCmdTimeoutSec : Option ℚ := none
  ansiFg : Bytes := []

def decodeInterval (row : ResultRow) : Except CppError Int := do
  stoi (row.getvalue (← row.fieldNumber "queue_reselect_interval_msec"))

def decodeEveryNth (row : ResultRow) : Except CppError (Option Int) := do
  if row.getisnull (← row.fieldNumber "queue_reselect_randomized_every_nth") then return none
  return some (← stoi (row.getvalue (← row.fieldNumber "queue_reselect_randomized_every_nth")))

def decodeTimeout (row : ResultRow) : Except CppError ℚ := do
  if row.getisnull (← row.fieldNumber "queue_cmd_timeout_sec") then return 0
  stod (row.getvalue (← row.fieldNumber "queue_cmd_timeout_sec"))

def CmdQueue.ofRow (row : ResultRow) : Except CppError CmdQueue :=
  caught (fun q => { q with isValid := true }) (fun q => { q with isValid := false }) <|
    tryBlock [
      fun q => do return { q with cmdClassIdentity := row.getvalue (← row.fieldNumber "cmd_class_identity") },
      fun q => do return { q with cmdClassRelname := row.getvalue (← row.fieldNumber "cmd_class_relname") },
      fun q => do return { q with
        cmdSignatureClassRelname := row.getvalue (← row.fieldNumber "cmd_signature_class_relname") },
      fun q => do return { q with
        queueRunnerRole := row.getnullable (← row.fieldNumber "queue_runner_role") },
      fun q => do return { q with
        queueNotifyChannel := row.getnullable (← row.fieldNumber "queue_notify_channel") },
      fun q => do return { q with queueReselectIntervalMsec := some (← decodeInterval row) },
      fun q => do return { q with queueReselectRandomizedEveryNth := ← decodeEveryNth row },
      fun q => do return { q with queueCmdTimeoutSec := some (← decodeTimeout row) },
      fun q => do return { q with ansiFg := row.getvalue (← row.fieldNumber "ansi_fg") }] {}

/-! ## The wait for a command -/

def FitsInt (i : Int) : Prop := -2 ^ 31 ≤ i ∧ i < 2 ^ 31

/-- `poll_timeout` in `run_cmd`, before it is clamped at 0. -/
def unclampedPollTimeout (queueCmdTimeoutSec elapsed : ℚ) (triedSigterm : Bool) : Int :=
  if queueCmdTimeoutSec = 0 then -1
  else RunCmd.toInt ((queueCmdTimeoutSec - elapsed +
    if triedSigterm then RunCmd.graceSecondsBetweenSigtermAndSigkill else 0) * 1000)

theorem pollTimeout_eq (c : RunCmd.Call) (s : RunCmd.State) : s.pollTimeout c =
    if c.queueCmdTimeoutSec = 0 then -1
    else max 0 (unclampedPollTimeout c.queueCmdTimeoutSec (s.now - c.cmdRuntimeStart) s.triedSigterm) := by
  unfold RunCmd.State.pollTimeout unclampedPollTimeout
  split <;> rfl

/-- The daemon reads both intervals as they are meant: the first in whole milliseconds, and the
second so that `poll()` can wait for the rest of it. -/
def ReadAsMeant (q : QueueRow) (elapsed : ℚ) (triedSigterm : Bool) : Prop :=
  ∃ c, CmdQueue.ofRow q.selected = .ok c ∧ c.isValid = true ∧
    c.queueReselectIntervalMsec = some q.queueReselectInterval.wholeMsec ∧
      ∃ timeout, c.queueCmdTimeoutSec = some timeout ∧
        FitsInt (unclampedPollTimeout timeout elapsed triedSigterm)

/-! ## Texts that are read -/

theorem signed_eq (p : Prop) [Decidable p] {x : Bytes} (h : x.takeWhile isDigit ≠ []) :
    signed ((if p then [ch '-'] else []) ++ x) = (decide p, x) := by
  match x, h with
  | c :: x, h =>
    have hc : isDigit c = true := by
      by_contra hc
      simp [hc] at h
    rw [isDigit_iff] at hc
    have hspace : isSpace c = false := by
      by_contra hs
      simp only [isSpace, Bool.not_eq_false, Bool.or_eq_true, decide_eq_true_eq, Bool.and_eq_true,
        UInt8.le_iff_toNat_le] at hs
      rcases hs with rfl | ⟨-, hs⟩
      · exact absurd hc (by decide)
      · have : (13 : Byte).toNat = 13 := rfl
        omega
    have hminus : c ≠ ch '-' := by
      rintro rfl
      exact absurd hc (by decide)
    have hplus : c ≠ ch '+' := by
      rintro rfl
      exact absurd hc (by decide)
    have hs : isSpace (ch '-') = false := by decide
    by_cases hp : p <;> simp [signed, hspace, hminus, hplus, hs, hp]

theorem stoi_eq (p : Prop) [Decidable p] {x : Bytes} (h : x.takeWhile isDigit ≠ []) (i : Int) :
    stoi ((if p then [ch '-'] else []) ++ x) = .ok i ↔
      (if p then -(value (x.takeWhile isDigit) : ℤ) else value (x.takeWhile isDigit)) = i ∧ FitsInt i := by
  unfold stoi FitsInt
  rw [signed_eq p h]
  simp only [if_neg h, decide_eq_true_eq]
  generalize (if p then -(value (x.takeWhile isDigit) : ℤ) else value (x.takeWhile isDigit)) = n
  split
  · refine iff_of_false (by simp) ?_
    rintro ⟨rfl, hfit⟩
    omega
  · rw [Except.ok.injEq]
    refine ⟨?_, And.left⟩
    rintro rfl
    exact ⟨rfl, by omega⟩

theorem fits_of_stoi {x : Bytes} {i : Int} (h : stoi x = .ok i) : FitsInt i := by
  unfold stoi at h
  unfold FitsInt
  dsimp only at h
  generalize (if (signed x).1 = true then -(value ((signed x).2.takeWhile isDigit) : ℤ)
    else value ((signed x).2.takeWhile isDigit)) = n at h
  split at h
  · simp at h
  split at h
  · simp at h
  · rw [Except.ok.injEq] at h
    omega

/-- An `int` has room for the milliseconds, and rounding does not fall below them. -/
def ReselectFits (i : Interval) : Prop :=
  FitsInt i.wholeMsec ∧ (i.epochUsec % 1000 = 0 → ¬RoundsBelow i.wholeMsec.natAbs)

theorem float8out_epochMsec {i : Interval} (h : i.epochUsec ≠ 0) : float8out i.epochMsec =
    (if i.epochUsec < 0 then [ch '-'] else []) ++ unsigned (msecOf i.epochUsec.natAbs) := by
  have hpos : 0 < msecOf i.epochUsec.natAbs :=
    lt_of_lt_of_le (by norm_num) (msecOf_pos (Int.natAbs_pos.mpr h))
  unfold float8out
  rw [i.epochMsec_eq]
  split
  · rw [if_neg (by linarith), if_pos (by linarith), abs_neg, abs_of_pos hpos]
  · rw [if_neg hpos.ne', if_neg hpos.not_gt, abs_of_pos hpos]

theorem stoi_epochMsec (i : Interval) :
    stoi (float8out i.epochMsec) = .ok i.wholeMsec ↔ ReselectFits i := by
  unfold ReselectFits
  by_cases hfit : FitsInt i.wholeMsec
  swap
  · exact iff_of_false (fun h => hfit (fits_of_stoi h)) fun h => hfit h.1
  by_cases h0 : i.epochUsec = 0
  · have hzero : i.epochMsec = 0 := by simp [Interval.epochMsec, Interval.epoch, h0]
    have hwhole : i.wholeMsec = 0 := by simp [Interval.wholeMsec, h0]
    rw [hzero, hwhole]
    exact iff_of_true (by decide +kernel) ⟨by unfold FitsInt; omega, fun _ => not_roundsBelow_zero⟩
  have hwhole := i.wholeMsec_eq
  obtain ⟨u, hu⟩ : ∃ u, u = i.epochUsec.natAbs := ⟨_, rfl⟩
  have habs : i.wholeMsec.natAbs = u / 1000 := by
    rw [hwhole, hu]
    split <;> omega
  have hmod : i.epochUsec % 1000 = 0 ↔ u % 1000 = 0 := by omega
  rw [float8out_epochMsec h0, hmod, habs, ← hu]
  rw [← hu] at hwhole
  have hn : u / 1000 ≤ 2 ^ 31 := by
    unfold FitsInt at hfit
    omega
  have hdigits := takeWhile_unsigned (msecOf_pos (by omega)) (nearest_msecOf u) (msecOf_lt hn (by omega))
  rw [stoi_eq _ (by rw [hdigits]; exact decimal_ne_nil _), hdigits, value_decimal, ← floor_msecOf_iff hn,
    hwhole]
  simp only [hwhole ▸ hfit, and_true, true_and]
  split <;> omega

theorem stod_eq (p : Prop) [Decidable p] (n : ℕ) {fraction : Bytes}
    (h : ∀ c ∈ fraction, isDigit c = true) :
    stod ((if p then [ch '-'] else []) ++ (decimal n ++ ch '.' :: fraction)) =
      .ok (nearest (if p then -((n * 10 ^ fraction.length + value fraction : ℕ) / 10 ^ fraction.length : ℚ)
        else (n * 10 ^ fraction.length + value fraction : ℕ) / 10 ^ fraction.length)) := by
  have htake : (decimal n ++ ch '.' :: fraction).takeWhile isDigit = decimal n := takeWhile_decimal rfl
  have hdrop : (decimal n ++ ch '.' :: fraction).dropWhile isDigit = ch '.' :: fraction := by
    have := List.takeWhile_append_dropWhile (p := isDigit) (l := decimal n ++ ch '.' :: fraction)
    rw [htake] at this
    exact List.append_cancel_left this
  unfold stod
  rw [signed_eq _ (by rw [htake]; exact decimal_ne_nil n)]
  simp only [htake, hdrop, if_true, List.takeWhile_eq_self_iff.mpr h, value_append, value_decimal,
    decide_eq_true_eq]
  rw [if_neg (by simp [decimal_ne_nil])]

theorem fixedPoint_usec (u : Int) : ∃ fraction, (∀ c ∈ fraction, isDigit c = true) ∧ fraction.length = 6 ∧
    value fraction = u.natAbs % 1000000 ∧ fixedPoint (u / 1000000) =
      (if u < 0 then [ch '-'] else []) ++ (decimal (u.natAbs / 1000000) ++ ch '.' :: fraction) := by
  have habs : |(u : ℚ) / 1000000| * 1000000 = ((u.natAbs : ℤ) : ℚ) := by
    rw [abs_div, abs_of_pos (by norm_num : (0 : ℚ) < 1000000), div_mul_cancel₀ _ (by norm_num),
      ← Int.cast_abs, Int.abs_eq_natAbs]
  have hneg : (u : ℚ) / 1000000 < 0 ↔ u < 0 := by
    rw [div_lt_iff₀ (by norm_num), zero_mul]
    exact Int.cast_lt_zero
  have hlength := length_decimal_le (k := 6) (n := u.natAbs % 1000000) (by decide) (by omega)
  refine ⟨List.replicate (6 - (decimal (u.natAbs % 1000000)).length) (ch '0') ++
    decimal (u.natAbs % 1000000), fun c hc => ?_, ?_, (value_zeros _ _).trans (value_decimal _), ?_⟩
  · rw [List.mem_append, List.mem_replicate] at hc
    rcases hc with ⟨-, rfl⟩ | hc
    · decide
    · exact digits_decimal hc
  · rw [List.length_append, List.length_replicate]
    omega
  · unfold fixedPoint
    simp only [habs, roundHalfEven_intCast, Int.natAbs_natCast, List.append_assoc, hneg]

theorem stod_fixedPoint (u : Int) : stod (fixedPoint (u / 1000000)) = .ok (nearest (u / 1000000)) := by
  obtain ⟨fraction, hdigits, hlength, hvalue, htext⟩ := fixedPoint_usec u
  have hsum : u.natAbs / 1000000 * 10 ^ 6 + u.natAbs % 1000000 = u.natAbs := by omega
  have hsign : (if u < 0 then -((u.natAbs : ℚ) / 10 ^ 6) else (u.natAbs : ℚ) / 10 ^ 6) =
      (u : ℚ) / 1000000 := by
    obtain ⟨n, rfl | rfl⟩ := Int.eq_nat_or_neg u
    · rw [if_neg (by omega)]
      norm_num
    · rcases Nat.eq_zero_or_pos n with rfl | h0
      · simp
      · rw [if_pos (by omega), Int.natAbs_neg, Int.natAbs_natCast]
        push_cast
        ring
  rw [htext, stod_eq _ _ hdigits, hlength, hvalue, hsum, hsign]

/-! ## The object -/

/-- What the constructor makes of `queue_cmd_timeout`. -/
def QueueRow.timeoutSec (q : QueueRow) : ℚ :=
  match q.queueCmdTimeout with
  | some t => nearest t.epoch
  | none => 0

theorem decodeInterval_selected (q : QueueRow) :
    decodeInterval q.selected = stoi (float8out q.queueReselectInterval.epochMsec) := by
  have hfield : q.selected.fieldNumber "queue_reselect_interval_msec" = .ok 5 := rfl
  unfold decodeInterval
  rw [hfield]
  show stoi (cStr (float8out q.queueReselectInterval.epochMsec)) = _
  rw [cStr_of_nulFree (nulFree_float8out _)]

theorem stoi_decimalInt {i : Int} (h : FitsInt i) : stoi (decimalInt i) = .ok i := by
  have htake : (decimal i.natAbs).takeWhile isDigit = decimal i.natAbs :=
    List.takeWhile_eq_self_iff.mpr fun c hc => digits_decimal hc
  unfold decimalInt
  rw [stoi_eq _ (by rw [htake]; exact decimal_ne_nil _), htake, value_decimal]
  refine ⟨?_, h⟩
  split <;> omega

theorem decodeEveryNth_selected (q : QueueRow) :
    decodeEveryNth q.selected = .ok (q.queueReselectRandomizedEveryNth.map (·.val)) := by
  have hfield : q.selected.fieldNumber "queue_reselect_randomized_every_nth" = .ok 6 := rfl
  have hvalue : q.selected.values 6 = q.queueReselectRandomizedEveryNth.map fun n => decimalInt n := rfl
  unfold decodeEveryNth
  simp only [hfield, bind, Except.bind, ResultRow.getisnull, ResultRow.getvalue, hvalue]
  match q.queueReselectRandomizedEveryNth with
  | none => rfl
  | some ⟨n, hpos, hlt⟩ =>
    have hconvert : convert (ch 'i') (.int n) = some (decimalInt n) := rfl
    have hnul := nulFree_convert hconvert
    have hstoi := stoi_decimalInt (i := n) ⟨by omega, hlt⟩
    simp [cStr_of_nulFree hnul, hstoi, pure, Except.pure]

theorem decodeTimeout_selected (q : QueueRow) : decodeTimeout q.selected = .ok q.timeoutSec := by
  have hfield : q.selected.fieldNumber "queue_cmd_timeout_sec" = .ok 7 := rfl
  have hvalue : q.selected.values 7 = q.queueCmdTimeout.map fun t => fixedPoint t.epoch := rfl
  unfold decodeTimeout QueueRow.timeoutSec
  simp only [hfield, bind, Except.bind, ResultRow.getisnull, ResultRow.getvalue, hvalue]
  match q.queueCmdTimeout with
  | none => rfl
  | some t =>
    have hconvert : convert (ch 'f') (.double t.epoch) = some (fixedPoint t.epoch) := rfl
    have hnul := nulFree_convert hconvert
    show stod (cStr (fixedPoint t.epoch)) = _
    rw [cStr_of_nulFree hnul]
    exact stod_fixedPoint t.epochUsec

theorem ofRow_selected (q : QueueRow) (i : Int) (t : ℚ) :
    (∃ c, CmdQueue.ofRow q.selected = .ok c ∧ c.isValid = true ∧ c.queueReselectIntervalMsec = some i ∧
      c.queueCmdTimeoutSec = some t) ↔
      stoi (float8out q.queueReselectInterval.epochMsec) = .ok i ∧ q.timeoutSec = t := by
  have hfield : q.selected.fieldNumber "cmd_class_identity" = .ok 0 ∧
      q.selected.fieldNumber "cmd_class_relname" = .ok 1 ∧
      q.selected.fieldNumber "cmd_signature_class_relname" = .ok 2 ∧
      q.selected.fieldNumber "queue_runner_role" = .ok 3 ∧
      q.selected.fieldNumber "queue_notify_channel" = .ok 4 ∧
      q.selected.fieldNumber "ansi_fg" = .ok 8 := ⟨rfl, rfl, rfl, rfl, rfl, rfl⟩
  obtain ⟨h0, h1, h2, h3, h4, h8⟩ := hfield
  unfold CmdQueue.ofRow
  simp only [tryBlock, h0, h1, h2, h3, h4, h8, decodeInterval_selected, decodeEveryNth_selected,
    decodeTimeout_selected, bind, Except.bind, pure, Except.pure]
  cases hi : stoi (float8out q.queueReselectInterval.epochMsec) with
  | error e => cases e <;> simp [caught]
  | ok n => simp [caught]

/-! ## Intervals that are read as they are meant -/

theorem toInt_of_nonneg {x : ℚ} (h : 0 ≤ x) : RunCmd.toInt x = ⌊x⌋ := by
  rw [RunCmd.toInt, Int.tdiv_eq_ediv_of_nonneg (Rat.num_nonneg.mpr h), Rat.floor_def']

theorem toInt_neg (x : ℚ) : RunCmd.toInt (-x) = -RunCmd.toInt x := by
  rw [RunCmd.toInt, RunCmd.toInt, Rat.neg_num, Rat.neg_den, Int.neg_tdiv]

/-- The fraction is cut off, on both sides of 0. -/
theorem fitsInt_toInt (x : ℚ) : FitsInt (RunCmd.toInt x) ↔ -2 ^ 31 - 1 < x ∧ x < 2 ^ 31 := by
  unfold FitsInt
  rcases le_or_gt 0 x with h | h
  · have h0 : 0 ≤ ⌊x⌋ := Int.floor_nonneg.mpr h
    rw [toInt_of_nonneg h, Int.floor_lt]
    push_cast
    constructor
    · exact fun hx => ⟨by linarith, hx.2⟩
    · exact fun hx => ⟨by omega, hx.2⟩
  · have h0 : 0 ≤ ⌊-x⌋ := Int.floor_nonneg.mpr (by linarith)
    have hlt : ⌊-x⌋ < 2 ^ 31 + 1 ↔ -x < 2 ^ 31 + 1 := by
      rw [Int.floor_lt]
      norm_num
    rw [← neg_neg x, toInt_neg, toInt_of_nonneg (by linarith)]
    constructor
    · intro hx
      have := hlt.mp (by omega)
      constructor <;> linarith
    · intro hx
      have := hlt.mpr (by linarith [hx.1])
      omega

/-- There is no timeout, or the rest of it is less than 25 days away, also if it is over. -/
def TimeoutFits (timeout : Option Interval) (elapsed : ℚ) (triedSigterm : Bool) : Prop :=
  ∀ t, timeout = some t → t.epochUsec = 0 ∨
    -2147483.649 < nearest t.epoch - elapsed + (if triedSigterm then 1 else 0) ∧
      nearest t.epoch - elapsed + (if triedSigterm then 1 else 0) < 2147483.648

theorem fits_unclampedPollTimeout (q : QueueRow) (elapsed : ℚ) (triedSigterm : Bool) :
    FitsInt (unclampedPollTimeout q.timeoutSec elapsed triedSigterm) ↔
      TimeoutFits q.queueCmdTimeout elapsed triedSigterm := by
  unfold QueueRow.timeoutSec TimeoutFits unclampedPollTimeout
  match q.queueCmdTimeout with
  | none =>
    simp [FitsInt]
  | some t =>
    have hzero : nearest t.epoch = 0 ↔ t.epochUsec = 0 := by
      rw [nearest_eq_zero, Interval.epoch, div_eq_zero_iff]
      norm_num
    simp only [Option.some.injEq, forall_eq', hzero]
    by_cases h0 : t.epochUsec = 0
    · simp [h0, FitsInt]
    · rw [if_neg h0, fitsInt_toInt, RunCmd.graceSecondsBetweenSigtermAndSigkill]
      simp only [h0, false_or]
      constructor
      · exact fun h => ⟨by linarith [h.1], by linarith [h.2]⟩
      · exact fun h => ⟨by linarith [h.1], by linarith [h.2]⟩

/-- Both intervals are read as they are meant if and only if an `int` has room for the milliseconds of
the first, no rounding falls below them, and the rest of the second is not too long. -/
theorem readAsMeant_iff (q : QueueRow) (elapsed : ℚ) (triedSigterm : Bool) :
    ReadAsMeant q elapsed triedSigterm ↔
      ReselectFits q.queueReselectInterval ∧ TimeoutFits q.queueCmdTimeout elapsed triedSigterm := by
  rw [← stoi_epochMsec, ← fits_unclampedPollTimeout]
  unfold ReadAsMeant
  constructor
  · rintro ⟨c, hc, hvalid, hmsec, t, ht, hfit⟩
    obtain ⟨hi, rfl⟩ := (ofRow_selected q _ t).mp ⟨c, hc, hvalid, hmsec, ht⟩
    exact ⟨hi, hfit⟩
  · rintro ⟨hi, hfit⟩
    obtain ⟨c, hc, hvalid, hmsec, ht⟩ := (ofRow_selected q _ _).mpr ⟨hi, rfl⟩
    exact ⟨c, hc, hvalid, hmsec, _, ht, hfit⟩

/-- The round is made every 30 days. -/
def monthly : QueueRow where
  cmdClassIdentity := ascii "cmdq.report_cmd"
  cmdClassRelname := ascii "report_cmd"
  cmdSignatureClassRelname := ascii "nix_queue_cmd_template"
  queueReselectInterval := { days := 30 }

theorem not_readAsMeant_monthly : ¬ReadAsMeant monthly 0 false := by
  have hinvalid : (CmdQueue.ofRow monthly.selected).map (·.isValid) = .ok false := by decide +kernel
  rintro ⟨c, hc, hvalid, -⟩
  rw [hc] at hinvalid
  simp [Except.map, hvalid] at hinvalid

end PgCmdQueue.QueueMetadata
