import PgCmdQueue.Cpp
import PgCmdQueue.Lib.Decimal

/-!
# Errors of the server

A function of the server returns or raises an error, of which only the SQLSTATE is told.
-/

namespace PgCmdQueue.Postgres

open Decimal

/-- The SQLSTATE of an error, in place of the result. -/
abbrev Raises := Except Bytes

def nullValueNotAllowed : Bytes := ascii "22004"

def characterNotInRepertoire : Bytes := ascii "22021"

def invalidParameterValue : Bytes := ascii "22023"

def numericValueOutOfRange : Bytes := ascii "22003"

def integrityConstraintViolation : Bytes := ascii "23000"

def undefinedColumn : Bytes := ascii "42703"

def undefinedObject : Bytes := ascii "42704"

def undefinedFunction : Bytes := ascii "42883"

variable {α β : Type} {x y state : Bytes}

theorem bind_ok_iff {r : Raises α} {f : α → Raises β} {b : β} :
    (r >>= f) = .ok b ↔ ∃ a, r = .ok a ∧ f a = .ok b := by
  cases r <;> simp [bind, Except.bind]

/-- The classes of the errors that the server raises by itself are numbers. -/
def FromServer (r : Raises α) : Prop := ∀ state, r = .error state → state.head? ≠ some (ch 'P')

theorem fromServer_ok (a : α) : FromServer (.ok a) := nofun

theorem fromServer_error (h : state.head? ≠ some (ch 'P')) : FromServer (.error state : Raises α) := by
  rintro _ ⟨⟩
  exact h

theorem fromServer_bind {r : Raises α} {f : α → Raises β} (hr : FromServer r) (hf : ∀ a, FromServer (f a)) :
    FromServer (r >>= f) := by
  cases r with
  | error state => exact fromServer_error (hr state rfl)
  | ok a => exact hf a

theorem fromServer_map {r : Raises α} {f : α → β} (hr : FromServer r) : FromServer (r.map f) := by
  cases r with
  | error state => exact fromServer_error (hr state rfl)
  | ok a => exact fromServer_ok (f a)

/-! ## Formats without arguments -/

/-- What `format` raises for a percent sign, from behind it, when it has no arguments: a number is too
large, or something is missing. -/
def formatFailure (spec : Bytes) : Bytes :=
  let digits := spec.takeWhile isDigit
  let behind := spec.dropWhile isDigit
  let tooLarge (x : Bytes) : Bool := 2147483647 < value (x.takeWhile isDigit)
  let width (x : Bytes) : Bytes :=
    let flagged := x.dropWhile (· == ch '-')
    if flagged.head? = some (ch '*') then flagged.tail else flagged
  if tooLarge spec then numericValueOutOfRange
  else if digits = [] then
    if tooLarge (width spec) then numericValueOutOfRange else invalidParameterValue
  else if behind.head? = some (ch '$') ∧ value digits ≠ 0 ∧ tooLarge (width behind.tail) then
    numericValueOutOfRange
  else invalidParameterValue

/-- `format(text)`. -/
def format : Bytes → Raises Bytes
  | [] => .ok []
  | [c] => if c = ch '%' then .error (formatFailure []) else .ok [c]
  | c :: d :: rest =>
    if c = ch '%' then
      if d = ch '%' then (format rest).map (ch '%' :: ·) else .error (formatFailure (d :: rest))
    else (format (d :: rest)).map (c :: ·)

/-- There is no percent sign but in pairs. -/
def percentsPaired : Bytes → Bool
  | [] => true
  | [c] => c != ch '%'
  | c :: d :: rest => if c = ch '%' then d == ch '%' && percentsPaired rest else percentsPaired (d :: rest)

theorem format_ok_iff : (∃ text, format x = .ok text) ↔ percentsPaired x = true := by
  have hmap {c : Byte} {r : Raises Bytes} : (∃ text, r.map (c :: ·) = .ok text) ↔ ∃ text, r = .ok text := by
    rcases r with _ | _ <;> simp [Except.map]
  induction x using format.induct with
  | case1 => simp [format, percentsPaired]
  | case2 => simp [format, percentsPaired]
  | case3 c hc => simp [format, percentsPaired, hc]
  | case4 rest ih => simp [format, percentsPaired, hmap, ih]
  | case5 d rest hd => simp [format, percentsPaired, hd]
  | case6 c d rest hc ih => simp only [format, percentsPaired, if_neg hc, hmap, ih]

theorem percentsPaired_percent {d : Byte} :
    percentsPaired (ch '%' :: d :: x) = (d == ch '%' && percentsPaired x) := rfl

theorem percentsPaired_cons {c : Byte} (hc : c ≠ ch '%') : percentsPaired (c :: x) = percentsPaired x := by
  cases x with
  | nil => exact bne_iff_ne.mpr hc
  | cons d x => exact if_neg hc

theorem percentsPaired_append (hx : percentsPaired x = true) :
    percentsPaired (x ++ y) = percentsPaired y := by
  induction x using percentsPaired.induct with
  | case1 => rfl
  | case2 c => exact percentsPaired_cons (bne_iff_ne.mp hx)
  | case3 d rest ih =>
    rw [percentsPaired_percent, Bool.and_eq_true] at hx
    rw [List.cons_append, List.cons_append, percentsPaired_percent, hx.1, ih hx.2, Bool.true_and]
  | case4 c d rest hc ih =>
    rw [percentsPaired_cons hc] at hx
    rw [List.cons_append, percentsPaired_cons hc]
    exact ih hx

/-- A pair does not go beyond where a text without a percent sign in front begins. -/
theorem percentsPaired_append_iff (hy : y.head? ≠ some (ch '%')) :
    percentsPaired (x ++ y) = true ↔ percentsPaired x = true ∧ percentsPaired y = true := by
  refine ⟨fun h => ?_, fun h => (percentsPaired_append h.1).trans h.2⟩
  have hx : percentsPaired x = true := by
    induction x using percentsPaired.induct with
    | case1 => rfl
    | case2 c =>
      by_contra hc
      obtain rfl : c = ch '%' := by_contra fun hne => hc (bne_iff_ne.mpr hne)
      cases y with
      | nil => cases h
      | cons d y =>
        rw [List.singleton_append, percentsPaired_percent, Bool.and_eq_true] at h
        exact hy (congrArg some (beq_iff_eq.mp h.1))
    | case3 d rest ih =>
      simp only [List.cons_append, percentsPaired_percent, Bool.and_eq_true] at h ⊢
      exact ⟨h.1, ih h.2⟩
    | case4 c d rest hc ih =>
      rw [List.cons_append, percentsPaired_cons hc] at h
      rw [percentsPaired_cons hc]
      exact ih h
  exact ⟨hx, percentsPaired_append hx ▸ h⟩

theorem fromServer_format (x : Bytes) : FromServer (format x) := by
  have hfailure (spec : Bytes) : FromServer (.error (formatFailure spec) : Raises Bytes) := by
    apply fromServer_error
    unfold formatFailure
    dsimp only
    split_ifs <;> decide
  induction x using format.induct with
  | case1 => exact fromServer_ok _
  | case2 => exact hfailure _
  | case3 c hc =>
    rw [format, if_neg hc]
    exact fromServer_ok _
  | case4 rest ih =>
    rw [format, if_pos rfl, if_pos rfl]
    exact fromServer_map ih
  | case5 d rest hd =>
    rw [format, if_pos rfl, if_neg hd]
    exact hfailure _
  | case6 c d rest hc ih =>
    rw [format, if_neg hc]
    exact fromServer_map ih

end PgCmdQueue.Postgres
