import PgCmdQueue.Lib.Decimal
import Mathlib.Algebra.Order.Floor.Ring
import Mathlib.Data.Rat.Floor

/-!
# Formats of `printf`

The conversions `%s`, `%i`, `%d`, `%f` and `%%`, without flags or widths. The standard leaves
everything else undefined that the arguments do not fit: another conversion, a lone percent
sign at the end, and a conversion that no argument is left for.
-/

namespace Printf

open PgCmdQueue Cpp Decimal

inductive Arg where
  | str (s : Bytes)
  | int (i : Int)
  | double (x : ℚ)

/-- To the nearest integer, and from the middle to the even one. -/
def roundHalfEven (x : ℚ) : ℤ :=
  if x - ⌊x⌋ < 1 / 2 ∨ (x - ⌊x⌋ = 1 / 2 ∧ ⌊x⌋ % 2 = 0) then ⌊x⌋ else ⌊x⌋ + 1

/-- Six digits behind the point. -/
def fixedPoint (x : ℚ) : Bytes :=
  let millionths := (roundHalfEven (|x| * 1000000)).natAbs
  let fraction := decimal (millionths % 1000000)
  (if x < 0 then [ch '-'] else []) ++ decimal (millionths / 1000000) ++
    ch '.' :: (List.replicate (6 - fraction.length) (ch '0') ++ fraction)

def convert (conversion : Byte) : Arg → Option Bytes
  | .str s => if conversion = ch 's' then some (cStr s) else none
  | .int i => if conversion = ch 'i' ∨ conversion = ch 'd' then some (decimalInt i) else none
  | .double x => if conversion = ch 'f' then some (fixedPoint x) else none

/-- The text that `vsnprintf` makes of a format. -/
def vsnprintf : Bytes → List Arg → Option Bytes
  | [], _ => some []
  | c :: format, args =>
    if c = ch '%' then
      match format with
      | [] => none
      | d :: format =>
        if d = ch '%' then (vsnprintf format args).map (ch '%' :: ·)
        else match args with
          | [] => none
          | arg :: args => (convert d arg).bind fun text => (vsnprintf format args).map (text ++ ·)
    else (vsnprintf format args).map (c :: ·)

variable {c d : Byte} {format text rest : Bytes} {arg : Arg} {args : List Arg} {s : Bytes} {x : ℚ}

@[simp] theorem vsnprintf_nil : vsnprintf [] args = some [] := rfl

theorem vsnprintf_cons (h : c ≠ ch '%') :
    vsnprintf (c :: format) args = (vsnprintf format args).map (c :: ·) := by
  cases format <;> exact if_neg h

@[simp] theorem vsnprintf_lone : vsnprintf [ch '%'] args = none := rfl

theorem vsnprintf_percent :
    vsnprintf (ch '%' :: ch '%' :: format) args = (vsnprintf format args).map (ch '%' :: ·) := rfl

theorem vsnprintf_exhausted (h : d ≠ ch '%') : vsnprintf (ch '%' :: d :: format) [] = none :=
  if_neg h

theorem vsnprintf_conversion (h : d ≠ ch '%') : vsnprintf (ch '%' :: d :: format) (arg :: args) =
    (convert d arg).bind fun text => (vsnprintf format args).map (text ++ ·) :=
  if_neg h

theorem vsnprintf_plain_append (h : ch '%' ∉ text) :
    vsnprintf (text ++ rest) args = (vsnprintf rest args).map (text ++ ·) := by
  induction text with
  | nil => simp
  | cons c text ih =>
    simp only [List.mem_cons, not_or] at h
    rw [List.cons_append, vsnprintf_cons (Ne.symm h.1), ih h.2, Option.map_map]
    rfl

theorem vsnprintf_plain (h : ch '%' ∉ format) : vsnprintf format args = some format := by
  have : vsnprintf (format ++ []) args = _ := vsnprintf_plain_append h
  simpa using this

theorem vsnprintf_str :
    vsnprintf (ascii "%s" ++ rest) (.str s :: args) = (vsnprintf rest args).map (cStr s ++ ·) := rfl

theorem vsnprintf_double : vsnprintf (ascii "%f" ++ rest) (.double x :: args) =
    (vsnprintf rest args).map (fixedPoint x ++ ·) := rfl

theorem nulFree_of_digits {x : Bytes} (h : ∀ c ∈ x, isDigit c = true) : NulFree x := by
  intro c hc
  rintro rfl
  exact absurd (h 0 hc) (by decide)

theorem nulFree_decimal (n : Nat) : NulFree (decimal n) :=
  nulFree_of_digits fun _ => digits_decimal

theorem nulFree_convert {arg : Arg} (h : convert c arg = some text) : NulFree text := by
  have hsign (p : Prop) [Decidable p] : NulFree (if p then [ch '-'] else []) := by split <;> decide
  cases arg with
  | str s =>
    simp only [convert, Option.ite_none_right_eq_some, Option.some.injEq] at h
    rw [← h.2]
    exact nulFree_cStr s
  | int i =>
    simp only [convert, Option.ite_none_right_eq_some, Option.some.injEq] at h
    rw [← h.2]
    exact nulFree_append.mpr ⟨hsign _, nulFree_decimal _⟩
  | double x =>
    simp only [convert, Option.ite_none_right_eq_some, Option.some.injEq] at h
    rw [← h.2]
    simp only [fixedPoint, nulFree_append, nulFree_cons]
    refine ⟨⟨hsign _, nulFree_decimal _⟩, by decide, fun c hc => ?_, nulFree_decimal _⟩
    rw [(List.mem_replicate.mp hc).2]
    decide

/-- A text that is made of C strings is one. -/
theorem nulFree_vsnprintf (hformat : NulFree format) (h : vsnprintf format args = some text) :
    NulFree text := by
  induction format, args using vsnprintf.induct generalizing text with
  | case1 =>
    cases h
    exact List.forall_mem_nil _
  | case2 => simp at h
  | case3 args format ih =>
    rw [vsnprintf_percent, Option.map_eq_some_iff] at h
    obtain ⟨tail, htail, rfl⟩ := h
    exact nulFree_cons.mpr ⟨by decide, ih (nulFree_cons.mp (nulFree_cons.mp hformat).2).2 htail⟩
  | case4 d format hd => simp [vsnprintf_exhausted hd] at h
  | case5 d format hd arg args ih =>
    simp only [vsnprintf_conversion hd, Option.bind_eq_some_iff, Option.map_eq_some_iff] at h
    obtain ⟨converted, hconverted, tail, htail, rfl⟩ := h
    exact nulFree_append.mpr ⟨nulFree_convert hconverted,
      ih (nulFree_cons.mp (nulFree_cons.mp hformat).2).2 htail⟩
  | case6 args c format hc ih =>
    rw [vsnprintf_cons hc, Option.map_eq_some_iff] at h
    obtain ⟨tail, htail, rfl⟩ := h
    obtain ⟨hc, hformat⟩ := nulFree_cons.mp hformat
    exact nulFree_cons.mpr ⟨hc, ih hformat htail⟩

/-- Without arguments nothing is left but `%%`, which makes the text shorter. -/
theorem length_vsnprintf (h : vsnprintf format [] = some text) :
    text.length ≤ format.length ∧ (text.length = format.length → ch '%' ∉ format) := by
  induction hlen : format.length using Nat.strong_induction_on generalizing format text with
  | _ n ih =>
    cases format with
    | nil =>
      cases h
      simp
    | cons c format =>
      rw [List.length_cons] at hlen
      by_cases hc : c = ch '%'
      · subst hc
        cases format with
        | nil => simp at h
        | cons d format =>
          rw [List.length_cons] at hlen
          by_cases hd : d = ch '%'
          · subst hd
            rw [vsnprintf_percent, Option.map_eq_some_iff] at h
            obtain ⟨tail, htail, rfl⟩ := h
            have := (ih format.length (by omega) htail rfl).1
            simp only [List.length_cons]
            omega
          · rw [vsnprintf_exhausted hd] at h
            cases h
      · rw [vsnprintf_cons hc, Option.map_eq_some_iff] at h
        obtain ⟨tail, htail, rfl⟩ := h
        obtain ⟨hle, heq⟩ := ih format.length (by omega) htail rfl
        simp only [List.length_cons, List.mem_cons, not_or]
        exact ⟨by omega, fun hsame => ⟨Ne.symm hc, heq (by omega)⟩⟩

/-- A format without arguments comes out as it is just in case it has no percent sign. -/
theorem vsnprintf_self_iff : vsnprintf format [] = some format ↔ ch '%' ∉ format :=
  ⟨fun h => (length_vsnprintf h).2 rfl, vsnprintf_plain⟩

example : vsnprintf (ascii "took %f s, 100%%") [.double (5 / 2)] =
    some (ascii "took 2.500000 s, 100%") := by decide +kernel

end Printf
