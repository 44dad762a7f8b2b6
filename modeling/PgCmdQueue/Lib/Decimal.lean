import PgCmdQueue.Cpp
import Mathlib.Data.Nat.Digits.Lemmas

/-!
# Decimal numerals

The text of a number has its digits and no leading zero, and reading it gives the number back.
-/

namespace Decimal

open PgCmdQueue

def digit (d : Nat) : Byte := (48 + d).toUInt8

def isDigit (c : Byte) : Bool := 48 ≤ c && c ≤ 57

def decimal (n : Nat) : Bytes := if n = 0 then [digit 0] else (Nat.digits 10 n).reverse.map digit

def decimalInt (i : Int) : Bytes := (if i < 0 then [ch '-'] else []) ++ decimal i.natAbs

/-- Behind a value that has been read, the value of a text of digits. -/
def valueFrom (v : Nat) (x : Bytes) : Nat := x.foldl (fun v c => 10 * v + (c.toNat - 48)) v

def value (x : Bytes) : Nat := valueFrom 0 x

variable {n d v k : Nat} {c : Byte} {x y rest : Bytes}

theorem toNat_digit (h : d < 10) : (digit d).toNat = 48 + d := by
  simp [digit]
  omega

theorem isDigit_iff : isDigit c = true ↔ 48 ≤ c.toNat ∧ c.toNat ≤ 57 := by
  simp [isDigit, UInt8.le_iff_toNat_le]

theorem isDigit_digit (h : d < 10) : isDigit (digit d) = true := by
  rw [isDigit_iff, toNat_digit h]
  omega

theorem valueFrom_append : valueFrom v (x ++ y) = valueFrom (valueFrom v x) y := by
  simp [valueFrom, List.foldl_append]

theorem valueFrom_eq (v : Nat) (x : Bytes) : valueFrom v x = v * 10 ^ x.length + value x := by
  induction x generalizing v with
  | nil => simp [valueFrom, value]
  | cons c x ih =>
    show valueFrom (10 * v + (c.toNat - 48)) x = v * 10 ^ (c :: x).length + valueFrom (10 * 0 + (c.toNat - 48)) x
    rw [ih, ih (10 * 0 + _), List.length_cons, pow_succ]
    ring

theorem value_append (x y : Bytes) : value (x ++ y) = value x * 10 ^ y.length + value y := by
  unfold value
  rw [valueFrom_append, valueFrom_eq, value]

theorem decimal_ne_nil (n : Nat) : decimal n ≠ [] := by
  unfold decimal
  split
  · simp
  · simpa using Nat.digits_ne_nil_iff_ne_zero.mpr ‹_›

theorem digits_decimal (h : c ∈ decimal n) : isDigit c = true := by
  unfold decimal at h
  split at h
  · rw [List.mem_singleton] at h
    rw [h]
    decide
  · simp only [List.mem_map, List.mem_reverse] at h
    obtain ⟨d, hd, rfl⟩ := h
    exact isDigit_digit (Nat.digits_lt_base (by omega) hd)

/-- No separator, sign or quote is part of a numeral. -/
theorem not_mem_decimal (hc : isDigit c = false) : c ∉ decimal n := by
  intro h
  rw [digits_decimal h] at hc
  cases hc

theorem value_map_digit (l : List Nat) (h : ∀ d ∈ l, d < 10) :
    value (l.reverse.map digit) = Nat.ofDigits 10 l := by
  induction l with
  | nil => rfl
  | cons d l ih =>
    rw [List.forall_mem_cons] at h
    rw [List.reverse_cons, List.map_append, value, valueFrom_append]
    show 10 * value (l.reverse.map digit) + ((digit d).toNat - 48) = _
    rw [ih h.2, toNat_digit h.1, Nat.ofDigits_cons]
    omega

@[simp] theorem value_decimal (n : Nat) : value (decimal n) = n := by
  unfold decimal
  split
  · subst n
    decide
  · rw [value_map_digit _ fun d hd => Nat.digits_lt_base (by omega) hd, Nat.ofDigits_digits]

theorem length_decimal_le (hk : 0 < k) (h : n < 10 ^ k) : (decimal n).length ≤ k := by
  unfold decimal
  split
  · exact hk
  · rw [List.length_map, List.length_reverse, Nat.digits_length_le_iff (by omega)]
    exact h

theorem length_decimal (h : n ≠ 0) : (decimal n).length = Nat.log 10 n + 1 := by
  rw [decimal, if_neg h, List.length_map, List.length_reverse, Nat.length_digits 10 n (by omega) h]

theorem takeWhile_decimal (h : rest.head?.all (fun c => !isDigit c)) :
    (decimal n ++ rest).takeWhile isDigit = decimal n := by
  rw [List.takeWhile_append_of_pos fun c hc => digits_decimal hc]
  match rest, h with
  | [], _ => simp
  | c :: rest, h => simpa using h

/-- Zeros in front of a numeral do not change its value. -/
theorem value_zeros (k : Nat) (x : Bytes) : value (List.replicate k (digit 0) ++ x) = value x := by
  induction k with
  | zero => rfl
  | succ k ih => rwa [List.replicate_succ, List.cons_append]

end Decimal
