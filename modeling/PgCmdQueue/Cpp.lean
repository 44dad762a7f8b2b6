import Mathlib.Algebra.Order.Ring.Nat
import Mathlib.Data.List.TakeWhile

/-!
# The C++ strings of the daemon

A `std::string` is a list of bytes. Positions are `size_type`, so a position
before the first byte wraps to `npos`.
-/

namespace PgCmdQueue

abbrev Byte := UInt8

abbrev Bytes := List Byte

def ch (c : Char) : Byte := c.toNat.toUInt8

def ascii (s : String) : Bytes := s.toList.map ch

def toText (x : Bytes) : String := String.ofList (x.map fun c => Char.ofNat c.toNat)

/-- What a function of the daemon can throw. A failed `assert` is no exception:
no `catch` stops it. -/
inductive CppError where
  | outOfRange
  | invalidArgument
  | domainError (what : String)
  | runtimeError (what : String)
  | assertion (expr : String)
  deriving DecidableEq, Repr

namespace Cpp

theorem bind_eq_ok {ε α β : Type} {x : Except ε α} {f : α → Except ε β} {b : β}
    (h : x.bind f = .ok b) : ∃ a, x = .ok a ∧ f a = .ok b := by
  cases x with
  | error e => cases h
  | ok a => exact ⟨a, rfl, h⟩

def npos : Nat := 2 ^ 64 - 1

/-- `s.at(i)`. -/
def charAt (s : Bytes) (i : Nat) : Except CppError Byte :=
  match s[i]? with
  | some c => .ok c
  | none => .error .outOfRange

/-- `s[i]`: the position after the last byte reads as NUL. -/
def charAtOrNul (s : Bytes) (i : Nat) : Byte := s.getD i 0

/-- `i - 1` for a `size_type`. -/
def posBefore (i : Nat) : Nat := if i = 0 then npos else i - 1

/-- `s.substr(start, last - start + 1)`. A count below zero wraps to one that is
longer than any string, and `substr` then takes all that is left. -/
def substrTo (s : Bytes) (start last : Nat) : Except CppError Bytes :=
  if s.length < start then .error .outOfRange
  else .ok ((s.drop start).take (if start ≤ last + 1 then last + 1 - start else s.length))

/-- The bytes of a `char *` up to its NUL. -/
def cStr (s : Bytes) : Bytes := s.takeWhile (· != 0)

def NulFree (s : Bytes) : Prop := ∀ c ∈ s, c ≠ 0

instance (s : Bytes) : Decidable (NulFree s) := List.decidableBAll (fun c => c ≠ 0) s

theorem nulFree_cons {c : Byte} {s : Bytes} : NulFree (c :: s) ↔ c ≠ 0 ∧ NulFree s :=
  List.forall_mem_cons

theorem nulFree_append {s t : Bytes} : NulFree (s ++ t) ↔ NulFree s ∧ NulFree t :=
  List.forall_mem_append

theorem cStr_of_nulFree {s : Bytes} (h : NulFree s) : cStr s = s := by
  rw [cStr, List.takeWhile_eq_self_iff]
  intro c hc
  simpa using h c hc

theorem nulFree_cStr (s : Bytes) : NulFree (cStr s) := by
  intro c hc
  simpa using List.mem_takeWhile_imp hc

def toLower (c : Byte) : Byte := if ch 'A' ≤ c ∧ c ≤ ch 'Z' then c + 32 else c

/-- `strcasecmp(s, t) == 0`. -/
def strcasecmpEq (s t : Bytes) : Bool := (cStr s).map toLower == (cStr t).map toLower

/-! ## Failed assertions -/

/-- What goes wrong, if anything, is an exception. -/
def NoAbort {α : Type} (x : Except CppError α) : Prop := ∀ expr, x ≠ .error (.assertion expr)

theorem noAbort_bind {α β : Type} {x : Except CppError α} {f : α → Except CppError β}
    (hx : NoAbort x) (hf : ∀ a, NoAbort (f a)) : NoAbort (x >>= f) := by
  intro expr
  cases x with
  | error e =>
    rintro ⟨⟩
    exact hx expr rfl
  | ok a => exact hf a expr

theorem noAbort_ok {α : Type} (a : α) : NoAbort (.ok a) := by
  intro expr
  simp

theorem noAbort_charAt (s : Bytes) (i : Nat) : NoAbort (charAt s i) := by
  intro expr
  unfold charAt
  split <;> simp

theorem noAbort_substrTo (s : Bytes) (start last : Nat) : NoAbort (substrTo s start last) := by
  intro expr
  unfold substrTo
  split <;> simp

/-! ## What lies ahead of a position -/

/-- From position `i` on, `input` reads `rest`. -/
def Ahead (input : Bytes) (i : Nat) (rest : Bytes) : Prop := input.drop i = rest

variable {input rest xs : Bytes} {i start : Nat} {c : Byte}

theorem ahead_zero : Ahead input 0 input := rfl

theorem Ahead.head (h : Ahead input i (c :: rest)) : input[i]? = some c := by
  rw [← List.head?_drop, h]; rfl

theorem Ahead.tail (h : Ahead input i (c :: rest)) : Ahead input (i + 1) rest := by
  rw [Ahead, ← List.tail_drop, h]; rfl

theorem Ahead.append (h : Ahead input i (xs ++ rest)) : Ahead input (i + xs.length) rest := by
  rw [Ahead, ← List.drop_drop, h, List.drop_left]

theorem Ahead.lt (h : Ahead input i (c :: rest)) : i < input.length := by
  have := congrArg List.length h
  simp at this
  omega

theorem Ahead.length (h : Ahead input i rest) (hi : i ≤ input.length) :
    i + rest.length = input.length := by
  have := congrArg List.length h
  simp at this
  omega

theorem Ahead.charAt (h : Ahead input i (c :: rest)) : charAt input i = .ok c := by
  simp [Cpp.charAt, h.head]

theorem Ahead.charAt_posBefore (h : Ahead input i (c :: rest)) :
    Cpp.charAt input (posBefore (i + 1)) = .ok c := h.charAt

theorem Ahead.charAt_before (h : Ahead input i (xs ++ rest)) {b : Byte}
    (hb : xs.getLast? = some b) : Cpp.charAt input (posBefore (i + xs.length)) = .ok b := by
  obtain ⟨ys, rfl⟩ := List.getLast?_eq_some_iff.mp hb
  rw [List.append_assoc] at h
  have := h.append
  rw [List.length_append, List.length_singleton, ← Nat.add_assoc]
  exact this.charAt_posBefore

/-- `substr` from the start of a stretch to its last byte. -/
theorem Ahead.substrTo (h : Ahead input start (xs ++ rest)) (hs : 0 < start)
    (hle : start ≤ input.length) :
    substrTo input start (posBefore (start + xs.length)) = .ok xs := by
  have hb : posBefore (start + xs.length) + 1 = start + xs.length := by
    rw [posBefore, if_neg (by omega)]; omega
  have hd : input.drop start = xs ++ rest := h
  rw [Cpp.substrTo, if_neg (by omega), hb, if_pos (by omega), hd]
  simp

end Cpp

end PgCmdQueue
