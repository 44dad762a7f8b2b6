import PgCmdQueue.Cpp

/-!
# Double quotes that delimit

The scanners take a double quote for a delimiter unless the byte before it is a backslash.
-/

namespace PgCmdQueue.Pq

open Cpp

variable {input rest x ys : Bytes} {i : Nat} {b c : Byte}

theorem charAtOrNul_eq (h : input[i]? = some c) : charAtOrNul input i = c := by
  rw [charAtOrNul, List.getD_eq_getElem?_getD, h]
  rfl

/-- The byte in front of position `i`. At the start any byte but a backslash will do. -/
def Before (input : Bytes) (i : Nat) (b : Byte) : Prop :=
  if i = 0 then b ≠ ch '\\' else input[i - 1]? = some b

theorem before_succ (h : input[i]? = some c) : Before input (i + 1) c := by
  unfold Before
  rw [if_neg (by omega)]
  exact h

theorem before_zero (h : b ≠ ch '\\') : Before input 0 b := by
  unfold Before
  rw [if_pos rfl]
  exact h

theorem before_append (hb : Before input i b) (h : Ahead input i (x ++ rest)) :
    Before input (i + x.length) (x.getLast?.getD b) := by
  cases hx : x.getLast? with
  | none =>
    rw [List.getLast?_eq_none_iff] at hx
    subst hx
    exact hb
  | some d =>
    obtain ⟨ys, rfl⟩ := List.getLast?_eq_some_iff.mp hx
    rw [List.append_assoc] at h
    rw [List.length_append, List.length_singleton, ← Nat.add_assoc]
    exact before_succ h.append.head

/-- The test that the loops over `input[i]` make on the byte before. -/
theorem before_iff (h : Before input i b) :
    (i = 0 ∨ charAtOrNul input (i - 1) ≠ ch '\\') ↔ b ≠ ch '\\' := by
  unfold Before at h
  split at h <;> rename_i hi
  · simp [hi, h]
  · simp [hi, charAtOrNul_eq h]

theorem before_charAt (h : Before input i b) (hi : i ≠ 0) :
    charAt input (posBefore i) = .ok b := by
  unfold Before at h
  rw [if_neg hi] at h
  rw [posBefore, if_neg hi, charAt, h]

/-! ## Counting them -/

def delimiters (before : Byte) : Bytes → Nat
  | [] => 0
  | c :: rest => (if c = ch '"' ∧ before ≠ ch '\\' then 1 else 0) + delimiters c rest

theorem delimiters_append : delimiters b (x ++ ys) =
    delimiters b x + delimiters (x.getLast?.getD b) ys := by
  induction x generalizing b with
  | nil => simp [delimiters]
  | cons c x ih =>
    rw [List.cons_append, delimiters, delimiters, ih, Nat.add_assoc, List.getLast?_cons]
    rfl

/-- A text is cut at its first delimiter. -/
theorem exists_first_delimiter (b : Byte) (x : Bytes) : delimiters b x = 0 ∨
    ∃ g rest, x = g ++ ch '"' :: rest ∧ delimiters b g = 0 ∧ g.getLast?.getD b ≠ ch '\\' := by
  induction x generalizing b with
  | nil => exact .inl rfl
  | cons c x ih =>
    by_cases hc : c = ch '"' ∧ b ≠ ch '\\'
    · exact .inr ⟨[], x, by rw [hc.1]; rfl, rfl, hc.2⟩
    · rcases ih c with h | ⟨g, rest, rfl, hg, hlast⟩
      · exact .inl (by rw [delimiters, if_neg hc, h])
      · refine .inr ⟨c :: g, rest, rfl, by rw [delimiters, if_neg hc, hg], ?_⟩
        rwa [List.getLast?_cons, Option.getD_some]

end PgCmdQueue.Pq
