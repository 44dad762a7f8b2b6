import PgCmdQueue.Cpp
import Mathlib.Data.List.Infix

/-!
# Names and patterns

Texts that are names of the server are cut to what fits. A text has characters here, as the
database has the encoding UTF-8.
-/

namespace PgCmdQueue.Postgres

abbrev Chars := List Char

def utf8Length : Chars → Nat
  | [] => 0
  | c :: x => c.utf8Size + utf8Length x

def namedatalen : Nat := 64

/-- A value of the type `name`. -/
abbrev Name := { x : Chars // utf8Length x < namedatalen }

/-- The whole characters that fit into a number of bytes. -/
def clip : Nat → Chars → Chars
  | _, [] => []
  | limit, c :: x => if limit < c.utf8Size then [] else c :: clip (limit - c.utf8Size) x

variable {x y t : Chars} {limit : Nat}

theorem utf8Length_clip_le : utf8Length (clip limit x) ≤ limit := by
  induction x generalizing limit with
  | nil => simp [clip, utf8Length]
  | cons c x ih =>
    unfold clip
    split
    · exact Nat.zero_le _
    · have := @ih (limit - c.utf8Size)
      simp only [utf8Length]
      omega

/-- The cast of a text. -/
def toName (x : Chars) : Name :=
  if h : utf8Length x < namedatalen then ⟨x, h⟩
  else ⟨clip (namedatalen - 1) x, Nat.lt_of_le_of_lt utf8Length_clip_le (by decide)⟩

@[simp] theorem toName_self (x : Name) : toName x.1 = x := dif_pos x.2

theorem toName_of_short (h : utf8Length x < namedatalen) : (toName x).1 = x := by
  simp [toName, h]

theorem utf8Length_le : utf8Length x ≤ 4 * x.length := by
  induction x with
  | nil => exact Nat.le_refl _
  | cons c x ih =>
    have := c.utf8Size_le_four
    simp only [utf8Length, List.length_cons]
    omega

/-- Nothing is cut off but what does not fit, which is less than a character. -/
theorem clip_length (h : limit < utf8Length x) : limit < 4 * (clip limit x).length + 4 := by
  induction x generalizing limit with
  | nil => exact absurd h (Nat.not_lt_zero _)
  | cons c x ih =>
    have := c.utf8Size_le_four
    unfold clip
    split
    · simp only [List.length_nil]
      omega
    · have := @ih (limit - c.utf8Size) (by simp only [utf8Length] at h; omega)
      simp only [List.length_cons]
      omega

theorem toName_of_long (h : namedatalen ≤ utf8Length x) :
    15 ≤ (toName x).1.length ∧ 15 < x.length := by
  have hclip : (toName x).1 = clip 63 x := by
    rw [toName, dif_neg (Nat.not_lt.mpr h)]
    rfl
  have hlong : 63 < utf8Length x := h
  have := clip_length hlong
  have := @utf8Length_le x
  rw [hclip]
  omega

/-! ## Patterns -/

/-- `LIKE`, for patterns that have neither a percent sign nor a backslash. -/
def like : Chars → Chars → Bool
  | [], [] => true
  | p :: pattern, c :: x => (p == '_' || p == c) && like pattern x
  | _, _ => false

variable {pattern : Chars}

theorem length_of_like (h : like pattern x = true) : x.length = pattern.length := by
  induction pattern, x using like.induct with
  | case1 => rfl
  | case2 p pattern c x ih =>
    simp only [like, Bool.and_eq_true] at h
    simp [ih h.2]
  | case3 pattern x hnil hcons =>
    rw [like] at h
    · cases h
    · exact hnil
    · exact hcons

/-- What is cut off does not matter to a pattern that is short. -/
theorem like_toName (h : pattern.length < 15) : like pattern (toName x).1 = like pattern x := by
  rcases Nat.lt_or_ge (utf8Length x) namedatalen with hx | hx
  · rw [toName_of_short hx]
  · obtain ⟨hname, hlong⟩ := toName_of_long hx
    have hne (y : Chars) (hy : 15 ≤ y.length) : like pattern y = false := by
      by_contra hlike
      have := length_of_like (Bool.not_eq_false _ ▸ hlike)
      omega
    rw [hne _ hname, hne _ hlong.le]

theorem like_wildcards (n : Nat) : like (List.replicate n '_') x = true ↔ x.length = n := by
  induction n generalizing x with
  | zero => cases x <;> simp [like]
  | succ n ih => cases x <;> simp [like, List.replicate_succ, ih]

theorem like_append (h : '_' ∉ y) :
    like (y ++ pattern) x = true ↔ ∃ z, x = y ++ z ∧ like pattern z = true := by
  induction y generalizing x with
  | nil => simp
  | cons c y ih =>
    rw [List.mem_cons, not_or] at h
    cases x with
    | nil => simp [like]
    | cons d x =>
      have hc : (c == '_') = false := by simpa using Ne.symm h.1
      simp only [List.cons_append, like, hc, Bool.false_or, Bool.and_eq_true,
        beq_iff_eq, ih h.2, List.cons.injEq]
      constructor
      · rintro ⟨rfl, z, rfl, hz⟩
        exact ⟨z, ⟨rfl, rfl⟩, hz⟩
      · rintro ⟨z, ⟨rfl, rfl⟩, hz⟩
        exact ⟨rfl, z, rfl, hz⟩

end PgCmdQueue.Postgres
