import Mathlib.Data.List.Basic

/-!
# Lines of a stream

A line is a stretch without an end, and an end closes it. Empty lines do not count. A reader that
starts afresh at every chunk sees the lines of the whole stream just in case no line is cut.
-/

namespace Lines

variable {α : Type*} (isEnd : α → Bool)

/-- The lines that are closed in a text. `line` is what has been read of the first one. -/
def closed (line : List α) : List α → List (List α)
  | [] => []
  | c :: text =>
    if isEnd c then (if line = [] then [] else [line]) ++ closed [] text else closed (line ++ [c]) text

/-- What is left of the last line. -/
def left (line : List α) : List α → List α
  | [] => line
  | c :: text => if isEnd c then left [] text else left (line ++ [c]) text

/-- No chunk ends within a line that a later one closes. -/
def Whole (chunks : List (List α)) : Prop :=
  chunks.Pairwise fun c d => (∀ x ∈ c.getLast?, isEnd x = true) ∨ ∀ x ∈ d, isEnd x = false

/-- The number of elements that a list of lines has. -/
def size (lines : List (List α)) : Nat := lines.flatten.length

variable {isEnd} {line xs ys : List α} {chunks : List (List α)} {c : α}

@[simp] theorem closed_nil : closed isEnd line [] = [] := rfl

theorem closed_cons : closed isEnd line (c :: xs) = if isEnd c then
    (if line = [] then [] else [line]) ++ closed isEnd [] xs else closed isEnd (line ++ [c]) xs := rfl

@[simp] theorem left_nil : left isEnd line [] = line := rfl

theorem left_cons : left isEnd line (c :: xs) =
    if isEnd c then left isEnd [] xs else left isEnd (line ++ [c]) xs := rfl

theorem closed_append : closed isEnd line (xs ++ ys) =
    closed isEnd line xs ++ closed isEnd (left isEnd line xs) ys := by
  induction xs generalizing line with
  | nil => rfl
  | cons c xs ih =>
    simp only [List.cons_append, closed_cons, left_cons]
    split
    · rw [ih, List.append_assoc]
    · rw [ih]

theorem closed_of_no_end (h : ∀ x ∈ xs, isEnd x = false) : closed isEnd line xs = [] := by
  induction xs generalizing line with
  | nil => rfl
  | cons c xs ih =>
    rw [List.forall_mem_cons] at h
    simp only [closed_cons, h.1, Bool.false_eq_true, if_false]
    exact ih h.2

theorem left_append : left isEnd line (xs ++ ys) = left isEnd (left isEnd line xs) ys := by
  induction xs generalizing line with
  | nil => rfl
  | cons c xs ih =>
    simp only [List.cons_append, left_cons]
    split <;> exact ih

/-- Nothing is left of a chunk that is empty or ends with an end. -/
theorem left_nil_iff : left isEnd [] xs = [] ↔ ∀ x ∈ xs.getLast?, isEnd x = true := by
  rcases List.eq_nil_or_concat xs with rfl | ⟨ys, c, rfl⟩
  · simp
  · rw [List.concat_eq_append, left_append]
    cases hc : isEnd c <;> simp [left_cons, hc]

theorem size_append (l l' : List (List α)) : size (l ++ l') = size l + size l' := by
  simp [size]

/-- What has been read of the first line is part of it as soon as there is an end. -/
theorem size_closed (h : ¬∀ x ∈ xs, isEnd x = false) :
    size (closed isEnd line xs) = line.length + size (closed isEnd [] xs) := by
  induction xs generalizing line with
  | nil => simp at h
  | cons c xs ih =>
    simp only [closed_cons]
    cases hc : isEnd c
    · have hxs : ¬∀ x ∈ xs, isEnd x = false := by simpa [hc] using h
      simp only [Bool.false_eq_true, if_false, List.nil_append]
      rw [ih hxs, @ih [c] hxs, List.length_append]
      omega
    · by_cases hline : line = [] <;> simp [hline, size]

/-- A reader that starts afresh gets no more than the stream has, and as much only if no line is
cut. -/
theorem size_chunks : size (chunks.flatMap (closed isEnd [])) ≤ size (closed isEnd [] chunks.flatten) ∧
    (size (chunks.flatMap (closed isEnd [])) = size (closed isEnd [] chunks.flatten) →
      Whole isEnd chunks) := by
  induction chunks with
  | nil => exact ⟨by simp, fun _ => .nil⟩
  | cons c chunks ih =>
    obtain ⟨hle, heq⟩ := ih
    simp only [List.flatMap_cons, List.flatten_cons, closed_append, size_append]
    by_cases hend : ∀ x ∈ chunks.flatten, isEnd x = false
    · have hleft : size (closed isEnd (left isEnd [] c) chunks.flatten) =
          size (closed isEnd [] chunks.flatten) := by
        rw [closed_of_no_end hend, closed_of_no_end hend]
      refine ⟨by omega, fun h => List.pairwise_cons.mpr ⟨fun d hd => .inr ?_, heq (by omega)⟩⟩
      intro x hx
      exact hend x (List.mem_flatten_of_mem hd hx)
    · rw [size_closed hend]
      refine ⟨by omega, fun h => List.pairwise_cons.mpr ⟨fun d _ => .inl ?_, heq (by omega)⟩⟩
      rw [← left_nil_iff]
      apply List.eq_nil_of_length_eq_zero
      omega

theorem closed_of_whole (h : Whole isEnd chunks) :
    chunks.flatMap (closed isEnd []) = closed isEnd [] chunks.flatten := by
  induction chunks with
  | nil => rfl
  | cons c chunks ih =>
    obtain ⟨hc, hchunks⟩ := List.pairwise_cons.mp h
    rw [List.flatMap_cons, List.flatten_cons, closed_append, ih hchunks]
    congr 1
    by_cases hleft : left isEnd [] c = []
    · rw [hleft]
    · have hend : ∀ x ∈ chunks.flatten, isEnd x = false := by
        intro x hx
        obtain ⟨d, hd, hx⟩ := List.mem_flatten.mp hx
        exact (hc d hd).resolve_left (mt left_nil_iff.mpr hleft) x hx
      rw [closed_of_no_end hend, closed_of_no_end hend]

end Lines
