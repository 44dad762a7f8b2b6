import Mathlib.Data.Finset.Image
import Mathlib.Data.Finset.Max
import Mathlib.Data.List.Basic

/-!
# Escaping with a mark

A text format writes a mark in front of every special element. A backslash is a
constant mark, and doubling an element is a mark equal to the element.
-/

namespace Escape

variable {α : Type*} (special : α → Bool) (mark : α → α)

def escape (xs : List α) : List α :=
  xs.flatMap fun c => if special c then [mark c, c] else [c]

/-- Drops every special element that another one follows, and keeps that other one. -/
def unescape : List α → List α
  | [] => []
  | [c] => [c]
  | c :: d :: rest => if special c then d :: unescape rest else c :: unescape (d :: rest)

variable {special mark} {xs ys : List α} {c : α}

@[simp] theorem escape_nil : escape special mark [] = [] := rfl

theorem escape_cons : escape special mark (c :: xs) =
    (if special c then [mark c, c] else [c]) ++ escape special mark xs := rfl

@[simp] theorem escape_cons_special (h : special c = true) :
    escape special mark (c :: xs) = mark c :: c :: escape special mark xs := by
  simp [escape_cons, h]

@[simp] theorem escape_cons_plain (h : special c = false) :
    escape special mark (c :: xs) = c :: escape special mark xs := by
  simp [escape_cons, h]

theorem escape_append :
    escape special mark (xs ++ ys) = escape special mark xs ++ escape special mark ys :=
  List.flatMap_append

theorem escape_of_plain (h : ∀ c ∈ xs, special c = false) : escape special mark xs = xs := by
  induction xs with
  | nil => rfl
  | cons c xs ih =>
    rw [escape_cons_plain (h c List.mem_cons_self), ih fun d hd => h d (List.mem_cons_of_mem _ hd)]

theorem length_le_escape (special : α → Bool) (mark : α → α) (xs : List α) :
    xs.length ≤ (escape special mark xs).length := by
  induction xs with
  | nil => simp
  | cons c xs ih => cases hc : special c <;> simp [hc] <;> omega

/-- The last element of a text is never a mark. -/
theorem getLast?_escape : (escape special mark xs).getLast? = xs.getLast? := by
  induction xs using List.reverseRecOn with
  | nil => rfl
  | append_singleton xs c _ =>
    rw [escape_append, escape_cons]
    split <;> simp

theorem mem_escape_of_mem (h : c ∈ xs) : c ∈ escape special mark xs := by
  refine List.mem_flatMap.mpr ⟨c, h, ?_⟩
  split <;> simp

theorem mem_escape (h : c ∈ escape special mark xs) : c ∈ xs ∨ ∃ d ∈ xs, c = mark d := by
  obtain ⟨d, hd, hc⟩ := List.mem_flatMap.mp h
  split at hc
  · rcases List.mem_pair.mp hc with rfl | rfl
    · exact .inr ⟨d, hd, rfl⟩
    · exact .inl hd
  · rw [List.mem_singleton.mp hc]
    exact .inl hd

/-- One special element is enough to make the text longer. -/
theorem length_lt_escape (mark : α → α) (hc : c ∈ xs) (hs : special c = true) :
    xs.length < (escape special mark xs).length := by
  induction xs with
  | nil => simp at hc
  | cons d xs ih =>
    rcases List.mem_cons.mp hc with rfl | hc
    · have := length_le_escape special mark xs
      simp [hs]; omega
    · have := ih hc
      cases hd : special d <;> simp [hd] <;> omega

theorem escape_eq_self_iff : escape special mark xs = xs ↔ ∀ c ∈ xs, special c = false := by
  refine ⟨fun h c hc => ?_, escape_of_plain⟩
  cases hs : special c
  · rfl
  · have := length_lt_escape mark hc hs
    rw [h] at this
    omega

/-! ## Reading back -/

theorem unescape_escape (hmark : ∀ c, special c = true → special (mark c) = true) :
    unescape special (escape special mark xs) = xs := by
  induction xs with
  | nil => rfl
  | cons c xs ih =>
    cases hc : special c
    · rw [escape_cons_plain hc]
      cases h : escape special mark xs with
      | nil => rw [h] at ih; simp [unescape, ← ih]
      | cons d rest => rw [h] at ih; simp [unescape, hc, ih]
    · rw [escape_cons_special hc, unescape, if_pos (hmark c hc), ih]

/-- Where one element is doubled and nothing else, a single one ends the text. -/
theorem escape_id_append_inj {q : α} (hq : ∀ c, special c = true ↔ c = q) {r r' : List α}
    (hr : r.head? ≠ some q) (hr' : r'.head? ≠ some q)
    (h : escape special id xs ++ q :: r = escape special id ys ++ q :: r') : xs = ys ∧ r = r' := by
  have hspecial : special q = true := (hq q).mpr rfl
  have hplain : ∀ {c}, c ≠ q → special c = false := fun hc =>
    Bool.eq_false_iff.mpr fun h => hc ((hq _).mp h)
  induction xs generalizing ys with
  | nil =>
    cases ys with
    | nil => simpa using h
    | cons d ys =>
      by_cases hd : d = q
      · subst hd
        simp [hspecial] at h
        simp [h] at hr
      · simp [hplain hd, Ne.symm hd] at h
  | cons c xs ih =>
    cases ys with
    | nil =>
      by_cases hc : c = q
      · subst hc
        simp [hspecial] at h
        simp [← h] at hr'
      · simp [hplain hc, hc] at h
    | cons d ys =>
      by_cases hc : c = q <;> by_cases hd : d = q
      · subst hc hd
        simp only [escape_cons_special hspecial, id_eq, List.cons_append, List.cons.injEq, true_and] at h
        exact ⟨congrArg _ (ih h).1, (ih h).2⟩
      · subst hc
        simp [hspecial, hplain hd, Ne.symm hd] at h
      · subst hd
        simp [hspecial, hplain hc, hc] at h
      · simp only [escape_cons_plain (hplain hc), escape_cons_plain (hplain hd), List.cons_append,
          List.cons.injEq] at h
        obtain ⟨rfl, h⟩ := h
        exact ⟨congrArg _ (ih h).1, (ih h).2⟩

/-- Where the doubled element ends the text, a text that is put there as it is has none. -/
theorem plain_of_escape_id_append {q d : α} (hq : ∀ {c}, special c = true ↔ c = q) (hd : d ≠ q)
    {r r' : List α} (h : escape special id xs ++ q :: r = xs ++ q :: d :: r') :
    ∀ c ∈ xs, special c = false := by
  have hcons (n : Nat) (zs : List α) : List.replicate n q ++ q :: zs = q :: (List.replicate n q ++ zs) := by
    induction n with
    | zero => rfl
    | succ n ih => rw [List.replicate_succ, List.cons_append, ih, List.cons_append]
  -- The doubled text runs ahead by the elements that it has passed, and cannot catch up.
  have hahead (n : Nat) (h : List.replicate n q ++ (escape special id xs ++ q :: r) =
      xs ++ q :: d :: r') : n = 0 ∧ ∀ c ∈ xs, special c = false := by
    clear * - hq hd hcons h
    induction xs generalizing n with
    | nil =>
      cases n with
      | zero => simp
      | succ n => cases n <;> simp [List.replicate_succ, Ne.symm hd] at h
    | cons c xs ih =>
      cases hc : special c
      · cases n with
        | succ n =>
          have : q = c := (List.cons.inj h).1
          simp [← this, hq.mpr] at hc
        | zero =>
          rw [escape_cons_plain hc] at h
          have := (ih 0 (List.cons.inj h).2).2
          simpa [hc] using this
      · obtain rfl := hq.mp hc
        rw [escape_cons_special hc, id, List.cons_append, List.cons_append, hcons, hcons] at h
        have := (ih (n + 1) (List.cons.inj h).2).1
        omega
  exact (hahead 0 h).2

/-! ## Readers that take the marks off as they go -/

/-- An element in front of what a reader has read. Behind it is what the reader leaves. -/
def push {β : Type*} (c : α) (p : List α × β) : List α × β := (c :: p.1, p.2)

/-- A reader that skips a mark, and keeps what the mark is in front of, reads an escaped
text back. -/
theorem read_escape {β : Type*} (read : List α → Option (List α × β)) {rest : List α} {left : β}
    (hspecial : ∀ c rest, special c = true → read (mark c :: c :: rest) = (read rest).map (push c))
    (hplain : ∀ c rest, special c = false → read (c :: rest) = (read rest).map (push c))
    (hend : read rest = some ([], left)) :
    read (escape special mark xs ++ rest) = some (xs, left) := by
  induction xs with
  | nil => exact hend
  | cons c xs ih =>
    cases hc : special c
    · rw [escape_cons_plain hc, List.cons_append, hplain _ _ hc, ih]
      rfl
    · rw [escape_cons_special hc, List.cons_append, List.cons_append, hspecial _ _ hc, ih]
      rfl

/-! ## Sets that escaping maps into themselves -/

/-- Escaping makes a text with a special element longer, so no finite set that it
maps into itself holds such a text. -/
theorem plain_of_escape_mem (K : Finset (List α))
    (hK : ∀ k ∈ K, escape special mark k ∈ K) : ∀ k ∈ K, ∀ c ∈ k, special c = false := by
  by_contra hne
  push Not at hne
  obtain ⟨k, hk, c, hc, hs⟩ := hne
  classical
  let bad := K.filter fun k => ∃ c ∈ k, special c ≠ false
  have hbad : bad.Nonempty := ⟨k, Finset.mem_filter.mpr ⟨hk, c, hc, hs⟩⟩
  -- A longest text of the set with a special element escapes to a longer one.
  obtain ⟨m, hm, hmax⟩ := bad.exists_max_image List.length hbad
  simp only [bad, Finset.mem_filter] at hm hmax
  obtain ⟨hmK, d, hd, hds⟩ := hm
  have hlong := length_lt_escape mark hd (by simpa using hds)
  have := hmax _ ⟨hK m hmK, d, mem_escape_of_mem hd, hds⟩
  omega

end Escape
