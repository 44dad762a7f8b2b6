import PgCmdQueue.Postgres.Text

/-!
# `PQ::from_text_array`

The scanner against PostgreSQL's output of a one-dimensional `text[]`.
-/

namespace PgCmdQueue.Pq

open Cpp Postgres

structure ArrayScan where
  i : Nat
  depth : Int
  inQuotes : Bool
  startPos : Nat
  endPos : Nat
  nextStartPos : Nat
  result : List Bytes

/-- What one byte changes in the position variables. -/
def arrayScanByte (input : Bytes) (s : ArrayScan) : Except CppError ArrayScan := do
  let c ← charAt input s.i
  if c = ch '{' ∧ ¬ s.inQuotes then
    if s.depth + 1 = 1 then
      return { s with depth := s.depth + 1, startPos := s.i + 1 }
    else
      return { s with depth := s.depth + 1 }
  else if c = ch '}' ∧ ¬ s.inQuotes then
    if s.depth = 1 ∧ s.endPos = 0 then
      return { s with depth := s.depth - 1, endPos := posBefore s.i, nextStartPos := 0 }
    else
      return { s with depth := s.depth - 1 }
  else if c = ch ',' ∧ ¬ s.inQuotes then
    return { s with endPos := posBefore s.i, nextStartPos := s.i + 1 }
  else if c = ch '"' then
    let before ← charAt input (posBefore s.i)
    if before = ch '\\' then
      return s
    else if s.inQuotes then
      return { s with endPos := posBefore s.i, nextStartPos := s.i + 2, inQuotes := false }
    else
      return { s with startPos := s.i + 1, inQuotes := true }
  else
    return s

/-- The loop. Every iteration moves `i` forward, so as many iterations as there are
bytes are enough. -/
def arrayScanLoop (input : Bytes) : Nat → ArrayScan → Except CppError (List Bytes)
  | 0, s => .ok s.result
  | n + 1, s =>
    if s.i < input.length then do
      let s ← arrayScanByte input s
      if 0 < s.startPos ∧ 0 < s.endPos then
        let t ← substrTo input s.startPos s.endPos
        let result := s.result ++ [t.filter (· ≠ ch '\\')]
        if s.nextStartPos = 0 then
          .ok result
        else
          arrayScanLoop input n { s with
            endPos := 0, startPos := s.nextStartPos, i := s.nextStartPos, result := result }
      else
        arrayScanLoop input n { s with i := s.i + 1 }
    else
      .ok s.result

/-- `asserts` tells a build with assertions from one with `NDEBUG`. -/
def fromTextArray (asserts : Bool) (input : Bytes) : Except CppError (List Bytes) := do
  if asserts then
    let first ← charAt input 0
    if first ≠ ch '{' then throw (.assertion "input.at(0) == '\x7b'")
    if input.getLast? ≠ some (ch '}') then throw (.assertion "input.back() == '\x7d'")
  arrayScanLoop input input.length ⟨0, 0, false, 1, 0, 0, []⟩

example : fromTextArray true (arrayOut [ascii "a", [], ascii "say \"hi\"", ascii "{b,c}"]) =
    .ok [ascii "a", [], ascii "say \"hi\"", ascii "{b,c}"] := by decide

example : fromTextArray true (arrayOut [ascii "C:\\dir"]) = .ok [ascii "C:dir"] := by decide

/-! ## One byte -/

variable {input rest x : Bytes} {s t : ArrayScan} {i n depth start next : Nat} {c : Byte}
  {result : List Bytes}

/-- An iteration that pushes nothing. -/
theorem arrayScanLoop_next (hi : s.i < input.length) (hs : arrayScanByte input s = .ok t)
    (hend : t.endPos = 0) :
    arrayScanLoop input (n + 1) s = arrayScanLoop input n { t with i := t.i + 1 } := by
  simp [arrayScanLoop, hi, hs, hend, bind, Except.bind]

theorem arrayScanByte_bare (h : Ahead input s.i (c :: rest)) (hc : c ≠ ch '{' ∧ c ≠ ch '}' ∧
    c ≠ ch ',' ∧ c ≠ ch '"' ∧ c ≠ ch '\\') : arrayScanByte input s = .ok s := by
  obtain ⟨h1, h2, h3, h4, -⟩ := hc
  simp [arrayScanByte, h.charAt, h1, h2, h3, h4, bind, Except.bind, pure, Except.pure]

theorem arrayScanByte_quoted (h : Ahead input s.i (c :: rest)) (hq : s.inQuotes = true)
    (hc : c ≠ ch '"') : arrayScanByte input s = .ok s := by
  simp [arrayScanByte, h.charAt, hq, hc, bind, Except.bind, pure, Except.pure]

/-- A double quote after a backslash is a byte like any other. -/
theorem arrayScanByte_escaped (h : Ahead input s.i (ch '"' :: rest))
    (hb : charAt input (posBefore s.i) = .ok (ch '\\')) : arrayScanByte input s = .ok s := by
  simp +decide [arrayScanByte, h.charAt, hb, bind, Except.bind, pure, Except.pure]

/-! ## One element -/

theorem arrayScanLoop_bare (hx : ∀ c ∈ x, c ≠ ch '{' ∧ c ≠ ch '}' ∧ c ≠ ch ',' ∧ c ≠ ch '"' ∧
    c ≠ ch '\\') (h : Ahead input i (x ++ rest)) :
    arrayScanLoop input (n + x.length) ⟨i, 1, false, start, 0, next, result⟩ =
      arrayScanLoop input n ⟨i + x.length, 1, false, start, 0, next, result⟩ := by
  induction x generalizing i with
  | nil => rfl
  | cons c x ih =>
    rw [List.forall_mem_cons] at hx
    rw [List.length_cons, ← Nat.add_assoc,
      arrayScanLoop_next h.lt (arrayScanByte_bare h hx.1) rfl]
    refine (ih hx.2 h.tail).trans ?_
    congr 2
    omega

/-- Inside quotes the scanner runs over an element without a backslash: its double
quotes all come after one. -/
theorem arrayScanLoop_quoted (hx : ch '\\' ∉ x) (h : Ahead input i (escapeBackslash x ++ rest)) :
    arrayScanLoop input (n + (escapeBackslash x).length)
        ⟨i, 1, true, start, 0, next, result⟩ =
      arrayScanLoop input n
        ⟨i + (escapeBackslash x).length, 1, true, start, 0, next, result⟩ := by
  induction x generalizing i with
  | nil => rfl
  | cons c x ih =>
    rw [List.mem_cons, not_or] at hx
    by_cases hc : c = ch '"'
    · subst hc
      have he : escapeBackslash (ch '"' :: x) = ch '\\' :: ch '"' :: escapeBackslash x := rfl
      rw [he] at h ⊢
      rw [List.length_cons, List.length_cons, ← Nat.add_assoc, ← Nat.add_assoc,
        arrayScanLoop_next h.lt (arrayScanByte_quoted h rfl (by decide)) rfl,
        arrayScanLoop_next h.tail.lt (arrayScanByte_escaped h.tail h.charAt_posBefore) rfl]
      refine (ih hx.2 h.tail.tail).trans ?_
      congr 2
      omega
    · have he : escapeBackslash (c :: x) = c :: escapeBackslash x :=
        Escape.escape_cons_plain (by simp [isSpecial, hc, Ne.symm hx.1])
      rw [he] at h ⊢
      rw [List.length_cons, ← Nat.add_assoc,
        arrayScanLoop_next h.lt (arrayScanByte_quoted h rfl hc) rfl]
      refine (ih hx.2 h.tail).trans ?_
      congr 2
      omega

/-- Erasing every backslash undoes the escaping and no more than that. -/
theorem filter_escapeBackslash :
    (escapeBackslash x).filter (· ≠ ch '\\') = x.filter (· ≠ ch '\\') := by
  induction x with
  | nil => rfl
  | cons c x ih =>
    rw [escapeBackslash] at ih ⊢
    cases hc : isSpecial c
    · rw [Escape.escape_cons_plain hc, List.filter_cons, ih, List.filter_cons]
    · rw [Escape.escape_cons_special hc, List.filter_cons_of_neg (by simp), List.filter_cons, ih,
        List.filter_cons]

theorem filter_eq_self (hx : ch '\\' ∉ x) : x.filter (· ≠ ch '\\') = x := by
  rw [List.filter_eq_self]
  intro c hc
  simp only [decide_eq_true_eq]
  rintro rfl
  exact hx hc

/-- The iteration that ends an element and moves on. -/
theorem arrayScanLoop_push (hi : s.i < input.length) (hs : arrayScanByte input s = .ok t)
    (hstart : 0 < t.startPos) (hend : 0 < t.endPos) (hnext : t.nextStartPos ≠ 0)
    (ht : substrTo input t.startPos t.endPos = .ok x) :
    arrayScanLoop input (n + 1) s = arrayScanLoop input n
      { t with
        endPos := 0, startPos := t.nextStartPos, i := t.nextStartPos,
        result := t.result ++ [x.filter (· ≠ ch '\\')] } := by
  simp [arrayScanLoop, hi, hs, hstart, hend, hnext, ht, bind, Except.bind]

/-- The iteration that ends the last element. -/
theorem arrayScanLoop_last (hi : s.i < input.length) (hs : arrayScanByte input s = .ok t)
    (hstart : 0 < t.startPos) (hend : 0 < t.endPos) (hnext : t.nextStartPos = 0)
    (ht : substrTo input t.startPos t.endPos = .ok x) :
    arrayScanLoop input (n + 1) s = .ok (t.result ++ [x.filter (· ≠ ch '\\')]) := by
  simp [arrayScanLoop, hi, hs, hstart, hend, hnext, ht, bind, Except.bind]

theorem posBefore_add (h : 0 < i) : posBefore (i + n) = i + n - 1 := by
  rw [posBefore, if_neg (by omega)]

theorem arrayScanLoop_bare_comma (hx : Bare x) (hi : 0 < i)
    (h : Ahead input i (x ++ ch ',' :: rest)) :
    arrayScanLoop input (n + 1 + x.length) ⟨i, 1, false, i, 0, next, result⟩ =
      arrayScanLoop input n ⟨i + x.length + 1, 1, false, i + x.length + 1, 0,
        i + x.length + 1, result ++ [x]⟩ := by
  have hlen := List.length_pos_of_ne_nil hx.1
  have hcomma := h.append
  rw [arrayScanLoop_bare hx.2 h]
  rw [arrayScanLoop_push (x := x) (t := ⟨i + x.length, 1, false, i, posBefore (i + x.length),
    i + x.length + 1, result⟩) hcomma.lt ?_ hi ?_ (by simp) ?_]
  · rw [filter_eq_self fun hmem => (hx.2 _ hmem).2.2.2.2 rfl]
  · simp +decide [arrayScanByte, hcomma.charAt, bind, Except.bind, pure, Except.pure]
  · rw [posBefore_add hi]
    show 0 < i + x.length - 1
    omega
  · exact h.substrTo hi (by have := hcomma.lt; omega)

theorem arrayScanLoop_bare_close (hx : Bare x) (hi : 0 < i)
    (h : Ahead input i (x ++ [ch '}'])) :
    arrayScanLoop input (n + 1 + x.length) ⟨i, 1, false, i, 0, next, result⟩ =
      .ok (result ++ [x]) := by
  have hlen := List.length_pos_of_ne_nil hx.1
  have hclose := h.append
  rw [arrayScanLoop_bare hx.2 h]
  rw [arrayScanLoop_last (x := x) (t := ⟨i + x.length, 0, false, i, posBefore (i + x.length),
    0, result⟩) hclose.lt ?_ hi ?_ rfl ?_]
  · rw [filter_eq_self fun hmem => (hx.2 _ hmem).2.2.2.2 rfl]
  · simp +decide [arrayScanByte, hclose.charAt, bind, Except.bind, pure, Except.pure]
  · rw [posBefore_add hi]
    show 0 < i + x.length - 1
    omega
  · exact h.substrTo hi (by have := hclose.lt; omega)

/-- A quoted element. Its closing quote also skips the byte after it, which is the comma
or the closing brace. -/
theorem arrayScanLoop_dquoted (hx : ch '\\' ∉ x) (hi : 0 < i) {b : Byte}
    (hb : charAt input (posBefore i) = .ok b) (hbne : b ≠ ch '\\')
    (h : Ahead input i (dquoted (escapeBackslash x) ++ rest)) :
    arrayScanLoop input (n + 1 + (escapeBackslash x).length + 1)
        ⟨i, 1, false, start, 0, next, result⟩ =
      arrayScanLoop input n ⟨i + (escapeBackslash x).length + 3, 1, false,
        i + (escapeBackslash x).length + 3, 0, i + (escapeBackslash x).length + 3,
        result ++ [x]⟩ := by
  have hopen : Ahead input i (ch '"' :: (escapeBackslash x ++ (ch '"' :: rest))) := by
    simpa [dquoted] using h
  have hclose := hopen.tail.append
  rw [arrayScanLoop_next (t := ⟨i, 1, true, i + 1, 0, next, result⟩) hopen.lt ?_ rfl]
  · refine (arrayScanLoop_quoted hx hopen.tail).trans ?_
    rw [arrayScanLoop_push (x := escapeBackslash x)
      (t := ⟨i + 1 + (escapeBackslash x).length, 1, false, i + 1,
        posBefore (i + 1 + (escapeBackslash x).length),
        i + 1 + (escapeBackslash x).length + 2, result⟩) hclose.lt ?_ (by simp) ?_ (by simp) ?_]
    · rw [filter_escapeBackslash, filter_eq_self hx]
      simp only [Nat.add_assoc, Nat.add_comm 1, Nat.reduceAdd]
    · -- The byte before the closing quote is the opening one or the last byte of `x`.
      have hlast : ∃ d, charAt input (posBefore (i + 1 + (escapeBackslash x).length)) = .ok d ∧
          d ≠ ch '\\' := by
        cases hd : x.getLast? with
        | none =>
          rw [List.getLast?_eq_none_iff] at hd
          subst hd
          exact ⟨ch '"', hopen.charAt_posBefore, by decide⟩
        | some d =>
          refine ⟨d, hopen.tail.charAt_before (Escape.getLast?_escape.trans hd), ?_⟩
          rintro rfl
          exact hx (List.mem_of_getLast? hd)
      obtain ⟨d, hd, hdne⟩ := hlast
      simp +decide [arrayScanByte, hclose.charAt, hd, hdne, bind, Except.bind, pure, Except.pure]
    · rw [posBefore_add (by omega)]
      show 0 < i + 1 + (escapeBackslash x).length - 1
      omega
    · exact hopen.tail.substrTo (by omega) (by have := hclose.lt; omega)
  · simp +decide [arrayScanByte, hopen.charAt, hb, hbne, bind, Except.bind, pure, Except.pure]

/-! ## The whole text -/

theorem joined_cons_cons {sep y : Bytes} {ys : List Bytes} :
    joined sep (x :: y :: ys) = x ++ (sep ++ joined sep (y :: ys)) := rfl

/-- From the start of an element on, the loop reads all elements that are left. `b` is
the byte in front of the first of them. -/
theorem arrayScanLoop_elems {b : Byte} (xs : List (Option Bytes)) (hxs : xs ≠ [])
    (hplain : ∀ f ∈ xs, ch '\\' ∉ f.getD (ascii "NULL")) (hi : 0 < i)
    (hb : charAt input (posBefore i) = .ok b) (hbne : b ≠ ch '\\')
    (h : Ahead input i (joined [ch ','] (xs.map arrayElemOrNull) ++ [ch '}']))
    (hn : input.length ≤ i + n) :
    arrayScanLoop input n ⟨i, 1, false, i, 0, next, result⟩ =
      .ok (result ++ xs.map (·.getD (ascii "NULL"))) := by
  induction xs generalizing i n next result b with
  | nil => exact absurd rfl hxs
  | cons f xs ih =>
    rw [List.forall_mem_cons] at hplain
    obtain ⟨x, hx⟩ : ∃ x, x = f.getD (ascii "NULL") := ⟨_, rfl⟩
    have helem := arrayElemOrNull_cases f
    rw [← hx] at hplain helem
    cases xs with
    | nil =>
      have hlast : Ahead input i (arrayElemOrNull f ++ [ch '}']) := h
      have hlen := hlast.append.length (by have := hlast.append.lt; omega)
      simp only [List.length_singleton] at hlen
      rw [List.map_singleton, ← hx]
      rcases helem with hq | ⟨hq, hbare⟩
      · rw [hq] at hlast hlen
        simp only [dquoted, List.length_cons, List.length_append, List.length_nil] at hlen
        obtain ⟨m, rfl⟩ : ∃ m, n = m + 1 + (escapeBackslash x).length + 1 :=
          ⟨n - (escapeBackslash x).length - 2, by omega⟩
        rw [arrayScanLoop_dquoted hplain.1 hi hb hbne hlast]
        -- The closing brace was skipped, so the loop has come to the end of the text.
        cases m <;> simp [arrayScanLoop]
        omega
      · rw [hq] at hlast hlen
        obtain ⟨m, rfl⟩ : ∃ m, n = m + 1 + x.length := ⟨n - x.length - 1, by omega⟩
        exact arrayScanLoop_bare_close hbare hi hlast
    | cons g xs =>
      have hcons : Ahead input i (arrayElemOrNull f ++ (ch ',' ::
          (joined [ch ','] ((g :: xs).map arrayElemOrNull) ++ [ch '}']))) := by
        simpa [joined_cons_cons] using h
      have hcomma := hcons.append
      have hlen := hcomma.length (by have := hcomma.lt; omega)
      simp only [List.length_cons] at hlen
      have hrest := hcomma.tail
      rw [List.map_cons, ← hx]
      rcases helem with hq | ⟨hq, hbare⟩
      · rw [hq] at hcons
        simp only [hq, dquoted, List.length_cons, List.length_append, List.length_nil]
          at hcomma hlen hrest
        obtain ⟨m, rfl⟩ : ∃ m, n = m + 1 + (escapeBackslash x).length + 1 :=
          ⟨n - (escapeBackslash x).length - 2, by omega⟩
        rw [arrayScanLoop_dquoted hplain.1 hi hb hbne hcons]
        have hnext : i + ((escapeBackslash x).length + (0 + 1) + 1) + 1 =
            i + (escapeBackslash x).length + 3 := by omega
        rw [hnext] at hrest
        rw [ih (by simp) hplain.2 (by omega) (by rw [← hnext]; exact hcomma.charAt_posBefore)
          (by decide) hrest (by omega)]
        simp
      · rw [hq] at hcons hcomma hlen hrest
        obtain ⟨m, rfl⟩ : ∃ m, n = m + 1 + x.length := ⟨n - x.length - 1, by omega⟩
        rw [arrayScanLoop_bare_comma hbare hi hcons]
        rw [ih (by simp) hplain.2 (by omega) hcomma.charAt_posBefore (by decide) hrest (by omega)]
        simp

theorem joined_array_ne_nil {xs : List (Option Bytes)} (hxs : xs ≠ []) :
    joined [ch ','] (xs.map arrayElemOrNull) ≠ [] := by
  have hne : ∀ f, arrayElemOrNull f ≠ [] := by
    intro f
    rcases arrayElemOrNull_cases f with hq | ⟨hq, hbare⟩
    · simp [hq, dquoted]
    · rw [hq]
      exact hbare.1
  rcases xs with - | ⟨f, - | ⟨g, xs⟩⟩
  · exact absurd rfl hxs
  · exact hne f
  · simp [joined, hne f]

/-- Without a backslash in any element the decoder gives the list back, with the word for
every NULL. -/
theorem fromTextArray_arrayOutOrNulls (asserts : Bool) (xs : List (Option Bytes))
    (hplain : ∀ f ∈ xs, ch '\\' ∉ f.getD (ascii "NULL")) :
    fromTextArray asserts (arrayOutOrNulls xs) = .ok (xs.map (·.getD (ascii "NULL"))) := by
  have hloop : arrayScanLoop (arrayOutOrNulls xs) (arrayOutOrNulls xs).length
      ⟨0, 0, false, 1, 0, 0, []⟩ = .ok (xs.map (·.getD (ascii "NULL"))) := by
    have hopen : Ahead (arrayOutOrNulls xs) 0
        (ch '{' :: (joined [ch ','] (xs.map arrayElemOrNull) ++ [ch '}'])) := ahead_zero
    have hlen := hopen.length (by simp)
    simp only [List.length_cons, List.length_append, List.length_nil] at hlen
    rw [← hlen, show 0 + ((joined [ch ','] (xs.map arrayElemOrNull)).length + (0 + 1) + 1) =
      (joined [ch ','] (xs.map arrayElemOrNull)).length + 1 + 1 by omega]
    rw [arrayScanLoop_next (t := ⟨0, 1, false, 1, 0, 0, []⟩) hopen.lt ?_ rfl]
    · by_cases hxs : xs = []
      · subst hxs; rfl
      · have hpos := List.length_pos_of_ne_nil (joined_array_ne_nil hxs)
        exact arrayScanLoop_elems xs hxs hplain (by omega) hopen.charAt_posBefore (by decide)
          hopen.tail (by omega)
    · simp +decide [arrayScanByte, hopen.charAt, bind, Except.bind, pure, Except.pure]
  cases asserts
  · simpa [fromTextArray, bind, Except.bind] using hloop
  · have hfirst : charAt (arrayOutOrNulls xs) 0 = .ok (ch '{') := rfl
    have hback : (arrayOutOrNulls xs).getLast? = some (ch '}') := by
      rw [arrayOutOrNulls, ← List.cons_append, List.getLast?_append]
      rfl
    simpa [fromTextArray, hfirst, hback, bind, Except.bind] using hloop

theorem arrayOutOrNulls_map_some (xs : List Bytes) : arrayOutOrNulls (xs.map some) = arrayOut xs := by
  rw [arrayOutOrNulls, arrayOut, List.map_map]
  rfl

theorem fromTextArray_arrayOut (asserts : Bool) (xs : List Bytes)
    (hplain : ∀ x ∈ xs, ch '\\' ∉ x) : fromTextArray asserts (arrayOut xs) = .ok xs := by
  have hread := fromTextArray_arrayOutOrNulls asserts (xs.map some) (by simpa using hplain)
  rw [arrayOutOrNulls_map_some, List.map_map] at hread
  rw [hread]
  exact congrArg _ (List.map_id xs)

theorem arrayScanByte_result (h : arrayScanByte input s = .ok t) : t.result = s.result := by
  simp only [arrayScanByte, bind, Except.bind, pure, Except.pure] at h
  repeat' split at h
  all_goals cases h
  all_goals rfl

/-- Whatever the text is, no element that comes out has a backslash. -/
theorem arrayScanLoop_no_backslash {out : List Bytes} (hs : ∀ x ∈ s.result, ch '\\' ∉ x)
    (h : arrayScanLoop input n s = .ok out) : ∀ x ∈ out, ch '\\' ∉ x := by
  induction n generalizing s with
  | zero => obtain rfl := Except.ok.inj h; exact hs
  | succ n ih =>
    simp only [arrayScanLoop, bind, Except.bind] at h
    split at h
    · split at h
      · exact nomatch h
      rename_i t hbyte
      rw [← arrayScanByte_result hbyte] at hs
      split at h
      · split at h
        · exact nomatch h
        rename_i sub _
        have hpush : ∀ x ∈ t.result ++ [sub.filter (· ≠ ch '\\')], ch '\\' ∉ x := by
          intro x hx
          rcases List.mem_append.mp hx with hx | hx
          · exact hs x hx
          · rw [List.mem_singleton] at hx
            simp [hx]
        split at h
        · obtain rfl := Except.ok.inj h; exact hpush
        · exact ih hpush h
      · refine ih ?_ h
        exact hs
    · obtain rfl := Except.ok.inj h; exact hs

theorem fromTextArray_no_backslash {asserts : Bool} {out : List Bytes}
    (h : fromTextArray asserts input = .ok out) : ∀ x ∈ out, ch '\\' ∉ x := by
  have hloop : arrayScanLoop input input.length ⟨0, 0, false, 1, 0, 0, []⟩ = .ok out := by
    simp only [fromTextArray, bind, Except.bind] at h
    repeat' split at h
    all_goals first
      | exact h
      | cases h
  exact arrayScanLoop_no_backslash (by simp) hloop

/-! ## Failed assertions -/

theorem noAbort_arrayScanByte : NoAbort (arrayScanByte input s) := by
  refine noAbort_bind (noAbort_charAt _ _) fun c => ?_
  repeat' split
  all_goals first
    | exact noAbort_ok _
    | refine noAbort_bind (noAbort_charAt _ _) fun before => ?_
  repeat' split
  all_goals exact noAbort_ok _

theorem noAbort_arrayScanLoop : NoAbort (arrayScanLoop input n s) := by
  induction n generalizing s with
  | zero => exact noAbort_ok _
  | succ n ih =>
    unfold arrayScanLoop
    split
    · refine noAbort_bind noAbort_arrayScanByte fun t => ?_
      split
      · refine noAbort_bind (noAbort_substrTo _ _ _) fun sub => ?_
        dsimp only
        split
        · exact noAbort_ok _
        · exact ih
      · exact ih
    · exact noAbort_ok _

/-- Only a text that is not in braces aborts the daemon. -/
theorem fromTextArray_abort_iff (asserts : Bool) (input : Bytes) :
    (∃ expr, fromTextArray asserts input = .error (.assertion expr)) ↔ asserts = true ∧ input ≠ [] ∧
      (input.head? ≠ some (ch '{') ∨ input.getLast? ≠ some (ch '}')) := by
  unfold fromTextArray
  cases asserts
  · simp only [Bool.false_eq_true, if_false, false_and, iff_false, not_exists]
    exact noAbort_arrayScanLoop
  · cases input with
    | nil => simp [charAt, bind, Except.bind]
    | cons c rest =>
      by_cases hc : c = ch '{'
      · by_cases hl : (c :: rest).getLast? = some (ch '}')
        · simp only [hc] at hl
          simp [charAt, bind, Except.bind, hc, hl]
          exact noAbort_arrayScanLoop
        · simp only [hc] at hl
          simp [charAt, bind, Except.bind, hc, hl, throw, throwThe, MonadExceptOf.throw]
      · simp [charAt, bind, Except.bind, hc, throw, throwThe, MonadExceptOf.throw]

end PgCmdQueue.Pq
