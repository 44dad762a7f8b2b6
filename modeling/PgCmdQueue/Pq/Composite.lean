import PgCmdQueue.Postgres.Text
import PgCmdQueue.Pq.Quotes

/-!
# `PQ::from_text_composite_value`

The scanner against PostgreSQL's output of a row. It reads a row back only when no
field of it is quoted.
-/

namespace PgCmdQueue.Pq

open Cpp Postgres

structure CompositeScan where
  depth : Int
  inQuotes : Bool
  startPos : Nat
  endPos : Nat
  result : List (Option Bytes)

/-- What the byte at `i` changes in the position variables. -/
def compositeScanByte (input : Bytes) (i : Nat) (s : CompositeScan) :
    Except CppError CompositeScan := do
  let c ← charAt input i
  if c = ch '(' ∧ ¬ s.inQuotes then
    if s.depth + 1 = 1 then
      return { s with depth := s.depth + 1, startPos := i + 1 }
    else
      return { s with depth := s.depth + 1 }
  else if c = ch ')' ∧ ¬ s.inQuotes then
    if s.depth = 1 ∧ s.endPos = 0 then
      return { s with depth := s.depth - 1, endPos := posBefore i }
    else
      return { s with depth := s.depth - 1 }
  else if c = ch ',' ∧ ¬ s.inQuotes then
    return { s with endPos := posBefore i }
  else if c = ch '"' then
    let before ← charAt input (posBefore i)
    if before ≠ ch '\\' then
      if s.inQuotes then
        return { s with endPos := posBefore i, inQuotes := false }
      else
        return { s with startPos := i + 1, inQuotes := true }
    else
      return s
  else
    return s

/-- One iteration. -/
def compositeScanStep (input : Bytes) (s : CompositeScan) (i : Nat) :
    Except CppError CompositeScan := do
  let s ← compositeScanByte input i s
  if 0 < s.startPos ∧ 0 < s.endPos then
    if s.endPos = s.startPos - 1 then
      return { s with startPos := i + 1, endPos := 0, result := s.result ++ [none] }
    else
      let field ← substrTo input s.startPos s.endPos
      return { s with startPos := i + 1, endPos := 0, result := s.result ++ [some field] }
  else
    return s

/-- The iterations from byte `i` on. -/
def compositeScanFrom (input : Bytes) (i : Nat) (s : CompositeScan) :
    Except CppError (List (Option Bytes)) := do
  let s ← (List.range' i (input.length - i)).foldlM (compositeScanStep input) s
  return s.result

def fromTextCompositeValue (asserts : Bool) (input : Bytes) :
    Except CppError (List (Option Bytes)) := do
  if asserts then
    let first ← charAt input 0
    if first ≠ ch '(' then throw (.assertion "input.at(0) == '('")
    if input.getLast? ≠ some (ch ')') then throw (.assertion "input.back() == ')'")
  compositeScanFrom input 0 ⟨0, false, 0, 0, []⟩

variable {input rest x g : Bytes} {s t : CompositeScan} {i start : Nat} {b c : Byte}
  {result out : List (Option Bytes)} {f : Option Bytes} {fs : List (Option Bytes)}

/-! ## One iteration -/

theorem compositeScanFrom_end (h : input.length ≤ i) : compositeScanFrom input i s = .ok s.result := by
  unfold compositeScanFrom
  rw [Nat.sub_eq_zero_of_le h]
  rfl

theorem compositeScanFrom_step (h : i < input.length) : compositeScanFrom input i s =
    (compositeScanStep input s i).bind (compositeScanFrom input (i + 1)) := by
  unfold compositeScanFrom
  rw [show input.length - i = (input.length - (i + 1)) + 1 by omega, List.range'_succ,
    List.foldlM_cons]
  simp only [bind, Except.bind]
  cases compositeScanStep input s i <;> rfl

/-- A byte that ends no field. -/
theorem compositeScanFrom_skip (hi : i < input.length) (hs : compositeScanByte input i s = .ok t)
    (hend : t.endPos = 0) : compositeScanFrom input i s = compositeScanFrom input (i + 1) t := by
  rw [compositeScanFrom_step hi]
  simp [compositeScanStep, hs, hend, bind, Except.bind, pure, Except.pure]

/-- A byte that ends a field. An empty stretch counts as NULL. -/
theorem compositeScanFrom_push (h : Ahead input start (x ++ rest)) (hstart : 0 < start)
    (hlen : start + x.length ≤ input.length) (hi : i < input.length)
    (hs : compositeScanByte input i s = .ok t) (hts : t.startPos = start)
    (hend : t.endPos = posBefore (start + x.length)) (hpos : 1 < start + x.length) :
    compositeScanFrom input i s = compositeScanFrom input (i + 1)
      ⟨t.depth, t.inQuotes, i + 1, 0, t.result ++ [if x = [] then none else some x]⟩ := by
  have hend' : t.endPos = start + x.length - 1 := by
    rw [hend, posBefore, if_neg (by omega)]
  rw [compositeScanFrom_step hi]
  simp only [compositeScanStep, hs, bind, Except.bind, pure, Except.pure]
  rw [if_pos ⟨by omega, by omega⟩]
  by_cases hx : x = []
  · subst hx
    simp [hend', hts]
  · have := List.length_pos_of_ne_nil hx
    rw [if_neg (by omega), hts, hend, h.substrTo hstart (by omega)]
    simp [hx]

/-- The list of fields only grows. -/
theorem compositeScanStep_grows (h : compositeScanStep input s i = .ok t) :
    s.result <+: t.result := by
  simp only [compositeScanStep, bind, Except.bind] at h
  split at h
  · cases h
  rename_i u hbyte
  have hu : s.result = u.result := by
    simp only [compositeScanByte, bind, Except.bind, pure, Except.pure] at hbyte
    repeat' split at hbyte
    all_goals cases hbyte <;> rfl
  rw [hu]
  split at h
  · split at h
    · cases h
      exact List.prefix_append _ _
    · split at h
      · cases h
      · cases h
        exact List.prefix_append _ _
  · cases h
    exact List.prefix_refl _

theorem compositeScanFrom_grows (h : compositeScanFrom input i s = .ok out) : s.result <+: out := by
  induction hn : input.length - i generalizing i s with
  | zero =>
    rw [compositeScanFrom_end (by omega)] at h
    cases h
    exact List.prefix_refl _
  | succ n ih =>
    rw [compositeScanFrom_step (by omega)] at h
    obtain ⟨t, ht, h⟩ := bind_eq_ok h
    exact (compositeScanStep_grows ht).trans (ih h (by omega))

/-! ## Fields that are not quoted -/

/-- At the start of a field. -/
def atField (i : Nat) (result : List (Option Bytes)) : CompositeScan := ⟨1, false, i, 0, result⟩

def fieldNeedsQuote (f : Option Bytes) : Bool := f.any rowNeedsQuote

theorem bare_row_byte (hx : rowNeedsQuote x = false) (hc : c ∈ x) :
    c ≠ ch '(' ∧ c ≠ ch ')' ∧ c ≠ ch ',' ∧ isSpecial c = false := by
  simp only [rowNeedsQuote, Bool.or_eq_false_iff, List.any_eq_false] at hx
  have := hx.2 c hc
  simp at this
  tauto

theorem bare_row_ne_nil (hx : rowNeedsQuote x = false) : x ≠ [] := by
  rintro rfl
  simp [rowNeedsQuote] at hx

theorem rowField_bare (hx : rowNeedsQuote x = false) : rowField (some x) = x := by
  rw [rowField, if_neg (by simp [hx])]

theorem compositeScanFrom_bare (hx : ∀ c ∈ x, c ≠ ch '(' ∧ c ≠ ch ')' ∧ c ≠ ch ',' ∧
    isSpecial c = false) (h : Ahead input i (x ++ rest)) :
    compositeScanFrom input i (atField start result) =
      compositeScanFrom input (i + x.length) (atField start result) := by
  induction x generalizing i with
  | nil => rfl
  | cons c x ih =>
    rw [List.forall_mem_cons] at hx
    obtain ⟨⟨h1, h2, h3, h4⟩, hx⟩ := hx
    have h5 : c ≠ ch '"' := by
      rintro rfl
      cases h4
    rw [compositeScanFrom_skip (t := atField start result) h.lt ?_ rfl, ih hx h.tail]
    · congr 1
      simp; omega
    · simp [compositeScanByte, h.charAt, atField, h1, h2, h3, h5, bind, Except.bind, pure, Except.pure]

/-- The text of a field that is not quoted, then a comma or the closing parenthesis. -/
theorem compositeScanFrom_field (hf : fieldNeedsQuote f = false) (hi : 0 < i)
    (hfirst : i = 1 → f ≠ none) (hc : c = ch ',' ∨ c = ch ')')
    (h : Ahead input i (rowField f ++ c :: rest)) :
    ∃ depth, compositeScanFrom input i (atField i result) =
      compositeScanFrom input (i + (rowField f).length + 1)
        ⟨depth, false, i + (rowField f).length + 1, 0, result ++ [f]⟩ ∧
      (c = ch ',' → depth = 1) := by
  have hbytes : ∀ d ∈ rowField f, d ≠ ch '(' ∧ d ≠ ch ')' ∧ d ≠ ch ',' ∧ isSpecial d = false := by
    intro d hd
    cases f with
    | none => simp [rowField] at hd
    | some x =>
      have hx : rowNeedsQuote x = false := hf
      rw [rowField_bare hx] at hd
      exact bare_row_byte hx hd
  have hvalue : (if rowField f = [] then none else some (rowField f)) = f := by
    cases f with
    | none => rfl
    | some x =>
      have hx : rowNeedsQuote x = false := hf
      rw [rowField_bare hx, if_neg (bare_row_ne_nil hx)]
  have hpos : 1 < i + (rowField f).length := by
    by_contra hle
    have h0 : rowField f = [] := List.eq_nil_of_length_eq_zero (by omega)
    rw [h0, if_pos rfl] at hvalue
    exact hfirst (by omega) hvalue.symm
  have hsep := h.append
  have hlen := hsep.lt
  rw [compositeScanFrom_bare hbytes h]
  refine ⟨if c = ch ',' then 1 else 0, ?_, by intro hcomma; simp [hcomma]⟩
  rw [compositeScanFrom_push (t := ⟨if c = ch ',' then 1 else 0, false, i,
    posBefore (i + (rowField f).length), result⟩) h hi (by omega) hsep.lt ?_ rfl rfl hpos, hvalue]
  rcases hc with rfl | rfl <;>
    simp +decide [compositeScanByte, hsep.charAt, atField, bind, Except.bind, pure, Except.pure]

/-! ## The first quoted field -/

/-- Inside quotes nothing happens up to the next delimiter. -/
theorem compositeScanFrom_body (hq : s.inQuotes = true) (hend : s.endPos = 0) (hi : i ≠ 0)
    (hb : Before input i b) (hg : delimiters b g = 0) (h : Ahead input i (g ++ rest)) :
    compositeScanFrom input i s = compositeScanFrom input (i + g.length) s := by
  induction g generalizing i b with
  | nil => rfl
  | cons c g ih =>
    rw [delimiters, Nat.add_eq_zero_iff] at hg
    rw [compositeScanFrom_skip (t := s) h.lt ?_ hend,
      ih (by omega) (before_succ h.head) hg.2 h.tail]
    · congr 1
      simp; omega
    · by_cases hc : c = ch '"'
      · have hbs : b = ch '\\' := by simpa [hc] using hg.1
        simp +decide [compositeScanByte, h.charAt, before_charAt hb hi, hq, hc, hbs, bind, Except.bind,
          pure, Except.pure]
      · simp [compositeScanByte, h.charAt, hq, hc, bind, Except.bind, pure, Except.pure]

/-- No backslash doubling makes a double quote where the text has one. -/
theorem not_prefix_backslashes (w : Bytes) (m : Nat) :
    ¬w ++ [ch '"'] <+: List.replicate (m + 1) (ch '\\') ++ escapeDouble w := by
  induction w generalizing m with
  | nil =>
    rw [List.replicate_succ, List.nil_append, List.cons_append, List.cons_prefix_cons]
    simp +decide
  | cons c w ih =>
    rw [List.cons_append, List.replicate_succ, List.cons_append, List.cons_prefix_cons]
    rintro ⟨rfl, h⟩
    have hdouble : List.replicate m (ch '\\') ++ escapeDouble (ch '\\' :: w) =
        List.replicate (m + 1 + 1) (ch '\\') ++ escapeDouble w := by
      rw [escapeDouble, Escape.escape_cons_special isSpecial_backslash]
      simp [List.replicate_succ', escapeDouble]
    rw [hdouble] at h
    exact ih _ h

/-- A field that reads back up to the first delimiter of its text has no byte that is
doubled there. -/
theorem plain_of_first_delimiter (hb : b ≠ ch '\\') (hx : delimiters b x = 0)
    (h : x ++ [ch '"'] <+: escapeDouble x ++ ch '"' :: rest) : ∀ c ∈ x, isSpecial c = false := by
  induction x generalizing b with
  | nil => simp
  | cons d x ih =>
    rw [delimiters, Nat.add_eq_zero_iff] at hx
    have hquote : d ≠ ch '"' := by
      rintro rfl
      simp [hb] at hx
    rw [escapeDouble] at ih h
    by_cases hback : d = ch '\\'
    · subst hback
      rw [Escape.escape_cons_special isSpecial_backslash, List.cons_append, List.cons_append,
        List.cons_prefix_cons] at h
      refine absurd (List.prefix_of_prefix_length_le h.2 (List.prefix_append _ _) ?_)
        (not_prefix_backslashes x 0)
      have := Escape.length_le_escape isSpecial id x
      simp only [List.length_append, List.length_cons, List.length_nil]
      omega
    · have hd : isSpecial d = false := by simp [isSpecial, hquote, hback]
      rw [Escape.escape_cons_plain hd, List.cons_append, List.cons_append, List.cons_prefix_cons] at h
      rw [List.forall_mem_cons]
      exact ⟨hd, ih hback hx.2 h.2⟩

theorem rowField_dquoted (hx : rowNeedsQuote x = true) :
    rowField (some x) = dquoted (escapeDouble x) := by
  rw [rowField, if_pos hx]

theorem length_dquoted (hx : rowNeedsQuote x = true) : 2 ≤ (rowField (some x)).length := by
  simp [rowField_dquoted hx, dquoted]

/-- If a quoted field comes back at all, nothing in it was doubled and its closing quote
is where the scanner starts the next field. -/
theorem compositeScanFrom_quoted (hx : rowNeedsQuote x = true) (hi : 0 < i)
    (hb : Before input i b) (hbne : b ≠ ch '\\') (h : Ahead input i (rowField (some x) ++ rest))
    (hout : compositeScanFrom input i (atField i result) = .ok (result ++ some x :: fs)) :
    compositeScanFrom input (i + (rowField (some x)).length)
      (atField (i + (rowField (some x)).length) (result ++ [some x])) =
        .ok (result ++ some x :: fs) := by
  have hopen : Ahead input i (ch '"' :: (escapeDouble x ++ ch '"' :: rest)) := by
    simpa [rowField_dquoted hx, dquoted] using h
  rw [compositeScanFrom_skip (t := ⟨1, true, i + 1, 0, result⟩) hopen.lt (by
    simp +decide [compositeScanByte, hopen.charAt, before_charAt hb (by omega), hbne, atField, bind,
      Except.bind, pure, Except.pure]) rfl] at hout
  have hbody := hopen.tail
  rcases exists_first_delimiter (ch '"') (escapeDouble x ++ ch '"' :: rest) with
    hnone | ⟨g, tail, hcut, hg, hlast⟩
  · -- The scanner never leaves the quotes.
    have hall : Ahead input (i + 1) (escapeDouble x ++ ch '"' :: rest ++ []) := by
      rwa [List.append_nil]
    rw [compositeScanFrom_body rfl rfl (by omega) (before_succ hopen.head) hnone hall,
      compositeScanFrom_end] at hout
    · simp at hout
    · have := hbody.length (by have := hopen.lt; omega)
      omega
  · rw [hcut] at hbody
    have hclose := hbody.append
    have hbefore := before_append (before_succ hopen.head) hbody
    rw [compositeScanFrom_body rfl rfl (by omega) (before_succ hopen.head) hg hbody,
      compositeScanFrom_push
        (t := ⟨1, false, i + 1, posBefore (i + 1 + g.length), result⟩)
        hbody (by omega) (by have := hclose.lt; omega) hclose.lt (by
          simp +decide [compositeScanByte, hclose.charAt, before_charAt hbefore (by omega), hlast,
            bind, Except.bind, pure, Except.pure]) rfl rfl (by omega)] at hout
    have hgx : (if g = [] then none else some g) = some x := by
      have := compositeScanFrom_grows hout
      rw [List.prefix_append_right_inj, List.cons_prefix_cons] at this
      exact this.1
    obtain rfl : g = x := by
      split at hgx
      · cases hgx
      · exact Option.some.inj hgx
    have hplain := plain_of_first_delimiter (by decide) hg ⟨tail, by rw [hcut]; simp⟩
    have hlen : (rowField (some g)).length = g.length + 2 := by
      rw [rowField_dquoted hx, escapeDouble, Escape.escape_of_plain hplain]
      simp [dquoted]
    rw [hgx] at hout
    rw [hlen, show i + (g.length + 2) = i + 1 + g.length + 1 by omega]
    exact hout

/-! ## Reading back -/

/-- Behind a quoted field the scanner is one NULL ahead, and stays so. -/
theorem compositeScanFrom_ahead (result : List (Option Bytes)) (hfs : fs ≠ []) (hi : 1 < i)
    (h : Ahead input i (joined [ch ','] (fs.map rowField) ++ [ch ')'])) :
    compositeScanFrom input i (atField i (result ++ [none])) ≠ .ok (result ++ fs) := by
  intro hout
  induction fs generalizing i result with
  | nil => exact hfs rfl
  | cons f fs ih =>
    obtain rfl : none = f := by
      have := compositeScanFrom_grows hout
      rw [atField, List.prefix_append_right_inj, List.cons_prefix_cons] at this
      exact this.1
    cases fs with
    | nil =>
      have h : Ahead input i (rowField none ++ [ch ')']) := h
      obtain ⟨depth, hstep, -⟩ := compositeScanFrom_field rfl (by omega) (by omega) (.inr rfl) h
      have := h.append.length (by have := h.append.lt; omega)
      rw [hstep, compositeScanFrom_end (by simpa using this.ge)] at hout
      simpa using congrArg List.length (Except.ok.inj hout)
    | cons f' fs =>
      have h : Ahead input i (rowField none ++ ch ',' ::
          (joined [ch ','] ((f' :: fs).map rowField) ++ [ch ')'])) := by
        simpa [joined] using h
      obtain ⟨depth, hstep, hdepth⟩ :=
        compositeScanFrom_field rfl (by omega) (by omega) (.inl rfl) h
      obtain rfl := hdepth rfl
      rw [hstep] at hout
      rw [show result ++ none :: f' :: fs = result ++ [none] ++ f' :: fs by simp] at hout
      exact ih _ (by simp) (by omega) h.append.tail hout

theorem compositeScanFrom_iff (result : List (Option Bytes)) (hfs : fs ≠ []) (hi : 0 < i) (hfirst : i = 1 → fs.head? ≠ some none)
    (hb : Before input i b) (hbne : b ≠ ch '\\')
    (h : Ahead input i (joined [ch ','] (fs.map rowField) ++ [ch ')'])) :
    compositeScanFrom input i (atField i result) = .ok (result ++ fs) ↔
      ∀ f ∈ fs, fieldNeedsQuote f = false := by
  induction fs generalizing i result b with
  | nil => exact absurd rfl hfs
  | cons f fs ih =>
    rw [List.forall_mem_cons]
    have hf : i = 1 → f ≠ none := by simpa using hfirst
    cases fs with
    | nil =>
      have h : Ahead input i (rowField f ++ [ch ')']) := h
      have hlen := h.append.length (by have := h.append.lt; omega)
      rw [List.length_singleton] at hlen
      cases hq : fieldNeedsQuote f
      · obtain ⟨depth, hstep, -⟩ := compositeScanFrom_field hq hi hf (.inr rfl) h
        rw [hstep, compositeScanFrom_end (by omega)]
        simp
      · obtain _ | x := f
        · cases hq
        have hx : rowNeedsQuote x = true := hq
        have hlong := length_dquoted hx
        simp only [Bool.true_eq_false, false_and, iff_false]
        intro hout
        have hnext := compositeScanFrom_quoted hx hi hb hbne h hout
        obtain ⟨depth, hstep, -⟩ := compositeScanFrom_field (f := none) rfl (by omega)
          (by omega) (.inr rfl) h.append
        have hempty : (rowField none).length = 0 := rfl
        rw [hstep, compositeScanFrom_end (by omega)] at hnext
        simpa using congrArg List.length (Except.ok.inj hnext)
    | cons f' fs =>
      have h : Ahead input i (rowField f ++ ch ',' ::
          (joined [ch ','] ((f' :: fs).map rowField) ++ [ch ')'])) := by
        simpa [joined] using h
      cases hq : fieldNeedsQuote f
      · obtain ⟨depth, hstep, hdepth⟩ := compositeScanFrom_field hq hi hf (.inl rfl) h
        obtain rfl := hdepth rfl
        have := ih (result ++ [f]) (by simp) (by omega)
          (by omega) (before_succ h.append.head) (by decide) h.append.tail
        rw [hstep]
        simpa [atField] using this
      · obtain _ | x := f
        · cases hq
        have hx : rowNeedsQuote x = true := hq
        have hlong := length_dquoted hx
        simp only [Bool.true_eq_false, false_and, iff_false]
        intro hout
        have hnext := compositeScanFrom_quoted hx hi hb hbne h hout
        obtain ⟨depth, hstep, hdepth⟩ := compositeScanFrom_field (f := none) rfl (by omega)
          (by omega) (.inl rfl) h.append
        obtain rfl := hdepth rfl
        rw [hstep] at hnext
        exact compositeScanFrom_ahead (result ++ [some x]) (by simp) (by omega)
          h.append.tail (by simpa [atField, rowField] using hnext)

theorem fromTextCompositeValue_rowOut_iff (x : Bytes) (fs : List (Option Bytes)) (asserts : Bool) :
    fromTextCompositeValue asserts (rowOut (some x :: fs)) = .ok (some x :: fs) ↔
      ∀ f ∈ some x :: fs, fieldNeedsQuote f = false := by
  have h : Ahead (rowOut (some x :: fs)) 0 (rowOut (some x :: fs)) := ahead_zero
  have hscan : fromTextCompositeValue asserts (rowOut (some x :: fs)) =
      compositeScanFrom (rowOut (some x :: fs)) 0 ⟨0, false, 0, 0, []⟩ := by
    have hlast : (rowOut (some x :: fs)).getLast? = some (ch ')') := by
      rw [rowOut, ← List.cons_append, List.getLast?_concat]
    unfold fromTextCompositeValue
    rw [hlast, rowOut]
    cases asserts <;> simp [charAt, bind, Except.bind]
  rw [hscan, compositeScanFrom_skip (t := atField 1 []) h.lt (by
    rw [rowOut]
    simp [compositeScanByte, charAt, atField, bind, Except.bind, pure, Except.pure]) rfl]
  exact compositeScanFrom_iff [] (by simp) (by omega) (by simp)
    (before_succ h.head) (by decide) h.tail

end PgCmdQueue.Pq
