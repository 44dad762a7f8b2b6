import PgCmdQueue.Postgres.Text
import Mathlib.Data.Finmap
import Mathlib.Data.List.DropRight

/-!
# PostgreSQL's text input of arrays, rows and hstores

Assumptions about the server once more. A parameter in text format is a C string, so
nothing behind a NUL is read.
-/

namespace PgCmdQueue.Postgres

open Cpp Escape

def skipSpaces (text : Bytes) : Bytes := text.dropWhile isSpace

def expect (c : Byte) : Bytes → Option Bytes
  | [] => none
  | d :: rest => if d = c then some rest else none

variable {c d : Byte} {x rest left : Bytes}

theorem skipSpaces_cons (h : isSpace c = false) : skipSpaces (c :: rest) = c :: rest := by
  rw [skipSpaces, List.dropWhile_cons_of_neg (by simp [h])]

theorem expect_self : expect c (c :: rest) = some rest := by
  rw [expect, if_pos rfl]

/-- Up to the closing double quote. The byte behind a backslash is always text. -/
def quotedIn : Bytes → Option (Bytes × Bytes)
  | [] => none
  | c :: rest =>
    if c = ch '"' then some ([], rest)
    else if c = ch '\\' then
      match rest with
      | [] => none
      | d :: rest => (quotedIn rest).map (push d)
    else (quotedIn rest).map (push c)

theorem quotedIn_plain (hc : isSpecial c = false) :
    quotedIn (c :: rest) = (quotedIn rest).map (push c) := by
  simp only [isSpecial, Bool.or_eq_false_iff, beq_eq_false_iff_ne] at hc
  -- The recursion looks one byte ahead, so it unfolds only where that byte is known.
  cases rest <;> exact (if_neg hc.1).trans (if_neg hc.2)

theorem quotedIn_backslash : quotedIn (ch '\\' :: c :: rest) = (quotedIn rest).map (push c) := rfl

/-- A text with its quotes is read up to the closing one. -/
theorem quotedIn_escape : quotedIn (escapeBackslash x ++ ch '"' :: rest) = some (x, rest) := by
  apply read_escape quotedIn
  · intro c rest _
    exact quotedIn_backslash
  · intro c rest hc
    exact quotedIn_plain hc
  · cases rest <;> rfl

/-! ## One-dimensional `text[]` -/

/-- An element without quotes. Each byte is marked if a backslash stood in front of it. -/
def arrayBareIn : Bytes → Option (List (Byte × Bool) × Bytes)
  | [] => none
  | c :: rest =>
    if c = ch ',' ∨ c = ch '}' then some ([], c :: rest)
    else if c = ch '{' ∨ c = ch '"' then none
    else if c = ch '\\' then
      match rest with
      | [] => none
      | d :: rest => (arrayBareIn rest).map (push (d, true))
    else (arrayBareIn rest).map (push (c, false))

/-- Spaces at the end are no part of a bare element, which cannot be empty. -/
def arrayBareElement (marked : List (Byte × Bool)) : Option (Option Bytes) :=
  let kept := marked.rdropWhile fun p => isSpace p.1 && !p.2
  if kept = [] then none
  else if kept.all (!·.2) && isNullWord (kept.map (·.1)) then some none
  else some (some (kept.map (·.1)))

def arrayElementIn : Bytes → Option (Option Bytes × Bytes)
  | [] => none
  | c :: rest =>
    if c = ch '"' then (quotedIn rest).map fun p => (some p.1, p.2)
    else (arrayBareIn (c :: rest)).bind fun p => (arrayBareElement p.1).map (·, p.2)

theorem arrayBareIn_end (hc : c = ch ',' ∨ c = ch '}') :
    arrayBareIn (c :: rest) = some ([], c :: rest) := by
  cases rest <;> exact if_pos hc

theorem arrayBareIn_plain (hend : ¬(c = ch ',' ∨ c = ch '}')) (hopen : ¬(c = ch '{' ∨ c = ch '"'))
    (hc : c ≠ ch '\\') : arrayBareIn (c :: rest) = (arrayBareIn rest).map (push (c, false)) := by
  cases rest <;> exact (if_neg hend).trans ((if_neg hopen).trans (if_neg hc))

theorem arrayElementIn_null (hc : c = ch ',' ∨ c = ch '}') :
    arrayElementIn (ascii "NULL" ++ c :: rest) = some (none, c :: rest) := by
  have hbare : arrayBareIn (ascii "NULL" ++ c :: rest) =
      some ((ascii "NULL").map (·, false), c :: rest) := by
    simp +decide [ascii, arrayBareIn_plain, arrayBareIn_end hc, push]
  show (arrayBareIn (ascii "NULL" ++ c :: rest)).bind _ = _
  rw [hbare]
  rfl

theorem arrayElementIn_quoted :
    arrayElementIn (dquoted (escapeBackslash x) ++ rest) = some (some x, rest) := by
  rw [dquoted, List.cons_append, List.append_assoc, arrayElementIn, if_pos rfl,
    List.singleton_append, quotedIn_escape]
  rfl

def arrayElementsIn : Nat → Bytes → Option (List (Option Bytes) × Bytes)
  | 0, _ => none
  | n + 1, text =>
    (arrayElementIn (skipSpaces text)).bind fun p =>
      match skipSpaces p.2 with
      | [] => none
      | c :: rest =>
        if c = ch ',' then (arrayElementsIn n rest).map (push p.1)
        else if c = ch '}' then some ([p.1], rest)
        else none

def arrayBodyIn (text : Bytes) : Option (List (Option Bytes) × Bytes) :=
  match expect (ch '}') (skipSpaces text) with
  | some rest => some ([], rest)
  | none => arrayElementsIn text.length text

def arrayIn (text : Bytes) : Option (List (Option Bytes)) := do
  let body ← expect (ch '{') (skipSpaces (cStr text))
  let (elements, rest) ← arrayBodyIn body
  if skipSpaces rest = [] then some elements else none

/-! ## Rows -/

/-- Up to the comma or parenthesis that ends the column. Inside quotes a double quote
can be written as two. -/
def recordTextIn : Bytes → Bool → Option (Bytes × Bytes)
  | [], _ => none
  | c :: rest, inquote =>
    if ¬ inquote ∧ (c = ch ',' ∨ c = ch ')') then some ([], c :: rest)
    else if c = ch '\\' then
      match rest with
      | [] => none
      | d :: rest => (recordTextIn rest inquote).map (push d)
    else if c = ch '"' then
      match rest with
      | [] => none
      | d :: rest' =>
        if inquote ∧ d = ch '"' then (recordTextIn rest' true).map (push d)
        else recordTextIn (d :: rest') (!inquote)
    else (recordTextIn rest inquote).map (push c)

theorem recordTextIn_end (hc : c = ch ',' ∨ c = ch ')') :
    recordTextIn (c :: rest) false = some ([], c :: rest) := by
  cases rest <;> exact if_pos ⟨nofun, hc⟩

theorem recordTextIn_plain {inquote : Bool} (hc : isSpecial c = false)
    (hend : inquote = true ∨ ¬(c = ch ',' ∨ c = ch ')')) :
    recordTextIn (c :: rest) inquote = (recordTextIn rest inquote).map (push c) := by
  simp only [isSpecial, Bool.or_eq_false_iff, beq_eq_false_iff_ne] at hc
  have hgo : ¬(¬inquote ∧ (c = ch ',' ∨ c = ch ')')) := fun h => hend.elim h.1 (· h.2)
  cases rest <;> exact (if_neg hgo).trans ((if_neg hc.2).trans (if_neg hc.1))

theorem recordTextIn_backslash {inquote : Bool} :
    recordTextIn (ch '\\' :: c :: rest) inquote = (recordTextIn rest inquote).map (push c) := by
  cases inquote <;> rfl

theorem recordTextIn_open :
    recordTextIn (ch '"' :: c :: rest) false = recordTextIn (c :: rest) true := rfl

theorem recordTextIn_close (hd : d ≠ ch '"') :
    recordTextIn (ch '"' :: d :: rest) true = recordTextIn (d :: rest) false := by
  have hclose : ¬(true = true ∧ d = ch '"') := fun h => hd h.2
  exact (if_neg (by decide)).trans ((if_neg (by decide)).trans ((if_pos rfl).trans (if_neg hclose)))

/-- In quotes, a text is read as far as what comes behind the closing quote allows. -/
theorem recordTextIn_escape (hnext : recordTextIn (ch '"' :: rest) true = some ([], left)) :
    recordTextIn (escapeBackslash x ++ ch '"' :: rest) true = some (x, left) := by
  apply read_escape (recordTextIn · true)
  · intro c rest _
    exact recordTextIn_backslash
  · intro c rest hc
    exact recordTextIn_plain hc (.inl rfl)
  · exact hnext

/-- Nothing at all is a NULL. Any other text is text. -/
def recordColumnIn : Bytes → Option (Option Bytes × Bytes)
  | [] => none
  | c :: rest =>
    if c = ch ',' ∨ c = ch ')' then some (none, c :: rest)
    else (recordTextIn (c :: rest) false).map fun p => (some p.1, p.2)

/-- To a row, the bare word is a text as good as any other. -/
theorem recordColumnIn_nullWord (hc : c = ch ',' ∨ c = ch ')') :
    recordColumnIn (ascii "NULL" ++ c :: rest) = some (some (ascii "NULL"), c :: rest) := by
  have htext : recordTextIn (ascii "NULL" ++ c :: rest) false = some (ascii "NULL", c :: rest) := by
    simp +decide [ascii, recordTextIn_plain, recordTextIn_end hc, push]
  show (recordTextIn (ascii "NULL" ++ c :: rest) false).map _ = _
  rw [htext]
  rfl

theorem recordColumnIn_quoted (hc : c = ch ',' ∨ c = ch ')') :
    recordColumnIn (dquoted (escapeBackslash x) ++ c :: rest) = some (some x, c :: rest) := by
  have hclose : recordTextIn (ch '"' :: c :: rest) true = some ([], c :: rest) := by
    have hne : c ≠ ch '"' := by rcases hc with rfl | rfl <;> decide
    rw [recordTextIn_close hne, recordTextIn_end hc]
  have hopen : ∀ text, text ≠ [] → recordTextIn (ch '"' :: text) false = recordTextIn text true := by
    intro text htext
    cases text with
    | nil => exact absurd rfl htext
    | cons d text => exact recordTextIn_open
  rw [dquoted, List.cons_append, List.append_assoc, recordColumnIn, if_neg (by decide),
    List.singleton_append, hopen _ (by simp), recordTextIn_escape hclose]
  rfl

def recordColumnsIn : Nat → Bool → Bytes → Option (List (Option Bytes) × Bytes)
  | 0, _, text => some ([], text)
  | n + 1, needComma, text => do
    let text ← if needComma then expect (ch ',') text else some text
    let (column, text) ← recordColumnIn text
    (recordColumnsIn n true text).map (push column)

/-- A row of a type with `ncolumns` columns. -/
def recordIn (ncolumns : Nat) (text : Bytes) : Option (List (Option Bytes)) := do
  let text ← expect (ch '(') (skipSpaces (cStr text))
  let (columns, text) ← recordColumnsIn ncolumns false text
  let text ← expect (ch ')') text
  if skipSpaces text = [] then some columns else none

/-! ## `hstore` -/

/-- A word without quotes: a key ends before `=`, a value before a comma. -/
def hstoreBareIn (isValue : Bool) : Bytes → Option (Bytes × Bytes)
  | [] => some ([], [])
  | c :: rest =>
    if c = ch '\\' then
      match rest with
      | [] => none
      | d :: rest => (hstoreBareIn isValue rest).map (push d)
    else if c = (if isValue then ch ',' else ch '=') ∨ isSpace c then some ([], c :: rest)
    else (hstoreBareIn isValue rest).map (push c)

/-- A word, and if it starts with a double quote or a backslash. -/
def hstoreWordIn (isValue : Bool) : Bytes → Option ((Bytes × Bool) × Bytes)
  | [] => none
  | c :: rest =>
    if c = ch '"' then (quotedIn rest).map fun p => ((p.1, true), p.2)
    else if c = ch '=' ∧ ¬ isValue then none
    else if c = ch '\\' then
      (hstoreBareIn isValue (c :: rest)).map fun p => ((p.1, true), p.2)
    else (hstoreBareIn isValue rest).map fun p => ((c :: p.1, false), p.2)

def hstoreValueIn (word : Bytes × Bool) : Option Bytes :=
  if !word.2 && isNullWord word.1 then none else some word.1

def hstorePairIn (text : Bytes) : Option ((Σ _ : Bytes, Option Bytes) × Bytes) := do
  let (key, text) ← hstoreWordIn false text
  let text ← expect (ch '=') (skipSpaces text)
  let text ← expect (ch '>') text
  let (value, text) ← hstoreWordIn true (skipSpaces text)
  some (⟨key.1, hstoreValueIn value⟩, text)

theorem hstoreWordIn_quoted {isValue : Bool} :
    hstoreWordIn isValue (dquoted (escapeBackslash x) ++ rest) = some ((x, true), rest) := by
  rw [dquoted, List.cons_append, List.append_assoc, hstoreWordIn, if_pos rfl, List.singleton_append,
    quotedIn_escape]
  rfl

theorem hstoreBareIn_end (hrest : ∀ c ∈ rest.head?, c = ch ',') :
    hstoreBareIn true rest = some ([], rest) := by
  cases rest with
  | nil => rfl
  | cons c rest =>
    obtain rfl : c = ch ',' := hrest c rfl
    cases rest <;> rfl

theorem hstoreBareIn_plain (hslash : c ≠ ch '\\') (hcomma : c ≠ ch ',') (hspace : isSpace c = false) :
    hstoreBareIn true (c :: rest) = (hstoreBareIn true rest).map (push c) := by
  have hgo : ¬(c = ch ',' ∨ isSpace c = true) := by simp [hcomma, hspace]
  cases rest <;> exact (if_neg hslash).trans (if_neg hgo)

/-- The value `NULL`, up to a comma or the end. -/
theorem hstoreWordIn_null (hrest : ∀ c ∈ rest.head?, c = ch ',') :
    hstoreWordIn true (ascii "NULL" ++ rest) = some ((ascii "NULL", false), rest) := by
  have hbare : hstoreBareIn true (ascii "ULL" ++ rest) = some (ascii "ULL", rest) := by
    simp +decide [ascii, hstoreBareIn_plain, hstoreBareIn_end hrest, push]
  show (hstoreBareIn true (ascii "ULL" ++ rest)).map _ = _
  rw [hbare]
  rfl

def hstorePairsIn : Nat → Bytes → Option (List (Σ _ : Bytes, Option Bytes))
  | 0, _ => none
  | n + 1, text =>
    if skipSpaces text = [] then some []
    else
      (hstorePairIn (skipSpaces text)).bind fun p =>
        match skipSpaces p.2 with
        | [] => some [p.1]
        | c :: rest => if c = ch ',' then (hstorePairsIn n rest).map (p.1 :: ·) else none

/-- Of two pairs with one key, one is kept. -/
def hstoreIn (text : Bytes) : Option Hstore :=
  (hstorePairsIn ((cStr text).length + 1) (cStr text)).map List.toAList

end PgCmdQueue.Postgres
