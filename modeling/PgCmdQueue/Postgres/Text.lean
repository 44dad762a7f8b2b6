import PgCmdQueue.Cpp
import PgCmdQueue.Lib.Escape
import Mathlib.Data.List.AList

/-!
# PostgreSQL's text output of arrays, hstores, rows and identifiers

These are assumptions about the server, stated apart from the code that reads
the texts.
-/

namespace PgCmdQueue.Postgres

open Cpp Escape

/-- A double quote or a backslash. -/
def isSpecial (c : Byte) : Bool := c == ch '"' || c == ch '\\'

def isSpace (c : Byte) : Bool :=
  c == 32 || c == 9 || c == 10 || c == 11 || c == 12 || c == 13

/-- A backslash in front of every double quote and backslash. -/
def escapeBackslash (x : Bytes) : Bytes := escape isSpecial (fun _ => ch '\\') x

/-- Every double quote and backslash twice. -/
def escapeDouble (x : Bytes) : Bytes := escape isSpecial id x

def dquoted (body : Bytes) : Bytes := ch '"' :: (body ++ [ch '"'])

def isNullWord (x : Bytes) : Bool := x.map toLower == ascii "null"

def joined (sep : Bytes) : List Bytes → Bytes
  | [] => []
  | [x] => x
  | x :: y :: rest => x ++ (sep ++ joined sep (y :: rest))

/-! ## One-dimensional `text[]` -/

def arrayNeedsQuote (x : Bytes) : Bool :=
  x.isEmpty || isNullWord x || x.any fun c =>
    c == ch '{' || c == ch '}' || c == ch ',' || isSpecial c || isSpace c

def arrayElem (x : Bytes) : Bytes :=
  if arrayNeedsQuote x then dquoted (escapeBackslash x) else x

def arrayOut (xs : List Bytes) : Bytes :=
  ch '{' :: (joined [ch ','] (xs.map arrayElem) ++ [ch '}'])

def arrayElemOrNull : Option Bytes → Bytes
  | none => ascii "NULL"
  | some x => arrayElem x

/-- An array that has NULLs as well. -/
def arrayOutOrNulls (xs : List (Option Bytes)) : Bytes :=
  ch '{' :: (joined [ch ','] (xs.map arrayElemOrNull) ++ [ch '}'])

/-! ## `hstore` -/

/-- A map from text to nullable text, its pairs in the order they are written. -/
abbrev Hstore := AList fun _ : Bytes => Option Bytes

def hstoreToken (x : Bytes) : Bytes := dquoted (escapeBackslash x)

def hstoreValue : Option Bytes → Bytes
  | none => ascii "NULL"
  | some v => hstoreToken v

def hstorePair (p : Σ _ : Bytes, Option Bytes) : Bytes :=
  hstoreToken p.1 ++ (ascii "=>" ++ hstoreValue p.2)

def hstoreOut (m : Hstore) : Bytes := joined (ascii ", ") (m.entries.map hstorePair)

/-! ## Rows -/

def rowNeedsQuote (x : Bytes) : Bool :=
  x.isEmpty || x.any fun c =>
    isSpecial c || c == ch '(' || c == ch ')' || c == ch ',' || isSpace c

def rowField : Option Bytes → Bytes
  | none => []
  | some x => if rowNeedsQuote x then dquoted (escapeDouble x) else x

def rowOut (fields : List (Option Bytes)) : Bytes :=
  ch '(' :: (joined [ch ','] (fields.map rowField) ++ [ch ')'])

/-! ## `quote_ident` -/

def isIdentStart (c : Byte) : Bool := (ch 'a' ≤ c && c ≤ ch 'z') || c == ch '_'

def isIdentByte (c : Byte) : Bool := isIdentStart c || (ch '0' ≤ c && c ≤ ch '9')

/-- `reserved` stands for the server's keyword list. -/
def identIsSafe (reserved : Bytes → Bool) (x : Bytes) : Bool :=
  x.head?.any isIdentStart && x.all isIdentByte && !reserved x

def isDquote (c : Byte) : Bool := c == ch '"'

def quoteIdent (reserved : Bytes → Bool) (x : Bytes) : Bytes :=
  if identIsSafe reserved x then x else dquoted (escape isDquote id x)

def classIdentity (reserved : Bytes → Bool) (nspname relname : Bytes) : Bytes :=
  quoteIdent reserved nspname ++ ch '.' :: quoteIdent reserved relname

/-! ## Facts that the decoders use -/

variable {c : Byte} {x : Bytes}

theorem isSpecial_backslash : isSpecial (ch '\\') = true := rfl

theorem isSpecial_iff : isSpecial c = true ↔ c = ch '"' ∨ c = ch '\\' := by
  simp [isSpecial]

/-- A text that the scanner of arrays runs over without a stop. -/
def Bare (x : Bytes) : Prop :=
  x ≠ [] ∧ ∀ c ∈ x, c ≠ ch '{' ∧ c ≠ ch '}' ∧ c ≠ ch ',' ∧ c ≠ ch '"' ∧ c ≠ ch '\\'

theorem bare_null : Bare (ascii "NULL") := by
  refine ⟨by simp [ascii], ?_⟩
  show ∀ c ∈ [ch 'N', ch 'U', ch 'L', ch 'L'], _
  simp only [List.forall_mem_cons, List.not_mem_nil, false_implies, implies_true, and_true]
  decide

theorem bare_of_needsQuote (hx : arrayNeedsQuote x = false) : Bare x := by
  refine ⟨?_, ?_⟩
  · rintro rfl
    simp [arrayNeedsQuote] at hx
  · intro c hc
    simp only [arrayNeedsQuote, Bool.or_eq_false_iff, List.any_eq_false] at hx
    have := hx.2 c hc
    simp [isSpecial] at this
    tauto

/-- An element is quoted or bare, and a NULL is a bare word. -/
theorem arrayElemOrNull_cases (f : Option Bytes) :
    arrayElemOrNull f = dquoted (escapeBackslash (f.getD (ascii "NULL"))) ∨
      (arrayElemOrNull f = f.getD (ascii "NULL") ∧ Bare (f.getD (ascii "NULL"))) := by
  cases f with
  | none => exact .inr ⟨rfl, bare_null⟩
  | some x =>
    cases hx : arrayNeedsQuote x
    · exact .inr ⟨by simp [arrayElemOrNull, arrayElem, hx], bare_of_needsQuote hx⟩
    · exact .inl (by simp [arrayElemOrNull, arrayElem, hx])

/-! ## Qualified names are unambiguous -/

variable {reserved : Bytes → Bool} {y r r' : Bytes}

theorem quoteIdent_safe (h : identIsSafe reserved x = true) : quoteIdent reserved x = x := by
  rw [quoteIdent, if_pos h]

theorem quoteIdent_quoted (h : identIsSafe reserved x = false) :
    quoteIdent reserved x = dquoted (escape isDquote id x) := by
  rw [quoteIdent, if_neg (by simp [h])]

theorem safe_byte (h : identIsSafe reserved x = true) (hc : c ∈ x) : isIdentByte c = true := by
  simp only [identIsSafe, Bool.and_eq_true, List.all_eq_true] at h
  exact h.1.2 c hc

theorem safe_not_mem (h : identIsSafe reserved x = true) (hc : isIdentByte c = false) : c ∉ x := by
  intro hmem
  rw [safe_byte h hmem] at hc
  cases hc

theorem safe_cons (h : identIsSafe reserved x = true) :
    ∃ c rest, x = c :: rest ∧ c ≠ ch '"' := by
  cases x with
  | nil => simp [identIsSafe] at h
  | cons c rest =>
    refine ⟨c, rest, rfl, ?_⟩
    rintro rfl
    exact safe_not_mem h (by decide) List.mem_cons_self

theorem append_cons_inj (hx : c ∉ x) (hy : c ∉ y) (h : x ++ c :: r = y ++ c :: r') :
    x = y ∧ r = r' := by
  induction x generalizing y with
  | nil =>
    cases y with
    | nil => simpa using h
    | cons d y =>
      obtain ⟨rfl, -⟩ := List.cons.inj h
      simp at hy
  | cons d x ih =>
    rw [List.mem_cons, not_or] at hx
    cases y with
    | nil => exact absurd (List.cons.inj h).1.symm hx.1
    | cons e y =>
      rw [List.mem_cons, not_or] at hy
      obtain ⟨rfl, htail⟩ := List.cons.inj h
      obtain ⟨rfl, hr⟩ := ih hx.2 hy.2 htail
      exact ⟨rfl, hr⟩

/-- A dot ends a quoted identifier, and a safe one has none. -/
theorem quoteIdent_append_inj
    (h : quoteIdent reserved x ++ ch '.' :: r = quoteIdent reserved y ++ ch '.' :: r') :
    x = y ∧ r = r' := by
  cases hx : identIsSafe reserved x <;> cases hy : identIsSafe reserved y
  · rw [quoteIdent_quoted hx, quoteIdent_quoted hy] at h
    simp only [dquoted, List.cons_append, List.cons.injEq, true_and, List.append_assoc] at h
    have := escape_id_append_inj (q := ch '"') (by simp [isDquote]) (by simp +decide)
      (by simp +decide) h
    simpa using this
  · obtain ⟨c, rest, rfl, hc⟩ := safe_cons hy
    rw [quoteIdent_quoted hx, quoteIdent_safe hy] at h
    exact absurd (List.cons.inj h).1.symm hc
  · obtain ⟨c, rest, rfl, hc⟩ := safe_cons hx
    rw [quoteIdent_safe hx, quoteIdent_quoted hy] at h
    exact absurd (List.cons.inj h).1 hc
  · rw [quoteIdent_safe hx, quoteIdent_safe hy] at h
    have hdot : isIdentByte (ch '.') = false := by decide
    exact append_cons_inj (safe_not_mem hx hdot) (safe_not_mem hy hdot) h

theorem classIdentity_inj {nspname relname nspname' relname' : Bytes}
    (h : classIdentity reserved nspname relname = classIdentity reserved nspname' relname') :
    nspname = nspname' ∧ relname = relname' := by
  obtain ⟨hnsp, hrel⟩ := quoteIdent_append_inj h
  exact ⟨hnsp, (quoteIdent_append_inj (congrArg (· ++ [ch '.']) hrel)).1⟩

end PgCmdQueue.Postgres
