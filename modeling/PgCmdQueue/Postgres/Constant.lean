import PgCmdQueue.Lib.Printf
import PgCmdQueue.Postgres.Text

/-!
# Constants in SQL

How `libpq` writes them, and how the server reads them with `standard_conforming_strings` on.
These are assumptions, like the texts of arrays and rows.
-/

namespace PgCmdQueue.Postgres

open Cpp Decimal Escape Printf

/-- A reader leaves what it has not read. -/
abbrev Reader := StateT Bytes Option

variable {α β : Type} {c : Byte} {x rest text : Bytes} {escapes : Bool}

theorem bind_eq_of_read {p : Reader α} {f : α → Reader β} {a : α} (h : p text = some (a, rest)) :
    (p >>= f) text = f a rest := by
  show (p text).bind _ = _
  rw [h]
  rfl

theorem read_of_bind {p : Reader α} {f : α → Reader β} {r : β × Bytes}
    (h : (p >>= f) text = some r) : ∃ a rest, p text = some (a, rest) ∧ f a rest = some r := by
  obtain ⟨⟨a, rest⟩, hp, hf⟩ := Option.bind_eq_some_iff.mp h
  exact ⟨a, rest, hp, hf⟩

/-- The text that has to stand here. -/
def skip (fixed : Bytes) : Reader Unit := fun text =>
  if fixed.isPrefixOf text then some ((), text.drop fixed.length) else none

theorem skip_append (fixed rest : Bytes) : skip fixed (fixed ++ rest) = some ((), rest) := by
  simp [skip]

/-! ## Strings -/

def isQuote (c : Byte) : Bool := c == ch '\''

/-- What is doubled. In a constant that starts with an `E`, backslashes are escapes as well. -/
def isStringSpecial (escapes : Bool) (c : Byte) : Bool := isQuote c || (escapes && c == ch '\\')

def stringBody (escapes : Bool) (x : Bytes) : Bytes :=
  escape (isStringSpecial escapes) id x ++ [ch '\'']

/-- `PQescapeLiteral`. -/
def escapeLiteral (x : Bytes) : Bytes :=
  if ch '\\' ∈ x then ascii " E'" ++ stringBody true x else ascii "'" ++ stringBody false x

/-- The value of a constant, from behind its opening quote. Escapes that `libpq` does not write
are left out. -/
def stringIn (escapes : Bool) : Bytes → Option (Bytes × Bytes)
  | [] => none
  | [c] => if c = ch '\'' then some ([], []) else none
  | c :: d :: rest =>
    if c = ch '\'' then
      if d = ch '\'' then (stringIn escapes rest).map (push d) else some ([], d :: rest)
    else if escapes ∧ c = ch '\\' then
      if d = ch '\'' ∨ d = ch '\\' then (stringIn escapes rest).map (push d) else none
    else (stringIn escapes (d :: rest)).map (push c)

theorem stringIn_end (h : rest.head? ≠ some (ch '\'')) :
    stringIn escapes (ch '\'' :: rest) = some ([], rest) := by
  cases rest with
  | nil => rfl
  | cons d rest =>
    have hd : d ≠ ch '\'' := fun hd => h (congrArg some hd)
    simp [stringIn, hd]

theorem isStringSpecial_iff : isStringSpecial escapes c = true ↔
    c = ch '\'' ∨ (escapes = true ∧ c = ch '\\') := by
  simp [isStringSpecial, isQuote]

theorem isStringSpecial_false_iff : isStringSpecial false c = true ↔ c = ch '\'' := by
  simp [isStringSpecial_iff]

theorem stringIn_plain (h : isStringSpecial escapes c = false) :
    stringIn escapes (c :: rest) = (stringIn escapes rest).map (push c) := by
  rw [Bool.eq_false_iff, Ne, isStringSpecial_iff, not_or] at h
  cases rest with
  | nil => simp [stringIn, h.1]
  | cons d rest => simp only [stringIn, if_neg h.1, if_neg h.2]

theorem stringIn_special (h : isStringSpecial escapes c = true) :
    stringIn escapes (c :: c :: rest) = (stringIn escapes rest).map (push c) := by
  rcases isStringSpecial_iff.mp h with rfl | ⟨rfl, rfl⟩
  · simp [stringIn]
  · simp +decide [stringIn]

theorem stringIn_body (h : rest.head? ≠ some (ch '\'')) :
    stringIn escapes (stringBody escapes x ++ rest) = some (x, rest) := by
  rw [stringBody, List.append_assoc]
  apply read_escape (stringIn escapes)
  · intro c rest hc
    exact stringIn_special hc
  · intro c rest hc
    exact stringIn_plain hc
  · exact stringIn_end h

/-- What `PQescapeLiteral` can write. -/
def textIn : Reader Bytes := fun text =>
  if (ascii " E'").isPrefixOf text then stringIn true (text.drop 3)
  else if (ascii "'").isPrefixOf text then stringIn false (text.drop 1)
  else none

theorem textIn_escapeLiteral (h : rest.head? ≠ some (ch '\'')) :
    textIn (escapeLiteral x ++ rest) = some (x, rest) := by
  unfold escapeLiteral
  split
  · exact stringIn_body h
  · exact stringIn_body h

/-- Nothing but the text with its quotes doubled is read as the text. -/
theorem of_stringIn (h : stringIn false text = some (x, rest)) :
    text = stringBody false x ++ rest ∧ rest.head? ≠ some (ch '\'') := by
  induction text using stringIn.induct false generalizing x with
  | case1 => cases h
  | case2 =>
    cases h
    simp [stringBody]
  | case3 c hc => simp [stringIn, hc] at h
  | case4 rest' ih =>
    simp only [stringIn, if_true, Option.map_eq_some_iff] at h
    obtain ⟨⟨y, left⟩, hy, heq⟩ := h
    cases heq
    obtain ⟨rfl, hrest⟩ := ih hy
    exact ⟨by simp +decide [stringBody, isStringSpecial], hrest⟩
  | case5 d rest' hd =>
    simp only [stringIn, if_true, if_neg hd] at h
    cases h
    simp [stringBody, hd]
  | case6 c d rest' hc hescape => simp at hescape
  | case7 c d rest' hc hescape => simp at hescape
  | case8 c d rest' hc hescape ih =>
    simp only [stringIn, if_neg hc, if_neg hescape, Option.map_eq_some_iff] at h
    obtain ⟨⟨y, left⟩, hy, heq⟩ := h
    cases heq
    obtain ⟨htail, hrest⟩ := ih hy
    have hplain : isStringSpecial false c = false := by simpa [isStringSpecial, isQuote] using hc
    exact ⟨by simp [stringBody, hplain, htail], hrest⟩

/-- A text that has a quote, put between quotes as it is, is not what is read. -/
theorem quote_not_mem_of_stringIn {tail : Bytes} (hc : c ≠ ch '\'')
    (h : stringIn false (x ++ ch '\'' :: c :: tail) = some (x, rest)) : ch '\'' ∉ x := by
  obtain ⟨htext, -⟩ := of_stringIn h
  rw [stringBody, List.append_assoc, List.singleton_append] at htext
  intro hmem
  have := plain_of_escape_id_append isStringSpecial_false_iff hc htext.symm _ hmem
  simp [isStringSpecial_false_iff.mpr] at this

/-! ## Names -/

/-- An identifier in quotes, from behind the opening one. -/
def quotedIdentIn : Bytes → Option (Bytes × Bytes)
  | [] => none
  | [c] => if c = ch '"' then some ([], []) else none
  | c :: d :: rest =>
    if c = ch '"' then
      if d = ch '"' then (quotedIdentIn rest).map (push d) else some ([], d :: rest)
    else (quotedIdentIn (d :: rest)).map (push c)

/-- Capitals are not folded here, and the keywords are not looked up. -/
def identIn : Reader Bytes
  | [] => none
  | c :: rest =>
    if c = ch '"' then quotedIdentIn rest
    else if isIdentStart c then
      some ((c :: rest).takeWhile isIdentByte, (c :: rest).dropWhile isIdentByte)
    else none

def classIn : Reader (Bytes × Bytes) := do
  let nspname ← identIn
  skip (ascii ".")
  return (nspname, ← identIn)

theorem quotedIdentIn_escape (h : rest.head? ≠ some (ch '"')) :
    quotedIdentIn (escape isDquote id x ++ ch '"' :: rest) = some (x, rest) := by
  apply read_escape quotedIdentIn
  · intro c rest hc
    obtain rfl : c = ch '"' := by simpa [isDquote] using hc
    simp [quotedIdentIn]
  · intro c rest hc
    have hc : c ≠ ch '"' := by simpa [isDquote] using hc
    cases rest <;> simp [quotedIdentIn, hc]
  · cases rest with
    | nil => rfl
    | cons d rest =>
      have hd : d ≠ ch '"' := fun hd => h (congrArg some hd)
      simp [quotedIdentIn, hd]

theorem takeWhile_append_cons {p : Byte → Bool} (rest : Bytes) (h : ∀ c ∈ x, p c = true) (hc : p c = false) :
    (x ++ c :: rest).takeWhile p = x ∧ (x ++ c :: rest).dropWhile p = c :: rest := by
  constructor
  · rw [List.takeWhile_append_of_pos h, List.takeWhile_cons_of_neg (by simp [hc]), List.append_nil]
  · rw [List.dropWhile_append_of_pos h, List.dropWhile_cons_of_neg (by simp [hc])]

theorem identIn_quoteIdent {reserved : Bytes → Bool} (hrest : rest.head? = some c)
    (hc : isIdentByte c = false) (hq : c ≠ ch '"') :
    identIn (quoteIdent reserved x ++ rest) = some (x, rest) := by
  obtain ⟨rest, rfl⟩ := List.head?_eq_some_iff.mp hrest
  cases hsafe : identIsSafe reserved x
  · rw [quoteIdent_quoted hsafe, dquoted, List.cons_append, List.append_assoc, identIn, if_pos rfl]
    apply quotedIdentIn_escape
    simpa using hq
  · rw [quoteIdent_safe hsafe]
    obtain ⟨htake, hdrop⟩ := takeWhile_append_cons rest (fun d => safe_byte hsafe) hc
    obtain ⟨d, y, rfl, hd⟩ := safe_cons hsafe
    have hstart : isIdentStart d = true := by
      simp only [identIsSafe, List.head?_cons, Option.any_some, Bool.and_eq_true] at hsafe
      exact hsafe.1.1
    rw [List.cons_append] at htake hdrop ⊢
    rw [identIn, if_neg hd, if_pos hstart, htake, hdrop]

theorem classIn_classIdentity {reserved : Bytes → Bool} {nspname relname : Bytes}
    (hrest : rest.head? = some c) (hc : isIdentByte c = false) (hq : c ≠ ch '"') :
    classIn (classIdentity reserved nspname relname ++ rest) = some ((nspname, relname), rest) := by
  have hdot (text : Bytes) : skip (ascii ".") (ch '.' :: text) = some ((), text) := skip_append _ _
  rw [classIdentity, List.append_assoc, List.cons_append, classIn,
    bind_eq_of_read (identIn_quoteIdent rfl (by decide) (by decide)), bind_eq_of_read (hdot _),
    bind_eq_of_read (identIn_quoteIdent hrest hc hq)]
  rfl

/-! ## Bytes -/

def hexDigit (d : Nat) : Byte := (ascii "0123456789abcdef").getD d 0

def hexValue (c : Byte) : Option Nat := (ascii "0123456789abcdef").idxOf? (toLower c)

/-- `PQescapeByteaConn`. -/
def escapeByteaConn (x : Bytes) : Bytes :=
  ascii "\\x" ++ x.flatMap fun c => [hexDigit (c.toNat / 16), hexDigit (c.toNat % 16)]

def hexIn : Bytes → Option Bytes
  | [] => some []
  | [_] => none
  | c :: d :: rest => do
    let high ← hexValue c
    let low ← hexValue d
    return (16 * high + low).toUInt8 :: (← hexIn rest)

/-- The escape format, which has no `x` behind the backslash, is left out. -/
def byteaIn (text : Bytes) : Option Bytes :=
  if (ascii "\\x").isPrefixOf text then hexIn (text.drop 2) else none

theorem hexValue_hexDigit : ∀ d < 16, hexValue (hexDigit d) = some d := by decide +kernel

theorem byteaIn_escapeByteaConn (x : Bytes) : byteaIn (escapeByteaConn x) = some x := by
  have hhex : hexIn (x.flatMap fun c => [hexDigit (c.toNat / 16), hexDigit (c.toNat % 16)]) = some x := by
    induction x with
    | nil => rfl
    | cons c x ih =>
      have hc := c.toNat_lt
      have hbyte : (16 * (c.toNat / 16) + c.toNat % 16).toUInt8 = c := by
        rw [Nat.div_add_mod]
        simp
      rw [List.flatMap_cons, List.cons_append, List.cons_append, List.nil_append, hexIn,
        hexValue_hexDigit _ (by omega), hexValue_hexDigit _ (by omega), ih]
      show some (_ :: x) = _
      rw [hbyte]
  show hexIn _ = _
  exact hhex

/-- A constant of type `bytea`, from behind its opening quote. -/
def byteaConstantIn : Reader Bytes := fun text =>
  (stringIn false text).bind fun (x, rest) => (byteaIn x).map (·, rest)

theorem hexDigit_ne : ∀ d < 16, hexDigit d ≠ 0 ∧ isQuote (hexDigit d) = false := by decide +kernel

theorem mem_escapeByteaConn (h : c ∈ escapeByteaConn x) : c ≠ 0 ∧ isQuote c = false := by
  rcases List.mem_append.mp h with h | h
  · have hfixed : ∀ c ∈ ascii "\\x", c ≠ 0 ∧ isQuote c = false := by decide +kernel
    exact hfixed c h
  · obtain ⟨d, -, h⟩ := List.mem_flatMap.mp h
    have hd := d.toNat_lt
    rcases List.mem_pair.mp h with rfl | rfl
    · exact hexDigit_ne _ (by omega)
    · exact hexDigit_ne _ (by omega)

theorem byteaConstantIn_escapeByteaConn (h : rest.head? ≠ some (ch '\'')) :
    byteaConstantIn (escapeByteaConn x ++ ch '\'' :: rest) = some (x, rest) := by
  have hplain : escape (isStringSpecial false) id (escapeByteaConn x) = escapeByteaConn x :=
    escape_of_plain fun c hc => by simp [isStringSpecial, (mem_escapeByteaConn hc).2]
  have hbody : stringIn false (escapeByteaConn x ++ ch '\'' :: rest) = some (escapeByteaConn x, rest) := by
    have : stringIn false (stringBody false (escapeByteaConn x) ++ rest) = _ := stringIn_body h
    rwa [stringBody, hplain, List.append_assoc] at this
  rw [byteaConstantIn, hbody, Option.bind_some]
  show (byteaIn (escapeByteaConn x)).map _ = _
  rw [byteaIn_escapeByteaConn]
  rfl

/-! ## Numbers -/

/-- Digits, and digits behind a point if there is one. -/
def numeralIn (text : Bytes) : Option ℚ :=
  let whole := text.takeWhile isDigit
  match whole, text.dropWhile isDigit with
  | [], _ => none
  | _, [] => some (value whole)
  | _, c :: fraction =>
    if c = ch '.' ∧ fraction.all isDigit then some (value whole + value fraction / 10 ^ fraction.length)
    else none

/-- `float8in` of a number that is written without an exponent. Doubles are rationals here. -/
def float8In (text : Bytes) : Option ℚ :=
  if text.head? = some (ch '-') then (numeralIn text.tail).map (- ·) else numeralIn text

def int4In (text : Bytes) : Option Int :=
  let digits := if text.head? = some (ch '-') then text.tail else text
  if digits ≠ [] ∧ digits.all isDigit then
    some (if text.head? = some (ch '-') then -value digits else value digits)
  else none

def isNumberByte (c : Byte) : Bool := isDigit c || c == ch '-' || c == ch '.'

/-- A number is read as far as it goes. -/
def numberIn (read : Bytes → Option α) : Reader α := fun text =>
  (read (text.takeWhile isNumberByte)).map (·, text.dropWhile isNumberByte)

def nullableIn (read : Reader α) : Reader (Option α) := fun text =>
  if (ascii "NULL").isPrefixOf text then some (none, text.drop 4)
  else (read text).map fun (a, rest) => (some a, rest)

theorem numberIn_append {read : Bytes → Option α} {a : α} (hx : ∀ d ∈ x, isNumberByte d = true)
    (hrest : rest.head? = some c) (hc : isNumberByte c = false) (h : read x = some a) :
    numberIn read (x ++ rest) = some (a, rest) := by
  obtain ⟨rest, rfl⟩ := List.head?_eq_some_iff.mp hrest
  obtain ⟨htake, hdrop⟩ := takeWhile_append_cons rest hx hc
  rw [numberIn, htake, hdrop, h]
  rfl

theorem isNumberByte_of_isDigit (h : isDigit c = true) : isNumberByte c = true := by
  simp [isNumberByte, h]

theorem isNumberByte_decimal {n : Nat} : ∀ c ∈ decimal n, isNumberByte c = true :=
  fun _ hc => isNumberByte_of_isDigit (digits_decimal hc)

theorem isNumberByte_fixedPoint {q : ℚ} : ∀ c ∈ fixedPoint q, isNumberByte c = true := by
  intro c hc
  simp only [fixedPoint, List.mem_append, List.mem_cons, List.mem_replicate] at hc
  rcases hc with (hc | hc) | rfl | ⟨-, rfl⟩ | hc
  · split at hc
    · rw [List.mem_singleton] at hc
      rw [hc]
      decide
    · cases hc
  · exact isNumberByte_decimal c hc
  · decide
  · decide
  · exact isNumberByte_decimal c hc

theorem isNumberByte_decimalInt {i : Int} : ∀ c ∈ decimalInt i, isNumberByte c = true := by
  intro c hc
  simp only [decimalInt, List.mem_append] at hc
  rcases hc with hc | hc
  · split at hc
    · rw [List.mem_singleton] at hc
      rw [hc]
      decide
    · cases hc
  · exact isNumberByte_decimal c hc

theorem head?_decimal (n : Nat) (text : Bytes) : (decimal n ++ text).head? ≠ some (ch '-') := by
  obtain ⟨c, y, hy⟩ := List.exists_cons_of_ne_nil (decimal_ne_nil n)
  have hc : isDigit c = true := digits_decimal (hy ▸ List.mem_cons_self)
  rw [hy, List.cons_append, List.head?_cons]
  rintro ⟨rfl⟩
  revert hc
  decide

theorem int4In_decimalInt (i : Int) : int4In (decimalInt i) = some i := by
  have hdigits : (decimal i.natAbs).all isDigit = true := List.all_eq_true.mpr fun c => digits_decimal
  have hne := decimal_ne_nil i.natAbs
  have hhead : (decimal i.natAbs).head? ≠ some (ch '-') := by simpa using head?_decimal i.natAbs []
  by_cases hi : i < 0
  · simp [decimalInt, int4In, hi, hne, hdigits, abs_of_neg hi]
  · simp [decimalInt, int4In, hi, hne, hdigits, hhead, abs_of_nonneg (not_lt.mp hi)]

theorem numeralIn_point {n : Nat} {fraction : Bytes} (h : ∀ c ∈ fraction, isDigit c = true) :
    numeralIn (decimal n ++ ch '.' :: fraction) =
      some ((n : ℚ) + (value fraction : ℚ) / 10 ^ fraction.length) := by
  obtain ⟨htake, hdrop⟩ := @takeWhile_append_cons (ch '.') (decimal n) isDigit fraction
    (fun c => digits_decimal) (by decide)
  obtain ⟨c, y, hy⟩ := List.exists_cons_of_ne_nil (decimal_ne_nil n)
  have hvalue := value_decimal n
  rw [hy] at htake hdrop hvalue ⊢
  rw [numeralIn, htake, hdrop]
  simp only [hvalue]
  rw [if_pos ⟨trivial, List.all_eq_true.mpr h⟩]

/-- What six digits leave of a number is read. -/
theorem float8In_fixedPoint (q : ℚ) : ∃ v, float8In (fixedPoint q) = some v := by
  have hfraction (n m : Nat) : ∀ c ∈ List.replicate m (ch '0') ++ decimal n, isDigit c = true := by
    intro c hc
    rcases List.mem_append.mp hc with hc | hc
    · rw [(List.mem_replicate.mp hc).2]
      decide
    · exact digits_decimal hc
  unfold float8In fixedPoint
  by_cases hq : q < 0
  · simp only [hq, if_true, List.cons_append, List.nil_append, List.head?_cons, List.tail_cons]
    rw [numeralIn_point (hfraction _ _)]
    exact ⟨_, rfl⟩
  · simp only [hq, if_false, List.nil_append, if_neg (head?_decimal _ _)]
    rw [numeralIn_point (hfraction _ _)]
    exact ⟨_, rfl⟩

end PgCmdQueue.Postgres
