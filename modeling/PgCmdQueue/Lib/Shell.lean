import PgCmdQueue.Cpp
import Mathlib.Data.List.Infix

/-!
# What a POSIX shell reads

The tokens of a text, and the pipeline that they make if it is one of simple commands whose words
are not expanded. For any other text nothing is read here.
-/

namespace Shell

open PgCmdQueue

/-- The bytes of a word without its quotes, and for each whether it was quoted. -/
abbrev Word := List (Byte × Bool)

def Word.bytes (w : Word) : Bytes := w.map (·.1)

def unquoted (x : Bytes) : Word := x.map (·, false)

def quoted (x : Bytes) : Word := x.map (·, true)

inductive Token where
  | word (w : Word)
  | operator (c : Byte)
  deriving DecidableEq

/-! ## Tokens -/

/-- What the next byte is behind, or in. -/
inductive Quoting where
  | plain
  | backslash
  | single
  | double
  | doubleBackslash
  | comment
  deriving DecidableEq

/-- `word` is the word that has been started. -/
structure Scan where
  quoting : Quoting := .plain
  word : Option Word := none
  deriving DecidableEq

def isBlank (c : Byte) : Bool := c == 32 || c == 9

/-- The first bytes of operators. A longer operator counts as several. -/
def isOperator (c : Byte) : Bool :=
  c == ch '|' || c == ch '&' || c == ch ';' || c == ch '<' || c == ch '>' || c == ch '(' ||
    c == ch ')' || c == 10

def startsExpansion (c : Byte) : Bool := c == ch '$' || c == ch '\x60'

def Scan.push (s : Scan) (quoting : Quoting) (c : Byte) (isQuoted : Bool) : Scan :=
  ⟨quoting, some (s.word.getD [] ++ [(c, isQuoted)])⟩

def Scan.ended (s : Scan) : List Token := (s.word.map Token.word).toList

/-- One byte: the tokens that it ends. -/
def Scan.next (s : Scan) (c : Byte) : Option (List Token × Scan) :=
  match s.quoting with
  | .plain =>
    if c = ch '\\' then some ([], ⟨.backslash, s.word⟩)
    else if c = ch '\'' then some ([], ⟨.single, some (s.word.getD [])⟩)
    else if c = ch '"' then some ([], ⟨.double, some (s.word.getD [])⟩)
    else if startsExpansion c then none
    else if isBlank c then some (s.ended, {})
    else if isOperator c then some (s.ended ++ [.operator c], {})
    else if c = ch '#' ∧ s.word = none then some ([], ⟨.comment, none⟩)
    else some ([], s.push .plain c false)
  | .backslash =>
    -- A line that is continued.
    if c = 10 then some ([], ⟨.plain, s.word⟩) else some ([], s.push .plain c true)
  | .single =>
    if c = ch '\'' then some ([], ⟨.plain, s.word⟩) else some ([], s.push .single c true)
  | .double =>
    if c = ch '"' then some ([], ⟨.plain, s.word⟩)
    else if c = ch '\\' then some ([], ⟨.doubleBackslash, s.word⟩)
    else if startsExpansion c then none
    else some ([], s.push .double c true)
  | .doubleBackslash =>
    if c = 10 then some ([], ⟨.double, s.word⟩)
    else if startsExpansion c ∨ c = ch '"' ∨ c = ch '\\' then some ([], s.push .double c true)
    else some ([], (s.push .double (ch '\\') true).push .double c true)
  | .comment => if c = 10 then some ([.operator c], {}) else some ([], s)

/-- An open quote or a lone backslash is no end. -/
def Scan.finish (s : Scan) : Option (List Token) :=
  match s.quoting with
  | .plain | .comment => some s.ended
  | _ => none

def Scan.tokens (s : Scan) : Bytes → Option (List Token)
  | [] => s.finish
  | c :: text => (s.next c).bind fun (ended, t) => (t.tokens text).map (ended ++ ·)

/-! ## Words -/

def isNameStart (c : Byte) : Bool :=
  (ch 'a' ≤ c && c ≤ ch 'z') || (ch 'A' ≤ c && c ≤ ch 'Z') || c == ch '_'

def isNameByte (c : Byte) : Bool := isNameStart c || (ch '0' ≤ c && c ≤ ch '9')

def IsName (x : Bytes) : Prop := x.head?.any isNameStart = true ∧ ∀ c ∈ x, isNameByte c = true

instance (x : Bytes) : Decidable (IsName x) := inferInstanceAs (Decidable (_ ∧ _))

/-- The name and the value, if the word is an assignment where there can be one. -/
def Word.assignment (w : Word) : Option (Bytes × Word) :=
  let name := w.takeWhile fun p => !p.2 && isNameByte p.1
  match w.dropWhile fun p => !p.2 && isNameByte p.1 with
  | [] => none
  | (c, q) :: value =>
    if c = ch '=' ∧ q = false ∧ name.head?.any (fun p => isNameStart p.1) = true then
      some (Word.bytes name, value)
    else none

def isUnquoted (c : Byte) (p : Byte × Bool) : Bool := p.1 == c && !p.2

/-- A tilde with no quoted byte up to the first slash or other stop. -/
def Word.tildePrefix (stop : Byte × Bool → Bool) : Word → Bool
  | [] => false
  | p :: rest => isUnquoted (ch '~') p && (rest.takeWhile fun q => !stop q).all fun q => !q.2

def Word.tilde (w : Word) : Bool := w.tildePrefix (isUnquoted (ch '/'))

/-- In the value of an assignment, a colon stops a prefix and starts another. -/
def Word.assignmentTilde (w : Word) : Bool :=
  let prefixed := Word.tildePrefix fun p => isUnquoted (ch '/') p || isUnquoted (ch ':') p
  prefixed w || w.tails.any fun
    | [] => false
    | p :: rest => isUnquoted (ch ':') p && prefixed rest

/-- What stands behind a bracket closes it before a slash, and not at once. -/
def Word.closes (w : Word) : Bool :=
  let body := if w.head?.any (isUnquoted (ch '!')) then w.tail else w
  ((body.takeWhile (·.1 != ch '/')).drop 1).any (isUnquoted (ch ']'))

/-- The word stands for the pathnames that match it. -/
def Word.pattern : Word → Bool
  | [] => false
  | p :: rest => isUnquoted (ch '*') p || isUnquoted (ch '?') p ||
    (isUnquoted (ch '[') p && Word.closes rest) || Word.pattern rest

def reservedWords : List Bytes :=
  ["!", "\x7b", "\x7d", "case", "do", "done", "elif", "else", "esac", "fi", "for", "if", "in", "then",
    "until", "while"].map ascii

def Word.reserved (w : Word) : Bool := w.all (!·.2) && reservedWords.contains w.bytes

/-! ## Commands -/

structure SimpleCommand where
  assignments : List (Bytes × Bytes)
  words : List Bytes
  deriving DecidableEq

/-- The assignments in front of the command name, and all that follows them. -/
def splitAssignments : List Word → List (Bytes × Word) × List Word
  | [] => ([], [])
  | w :: ws =>
    match w.assignment with
    | some a => ((a :: (splitAssignments ws).1), (splitAssignments ws).2)
    | none => ([], w :: ws)

/-- A command that is not expanded. -/
def simpleCommand (ws : List Word) : Option SimpleCommand :=
  let (assignments, words) := splitAssignments ws
  if ws = [] ∨ ws.head?.any Word.reserved then none
  else if assignments.any fun a => a.2.assignmentTilde then none
  else if words.any fun w => w.tilde || w.pattern then none
  else some ⟨assignments.map fun a => (a.1, a.2.bytes), words.map Word.bytes⟩

/-- `ws` has the words of the command that has been started. -/
def commands (ws : List Word) : List Token → Option (List SimpleCommand)
  | [] => (simpleCommand ws).map ([·])
  | .word w :: ts => commands (ws ++ [w]) ts
  | .operator c :: ts =>
    if c = ch '|' then do return (← simpleCommand ws) :: (← commands [] ts) else none

def pipeline (text : Bytes) : Option (List SimpleCommand) :=
  (Scan.tokens {} text).bind (commands [])

example : pipeline (ascii "echo 'a b' | A=1 B='c d' wc -l \"it's\"# # all of it") =
    some [⟨[], [ascii "echo", ascii "a b"]⟩,
      ⟨[(ascii "A", ascii "1"), (ascii "B", ascii "c d")], [ascii "wc", ascii "-l", ascii "it's#"]⟩] := by
  decide +kernel

variable {x rest text : Bytes} {c : Byte} {w : Word} {ws : List Word} {ts : List Token} {s : Scan}

/-! ## Bytes that a word can have as they are -/

def isQuoting (c : Byte) : Bool := c == ch '\\' || c == ch '\'' || c == ch '"'

/-- Neither ends a word nor stands for anything else in one. -/
def isOrdinary (c : Byte) : Bool :=
  !(isQuoting c || startsExpansion c || isBlank c || isOperator c)

theorem next_ordinary (hs : s.quoting = .plain) (hc : isOrdinary c = true)
    (hhash : c = ch '#' → s.word ≠ none) : s.next c = some ([], s.push .plain c false) := by
  simp only [isOrdinary, isQuoting, Bool.not_eq_true', Bool.or_eq_false_iff, beq_eq_false_iff_ne] at hc
  obtain ⟨⟨⟨⟨⟨h1, h2⟩, h3⟩, h4⟩, h5⟩, h6⟩ := hc
  unfold Scan.next
  simp only [hs, if_neg h1, if_neg h2, if_neg h3, h4, h5, h6, Bool.false_eq_true, if_false]
  rw [if_neg fun h => hhash h.1 h.2]

theorem tokens_ordinary (hx : ∀ c ∈ x, isOrdinary c = true) :
    Scan.tokens ⟨.plain, some w⟩ (x ++ rest) = Scan.tokens ⟨.plain, some (w ++ unquoted x)⟩ rest := by
  induction x generalizing w with
  | nil => simp [unquoted]
  | cons c x ih =>
    rw [List.forall_mem_cons] at hx
    rw [List.cons_append, Scan.tokens, next_ordinary rfl hx.1 (by simp)]
    simp only [Option.bind_some, List.nil_append, Option.map_id']
    rw [Scan.push, Option.getD_some, ih hx.2]
    simp [unquoted]

/-- A word is started by its first byte, which is no comment. -/
theorem tokens_start (hne : x ≠ []) (hx : ∀ c ∈ x, isOrdinary c = true) (hhash : x.head? ≠ some (ch '#')) :
    Scan.tokens {} (x ++ rest) = Scan.tokens ⟨.plain, some (unquoted x)⟩ rest := by
  cases x with
  | nil => exact absurd rfl hne
  | cons c x =>
    rw [List.forall_mem_cons] at hx
    have hc : c ≠ ch '#' := fun h => hhash (congrArg some h)
    rw [List.cons_append, Scan.tokens, next_ordinary rfl hx.1 fun h => absurd h hc]
    simp only [Option.bind_some, List.nil_append, Option.map_id']
    exact tokens_ordinary hx.2

theorem tokens_blank (w : Word) (rest : Bytes) :
    Scan.tokens ⟨.plain, some w⟩ (32 :: rest) = (Scan.tokens {} rest).map (.word w :: ·) := rfl

theorem tokens_blank_start (rest : Bytes) : Scan.tokens {} (32 :: rest) = Scan.tokens {} rest := by
  show (Scan.tokens {} rest).map _ = _
  simp [Scan.ended]

/-- A text in single quotes. A single quote in it has to stand outside of them. -/
def singleQuoted (x : Bytes) : Bytes :=
  ch '\'' :: (x.flatMap (fun c => if c = ch '\'' then ascii "'\\''" else [c]) ++ [ch '\''])

theorem tokens_single : Scan.tokens ⟨.single, some w⟩
    (x.flatMap (fun c => if c = ch '\'' then ascii "'\\''" else [c]) ++ ch '\'' :: rest) =
      Scan.tokens ⟨.plain, some (w ++ quoted x)⟩ rest := by
  induction x generalizing w with
  | nil =>
    show (Scan.tokens ⟨.plain, some w⟩ rest).map _ = _
    simp [quoted]
  | cons c x ih =>
    rw [List.flatMap_cons, List.append_assoc]
    have hword : w ++ quoted (c :: x) = (w ++ [(c, true)]) ++ quoted x := by simp [quoted]
    rw [hword, ← ih]
    by_cases hc : c = ch '\''
    · subst hc
      show Option.map _ (Option.map _ (Option.map _ (Option.map _ _))) = _
      simp only [List.nil_append, Option.map_id']
      rfl
    · rw [if_neg hc, List.singleton_append, Scan.tokens]
      simp only [Scan.next, if_neg hc, Option.bind_some, List.nil_append, Option.map_id']
      rfl

theorem tokens_singleQuoted (w : Option Word) : Scan.tokens ⟨.plain, w⟩ (singleQuoted x ++ rest) =
    Scan.tokens ⟨.plain, some (w.getD [] ++ quoted x)⟩ rest := by
  rw [← tokens_single]
  show Option.map _ (Scan.tokens ⟨.single, some (w.getD [])⟩ _) = _
  simp

/-! ## What a text without blanks can be read as -/

/-- Neither blank nor special between double quotes. Quotes and operators are not left out. -/
def isBare (c : Byte) : Bool := !(c == ch '"' || startsExpansion c || isBlank c || c == 10)

/-- A word that has been started grows or ends, unless it is dropped with a comment. -/
theorem next_cases {v : Word} {ended : List Token} {t : Scan} (hs : s.word = some v)
    (h : s.next c = some (ended, t)) :
    (ended = [] ∧ ∃ added, t.word = some (v ++ added)) ∨ (∃ ts, ended = .word v :: ts) ∨
      ended = [.operator c] := by
  have hgrow (added : Word) (quoting : Quoting) (h : some ([], ⟨quoting, some (v ++ added)⟩) = some (ended, t)) :
      ended = [] ∧ ∃ added, t.word = some (v ++ added) := by
    cases h
    exact ⟨rfl, added, rfl⟩
  obtain ⟨quoting, word⟩ := s
  cases hs
  cases quoting with
  | plain =>
    simp only [Scan.next, Scan.ended, Scan.push, reduceCtorEq, and_false, if_false, Option.map_some,
      Option.getD_some] at h
    split_ifs at h
    · exact .inl (hgrow [] _ (by simpa using h))
    · exact .inl (hgrow [] _ (by simpa using h))
    · exact .inl (hgrow [] _ (by simpa using h))
    · cases h
      exact .inr (.inl ⟨_, rfl⟩)
    · cases h
      exact .inr (.inl ⟨_, rfl⟩)
    · exact .inl (hgrow _ _ h)
  | backslash | single =>
    simp only [Scan.next, Scan.push, Option.getD_some] at h
    split_ifs at h
    · exact .inl (hgrow [] _ (by simpa using h))
    · exact .inl (hgrow _ _ h)
  | double =>
    simp only [Scan.next, Scan.push, Option.getD_some] at h
    split_ifs at h
    · exact .inl (hgrow [] _ (by simpa using h))
    · exact .inl (hgrow [] _ (by simpa using h))
    · exact .inl (hgrow _ _ h)
  | doubleBackslash =>
    simp only [Scan.next, Scan.push, Option.getD_some, List.append_assoc] at h
    split_ifs at h
    · exact .inl (hgrow [] _ (by simpa using h))
    · exact .inl (hgrow _ _ h)
    · exact .inl (hgrow _ _ h)
  | comment =>
    simp only [Scan.next] at h
    split_ifs at h
    · cases h
      exact .inr (.inr rfl)
    · exact .inl (hgrow [] _ (by simpa using h))

/-- So what is read first starts with it. -/
theorem word_prefix {v : Word} (hs : s.word = some v) (h : s.tokens text = some (.word w :: ts)) :
    ∃ added, w = v ++ added := by
  induction text generalizing s v with
  | nil =>
    unfold Scan.tokens Scan.finish Scan.ended at h
    rw [hs] at h
    split at h
    · cases h
      exact ⟨[], by simp⟩
    · cases h
      exact ⟨[], by simp⟩
    · cases h
  | cons c text ih =>
    rw [Scan.tokens] at h
    obtain ⟨⟨ended, t⟩, hnext, h⟩ := Option.bind_eq_some_iff.mp h
    obtain ⟨tail, htail, h⟩ := Option.map_eq_some_iff.mp h
    rcases next_cases hs hnext with ⟨rfl, added, ht⟩ | ⟨more, rfl⟩ | rfl
    · obtain ⟨added', rfl⟩ := ih ht (by rw [htail]; exact congrArg some h)
      exact ⟨added ++ added', by simp⟩
    · cases h
      exact ⟨[], by simp⟩
    · cases h

theorem comment_swallows (h : Scan.tokens ⟨.comment, none⟩ text = some ts) :
    ∀ w ts', ts ≠ .word w :: ts' := by
  induction text with
  | nil =>
    cases h
    nofun
  | cons c text ih =>
    rw [Scan.tokens] at h
    obtain ⟨⟨ended, t⟩, hnext, h⟩ := Option.bind_eq_some_iff.mp h
    obtain ⟨tail, htail, rfl⟩ := Option.map_eq_some_iff.mp h
    simp only [Scan.next] at hnext
    split at hnext
    · cases hnext
      nofun
    · cases hnext
      exact ih htail

/-- A blank that is quoted is in the word. -/
theorem not_pushed_blank {quoting : Quoting}
    (h : (s.push quoting 32 true).tokens text = some (.word w :: ts)) (hblank : 32 ∉ Word.bytes w) : False := by
  obtain ⟨added, rfl⟩ := word_prefix rfl h
  simp [Word.bytes] at hblank

/-- What a bare text adds to the word that has been started, when the word is to have no blank: no
more than itself, and as much only if nothing in it is special. -/
theorem tokens_bare (hx : ∀ c ∈ x, isBare c = true) (hrest : rest = [] ∨ ∃ r, rest = 32 :: r)
    (hquoting : s.quoting = .plain ∨ s.quoting = .backslash ∨ s.quoting = .single)
    (hplain : s.quoting = .plain → x = [] → s.word ≠ none) (hsingle : s.quoting = .single → s.word ≠ none)
    (h : s.tokens (x ++ rest) = some (.word w :: ts)) (hops : ∀ c, .operator c ∉ ts)
    (hblank : 32 ∉ Word.bytes w) :
    ∃ added, w = s.word.getD [] ++ added ∧ added.length ≤ x.length ∧
      Scan.tokens {} rest = some ts ∧
      (added.length = x.length → s.quoting = .plain →
        (∀ c ∈ x, isOrdinary c = true) ∧ (s.word = none → x.head? ≠ some (ch '#'))) := by
  obtain ⟨quoting, word⟩ := s
  induction x generalizing quoting word with
  | nil =>
    rw [List.nil_append] at h
    rcases hquoting with rfl | rfl | rfl
    · obtain ⟨v, rfl⟩ := Option.ne_none_iff_exists'.mp (hplain rfl rfl)
      refine ⟨[], ?_⟩
      rcases hrest with rfl | ⟨r, rfl⟩
      · cases h
        exact ⟨by simp, le_rfl, rfl, fun _ _ => ⟨by simp, by simp⟩⟩
      · rw [tokens_blank, Option.map_eq_some_iff] at h
        obtain ⟨ts', hts, heq⟩ := h
        cases heq
        exact ⟨by simp, le_rfl, (tokens_blank_start r).trans hts, fun _ _ => ⟨by simp, by simp⟩⟩
    · rcases hrest with rfl | ⟨r, rfl⟩
      · cases h
      · obtain ⟨tail, htail, htail'⟩ := Option.map_eq_some_iff.mp h
        exact (not_pushed_blank (htail.trans (congrArg some htail')) hblank).elim
    · rcases hrest with rfl | ⟨r, rfl⟩
      · cases h
      · obtain ⟨tail, htail, htail'⟩ := Option.map_eq_some_iff.mp h
        exact (not_pushed_blank (htail.trans (congrArg some htail')) hblank).elim
  | cons c x ih =>
    rw [List.forall_mem_cons] at hx
    rw [List.cons_append, Scan.tokens] at h
    obtain ⟨⟨ended, t⟩, hnext, h⟩ := Option.bind_eq_some_iff.mp h
    obtain ⟨tail, htail, htail'⟩ := Option.map_eq_some_iff.mp h
    -- The rest of the text goes on with what the byte has left.
    have hgo (t' : Scan) (ht : some ([], t') = some (ended, t)) :
        t'.tokens (x ++ rest) = some (.word w :: ts) := by
      cases ht
      exact htail.trans (congrArg some htail')
    obtain ⟨hc, hx⟩ := hx
    simp only [isBare, Bool.not_eq_true', Bool.or_eq_false_iff, beq_eq_false_iff_ne] at hc
    obtain ⟨⟨⟨hdouble, hexpansion⟩, hblankc⟩, hnewline⟩ := hc
    have ih := @ih hx
    rcases hquoting with rfl | rfl | rfl
    · simp only [Scan.next, hdouble, hexpansion, hblankc, Bool.false_eq_true, if_false] at hnext
      split_ifs at hnext with hbackslash hquote hoperator hhash
      · obtain ⟨added, rfl, hlen, hts, -⟩ := ih _ _ (.inr (.inl rfl)) nofun nofun (hgo _ hnext)
        exact ⟨added, rfl, by simp; omega, hts, fun heq => by simp at heq; omega⟩
      · obtain ⟨added, rfl, hlen, hts, -⟩ := ih _ _ (.inr (.inr rfl)) nofun (by simp) (hgo _ hnext)
        exact ⟨added, rfl, by simp; omega, hts, fun heq => by simp at heq; omega⟩
      · cases hnext
        cases word with
        | none => cases htail'
        | some v =>
          cases htail'
          exact absurd List.mem_cons_self (hops c)
      · cases hnext
        exact absurd htail' (comment_swallows htail w ts)
      · obtain ⟨added, rfl, hlen, hts, hsame⟩ := ih _ _ (.inl rfl) (by simp) nofun (hgo _ hnext)
        refine ⟨(c, false) :: added, by simp, by simpa using hlen, hts, fun heq _ => ?_⟩
        obtain ⟨hx, -⟩ := hsame (by simpa using heq) rfl
        refine ⟨List.forall_mem_cons.mpr ⟨?_, hx⟩, fun hword hc => hhash ⟨?_, hword⟩⟩
        · simp [isOrdinary, isQuoting, hbackslash, hquote, hdouble, hexpansion, hblankc, hoperator]
        · simpa using hc
    · simp only [Scan.next, if_neg hnewline] at hnext
      obtain ⟨added, rfl, hlen, hts, -⟩ := ih _ _ (.inl rfl) (by simp) nofun (hgo _ hnext)
      exact ⟨(c, true) :: added, by simp, by simpa using hlen, hts, nofun⟩
    · simp only [Scan.next] at hnext
      have hword := hsingle rfl
      split_ifs at hnext
      · obtain ⟨added, rfl, hlen, hts, -⟩ := ih _ _ (.inl rfl) (fun _ _ => hword) nofun (hgo _ hnext)
        exact ⟨added, rfl, by simp; omega, hts, nofun⟩
      · obtain ⟨added, rfl, hlen, hts, -⟩ := ih _ _ (.inr (.inr rfl)) nofun (by simp) (hgo _ hnext)
        exact ⟨(c, true) :: added, by simp, by simpa using hlen, hts, nofun⟩

/-! ## Words with blanks between them -/

def spaced : List Bytes → Bytes
  | [] => []
  | [x] => x
  | x :: y :: xs => x ++ 32 :: spaced (y :: xs)

/-- A word that is to be read: `before` as it is, and `body` perhaps in single quotes. -/
structure Piece where
  before : Bytes
  body : Bytes
  isQuoted : Bool

namespace Piece

def source (p : Piece) : Bytes := p.before ++ if p.isQuoted then singleQuoted p.body else p.body

def value (p : Piece) : Bytes := p.before ++ p.body

def word (p : Piece) : Word := unquoted p.before ++ p.body.map (·, p.isQuoted)

/-- Just what cannot stand in a bare text is quoted. -/
structure Ok (p : Piece) : Prop where
  before : ∀ c ∈ p.before, isOrdinary c = true
  start : p.before.head? ≠ some (ch '#')
  body : (∀ c ∈ p.body, isBare c = true) ↔ p.isQuoted = false

/-- Without quotes the text is the word. -/
def Plain (p : Piece) : Prop :=
  p.isQuoted = false → p.value ≠ [] ∧ (∀ c ∈ p.value, isOrdinary c = true) ∧ p.value.head? ≠ some (ch '#')

end Piece

variable {p : Piece} {pieces : List Piece} {us : List Bytes}

theorem spaced_cons (x : Bytes) (xs : List Bytes) : ∃ rest, spaced (x :: xs) = x ++ rest ∧
    (rest = [] ∨ ∃ r, rest = 32 :: r) ∧ Scan.tokens {} rest = Scan.tokens {} (spaced xs) := by
  cases xs with
  | nil => exact ⟨[], by simp [spaced], .inl rfl, rfl⟩
  | cons y ys => exact ⟨32 :: spaced (y :: ys), rfl, .inr ⟨_, rfl⟩, tokens_blank_start _⟩

theorem bytes_word (p : Piece) : Word.bytes p.word = p.value := by
  simp [Piece.word, Piece.value, Word.bytes, unquoted, Function.comp_def]

theorem isBare_of_isOrdinary (h : isOrdinary c = true) : isBare c = true := by
  simp only [isOrdinary, isQuoting, isOperator, Bool.not_eq_true', Bool.or_eq_false_iff] at h
  simp [isBare, h]

theorem tokens_piece (hok : p.Ok) (hplain : p.Plain) :
    Scan.tokens {} (p.source ++ rest) = Scan.tokens ⟨.plain, some p.word⟩ rest := by
  cases hq : p.isQuoted
  · obtain ⟨hne, hordinary, hhash⟩ := hplain hq
    have hword : p.word = unquoted p.value := by simp [Piece.word, Piece.value, unquoted, hq]
    rw [hword, ← tokens_start hne hordinary hhash, Piece.source, hq]
    rfl
  · have hword : p.word = unquoted p.before ++ quoted p.body := by simp [Piece.word, quoted, hq]
    rw [Piece.source, hq, if_pos rfl, List.append_assoc, hword]
    by_cases hbefore : p.before = []
    · rw [hbefore]
      exact tokens_singleQuoted none
    · rw [tokens_start hbefore hok.before hok.start, tokens_singleQuoted]
      rfl

theorem tokens_ended (w : Word) (hrest : rest = [] ∨ ∃ r, rest = 32 :: r) :
    Scan.tokens ⟨.plain, some w⟩ rest = (Scan.tokens {} rest).map (.word w :: ·) := by
  rcases hrest with rfl | ⟨r, rfl⟩
  · rfl
  · rw [tokens_blank, tokens_blank_start]

/-- Plain pieces are read as the words that they are meant for. -/
theorem tokens_pieces (hok : ∀ p ∈ pieces, p.Ok) (hplain : ∀ p ∈ pieces, p.Plain) :
    Scan.tokens {} (spaced (pieces.map Piece.source)) = some (pieces.map fun p => .word p.word) := by
  induction pieces with
  | nil => rfl
  | cons p pieces ih =>
    rw [List.forall_mem_cons] at hok hplain
    obtain ⟨rest, htext, hrest, htokens⟩ := spaced_cons p.source (pieces.map Piece.source)
    rw [List.map_cons, htext, tokens_piece hok.1 hplain.1, tokens_ended _ hrest, htokens, ih hok.2 hplain.2]
    rfl

/-- Nothing else is read as those words. `us` has the words that the pieces before these have not given. -/
theorem plain_of_tokens (hok : ∀ p ∈ pieces, p.Ok) (hus : ∀ u ∈ us, ∀ c ∈ u, isBare c = true)
    (h : Scan.tokens {} (spaced (pieces.map Piece.source)) = some (ws.map .word))
    (hws : ws.map Word.bytes = us ++ pieces.map Piece.value) :
    us = [] ∧ ∀ p ∈ pieces, p.Plain := by
  induction pieces generalizing ws us with
  | nil =>
    have hnil : ws = [] := by simpa [spaced, Scan.tokens, Scan.finish, Scan.ended, eq_comm] using h
    rw [hnil] at hws
    exact ⟨(List.append_eq_nil_iff.mp hws.symm).1, by simp⟩
  | cons p pieces ih =>
    rw [List.forall_mem_cons] at hok
    obtain ⟨rest, htext, hrest, htokens⟩ := spaced_cons p.source (pieces.map Piece.source)
    rw [List.map_cons, htext] at h
    rw [List.map_cons] at hws
    cases hq : p.isQuoted
    · have hbare : ∀ c ∈ p.value, isBare c = true := by
        intro c hc
        rcases List.mem_append.mp hc with hc | hc
        · exact isBare_of_isOrdinary (hok.1.before c hc)
        · exact hok.1.body.mpr hq c hc
      have hus' : ∀ u ∈ us ++ [p.value], ∀ c ∈ u, isBare c = true := by
        intro u hu
        rcases List.mem_append.mp hu with hu | hu
        · exact hus u hu
        · rw [List.mem_singleton.mp hu]
          exact hbare
      have hsource : p.source = p.value := by
        rw [Piece.source, Piece.value, hq]
        rfl
      rw [hsource] at h
      by_cases hne : p.value = []
      · rw [hne, List.nil_append, htokens] at h
        have := (ih hok.2 hus' h (by simpa using hws)).1
        simp at this
      · cases ws with
        | nil => simp at hws
        | cons w ws =>
          have hw : ∀ c ∈ Word.bytes w, isBare c = true := by
            have : Word.bytes w ∈ us ++ [p.value] := by
              cases us <;> simp at hws <;> simp [hws]
            exact hus' _ this
          obtain ⟨added, hadded, -, hts, hsame⟩ := tokens_bare hbare hrest (.inl rfl) (fun _ h => absurd h hne)
            (by simp) h (by simp) fun h => absurd (hw _ h) (by decide)
          rw [htokens] at hts
          cases us with
          | nil =>
            simp only [List.map_cons, List.nil_append, List.cons.injEq] at hws
            have hlen : added.length = p.value.length := by
              rw [← hws.1, hadded]
              simp [Word.bytes]
            obtain ⟨hordinary, hhash⟩ := hsame hlen rfl
            have hpieces := (ih hok.2 (List.forall_mem_nil _) hts hws.2).2
            exact ⟨rfl, List.forall_mem_cons.mpr ⟨fun _ => ⟨hne, hordinary, hhash rfl⟩, hpieces⟩⟩
          | cons u us =>
            simp only [List.map_cons, List.cons_append, List.cons.injEq] at hws
            have := (ih hok.2 (fun v hv => hus' v (List.mem_cons_of_mem _ hv)) hts
              (by simpa using hws.2)).1
            simp at this
    · have hplain : p.Plain := fun h => by simp [hq] at h
      rw [tokens_piece hok.1 hplain, tokens_ended _ hrest, htokens, Option.map_eq_some_iff] at h
      obtain ⟨ts, hts, heq⟩ := h
      cases ws with
      | nil => cases heq
      | cons w ws =>
        simp only [List.map_cons, List.cons.injEq, Token.word.injEq] at heq
        obtain ⟨rfl, rfl⟩ := heq
        cases us with
        | nil =>
          simp only [List.map_cons, List.nil_append, List.cons.injEq] at hws
          exact ⟨rfl, List.forall_mem_cons.mpr ⟨hplain, (ih hok.2 (List.forall_mem_nil _) hts hws.2).2⟩⟩
        | cons u us =>
          -- A quoted piece gives its own word, which no bare one can be.
          simp only [List.map_cons, List.cons_append, List.cons.injEq, bytes_word] at hws
          have hbody : ∀ c ∈ p.body, isBare c = true := fun c hc =>
            hus u List.mem_cons_self c (hws.1 ▸ List.mem_append_right _ hc)
          rw [hok.1.body.mp hbody] at hq
          cases hq

/-! ## Commands of words -/

variable {vs : List Word} {names : List (Bytes × Word)} {command : SimpleCommand}

theorem commands_word : commands vs (.word w :: ts) = commands (vs ++ [w]) ts := rfl

theorem commands_operator : commands vs (.operator c :: ts) =
    if c = ch '|' then do return (← simpleCommand vs) :: (← commands [] ts) else none := rfl

theorem commands_words : commands vs (ws.map .word) = (simpleCommand (vs ++ ws)).map ([·]) := by
  induction ws generalizing vs with
  | nil =>
    rw [List.append_nil]
    rfl
  | cons w ws ih => rw [List.map_cons, commands_word, ih, List.append_assoc, List.singleton_append]

theorem commands_ne_nil : commands vs ts ≠ some [] := by
  induction ts generalizing vs with
  | nil =>
    show (simpleCommand vs).map ([·]) ≠ some []
    simp
  | cons t ts ih =>
    cases t with
    | word w => exact ih
    | operator c =>
      rw [commands_operator]
      split
      · simp [Option.bind_eq_some_iff]
      · nofun

/-- A single command is read of tokens that are all words. -/
theorem words_of_commands (h : commands vs ts = some [command]) :
    ∃ ws, ts = ws.map .word ∧ simpleCommand (vs ++ ws) = some command := by
  induction ts generalizing vs with
  | nil =>
    obtain ⟨command', hcommand, heq⟩ := Option.map_eq_some_iff.mp h
    cases heq
    exact ⟨[], rfl, by simpa using hcommand⟩
  | cons t ts ih =>
    cases t with
    | word w =>
      obtain ⟨ws, rfl, hws⟩ := ih h
      exact ⟨w :: ws, rfl, by simpa using hws⟩
    | operator c =>
      rw [commands_operator] at h
      split at h
      · obtain ⟨first, -, h⟩ := Option.bind_eq_some_iff.mp h
        obtain ⟨others, hothers, h⟩ := Option.bind_eq_some_iff.mp h
        cases h
        exact absurd hothers commands_ne_nil
      · cases h

theorem splitAssignments_some {a : Bytes × Word} (h : w.assignment = some a) :
    splitAssignments (w :: ws) = (a :: (splitAssignments ws).1, (splitAssignments ws).2) := by
  show (match w.assignment with
    | some a => (a :: (splitAssignments ws).1, (splitAssignments ws).2)
    | none => ([], w :: ws)) = _
  rw [h]

theorem splitAssignments_none (h : w.assignment = none) : splitAssignments (w :: ws) = ([], w :: ws) := by
  rw [splitAssignments, h]

theorem splitAssignments_append (h : ws.map Word.assignment = names.map some) :
    splitAssignments (ws ++ vs) = (names ++ (splitAssignments vs).1, (splitAssignments vs).2) := by
  induction ws generalizing names with
  | nil =>
    obtain rfl : names = [] := by simpa using h.symm
    rfl
  | cons w ws ih =>
    cases names with
    | nil => simp at h
    | cons a names =>
      simp only [List.map_cons, List.cons.injEq] at h
      rw [List.cons_append, splitAssignments_some h.1, ih h.2]
      rfl

theorem splitAssignments_nil_iff : (splitAssignments vs).1 = [] ↔ ∀ w ∈ vs.head?, w.assignment = none := by
  cases vs with
  | nil => exact ⟨fun _ => nofun, fun _ => rfl⟩
  | cons w vs =>
    cases hw : w.assignment with
    | none => simp [splitAssignments_none hw, hw]
    | some a => simp [splitAssignments_some hw, hw]

theorem splitAssignments_of_nil (h : (splitAssignments vs).1 = []) : splitAssignments vs = ([], vs) := by
  cases vs with
  | nil => rfl
  | cons w vs =>
    cases hw : w.assignment with
    | none => exact splitAssignments_none hw
    | some a => simp [splitAssignments_some hw] at h

/-- When the assignments and words that are meant are those that are read. -/
theorem simpleCommand_iff (h : ws.map Word.assignment = names.map some) (hvs : vs ≠ []) :
    simpleCommand (ws ++ vs) =
        some ⟨names.map fun a => (a.1, a.2.bytes), vs.map Word.bytes⟩ ↔
      (∀ w ∈ (ws ++ vs).head?, w.reserved = false) ∧ (∀ a ∈ names, a.2.assignmentTilde = false) ∧
        (∀ w ∈ vs.head?, w.assignment = none) ∧ ∀ w ∈ vs, w.tilde = false ∧ w.pattern = false := by
  rw [← splitAssignments_nil_iff]
  have hne : ws ++ vs ≠ [] := by simp [hvs]
  unfold simpleCommand
  rw [splitAssignments_append h]
  constructor
  · intro hsome
    dsimp only at hsome
    split_ifs at hsome with hreserved htilde hwords
    simp only [Option.some.injEq, SimpleCommand.mk.injEq] at hsome
    have hnil : (splitAssignments vs).1 = [] := by
      have := congrArg List.length hsome.1
      simpa using this
    rw [splitAssignments_of_nil hnil] at htilde hwords
    refine ⟨fun w hw => ?_, ?_, hnil, ?_⟩
    · rw [Option.mem_def.mp hw] at hreserved
      simpa [hne] using hreserved
    · simpa using htilde
    · simpa using hwords
  · rintro ⟨hreserved, htilde, hnil, hwords⟩
    rw [splitAssignments_of_nil hnil]
    dsimp only
    rw [if_neg, if_neg, if_neg]
    · simp
    · simpa using hwords
    · simpa using htilde
    · cases hhead : (ws ++ vs).head? with
      | none => exact absurd (List.head?_eq_none_iff.mp hhead) hne
      | some w => simpa [hne] using hreserved w hhead

/-- The words of a single command come from its assignments and words. -/
theorem bytes_of_assignment {a : Bytes × Word} (h : w.assignment = some a) :
    Word.bytes w = a.1 ++ ch '=' :: a.2.bytes := by
  unfold Word.assignment at h
  dsimp only at h
  split at h
  · cases h
  · rename_i c q value hdrop
    split at h
    · rename_i hc
      cases h
      have hsplit : w = w.takeWhile (fun p => !p.2 && isNameByte p.1) ++ (c, q) :: value := by
        rw [← hdrop, List.takeWhile_append_dropWhile]
      calc Word.bytes w = Word.bytes (w.takeWhile (fun p => !p.2 && isNameByte p.1) ++ (c, q) :: value) :=
            congrArg Word.bytes hsplit
        _ = _ := by rw [← hc.1]; simp [Word.bytes]
    · cases h

theorem bytes_of_simpleCommand (h : simpleCommand ws = some command) :
    ws.map Word.bytes =
      (command.assignments.map fun a => a.1 ++ ch '=' :: a.2) ++ command.words := by
  have hsplit (ws : List Word) : ws.map Word.bytes =
      ((splitAssignments ws).1.map fun a => a.1 ++ ch '=' :: a.2.bytes) ++
        (splitAssignments ws).2.map Word.bytes := by
    induction ws with
    | nil => rfl
    | cons w ws ih =>
      cases hw : w.assignment with
      | none => simp [splitAssignments_none hw]
      | some a => simp [splitAssignments_some hw, bytes_of_assignment hw, ih]
  unfold simpleCommand at h
  dsimp only at h
  split_ifs at h
  cases h
  rw [hsplit ws]
  simp [Function.comp_def]

/-! ## Words that are quoted, or not -/

@[simp] theorem bytes_unquoted (x : Bytes) : Word.bytes (unquoted x) = x := by
  simp [Word.bytes, unquoted, Function.comp_def]

theorem tilde_unquoted : Word.tilde (unquoted x) = false ↔ x.head? ≠ some (ch '~') := by
  cases x with
  | nil => simp [unquoted, Word.tilde, Word.tildePrefix]
  | cons c x =>
    have hall : ((unquoted x).takeWhile fun q => !isUnquoted (ch '/') q).all (fun q => !q.2) = true := by
      rw [List.all_eq_true]
      intro q hq
      obtain ⟨d, -, rfl⟩ := List.mem_map.mp ((List.takeWhile_sublist _).subset hq)
      rfl
    show (isUnquoted (ch '~') (c, false) &&
      ((unquoted x).takeWhile fun q => !isUnquoted (ch '/') q).all (fun q => !q.2)) = false ↔ _
    rw [hall]
    simp [isUnquoted]

theorem reserved_unquoted : Word.reserved (unquoted x) = false ↔ x ∉ reservedWords := by
  simp [Word.reserved, unquoted, Word.bytes, Function.comp_def]

theorem tilde_quoted (x : Bytes) : Word.tilde (quoted x) = false := by
  cases x <;> simp [quoted, Word.tilde, Word.tildePrefix, isUnquoted]

theorem assignmentTilde_quoted (x : Bytes) : Word.assignmentTilde (quoted x) = false := by
  have hmarked (stop : Byte × Bool → Bool) (x : Bytes) : Word.tildePrefix stop (quoted x) = false := by
    cases x <;> simp [quoted, Word.tildePrefix, isUnquoted]
  unfold Word.assignmentTilde
  dsimp only
  rw [hmarked, Bool.false_or, List.any_eq_false]
  intro w hw
  cases w with
  | nil => simp
  | cons p rest =>
    have hp : p ∈ quoted x := ((List.mem_tails _ _).mp hw).subset List.mem_cons_self
    obtain ⟨c, -, rfl⟩ := List.mem_map.mp hp
    simp [isUnquoted]

theorem pattern_quoted (x : Bytes) : Word.pattern (quoted x) = false := by
  induction x with
  | nil => rfl
  | cons c x ih =>
    have ih : Word.pattern (x.map (·, true)) = false := ih
    simp [quoted, Word.pattern, isUnquoted, ih]

theorem assignment_quoted (x : Bytes) : Word.assignment (quoted x) = none := by
  cases x <;> simp [quoted, Word.assignment]

theorem reserved_quoted (h : x ≠ []) : Word.reserved (quoted x) = false := by
  cases x with
  | nil => exact absurd rfl h
  | cons c x => simp [quoted, Word.reserved]

theorem assignment_name (h : IsName x) (w : Word) :
    Word.assignment (unquoted (x ++ [ch '=']) ++ w) = some (x, w) := by
  have hname : ∀ p ∈ unquoted x, (!p.2 && isNameByte p.1) = true := by
    intro p hp
    obtain ⟨c, hc, rfl⟩ := List.mem_map.mp hp
    simpa using h.2 c hc
  have hsplit : unquoted (x ++ [ch '=']) ++ w = unquoted x ++ (ch '=', false) :: w := by simp [unquoted]
  have heq : ¬(!(ch '=', false).2 && isNameByte (ch '=', false).1) = true := by decide
  unfold Word.assignment
  rw [hsplit, List.takeWhile_append_of_pos hname, List.dropWhile_append_of_pos hname,
    List.takeWhile_cons_of_neg (by simpa using heq), List.dropWhile_cons_of_neg (by simpa using heq)]
  have hhead : (unquoted x).head?.any (fun p => isNameStart p.1) = true := by
    have := h.1
    cases x with
    | nil => simp at this
    | cons c x => simpa [unquoted] using this
  simp [hhead]

/-- No reserved word has an equals sign. -/
theorem reserved_assignment {a : Bytes × Word} (h : w.assignment = some a) : w.reserved = false := by
  have hno : ∀ r ∈ reservedWords, ch '=' ∉ r := by decide +kernel
  rw [Word.reserved, Bool.and_eq_false_iff]
  right
  rw [List.contains_eq_mem, decide_eq_false_iff_not]
  intro hmem
  refine hno _ hmem ?_
  rw [bytes_of_assignment h]
  simp

end Shell
