import PgCmdQueue.Lib.Shell
import PgCmdQueue.QueueCmd
import Mathlib.Data.List.ReduceOption

/-!
# The command line of a nix command

`cmd_line` writes a command as a text for a shell.
-/

namespace PgCmdQueue.Extension

open Cpp Postgres Shell

/-! ## The function -/

/-- The characters of the regular expression. -/
def needsQuote (x : Bytes) : Bool := x.any fun c =>
  c == ch '"' || c == ch '$' || c == ch ' ' || c == 10 || c == 9 || c == ch '\x60'

/-- `replace`, of a single character. -/
def replace (x : Bytes) (old : Byte) (new : Bytes) : Bytes := x.flatMap fun c => if c = old then new else [c]

def cmdLineWord (x : Bytes) : Bytes :=
  if needsQuote x then ch '\'' :: (replace x (ch '\'') (ascii "'\\''") ++ [ch '\'']) else x

def base64Digit (n : Nat) : Byte :=
  (ascii "ABCDEFGHIJKLMNOPQRSTUVWXYZabcdefghijklmnopqrstuvwxyz0123456789+/").getD n 0

/-- `encode(x, 'base64')` without the line breaks, which are taken out at once. -/
def base64 : Bytes → Bytes
  | [] => []
  | [a] => [base64Digit (a.toNat / 4), base64Digit (a.toNat % 4 * 16), ch '=', ch '=']
  | [a, b] => [base64Digit (a.toNat / 4), base64Digit (a.toNat % 4 * 16 + b.toNat / 16),
      base64Digit (b.toNat % 16 * 4), ch '=']
  | a :: b :: c :: rest => base64Digit (a.toNat / 4) :: base64Digit (a.toNat % 4 * 16 + b.toNat / 16) ::
      base64Digit (b.toNat % 16 * 4 + c.toNat / 64) :: base64Digit (c.toNat % 64) :: base64 rest

/-- NULL if there is nothing to put together. -/
def stringAgg (sep : Bytes) (xs : List Bytes) : Option Bytes := if xs = [] then none else some (joined sep xs)

/-- The pairs that have a value. -/
def envPairs (cmdEnv : Hstore) : List (Bytes × Bytes) :=
  cmdEnv.entries.filterMap fun pair => pair.2.map (pair.1, ·)

/-- NULLs in the array and in the values make NULLs, which `string_agg` leaves out. -/
def cmdLine (cmdArgv : List (Option Bytes)) (cmdEnv : Hstore) (cmdStdin : Option Bytes) : Option Bytes := do
  let args ← stringAgg [32] (cmdArgv.reduceOption.map cmdLineWord)
  let env := stringAgg [32] ((envPairs cmdEnv).map fun (name, value) => name ++ ch '=' :: cmdLineWord value)
  let echo := match cmdStdin with
    | none | some [] => []
    | some stdin => ascii "echo " ++ (base64 stdin ++ ascii " | base64 -d | ")
  return echo ++ ((env.map (· ++ [32])).getD [] ++ args)

example : cmdLine [some (ascii "cmd"), some (ascii "arg with 'single-quoted' text"), none]
      (((∅ : Hstore).insert (ascii "VAR_TWO") (some (ascii "val2"))).insert (ascii "VAR1") (some (ascii "value 1")))
      (some (ascii "Multiline\ntext\n")) =
    some (ascii ("echo TXVsdGlsaW5lCnRleHQK | base64 -d | VAR1='value 1' VAR_TWO=val2 cmd " ++
      "'arg with '\\''single-quoted'\\'' text'")) := by
  decide +kernel

/-! ## What a shell has to read -/

structure ShellArgs where
  cmdArgv : List Text
  cmdArgv_ne_nil : cmdArgv ≠ []
  cmdEnv : Hstore
  isName : ∀ pair ∈ cmdEnv.entries, IsName pair.1
  isText : ∀ pair ∈ cmdEnv.entries, ∃ value, pair.2 = some value ∧ NulFree value
  cmdStdin : Bytes

namespace ShellArgs

def command (a : ShellArgs) : SimpleCommand := ⟨envPairs a.cmdEnv, a.cmdArgv.map (·.1)⟩

def pipeline (a : ShellArgs) : List SimpleCommand :=
  if a.cmdStdin = [] then [a.command]
  else [⟨[], [ascii "echo", base64 a.cmdStdin]⟩, ⟨[], [ascii "base64", ascii "-d"]⟩, a.command]

/-- A shell reads the command that the text is made of. -/
def ReadByShell (a : ShellArgs) : Prop :=
  ∃ text, cmdLine (a.cmdArgv.map fun x => some x.1) a.cmdEnv (some a.cmdStdin) = some text ∧
    Shell.pipeline text = some a.pipeline

/-- An argument that is not quoted stands for itself. -/
structure PlainArg (x : Bytes) : Prop where
  ne_nil : x ≠ []
  ordinary : ∀ c ∈ x, isOrdinary c = true
  start : x.head? ≠ some (ch '#') ∧ x.head? ≠ some (ch '~')
  pattern : Word.pattern (unquoted x) = false

structure Plain (a : ShellArgs) : Prop where
  args : ∀ x ∈ a.cmdArgv, needsQuote x = false → PlainArg x
  values : ∀ pair ∈ envPairs a.cmdEnv, needsQuote pair.2 = false →
    (∀ c ∈ pair.2, isOrdinary c = true) ∧ Word.assignmentTilde (unquoted pair.2) = false
  name : ∀ x ∈ a.cmdArgv.head?, needsQuote x = false → Word.assignment (unquoted x) = none ∧
    (a.cmdEnv.entries = [] → x.1 ∉ reservedWords)

/-! ## The pieces of the text -/

def envPiece (pair : Bytes × Bytes) : Piece := ⟨pair.1 ++ [ch '='], pair.2, needsQuote pair.2⟩

def argPiece (x : Bytes) : Piece := ⟨[], x, needsQuote x⟩

def envPieces (a : ShellArgs) : List Piece := (envPairs a.cmdEnv).map envPiece

def argPieces (a : ShellArgs) : List Piece := a.cmdArgv.map fun x => argPiece x.1

variable {a : ShellArgs} {x rest : Bytes} {c : Byte} {pair : Bytes × Bytes} {p : Piece}

theorem needsQuote_iff : (∀ c ∈ x, isBare c = true) ↔ needsQuote x = false := by
  simp only [needsQuote, List.any_eq_false]
  refine forall₂_congr fun c _ => ?_
  simp [isBare, startsExpansion, Shell.isBlank, show ch ' ' = 32 from rfl]
  tauto

/-- Bytes that make names are nothing special. -/
theorem ordinary_of_isNameByte (h : isNameByte c = true) : isOrdinary c = true ∧ c ≠ ch '#' ∧ c ≠ ch '=' := by
  have hall : ∀ n < 256, isNameByte (UInt8.ofNat n) = true → isOrdinary (UInt8.ofNat n) = true ∧
      UInt8.ofNat n ≠ ch '#' ∧ UInt8.ofNat n ≠ ch '=' := by
    decide +kernel
  have := hall c.toNat c.toNat_lt
  rw [UInt8.ofNat_toNat] at this
  exact this h

theorem isName_of_mem (h : pair ∈ envPairs a.cmdEnv) : IsName pair.1 := by
  obtain ⟨entry, hentry, hpair⟩ := List.mem_filterMap.mp h
  obtain ⟨value, -, rfl⟩ := Option.map_eq_some_iff.mp hpair
  exact a.isName entry hentry

theorem envPiece_ok (h : IsName pair.1) : (envPiece pair).Ok where
  before := by
    intro c hc
    rcases List.mem_append.mp hc with hc | hc
    · exact (ordinary_of_isNameByte (h.2 c hc)).1
    · rw [List.mem_singleton.mp hc]
      decide
  start := by
    intro hhash
    simp only [envPiece] at hhash
    cases hname : pair.1 with
    | nil =>
      rw [hname] at hhash
      revert hhash
      decide
    | cons d name =>
      rw [hname] at hhash
      have hd : isNameByte d = true := h.2 d (hname ▸ List.mem_cons_self)
      exact (ordinary_of_isNameByte hd).2.1 (Option.some.inj hhash)
  body := needsQuote_iff

theorem argPiece_ok : (argPiece x).Ok where
  before := List.forall_mem_nil _
  start := nofun
  body := needsQuote_iff

theorem pieces_ok : ∀ p ∈ a.envPieces ++ a.argPieces, p.Ok := by
  intro p hp
  rcases List.mem_append.mp hp with hp | hp
  · obtain ⟨pair, hpair, rfl⟩ := List.mem_map.mp hp
    exact envPiece_ok (isName_of_mem hpair)
  · obtain ⟨x, -, rfl⟩ := List.mem_map.mp hp
    exact argPiece_ok

/-! ## The text -/

theorem source_argPiece (x : Bytes) : (argPiece x).source = cmdLineWord x := rfl

theorem source_envPiece (pair : Bytes × Bytes) :
    (envPiece pair).source = pair.1 ++ ch '=' :: cmdLineWord pair.2 := by
  show (pair.1 ++ [ch '=']) ++ cmdLineWord pair.2 = _
  rw [List.append_assoc]
  rfl

theorem joined_eq_spaced (xs : List Bytes) : joined [32] xs = spaced xs := by
  induction xs using spaced.induct with
  | case1 => rfl
  | case2 => rfl
  | case3 x y xs ih =>
    rw [joined, spaced, ih]
    rfl

theorem spaced_append {xs ys : List Bytes} (hxs : xs ≠ []) (hys : ys ≠ []) :
    spaced (xs ++ ys) = spaced xs ++ 32 :: spaced ys := by
  induction xs using spaced.induct with
  | case1 => exact absurd rfl hxs
  | case2 x =>
    obtain ⟨y, ys, rfl⟩ := List.exists_cons_of_ne_nil hys
    rfl
  | case3 x y xs ih =>
    have := ih (by simp)
    simp only [List.cons_append, spaced, List.append_assoc] at this ⊢
    rw [this]

def echoText (stdin : Bytes) : Bytes :=
  if stdin = [] then [] else ascii "echo " ++ (base64 stdin ++ ascii " | base64 -d | ")

theorem cmdLine_eq (a : ShellArgs) : cmdLine (a.cmdArgv.map fun x => some x.1) a.cmdEnv (some a.cmdStdin) =
    some (echoText a.cmdStdin ++ spaced ((a.envPieces ++ a.argPieces).map Piece.source)) := by
  have hargs : (a.cmdArgv.map fun x => some x.1).reduceOption.map cmdLineWord =
      a.argPieces.map Piece.source := by
    simp [List.reduceOption, argPieces, source_argPiece, List.filterMap_map, Function.comp_def]
  have henv : ((envPairs a.cmdEnv).map fun (name, value) => name ++ ch '=' :: cmdLineWord value) =
      a.envPieces.map Piece.source := by
    simp [envPieces, source_envPiece, Function.comp_def]
  have hne : a.argPieces.map Piece.source ≠ [] := fun h =>
    a.cmdArgv_ne_nil (List.map_eq_nil_iff.mp (List.map_eq_nil_iff.mp h))
  have hecho : (match some a.cmdStdin with
      | none | some [] => []
      | some stdin => ascii "echo " ++ (base64 stdin ++ ascii " | base64 -d | ")) = echoText a.cmdStdin := by
    unfold echoText
    cases a.cmdStdin with
    | nil => rfl
    | cons c stdin => rfl
  unfold cmdLine
  rw [hargs, henv, hecho, stringAgg, if_neg hne, List.map_append]
  show some _ = some _
  congr 2
  rw [joined_eq_spaced, stringAgg, joined_eq_spaced]
  split
  · rename_i hnil
    rw [hnil]
    rfl
  · rename_i henv
    rw [spaced_append henv hne]
    simp

/-! ## Echoing the input -/

/-- What a byte of base64 is not. -/
def IsPlainByte (c : Byte) : Prop :=
  isOrdinary c = true ∧ c ≠ ch '#' ∧ c ≠ ch '~' ∧ c ≠ ch '*' ∧ c ≠ ch '?' ∧ c ≠ ch '['

instance (c : Byte) : Decidable (IsPlainByte c) := inferInstanceAs (Decidable (_ ∧ _))

theorem isPlainByte_base64Digit : ∀ n < 64, IsPlainByte (base64Digit n) := by decide +kernel

theorem isPlainByte_base64 : ∀ c ∈ base64 x, IsPlainByte c := by
  have hdigit {n : Nat} (h : n < 64) := isPlainByte_base64Digit n h
  have hpad : IsPlainByte (ch '=') := by decide
  induction x using base64.induct with
  | case1 => exact List.forall_mem_nil _
  | case2 a =>
    have := a.toNat_lt
    simp only [base64, List.forall_mem_cons]
    exact ⟨hdigit (by omega), hdigit (by omega), hpad, hpad, List.forall_mem_nil _⟩
  | case3 a b =>
    have := a.toNat_lt
    have := b.toNat_lt
    simp only [base64, List.forall_mem_cons]
    exact ⟨hdigit (by omega), hdigit (by omega), hdigit (by omega), hpad, List.forall_mem_nil _⟩
  | case4 a b c rest ih =>
    have := a.toNat_lt
    have := b.toNat_lt
    have := c.toNat_lt
    simp only [base64, List.forall_mem_cons]
    exact ⟨hdigit (by omega), hdigit (by omega), hdigit (by omega), hdigit (by omega), ih⟩

theorem base64_ne_nil (h : x ≠ []) : base64 x ≠ [] := by
  unfold base64
  split
  · exact absurd rfl h
  all_goals simp

theorem tokens_plainBytes (hne : x ≠ []) (hx : ∀ c ∈ x, IsPlainByte c) :
    Scan.tokens {} (x ++ 32 :: rest) = (Scan.tokens {} rest).map (.word (unquoted x) :: ·) := by
  rw [tokens_start hne (fun c hc => (hx c hc).1), tokens_blank]
  intro hhash
  exact (hx _ (List.mem_of_head? hhash)).2.1 rfl

theorem tokens_pipe (rest : Bytes) : Scan.tokens {} (ch '|' :: rest) =
    (Scan.tokens {} rest).map (.operator (ch '|') :: ·) := rfl

theorem tokens_echoText (h : x ≠ []) : Scan.tokens {} (echoText x ++ rest) =
    (Scan.tokens {} rest).map fun ts => .word (unquoted (ascii "echo")) :: .word (unquoted (base64 x)) ::
      .operator (ch '|') :: .word (unquoted (ascii "base64")) :: .word (unquoted (ascii "-d")) ::
        .operator (ch '|') :: ts := by
  have htext : echoText x ++ rest = ascii "echo" ++ 32 :: (base64 x ++ 32 :: ch '|' :: 32 ::
      (ascii "base64" ++ 32 :: (ascii "-d" ++ 32 :: ch '|' :: 32 :: rest))) := by
    rw [echoText, if_neg h, List.append_assoc, List.append_assoc]
    rfl
  rw [htext, tokens_plainBytes (by decide) (by decide +kernel),
    tokens_plainBytes (base64_ne_nil h) isPlainByte_base64, tokens_pipe, tokens_blank_start,
    tokens_plainBytes (by decide) (by decide +kernel), tokens_plainBytes (by decide) (by decide +kernel), tokens_pipe,
    tokens_blank_start]
  simp only [Option.map_map, Function.comp_def]

theorem pattern_plainBytes (h : ∀ c ∈ x, IsPlainByte c) : Word.pattern (unquoted x) = false := by
  induction x with
  | nil => rfl
  | cons c x ih =>
    rw [List.forall_mem_cons] at h
    have ih : Word.pattern (x.map (·, false)) = false := ih h.2
    simp [unquoted, Word.pattern, isUnquoted, h.1.2.2.2.1, h.1.2.2.2.2.1, h.1.2.2.2.2.2, ih]

theorem commands_echo (x : Bytes) (ts : List Token) : commands [] (.word (unquoted (ascii "echo")) ::
      .word (unquoted (base64 x)) :: .operator (ch '|') :: .word (unquoted (ascii "base64")) ::
        .word (unquoted (ascii "-d")) :: .operator (ch '|') :: ts) =
    (commands [] ts).map fun cs =>
      ⟨[], [ascii "echo", base64 x]⟩ :: ⟨[], [ascii "base64", ascii "-d"]⟩ :: cs := by
  have hecho : simpleCommand [unquoted (ascii "echo"), unquoted (base64 x)] =
      some ⟨[], [ascii "echo", base64 x]⟩ := by
    have hiff := @simpleCommand_iff [] [unquoted (ascii "echo"), unquoted (base64 x)] [] rfl (by simp)
    simp only [List.nil_append, List.map_nil, List.map_cons, bytes_unquoted] at hiff
    have hname : Word.reserved (unquoted (ascii "echo")) = false ∧
        Word.assignment (unquoted (ascii "echo")) = none ∧
          Word.tilde (unquoted (ascii "echo")) = false ∧ Word.pattern (unquoted (ascii "echo")) = false := by
      decide +kernel
    have htilde : Word.tilde (unquoted (base64 x)) = false :=
      tilde_unquoted.mpr fun htilde => (isPlainByte_base64 _ (List.mem_of_head? htilde)).2.2.1 rfl
    rw [hiff, List.forall_mem_cons, List.forall_mem_singleton]
    refine ⟨?_, List.forall_mem_nil _, ?_, hname.2.2, htilde, pattern_plainBytes isPlainByte_base64⟩
    · rintro w ⟨⟩
      exact hname.1
    · rintro w ⟨⟩
      exact hname.2.1
  have hdecode : simpleCommand [unquoted (ascii "base64"), unquoted (ascii "-d")] =
      some ⟨[], [ascii "base64", ascii "-d"]⟩ := by
    decide +kernel
  simp only [commands, List.nil_append, List.cons_append, if_true, hecho, hdecode]
  cases commands [] ts <;> rfl

/-! ## When the command is read back -/

/-- What echoes the input is always read as it should be. -/
theorem readByShell_tokens : a.ReadByShell ↔
    (Scan.tokens {} (spaced ((a.envPieces ++ a.argPieces).map Piece.source))).bind (commands []) =
      some [a.command] := by
  have hread : a.ReadByShell ↔ Shell.pipeline (echoText a.cmdStdin ++
      spaced ((a.envPieces ++ a.argPieces).map Piece.source)) = some a.pipeline := by
    rw [ReadByShell, cmdLine_eq]
    simp
  rw [hread, Shell.pipeline, ShellArgs.pipeline]
  by_cases h : a.cmdStdin = []
  · rw [if_pos h, h]
    rfl
  · rw [if_neg h, tokens_echoText h, Option.bind_map]
    simp only [Function.comp_def, commands_echo]
    cases Scan.tokens {} (spaced ((a.envPieces ++ a.argPieces).map Piece.source)) with
    | none => simp
    | some ts => cases hts : commands [] ts <;> simp [hts]

def envNames (a : ShellArgs) : List (Bytes × Word) :=
  (envPairs a.cmdEnv).map fun pair => (pair.1, pair.2.map (·, needsQuote pair.2))

theorem assignment_envPieces :
    (a.envPieces.map Piece.word).map Word.assignment = a.envNames.map some := by
  rw [envPieces, envNames, List.map_map, List.map_map, List.map_map]
  refine List.map_congr_left fun pair hpair => ?_
  exact assignment_name (isName_of_mem hpair) _

/-- The words that are meant make the command in just these cases. -/
theorem simpleCommand_pieces :
    simpleCommand (a.envPieces.map Piece.word ++ a.argPieces.map Piece.word) = some a.command ↔
      (∀ w ∈ (a.envPieces.map Piece.word ++ a.argPieces.map Piece.word).head?, w.reserved = false) ∧
        (∀ n ∈ a.envNames, n.2.assignmentTilde = false) ∧
          (∀ w ∈ (a.argPieces.map Piece.word).head?, w.assignment = none) ∧
            ∀ w ∈ a.argPieces.map Piece.word, w.tilde = false ∧ w.pattern = false := by
  have hne : a.argPieces.map Piece.word ≠ [] := fun h =>
    a.cmdArgv_ne_nil (List.map_eq_nil_iff.mp (List.map_eq_nil_iff.mp h))
  have hiff := simpleCommand_iff (@assignment_envPieces a) hne
  have hargs : (a.argPieces.map Piece.word).map Word.bytes = a.cmdArgv.map (·.1) := by
    simp [argPieces, bytes_word, argPiece, Piece.value, Function.comp_def]
  have hnames : (a.envNames.map fun n => (n.1, Word.bytes n.2)) = envPairs a.cmdEnv := by
    simp [envNames, Word.bytes, Function.comp_def]
  rwa [hargs, hnames] at hiff

theorem bytes_command : (a.command.assignments.map fun n => n.1 ++ ch '=' :: n.2) ++ a.command.words =
    (a.envPieces ++ a.argPieces).map Piece.value := by
  simp [command, envPieces, argPieces, envPiece, argPiece, Piece.value, Function.comp_def]

/-- Read back means that each word is, and that nothing is made of the words. -/
theorem readByShell_pieces : a.ReadByShell ↔
    (∀ p ∈ a.envPieces ++ a.argPieces, p.Plain) ∧
      simpleCommand (a.envPieces.map Piece.word ++ a.argPieces.map Piece.word) = some a.command := by
  have htokens (h : ∀ p ∈ a.envPieces ++ a.argPieces, p.Plain) :
      Scan.tokens {} (spaced ((a.envPieces ++ a.argPieces).map Piece.source)) =
        some ((a.envPieces.map Piece.word ++ a.argPieces.map Piece.word).map .word) := by
    rw [tokens_pieces pieces_ok h]
    simp [Function.comp_def]
  rw [readByShell_tokens]
  constructor
  · intro h
    obtain ⟨ts, hts, h⟩ := Option.bind_eq_some_iff.mp h
    obtain ⟨ws, rfl, hcommand⟩ := words_of_commands h
    rw [List.nil_append] at hcommand
    have hbytes := bytes_of_simpleCommand hcommand
    rw [bytes_command] at hbytes
    obtain ⟨-, hplain⟩ := plain_of_tokens pieces_ok (List.forall_mem_nil _) hts hbytes
    rw [htokens hplain, Option.some.injEq] at hts
    have hws := List.map_injective_iff.mpr (fun _ _ h => Token.word.inj h) hts
    exact ⟨hplain, hws ▸ hcommand⟩
  · rintro ⟨hplain, hcommand⟩
    rw [htokens hplain, Option.bind_some, commands_words, List.nil_append, hcommand]
    rfl

theorem marked (x : Bytes) :
    x.map (·, needsQuote x) = if needsQuote x then quoted x else unquoted x := by
  cases h : needsQuote x <;> rfl

theorem ne_nil_of_needsQuote (h : needsQuote x = true) : x ≠ [] := by
  rintro rfl
  cases h

theorem plain_argPiece : (argPiece x).Plain ∧ Word.tilde (argPiece x).word = false ∧
      Word.pattern (argPiece x).word = false ↔ (needsQuote x = false → PlainArg x) := by
  have hword : (argPiece x).word = x.map (·, needsQuote x) := rfl
  rw [hword, marked]
  cases h : needsQuote x
  · simp only [Bool.false_eq_true, if_false, tilde_unquoted, forall_const]
    constructor
    · rintro ⟨hplain, htilde, hpattern⟩
      obtain ⟨hne, hordinary, hhash⟩ := hplain h
      exact ⟨hne, hordinary, ⟨hhash, htilde⟩, hpattern⟩
    · intro hx
      exact ⟨fun _ => ⟨hx.ne_nil, hx.ordinary, hx.start.1⟩, hx.start.2, hx.pattern⟩
  · simp [tilde_quoted, pattern_quoted, Piece.Plain, argPiece, h]

theorem plain_envPiece (hname : IsName pair.1) : (envPiece pair).Plain ∧
      Word.assignmentTilde (pair.2.map (·, needsQuote pair.2)) = false ↔
    (needsQuote pair.2 = false →
      (∀ c ∈ pair.2, isOrdinary c = true) ∧ Word.assignmentTilde (unquoted pair.2) = false) := by
  have hok := envPiece_ok hname
  rw [marked]
  cases h : needsQuote pair.2
  · simp only [Bool.false_eq_true, if_false, forall_const]
    refine and_congr_left fun _ => ⟨fun hplain c hc => ?_, fun hordinary _ => ⟨?_, ?_, ?_⟩⟩
    · exact (hplain h).2.1 c (List.mem_append_right _ hc)
    · simp [envPiece, Piece.value]
    · intro c hc
      rcases List.mem_append.mp hc with hc | hc
      · exact hok.before c hc
      · exact hordinary c hc
    · have hstart := hok.start
      cases hname : pair.1 <;> simpa [envPiece, Piece.value, hname] using hstart
  · simp [assignmentTilde_quoted, Piece.Plain, envPiece, h]

theorem envPieces_eq_nil_iff : a.envPieces = [] ↔ a.cmdEnv.entries = [] := by
  rw [envPieces, List.map_eq_nil_iff]
  constructor
  · intro h
    by_contra hne
    obtain ⟨pair, entries, hentries⟩ := List.exists_cons_of_ne_nil hne
    obtain ⟨value, hvalue, -⟩ := a.isText pair (hentries ▸ List.mem_cons_self)
    have : (pair.1, value) ∈ envPairs a.cmdEnv :=
      List.mem_filterMap.mpr ⟨pair, hentries ▸ List.mem_cons_self, by rw [hvalue]; rfl⟩
    rw [h] at this
    cases this
  · intro h
    rw [envPairs, h]
    rfl

theorem name_argPiece : (∀ w ∈ some (argPiece x).word, w.assignment = none) ↔
    (needsQuote x = false → Word.assignment (unquoted x) = none) := by
  have hword : (argPiece x).word = x.map (·, needsQuote x) := rfl
  rw [hword, marked]
  cases h : needsQuote x <;> simp [assignment_quoted]

theorem reserved_argPiece : (∀ w ∈ some (argPiece x).word, w.reserved = false) ↔
    (needsQuote x = false → x ∉ reservedWords) := by
  have hword : (argPiece x).word = x.map (·, needsQuote x) := rfl
  rw [hword, marked]
  cases h : needsQuote x
  · simp [reserved_unquoted]
  · simp [reserved_quoted (ne_nil_of_needsQuote h)]

/-- The first word is the first argument if there is no variable. -/
theorem plain_name : (∀ w ∈ (a.envPieces.map Piece.word ++ a.argPieces.map Piece.word).head?,
      w.reserved = false) ∧ (∀ w ∈ (a.argPieces.map Piece.word).head?, w.assignment = none) ↔
    ∀ x ∈ a.cmdArgv.head?, needsQuote x = false → Word.assignment (unquoted x) = none ∧
      (a.cmdEnv.entries = [] → x.1 ∉ reservedWords) := by
  obtain ⟨x, xs, hargv⟩ := List.exists_cons_of_ne_nil a.cmdArgv_ne_nil
  have hargs : a.argPieces.map Piece.word = (argPiece x).word :: (xs.map fun x => (argPiece x.1).word) := by
    simp [argPieces, hargv]
  rw [hargs, hargv, List.head?_cons, List.head?_cons, name_argPiece, ← envPieces_eq_nil_iff]
  simp only [Option.mem_some_iff, forall_eq']
  by_cases henv : a.envPieces = []
  · have := @reserved_argPiece x
    rw [henv, List.map_nil, List.nil_append, List.head?_cons, this]
    simp only [forall_const]
    exact ⟨fun h hx => ⟨h.2 hx, h.1 hx⟩, fun h => ⟨fun hx => (h hx).2, fun hx => (h hx).1⟩⟩
  · have hreserved : ∀ w ∈ (a.envPieces.map Piece.word ++ (argPiece x).word ::
        xs.map fun x => (argPiece x.1).word).head?, w.reserved = false := by
      obtain ⟨p, ps, hp⟩ := List.exists_cons_of_ne_nil henv
      obtain ⟨pair, hpair, rfl⟩ := List.mem_map.mp (show p ∈ a.envPieces from hp ▸ List.mem_cons_self)
      rw [hp]
      rintro w ⟨⟩
      exact reserved_assignment (assignment_name (isName_of_mem hpair) _)
    simp only [henv, false_implies, and_true]
    exact and_iff_right hreserved

/-- Only some of the characters that a shell treats specially make `cmd_line` quote a word. -/
theorem readByShell_iff (a : ShellArgs) : a.ReadByShell ↔ a.Plain := by
  have hargs : (∀ x ∈ a.cmdArgv, needsQuote x = false → PlainArg x) ↔
      (∀ p ∈ a.argPieces, p.Plain) ∧ ∀ w ∈ a.argPieces.map Piece.word, w.tilde = false ∧ w.pattern = false := by
    simp only [argPieces, List.map_map, List.forall_mem_map, Function.comp_apply, ← forall₂_and,
      ← plain_argPiece]
  have hvalues : (∀ pair ∈ envPairs a.cmdEnv, needsQuote pair.2 = false →
        (∀ c ∈ pair.2, isOrdinary c = true) ∧ Word.assignmentTilde (unquoted pair.2) = false) ↔
      (∀ p ∈ a.envPieces, p.Plain) ∧ ∀ n ∈ a.envNames, n.2.assignmentTilde = false := by
    simp only [envPieces, envNames, List.forall_mem_map, ← forall₂_and]
    exact forall₂_congr fun pair hpair => (plain_envPiece (isName_of_mem hpair)).symm
  rw [readByShell_pieces, simpleCommand_pieces, List.forall_mem_append]
  constructor
  · rintro ⟨⟨henv, hargv⟩, hreserved, htilde, hassignment, hwords⟩
    exact ⟨hargs.mpr ⟨hargv, hwords⟩, hvalues.mpr ⟨henv, htilde⟩, plain_name.mp ⟨hreserved, hassignment⟩⟩
  · rintro ⟨hx, hpair, hname⟩
    obtain ⟨hargv, hwords⟩ := hargs.mp hx
    obtain ⟨henv, htilde⟩ := hvalues.mp hpair
    obtain ⟨hreserved, hassignment⟩ := plain_name.mpr hname
    exact ⟨⟨henv, hargv⟩, hreserved, htilde, hassignment, hwords⟩

def reboot : ShellArgs where
  cmdArgv := [⟨ascii "echo", by decide⟩, ⟨ascii "done;reboot", by decide⟩]
  cmdArgv_ne_nil := List.cons_ne_nil _ _
  cmdEnv := ∅
  isName := List.forall_mem_nil _
  isText := List.forall_mem_nil _
  cmdStdin := []

/-- The semicolon ends the command, and what follows it is another one. -/
theorem not_readByShell_reboot : ¬reboot.ReadByShell := by
  intro h
  have hplain := (readByShell_pieces.mp h).1 (argPiece (ascii "done;reboot")) (List.mem_cons_of_mem _
    List.mem_cons_self) (by decide)
  exact absurd (hplain.2.1 (ch ';') (by decide)) (by decide)

end ShellArgs

end PgCmdQueue.Extension
