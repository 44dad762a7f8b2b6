import PgCmdQueue.Postgres.Text
import PgCmdQueue.Pq.Quotes

/-!
# `PQ::from_text_hstore`

The scanner against hstore's text output.
-/

namespace PgCmdQueue.Pq

open Cpp Postgres

def unescapeLoop (escaped : Bytes) : Nat → Nat → Bytes → Bytes
  | 0, _, unescaped => unescaped
  | n + 1, i, unescaped =>
    if i < escaped.length then
      -- Skip past the escape character, unless it is the escaped escape character itself.
      let i := if charAtOrNul escaped i = ch '\\' ∧
        (i = 0 ∨ charAtOrNul escaped (i - 1) ≠ ch '\\') then i + 1 else i
      unescapeLoop escaped n (i + 1) (unescaped ++ [charAtOrNul escaped i])
    else unescaped

def unescapeHstoreText (escaped : Bytes) : Bytes := unescapeLoop escaped escaped.length 0 []

structure HstoreScan where
  inQuotes : Bool
  keyStart : Nat
  keyEnd : Nat
  valStart : Nat
  valEnd : Nat
  result : Hstore

def hstoreScanQuote (input : Bytes) (i : Nat) (s : HstoreScan) : Except CppError HstoreScan :=
  if ¬ s.inQuotes then
    if s.keyStart = 0 then
      .ok { s with inQuotes := true, keyStart := i + 1 }
    else if s.valStart = 0 then
      .ok { s with inQuotes := true, valStart := i + 1 }
    else
      .ok { s with inQuotes := true }
  else if s.keyEnd = 0 then
    .ok { s with inQuotes := false, keyEnd := posBefore i }
  else if s.valEnd = 0 then do
    let rawVal ← substrTo input s.valStart (posBefore i)
    let key ← substrTo input s.keyStart s.keyEnd
    let value := if strcasecmpEq rawVal (ascii "NULL") then none
      else some (unescapeHstoreText rawVal)
    .ok ⟨false, 0, 0, 0, 0, s.result.insert key value⟩
  else
    .ok { s with inQuotes := false }

def hstoreScanLoop (input : Bytes) : Nat → Nat → HstoreScan → Except CppError Hstore
  | 0, _, s => .ok s.result
  | n + 1, i, s =>
    if i < input.length then
      let c := charAtOrNul input i
      if c = ch '"' ∧ (i = 0 ∨ charAtOrNul input (i - 1) ≠ ch '\\') then do
        let s ← hstoreScanQuote input i s
        hstoreScanLoop input n (i + 1) s
      else if ¬ s.inQuotes ∧ c = ch '=' ∧ charAtOrNul input (i + 1) = ch '>' then
        hstoreScanLoop input n (i + 2) s
      else
        hstoreScanLoop input n (i + 1) s
    else .ok s.result

def fromTextHstore (input : Bytes) : Except CppError Hstore :=
  hstoreScanLoop input input.length 0 ⟨false, 0, 0, 0, 0, ∅⟩

/-- An environment: every name has a value. -/
abbrev Env := AList fun _ : Bytes => Bytes

def throwIfMissingAnyValue (m : Hstore) : Except CppError Env :=
  m.entries.foldlM (fun env p => match p.2 with
    | none => .error (.runtimeError "Unexpected key without value.")
    | some v => .ok (env.insert p.1 v)) ∅

/-! ## Unescaping one value -/

/-- `unescapeLoop` by recursion over the bytes that are left. -/
def unescapeFrom (before : Byte) : Bytes → Bytes
  | [] => []
  | [c] => if c = ch '\\' ∧ before ≠ ch '\\' then [0] else [c]
  | c :: d :: rest =>
    if c = ch '\\' ∧ before ≠ ch '\\' then d :: unescapeFrom d rest
    else c :: unescapeFrom c (d :: rest)

variable {input rest x v escaped : Bytes} {s s' : HstoreScan} {i n : Nat} {b c before : Byte}

theorem unescapeLoop_eq (h : Ahead escaped i rest) (hb : Before escaped i before)
    (hn : rest.length ≤ n) (out : Bytes) :
    unescapeLoop escaped n i out = out ++ unescapeFrom before rest := by
  induction n generalizing i rest before out with
  | zero =>
    rw [List.eq_nil_of_length_eq_zero (by omega : rest.length = 0)]
    simp [unescapeLoop, unescapeFrom]
  | succ n ih =>
    match rest, h, hn with
    | [], h, _ =>
      have hlen := congrArg List.length h
      simp at hlen
      rw [unescapeLoop, if_neg (by omega)]
      simp [unescapeFrom]
    | [c], h, _ =>
      rw [unescapeLoop, if_pos h.lt]
      simp only [charAtOrNul_eq h.head, before_iff hb]
      have hend := congrArg List.length h.tail
      simp at hend
      have hover : charAtOrNul escaped (i + 1) = 0 := by
        rw [charAtOrNul, List.getD_eq_getElem?_getD, List.getElem?_eq_none (by omega)]
        rfl
      by_cases hskip : c = ch '\\' ∧ before ≠ ch '\\'
      · have hnil : Ahead escaped (i + 1 + 1) [] := by simp [Ahead]; omega
        rw [if_pos hskip]
        simp only [unescapeFrom, if_pos hskip, hover]
        cases n with
        | zero => rfl
        | succ n => rw [unescapeLoop, if_neg (by omega)]
      · rw [if_neg hskip]
        simp only [unescapeFrom, if_neg hskip, charAtOrNul_eq h.head]
        exact (ih h.tail (before_succ h.head) (by simp) _).trans (by simp [unescapeFrom])
    | c :: d :: rest, h, hn =>
      simp only [List.length_cons] at hn
      rw [unescapeLoop, if_pos h.lt]
      simp only [charAtOrNul_eq h.head, before_iff hb]
      by_cases hskip : c = ch '\\' ∧ before ≠ ch '\\'
      · rw [if_pos hskip]
        simp only [unescapeFrom, if_pos hskip, charAtOrNul_eq h.tail.head]
        rw [ih h.tail.tail (before_succ h.tail.head) (by omega)]
        simp
      · rw [if_neg hskip]
        simp only [unescapeFrom, if_neg hskip, charAtOrNul_eq h.head]
        rw [ih h.tail (before_succ h.head) (by simp; omega)]
        simp

theorem unescapeFrom_keep (h : ¬(c = ch '\\' ∧ before ≠ ch '\\')) :
    unescapeFrom before (c :: rest) = c :: unescapeFrom c rest := by
  cases rest <;> simp only [unescapeFrom, if_neg h]

theorem unescapeFrom_skip (h : before ≠ ch '\\') :
    unescapeFrom before (ch '\\' :: c :: rest) = c :: unescapeFrom c rest := by
  rw [unescapeFrom, if_pos ⟨rfl, h⟩]

/-- Bytes that need escaping and come right after a backslash. -/
def collisions (before : Byte) : Bytes → Nat
  | [] => 0
  | c :: rest => (if before = ch '\\' ∧ isSpecial c then 1 else 0) + collisions c rest

/-- The escape character in front of each of them is taken for a byte of the text. -/
theorem length_unescapeFrom :
    (unescapeFrom before (escapeBackslash v)).length = v.length + collisions before v := by
  induction v generalizing before with
  | nil => rfl
  | cons c v ih =>
    rw [escapeBackslash] at ih ⊢
    rw [collisions]
    cases hc : isSpecial c
    · rw [Escape.escape_cons_plain hc, unescapeFrom_keep (by rintro ⟨rfl, -⟩; simp [isSpecial] at hc)]
      simp [ih]; omega
    · rw [Escape.escape_cons_special hc]
      by_cases hb : before = ch '\\'
      · rw [unescapeFrom_keep (by simp [hb]), unescapeFrom_keep (by simp)]
        simp [ih, hb]; omega
      · rw [unescapeFrom_skip hb]
        simp [ih, hb]; omega

theorem unescapeFrom_eq (h : collisions before v = 0) :
    unescapeFrom before (escapeBackslash v) = v := by
  induction v generalizing before with
  | nil => rfl
  | cons c v ih =>
    rw [escapeBackslash] at ih ⊢
    rw [collisions, Nat.add_eq_zero_iff] at h
    cases hc : isSpecial c
    · rw [Escape.escape_cons_plain hc, unescapeFrom_keep (by rintro ⟨rfl, -⟩; simp [isSpecial] at hc),
        ih h.2]
    · have hb : before ≠ ch '\\' := by
        rintro rfl
        simp [hc] at h
      rw [Escape.escape_cons_special hc, unescapeFrom_skip hb, ih h.2]

theorem unescapeFrom_eq_iff :
    unescapeFrom before (escapeBackslash v) = v ↔ collisions before v = 0 := by
  refine ⟨fun h => ?_, unescapeFrom_eq⟩
  have hlen := congrArg List.length h
  rw [length_unescapeFrom] at hlen
  omega

theorem unescapeHstoreText_eq (escaped : Bytes) :
    unescapeHstoreText escaped = unescapeFrom 0 escaped := by
  rw [unescapeHstoreText, unescapeLoop_eq ahead_zero (before_zero (b := 0) (by decide)) le_rfl,
    List.nil_append]

/-- Every backslash is followed by a byte that needs no escaping. -/
def backslashesStandAlone : Bytes → Bool
  | [] => true
  | [c] => c != ch '\\'
  | c :: d :: rest => (c != ch '\\' || !isSpecial d) && backslashesStandAlone (d :: rest)

theorem standAlone_cons : backslashesStandAlone (c :: v) = true ↔
    collisions c v = 0 ∧ (c :: v).getLast? ≠ some (ch '\\') := by
  induction v generalizing c with
  | nil => simp [backslashesStandAlone, collisions]
  | cons d v ih =>
    rw [backslashesStandAlone, Bool.and_eq_true, ih, collisions, List.getLast?_cons_cons]
    by_cases hc : c = ch '\\' <;> cases hd : isSpecial d <;> simp [hc]

theorem standAlone_iff : backslashesStandAlone v = true ↔
    unescapeHstoreText (escapeBackslash v) = v ∧ v.getLast? ≠ some (ch '\\') := by
  rw [unescapeHstoreText_eq, unescapeFrom_eq_iff]
  cases v with
  | nil => simp [backslashesStandAlone, collisions]
  | cons c v => rw [standAlone_cons, collisions]; simp +decide

/-! ## The loop without its counter -/

/-- Every iteration moves `i` forward, so more iterations than bytes change nothing. -/
theorem hstoreScanLoop_more (k : Nat) (h : input.length ≤ i + n) :
    hstoreScanLoop input (n + k) i s = hstoreScanLoop input n i s := by
  induction n generalizing i s with
  | zero => cases k <;> simp [hstoreScanLoop]; omega
  | succ n ih =>
    rw [show n + 1 + k = n + k + 1 by omega, hstoreScanLoop, hstoreScanLoop]
    split
    · dsimp only
      split
      · cases hstoreScanQuote input i s with
        | error e => rfl
        | ok s' => exact ih (by omega)
      · split
        · exact ih (by omega)
        · exact ih (by omega)
    · rfl

/-- The loop from byte `i` on. -/
def hstoreScan (input : Bytes) (i : Nat) (s : HstoreScan) : Except CppError Hstore :=
  hstoreScanLoop input (input.length - i) i s

theorem hstoreScanLoop_eq (h : input.length ≤ i + n) :
    hstoreScanLoop input n i s = hstoreScan input i s := by
  obtain ⟨k, rfl⟩ : ∃ k, n = input.length - i + k := ⟨n - (input.length - i), by omega⟩
  exact hstoreScanLoop_more k (by omega)

theorem hstoreScan_end (h : input.length ≤ i) : hstoreScan input i s = .ok s.result := by
  rw [hstoreScan, Nat.sub_eq_zero_of_le h]
  rfl

theorem hstoreScan_step (h : Ahead input i (c :: rest)) : hstoreScan input i s =
    if c = ch '"' ∧ (i = 0 ∨ charAtOrNul input (i - 1) ≠ ch '\\') then
      (hstoreScanQuote input i s).bind (hstoreScan input (i + 1))
    else if ¬ s.inQuotes ∧ c = ch '=' ∧ charAtOrNul input (i + 1) = ch '>' then
      hstoreScan input (i + 2) s
    else hstoreScan input (i + 1) s := by
  have hi := h.lt
  have h1 : ∀ s, hstoreScanLoop input (input.length - i - 1) (i + 1) s =
      hstoreScan input (i + 1) s := fun _ => hstoreScanLoop_eq (by omega)
  have h2 : ∀ s, hstoreScanLoop input (input.length - i - 1) (i + 2) s =
      hstoreScan input (i + 2) s := fun _ => hstoreScanLoop_eq (by omega)
  rw [← hstoreScanLoop_eq (n := input.length - i - 1 + 1) (by omega), hstoreScanLoop, if_pos hi,
    charAtOrNul_eq h.head]
  simp only [h1, h2]
  rfl

theorem hstoreScan_byte (h : Ahead input i (c :: rest)) (hc : c ≠ ch '"')
    (he : c ≠ ch '=' ∨ s.inQuotes = true) : hstoreScan input i s = hstoreScan input (i + 1) s := by
  rw [hstoreScan_step h, if_neg (by tauto), if_neg]
  rintro ⟨hq, rfl, -⟩
  simp_all

theorem hstoreScan_quote (h : Ahead input i (ch '"' :: rest)) (hb : Before input i b)
    (hne : b ≠ ch '\\') : hstoreScan input i s =
      (hstoreScanQuote input i s).bind (hstoreScan input (i + 1)) := by
  rw [hstoreScan_step h, if_pos ⟨rfl, (before_iff hb).mpr hne⟩]

/-- A double quote after a backslash is passed over. -/
theorem hstoreScan_escaped (h : Ahead input i (ch '\\' :: ch '"' :: rest)) :
    hstoreScan input (i + 1) s = hstoreScan input (i + 2) s := by
  rw [hstoreScan_step h.tail, if_neg, if_neg (by simp +decide)]
  rw [before_iff (before_succ h.head)]
  simp

/-- Inside quotes the scanner stays there until the closing quote, whatever the token. -/
theorem hstoreScan_body (hq : s.inQuotes = true) (h : Ahead input i (escapeBackslash x ++ rest)) :
    hstoreScan input i s = hstoreScan input (i + (escapeBackslash x).length) s := by
  induction x generalizing i with
  | nil => rfl
  | cons c x ih =>
    rw [escapeBackslash] at ih h ⊢
    cases hc : isSpecial c
    · rw [Escape.escape_cons_plain hc] at h ⊢
      rw [hstoreScan_byte h (by rintro rfl; simp [isSpecial] at hc) (.inr hq), ih h.tail]
      congr 1
      simp; omega
    · rw [Escape.escape_cons_special hc] at h ⊢
      have hskip : hstoreScan input (i + 1) s = hstoreScan input (i + 2) s := by
        rcases isSpecial_iff.mp hc with rfl | rfl
        · exact hstoreScan_escaped h
        · exact hstoreScan_byte h.tail (by decide) (.inr hq)
      rw [hstoreScan_byte h (by decide) (.inr hq), hskip, ih h.tail.tail]
      congr 1
      simp; omega

end PgCmdQueue.Pq
