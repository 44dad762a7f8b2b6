import PgCmdQueue.Postgres.Input
import PgCmdQueue.Pq.Hstore

/-!
# `PQ::as_text_array`, `PQ::as_text_composite_value` and `PQ::as_text_hstore`

The encoders of the daemon, read by the server. All three put every text in double
quotes, and all three spell a missing one `NULL`.
-/

namespace PgCmdQueue.Pq

open Cpp Postgres

/-- `regex_replace` puts a backslash in front of each match of `"|\\`. -/
def doubleQuote (unquoted : Bytes) : Bytes := ch '"' :: (escapeBackslash unquoted ++ [ch '"'])

def quotedOrNull : Option Bytes → Bytes
  | some text => doubleQuote text
  | none => ascii "NULL"

def asTextArray (arrayish : List (Option Bytes)) : Bytes :=
  ch '{' :: (joined (ascii ",") (arrayish.map quotedOrNull) ++ [ch '}'])

/-- The overload for strings that are all there. -/
def asTextArrayOfStrings (arrayish : List Bytes) : Bytes :=
  ch '{' :: (joined (ascii ",") (arrayish.map doubleQuote) ++ [ch '}'])

def asTextCompositeValue (fieldValues : List (Option Bytes)) : Bytes :=
  ch '(' :: (joined (ascii ",") (fieldValues.map quotedOrNull) ++ [ch ')'])

def hstoreEntryText (pair : Σ _ : Bytes, Option Bytes) : Bytes :=
  doubleQuote pair.1 ++ (ascii "=>" ++ quotedOrNull pair.2)

/-- The loop takes the entries of the `unordered_map` in whatever order they come. -/
def asTextHstore (entries : List (Σ _ : Bytes, Option Bytes)) : Bytes :=
  joined (ascii ",") (entries.map hstoreEntryText)

/-- The overload for a map to strings. -/
def asTextHstoreOfStrings (entries : List (Σ _ : Bytes, Bytes)) : Bytes :=
  joined (ascii ",") (entries.map fun pair =>
    doubleQuote pair.1 ++ (ascii "=>" ++ doubleQuote pair.2))

def environAssign (map : Env) (entry : Bytes) : Except CppError Env :=
  if ch '=' ∈ entry then
    .ok (map.insert (entry.takeWhile (· != ch '=')) ((entry.dropWhile (· != ch '=')).drop 1))
  else .error (.runtimeError
    "`**environ` member strings are each expected to have an equals sign.")

def environToUnorderedMap (environ : List Bytes) : Except CppError Env :=
  environ.foldlM environAssign ∅

theorem asTextArrayOfStrings_eq (arrayish : List Bytes) :
    asTextArrayOfStrings arrayish = asTextArray (arrayish.map some) := by
  rw [asTextArrayOfStrings, asTextArray, List.map_map]
  rfl

theorem asTextHstoreOfStrings_eq (entries : List (Σ _ : Bytes, Bytes)) :
    asTextHstoreOfStrings entries = asTextHstore (entries.map fun p => ⟨p.1, some p.2⟩) := by
  rw [asTextHstoreOfStrings, asTextHstore, List.map_map]
  rfl

variable {x rest : Bytes} {c : Byte} {f : Option Bytes}

/-! ## No text has a NUL of its own -/

theorem nulFree_joined {sep : Bytes} {xs : List Bytes} (hsep : NulFree sep)
    (hxs : ∀ x ∈ xs, NulFree x) : NulFree (joined sep xs) := by
  induction xs with
  | nil => simp [joined, NulFree]
  | cons x xs ih =>
    rw [List.forall_mem_cons] at hxs
    cases xs with
    | nil => exact hxs.1
    | cons y xs =>
      rw [joined, nulFree_append, nulFree_append]
      exact ⟨hxs.1, hsep, ih hxs.2⟩

theorem nulFree_doubleQuote (hx : NulFree x) : NulFree (doubleQuote x) := by
  intro c hc
  simp only [doubleQuote, List.mem_cons, List.mem_append, List.not_mem_nil, or_false] at hc
  rcases hc with rfl | hc | rfl
  · decide
  · rcases Escape.mem_escape hc with hc | ⟨-, -, rfl⟩
    · exact hx c hc
    · decide
  · decide

theorem nulFree_quotedOrNull (hf : ∀ x ∈ f, NulFree x) : NulFree (quotedOrNull f) := by
  cases f with
  | none => decide
  | some x => exact nulFree_doubleQuote (hf x rfl)

theorem nulFree_fields {fields : List (Option Bytes)} (hnul : ∀ f ∈ fields, ∀ x ∈ f, NulFree x) :
    NulFree (joined (ascii ",") (fields.map quotedOrNull)) := by
  apply nulFree_joined (by decide)
  intro x hx
  obtain ⟨f, hf, rfl⟩ := List.mem_map.mp hx
  exact nulFree_quotedOrNull (hnul f hf)

theorem quotedOrNull_cons (f : Option Bytes) : ∃ d text, quotedOrNull f = d :: text ∧
    isSpace d = false ∧ d ≠ ch '}' := by
  cases f with
  | none => exact ⟨ch 'N', _, rfl, rfl, by decide⟩
  | some x => exact ⟨ch '"', _, rfl, rfl, by decide⟩

theorem skipSpaces_quotedOrNull : skipSpaces (quotedOrNull f ++ rest) = quotedOrNull f ++ rest := by
  obtain ⟨d, text, htext, hd, -⟩ := quotedOrNull_cons f
  rw [htext, List.cons_append, skipSpaces_cons hd]

/-! ## Arrays -/

variable {members : List (Option Bytes)} {n : Nat}

theorem arrayElementIn_quotedOrNull (hc : c = ch ',' ∨ c = ch '}') :
    arrayElementIn (quotedOrNull f ++ c :: rest) = some (f, c :: rest) := by
  cases f with
  | none => exact arrayElementIn_null hc
  | some x => exact arrayElementIn_quoted

/-- The elements up to the closing brace, with as much fuel as there are elements. -/
theorem arrayElementsIn_joined (hne : members ≠ []) (hn : members.length ≤ n) :
    arrayElementsIn n (joined (ascii ",") (members.map quotedOrNull) ++ ch '}' :: rest) =
      some (members, rest) := by
  induction members generalizing n with
  | nil => exact absurd rfl hne
  | cons f members ih =>
    obtain ⟨n, rfl⟩ : ∃ m, n = m + 1 := ⟨n - 1, by simp at hn; omega⟩
    cases members with
    | nil =>
      show arrayElementsIn (n + 1) (quotedOrNull f ++ ch '}' :: rest) = _
      rw [arrayElementsIn, skipSpaces_quotedOrNull, arrayElementIn_quotedOrNull (.inr rfl)]
      rfl
    | cons g members =>
      have htext : joined (ascii ",") ((f :: g :: members).map quotedOrNull) ++ ch '}' :: rest =
          quotedOrNull f ++ ch ',' ::
            (joined (ascii ",") ((g :: members).map quotedOrNull) ++ ch '}' :: rest) := by
        simp [joined, ascii]
      rw [htext, arrayElementsIn, skipSpaces_quotedOrNull, arrayElementIn_quotedOrNull (.inl rfl),
        Option.bind_some, skipSpaces_cons rfl]
      simp only [if_pos, ih (by simp) (by simpa using hn)]
      rfl

theorem length_le_joined (members : List (Option Bytes)) (rest : Bytes) :
    members.length ≤ (joined (ascii ",") (members.map quotedOrNull) ++ rest).length := by
  induction members with
  | nil => simp
  | cons f members ih =>
    obtain ⟨d, text, htext, -, -⟩ := quotedOrNull_cons f
    cases members with
    | nil => simp [joined, htext]
    | cons g members =>
      simp [joined, ascii, htext] at ih ⊢
      omega

theorem arrayBodyIn_joined :
    arrayBodyIn (joined (ascii ",") (members.map quotedOrNull) ++ ch '}' :: rest) =
      some (members, rest) := by
  cases members with
  | nil => rfl
  | cons f members =>
    obtain ⟨d, text, htext, hspace, hd⟩ := quotedOrNull_cons f
    obtain ⟨text', htext'⟩ : ∃ text', joined (ascii ",") ((f :: members).map quotedOrNull) =
        d :: text' := by
      cases members with
      | nil => exact ⟨text, htext⟩
      | cons g members => exact ⟨_, by rw [List.map_cons, List.map_cons, joined, htext]; rfl⟩
    have hfuel := length_le_joined (f :: members) (ch '}' :: rest)
    rw [arrayBodyIn, htext', List.cons_append, skipSpaces_cons hspace, expect, if_neg hd,
      ← List.cons_append, ← htext']
    exact arrayElementsIn_joined (by simp) hfuel

theorem arrayIn_asTextArray (members : List (Option Bytes))
    (hnul : ∀ f ∈ members, ∀ x ∈ f, NulFree x) : arrayIn (asTextArray members) = some members := by
  have htext : NulFree (asTextArray members) := by
    rw [asTextArray, nulFree_cons, nulFree_append]
    exact ⟨by decide, nulFree_fields hnul, by decide⟩
  rw [arrayIn, cStr_of_nulFree htext, asTextArray, skipSpaces_cons rfl, expect_self]
  show (arrayBodyIn _).bind _ = _
  rw [arrayBodyIn_joined]
  rfl

theorem arrayIn_asTextArrayOfStrings {strings : List Bytes} (hnul : ∀ x ∈ strings, NulFree x) :
    arrayIn (asTextArrayOfStrings strings) = some (strings.map some) := by
  rw [asTextArrayOfStrings_eq]
  apply arrayIn_asTextArray
  simpa using hnul

/-- Neither overload loses or changes an element. -/
theorem asTextArray_reads (members : List (Option Bytes)) (strings : List Bytes)
    (hmembers : ∀ f ∈ members, ∀ x ∈ f, NulFree x) (hstrings : ∀ x ∈ strings, NulFree x) :
    arrayIn (asTextArray members) = some members ∧
      arrayIn (asTextArrayOfStrings strings) = some (strings.map some) := by
  refine ⟨arrayIn_asTextArray members hmembers, ?_⟩
  exact arrayIn_asTextArrayOfStrings hstrings

theorem asTextArray_reads_nested :
    arrayIn (asTextArray [some (ascii "null"), none, some [], some (asTextArray [some [ch '"'], none])]) =
        some [some (ascii "null"), none, some [], some (asTextArray [some [ch '"'], none])] ∧
      arrayIn (asTextArrayOfStrings [asTextCompositeValue [some [ch '\\'], none]]) =
        some [some (asTextCompositeValue [some [ch '\\'], none])] :=
  asTextArray_reads _ [_] (by decide) (by decide)

/-! ## Rows -/

variable {fields : List (Option Bytes)}

theorem nulFree_asTextCompositeValue (hnul : ∀ f ∈ fields, ∀ x ∈ f, NulFree x) :
    NulFree (asTextCompositeValue fields) := by
  rw [asTextCompositeValue, nulFree_cons, nulFree_append]
  exact ⟨by decide, nulFree_fields hnul, by decide⟩

/-- What the server takes a field for: the word `NULL` is a text to it. -/
def takenFor (f : Option Bytes) : Option Bytes := some (f.getD (ascii "NULL"))

theorem recordColumnIn_quotedOrNull (hc : c = ch ',' ∨ c = ch ')') :
    recordColumnIn (quotedOrNull f ++ c :: rest) = some (takenFor f, c :: rest) := by
  cases f with
  | none => exact recordColumnIn_nullWord hc
  | some x => exact recordColumnIn_quoted hc

/-- One column, behind its comma if it needs one. -/
theorem recordColumnsIn_step (n : Nat) (needComma : Bool) (hc : c = ch ',' ∨ c = ch ')') :
    recordColumnsIn (n + 1) needComma
        ((if needComma then ascii "," else []) ++ (quotedOrNull f ++ c :: rest)) =
      (recordColumnsIn n true (c :: rest)).map (Escape.push (takenFor f)) := by
  rw [recordColumnsIn]
  cases needComma
  · simp [recordColumnIn_quotedOrNull hc]
  · simp [ascii, expect_self, recordColumnIn_quotedOrNull hc]

theorem recordColumnsIn_joined (needComma : Bool) (hne : fields ≠ []) :
    recordColumnsIn fields.length needComma ((if needComma then ascii "," else []) ++
        (joined (ascii ",") (fields.map quotedOrNull) ++ ch ')' :: rest)) =
      some (fields.map takenFor, ch ')' :: rest) := by
  induction fields generalizing needComma with
  | nil => exact absurd rfl hne
  | cons f fields ih =>
    cases fields with
    | nil => exact recordColumnsIn_step 0 needComma (.inr rfl)
    | cons g fields =>
      have htext : joined (ascii ",") ((f :: g :: fields).map quotedOrNull) ++ ch ')' :: rest =
          quotedOrNull f ++ ch ',' ::
            (joined (ascii ",") ((g :: fields).map quotedOrNull) ++ ch ')' :: rest) := by
        simp [joined, ascii]
      have hlater : recordColumnsIn (g :: fields).length true (ch ',' ::
          (joined (ascii ",") ((g :: fields).map quotedOrNull) ++ ch ')' :: rest)) =
          some ((g :: fields).map takenFor, ch ')' :: rest) := ih true (by simp)
      rw [htext, List.length_cons, recordColumnsIn_step _ needComma (.inl rfl), hlater]
      rfl

/-- Every text comes back as it is, and what is missing as a text that spells NULL. -/
theorem recordIn_asTextCompositeValue (hne : fields ≠ [])
    (hnul : ∀ f ∈ fields, ∀ x ∈ f, NulFree x) :
    recordIn fields.length (asTextCompositeValue fields) = some (fields.map takenFor) := by
  have hcolumns : recordColumnsIn fields.length false
      ([] ++ (joined (ascii ",") (fields.map quotedOrNull) ++ [ch ')'])) =
        some (fields.map takenFor, [ch ')']) := recordColumnsIn_joined false hne
  rw [recordIn, cStr_of_nulFree (nulFree_asTextCompositeValue hnul), asTextCompositeValue,
    skipSpaces_cons rfl, expect_self]
  rw [List.nil_append] at hcolumns
  simp [hcolumns, expect_self, skipSpaces]

theorem recordIn_asTextCompositeValue_iff (hne : fields ≠ [])
    (hnul : ∀ f ∈ fields, ∀ x ∈ f, NulFree x) :
    recordIn fields.length (asTextCompositeValue fields) = some fields ↔ none ∉ fields := by
  rw [recordIn_asTextCompositeValue hne hnul, Option.some_inj]
  constructor
  · intro h hmem
    rw [← h] at hmem
    obtain ⟨f, -, hf⟩ := List.mem_map.mp hmem
    cases hf
  · intro h
    refine List.map_congr_left (fun f hf => ?_) |>.trans (List.map_id fields)
    cases f with
    | none => exact absurd hf h
    | some x => rfl

theorem recordIn_asTextCompositeValue_iff_spaces :
    recordIn 2 (asTextCompositeValue [some (ascii "a, b"), some []]) =
        some [some (ascii "a, b"), some []] ↔ none ∉ [some (ascii "a, b"), some []] :=
  recordIn_asTextCompositeValue_iff (by decide) (by decide)

/-- No statement position, and the server reads one. -/
theorem not_recordIn_asTextCompositeValue_missing :
    recordIn 2 (asTextCompositeValue [some (ascii "57P01"), none]) ≠ some [some (ascii "57P01"), none] := by
  decide

/-! ## Hstores -/

variable {entries : List (Σ _ : Bytes, Option Bytes)} {pair : Σ _ : Bytes, Option Bytes}

theorem hstoreEntryText_cons (pair : Σ _ : Bytes, Option Bytes) :
    ∃ text, hstoreEntryText pair = ch '"' :: text := ⟨_, rfl⟩

theorem hstorePairIn_entry (hrest : ∀ c ∈ rest.head?, c = ch ',') :
    hstorePairIn (hstoreEntryText pair ++ rest) = some (pair, rest) := by
  obtain ⟨k, v⟩ := pair
  have htext : hstoreEntryText ⟨k, v⟩ ++ rest =
      doubleQuote k ++ (ch '=' :: ch '>' :: (quotedOrNull v ++ rest)) := by
    simp [hstoreEntryText, ascii]
  have hkey : hstoreWordIn false (doubleQuote k ++ (ch '=' :: ch '>' :: (quotedOrNull v ++ rest))) =
      some ((k, true), ch '=' :: ch '>' :: (quotedOrNull v ++ rest)) := hstoreWordIn_quoted
  rw [htext, hstorePairIn, hkey]
  simp only [Option.bind_eq_bind, Option.bind_some, skipSpaces_cons (rfl : isSpace (ch '=') = false),
    expect_self, skipSpaces_quotedOrNull]
  cases v with
  | none =>
    rw [quotedOrNull, hstoreWordIn_null hrest]
    rfl
  | some v =>
    have hvalue : hstoreWordIn true (quotedOrNull (some v) ++ rest) = some ((v, true), rest) :=
      hstoreWordIn_quoted
    rw [hvalue]
    rfl

/-- The pairs up to the end of the text, with more fuel than there are pairs. -/
theorem hstorePairsIn_asTextHstore (hn : entries.length < n) :
    hstorePairsIn n (asTextHstore entries) = some entries := by
  induction entries generalizing n with
  | nil =>
    obtain ⟨n, rfl⟩ : ∃ m, n = m + 1 := ⟨n - 1, by simp at hn; omega⟩
    rfl
  | cons pair entries ih =>
    obtain ⟨n, rfl⟩ : ∃ m, n = m + 1 := ⟨n - 1, by simp at hn; omega⟩
    obtain ⟨text, htext⟩ := hstoreEntryText_cons pair
    have hskip : ∀ rest, skipSpaces (hstoreEntryText pair ++ rest) = hstoreEntryText pair ++ rest := by
      intro rest
      rw [htext, List.cons_append, skipSpaces_cons rfl]
    cases entries with
    | nil =>
      have hone : asTextHstore [pair] = hstoreEntryText pair ++ [] := (List.append_nil _).symm
      rw [hone, hstorePairsIn, hskip, if_neg (by simp [htext]), hstorePairIn_entry (by simp)]
      rfl
    | cons pair' entries =>
      have hcons : asTextHstore (pair :: pair' :: entries) =
          hstoreEntryText pair ++ ch ',' :: asTextHstore (pair' :: entries) := rfl
      rw [hcons, hstorePairsIn, hskip, if_neg (by simp [htext]), hstorePairIn_entry (by simp),
        Option.bind_some, skipSpaces_cons rfl]
      simp only [if_true, ih (by simpa using hn)]
      rfl

theorem length_le_asTextHstore (entries : List (Σ _ : Bytes, Option Bytes)) :
    entries.length ≤ (asTextHstore entries).length := by
  induction entries with
  | nil => simp
  | cons pair entries ih =>
    obtain ⟨text, htext⟩ := hstoreEntryText_cons pair
    cases entries with
    | nil => simp [asTextHstore, joined, htext]
    | cons pair' entries =>
      simp [asTextHstore, joined, ascii, htext] at ih ⊢
      omega

/-- The server writes a pair in the same way. -/
theorem hstorePair_eq (pair : Σ _ : Bytes, Option Bytes) : hstorePair pair = hstoreEntryText pair := by
  obtain ⟨k, _ | v⟩ := pair <;> rfl

/-- Both texts of the pair. -/
def NulFreeEntry (pair : Σ _ : Bytes, Option Bytes) : Prop :=
  NulFree pair.1 ∧ ∀ v ∈ pair.2, NulFree v

instance : Decidable (NulFreeEntry pair) := inferInstanceAs (Decidable (_ ∧ _))

theorem nulFree_hstoreEntryText (h : NulFreeEntry pair) : NulFree (hstoreEntryText pair) := by
  rw [hstoreEntryText, nulFree_append, nulFree_append]
  exact ⟨nulFree_doubleQuote h.1, by decide, nulFree_quotedOrNull h.2⟩

theorem nulFree_asTextHstore (hnul : ∀ pair ∈ entries, NulFreeEntry pair) :
    NulFree (asTextHstore entries) := by
  apply nulFree_joined (by decide)
  intro x hx
  obtain ⟨pair, hpair, rfl⟩ := List.mem_map.mp hx
  exact nulFree_hstoreEntryText (hnul pair hpair)

theorem hstoreIn_asTextHstore (hnul : ∀ pair ∈ entries, NulFreeEntry pair) :
    hstoreIn (asTextHstore entries) = some entries.toAList := by
  have := length_le_asTextHstore entries
  rw [hstoreIn, cStr_of_nulFree (nulFree_asTextHstore hnul), hstorePairsIn_asTextHstore (by omega)]
  rfl

theorem toFinmap_of_perm {entries' : List (Σ _ : Bytes, Option Bytes)} (hnodup : entries.NodupKeys)
    (hperm : entries.Perm entries') : entries.toFinmap = entries'.toFinmap := by
  apply Finmap.ext_lookup
  intro k
  rw [Finmap.dlookup_list_toFinmap, Finmap.dlookup_list_toFinmap, List.perm_dlookup k hnodup hperm]

theorem toFinmap_of_order {m : Finmap fun _ : Bytes => Option Bytes}
    (horder : (entries : Multiset _) = m.entries) : entries.toFinmap = m := by
  obtain ⟨_, hnodup⟩ := m
  subst horder
  apply Finmap.ext_lookup
  intro k
  rw [Finmap.dlookup_list_toFinmap]
  rfl

/-! ## The environment of the daemon -/

section

variable {name value : Bytes} {env : Env} {vars : List (Bytes × Bytes)}

def environString (p : Bytes × Bytes) : Bytes := p.1 ++ ch '=' :: p.2

/-- The pair that the session sees. -/
def present (p : Bytes × Bytes) : Σ _ : Bytes, Option Bytes := ⟨p.1, some p.2⟩

/-- The variables of an environment, each name once. -/
structure IsEnviron (vars : List (Bytes × Bytes)) : Prop where
  distinct : (vars.map Prod.fst).Nodup
  noEquals : ∀ p ∈ vars, ch '=' ∉ p.1
  nulFree : ∀ p ∈ vars, NulFree p.1 ∧ NulFree p.2

/-- The first equals sign splits the string. Later ones are part of the value. -/
theorem environAssign_string (hname : ch '=' ∉ name) :
    environAssign env (environString (name, value)) = .ok (env.insert name value) := by
  have hne : ∀ c ∈ name, (c != ch '=') = true := by
    intro c hc
    rw [bne_iff_ne]
    rintro rfl
    exact hname hc
  have htake : (environString (name, value)).takeWhile (· != ch '=') = name := by
    rw [environString, List.takeWhile_append_of_pos hne]
    simp
  have hdrop : ((environString (name, value)).dropWhile (· != ch '=')).drop 1 = value := by
    rw [environString, List.dropWhile_append_of_pos hne]
    simp
  rw [environAssign, if_pos (by simp [environString]), htake, hdrop]

theorem environAssign_foldlM (hnames : ∀ p ∈ vars, ch '=' ∉ p.1)
    (hdistinct : (vars.map Prod.fst).Nodup) (hnew : ∀ p ∈ vars, p.1 ∉ env) :
    ∃ map : Env, (vars.map environString).foldlM environAssign env = .ok map ∧
      map.entries = (vars.map fun p => ⟨p.1, p.2⟩).reverse ++ env.entries := by
  induction vars generalizing env with
  | nil => exact ⟨env, rfl, rfl⟩
  | cons p vars ih =>
    obtain ⟨name, value⟩ := p
    rw [List.forall_mem_cons] at hnames hnew
    rw [List.map_cons, List.nodup_cons] at hdistinct
    have hstill : ∀ p ∈ vars, p.1 ∉ env.insert name value := by
      intro p hp
      rw [AList.mem_insert]
      rintro (heq | hmem)
      · exact hdistinct.1 (List.mem_map.mpr ⟨p, hp, heq⟩)
      · exact hnew.2 p hp hmem
    obtain ⟨map, hmap, hentries⟩ := ih hnames.2 hdistinct.2 hstill
    refine ⟨map, ?_, ?_⟩
    · rw [List.map_cons, List.foldlM_cons, environAssign_string hnames.1]
      exact hmap
    · rw [hentries, AList.entries_insert_of_notMem hnew.1]
      simp

/-- What the session is started with: the variables, in any order that the map has them. -/
theorem hstoreIn_environ (h : IsEnviron vars) : ∃ map,
    environToUnorderedMap (vars.map environString) = .ok map ∧
      ∀ entries, entries.Perm map.entries →
        (hstoreIn (asTextHstoreOfStrings entries)).map AList.toFinmap =
          some (vars.map present).toFinmap := by
  have hnew : ∀ p ∈ vars, p.1 ∉ (∅ : Env) := by simp
  obtain ⟨map, hmap, hentries⟩ := environAssign_foldlM h.noEquals h.distinct hnew
  refine ⟨map, hmap, ?_⟩
  intro entries hperm
  have hnodup : (vars.map present).NodupKeys := by
    rw [List.NodupKeys, List.keys, List.map_map]
    exact h.distinct
  have horder : (vars.map present).Perm (entries.map fun p => ⟨p.1, some p.2⟩) := by
    rw [hentries, AList.empty_entries, List.append_nil] at hperm
    have hmap := (hperm.trans (List.reverse_perm _)).map
      fun p => (⟨p.1, some p.2⟩ : Σ _ : Bytes, Option Bytes)
    rw [List.map_map] at hmap
    exact hmap.symm
  have hnul : ∀ pair ∈ entries.map fun p => (⟨p.1, some p.2⟩ : Σ _ : Bytes, Option Bytes),
      NulFreeEntry pair := by
    intro pair hpair
    obtain ⟨p, hp, rfl⟩ := List.mem_map.mp (horder.mem_iff.mpr hpair)
    obtain ⟨hname, hvalue⟩ := h.nulFree p hp
    exact ⟨hname, by simpa [present] using hvalue⟩
  rw [asTextHstoreOfStrings_eq, hstoreIn_asTextHstore hnul, toFinmap_of_perm hnodup horder]
  rfl

/-- A map comes back whatever the order of its entries, and so does the environment. -/
theorem asTextHstore_reads {m : Finmap fun _ : Bytes => Option Bytes}
    (hnul : ∀ pair ∈ entries, NulFreeEntry pair) (horder : (entries : Multiset _) = m.entries)
    (henv : IsEnviron vars) :
    (hstoreIn (asTextHstore entries)).map AList.toFinmap = some m ∧
      ∃ map, environToUnorderedMap (vars.map environString) = .ok map ∧
        ∀ strings, strings.Perm map.entries →
          (hstoreIn (asTextHstoreOfStrings strings)).map AList.toFinmap =
            some (vars.map present).toFinmap := by
  refine ⟨?_, hstoreIn_environ henv⟩
  rw [hstoreIn_asTextHstore hnul, ← toFinmap_of_order horder]
  rfl

def quotingMap : List (Σ _ : Bytes, Option Bytes) :=
  [⟨ascii "null", none⟩, ⟨[], some (ascii "\"=>\", NULL\\")⟩]

theorem nodupKeys_quotingMap : quotingMap.NodupKeys := (by decide : quotingMap.keys.Nodup)

theorem asTextHstore_reads_quotingMap :
    (hstoreIn (asTextHstore quotingMap)).map AList.toFinmap =
        some ⟨quotingMap, nodupKeys_quotingMap⟩ ∧
      ∃ map, environToUnorderedMap ([(ascii "OPTS", ascii "a=b"), ([], ascii "x")].map
          environString) = .ok map ∧
        ∀ strings, strings.Perm map.entries →
          (hstoreIn (asTextHstoreOfStrings strings)).map AList.toFinmap =
            some ([(ascii "OPTS", ascii "a=b"), ([], ascii "x")].map present).toFinmap :=
  asTextHstore_reads (by decide) rfl ⟨by decide, by decide, by decide⟩

end

end PgCmdQueue.Pq
