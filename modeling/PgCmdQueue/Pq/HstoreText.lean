import PgCmdQueue.Pq.Hstore

/-!
# Which hstores `PQ::from_text_hstore` reads back

The scanner needs four delimiting double quotes for one pair. A text with fewer than
four a pair gives too few pairs.
-/

namespace PgCmdQueue.Pq

open Cpp Postgres

variable {input rest x k v : Bytes} {s t : HstoreScan} {i : Nat} {b c : Byte}
  {r out : Hstore} {l : List (Σ _ : Bytes, Option Bytes)}

/-! ## A clean text -/

def idle (result : Hstore) : HstoreScan := ⟨false, 0, 0, 0, 0, result⟩

/-- A token from its opening to its closing quote. -/
theorem hstoreScan_token (h : Ahead input i (hstoreToken x ++ rest)) (hb : Before input i b)
    (hne : b ≠ ch '\\') (hx : x.getLast? ≠ some (ch '\\'))
    (hopen : hstoreScanQuote input i s = .ok t) (hq : t.inQuotes = true) :
    hstoreScan input i s = (hstoreScanQuote input (i + 1 + (escapeBackslash x).length) t).bind
      (hstoreScan input (i + 1 + (escapeBackslash x).length + 1)) := by
  have h : Ahead input i (ch '"' :: (escapeBackslash x ++ ch '"' :: rest)) := by
    simpa [hstoreToken, dquoted] using h
  rw [hstoreScan_quote h hb hne, hopen]
  refine (hstoreScan_body hq h.tail).trans ?_
  refine hstoreScan_quote h.tail.append (before_append (before_succ h.head) h.tail) ?_
  rw [escapeBackslash, Escape.getLast?_escape]
  cases hlast : x.getLast? with
  | none => decide
  | some d =>
    rintro rfl
    exact hx hlast

/-- What a value comes back as. -/
def rereadValue (v : Bytes) : Option Bytes :=
  if strcasecmpEq (escapeBackslash v) (ascii "NULL") then none
  else some (unescapeHstoreText (escapeBackslash v))

theorem hstoreScan_pair (h : Ahead input i (hstorePair ⟨k, some v⟩ ++ rest))
    (hb : Before input i b) (hne : b ≠ ch '\\') (hk : k.getLast? ≠ some (ch '\\'))
    (hv : v.getLast? ≠ some (ch '\\')) (hfirst : i = 0 → k ≠ []) :
    hstoreScan input i (idle r) = hstoreScan input (i + (hstorePair ⟨k, some v⟩).length)
      (idle (r.insert (escapeBackslash k) (rereadValue v))) := by
  have hkey : Ahead input i (hstoreToken k ++ (ch '=' :: ch '>' :: (hstoreToken v ++ rest))) := by
    simpa [hstorePair, hstoreValue, ascii] using h
  have hklen : (hstoreToken k).length = (escapeBackslash k).length + 2 := by
    simp [hstoreToken, dquoted]
  have hvlen : (hstoreToken v).length = (escapeBackslash v).length + 2 := by
    simp [hstoreToken, dquoted]
  obtain ⟨n, hn⟩ : ∃ n, n = i + 1 + (escapeBackslash k).length := ⟨_, rfl⟩
  have harrow := hkey.append
  rw [hklen, show i + ((escapeBackslash k).length + 2) = n + 1 by omega] at harrow
  have hval : Ahead input (n + 3) (hstoreToken v ++ rest) := harrow.tail.tail
  have hkbody : Ahead input (i + 1) (escapeBackslash k ++ (ch '"' :: ch '=' :: ch '>' ::
      (hstoreToken v ++ rest))) := by
    have : Ahead input i (ch '"' :: (escapeBackslash k ++ (ch '"' :: ch '=' :: ch '>' ::
      (hstoreToken v ++ rest)))) := by simpa [hstoreToken, dquoted] using hkey
    exact this.tail
  have hvbody : Ahead input (n + 4) (escapeBackslash v ++ (ch '"' :: rest)) := by
    have : Ahead input (n + 3) (ch '"' :: (escapeBackslash v ++ (ch '"' :: rest))) := by
      simpa [hstoreToken, dquoted] using hval
    exact this.tail
  have hnlt := harrow.lt
  have hend : posBefore n ≠ 0 := by
    rw [posBefore, if_neg (by omega)]
    have : i = 0 → 0 < (escapeBackslash k).length := fun hi =>
      (List.length_pos_of_ne_nil (hfirst hi)).trans_le (Escape.length_le_escape ..)
    omega
  -- The key, the arrow, the value.
  rw [hstoreScan_token hkey hb hne hk (t := ⟨true, i + 1, 0, 0, 0, r⟩) rfl rfl, ← hn]
  show hstoreScan input (n + 1) ⟨false, i + 1, posBefore n, 0, 0, r⟩ = _
  rw [hstoreScan_step harrow, if_neg (by simp +decide), if_pos ⟨by simp, rfl, charAtOrNul_eq harrow.tail.head⟩]
  rw [hstoreScan_token hval (before_succ harrow.tail.head) (by decide) hv
    (t := ⟨true, i + 1, posBefore n, n + 4, 0, r⟩) (by simp [hstoreScanQuote]) rfl]
  have hkeyText := hkbody.substrTo (by omega) (by omega)
  have hvalText := hvbody.substrTo (by omega) (by have := hvbody.append.lt; omega)
  rw [← hn] at hkeyText
  simp only [hstoreScanQuote, hend, hvalText, hkeyText, bind, Except.bind, not_true, if_false, if_true]
  congr 1
  simp only [hstorePair, hstoreValue, List.length_append, hklen, hvlen]
  simp [ascii]
  omega

/-- No token of the pair ends in a backslash, and there is a value. -/
def cleanPair (p : Σ _ : Bytes, Option Bytes) : Bool :=
  p.1.getLast? != some (ch '\\') && p.2.any (·.getLast? != some (ch '\\'))

def reread (r : Hstore) (l : List (Σ _ : Bytes, Option Bytes)) : Hstore :=
  l.foldl (fun r p => r.insert (escapeBackslash p.1) (p.2.bind rereadValue)) r

theorem cleanPair_some (h : cleanPair ⟨k, some v⟩ = true) :
    k.getLast? ≠ some (ch '\\') ∧ v.getLast? ≠ some (ch '\\') := by
  simpa [cleanPair] using h

theorem hstoreScan_entries (hclean : ∀ p ∈ l, cleanPair p = true)
    (hfirst : i = 0 → l.keys.head? ≠ some []) (hb : Before input i b) (hne : b ≠ ch '\\')
    (h : Ahead input i (joined (ascii ", ") (l.map hstorePair))) :
    hstoreScan input i (idle r) = .ok (reread r l) := by
  induction l generalizing i r b with
  | nil => exact hstoreScan_end (List.drop_eq_nil_iff.mp h)
  | cons p l ih =>
    obtain ⟨k, _ | v⟩ := p
    · simp [cleanPair] at hclean
    rw [List.forall_mem_cons] at hclean
    have hkv := cleanPair_some hclean.1
    have hk : i = 0 → k ≠ [] := fun hi => by simpa using hfirst hi
    cases l with
    | nil =>
      have h : Ahead input i (hstorePair ⟨k, some v⟩ ++ []) := by simpa [joined] using h
      rw [hstoreScan_pair h hb hne hkv.1 hkv.2 hk]
      exact hstoreScan_end (List.drop_eq_nil_iff.mp h.append)
    | cons q l =>
      have h : Ahead input i (hstorePair ⟨k, some v⟩ ++ (ch ',' :: ch ' ' ::
          joined (ascii ", ") ((q :: l).map hstorePair))) := by
        simpa [joined, ascii] using h
      rw [hstoreScan_pair h hb hne hkv.1 hkv.2 hk, hstoreScan_byte h.append (by decide) (.inl (by decide)),
        hstoreScan_byte h.append.tail (by decide) (.inl (by decide))]
      exact ih hclean.2 (by omega) (before_succ h.append.tail.head) (by decide) h.append.tail.tail

theorem reread_eq (hclean : ∀ p ∈ l, cleanPair p = true) (hfirst : l.keys.head? ≠ some []) :
    fromTextHstore (joined (ascii ", ") (l.map hstorePair)) = .ok (reread ∅ l) :=
  hstoreScan_entries hclean (fun _ => hfirst) (before_zero (b := 0) (by decide)) (by decide) ahead_zero

/-! ## Counting the double quotes -/

theorem delimiters_escape : delimiters b (escapeBackslash x) = 0 := by
  induction x generalizing b with
  | nil => rfl
  | cons c x ih =>
    rw [escapeBackslash] at ih ⊢
    cases hc : isSpecial c
    · rw [Escape.escape_cons_plain hc, delimiters, ih, if_neg]
      rintro ⟨rfl, -⟩
      simp [isSpecial] at hc
    · rw [Escape.escape_cons_special hc]
      simp +decide [delimiters, ih]

def tokenDelimiters (x : Bytes) : Nat := if x.getLast? = some (ch '\\') then 1 else 2

theorem delimiters_token (hne : b ≠ ch '\\') : delimiters b (hstoreToken x) = tokenDelimiters x := by
  rw [hstoreToken, dquoted, delimiters, delimiters_append, delimiters_escape, if_pos ⟨rfl, hne⟩,
    tokenDelimiters, escapeBackslash, Escape.getLast?_escape]
  cases hx : x.getLast? with
  | none => rfl
  | some d => by_cases hd : d = ch '\\' <;> simp [delimiters, hd]

theorem getLast?_token : (hstoreToken x).getLast? = some (ch '"') := by
  rw [hstoreToken, dquoted, ← List.cons_append, List.getLast?_concat]

def pairDelimiters (p : Σ _ : Bytes, Option Bytes) : Nat :=
  tokenDelimiters p.1 + p.2.elim 0 tokenDelimiters

theorem delimiters_pair (hne : b ≠ ch '\\') (p : Σ _ : Bytes, Option Bytes) :
    delimiters b (hstorePair p) = pairDelimiters p := by
  rw [hstorePair, delimiters_append, delimiters_token hne, getLast?_token, pairDelimiters]
  cases p.2 with
  | none => simp +decide [delimiters, hstoreValue, ascii]
  | some v =>
    have harrow : (ascii "=>").getLast? = some (ch '>') := rfl
    rw [delimiters_append, hstoreValue, harrow, Option.getD_some, delimiters_token (by decide)]
    simp +decide [delimiters, ascii]

theorem getLast?_pair (p : Σ _ : Bytes, Option Bytes) :
    ∃ d, (hstorePair p).getLast? = some d ∧ d ≠ ch '\\' := by
  rw [hstorePair, List.getLast?_append, List.getLast?_append]
  cases p.2 with
  | none => exact ⟨ch 'L', rfl, by decide⟩
  | some v => exact ⟨ch '"', by rw [hstoreValue, getLast?_token]; rfl, by decide⟩

theorem delimiters_hstoreOut (hne : b ≠ ch '\\') :
    delimiters b (joined (ascii ", ") (l.map hstorePair)) = (l.map pairDelimiters).sum := by
  induction l generalizing b with
  | nil => rfl
  | cons p l ih =>
    cases l with
    | nil => exact delimiters_pair hne p
    | cons q l =>
      obtain ⟨d, hd, -⟩ := getLast?_pair p
      rw [List.map_cons, List.map_cons, joined, delimiters_append, delimiters_pair hne, delimiters_append,
        ← List.map_cons, ih (by simp +decide [ascii]), hd]
      simp +decide [delimiters, ascii]

theorem pairDelimiters_le (p : Σ _ : Bytes, Option Bytes) :
    pairDelimiters p ≤ 4 ∧ (pairDelimiters p = 4 → cleanPair p = true) := by
  obtain ⟨k, _ | v⟩ := p
  · by_cases hk : k.getLast? = some (ch '\\') <;> simp [pairDelimiters, tokenDelimiters, hk]
  · by_cases hk : k.getLast? = some (ch '\\') <;> by_cases hv : v.getLast? = some (ch '\\') <;>
      simp [pairDelimiters, tokenDelimiters, cleanPair, hk, hv]

theorem sum_pairDelimiters_le : (l.map pairDelimiters).sum ≤ 4 * l.length := by
  induction l with
  | nil => simp
  | cons p l ih =>
    have := (pairDelimiters_le p).1
    simp only [List.map_cons, List.sum_cons, List.length_cons]
    omega

theorem clean_of_sum (h : 4 * l.length ≤ (l.map pairDelimiters).sum) :
    ∀ p ∈ l, cleanPair p = true := by
  induction l with
  | nil => simp
  | cons p l ih =>
    obtain ⟨hle, hclean⟩ := pairDelimiters_le p
    have hsum := sum_pairDelimiters_le (l := l)
    simp only [List.map_cons, List.sum_cons, List.length_cons] at h
    rw [List.forall_mem_cons]
    exact ⟨hclean (by omega), ih (by omega)⟩

/-! ## Every pair takes four of them -/

def Progress (s : HstoreScan) : Nat :=
  (if s.keyStart = 0 then 0 else 1) + (if s.keyEnd = 0 then 0 else 1) +
    (if s.valStart = 0 then 0 else 1)

/-- The positions are set in order. -/
structure InOrder (s : HstoreScan) : Prop where
  keyEnd : s.keyEnd ≠ 0 → s.keyStart ≠ 0
  inQuotes : s.inQuotes = true → s.keyStart ≠ 0 ∧ (s.keyEnd ≠ 0 → s.valStart ≠ 0)

theorem length_insert (r : Hstore) (k : Bytes) (v : Option Bytes) :
    (r.insert k v).entries.length ≤ r.entries.length + 1 := by
  rw [AList.entries_insert, List.length_cons]
  have := (List.kerase_sublist k r.entries).length_le
  omega

/-- One delimiter is one step towards a pair at most. -/
theorem hstoreScanQuote_progress (h : InOrder s) (hs : hstoreScanQuote input i s = .ok t) :
    InOrder t ∧ 4 * t.result.entries.length + Progress t ≤
      4 * s.result.entries.length + Progress s + 1 := by
  obtain ⟨hkey, hin⟩ := h
  rw [hstoreScanQuote] at hs
  split at hs <;> rename_i hq
  · split at hs <;> rename_i hks
    · cases hs
      refine ⟨⟨by simp, fun _ => ⟨by simp, fun h => absurd hks (hkey h)⟩⟩, ?_⟩
      simp [Progress, hks]
      omega
    · split at hs <;> rename_i hvs <;> cases hs
      · refine ⟨⟨hkey, by simp [hks]⟩, ?_⟩
        simp [Progress, hvs]
        omega
      · refine ⟨⟨hkey, fun _ => ⟨hks, fun _ => hvs⟩⟩, ?_⟩
        simp [Progress]
  · obtain ⟨hks, hvs⟩ := hin (by simpa using hq)
    split at hs <;> rename_i hke
    · cases hs
      refine ⟨⟨fun _ => hks, by simp⟩, ?_⟩
      simp only [Progress, hke]
      split <;> split <;> omega
    · split at hs <;> rename_i hve
      · obtain ⟨raw, -, hs⟩ := bind_eq_ok hs
        obtain ⟨key, -, hs⟩ := bind_eq_ok hs
        cases hs
        refine ⟨⟨by simp, by simp⟩, ?_⟩
        have := length_insert s.result key
          (if strcasecmpEq raw (ascii "NULL") then none else some (unescapeHstoreText raw))
        -- All three positions are set, so the pair has had its four delimiters.
        simp only [Progress, hks, hke, hvs hke, if_true, if_false]
        omega
      · cases hs
        exact ⟨⟨hkey, by simp⟩, Nat.le_succ _⟩

theorem hstoreScan_length (h : InOrder s) (hi : Ahead input i rest) (hb : Before input i b)
    (hs : hstoreScan input i s = .ok out) : 4 * out.entries.length ≤
      4 * s.result.entries.length + Progress s + delimiters b rest := by
  induction hn : rest.length using Nat.strong_induction_on generalizing rest i s b with
  | _ n ih =>
  cases rest with
  | nil =>
    rw [hstoreScan_end (List.drop_eq_nil_iff.mp hi)] at hs
    cases hs
    omega
  | cons c rest =>
    simp only [List.length_cons] at hn
    rw [hstoreScan_step hi] at hs
    simp only [before_iff hb] at hs
    rw [delimiters]
    split at hs <;> rename_i hc
    · obtain ⟨t, ht, hs⟩ := bind_eq_ok hs
      obtain ⟨htOrder, hle⟩ := hstoreScanQuote_progress h ht
      have := ih _ (by omega) htOrder hi.tail (before_succ hi.head) hs rfl
      rw [if_pos hc]
      omega
    · rw [if_neg hc]
      split at hs <;> rename_i harrow
      · -- The byte that the arrow skips is no double quote.
        cases rest with
        | nil =>
          rw [charAtOrNul, List.getD_eq_getElem?_getD,
            List.getElem?_eq_none (List.drop_eq_nil_iff.mp hi.tail)] at harrow
          simp +decide at harrow
        | cons d rest =>
          have hd : d = ch '>' := (charAtOrNul_eq hi.tail.head).symm.trans harrow.2.2
          have := ih _ (by simp at hn; omega) h hi.tail.tail (before_succ hi.tail.head) hs rfl
          rw [delimiters, if_neg (by simp +decide [hd])]
          omega
      · have := ih _ (by omega) h hi.tail (before_succ hi.head) hs rfl
        omega

theorem inOrder_idle : InOrder (idle r) := ⟨fun h => h, by simp [idle]⟩

theorem fromTextHstore_length
    (h : fromTextHstore (joined (ascii ", ") (l.map hstorePair)) = .ok out) :
    4 * out.entries.length ≤ (l.map pairDelimiters).sum := by
  have := hstoreScan_length inOrder_idle ahead_zero (before_zero (b := 0) (by decide)) h
  rw [delimiters_hstoreOut (by decide)] at this
  simpa [idle, Progress] using this

theorem joined_empty_key (v : Option Bytes) : ∃ rest,
    joined (ascii ", ") ((⟨[], v⟩ :: l).map hstorePair) = ch '"' :: ch '"' :: rest := by
  cases l with
  | nil => exact ⟨_, rfl⟩
  | cons p l => exact ⟨_, rfl⟩

/-- The empty key ends at position 0, which stands for "not set". -/
theorem fromTextHstore_length_empty_key (hkey : l.keys.head? = some [])
    (h : fromTextHstore (joined (ascii ", ") (l.map hstorePair)) = .ok out) :
    4 * out.entries.length < (l.map pairDelimiters).sum := by
  obtain _ | ⟨⟨k, v⟩, l⟩ := l
  · simp at hkey
  obtain rfl : k = [] := by simpa using hkey
  obtain ⟨rest, hrest⟩ := joined_empty_key (l := l) v
  rw [← delimiters_hstoreOut (b := 0) (by decide)]
  rw [hrest] at h ⊢
  have hahead : Ahead (ch '"' :: ch '"' :: rest) 0 (ch '"' :: ch '"' :: rest) := ahead_zero
  have h : hstoreScan (ch '"' :: ch '"' :: rest) 2 ⟨false, 1, 0, 0, 0, ∅⟩ = .ok out := by
    rw [fromTextHstore, hstoreScanLoop_eq (by simp),
      hstoreScan_quote hahead (before_zero (b := 0) (by decide)) (by decide)] at h
    exact (hstoreScan_quote hahead.tail (before_succ hahead.head) (by decide)).symm.trans h
  have := hstoreScan_length ⟨by simp, by simp⟩ hahead.tail.tail (before_succ hahead.tail.head) h
  simp +decide [Progress, delimiters] at this ⊢
  omega

/-! ## The pairs that come back -/

theorem entries_foldl_insert {β : Type} (l : List (Σ _ : Bytes, β)) (r : AList fun _ : Bytes => β)
    (h : (l ++ r.entries).NodupKeys) :
    (l.foldl (fun r p => r.insert p.1 p.2) r).entries.Perm (l ++ r.entries) := by
  induction l generalizing r with
  | nil => exact List.Perm.refl _
  | cons p l ih =>
    have hfresh : p.1 ∉ r := by
      rw [AList.mem_keys]
      intro hmem
      refine List.notMem_keys_of_nodupKeys_cons (s := p) (l := l ++ r.entries) h ?_
      rw [List.keys, List.map_append]
      exact List.mem_append_right _ hmem
    have hperm : (l ++ (r.insert p.1 p.2).entries).Perm (p :: l ++ r.entries) := by
      rw [AList.entries_insert_of_notMem hfresh]
      exact List.perm_middle
    exact (ih _ ((List.perm_nodupKeys hperm).mpr h)).trans hperm

theorem mem_reread (k : Bytes) : k ∈ reread r l ↔ (∃ p ∈ l, escapeBackslash p.1 = k) ∨ k ∈ r := by
  induction l generalizing r with
  | nil => simp [reread]
  | cons p l ih =>
    rw [reread, List.foldl_cons, ← reread, ih, AList.mem_insert, List.exists_mem_cons_iff,
      @eq_comm _ k]
    exact or_assoc.symm.trans (or_congr_left or_comm)

theorem reread_plain (hplain : ∀ p ∈ l, escapeBackslash p.1 = p.1) (hl : l.NodupKeys) :
    (reread ∅ l).entries.Perm (l.map fun p => ⟨p.1, p.2.bind rereadValue⟩) := by
  have hfold : reread ∅ l =
      (l.map fun p => (⟨p.1, p.2.bind rereadValue⟩ : Σ _ : Bytes, Option Bytes)).foldl
        (fun r p => r.insert p.1 p.2) ∅ := by
    rw [reread, List.foldl_map]
    exact List.foldl_ext _ _ _ fun r p hp => by rw [hplain p hp]
  rw [hfold]
  refine (entries_foldl_insert _ _ ?_).trans (by simp)
  simpa [List.NodupKeys, List.keys, Function.comp_def] using hl

theorem plain_of_null {x : Bytes} (h : x.map toLower = (cStr (ascii "NULL")).map toLower) :
    ∀ c ∈ x, isSpecial c = false := by
  intro c hc
  have hmem := List.mem_map_of_mem (f := toLower) hc
  rw [h] at hmem
  rw [Bool.eq_false_iff]
  intro hs
  rcases isSpecial_iff.mp hs with rfl | rfl <;> revert hmem <;> decide

theorem cStr_escape : cStr (escapeBackslash v) = escapeBackslash (cStr v) := by
  induction v with
  | nil => rfl
  | cons c v ih =>
    rw [escapeBackslash, cStr] at ih ⊢
    rw [cStr, List.takeWhile_cons]
    by_cases hc : c = 0
    · subst hc
      rw [Escape.escape_cons_plain (by decide)]
      rfl
    · rw [if_pos (by simpa using hc)]
      cases hs : isSpecial c
      · rw [Escape.escape_cons_plain hs, List.takeWhile_cons_of_pos (by simpa using hc), ih]
        exact (Escape.escape_cons_plain hs).symm
      · rw [Escape.escape_cons_special hs, List.takeWhile_cons_of_pos (by decide),
          List.takeWhile_cons_of_pos (by simpa using hc), ih]
        have hcons : escapeBackslash (c :: cStr v) = ch '\\' :: c :: escapeBackslash (cStr v) :=
          Escape.escape_cons_special hs
        exact hcons.symm

theorem strcasecmpEq_escape :
    strcasecmpEq (escapeBackslash v) (ascii "NULL") = strcasecmpEq v (ascii "NULL") := by
  rw [strcasecmpEq, strcasecmpEq, cStr_escape, Bool.eq_iff_iff, beq_iff_eq, beq_iff_eq]
  constructor
  · intro h
    have hplain := plain_of_null h
    rwa [escapeBackslash, Escape.escape_of_plain fun c hc =>
      hplain c (Escape.mem_escape_of_mem hc)] at h
  · intro h
    rwa [escapeBackslash, Escape.escape_of_plain (plain_of_null h)]

/-- A value that is no spelling of NULL and in which every backslash stands alone. -/
def readableValue (v : Bytes) : Bool :=
  !strcasecmpEq v (ascii "NULL") && backslashesStandAlone v

theorem readableValue_iff : readableValue v = true ↔
    rereadValue v = some v ∧ v.getLast? ≠ some (ch '\\') := by
  rw [readableValue, Bool.and_eq_true, standAlone_iff, rereadValue, strcasecmpEq_escape]
  cases strcasecmpEq v (ascii "NULL") <;> simp

/-! ## Reading back -/

/-- A text that comes back as the hstore it was written from. The empty key may not
come first, keys need no escaping, and there are only readable values. -/
def readable (m : Hstore) : Bool :=
  m.keys.head? != some [] &&
    m.entries.all fun p => p.1.all (!isSpecial ·) && p.2.any readableValue

theorem readable_iff {m : Hstore} : readable m = true ↔ m.entries.keys.head? ≠ some [] ∧
    ∀ p ∈ m.entries, escapeBackslash p.1 = p.1 ∧ ∃ v, p.2 = some v ∧ rereadValue v = some v ∧
      v.getLast? ≠ some (ch '\\') := by
  simp only [readable, Bool.and_eq_true, bne_iff_ne, List.all_eq_true, Option.any_eq_true,
    readableValue_iff, escapeBackslash, Escape.escape_eq_self_iff, Bool.not_eq_true']
  rfl

theorem getLast?_of_plain (h : escapeBackslash k = k) : k.getLast? ≠ some (ch '\\') := by
  intro hlast
  have := Escape.escape_eq_self_iff.mp h _ (List.mem_of_getLast? hlast)
  rw [isSpecial_backslash] at this
  cases this

theorem fromTextHstore_of_readable {m : Hstore} (h : readable m = true) :
    ∃ out, fromTextHstore (hstoreOut m) = .ok out ∧ out.entries.Perm m.entries := by
  obtain ⟨hfirst, hpairs⟩ := readable_iff.mp h
  have hclean : ∀ p ∈ m.entries, cleanPair p = true := by
    rintro ⟨k, w⟩ hp
    obtain ⟨hk, v, rfl, -, hv⟩ := hpairs _ hp
    simpa [cleanPair] using ⟨getLast?_of_plain hk, hv⟩
  refine ⟨_, reread_eq hclean hfirst,
    (reread_plain (fun p hp => (hpairs p hp).1) m.nodupKeys).trans (List.Perm.of_eq ?_)⟩
  refine (List.map_congr_left (g := id) ?_).trans (List.map_id _)
  rintro ⟨k, w⟩ hp
  obtain ⟨-, v, rfl, hv, -⟩ := hpairs _ hp
  simp [hv]

theorem readable_of_fromTextHstore {m : Hstore} (h : fromTextHstore (hstoreOut m) = .ok out)
    (hperm : out.entries.Perm m.entries) : readable m = true := by
  have hlen := fromTextHstore_length h
  rw [hperm.length_eq] at hlen
  have hclean := clean_of_sum hlen
  have hfirst : m.entries.keys.head? ≠ some [] := by
    intro hkey
    have hlt := fromTextHstore_length_empty_key hkey h
    rw [hperm.length_eq] at hlt
    have := sum_pairDelimiters_le (l := m.entries)
    omega
  obtain rfl : reread ∅ m.entries = out := Except.ok.inj ((reread_eq hclean hfirst).symm.trans h)
  -- Every key comes back escaped, and the keys that come back are those of `m`.
  have hkeys : ∀ k ∈ m.keys.toFinset, escapeBackslash k ∈ m.keys.toFinset := by
    intro k hk
    rw [List.mem_toFinset] at hk ⊢
    obtain ⟨p, hp, rfl⟩ := List.mem_map.mp hk
    rw [← AList.mem_keys, ← AList.mem_of_perm hperm, mem_reread]
    exact .inl ⟨p, hp, rfl⟩
  have hplain : ∀ p ∈ m.entries, escapeBackslash p.1 = p.1 := fun p hp =>
    Escape.escape_of_plain (Escape.plain_of_escape_mem _ hkeys p.1
      (List.mem_toFinset.mpr (List.mem_map_of_mem hp)))
  have hvalues := (reread_plain hplain m.nodupKeys).symm.trans hperm
  rw [readable_iff]
  refine ⟨hfirst, ?_⟩
  rintro ⟨k, _ | v⟩ hp
  · exact absurd (hclean _ hp) (by simp [cleanPair])
  · have hmem := hvalues.subset (List.mem_map_of_mem hp)
    exact ⟨hplain _ hp, v, rfl, m.nodupKeys.eq_of_mk_mem hmem hp, (cleanPair_some (hclean _ hp)).2⟩

/-! ## Every key with its value -/

theorem throwIfMissing_iff {env env' : Env} :
    l.foldlM (fun env p => match p.2 with
      | none => .error (.runtimeError "Unexpected key without value.")
      | some v => .ok (env.insert p.1 v)) env = (.ok env' : Except CppError Env) ↔
    ∃ l' : List (Σ _ : Bytes, Bytes), l = l'.map (fun p => ⟨p.1, some p.2⟩) ∧
      env' = l'.foldl (fun r p => r.insert p.1 p.2) env := by
  induction l generalizing env with
  | nil =>
    constructor
    · intro h
      cases h
      exact ⟨[], rfl, rfl⟩
    · rintro ⟨l', hl, rfl⟩
      rw [List.map_eq_nil_iff.mp hl.symm]
      rfl
  | cons p l ih =>
    obtain ⟨k, _ | v⟩ := p
    · constructor
      · intro h
        cases h
      · rintro ⟨_ | ⟨q, l'⟩, hl, -⟩ <;> simp at hl
    · refine Iff.trans ih ?_
      constructor
      · rintro ⟨l', rfl, rfl⟩
        exact ⟨⟨k, v⟩ :: l', rfl, rfl⟩
      · rintro ⟨_ | ⟨q, l'⟩, hl, rfl⟩
        · simp at hl
        · obtain ⟨hq, rfl⟩ : _ ∧ l = _ := List.cons.inj hl
          cases hq
          exact ⟨l', rfl, rfl⟩

/-- An environment comes out when no value is missing, and it has the pairs that went in. -/
theorem throwIfMissingAnyValue_spec (m : Hstore) :
    ((∃ env, throwIfMissingAnyValue m = .ok env) ↔ ∀ p ∈ m.entries, p.2 ≠ none) ∧
      ∀ env, throwIfMissingAnyValue m = .ok env →
        (env.entries.map fun p => (⟨p.1, some p.2⟩ : Σ _ : Bytes, Option Bytes)).Perm m.entries := by
  refine ⟨⟨?_, fun h => ?_⟩, ?_⟩
  · rintro ⟨env, h⟩ p hp
    obtain ⟨l', hl, -⟩ := throwIfMissing_iff.mp h
    rw [hl] at hp
    obtain ⟨q, -, rfl⟩ := List.mem_map.mp hp
    simp
  · refine ⟨_, throwIfMissing_iff.mpr ⟨m.entries.map fun p => ⟨p.1, p.2.getD []⟩, ?_, rfl⟩⟩
    rw [List.map_map]
    refine ((List.map_congr_left ?_).trans (List.map_id _)).symm
    rintro ⟨k, _ | v⟩ hp
    · exact absurd rfl (h _ hp)
    · rfl
  · intro env h
    obtain ⟨l', hl, rfl⟩ := throwIfMissing_iff.mp h
    have hkeys : (l' ++ (∅ : Env).entries).NodupKeys := by
      have := m.nodupKeys
      rw [hl] at this
      simpa [List.NodupKeys, List.keys, Function.comp_def] using this
    rw [hl]
    exact List.Perm.map _ (by simpa using entries_foldl_insert l' ∅ hkeys)

/-! ## Keys are pieces of the text -/

theorem mem_substrTo {start last : Nat} (h : substrTo input start last = .ok x) (hc : c ∈ x) :
    c ∈ input := by
  unfold substrTo at h
  split at h
  · cases h
  · cases h
    exact List.mem_of_mem_drop (List.mem_of_mem_take hc)

def KeysWithin (input : Bytes) (m : Hstore) : Prop := ∀ k ∈ m, ∀ c ∈ k, c ∈ input

theorem keysWithin_hstoreScanQuote (h : KeysWithin input s.result)
    (hs : hstoreScanQuote input i s = .ok t) : KeysWithin input t.result := by
  unfold hstoreScanQuote at hs
  split at hs
  · split at hs
    · cases hs
      exact h
    · split at hs <;> cases hs <;> exact h
  · split at hs
    · cases hs
      exact h
    · split at hs
      · obtain ⟨raw, -, hs⟩ := bind_eq_ok hs
        obtain ⟨key, hkey, hs⟩ := bind_eq_ok hs
        cases hs
        intro k hk c hc
        rcases AList.mem_insert _ |>.mp hk with rfl | hk
        · exact mem_substrTo hkey hc
        · exact h k hk c hc
      · cases hs
        exact h

theorem keysWithin_hstoreScanLoop {n : Nat} (h : KeysWithin input s.result)
    (hs : hstoreScanLoop input n i s = .ok out) : KeysWithin input out := by
  induction n generalizing i s with
  | zero =>
    cases hs
    exact h
  | succ n ih =>
    unfold hstoreScanLoop at hs
    split at hs
    · dsimp only at hs
      split at hs
      · obtain ⟨t, ht, hs⟩ := bind_eq_ok hs
        exact ih (keysWithin_hstoreScanQuote h ht) hs
      · split at hs <;> exact ih h hs
    · cases hs
      exact h

theorem keysWithin_fromTextHstore (h : fromTextHstore input = .ok out) : KeysWithin input out := by
  apply keysWithin_hstoreScanLoop ?_ h
  intro k hk
  exact absurd hk (AList.notMem_empty k)

theorem noAbort_hstoreScanQuote : NoAbort (hstoreScanQuote input i s) := by
  unfold hstoreScanQuote
  repeat' split
  all_goals first
    | exact noAbort_ok _
    | refine noAbort_bind (noAbort_substrTo _ _ _) fun raw => ?_
  exact noAbort_bind (noAbort_substrTo _ _ _) fun key => noAbort_ok _

theorem noAbort_hstoreScanLoop (n : Nat) : NoAbort (hstoreScanLoop input n i s) := by
  induction n generalizing i s with
  | zero => exact noAbort_ok _
  | succ n ih =>
    unfold hstoreScanLoop
    split
    · dsimp only
      split
      · exact noAbort_bind noAbort_hstoreScanQuote fun t => ih
      · split
        · exact ih
        · exact ih
    · exact noAbort_ok _

theorem noAbort_throwIfMissing (l : List (Σ _ : Bytes, Option Bytes)) (env : Env) :
    NoAbort (l.foldlM (fun env p => match p.2 with
      | none => .error (.runtimeError "Unexpected key without value.")
      | some v => .ok (env.insert p.1 v)) env) := by
  induction l generalizing env with
  | nil => exact noAbort_ok _
  | cons p l ih =>
    rw [List.foldlM_cons]
    refine noAbort_bind ?_ ih
    split <;> intro expr <;> simp

/-- The text of `m` comes back as `m`, and its environment is accepted when it should be. -/
def ReadsBack (m : Hstore) : Prop :=
  ∃ out, fromTextHstore (hstoreOut m) = .ok out ∧ out.entries.Perm m.entries ∧
    ((∃ env, throwIfMissingAnyValue out = .ok env) ↔ ∀ p ∈ m.entries, p.2 ≠ none) ∧
    ∀ env, throwIfMissingAnyValue out = .ok env →
      (env.entries.map fun p => (⟨p.1, some p.2⟩ : Σ _ : Bytes, Option Bytes)).Perm m.entries

theorem readsBack_iff (m : Hstore) : ReadsBack m ↔ readable m = true := by
  constructor
  · rintro ⟨out, hout, hperm, -⟩
    exact readable_of_fromTextHstore hout hperm
  · intro h
    obtain ⟨out, hout, hperm⟩ := fromTextHstore_of_readable h
    obtain ⟨hiff, henv⟩ := throwIfMissingAnyValue_spec out
    refine ⟨out, hout, hperm, hiff.trans ?_, fun env h => (henv env h).trans hperm⟩
    exact ⟨fun h p hp => h p (hperm.mem_iff.mpr hp), fun h p hp => h p (hperm.mem_iff.mp hp)⟩

/-- The value 'null' comes back as NULL. -/
theorem not_readsBack_null : ¬ReadsBack (AList.singleton (ascii "A") (some (ascii "null"))) := by
  rintro ⟨out, hout, hperm, -⟩
  have htext : fromTextHstore (hstoreOut (AList.singleton (ascii "A") (some (ascii "null")))) =
      .ok (AList.singleton (ascii "A") none) := by rfl
  obtain rfl := Except.ok.inj (htext.symm.trans hout)
  have := hperm.mem_iff.mp (List.mem_singleton_self _)
  simp at this

end PgCmdQueue.Pq
