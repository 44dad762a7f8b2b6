import PgCmdQueue.Postgres.Constant
import PgCmdQueue.Pq.AsText
import PgCmdQueue.QueueCmd

/-!
# The environment of the daemon and of its commands

A runner passes `environ` to its session, which keeps it in a temporary function. A view takes what it
needs of it for `cmd_env`, and `run_cmd` gives that to the child.
-/

namespace PgCmdQueue.Environment

open Cpp Postgres Pq

/-! ## The session -/

/-- `quote_literal`, which is what `%L` of `format` writes for a text. -/
def quoteLiteral (x : Bytes) : Bytes :=
  if ch '\\' ∈ x then ascii "E'" ++ stringBody true x else ascii "'" ++ stringBody false x

def createFunction : Bytes := ascii "
        CREATE FUNCTION pg_temp.pg_cmdqd_env()
            RETURNS HSTORE
            IMMUTABLE
            LEAKPROOF
            PARALLEL SAFE
            RETURN "

/-- The statement that `runner_session_start` executes. -/
def createFunctionStmt (env : Hstore) : Bytes :=
  createFunction ++ (quoteLiteral (hstoreOut env) ++ ascii "::hstore")

/-- What a constant that `quote_literal` wrote stands for. -/
def literalIn : Reader Bytes := fun text =>
  if (ascii "E'").isPrefixOf text then stringIn true (text.drop 2)
  else if (ascii "'").isPrefixOf text then stringIn false (text.drop 1)
  else none

/-- What the new function returns. -/
def createdFunction (stmt : Bytes) : Option Hstore := do
  let (_, text) ← skip createFunction stmt
  let (x, text) ← literalIn text
  let (_, _) ← skip (ascii "::hstore") text
  hstoreIn x

/-- The functions that `global_cmd_env()` looks for. -/
structure Session where
  pgCmdqdEnv : Option Hstore := none
  mockEnv : Option Hstore := none

def Session.runnerSessionStart (s : Session) (pgCmdqdEnv : Bytes) : Option Session := do
  let env ← hstoreIn pgCmdqdEnv
  let returned ← createdFunction (createFunctionStmt env)
  return { s with pgCmdqdEnv := some returned }

/-- `||` prefers the value on its right. -/
def concat (l r : Hstore) : Hstore := r ∪ l

def Session.globalCmdEnv (s : Session) : Hstore :=
  let cmdEnv := s.pgCmdqdEnv.getD ∅
  match s.mockEnv with
  | some env => concat cmdEnv env
  | none => cmdEnv

/-- `slice(hstore, text[])`. -/
def slice (m : Hstore) (names : List Bytes) : Hstore :=
  (m.entries.filter fun p => names.contains p.1).toAList

variable {m : Hstore} {env : Env} {entries : List (Σ _ : Bytes, Option Bytes)} {name value x rest : Bytes}
  {vars : List (Bytes × Bytes)} {names : List Bytes} {n : Nat}

/-! ## The server reads what it writes -/

theorem hstorePairsIn_space (n : Nat) (text : Bytes) :
    hstorePairsIn n (ch ' ' :: text) = hstorePairsIn n text := by
  have hskip : skipSpaces (ch ' ' :: text) = skipSpaces text := by simp +decide [skipSpaces]
  cases n with
  | zero => rfl
  | succ n => rw [hstorePairsIn, hstorePairsIn, hskip]

theorem hstorePairsIn_pairs (hn : entries.length < n) :
    hstorePairsIn n (joined (ascii ", ") (entries.map hstorePair)) = some entries := by
  induction entries generalizing n with
  | nil =>
    obtain ⟨n, rfl⟩ : ∃ k, n = k + 1 := ⟨n - 1, by simp at hn; omega⟩
    rfl
  | cons pair entries ih =>
    obtain ⟨n, rfl⟩ : ∃ k, n = k + 1 := ⟨n - 1, by simp at hn; omega⟩
    obtain ⟨text, htext⟩ := hstoreEntryText_cons pair
    rw [← hstorePair_eq] at htext
    have hskip : ∀ rest, skipSpaces (hstorePair pair ++ rest) = hstorePair pair ++ rest := by
      intro rest
      rw [htext, List.cons_append, skipSpaces_cons rfl]
    have hread : ∀ rest, (∀ c ∈ rest.head?, c = ch ',') →
        hstorePairIn (hstorePair pair ++ rest) = some (pair, rest) := fun rest hrest => by
      rw [hstorePair_eq, hstorePairIn_entry hrest]
    cases entries with
    | nil =>
      have hone : joined (ascii ", ") ([pair].map hstorePair) = hstorePair pair ++ [] :=
        (List.append_nil _).symm
      rw [hone, hstorePairsIn, hskip, if_neg (by simp [htext]), hread _ (by simp)]
      rfl
    | cons pair' entries =>
      have hcons : joined (ascii ", ") ((pair :: pair' :: entries).map hstorePair) =
          hstorePair pair ++ ch ',' :: ch ' ' ::
            joined (ascii ", ") ((pair' :: entries).map hstorePair) := rfl
      rw [hcons, hstorePairsIn, hskip, if_neg (by simp [htext]), hread _ (by simp),
        Option.bind_some, skipSpaces_cons rfl]
      simp only [if_true, hstorePairsIn_space, ih (by simpa using hn)]
      rfl

theorem length_le_pairs (entries : List (Σ _ : Bytes, Option Bytes)) :
    entries.length ≤ (joined (ascii ", ") (entries.map hstorePair)).length := by
  induction entries with
  | nil => exact Nat.le_refl _
  | cons pair entries ih =>
    cases entries with
    | nil => simp [joined, hstorePair, hstoreToken, dquoted]
    | cons pair' entries =>
      simp [joined, hstorePair, hstoreToken, dquoted, ascii] at ih ⊢
      omega

theorem nulFree_hstoreOut (hnul : ∀ pair ∈ m.entries, NulFreeEntry pair) : NulFree (hstoreOut m) := by
  apply nulFree_joined (by decide)
  intro x hx
  obtain ⟨pair, hpair, rfl⟩ := List.mem_map.mp hx
  rw [hstorePair_eq]
  exact nulFree_hstoreEntryText (hnul pair hpair)

theorem dedupKeys_of_nodupKeys {β : Type} {l : List (Σ _ : Bytes, β)} (hl : l.NodupKeys) :
    l.dedupKeys = l := by
  induction l with
  | nil => rfl
  | cons p l ih =>
    obtain ⟨hp, hl⟩ := List.nodupKeys_cons.mp hl
    rw [List.dedupKeys_cons, ih hl, List.kinsert_def, List.kerase_of_notMem_keys hp]

theorem hstoreIn_hstoreOut (hnul : ∀ pair ∈ m.entries, NulFreeEntry pair) :
    hstoreIn (hstoreOut m) = some m := by
  have hlength : m.entries.length ≤ (hstoreOut m).length := length_le_pairs m.entries
  have hpairs : hstorePairsIn ((hstoreOut m).length + 1) (hstoreOut m) = some m.entries :=
    hstorePairsIn_pairs (by omega)
  rw [hstoreIn, cStr_of_nulFree (nulFree_hstoreOut hnul), hpairs]
  exact congrArg some (AList.ext (dedupKeys_of_nodupKeys m.nodupKeys))

theorem literalIn_quoteLiteral (h : rest.head? ≠ some (ch '\'')) :
    literalIn (quoteLiteral x ++ rest) = some (x, rest) := by
  unfold quoteLiteral
  split
  · exact stringIn_body h
  · exact stringIn_body h

/-- The statement is taken apart where it was put together, whatever the values have in them. -/
theorem createdFunction_stmt (hnul : ∀ pair ∈ m.entries, NulFreeEntry pair) :
    createdFunction (createFunctionStmt m) = some m := by
  unfold createdFunction createFunctionStmt
  rw [skip_append]
  simp only [Option.bind_eq_bind, Option.bind_some]
  rw [literalIn_quoteLiteral (by decide)]
  simp only [Option.bind_some]
  have hcast : skip (ascii "::hstore") (ascii "::hstore") = some ((), []) := by decide
  rw [hcast, Option.bind_some, hstoreIn_hstoreOut hnul]

/-! ## The session has the environment -/

theorem mem_of_lookup (h : vars.lookup name = some value) : (name, value) ∈ vars := by
  obtain ⟨l, l', rfl, -⟩ := List.lookup_eq_some_iff.mp h
  simp

theorem dlookup_present (vars : List (Bytes × Bytes)) (name : Bytes) :
    (vars.map present).dlookup name = (vars.lookup name).map some := by
  induction vars with
  | nil => rfl
  | cons p vars ih =>
    obtain ⟨name', value⟩ := p
    by_cases hname : name = name'
    · subst hname
      rw [List.map_cons, present, List.dlookup_cons_eq, List.lookup_cons_self]
      rfl
    · rw [List.map_cons, present, List.dlookup_cons_ne _ _ hname, ih, List.lookup_cons,
        beq_false_of_ne hname]

/-- The variables that a map has. -/
def HasVars (m : Hstore) (vars : List (Bytes × Bytes)) : Prop :=
  ∀ name, m.lookup name = (vars.lookup name).map some

theorem nulFree_of_hasVars (hm : HasVars m vars) (h : IsEnviron vars) :
    ∀ pair ∈ m.entries, NulFreeEntry pair := by
  rintro ⟨name, value⟩ hpair
  have hlookup := hm name
  rw [AList.mem_lookup_iff.mpr hpair, eq_comm, Option.map_eq_some_iff] at hlookup
  obtain ⟨v, hv, rfl⟩ := hlookup
  obtain ⟨hname, hvalue⟩ := h.nulFree _ (mem_of_lookup hv)
  exact ⟨hname, by simpa using hvalue⟩

theorem runnerSessionStart_environ (s : Session) (h : IsEnviron vars) : ∃ map,
    environToUnorderedMap (vars.map environString) = .ok map ∧ ∀ strings, strings.Perm map.entries →
      ∃ env, s.runnerSessionStart (asTextHstoreOfStrings strings) =
        some { s with pgCmdqdEnv := some env } ∧ HasVars env vars := by
  obtain ⟨map, hmap, hread⟩ := hstoreIn_environ h
  refine ⟨map, hmap, fun strings hperm => ?_⟩
  obtain ⟨env, henv, hsame⟩ := Option.map_eq_some_iff.mp (hread strings hperm)
  have hvars : HasVars env vars := fun name => by
    rw [← Finmap.lookup_toFinmap, hsame, Finmap.dlookup_list_toFinmap, dlookup_present]
  refine ⟨env, ?_, hvars⟩
  unfold Session.runnerSessionStart
  rw [henv]
  simp only [Option.bind_eq_bind, Option.bind_some]
  rw [createdFunction_stmt (nulFree_of_hasVars hvars h)]
  rfl

/-! ## The command gets what was taken of it -/

theorem dlookup_filter (l : List (Σ _ : Bytes, Option Bytes)) (names : List Bytes) (name : Bytes) :
    (l.filter fun p => names.contains p.1).dlookup name = if names.contains name then l.dlookup name else none := by
  induction l with
  | nil => simp
  | cons p l ih =>
    obtain ⟨name', value⟩ := p
    by_cases hmem : names.contains name'
    · rw [List.filter_cons_of_pos (by exact hmem)]
      by_cases hname : name = name'
      · subst hname
        rw [List.dlookup_cons_eq, if_pos hmem, List.dlookup_cons_eq]
      · rw [List.dlookup_cons_ne _ _ hname, List.dlookup_cons_ne _ _ hname, ih]
    · rw [List.filter_cons_of_neg (by exact hmem), ih]
      split
      · rename_i hname
        have hne : name ≠ name' := fun heq => hmem (heq ▸ hname)
        rw [List.dlookup_cons_ne _ _ hne]
      · rfl

theorem lookup_slice (m : Hstore) (names : List Bytes) (name : Bytes) :
    (slice m names).lookup name = if names.contains name then m.lookup name else none := by
  show (m.entries.filter fun p => names.contains p.1).dedupKeys.dlookup name = _
  rw [List.dlookup_dedupKeys, dlookup_filter]
  rfl

/-- The names have nothing to escape, and `setenv` takes them. -/
structure Portable (vars : List (Bytes × Bytes)) (names : List Bytes) : Prop where
  nonempty : [] ∉ names
  plain : ∀ p ∈ vars, p.1 ∈ names → p.1.all (!isSpecial ·) = true
  readable : ∀ p ∈ vars, p.1 ∈ names → readableValue p.2 = true

theorem lookup_foldl_insert {l : List (Σ _ : Bytes, Bytes)} (hl : l.NodupKeys) (env : Env) (name : Bytes) :
    (l.foldl (fun env p => env.insert p.1 p.2) env).lookup name =
      (l.dlookup name).or (env.lookup name) := by
  induction l generalizing env with
  | nil => rfl
  | cons p l ih =>
    obtain ⟨name', value⟩ := p
    obtain ⟨hp, hl⟩ := List.nodupKeys_cons.mp hl
    rw [List.foldl_cons, ih hl]
    by_cases hname : name = name'
    · subst hname
      rw [List.dlookup_eq_none.mpr hp, AList.lookup_insert, List.dlookup_cons_eq]
      rfl
    · rw [AList.lookup_insert_ne hname, List.dlookup_cons_ne _ _ hname]

theorem decodeEnv_of_readable {row : ResultRow} (hrow : row.notNull "cmd_env" = .ok (hstoreOut m))
    (hm : readable m = true) :
    ∃ env, decodeEnv row = .ok env ∧ ∀ name, (env.lookup name).map some = m.lookup name := by
  obtain ⟨out, hout, hperm⟩ := fromTextHstore_of_readable hm
  have hvalues : ∀ p ∈ out.entries, p.2 ≠ none := by
    intro p hp
    obtain ⟨-, v, hv, -⟩ := (readable_iff.mp hm).2 p (hperm.mem_iff.mp hp)
    simp [hv]
  obtain ⟨env, henv⟩ := (throwIfMissingAnyValue_spec out).1.mpr hvalues
  have hpairs := (throwIfMissingAnyValue_spec out).2 env henv
  refine ⟨env, ?_, fun name => ?_⟩
  · unfold decodeEnv
    rw [hrow]
    show (do throwIfMissingAnyValue (← fromTextHstore (hstoreOut m))) = _
    rw [hout]
    exact henv
  · have hnodup := (List.perm_nodupKeys hpairs).mpr out.nodupKeys
    have hsame := List.perm_dlookup name hnodup (hpairs.trans hperm)
    have hmap : (env.entries.map fun p => (⟨p.1, some p.2⟩ : Σ _ : Bytes, Option Bytes)).dlookup name =
        (env.entries.dlookup name).map some := List.dlookup_map₂ (f := fun _ => some) name
    exact hmap.symm.trans hsame

theorem setenv_eq_insert (hname : name ≠ []) (hequals : ch '=' ∉ name)
    (hnul : NulFree name ∧ NulFree value) : setenv env name value = env.insert name value := by
  unfold setenv
  rw [cStr_of_nulFree hnul.1, cStr_of_nulFree hnul.2, if_neg (by simp [hname, hequals])]

/-- What `setenv` takes comes over the `PATH` that is there first. -/
theorem lookup_childEnv {cmd : NixQueueCmd} {path : Bytes} (hpath : NulFree path)
    (hvars : ∀ p ∈ cmd.cmdEnv.entries, p.1 ≠ [] ∧ ch '=' ∉ p.1 ∧ NulFree p.1 ∧ NulFree p.2)
    (name : Bytes) : (cmd.childEnv path).lookup name =
    (cmd.cmdEnv.lookup name).or (if name = ascii "PATH" then some path else none) := by
  have hbase : setenv ∅ (ascii "PATH") path = (∅ : Env).insert (ascii "PATH") path :=
    setenv_eq_insert (by decide) (by decide) ⟨by decide, hpath⟩
  have hfold : cmd.childEnv path = cmd.cmdEnv.entries.foldl (fun env p => env.insert p.1 p.2)
      ((∅ : Env).insert (ascii "PATH") path) := by
    rw [NixQueueCmd.childEnv, hbase]
    refine List.foldl_ext _ _ _ fun env p hp => ?_
    obtain ⟨hname, hequals, hnul⟩ := hvars p hp
    exact setenv_eq_insert hname hequals hnul
  rw [hfold, lookup_foldl_insert cmd.cmdEnv.nodupKeys]
  congr 1
  split
  · subst name
    rw [AList.lookup_insert]
  · rename_i hname
    rw [AList.lookup_insert_ne hname]
    rfl

/-- A column that has the variables of these names. -/
def HasSlice (m : Hstore) (vars : List (Bytes × Bytes)) (names : List Bytes) : Prop :=
  ∀ name, m.lookup name = if names.contains name then (vars.lookup name).map some else none

theorem of_hasSlice (hm : HasSlice m vars names) {p : Σ _ : Bytes, Option Bytes} (hp : p ∈ m.entries) :
    p.1 ∈ names ∧ ∃ v, p.2 = some v ∧ (p.1, v) ∈ vars := by
  have hlookup := hm p.1
  rw [AList.mem_lookup_iff.mpr hp] at hlookup
  split at hlookup
  · rename_i hname
    obtain ⟨v, hv, hvalue⟩ := Option.map_eq_some_iff.mp hlookup.symm
    exact ⟨List.contains_iff_mem.mp hname, v, hvalue.symm, mem_of_lookup hv⟩
  · cases hlookup

theorem readable_of_hasSlice (hm : HasSlice m vars names) (h : Portable vars names) :
    readable m = true := by
  rw [readable, Bool.and_eq_true, bne_iff_ne, List.all_eq_true]
  constructor
  · intro hfirst
    obtain ⟨p, hp, hname⟩ := List.mem_map.mp (List.mem_of_head? hfirst)
    exact h.nonempty (hname ▸ (of_hasSlice hm hp).1)
  · rintro ⟨name, value⟩ hp
    obtain ⟨hname, v, rfl, hv⟩ := of_hasSlice hm hp
    rw [Bool.and_eq_true]
    exact ⟨h.plain _ hv hname, h.readable _ hv hname⟩

/-- What comes out of the column is put into the child's environment as it is. -/
theorem childEnv_of_hasSlice {row : ResultRow} {path : Bytes} (hm : HasSlice m vars names)
    (hvars : IsEnviron vars) (h : Portable vars names) (hpath : vars.lookup (ascii "PATH") = some path)
    (hrow : row.notNull "cmd_env" = .ok (hstoreOut m)) :
    ∃ env, decodeEnv row = .ok env ∧ ∀ cmd : NixQueueCmd, cmd.cmdEnv = env → ∀ name,
      (cmd.childEnv path).lookup name =
        if names.contains name ∨ name = ascii "PATH" then vars.lookup name else none := by
  obtain ⟨env, henv, hlookup⟩ := decodeEnv_of_readable hrow (readable_of_hasSlice hm h)
  refine ⟨env, henv, fun cmd hcmd name => ?_⟩
  subst hcmd
  have hsame : ∀ name, cmd.cmdEnv.lookup name = if names.contains name then vars.lookup name else none := by
    intro name
    have hname := (hlookup name).trans (hm name)
    apply Option.map_injective (Option.some_injective _)
    rw [hname]
    split <;> rfl
  have hentries : ∀ p ∈ cmd.cmdEnv.entries, p.1 ≠ [] ∧ ch '=' ∉ p.1 ∧ NulFree p.1 ∧ NulFree p.2 := by
    rintro ⟨name, value⟩ hp
    have hvalue := hsame name
    rw [AList.mem_lookup_iff.mpr hp] at hvalue
    split at hvalue
    · rename_i hname
      have hmem := mem_of_lookup hvalue.symm
      refine ⟨?_, hvars.noEquals _ hmem, hvars.nulFree _ hmem⟩
      rintro rfl
      exact h.nonempty (List.contains_iff_mem.mp hname)
    · cases hvalue
  rw [lookup_childEnv (hvars.nulFree _ (mem_of_lookup hpath)).2 hentries, hsame]
  simp only [List.contains_iff_mem]
  by_cases hname : name ∈ names <;> by_cases hname' : name = ascii "PATH"
  · subst hname'
    simp [hname, hpath]
  · simp [hname, hname']
  · subst hname'
    simp [hname, hpath]
  · simp [hname, hname']

/-! ## From one environment to the other -/

/-- The child of a command whose `cmd_env` is a slice of `global_cmd_env()`. -/
def Arrives (vars : List (Bytes × Bytes)) (names : List Bytes) (path : Bytes) (s : Session) : Prop :=
  ∀ m : Hstore, m.toFinmap = (slice s.globalCmdEnv names).toFinmap →
    ∀ row : ResultRow, row.notNull "cmd_env" = .ok (hstoreOut m) →
      ∃ env, decodeEnv row = .ok env ∧ ∀ cmd : NixQueueCmd, cmd.cmdEnv = env → ∀ name,
        (cmd.childEnv path).lookup name =
          if names.contains name ∨ name = ascii "PATH" then vars.lookup name else none

def someVars : List (Bytes × Bytes) :=
  [(ascii "PATH", ascii "/usr/bin"), (ascii "TOKEN", ascii "secret"), (ascii "OPTS", ascii "a=\"b\", c\n")]

end PgCmdQueue.Environment
