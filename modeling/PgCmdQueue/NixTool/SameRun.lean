import PgCmdQueue.NixTool.CmdLine
import PgCmdQueue.Runner.NixStdin

/-!
# The tool and the daemon on the same row

Both end in `run_cmd`. The daemon decodes the row for it, and the tool is handed the values.
-/

namespace PgCmdQueue.NixTool

open Cpp Postgres Pq

/-! ## The daemon -/

/-- The row as the select statements return it. -/
def NixRow.selected (reserved : Bytes → Bool) (row : NixRow) : ResultRow where
  fieldNumbers := ((["cmd_class_identity", "cmd_class_relname", "cmd_id", "cmd_subid", "cmd_argv",
    "cmd_env", "cmd_stdin"].map ascii).zipIdx.map fun p => ⟨p.1, p.2⟩).toAList
  values := fun n => [some (classIdentity reserved row.nspname row.relname), some row.relname.1,
    some row.cmdId.1, row.cmdSubid.map (·.1),
    some (arrayOutOrNulls (row.cmdArgv.map (·.map (·.1)))), some (hstoreOut row.cmdEnv),
    row.cmdStdin].getD n none

def NixRow.daemonExecutes (reserved : Bytes → Bool) (asserts : Bool) (row : NixRow) (path : Bytes) :
    Except CppError (List Executed) :=
  if Runner.selectListEvaluates row.cmdStdin then
    runSelected asserts .nix (row.selected reserved) ⟨true, true, path⟩
  else .ok []

/-- The tool accepts the words, executes what the daemon executes, and has the result go where
the daemon has it go. Both have the same `PATH`, but for the variables of the row. -/
def SameRun (reserved : Bytes → Bool) (asserts : Bool) (row : NixRow) (path : Bytes) : Prop :=
  ∃ run, main (row.words reserved) (row.exportedPath path) false row.stdin = .ok run ∧
    row.daemonExecutes reserved asserts path = .ok run.executed ∧
    run.outputUpdateStatement = true ∧ run.execUpdateStatement = false ∧
    ∃ m, QueueCmdMetadata.ofRow (row.selected reserved) = .ok m ∧
      run.nixQueueCmd.metadata.cmdClassIdentity = m.cmdClassIdentity ∧
      run.nixQueueCmd.metadata.cmdId = m.cmdId ∧
      run.nixQueueCmd.metadata.cmdSubid = m.cmdSubid

variable {reserved : Bytes → Bool} {asserts : Bool} {row : NixRow}

/-! ## The environment -/

/-- What `setenv` does not take for a name. -/
def Refused (name : Bytes) : Prop := name = [] ∨ ch '=' ∈ name

instance (name : Bytes) : Decidable (Refused name) := inferInstanceAs (Decidable (_ ∨ _))

/-- Nothing is set but `PATH`, and that to what another process has in its place. -/
structure OnlyPath (env : Env) (path exported : Bytes) : Prop where
  vars : ∀ p ∈ env.entries, Refused p.1 ∨ (p.1 = ascii "PATH" ∧ cStr p.2 = exported)
  path : exported = path ∨ ascii "PATH" ∈ env

variable {env : Env} {path exported name value : Bytes} {vars : List (Σ _ : Bytes, Bytes)}

theorem setenv_refused (hnul : NulFree name) (h : Refused name) : setenv env name value = env := by
  rw [setenv, cStr_of_nulFree hnul]
  exact if_pos h

theorem setenv_of_not_refused (hnul : NulFree name) (h : ¬Refused name) :
    setenv env name value = env.insert name (cStr value) := by
  rw [setenv, cStr_of_nulFree hnul]
  exact if_neg h

/-- The child sees the last value of every name. -/
theorem lookup_foldl_setenv (hnodup : vars.NodupKeys) (hnul : ∀ p ∈ vars, NulFree p.1)
    (hname : ¬Refused name) :
    (vars.foldl (fun env var => setenv env var.1 var.2) env).lookup name =
      ((vars.dlookup name).map cStr).or (env.lookup name) := by
  induction vars generalizing env with
  | nil => rfl
  | cons p vars ih =>
    rw [List.forall_mem_cons] at hnul
    rw [List.foldl_cons, ih (List.nodupKeys_cons.mp hnodup).2 hnul.2]
    by_cases hp : name = p.1
    · subst hp
      have hnew : vars.dlookup p.1 = none :=
        List.dlookup_eq_none.mpr (List.notMem_keys_of_nodupKeys_cons hnodup)
      rw [hnew, List.dlookup_cons_eq, setenv_of_not_refused hnul.1 hname, AList.lookup_insert]
      rfl
    · rw [List.dlookup_cons_ne _ _ hp]
      congr 1
      by_cases hrefused : Refused p.1
      · rw [setenv_refused hnul.1 hrefused]
      · rw [setenv_of_not_refused hnul.1 hrefused, AList.lookup_insert_ne hp]

theorem setenv_path : setenv ∅ (ascii "PATH") path = AList.singleton (ascii "PATH") (cStr path) := by
  rw [setenv_of_not_refused (by decide) (by decide), AList.insert_empty]

theorem foldl_setenv_onlyPath
    (hvars : ∀ p ∈ vars, Refused p.1 ∨ (p.1 = ascii "PATH" ∧ cStr p.2 = exported))
    (hnul : ∀ p ∈ vars, NulFree p.1) :
    vars.foldl (fun env var => setenv env var.1 var.2) (AList.singleton (ascii "PATH") path) =
      AList.singleton (ascii "PATH") (if ascii "PATH" ∈ vars.keys then exported else path) := by
  induction vars generalizing path with
  | nil => rfl
  | cons p vars ih =>
    rw [List.forall_mem_cons] at hvars hnul
    rw [List.foldl_cons]
    rcases hvars.1 with hrefused | ⟨hname, hvalue⟩
    · have hne : ascii "PATH" ≠ p.1 := by
        intro h
        rw [← h] at hrefused
        revert hrefused
        decide
      simp only [setenv_refused hnul.1 hrefused, ih hvars.2 hnul.2, List.keys_cons, List.mem_cons, hne,
        false_or]
    · rw [hname, setenv_of_not_refused (by decide) (by decide), hvalue, AList.insert_singleton_eq,
        ih hvars.2 hnul.2, ite_self, if_pos]
      rw [List.keys_cons, hname]
      exact List.mem_cons_self

theorem lookup_onlyPath : (AList.singleton (ascii "PATH") path : Env).lookup name =
    if name = ascii "PATH" then some path else none := by
  split
  · rename_i h
    rw [h]
    rfl
  · rename_i h
    exact List.dlookup_cons_ne [] (⟨ascii "PATH", path⟩ : Σ _ : Bytes, Bytes) h

/-- The two environments are the same exactly if the row sets nothing but `PATH`. -/
theorem childEnv_eq_iff {cmd : NixQueueCmd} (hnul : ∀ p ∈ cmd.cmdEnv.entries, NulFree p.1)
    (hpath : NulFree path) :
    cmd.childEnv path = AList.singleton (ascii "PATH") exported ↔
      OnlyPath cmd.cmdEnv path exported := by
  rw [NixQueueCmd.childEnv, setenv_path, cStr_of_nulFree hpath]
  constructor
  · intro h
    have hlookup : ∀ name, ¬Refused name → ((cmd.cmdEnv.entries.dlookup name).map cStr).or
        (if name = ascii "PATH" then some path else none) =
          if name = ascii "PATH" then some exported else none := by
      intro name hname
      rw [← lookup_onlyPath, ← lookup_onlyPath,
        ← lookup_foldl_setenv cmd.cmdEnv.nodupKeys hnul hname, h]
    refine ⟨?_, ?_⟩
    · intro p hp
      by_cases hrefused : Refused p.1
      · exact .inl hrefused
      · have hvalue := List.mem_dlookup cmd.cmdEnv.nodupKeys hp
        have := hlookup p.1 hrefused
        rw [hvalue, Option.map_some, Option.some_or] at this
        split at this
        · rename_i hname
          exact .inr ⟨hname, Option.some_inj.mp this⟩
        · cases this
    · by_cases hmem : ascii "PATH" ∈ cmd.cmdEnv
      · exact .inr hmem
      · have hnone : cmd.cmdEnv.entries.dlookup (ascii "PATH") = none :=
          List.dlookup_eq_none.mpr hmem
        have := hlookup (ascii "PATH") (by decide)
        rw [hnone, Option.map_none, Option.none_or, if_pos rfl, if_pos rfl, Option.some_inj] at this
        exact .inl this.symm
  · intro h
    rw [foldl_setenv_onlyPath h.vars hnul]
    split
    · rfl
    · rename_i hmem
      rw [h.path.resolve_right hmem]

/-! ## What the daemon decodes -/

def NixRow.envRead (row : NixRow) : Except CppError Env := do
  throwIfMissingAnyValue (← fromTextHstore (hstoreOut row.cmdEnv))

def NixRow.argvText (row : NixRow) : Bytes := arrayOutOrNulls (row.cmdArgv.map (·.map (·.1)))

theorem nulFree_argvText : NulFree row.argvText := by
  rw [NixRow.argvText, arrayOutOrNulls, nulFree_cons, nulFree_append]
  refine ⟨by decide, nulFree_joined (by decide) ?_, by decide⟩
  intro text htext
  rw [List.map_map] at htext
  obtain ⟨f, -, rfl⟩ := List.mem_map.mp htext
  cases f with
  | none => decide
  | some x =>
    rw [Function.comp_apply, Option.map_some, arrayElemOrNull, arrayElem]
    split
    · exact nulFree_doubleQuote x.2
    · exact x.2

theorem nulFree_hstoreOut : NulFree (hstoreOut row.cmdEnv) := by
  apply nulFree_joined (by decide)
  intro text htext
  obtain ⟨pair, hpair, rfl⟩ := List.mem_map.mp htext
  have hentry := nulFree_hstoreEntryText (row.cmdEnv_nulFree pair hpair)
  rwa [← hstorePair_eq] at hentry

theorem selected_metadata : QueueCmdMetadata.ofRow (row.selected reserved) =
    .ok ⟨true, cStr (classIdentity reserved row.nspname row.relname), row.relname.1, row.cmdId.1,
      row.cmdSubid.map (·.1)⟩ := by
  have hraw : QueueCmdMetadata.ofRow (row.selected reserved) =
      .ok ⟨true, cStr (classIdentity reserved row.nspname row.relname), cStr row.relname.1,
        cStr row.cmdId.1, (row.cmdSubid.map (·.1)).map cStr⟩ := rfl
  have hsubid : (row.cmdSubid.map (·.1)).map cStr = row.cmdSubid.map (·.1) := by
    cases row.cmdSubid with
    | none => rfl
    | some subid => exact congrArg some (cStr_of_nulFree subid.2)
  rw [hraw, hsubid, cStr_of_nulFree row.relname.2, cStr_of_nulFree row.cmdId.2]

theorem selected_argv : decodeArgv asserts (row.selected reserved) =
    fromTextArray asserts row.argvText := by
  have hraw : (row.selected reserved).notNull "cmd_argv" = .ok (cStr row.argvText) := rfl
  rw [decodeArgv, hraw, cStr_of_nulFree nulFree_argvText]
  rfl

theorem selected_env : decodeEnv (row.selected reserved) = row.envRead := by
  have hraw : (row.selected reserved).notNull "cmd_env" = .ok (cStr (hstoreOut row.cmdEnv)) := rfl
  rw [decodeEnv, hraw, cStr_of_nulFree nulFree_hstoreOut]
  rfl

theorem selected_stdin (reserved : Bytes → Bool) (row : NixRow) :
    decodeStdin (row.selected reserved) = .ok (cStr row.stdin) := rfl

theorem nulFree_envRead {env : Env} (h : row.envRead = .ok env) : ∀ p ∈ env.entries, NulFree p.1 := by
  obtain ⟨m, hm, henv⟩ := bind_eq_ok h
  intro p hp c hc
  have hperm := (throwIfMissingAnyValue_spec m).2 env henv
  have hkey : p.1 ∈ m := by
    have := hperm.mem_iff.mp (List.mem_map_of_mem hp)
    exact AList.mem_keys.mpr (List.mem_keys_of_mem this)
  exact nulFree_hstoreOut c (keysWithin_fromTextHstore hm p.1 hkey c hc)

theorem map_some_reduceOption {l : List (Option Text)} (h : ∀ f ∈ l, f ≠ none) :
    l.reduceOption.map some = l := by
  induction l with
  | nil => rfl
  | cons f l ih =>
    rw [List.forall_mem_cons] at h
    obtain ⟨x, rfl⟩ := Option.ne_none_iff_exists'.mp h.1
    rw [List.reduceOption_cons_of_some, List.map_cons, ih h.2]

/-- Neither a NULL nor a backslash gets past both of them. -/
theorem argv_iff : (∃ decoded, fromTextArray asserts row.argvText = .ok decoded ∧
      decoded.map cStr = row.presentArgv) ↔
    ∀ f ∈ row.cmdArgv, ∃ x, f = some x ∧ ch '\\' ∉ x.1 := by
  constructor
  · rintro ⟨decoded, hdecoded, hargv⟩
    -- The daemon never reads a backslash, so the tool is given none.
    have hpresent : ∀ x ∈ row.presentArgv, ch '\\' ∉ x := by
      rw [← hargv]
      intro x hx hmem
      obtain ⟨d, hd, rfl⟩ := List.mem_map.mp hx
      exact fromTextArray_no_backslash hdecoded d hd ((List.takeWhile_sublist _).subset hmem)
    have hplain : ∀ f ∈ row.cmdArgv, ∀ x, f = some x → ch '\\' ∉ x.1 := by
      rintro f hf x rfl
      exact hpresent _ (List.mem_map_of_mem (List.reduceOption_mem_iff.mpr hf))
    have hread := fromTextArray_arrayOutOrNulls asserts (row.cmdArgv.map (·.map (·.1))) (by
      intro g hg
      obtain ⟨f, hf, rfl⟩ := List.mem_map.mp hg
      cases f with
      | none => decide
      | some x => exact hplain _ hf x rfl)
    -- It reads as many arguments as the array has elements, and the tool has no NULLs.
    have hlength : row.cmdArgv.reduceOption.length = row.cmdArgv.length := by
      have := congrArg List.length hargv
      rw [NixRow.presentArgv, List.length_map, List.length_map] at this
      rw [← this, ← Except.ok.inj (hread.symm.trans hdecoded)]
      simp
    intro f hf
    obtain ⟨x, rfl⟩ := Option.isSome_iff_exists.mp
      (List.reduceOption_length_eq_iff.mp hlength f hf)
    exact ⟨x, rfl, hplain _ hf x rfl⟩
  · intro h
    have hsome : row.cmdArgv.reduceOption.map some = row.cmdArgv := by
      apply map_some_reduceOption
      rintro f hf rfl
      obtain ⟨x, hx, -⟩ := h none hf
      cases hx
    have htext : row.argvText = arrayOut row.presentArgv := by
      rw [NixRow.argvText, NixRow.presentArgv, ← arrayOutOrNulls_map_some, List.map_map]
      nth_rewrite 1 [← hsome]
      rw [List.map_map]
      rfl
    have hplain : ∀ x ∈ row.presentArgv, ch '\\' ∉ x := by
      intro x hx
      obtain ⟨y, hy, rfl⟩ := List.mem_map.mp hx
      obtain ⟨z, hz, hplain⟩ := h (some y) (List.reduceOption_mem_iff.mp hy)
      rwa [Option.some_inj.mp hz]
    refine ⟨row.presentArgv, by rw [htext, fromTextArray_arrayOut asserts _ hplain], ?_⟩
    exact map_cStr_presentArgv

/-- The input arrives as it is, or there is no run. -/
theorem cStr_stdin (h : Runner.selectListEvaluates row.cmdStdin = true) : cStr row.stdin = row.stdin := by
  apply cStr_of_nulFree
  rw [NixRow.stdin]
  cases hstdin : row.cmdStdin with
  | none => exact List.forall_mem_nil _
  | some x =>
    rw [hstdin] at h
    exact Runner.nulFree_of_utf8Legal h

/-- One process, with the arguments that were decoded. Without an environment it has none of the
row's variables, and no input. -/
theorem daemonExecutes_iff {argv : List Bytes} {env : Env} {stdin : Bytes} (hargv : argv ≠ []) :
    row.daemonExecutes reserved asserts path = .ok [.process argv env stdin] ↔
      Runner.selectListEvaluates row.cmdStdin = true ∧
        (∃ decoded, fromTextArray asserts row.argvText = .ok decoded ∧ decoded.map cStr = argv) ∧
        match row.envRead with
        | .ok read => (NixQueueCmd.childEnv { metadata := {}, cmdEnv := read } path) = env ∧
            cStr row.stdin = stdin
        | .error _ => setenv ∅ (ascii "PATH") path = env ∧ [] = stdin := by
  unfold NixRow.daemonExecutes
  split
  · rename_i hevaluates
    cases hread : fromTextArray asserts row.argvText with
    | error e =>
      constructor
      · intro h
        obtain ⟨cmd, hcmd, hprocess⟩ := bind_eq_ok h
        cases hprocess
        exact absurd (congrArg (List.map cStr)
          (cmdArgv_of_argv_error (selected_argv.trans hread) hcmd)) hargv
      · rintro ⟨-, ⟨decoded, h, -⟩, -⟩
        cases h
    | ok decoded =>
      have hcmd := nix_ofRow_of_argv selected_metadata (selected_argv.trans hread)
        (selected_stdin reserved row)
      rw [selected_env] at hcmd
      rw [runSelected, hcmd]
      cases row.envRead <;> constructor
      all_goals first
        | intro h
          cases h
          exact ⟨hevaluates, ⟨decoded, rfl, rfl⟩, rfl, rfl⟩
        | rintro ⟨-, ⟨_, hdecoded, rfl⟩, rfl, rfl⟩
          cases hdecoded
          rfl
  · rename_i hevaluates
    simp [hevaluates]

/-! ## When both do the same -/

/-- The environment that the daemon reads sets nothing but `PATH`, and that as the row says. A
row whose environment it cannot read has no input either. -/
def NixRow.EnvAgrees (row : NixRow) (path : Bytes) : Prop :=
  match row.envRead with
  | .ok read => OnlyPath read path (row.exportedPath path)
  | .error _ => row.exportedPath path = path ∧ row.stdin = []

structure Faithful (row : NixRow) (path : Bytes) : Prop where
  cmdId : isOption row.cmdId = false
  cmdSubid : ∀ subid ∈ row.cmdSubid, isOption subid = false
  cmdArgv_ne : row.cmdArgv ≠ []
  cmdArgv : ∀ f ∈ row.cmdArgv, ∃ x, f = some x ∧ ch '\\' ∉ x.1
  cmdStdin : Runner.selectListEvaluates row.cmdStdin = true
  cmdEnv : row.EnvAgrees path

theorem nulFree_exportedPath (row : NixRow) (hpath : NulFree path) : NulFree (row.exportedPath path) := by
  rw [NixRow.exportedPath]
  cases hlookup : row.cmdEnv.lookup (ascii "PATH") with
  | none => exact hpath
  | some value =>
    cases value with
    | none => exact hpath
    | some value =>
      have hmem := AList.mem_lookup_iff.mp hlookup
      exact (row.cmdEnv_nulFree _ hmem).2 value rfl

theorem envAgrees_iff (hpath : NulFree path)
    (hstdin : Runner.selectListEvaluates row.cmdStdin = true) :
    (match row.envRead with
      | .ok read => NixQueueCmd.childEnv { metadata := {}, cmdEnv := read } path =
          setenv ∅ (ascii "PATH") (row.exportedPath path) ∧ cStr row.stdin = row.stdin
      | .error _ => setenv ∅ (ascii "PATH") path = setenv ∅ (ascii "PATH") (row.exportedPath path) ∧
          [] = row.stdin) ↔
      row.EnvAgrees path := by
  have hexported := nulFree_exportedPath row hpath
  unfold NixRow.EnvAgrees
  rw [setenv_path, cStr_of_nulFree hexported, setenv_path, cStr_of_nulFree hpath]
  cases hread : row.envRead with
  | ok read =>
    have hnul := nulFree_envRead hread
    simp only [cStr_stdin hstdin, and_true]
    exact childEnv_eq_iff hnul hpath
  | error e =>
    simp only
    rw [eq_comm (a := ([] : Bytes)), eq_comm (a := row.exportedPath path)]
    apply and_congr_left'
    constructor
    · intro h
      have := congrArg (AList.lookup (ascii "PATH")) h
      rw [lookup_onlyPath, lookup_onlyPath, if_pos rfl, if_pos rfl] at this
      exact Option.some_inj.mp this
    · intro h
      rw [← h]

theorem faithful_of_sameRun {path : Text} (h : SameRun reserved asserts row path) :
    Faithful row path := by
  obtain ⟨run, hmain, hdaemon, -, -, m, hm, -, hid, hsubid⟩ := h
  obtain ⟨args, hargs, hcheck, rfl⟩ := main_iff.mp hmain
  obtain rfl := Except.ok.inj (selected_metadata.symm.trans hm)
  have hplain := fieldsPlain_parseArgs ⟨by decide, by simp⟩ hargs
  have hcmdId : isOption row.cmdId = false := by
    rw [← hplain.cmdId]
    exact congrArg isOption hid.symm
  have hcmdSubid : ∀ subid ∈ row.cmdSubid, isOption subid = false := by
    intro subid hmem
    apply hplain.cmdSubid
    have : args.cmdSubid = row.cmdSubid.map (·.1) := hsubid
    rw [this]
    exact Option.mem_map_of_mem _ hmem
  obtain rfl := Except.ok.inj ((parseArgs_toolArgs hcmdId hcmdSubid).symm.trans hargs)
  have hne : row.presentArgv ≠ [] := (checkArgs_iff.mp hcheck).2
  rw [run_toolArgs, daemonExecutes_iff hne, argv_iff] at hdaemon
  obtain ⟨hstdin, hargv, henv⟩ := hdaemon
  refine ⟨hcmdId, hcmdSubid, ?_, hargv, hstdin, (envAgrees_iff path.2 hstdin).mp henv⟩
  intro hnil
  rw [NixRow.presentArgv, hnil] at hne
  exact hne rfl

theorem sameRun_of_faithful {path : Text} (h : Faithful row path) :
    SameRun reserved asserts row path := by
  have hne : row.presentArgv ≠ [] := by
    obtain ⟨f, hf⟩ := List.exists_mem_of_ne_nil _ h.cmdArgv_ne
    obtain ⟨x, rfl, -⟩ := h.cmdArgv f hf
    exact List.ne_nil_of_mem (List.mem_map_of_mem (List.reduceOption_mem_iff.mpr hf))
  refine ⟨(row.toolArgs reserved).run (row.exportedPath path) row.stdin, ?_, ?_, rfl, rfl, _,
    selected_metadata, rfl, rfl, rfl⟩
  · refine main_iff.mpr ⟨_, parseArgs_toolArgs h.cmdId h.cmdSubid, checkArgs_iff.mpr ?_, rfl⟩
    exact ⟨Nat.le_add_left _ _, hne⟩
  · rw [run_toolArgs, daemonExecutes_iff hne, argv_iff]
    exact ⟨h.cmdStdin, h.cmdArgv, (envAgrees_iff path.2 h.cmdStdin).mpr h.cmdEnv⟩

/-- Of an environment that the daemon reads back, every variable but `PATH` is too much. -/
theorem envAgrees_readable_iff (h : readable row.cmdEnv = true) : row.EnvAgrees path ↔
    ∀ pair ∈ row.cmdEnv.entries, Refused pair.1 ∨ pair.1 = ascii "PATH" := by
  obtain ⟨out, hout, hperm⟩ := fromTextHstore_of_readable h
  obtain ⟨hiff, hspec⟩ := throwIfMissingAnyValue_spec out
  obtain ⟨env, henv⟩ := hiff.mpr (by
    intro p hp
    obtain ⟨-, v, hv, -⟩ := (readable_iff.mp h).2 p (hperm.mem_iff.mp hp)
    simp [hv])
  have hread : row.envRead = .ok env := by
    rw [NixRow.envRead, hout]
    exact henv
  have hentries := (hspec env henv).trans hperm
  have hvalue : ∀ pair ∈ row.cmdEnv.entries, ∃ p ∈ env.entries, pair = ⟨p.1, some p.2⟩ := by
    intro pair hpair
    obtain ⟨p, hp, heq⟩ := List.mem_map.mp (hentries.mem_iff.mpr hpair)
    exact ⟨p, hp, heq.symm⟩
  rw [NixRow.EnvAgrees, hread]
  constructor
  · intro honly pair hpair
    obtain ⟨p, hp, rfl⟩ := hvalue pair hpair
    exact (honly.vars p hp).imp_right And.left
  · intro hnames
    refine ⟨?_, ?_⟩
    · intro p hp
      have hpair := hentries.mem_iff.mp (List.mem_map_of_mem hp)
      refine (hnames _ hpair).imp_right ?_
      intro hname
      have hlookup := AList.mem_lookup_iff.mpr hpair
      rw [hname] at hlookup
      have hexported : row.exportedPath path = p.2 := by
        rw [NixRow.exportedPath, Option.mem_def.mp hlookup]
        rfl
      exact ⟨hname, by rw [hexported, cStr_of_nulFree ((row.cmdEnv_nulFree _ hpair).2 p.2 rfl)]⟩
    · cases hlookup : row.cmdEnv.lookup (ascii "PATH") with
      | none =>
        left
        rw [NixRow.exportedPath, hlookup]
        rfl
      | some value =>
        right
        obtain ⟨p, hp, heq⟩ := hvalue _ (AList.mem_lookup_iff.mp hlookup)
        have hname : ascii "PATH" = p.1 := congrArg Sigma.fst heq
        rw [hname]
        exact AList.mem_keys.mpr (List.mem_keys_of_mem hp)

/-- The second command of the extension's own test, with an environment. -/
def cmd2Row : NixRow where
  nspname := ⟨ascii "cmdq", by decide⟩
  relname := ⟨ascii "tst_nix_cmd", by decide⟩
  cmdId := ⟨ascii "test2", by decide⟩
  cmdSubid := none
  cmdArgv := [some ⟨ascii "cmd2", by decide⟩, some ⟨ascii "--opt", by decide⟩]
  cmdEnv := AList.singleton (ascii "VAR_TWO") (some (ascii "val2"))
  cmdEnv_nulFree := by decide
  cmdStdin := some (ascii "Just one line\n")

end PgCmdQueue.NixTool
