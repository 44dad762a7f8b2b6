import PgCmdQueue.Extension.CmdQueue
import PgCmdQueue.Lib.Run
import Mathlib.Data.Finset.Basic

/-!
# Signature functions and their casts

The trigger `cmd_queue__create_queue_signature_downcast` keeps a function and an implicit cast
in the catalog for each record of `cmd_queue`.
-/

namespace PgCmdQueue.Extension

open Cpp

/-! ## The catalog -/

/-- The classes that a function and a cast are named after. -/
structure Signature where
  cmdSignatureClass : Oid
  cmdClass : Oid
  deriving DecidableEq

def CmdQueueRecord.signature (q : CmdQueueRecord) : Signature :=
  ⟨q.cmdSignatureClass, q.cmdClass⟩

/-- The functions `%1$s(%2$s)` and the casts `(%2$s AS %1$s)`, and the members of extensions
among them. -/
structure Catalog where
  functions : Finset Signature := ∅
  casts : Finset Signature := ∅
  memberFunctions : Finset (Bytes × Signature) := ∅
  memberCasts : Finset (Bytes × Signature) := ∅

/-- The statements that the trigger executes. A name that is NULL cannot be formatted. -/
inductive Command where
  | createOrReplaceFunction (sig : Signature)
  | dropFunction (sig : Signature)
  | createCast (sig : Signature)
  | dropCast (sig : Signature)
  | extensionAddFunction (ext : Option Bytes) (sig : Signature)
  | extensionDropFunction (ext : Option Bytes) (sig : Signature)
  | extensionAddCast (ext : Option Bytes) (sig : Signature)
  | extensionDropCast (ext : Option Bytes) (sig : Signature)

/-- What a statement makes of the catalog, or nothing if it raises. -/
def Command.run (c : Catalog) : Command → Option Catalog
  | .createOrReplaceFunction sig => some { c with functions := insert sig c.functions }
  | .dropFunction sig =>
    if sig ∈ c.functions ∧ sig ∉ c.casts ∧ ∀ m ∈ c.memberFunctions, m.2 ≠ sig then
      some { c with functions := c.functions.erase sig }
    else none
  | .createCast sig =>
    if sig ∈ c.functions ∧ sig ∉ c.casts ∧ sig.cmdClass ≠ sig.cmdSignatureClass then
      some { c with casts := insert sig c.casts }
    else none
  | .dropCast sig =>
    if sig ∈ c.casts ∧ ∀ m ∈ c.memberCasts, m.2 ≠ sig then
      some { c with casts := c.casts.erase sig }
    else none
  | .extensionAddFunction ext sig =>
    match ext with
    | some ext =>
      if sig ∈ c.functions ∧ ∀ m ∈ c.memberFunctions, m.2 ≠ sig then
        some { c with memberFunctions := insert (ext, sig) c.memberFunctions }
      else none
    | none => none
  | .extensionDropFunction ext sig =>
    match ext with
    | some ext =>
      if (ext, sig) ∈ c.memberFunctions then
        some { c with memberFunctions := c.memberFunctions.erase (ext, sig) }
      else none
    | none => none
  | .extensionAddCast ext sig =>
    match ext with
    | some ext =>
      if sig ∈ c.casts ∧ ∀ m ∈ c.memberCasts, m.2 ≠ sig then
        some { c with memberCasts := insert (ext, sig) c.memberCasts }
      else none
    | none => none
  | .extensionDropCast ext sig =>
    match ext with
    | some ext =>
      if (ext, sig) ∈ c.memberCasts then
        some { c with memberCasts := c.memberCasts.erase (ext, sig) }
      else none
    | none => none

/-! ## The trigger -/

inductive RowChange where
  | insert (new : CmdQueueRecord)
  | update (old new : CmdQueueRecord)
  | delete (old : CmdQueueRecord)

/-- `IF test THEN commands END IF` -/
def onlyIf (test : Bool) (commands : List Command) : List Command := if test then commands else []

/-- The statements for the function, on INSERT and on UPDATE. -/
def replaceFunction (extensionContext : Option Bytes) (new : CmdQueueRecord) : List Command :=
  [.createOrReplaceFunction new.signature] ++
  onlyIf (extensionContext.isSome && extensionContext ≠ new.pgExtensionName)
    [.extensionDropFunction extensionContext new.signature] ++
  onlyIf (new.pgExtensionName.isSome && new.pgExtensionName ≠ extensionContext)
    [.extensionAddFunction new.pgExtensionName new.signature]

def createCast (extensionContext : Option Bytes) (new : CmdQueueRecord) : List Command :=
  [.createCast new.signature] ++
  onlyIf (extensionContext.isSome && extensionContext ≠ new.pgExtensionName)
    [.extensionDropCast extensionContext new.signature] ++
  onlyIf (new.pgExtensionName.isSome && new.pgExtensionName ≠ extensionContext)
    [.extensionAddCast new.pgExtensionName new.signature]

/-- `cmd_queue__create_queue_signature_downcast`, in the extension script that is running if
there is one. An UPDATE makes no cast and drops nothing. -/
def createQueueSignatureDowncast (extensionContext : Option Bytes) : RowChange → List Command
  | .insert new => replaceFunction extensionContext new ++ createCast extensionContext new
  | .update old new =>
    onlyIf (old.pgExtensionName.isSome && extensionContext ≠ old.pgExtensionName)
      (.extensionDropFunction new.pgExtensionName new.signature ::
        onlyIf extensionContext.isSome [.extensionAddFunction extensionContext new.signature]) ++
    replaceFunction extensionContext new
  | .delete old => [.dropCast old.signature, .dropFunction old.signature]

/-! ## The table and its statements -/

/-- `raised` tells that the trigger has raised an exception. -/
structure State where
  records : List CmdQueueRecord := []
  catalog : Catalog := {}
  raised : Bool := false

/-- A row that the checks and the primary key let through. -/
def RowChange.apply (pgClass : PgClasses) (records : List CmdQueueRecord) :
    RowChange → Option (List CmdQueueRecord)
  | .insert new =>
    if new.admitted pgClass ∧ ∀ q ∈ records, q.cmdClass ≠ new.cmdClass then some (records ++ [new])
    else none
  | .update old new =>
    if old ∈ records ∧ new.admitted pgClass ∧
        ∀ q ∈ records.erase old, q.cmdClass ≠ new.cmdClass then
      some (records.map fun q => if q = old then new else q)
    else none
  | .delete old => if old ∈ records then some (records.erase old) else none

/-- A statement changes its rows, then fires the trigger for each of them. Outside of any
extension script. An exception undoes the statement. -/
def State.execute (pgClass : PgClasses) (s : State) (changes : List RowChange) : Option State :=
  (changes.foldlM (RowChange.apply pgClass) s.records).map fun records =>
    match (changes.flatMap (createQueueSignatureDowncast none)).foldlM Command.run s.catalog with
    | some catalog => { s with records := records, catalog := catalog }
    | none => { s with raised := true }

def Step (pgClass : PgClasses) (s : State) (changes : List RowChange) (t : State) : Prop :=
  s.execute pgClass changes = some t

/-- One function and one cast for each record, and no others. -/
def State.Matches (s : State) : Prop :=
  ∀ sig, (sig ∈ s.catalog.functions ↔ ∃ q ∈ s.records, q.signature = sig) ∧
    (sig ∈ s.catalog.casts ↔ ∃ q ∈ s.records, q.signature = sig)

/-! ## Statements that leave signatures alone -/

/-- The record belongs to no extension. -/
def RowChange.Loose : RowChange → Prop
  | .insert new => new.pgExtensionName = none
  | .update _ new => new.pgExtensionName = none
  | .delete _ => True

def RowChange.KeepsSignature : RowChange → Prop
  | .update old new => new.signature = old.signature
  | _ => True

instance : ∀ change : RowChange, Decidable change.Loose
  | .insert new => inferInstanceAs (Decidable (new.pgExtensionName = none))
  | .update _ new => inferInstanceAs (Decidable (new.pgExtensionName = none))
  | .delete _ => inferInstanceAs (Decidable True)

instance : ∀ change : RowChange, Decidable change.KeepsSignature
  | .insert _ => inferInstanceAs (Decidable True)
  | .update old new => inferInstanceAs (Decidable (new.signature = old.signature))
  | .delete _ => inferInstanceAs (Decidable True)

def KeepingStep (pgClass : PgClasses) (s : State) (changes : List RowChange) (t : State) : Prop :=
  (∀ change ∈ changes, change.Loose ∧ change.KeepsSignature) ∧ Step pgClass s changes t

variable {pgClass : PgClasses} {records records' : List CmdQueueRecord} {c : Catalog}
  {change : RowChange} {changes : List RowChange} {s t : State} {sig : Signature}

/-- The records agree with the catalog, and nothing is a member of an extension. -/
structure Agrees (records : List CmdQueueRecord) (c : Catalog) : Prop where
  nodup : (records.map (·.cmdClass)).Nodup
  loose : ∀ q ∈ records, q.pgExtensionName = none
  functions : ∀ sig, sig ∈ c.functions ↔ ∃ q ∈ records, q.signature = sig
  casts : ∀ sig, sig ∈ c.casts ↔ ∃ q ∈ records, q.signature = sig
  memberFunctions : c.memberFunctions = ∅
  memberCasts : c.memberCasts = ∅

theorem replaceFunction_of_loose {new : CmdQueueRecord} (h : new.pgExtensionName = none) :
    replaceFunction none new = [.createOrReplaceFunction new.signature] := by
  simp [replaceFunction, onlyIf, h]

theorem createCast_of_loose {new : CmdQueueRecord} (h : new.pgExtensionName = none) :
    createCast none new = [.createCast new.signature] := by
  simp [createCast, onlyIf, h]

theorem agrees_insert {new : CmdQueueRecord} (h : Agrees records c)
    (hloose : new.pgExtensionName = none)
    (happly : (RowChange.insert new).apply pgClass records = some records') :
    ∃ c', (createQueueSignatureDowncast none (.insert new)).foldlM Command.run c = some c' ∧
      Agrees records' c' := by
  simp only [RowChange.apply, Option.ite_none_right_eq_some, Option.some.injEq] at happly
  obtain ⟨⟨hadmitted, hkey⟩, rfl⟩ := happly
  have hcast : new.signature ∉ c.casts := by
    rw [h.casts]
    rintro ⟨q, hq, heq⟩
    exact hkey q hq (congrArg Signature.cmdClass heq)
  have hrun : (createQueueSignatureDowncast none (.insert new)).foldlM Command.run c =
      some { c with
        functions := insert new.signature c.functions
        casts := insert new.signature c.casts } := by
    rw [createQueueSignatureDowncast, replaceFunction_of_loose hloose, createCast_of_loose hloose]
    have hne : new.signature.cmdClass ≠ new.signature.cmdSignatureClass :=
      cmdClass_ne_of_admitted hadmitted
    simp [Command.run, hcast, hne]
  refine ⟨_, hrun, ?_, ?_, ?_, ?_, h.memberFunctions, h.memberCasts⟩
  · rw [List.map_append, List.nodup_append]
    refine ⟨h.nodup, List.nodup_singleton _, ?_⟩
    simpa using hkey
  · simpa [or_imp, forall_and, hloose] using h.loose
  · intro sig
    simp [h.functions, or_and_right, exists_or, or_comm, eq_comm]
  · intro sig
    simp [h.casts, or_and_right, exists_or, or_comm, eq_comm]

/-- The function is replaced by itself. -/
theorem agrees_update {old new : CmdQueueRecord} (h : Agrees records c)
    (hloose : new.pgExtensionName = none) (hsig : new.signature = old.signature)
    (happly : (RowChange.update old new).apply pgClass records = some records') :
    ∃ c', (createQueueSignatureDowncast none (.update old new)).foldlM Command.run c = some c' ∧
      Agrees records' c' := by
  simp only [RowChange.apply, Option.ite_none_right_eq_some, Option.some.injEq] at happly
  obtain ⟨⟨hold, -, -⟩, rfl⟩ := happly
  have hfunction : insert new.signature c.functions = c.functions := by
    rw [Finset.insert_eq_self, h.functions, hsig]
    exact ⟨old, hold, rfl⟩
  have hrun : (createQueueSignatureDowncast none (.update old new)).foldlM Command.run c = some c := by
    rw [createQueueSignatureDowncast, h.loose old hold, replaceFunction_of_loose hloose]
    exact congrArg (fun functions => some { c with functions := functions }) hfunction
  have hsame : ∀ q : CmdQueueRecord, (if q = old then new else q).signature = q.signature := by
    intro q
    split
    · subst q
      exact hsig
    · rfl
  refine ⟨c, hrun, ?_, ?_, ?_, ?_, h.memberFunctions, h.memberCasts⟩
  · have hkeys : (records.map fun q => if q = old then new else q).map (·.cmdClass) =
        records.map (·.cmdClass) := by
      rw [List.map_map]
      exact List.map_congr_left fun q _ => congrArg Signature.cmdClass (hsame q)
    rw [hkeys]
    exact h.nodup
  · simp only [List.forall_mem_map]
    intro q hq
    split
    · exact hloose
    · exact h.loose q hq
  · intro sig
    simp [h.functions, hsame]
  · intro sig
    simp [h.casts, hsame]

theorem agrees_delete {old : CmdQueueRecord} (h : Agrees records c)
    (happly : (RowChange.delete old).apply pgClass records = some records') :
    ∃ c', (createQueueSignatureDowncast none (.delete old)).foldlM Command.run c = some c' ∧
      Agrees records' c' := by
  simp only [RowChange.apply, Option.ite_none_right_eq_some, Option.some.injEq] at happly
  obtain ⟨hold, rfl⟩ := happly
  have hfunction : old.signature ∈ c.functions := (h.functions _).mpr ⟨old, hold, rfl⟩
  have hcast : old.signature ∈ c.casts := (h.casts _).mpr ⟨old, hold, rfl⟩
  have hrun : (createQueueSignatureDowncast none (.delete old)).foldlM Command.run c =
      some { c with
        functions := c.functions.erase old.signature
        casts := c.casts.erase old.signature } := by
    simp [createQueueSignatureDowncast, Command.run, hfunction, hcast, h.memberFunctions, h.memberCasts]
  have hothers : ∀ sig, (∃ q ∈ records.erase old, q.signature = sig) ↔
      sig ≠ old.signature ∧ ∃ q ∈ records, q.signature = sig := by
    intro sig
    constructor
    · rintro ⟨q, hq, rfl⟩
      rw [h.nodup.of_map.mem_erase_iff] at hq
      refine ⟨fun heq => hq.1 ?_, q, hq.2, rfl⟩
      exact List.inj_on_of_nodup_map h.nodup hq.2 hold (congrArg Signature.cmdClass heq)
    · rintro ⟨hne, q, hq, rfl⟩
      refine ⟨q, h.nodup.of_map.mem_erase_iff.mpr ⟨?_, hq⟩, rfl⟩
      rintro rfl
      exact hne rfl
  refine ⟨_, hrun, ?_, ?_, ?_, ?_, h.memberFunctions, h.memberCasts⟩
  · exact h.nodup.sublist ((List.erase_sublist).map _)
  · exact fun q hq => h.loose q (List.mem_of_mem_erase hq)
  · intro sig
    rw [hothers, ← h.functions, Finset.mem_erase]
  · intro sig
    rw [hothers, ← h.casts, Finset.mem_erase]

theorem agrees_changes (h : Agrees records c)
    (hkeeps : ∀ change ∈ changes, change.Loose ∧ change.KeepsSignature)
    (happly : changes.foldlM (RowChange.apply pgClass) records = some records') :
    ∃ c', (changes.flatMap (createQueueSignatureDowncast none)).foldlM Command.run c = some c' ∧
      Agrees records' c' := by
  induction changes generalizing records c with
  | nil =>
    cases happly
    exact ⟨c, rfl, h⟩
  | cons change changes ih =>
    rw [List.foldlM_cons, Option.bind_eq_bind, Option.bind_eq_some_iff] at happly
    obtain ⟨mid, hmid, happly⟩ := happly
    rw [List.forall_mem_cons] at hkeeps
    obtain ⟨c', hc', h'⟩ : ∃ c', (createQueueSignatureDowncast none change).foldlM Command.run c =
        some c' ∧ Agrees mid c' := by
      cases change with
      | insert new => exact agrees_insert h hkeeps.1.1 hmid
      | update old new => exact agrees_update h hkeeps.1.1 hkeeps.1.2 hmid
      | delete old => exact agrees_delete h hmid
    obtain ⟨c'', hc'', h''⟩ := ih h' hkeeps.2 happly
    refine ⟨c'', ?_, h''⟩
    rw [List.flatMap_cons, List.foldlM_append, hc']
    exact hc''

theorem agrees_step (h : s.raised = false ∧ Agrees s.records s.catalog)
    (hstep : KeepingStep pgClass s changes t) : t.raised = false ∧ Agrees t.records t.catalog := by
  obtain ⟨hkeeps, hstep⟩ := hstep
  unfold Step State.execute at hstep
  rw [Option.map_eq_some_iff] at hstep
  obtain ⟨records, happly, rfl⟩ := hstep
  obtain ⟨c, hc, hagrees⟩ := agrees_changes h.2 hkeeps happly
  rw [hc]
  exact ⟨h.1, hagrees⟩

/-- From an empty table on, while no UPDATE changes a signature. -/
theorem matches_of_run {tr : List (List RowChange)} (h : Transition.Run (KeepingStep pgClass) {} tr s) :
    s.raised = false ∧ s.Matches := by
  have hs := h.invariant_state (I := fun s => s.raised = false ∧ Agrees s.records s.catalog)
    ⟨rfl, by simp, nofun, by simp, by simp, rfl, rfl⟩ fun _ _ _ => agrees_step
  exact ⟨hs.1, fun sig => ⟨hs.2.functions sig, hs.2.casts sig⟩⟩

/-! ## A class that is renamed in place -/

def queueClasses : PgClasses :=
  (∅ : PgClasses).insert 1 ⟨ascii "cmdq", ascii "nightly_cmd"⟩
    |>.insert 2 ⟨ascii "cmdq", ascii "nix_queue_cmd_template"⟩
    |>.insert 3 ⟨ascii "cmdq", ascii "hourly_cmd"⟩

def nightly : CmdQueueRecord := { cmdClass := 1, cmdSignatureClass := 2 }

def hourly : CmdQueueRecord := { cmdClass := 3, cmdSignatureClass := 2 }

def keepingNext (s : State) (changes : List RowChange) : Option State :=
  if ∀ change ∈ changes, change.Loose ∧ change.KeepsSignature then s.execute queueClasses changes
  else none

theorem keepingStep_of_next (h : keepingNext s changes = some t) : KeepingStep queueClasses s changes t := by
  unfold keepingNext at h
  split at h
  · exact ⟨‹_›, h⟩
  · cases h

theorem matches_of_run_disabled : ∃ s, Transition.Run (KeepingStep queueClasses) {}
    [[.insert nightly, .insert hourly], [.update nightly { nightly with queueIsEnabled := false }],
      [.delete hourly]] s ∧ s.records.length = 1 ∧ s.raised = false ∧ s.Matches := by
  have hlast : ([[.insert nightly, .insert hourly],
      [.update nightly { nightly with queueIsEnabled := false }], [.delete hourly]].foldlM
        keepingNext {}).any (fun s => s.records.length = 1) = true := by
    decide +kernel
  obtain ⟨s, hs, hs'⟩ := (Option.any_eq_true _ _).mp hlast
  have hrun := (Transition.Run.of_foldlM hs).mono fun _ _ _ => keepingStep_of_next
  exact ⟨s, hrun, of_decide_eq_true hs', matches_of_run hrun⟩

/-- The UPDATE leaves the cast of the old class behind and makes none for the new class, and
the DELETE then raises. -/
theorem not_matches_renamed : ∃ s t, Transition.Run (Step queueClasses) {}
    [[.insert nightly], [.update nightly hourly]] s ∧ ¬s.Matches ∧
      Step queueClasses s [.delete hourly] t ∧ t.raised = true := by
  have hlast : ([[.insert nightly], [.update nightly hourly]].foldlM (State.execute queueClasses) {}).any
      (fun s => hourly ∈ s.records ∧ hourly.signature ∉ s.catalog.casts ∧
        (s.execute queueClasses [.delete hourly]).any (·.raised)) = true := by
    decide +kernel
  obtain ⟨s, hs, hs'⟩ := (Option.any_eq_true _ _).mp hlast
  obtain ⟨hmem, hcast, hdelete⟩ := of_decide_eq_true hs'
  obtain ⟨t, ht, hraised⟩ := (Option.any_eq_true _ _).mp hdelete
  refine ⟨s, t, Transition.Run.of_foldlM hs, fun h => hcast ?_, ht, hraised⟩
  exact (h _).2.mpr ⟨hourly, hmem, rfl⟩

end PgCmdQueue.Extension
