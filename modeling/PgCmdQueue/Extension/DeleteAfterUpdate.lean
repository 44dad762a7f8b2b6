import PgCmdQueue.Postgres.Name
import PgCmdQueue.Postgres.Raises

/-!
# The trigger `queue_cmd__delete_after_update`

It takes a row that has been updated out of its table. The statement that does so is put together of
the arguments of the trigger.
-/

namespace PgCmdQueue.Extension

open Postgres

variable {Value : Type}

/-! ## Tables -/

/-- The value of each column, NULL included. -/
abbrev Row (Value : Type) := Name → Option Value

/-- The operators `=` of the server, for the types of both sides. -/
structure Operators (Value : Type) where
  eq : Chars → Chars → Option (Value → Value → Bool)
  textEq : Value → Value → Bool
  textEq_iff : ∀ x y, textEq x y = true ↔ x = y
  eq_text : eq "text".toList "text".toList = some textEq

abbrev Columns := List (Name × Chars)

def Columns.type (columns : Columns) (x : Name) : Raises Chars :=
  match columns.lookup x with
  | some type => .ok type
  | none => .error undefinedColumn

def Operators.find (ops : Operators Value) (type type' : Chars) : Raises (Value → Value → Bool) :=
  match ops.eq type type' with
  | some eq => .ok eq
  | none => .error undefinedFunction

/-- `x = y`, in a condition. -/
def sqlEq (eq : Value → Value → Bool) : Option Value → Option Value → Bool
  | some x, some y => eq x y
  | _, _ => false

/-- `x IS NOT DISTINCT FROM y`. -/
def sqlNotDistinct (eq : Value → Value → Bool) : Option Value → Option Value → Bool
  | some x, some y => eq x y
  | none, none => true
  | _, _ => false

/-! ## The trigger -/

def cmdId : Name := ⟨"cmd_id".toList, by decide⟩

def cmdSubid : Name := ⟨"cmd_subid".toList, by decide⟩

/-- `DELETE FROM t WHERE cmd_id = ($1).cmdIdField AND cmd_subid IS NOT DISTINCT FROM ($1).cmdSubidField`. -/
structure DeleteStmt where
  cmdIdField : Name
  cmdSubidField : Name

def cmdFields : Option (Chars × Chars) → Name × Option Name
  | none => (cmdId, some cmdSubid)
  | some (arg0, arg1) => (toName arg0, if arg1 = "null".toList then none else some (toName arg1))

/-- A NULL is no identifier. -/
def formatDelete (fields : Name × Option Name) : Raises DeleteStmt :=
  match fields.2 with
  | some cmdSubidField => .ok ⟨fields.1, cmdSubidField⟩
  | none => .error nullValueNotAllowed

structure Comparison (Value : Type) where
  idEq : Value → Value → Bool
  subidEq : Value → Value → Bool

def DeleteStmt.prepare (ops : Operators Value) (columns : Columns) (stmt : DeleteStmt) :
    Raises (Comparison Value) := do
  let idEq ← ops.find (← columns.type cmdId) (← columns.type stmt.cmdIdField)
  let subidEq ← ops.find (← columns.type cmdSubid) (← columns.type stmt.cmdSubidField)
  return ⟨idEq, subidEq⟩

def DeleteStmt.selects (stmt : DeleteStmt) (c : Comparison Value) (old row : Row Value) : Bool :=
  sqlEq c.idEq (row cmdId) (old stmt.cmdIdField) &&
    sqlNotDistinct c.subidEq (row cmdSubid) (old stmt.cmdSubidField)

/-- The rows of the table after the trigger. -/
def deleteAfterUpdate (ops : Operators Value) (columns : Columns) (tgArgv : Option (Chars × Chars))
    (rows : List (Row Value)) (old : Row Value) : Raises (List (Row Value)) := do
  let stmt ← formatDelete (cmdFields tgArgv)
  let c ← stmt.prepare ops columns
  return rows.filter fun row => !stmt.selects c old row

/-! ## Updates of one row -/

/-- How the trigger is attached. -/
inductive Attached where
  | queueTable
  | underView (cmdIdField : Name) (cmdSubidField : Option Name)

def Attached.tgArgv : Attached → Option (Chars × Chars)
  | queueTable => none
  | underView cmdIdField cmdSubidField =>
    some (cmdIdField.1, (cmdSubidField.map (·.1)).getD "null".toList)

/-- The columns that are the key of the table. -/
def Attached.key : Attached → Name × Option Name
  | queueTable => (cmdId, some cmdSubid)
  | underView cmdIdField cmdSubidField => (cmdIdField, cmdSubidField)

def Attached.keyOf (a : Attached) (row : Row Value) : Option Value × Option (Option Value) :=
  (row a.key.1, a.key.2.map row)

/-- What a queue table has from its template, and what the arguments have to be. -/
def Attached.Documented (columns : Columns) : Attached → Prop
  | queueTable => columns.lookup cmdId = some "text".toList ∧ columns.lookup cmdSubid = some "text".toList
  | underView cmdIdField cmdSubidField => (columns.lookup cmdIdField).isSome ∧
      ∀ field ∈ cmdSubidField, (columns.lookup field).isSome

/-- A table, and an update of one of its rows. The update leaves the key alone. -/
structure RowUpdate (Value : Type) where
  columns : Columns
  attached : Attached
  documented : attached.Documented columns
  before : List (Row Value)
  after : List (Row Value)
  old : Row Value
  new : Row Value
  unique : ((before ++ old :: after).map attached.keyOf).Nodup
  cmdId_ne_null : attached = .queueTable → old cmdId ≠ none
  keyKept : attached.keyOf new = attached.keyOf old

def RowUpdate.result (ops : Operators Value) (u : RowUpdate Value) : Raises (List (Row Value)) :=
  deleteAfterUpdate ops u.columns u.attached.tgArgv (u.before ++ u.new :: u.after) u.old

def RowUpdate.DeletesTheRow (ops : Operators Value) (u : RowUpdate Value) : Prop :=
  u.result ops = .ok (u.before ++ u.after)

/-- The statement compares `cmd_id` and `cmd_subid` with the two fields by these operators. -/
structure Compares (ops : Operators Value) (columns : Columns) (stmt : DeleteStmt)
    (c : Comparison Value) : Prop where
  id : ∃ type type', columns.lookup cmdId = some type ∧ columns.lookup stmt.cmdIdField = some type' ∧
    ops.eq type type' = some c.idEq
  subid : ∃ type type', columns.lookup cmdSubid = some type ∧
    columns.lookup stmt.cmdSubidField = some type' ∧ ops.eq type type' = some c.subidEq

/-- Under a view, the table has to have the columns of the view all the same. -/
def RowUpdate.FoundByName (ops : Operators Value) (u : RowUpdate Value) : Prop :=
  ∀ cmdIdField cmdSubidField, u.attached = .underView cmdIdField cmdSubidField →
    ∃ field ∈ cmdSubidField, field.1 ≠ "null".toList ∧
      ∃ c, Compares ops u.columns ⟨cmdIdField, field⟩ c ∧
        DeleteStmt.selects ⟨cmdIdField, field⟩ c u.old u.new = true ∧
          ∀ row ∈ u.before ++ u.after, DeleteStmt.selects ⟨cmdIdField, field⟩ c u.old row = false

variable {ops : Operators Value} {u : RowUpdate Value} {stmt : DeleteStmt} {c : Comparison Value}
  {columns : Columns} {x y : Name} {row : Row Value}

/-! ## The statement -/

theorem type_ok_iff {type : Chars} : columns.type x = .ok type ↔ columns.lookup x = some type := by
  unfold Columns.type
  cases columns.lookup x <;> simp

theorem find_ok_iff {type type' : Chars} {eq : Value → Value → Bool} :
    ops.find type type' = .ok eq ↔ ops.eq type type' = some eq := by
  unfold Operators.find
  cases ops.eq type type' <;> simp

theorem prepare_ok_iff : stmt.prepare ops columns = .ok c ↔ Compares ops columns stmt c := by
  simp only [DeleteStmt.prepare, bind_ok_iff, type_ok_iff, find_ok_iff]
  constructor
  · rintro ⟨type, hid, type', hfield, idEq, hidEq, type₂, hsubid, type₂', hsubfield, subidEq, hsubidEq, hc⟩
    obtain rfl : ⟨idEq, subidEq⟩ = c := Except.ok.inj hc
    exact ⟨⟨type, type', hid, hfield, hidEq⟩, type₂, type₂', hsubid, hsubfield, hsubidEq⟩
  · rintro ⟨⟨type, type', hid, hfield, hidEq⟩, type₂, type₂', hsubid, hsubfield, hsubidEq⟩
    exact ⟨type, hid, type', hfield, c.idEq, hidEq, type₂, hsubid, type₂', hsubfield, c.subidEq,
      hsubidEq, rfl⟩

/-- The rows that are left are those that the statement does not select. -/
theorem filter_eq_iff {α : Type} {p : α → Bool} {a : α} {xs ys : List α} (ha : a ∉ xs ++ ys) :
    ((xs ++ a :: ys).filter fun b => !p b) = xs ++ ys ↔ p a = true ∧ ∀ b ∈ xs ++ ys, p b = false := by
  constructor
  · intro h
    have hpa : p a = true := by
      by_contra hpa
      exact ha (h ▸ List.mem_filter.mpr ⟨by simp, by simpa using hpa⟩)
    refine ⟨hpa, fun b hb => ?_⟩
    rw [← h] at hb
    simpa using (List.mem_filter.mp hb).2
  · rintro ⟨hpa, hothers⟩
    rw [List.forall_mem_append] at hothers
    rw [List.filter_append, List.filter_cons_of_neg (by simp [hpa]), List.filter_eq_self.mpr,
      List.filter_eq_self.mpr]
    · exact fun b hb => by simp [hothers.2 b hb]
    · exact fun b hb => by simp [hothers.1 b hb]

theorem keyOf_ne (h : row ∈ u.before ++ u.after) : u.attached.keyOf row ≠ u.attached.keyOf u.old := by
  have hunique := u.unique
  rw [List.map_append, List.map_cons, List.nodup_middle, List.nodup_cons, ← List.map_append] at hunique
  exact fun heq => hunique.1 (heq ▸ List.mem_map_of_mem h)

theorem new_notMem : u.new ∉ u.before ++ u.after := fun h => keyOf_ne h u.keyKept

theorem deletesTheRow_of_stmt (h : formatDelete (cmdFields u.attached.tgArgv) = .ok stmt) :
    u.DeletesTheRow ops ↔ ∃ c, Compares ops u.columns stmt c ∧ stmt.selects c u.old u.new = true ∧
      ∀ row ∈ u.before ++ u.after, stmt.selects c u.old row = false := by
  have hresult : u.result ops = stmt.prepare ops u.columns >>= fun c =>
      .ok ((u.before ++ u.new :: u.after).filter fun row => !stmt.selects c u.old row) := by
    unfold RowUpdate.result deleteAfterUpdate
    rw [h]
    rfl
  rw [RowUpdate.DeletesTheRow, hresult, bind_ok_iff]
  refine exists_congr fun c => and_congr prepare_ok_iff ?_
  rw [Except.ok.injEq]
  exact filter_eq_iff new_notMem

/-! ## The key of a queue table -/

/-- A comparison of texts, of columns that are the key. -/
theorem selects_key (hold : u.old cmdId ≠ none) :
    DeleteStmt.selects ⟨cmdId, cmdSubid⟩ ⟨ops.textEq, ops.textEq⟩ u.old row = true ↔
      row cmdId = u.old cmdId ∧ row cmdSubid = u.old cmdSubid := by
  have hid (x y : Option Value) (hy : y ≠ none) : sqlEq ops.textEq x y = true ↔ x = y := by
    cases x <;> cases y <;> simp_all [sqlEq, ops.textEq_iff]
  have hsubid (x y : Option Value) : sqlNotDistinct ops.textEq x y = true ↔ x = y := by
    cases x <;> cases y <;> simp [sqlNotDistinct, ops.textEq_iff]
  rw [DeleteStmt.selects, Bool.and_eq_true, hid _ _ hold, hsubid]

/-- The statement finds the row if the key has the names of the view in the table too. -/
theorem deletesTheRow_ownNames (hstmt : formatDelete (cmdFields u.attached.tgArgv) = .ok ⟨cmdId, cmdSubid⟩)
    (hkey : u.attached.key = (cmdId, some cmdSubid)) (hid : u.columns.lookup cmdId = some "text".toList)
    (hsubid : u.columns.lookup cmdSubid = some "text".toList) (hold : u.old cmdId ≠ none) :
    u.DeletesTheRow ops := by
  have hkeyOf (row row' : Row Value) : u.attached.keyOf row = u.attached.keyOf row' ↔
      row cmdId = row' cmdId ∧ row cmdSubid = row' cmdSubid := by
    simp [Attached.keyOf, hkey]
  have hselects (row : Row Value) := @selects_key _ ops u row hold
  refine (deletesTheRow_of_stmt hstmt).mpr ⟨⟨ops.textEq, ops.textEq⟩, ⟨?_, ?_⟩, ?_, fun row hrow => ?_⟩
  · exact ⟨_, _, hid, hid, ops.eq_text⟩
  · exact ⟨_, _, hsubid, hsubid, ops.eq_text⟩
  · rw [hselects, ← hkeyOf]
    exact u.keyKept
  · rw [← Bool.not_eq_true, hselects, ← hkeyOf]
    exact keyOf_ne hrow

theorem deletesTheRow_queueTable (h : u.attached = .queueTable) : u.DeletesTheRow ops := by
  have hdocumented := u.documented
  rw [h] at hdocumented
  exact deletesTheRow_ownNames (by rw [h]; rfl) (by rw [h]; rfl) hdocumented.1 hdocumented.2
    (u.cmdId_ne_null h)

/-! ## Fields of the table under a view -/

theorem formatDelete_underView (x : Name) (field : Option Name) :
    formatDelete (cmdFields (Attached.underView x field).tgArgv) =
      match field with
      | none => .error nullValueNotAllowed
      | some field => if field.1 = "null".toList then .error nullValueNotAllowed else .ok ⟨x, field⟩ := by
  cases field with
  | none => rfl
  | some field =>
    show formatDelete (toName x.1, if field.1 = "null".toList then none else some (toName field.1)) = _
    rw [toName_self, toName_self]
    dsimp only
    split_ifs <;> rfl

theorem not_deletesTheRow {state : Bytes} (h : formatDelete (cmdFields u.attached.tgArgv) = .error state) :
    ¬u.DeletesTheRow ops := by
  unfold RowUpdate.DeletesTheRow RowUpdate.result deleteAfterUpdate
  rw [h]
  exact nofun

/-- The arguments name what the row is compared with, and not the columns of the table. -/
theorem deletesTheRow_iff (ops : Operators Value) (u : RowUpdate Value) :
    u.DeletesTheRow ops ↔ u.FoundByName ops := by
  rcases hattached : u.attached with _ | ⟨x, field⟩
  · refine iff_of_true (deletesTheRow_queueTable hattached) fun x field h => ?_
    rw [hattached] at h
    cases h
  have hfound : u.FoundByName ops ↔ ∃ y ∈ field, y.1 ≠ "null".toList ∧ ∃ c, Compares ops u.columns ⟨x, y⟩ c ∧
      DeleteStmt.selects ⟨x, y⟩ c u.old u.new = true ∧
        ∀ row ∈ u.before ++ u.after, DeleteStmt.selects ⟨x, y⟩ c u.old row = false := by
    constructor
    · exact fun h => h x field hattached
    · rintro h _ _ h'
      obtain ⟨rfl, rfl⟩ := Attached.underView.inj (hattached.symm.trans h')
      exact h
  have hformat := formatDelete_underView x field
  rw [← hattached] at hformat
  rw [hfound]
  cases field with
  | none => exact iff_of_false (not_deletesTheRow hformat) (by simp)
  | some y =>
    simp only [Option.mem_some_iff, exists_eq_left']
    by_cases hnull : y.1 = "null".toList
    · exact iff_of_false (not_deletesTheRow (hformat.trans (if_pos hnull))) fun h => h.1 hnull
    · rw [deletesTheRow_of_stmt (hformat.trans (if_neg hnull)), and_iff_right hnull]

/-- Operators of values that are all texts. -/
def textOperators : Operators Chars where
  eq type type' := if type = type' then some fun x y => x == y else none
  textEq x y := x == y
  textEq_iff := by simp
  eq_text := rfl

def userId : Name := ⟨"user_id".toList, by decide⟩

def user (id : String) : Row Chars := fun x => if x = userId then some id.toList else none

/-- The table under a view that makes `cmd_id` of `user_id` and has no `cmd_subid`. -/
def confirmed : RowUpdate Chars where
  columns := [(userId, "uuid".toList)]
  attached := .underView userId none
  documented := ⟨by decide, nofun⟩
  before := [user "1"]
  after := []
  old := user "2"
  new := user "2"
  unique := by decide
  cmdId_ne_null := nofun
  keyKept := rfl

theorem not_deletesTheRow_confirmed : ¬confirmed.DeletesTheRow textOperators := by
  have hresult : confirmed.result textOperators = .error nullValueNotAllowed := rfl
  unfold RowUpdate.DeletesTheRow
  rw [hresult]
  exact nofun

end PgCmdQueue.Extension
