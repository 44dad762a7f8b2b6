import PgCmdQueue.Postgres.Name
import PgCmdQueue.Postgres.Raises

/-!
# The trigger `cmd_queue__queue_signature_constraint`

A relation can become a queue if its columns begin with those of its template.
-/

namespace PgCmdQueue.Extension

open Postgres

/-! ## Arrays of the server -/

section Arrays

variable {α : Type}

/-- NULL if there is nothing to put into the array. -/
def arrayAgg (xs : List α) : Option (List α) := if xs = [] then none else some xs

/-- NULL of an empty array. -/
def arrayLength (xs : Option (List α)) : Option Nat :=
  xs.bind fun xs => if xs = [] then none else some xs.length

/-- `xs[1:upper]`. -/
def sliceTo (xs : Option (List α)) (upper : Option Nat) : Option (List α) := do return (← xs).take (← upper)

/-- `xs[lower:]`. -/
def sliceFrom (xs : Option (List α)) (lower : Option Nat) : Option (List α) := do
  return (← xs).drop ((← lower) - 1)

/-- `xs != ys`. -/
def arrayNe [DecidableEq α] (xs ys : Option (List α)) : Option Bool := do return decide ((← xs) ≠ (← ys))

end Arrays

/-! ## The trigger -/

/-- A row of `pg_attribute`. The type is what `regtype` shows. A dropped column keeps its row, with
another name and the type `-`. -/
structure Attribute where
  attname : Name
  atttypid : { x : Chars // x ≠ [] }
  deriving DecidableEq

/-- The rows of a relation in the order of their numbers, from 1 on. -/
abbrev Relation := List Attribute

def Attribute.text (a : Attribute) : Chars := a.attname.1 ++ ' ' :: a.atttypid.1

def Relation.attrs (r : Relation) : List Chars := (r.drop 1).map Attribute.text

def checkExtraAttr (attr : Chars) : Raises Unit := do
  let extraAttr := (toName attr).1
  if like "queue__".toList extraAttr then throw integrityConstraintViolation
  if like "cmd__".toList extraAttr then throw integrityConstraintViolation

def queueSignatureConstraint (cmdClass cmdSignatureClass : Relation) : Raises Unit := do
  let signatureAttrs := arrayAgg cmdSignatureClass.attrs
  let signatureAttrCount := arrayLength signatureAttrs
  let queueRelAttrs := arrayAgg cmdClass.attrs
  if arrayNe (sliceTo queueRelAttrs signatureAttrCount) signatureAttrs = some true then
    throw integrityConstraintViolation
  match sliceFrom queueRelAttrs (signatureAttrCount.map (· + 1)) with
  | none => throw nullValueNotAllowed
  | some extraAttrs => extraAttrs.forM checkExtraAttr

/-! ## What is documented -/

def Attribute.Reserved (a : Attribute) : Prop :=
  "queue_".toList <+: a.attname.1 ∨ "cmd_".toList <+: a.attname.1

/-- The further columns of a relation. -/
def Relation.extra (r signature : Relation) : List Attribute := (r.drop 1).drop (signature.drop 1).length

def AcceptsAsDocumented (cmdClass cmdSignatureClass : Relation) : Prop :=
  queueSignatureConstraint cmdClass cmdSignatureClass = .ok () ↔
    cmdSignatureClass.drop 1 <+: cmdClass.drop 1 ∧ ∀ a ∈ cmdClass.extra cmdSignatureClass, ¬a.Reserved

/-- What the patterns of the trigger match in place of the reserved names. -/
def Attribute.Mistaken (a : Attribute) : Prop :=
  (a.attname.1 = "queue".toList ∨ a.attname.1 = "cmd".toList) ∧ a.atttypid.1.length = 1

variable {a : Attribute} {r signature : Relation}

/-! ## The further columns -/

theorem like_text {y : Chars} (hy : '_' ∉ y) (hspace : ' ' ∉ y) :
    like (y ++ ['_', '_']) a.text = true ↔ a.attname.1 = y ∧ a.atttypid.1.length = 1 := by
  have htype := List.length_pos_iff.mpr a.atttypid.2
  have hend (z : Chars) : like ['_', '_'] z = true ↔ z.length = 2 := like_wildcards 2
  simp only [like_append hy, hend, Attribute.text]
  constructor
  · rintro ⟨z, htext, hz⟩
    rcases List.append_eq_append_iff.mp htext with ⟨rest, hname, hrest⟩ | ⟨rest, hname, hrest⟩
    · cases rest with
      | nil =>
        obtain rfl : ' ' :: a.atttypid.1 = z := hrest
        exact ⟨by rw [hname, List.append_nil], by simpa using hz⟩
      | cons c rest =>
        obtain ⟨rfl, -⟩ := List.cons.inj hrest
        exact absurd (hname ▸ List.mem_append_right _ List.mem_cons_self) hspace
    · have hlength : rest.length + (a.atttypid.1.length + 1) = 2 := by
        simpa [hrest] using hz
      obtain rfl : rest = [] := List.length_eq_zero_iff.mp (by omega)
      exact ⟨by rw [hname, List.append_nil], by simpa using hlength⟩
  · rintro ⟨hname, hlength⟩
    exact ⟨' ' :: a.atttypid.1, by rw [hname], by simp [hlength]⟩

/-- Names that begin with the prefixes are too long for the patterns. -/
theorem checkExtraAttr_ok_iff : checkExtraAttr a.text = .ok () ↔ ¬a.Mistaken := by
  have hqueue := @like_text a "queue".toList (by decide) (by decide)
  have hcmd := @like_text a "cmd".toList (by decide) (by decide)
  have hmistaken : a.Mistaken ↔
      like "queue__".toList a.text = true ∨ like "cmd__".toList a.text = true := by
    rw [show "queue__".toList = "queue".toList ++ ['_', '_'] by decide,
      show "cmd__".toList = "cmd".toList ++ ['_', '_'] by decide, hqueue, hcmd, ← or_and_right]
    rfl
  simp only [hmistaken, checkExtraAttr, like_toName (show "queue__".toList.length < 15 by decide),
    like_toName (show "cmd__".toList.length < 15 by decide)]
  rcases like "queue__".toList a.text <;> rcases like "cmd__".toList a.text <;>
    simp [throw, throwThe, MonadExceptOf.throw, pure, Except.pure, bind, Except.bind]

theorem forM_checkExtraAttr (as : List Attribute) :
    (as.map Attribute.text).forM checkExtraAttr = .ok () ↔ ∀ a ∈ as, ¬a.Mistaken := by
  induction as with
  | nil => simp [pure, Except.pure]
  | cons a as ih =>
    rw [List.map_cons, List.forM_eq_forM, List.forM_cons, List.forall_mem_cons, ← checkExtraAttr_ok_iff,
      ← ih, List.forM_eq_forM]
    rcases checkExtraAttr a.text with state | ⟨⟩ <;> simp [bind, Except.bind]

/-! ## The whole check -/

theorem length_attrs : r.attrs.length = (r.drop 1).length := List.length_map _

theorem attrs_eq_nil_iff : r.attrs = [] ↔ r.drop 1 = [] := List.map_eq_nil_iff

/-- An array of no columns is NULL, and so are its slices. -/
theorem queueSignatureConstraint_null (h : signature.attrs = [] ∨ r.attrs = []) :
    queueSignatureConstraint r signature = .error nullValueNotAllowed := by
  unfold queueSignatureConstraint
  rcases h with h | h
  · rw [h]
    cases arrayAgg r.attrs <;> rfl
  · rw [h]
    cases arrayLength (arrayAgg signature.attrs) <;> rfl

theorem queueSignatureConstraint_eq (hsignature : signature.attrs ≠ []) (hrel : r.attrs ≠ []) :
    queueSignatureConstraint r signature =
      if signature.attrs <+: r.attrs then ((r.extra signature).map Attribute.text).forM checkExtraAttr
      else .error integrityConstraintViolation := by
  have hextra : (r.extra signature).map Attribute.text = r.attrs.drop signature.attrs.length := by
    rw [Relation.extra, List.map_drop, length_attrs]
    rfl
  have hne : arrayNe (sliceTo (some r.attrs) (some signature.attrs.length)) (some signature.attrs) =
      some !decide (signature.attrs <+: r.attrs) := by
    simp [arrayNe, sliceTo, List.prefix_iff_eq_take, eq_comm]
  have hcount : arrayLength (some signature.attrs) = some signature.attrs.length := if_neg hsignature
  unfold queueSignatureConstraint
  simp only [arrayAgg, if_neg hsignature, if_neg hrel, hcount, hne, hextra]
  by_cases hprefixed : signature.attrs <+: r.attrs
  · simp [hprefixed, sliceFrom]
  · simp [hprefixed]
    rfl

/-- The trigger compares the texts of the columns. -/
theorem queueSignatureConstraint_ok_iff : queueSignatureConstraint r signature = .ok () ↔
    signature.drop 1 ≠ [] ∧ signature.attrs <+: r.attrs ∧ ∀ a ∈ r.extra signature, ¬a.Mistaken := by
  rw [ne_eq, ← attrs_eq_nil_iff]
  by_cases hsignature : signature.attrs = []
  · simp [queueSignatureConstraint_null (.inl hsignature), hsignature]
  by_cases hrel : r.attrs = []
  · simp [queueSignatureConstraint_null (.inr hrel), hrel, hsignature]
  rw [queueSignatureConstraint_eq hsignature hrel]
  split
  · rename_i hprefixed
    rw [forM_checkExtraAttr]
    simp [hsignature, hprefixed]
  · rename_i hprefixed
    simp [hprefixed]

/-! ## When the check is the documented one -/

/-- The trigger refuses a template of one column. A name and a type can make the same text as another
name and another type. Reserved names are told from others only if what is mistaken for them is there. -/
structure ChecksAgree (r signature : Relation) : Prop where
  oneColumn : signature.drop 1 = [] → ∃ a ∈ r.drop 1, a.Reserved
  begins : signature.drop 1 ≠ [] → signature.drop 1 <+: r.drop 1 →
    ((∃ a ∈ r.extra signature, a.Reserved) ↔ ∃ a ∈ r.extra signature, a.Mistaken)
  beginsAsText : signature.attrs <+: r.attrs → ¬signature.drop 1 <+: r.drop 1 →
    ∃ a ∈ r.extra signature, a.Mistaken

theorem attrs_prefix (h : signature.drop 1 <+: r.drop 1) : signature.attrs <+: r.attrs := h.map _

/-- A template. -/
def template : Relation := [
  ⟨⟨"cmd_class".toList, by decide⟩, "regclass".toList, by decide⟩,
  ⟨⟨"cmd_runtime".toList, by decide⟩, "tstzrange".toList, by decide⟩]

def priority : Attribute := ⟨⟨"queue_priority".toList, by decide⟩, "integer".toList, by decide⟩

/-- The name of the last column is a reserved one. -/
def prioritized : Relation := template ++ [priority]

end PgCmdQueue.Extension
