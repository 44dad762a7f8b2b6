import PgCmdQueue.Extension.CmdQueue
import PgCmdQueue.Lib.Rank
import Mathlib.Data.List.ProdSigma
import Mathlib.Data.Prod.Lex

/-!
# The view `cmdqd.cmd_queue`

The daemon sees a queue only through this view, which joins each record with the colour of
its class.
-/

namespace PgCmdQueue.Extension

open Cpp Postgres Rank

abbrev HexDigit := Fin 16

/-- `md5` stands for the function of the server, which returns 32 digits. -/
structure Db where
  reserved : Bytes → Bool
  md5 : Bytes → Fin 32 → HexDigit
  pgClass : PgClasses
  cmdQueue : List CmdQueueRecord
  primaryKey : (cmdQueue.map (·.cmdClass)).Nodup

/-! ## Colours -/

/-- `generate_series(start, stop, step)`, upwards. -/
def generateSeries (start stop step : Nat) : List Nat :=
  (List.range ((stop - start) / step + 1)).map (start + step * ·)

/-- Rows are compared by `r`, then by `g`, then by `b`. -/
abbrev Rgb := ℕ ×ₗ ℕ ×ₗ ℕ

def isGrey (r g b : Int) : Bool := (r - g).natAbs < 30 && (g - b).natAbs < 30

def colorSpace : List Rgb :=
  (generateSeries 100 240 10 ×ˢ generateSeries 100 240 10 ×ˢ generateSeries 100 240 10).filterMap
    fun (r, g, b) => if isGrey r g b then none else some (toLex (r, toLex (g, b)))

def hexByte (d : HexDigit) : Byte := (ascii "0123456789abcdef").getD d 0

/-- The text of a hash. -/
def hexText (hash : Fin 32 → HexDigit) : Bytes := (List.ofFn hash).map hexByte

def HexDigit.bits (d : HexDigit) : List Bool :=
  [d.val.testBit 3, d.val.testBit 2, d.val.testBit 1, d.val.testBit 0]

/-- The explicit cast to `bit(n)` drops bits at the right end, or adds zeros there. -/
def toBit (n : Nat) (bits : List Bool) : List Bool := (bits ++ List.replicate n false).take n

def bitToInt (bits : List Bool) : Nat := bits.foldl (fun n b => 2 * n + b.toNat) 0

/-- `('x' || substring(hash, 1, 3))::bit(11)::int` -/
def hashNo (hash : Fin 32 → HexDigit) : Nat :=
  bitToInt (toBit 11 (((List.ofFn hash).take 3).flatMap HexDigit.bits))

structure Color where
  r : Nat
  g : Nat
  b : Nat
  hex : Bytes
  ansiFg : Bytes
  ansiBg : Bytes

def toHex (n : Nat) : Bytes := (Nat.toDigits 16 n).map ch

def Rgb.color (rgb : Rgb) : Color :=
  let r := (ofLex rgb).1
  let g := (ofLex (ofLex rgb).2).1
  let b := (ofLex (ofLex rgb).2).2
  { r := r, g := g, b := b
    hex := toHex r ++ toHex g ++ toHex b
    ansiFg := ascii s!"[38;2;{r};{g};{b}m"
    ansiBg := ascii s!"[48;2;{r};{g};{b}m" }

def Db.fullyQualifiedName (db : Db) (cls : Oid) : Option Bytes :=
  (db.pgClass.lookup cls).map fun c => quoteIdent db.reserved c.nspname ++ ch '.' :: c.relname

def Db.cmdClassHash (db : Db) (cls : Oid) : Option Bytes :=
  (db.fullyQualifiedName cls).map fun name => hexText (db.md5 name)

/-- A class that is gone has no number. A NULL equals no `color_no`. -/
def Db.cmdClassColor (db : Db) (cls : Oid) : List Color :=
  let number := (db.cmdClassHash cls).map fun hash => hashNo (db.md5 hash)
  (colorSpace.filter fun rgb => some (rank colorSpace rgb) = number).map Rgb.color

/-! ## The view -/

/-- A row of the view. Its other columns come from the record as they are. -/
structure QueueRow where
  cmdClass : Oid
  cmdClassIdentity : Bytes
  cmdClassRelname : Bytes
  cmdSignatureClass : Oid
  ansiFg : Bytes

def Db.queueRows (db : Db) (q : CmdQueueRecord) : List QueueRow :=
  match db.pgClass.lookup q.cmdClass with
  | some c => (db.cmdClassColor q.cmdClass).map fun color => {
      cmdClass := q.cmdClass
      cmdClassIdentity := classIdentity db.reserved c.nspname c.relname
      cmdClassRelname := c.relname
      cmdSignatureClass := q.cmdSignatureClass
      ansiFg := color.ansiFg }
  | none => []

def Db.cmdQueueView (db : Db) : List QueueRow :=
  (db.cmdQueue.filter (·.queueIsEnabled)).flatMap db.queueRows

/-- One row for each record that is enabled, and no other rows. -/
def Db.OneRowEach (db : Db) : Prop :=
  ∀ cls, (db.cmdQueueView.filter (·.cmdClass = cls)).length =
    if ∃ q ∈ db.cmdQueue, q.cmdClass = cls ∧ q.queueIsEnabled then 1 else 0

/-! ## Colour numbers start at one -/

theorem nodup_generateSeries (start stop : Nat) {step : Nat} (h : 0 < step) :
    (generateSeries start stop step).Nodup := by
  refine List.nodup_range.map fun i j hij => ?_
  have := Nat.add_left_cancel hij
  exact Nat.eq_of_mul_eq_mul_left h this

theorem nodup_colorSpace : colorSpace.Nodup := by
  have hseries := nodup_generateSeries 100 240 (by decide : 0 < 10)
  refine (hseries.product (hseries.product hseries)).filterMap ?_
  rintro ⟨r, g, b⟩ ⟨r', g', b'⟩ rgb h h'
  simp only [Option.mem_def] at h h'
  split at h <;> cases h
  split at h' <;> cases h'
  rfl

theorem length_colorSpace : colorSpace.length = 3050 := by decide +kernel

theorem foldl_bits (n : Nat) (d : HexDigit) :
    d.bits.foldl (fun n b => 2 * n + b.toNat) n = 16 * n + d.val := by
  have hbits : 8 * (d.val.testBit 3).toNat + 4 * (d.val.testBit 2).toNat +
      2 * (d.val.testBit 1).toNat + (d.val.testBit 0).toNat = d.val := by
    revert d
    decide
  change 2 * (2 * (2 * (2 * n + _) + _) + _) + _ = _
  omega

theorem foldl_take_bits (n : Nat) (d : HexDigit) :
    (d.bits.take 3).foldl (fun n b => 2 * n + b.toNat) n = 8 * n + d.val / 2 := by
  have hbits : 4 * (d.val.testBit 3).toNat + 2 * (d.val.testBit 2).toNat +
      (d.val.testBit 1).toNat = d.val / 2 := by
    revert d
    decide
  change 2 * (2 * (2 * n + _) + _) + _ = _
  omega

/-- Two digits and the upper three bits of the third. -/
theorem hashNo_eq (hash : Fin 32 → HexDigit) :
    hashNo hash = 128 * (hash 0).val + 8 * (hash 1).val + (hash 2).val / 2 := by
  have hdigits : (List.ofFn hash).take 3 = [hash 0, hash 1, hash 2] := by simp [List.ofFn_succ]
  have hbits : toBit 11 ([hash 0, hash 1, hash 2].flatMap HexDigit.bits) =
      (hash 0).bits ++ ((hash 1).bits ++ (hash 2).bits.take 3) := rfl
  unfold hashNo bitToInt
  rw [hdigits, hbits, List.foldl_append, List.foldl_append, foldl_bits, foldl_bits,
    foldl_take_bits]
  omega

theorem hashNo_lt (hash : Fin 32 → HexDigit) : hashNo hash < 2048 := by
  have h0 := (hash 0).isLt
  have h1 := (hash 1).isLt
  have h2 := (hash 2).isLt
  rw [hashNo_eq]
  omega

theorem hashNo_eq_zero (hash : Fin 32 → HexDigit) :
    hashNo hash = 0 ↔ hash 0 = 0 ∧ hash 1 = 0 ∧ hash 2 ≤ 1 := by
  rw [hashNo_eq, Fin.ext_iff, Fin.ext_iff, Fin.le_def]
  change _ ↔ (hash 0).val = 0 ∧ (hash 1).val = 0 ∧ (hash 2).val ≤ 1
  omega

/-- The class exists, and the first eleven bits of the hash of its hash are not all zero. -/
def Db.Coloured (db : Db) (cls : Oid) : Prop :=
  ∃ hash, db.cmdClassHash cls = some hash ∧
    ¬(db.md5 hash 0 = 0 ∧ db.md5 hash 1 = 0 ∧ db.md5 hash 2 ≤ 1)

variable {db : Db} {cls : Oid}

open Classical in
theorem length_cmdClassColor (db : Db) (cls : Oid) :
    (db.cmdClassColor cls).length = if db.Coloured cls then 1 else 0 := by
  unfold Db.cmdClassColor
  rw [List.length_map]
  cases hhash : db.cmdClassHash cls with
  | none => simp [Db.Coloured, hhash]
  | some hash =>
    have hcoloured : db.Coloured cls ↔ hashNo (db.md5 hash) ≠ 0 := by
      simp [Db.Coloured, hhash, hashNo_eq_zero]
    have hlt := hashNo_lt (db.md5 hash)
    have hrank := length_filter_rank nodup_colorSpace (hashNo (db.md5 hash))
    rw [length_colorSpace] at hrank
    simp only [Option.map_some, Option.some.injEq, hrank]
    by_cases hno : hashNo (db.md5 hash) = 0
    · rw [if_neg (by omega), if_neg fun h => hcoloured.mp h hno]
    · rw [if_pos (by omega), if_pos (hcoloured.mpr hno)]

theorem cmdClassColor_iff (db : Db) (cls : Oid) :
    (db.cmdClassColor cls).length = 1 ↔ db.Coloured cls := by
  rw [length_cmdClassColor]
  split <;> simp_all

/-! ## Rows of the view -/

theorem length_queueRows (db : Db) (q : CmdQueueRecord) :
    (db.queueRows q).length = (db.cmdClassColor q.cmdClass).length := by
  unfold Db.queueRows
  split
  · rw [List.length_map]
  · rename_i hgone
    simp [Db.cmdClassColor, Db.cmdClassHash, Db.fullyQualifiedName, hgone]

theorem cmdClass_of_mem_queueRows {q : CmdQueueRecord} {row : QueueRow}
    (h : row ∈ db.queueRows q) : row.cmdClass = q.cmdClass := by
  unfold Db.queueRows at h
  split at h
  · obtain ⟨color, -, rfl⟩ := List.mem_map.mp h
    rfl
  · cases h

/-- The records of one class. -/
theorem filter_cmdClass {qs : List CmdQueueRecord} (h : (qs.map (·.cmdClass)).Nodup)
    {q : CmdQueueRecord} (hq : q ∈ qs) : qs.filter (·.cmdClass = q.cmdClass) = [q] := by
  induction qs with
  | nil => cases hq
  | cons r qs ih =>
    rw [List.map_cons, List.nodup_cons] at h
    have hrest : ∀ q ∈ qs, r.cmdClass ≠ q.cmdClass := by
      rintro q hq heq
      exact h.1 (heq ▸ List.mem_map_of_mem hq)
    rcases List.mem_cons.mp hq with rfl | hq
    · rw [List.filter_cons_of_pos (by simp), List.filter_eq_nil_iff.mpr]
      intro s hs
      simpa using (hrest s hs).symm
    · rw [List.filter_cons_of_neg (by simpa using hrest q hq), ih h.2 hq]

theorem filter_cmdQueueView (db : Db) (cls : Oid) : db.cmdQueueView.filter (·.cmdClass = cls) =
    ((db.cmdQueue.filter (·.cmdClass = cls)).filter (·.queueIsEnabled)).flatMap db.queueRows := by
  unfold Db.cmdQueueView
  induction db.cmdQueue with
  | nil => rfl
  | cons q qs ih =>
    by_cases hq : q.cmdClass = cls
    · have hall : (db.queueRows q).filter (·.cmdClass = cls) = db.queueRows q := by
        rw [List.filter_eq_self]
        intro row hrow
        rw [cmdClass_of_mem_queueRows hrow]
        exact decide_eq_true hq
      cases hen : q.queueIsEnabled <;> simp [hq, hen, hall, ih]
    · have hnone : (db.queueRows q).filter (·.cmdClass = cls) = [] := by
        rw [List.filter_eq_nil_iff]
        intro row hrow
        rw [cmdClass_of_mem_queueRows hrow]
        simpa using hq
      cases hen : q.queueIsEnabled <;> simp [hq, hen, hnone, ih]

/-- How many rows the view has for a record, and for a class without one. -/
theorem length_filter_cmdQueueView (db : Db) {q : CmdQueueRecord} (hq : q ∈ db.cmdQueue) :
    (db.cmdQueueView.filter (·.cmdClass = q.cmdClass)).length =
      if q.queueIsEnabled then (db.cmdClassColor q.cmdClass).length else 0 := by
  rw [filter_cmdQueueView, filter_cmdClass db.primaryKey hq]
  cases hen : q.queueIsEnabled <;> simp [hen, length_queueRows]

theorem filter_cmdQueueView_of_none (h : ∀ q ∈ db.cmdQueue, q.cmdClass ≠ cls) :
    db.cmdQueueView.filter (·.cmdClass = cls) = [] := by
  have hnone : db.cmdQueue.filter (·.cmdClass = cls) = [] := by
    rw [List.filter_eq_nil_iff]
    simpa using h
  rw [filter_cmdQueueView, hnone]
  rfl

/-- The queues that the view leaves out are those whose class has no colour. -/
theorem oneRowEach_iff (db : Db) :
    (∀ cls, (db.cmdClassColor cls).length = 1 ↔ db.Coloured cls) ∧
      (db.OneRowEach ↔ ∀ q ∈ db.cmdQueue, q.queueIsEnabled = true → db.Coloured q.cmdClass) := by
  refine ⟨cmdClassColor_iff db, ?_, ?_⟩
  · intro h q hq hen
    have hone := h q.cmdClass
    rw [length_filter_cmdQueueView db hq, if_pos hen, if_pos ⟨q, hq, rfl, hen⟩] at hone
    exact (cmdClassColor_iff db _).mp hone
  · intro h cls
    by_cases hcls : ∃ q ∈ db.cmdQueue, q.cmdClass = cls
    · obtain ⟨q, hq, rfl⟩ := hcls
      rw [length_filter_cmdQueueView db hq]
      cases hen : q.queueIsEnabled with
      | true =>
        rw [if_pos rfl, if_pos ⟨q, hq, rfl, hen⟩]
        exact (cmdClassColor_iff db _).mpr (h q hq hen)
      | false =>
        rw [if_neg nofun, if_neg]
        rintro ⟨r, hr, hkey, hr'⟩
        have hsame : q ∈ [r] := by
          rw [← filter_cmdClass db.primaryKey hr, List.mem_filter]
          exact ⟨hq, by simp [hkey]⟩
        rw [List.mem_singleton.mp hsame, hr'] at hen
        cases hen
    · rw [filter_cmdQueueView_of_none fun q hq heq => hcls ⟨q, hq, heq⟩, if_neg]
      · rfl
      · rintro ⟨q, hq, heq, -⟩
        exact hcls ⟨q, hq, heq⟩

/-! ## A queue that the daemon does not see -/

def digits (s : String) : List HexDigit :=
  s.toList.map fun c => Fin.ofNat 16 (if c.isDigit then c.toNat - 48 else c.toNat - 87)

/-- The hashes of one name and of its hash. -/
def job108Md5 (x : Bytes) (i : Fin 32) : HexDigit :=
  let hash := digits "a237ede509b892e00bc8b884240e15fa"
  if x = ascii "public.job108_cmd" then hash.getD i 0
  else if x = hash.map hexByte then (digits "000465f3d1bb49d99fbb726fd5ef2fba").getD i 0
  else 0

def job108 : Db where
  reserved := fun _ => false
  md5 := job108Md5
  pgClass := (∅ : PgClasses).insert 1 ⟨ascii "public", ascii "job108_cmd"⟩
    |>.insert 2 ⟨ascii "cmdq", ascii "nix_queue_cmd_template"⟩
  cmdQueue := [{ cmdClass := 1, cmdSignatureClass := 2 }]
  primaryKey := by decide

theorem not_oneRowEach_job108 : (∀ q ∈ job108.cmdQueue, q.admitted job108.pgClass) ∧ ¬job108.OneRowEach ∧
    job108.cmdClassColor 1 = [] := by
  have hcolor : job108.cmdClassColor 1 = [] := by
    rw [← List.length_eq_zero_iff, length_cmdClassColor, if_neg]
    rintro ⟨hash, hhash, hne⟩
    cases hhash
    exact hne (by decide)
  refine ⟨by decide, ?_, hcolor⟩
  intro h
  have hone := h 1
  have hq : ({ cmdClass := 1, cmdSignatureClass := 2 } : CmdQueueRecord) ∈ job108.cmdQueue :=
    List.mem_singleton_self _
  rw [if_pos ⟨_, hq, rfl, rfl⟩, length_filter_cmdQueueView job108 hq] at hone
  simp [hcolor] at hone

end PgCmdQueue.Extension
