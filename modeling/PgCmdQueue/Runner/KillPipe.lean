import Mathlib.Data.List.Forall2
import PgCmdQueue.RunCmd.Loop
import PgCmdQueue.Runner.Stop

/-!
# The bytes in the kill pipe

`kill()` writes the bytes of a number, and the runner reads them into a number of its own. Both loops
move a pointer to `int` by a number of bytes.
-/

namespace PgCmdQueue.Runner.KillPipe

open Cpp Stop
open RunCmd (Errno)

/-! ## Numbers in the memory -/

/-- The lowest byte comes first. -/
def intBytes (x : BitVec 32) : Bytes := (List.range sizeofInt).map fun i => (x.toNat / 256 ^ i).toUInt8

def intOfBytes (x : Bytes) : BitVec 32 := BitVec.ofNat 32 (x.foldr (fun c n => c.toNat + 256 * n) 0)

/-- `x + y`, of the type `size_t`. -/
def addSize (x y : Nat) : Nat := (x + y) % 2 ^ 64

/-- The address behind so many numbers, from the first byte of the number on. -/
def intAddress (offset : Nat) : Nat := (sizeofInt * offset) % 2 ^ 64

/-! ## Writing -/

inductive WriteResult where
  | failed (err : Errno)
  | wrote (atMost : ℕ+)

/-- What `write()` returns, as a `size_t`. It returns 0 if there is nothing to write. -/
def WriteResult.returned (toWrite : Nat) : WriteResult → Nat
  | .failed _ => if toWrite = 0 then 0 else 2 ^ 64 - 1
  | .wrote atMost => min atMost toWrite

/-- The addresses of the bytes that are written. -/
def WriteResult.bytes (toWrite offset : Nat) : WriteResult → List Nat
  | .failed _ => []
  | .wrote atMost => (List.range (min atMost toWrite)).map fun i => addSize (intAddress offset) i

/-- The loop ends if the next `calls` of `write()` make it end. A `size_t` is never below 0, so that
`errno` is not looked at. -/
def killLoop : Nat → (Nat → WriteResult) → Nat → Nat → Option (List Nat)
  | 0, _, _, _ => none
  | calls + 1, writes, killPipeBytesToWrite, killPipePtrOffset =>
    let killPipeBytesWritten := (writes 0).returned killPipeBytesToWrite
    if 0 < killPipeBytesWritten then
      (killLoop calls (fun i => writes (i + 1)) (subSize killPipeBytesToWrite killPipeBytesWritten)
        (addSize killPipePtrOffset killPipeBytesWritten)).map
          ((writes 0).bytes killPipeBytesToWrite killPipePtrOffset ++ ·)
    else some []

/-- A call of `kill()`, what stands in the memory around its argument, and what `write()` does. -/
structure KillCall where
  sigNum : BitVec 32
  around : Nat → Byte
  writes : Nat → WriteResult

def KillCall.memory (k : KillCall) (address : Nat) : Byte :=
  if address < sizeofInt then (intBytes k.sigNum).getD address 0 else k.around address

/-- The addresses of the bytes that the call has written, when its loop has ended. -/
def KillCall.Writes (k : KillCall) (addresses : List Nat) : Prop :=
  ∃ calls, killLoop calls k.writes sizeofInt 0 = some addresses

/-! ## Reading -/

inductive ReadResult where
  | failed (err : Errno)
  | data (atMost : ℕ+)

inductive ReadOutcome where
  | stopped (sigNum : BitVec 32)
  | unexpected (err : Errno)
  | outOfBounds

/-- A pipe that is empty has nothing to read for now. -/
def ReadResult.returned (pipe : Bytes) : ReadResult → ReadResult
  | .failed err => .failed err
  | .data atMost => if pipe = [] then .failed .eagain else .data atMost

/-- `int sig_num = -1`. -/
def noSigNum : Bytes := intBytes (-1)

/-- The loop that reads, and the `continue` that comes back to it. -/
def readLoop : Nat → (Nat → ReadResult) → Bytes → (sigNumBytesTotal : Nat) → Bytes → Option ReadOutcome
  | 0, _, _, _, _ => none
  | calls + 1, reads, pipe, sigNumBytesTotal, sigNum =>
    let next := readLoop calls fun i => reads (i + 1)
    match (reads 0).returned pipe with
    | .data atMost =>
      let chunk := pipe.take (min atMost sizeofInt)
      let start := intAddress sigNumBytesTotal
      if start + chunk.length ≤ sizeofInt then
        next (pipe.drop chunk.length) (sigNumBytesTotal + chunk.length)
          (sigNum.take start ++ (chunk ++ sigNum.drop (start + chunk.length)))
      else some .outOfBounds
    | .failed err =>
      if sigNumBytesTotal < sizeofInt then
        match err with
        | .eintr | .eagain => next pipe 0 noSigNum
        | err => some (.unexpected err)
      else some (.stopped (intOfBytes sigNum))

/-! ## Requests that come through -/

/-- The bytes in the pipe after the calls, in their order. -/
def Filled (kills : List KillCall) (pipe : Bytes) : Prop :=
  ∃ written, List.Forall₂ KillCall.Writes kills written ∧
    pipe = (List.zipWith (fun k addresses => addresses.map k.memory) kills written).flatten

structure Delivers (first : KillCall) (more : List KillCall) (reads : Nat → ReadResult) : Prop where
  written : ∀ k ∈ first :: more, k.Writes (List.range sizeofInt)
  read : ∀ pipe, Filled (first :: more) pipe →
    ∃ calls, readLoop calls reads pipe 0 noSigNum = some (.stopped first.sigNum)

/-! ## The loop that writes -/

def WriteResult.Failed (r : WriteResult) : Prop := ∃ err, r = .failed err

theorem killLoop_zero (calls : Nat) (writes : Nat → WriteResult) (offset : Nat) :
    killLoop (calls + 1) writes 0 offset = some [] := by
  have h : (writes 0).returned 0 = 0 := by
    unfold WriteResult.returned; split <;> simp
  simp [killLoop, h]

/-- An error makes one byte more to write, and moves the pointer one number back. -/
theorem killLoop_failed {calls toWrite offset : Nat} {writes : Nat → WriteResult}
    (h : (writes 0).Failed) (hw : 0 < toWrite) (hs : toWrite < 2 ^ 64) :
    killLoop (calls + 1) writes toWrite offset =
      killLoop calls (fun i => writes (i + 1)) ((toWrite + 1) % 2 ^ 64)
        ((offset + (2 ^ 64 - 1)) % 2 ^ 64) := by
  obtain ⟨err, h⟩ := h
  have hr : (writes 0).returned toWrite = 2 ^ 64 - 1 := by
    rw [h, WriteResult.returned, if_neg (by omega)]
  have hb : (writes 0).bytes toWrite offset = [] := by rw [h, WriteResult.bytes]
  have ht : subSize toWrite (2 ^ 64 - 1) = (toWrite + 1) % 2 ^ 64 := by unfold subSize; omega
  rw [killLoop]
  simp only [hr, hb, ht, addSize]
  rw [if_pos (by omega)]
  simp

theorem killLoop_wrote {calls toWrite offset : Nat} {writes : Nat → WriteResult} {n : ℕ+}
    (h : writes 0 = .wrote n) (hw : 0 < toWrite) (hs : toWrite < 2 ^ 64) :
    killLoop (calls + 1) writes toWrite offset =
      (killLoop calls (fun i => writes (i + 1)) (toWrite - min (n : Nat) toWrite)
        ((offset + min (n : Nat) toWrite) % 2 ^ 64)).map
          ((List.range (min (n : Nat) toWrite)).map (fun i => addSize (intAddress offset) i) ++ ·) := by
  have hn := n.pos
  have hr : (writes 0).returned toWrite = min (n : Nat) toWrite := by rw [h, WriteResult.returned]
  have hb : (writes 0).bytes toWrite offset =
      (List.range (min (n : Nat) toWrite)).map (fun i => addSize (intAddress offset) i) := by
    rw [h, WriteResult.bytes]
  have ht : subSize toWrite (min (n : Nat) toWrite) = toWrite - min (n : Nat) toWrite := by
    unfold subSize; omega
  rw [killLoop]
  simp only [hr, hb, ht]
  rw [if_pos (by omega), addSize]

theorem killLoop_failures {writes : Nat → WriteResult} {toWrite offset b : Nat} (hw : 0 < toWrite)
    (ht : toWrite < 2 ^ 64) (ho : offset < 2 ^ 64) (h : ∀ i < b, (writes i).Failed)
    (hs : toWrite + b ≤ 2 ^ 64) (calls : Nat) :
    killLoop (b + calls) writes toWrite offset =
      killLoop calls (fun i => writes (b + i)) ((toWrite + b) % 2 ^ 64)
        ((offset + (2 ^ 64 - b)) % 2 ^ 64) := by
  induction b generalizing calls with
  | zero =>
    have hb : (toWrite + 0) % 2 ^ 64 = toWrite := by omega
    have hp : (offset + (2 ^ 64 - 0)) % 2 ^ 64 = offset := by omega
    rw [hb, hp]
    simp only [Nat.zero_add]
  | succ b ih =>
    have hb : (writes b).Failed := h b (by omega)
    rw [Nat.add_right_comm b 1 calls, Nat.add_assoc b calls 1,
      ih (fun i hi => h i (by omega)) (by omega), killLoop_failed hb (by omega) (by omega)]
    have hp : ((offset + (2 ^ 64 - b)) % 2 ^ 64 + (2 ^ 64 - 1)) % 2 ^ 64 =
        (offset + (2 ^ 64 - (b + 1))) % 2 ^ 64 := by omega
    have hm : ((toWrite + b) % 2 ^ 64 + 1) % 2 ^ 64 = (toWrite + (b + 1)) % 2 ^ 64 := by omega
    rw [hp, hm]
    simp only [Nat.add_assoc, Nat.add_comm 1]

/-- How a loop goes on to its next bytes, or to its end. -/
theorem killLoop_next {calls toWrite offset : Nat} {writes : Nat → WriteResult} {addresses : List Nat}
    (h : killLoop calls writes toWrite offset = some addresses) (hw : 0 < toWrite)
    (hs : toWrite < 2 ^ 64) (ho : offset < 2 ^ 64) :
    ∃ b, (∀ i < b, (writes i).Failed) ∧
      (toWrite + b = 2 ^ 64 ∧ addresses = [] ∨
        ∃ n : ℕ+, toWrite + b < 2 ^ 64 ∧ writes b = .wrote n ∧ ∃ calls rest,
          killLoop calls (fun i => writes (b + 1 + i)) (toWrite + b - min (n : Nat) (toWrite + b))
            (((offset + (2 ^ 64 - b)) % 2 ^ 64 + min (n : Nat) (toWrite + b)) % 2 ^ 64) = some rest ∧
          addresses = (List.range (min (n : Nat) (toWrite + b))).map
            (fun i => addSize (intAddress ((offset + (2 ^ 64 - b)) % 2 ^ 64)) i) ++ rest) := by
  induction calls generalizing writes toWrite offset with
  | zero => simp [killLoop] at h
  | succ calls ih =>
    match hr : writes 0 with
    | .failed err =>
      have hf : (writes 0).Failed := ⟨err, hr⟩
      rw [killLoop_failed hf hw hs] at h
      have first : ∀ b, (∀ i < b, (writes (i + 1)).Failed) → ∀ i < b + 1, (writes i).Failed :=
        fun b hb i hi => by
          match i with
          | 0 => exact hf
          | i + 1 => exact hb i (by omega)
      by_cases ht : toWrite + 1 = 2 ^ 64
      · rw [ht, Nat.mod_self] at h
        refine ⟨1, first 0 (by simp), .inl ⟨ht, ?_⟩⟩
        match calls with
        | 0 => simp [killLoop] at h
        | calls + 1 => simpa [killLoop_zero, eq_comm] using h
      · rw [Nat.mod_eq_of_lt (by omega)] at h
        obtain ⟨b, hb, hn⟩ := ih h (by omega) (by omega) (by omega)
        refine ⟨b + 1, first b hb, ?_⟩
        have ht : toWrite + 1 + b = toWrite + (b + 1) := by omega
        rw [ht] at hn
        obtain hn | ⟨n, hlt, hwr, calls, rest, hl, rfl⟩ := hn
        · exact .inl hn
        · have hp : ((offset + (2 ^ 64 - 1)) % 2 ^ 64 + (2 ^ 64 - b)) % 2 ^ 64 =
              (offset + (2 ^ 64 - (b + 1))) % 2 ^ 64 := by omega
          rw [hp] at hl ⊢
          have hi : ∀ i, b + 1 + i + 1 = b + 1 + 1 + i := by omega
          simp only [hi] at hl
          exact .inr ⟨n, hlt, hwr, calls, rest, hl, rfl⟩
    | .wrote n =>
      rw [killLoop_wrote hr hw hs] at h
      obtain ⟨rest, hl, rfl⟩ := Option.map_eq_some_iff.mp h
      have hp : (offset + (2 ^ 64 - 0)) % 2 ^ 64 = offset := by omega
      refine ⟨0, by simp, .inr ⟨n, by omega, hr, calls, rest, ?_, ?_⟩⟩
      · rw [hp]
        simpa only [Nat.zero_add, Nat.add_zero, Nat.add_comm 1] using hl
      · rw [hp, Nat.add_zero]

theorem killLoop_nil {calls offset : Nat} {writes : Nat → WriteResult} {addresses : List Nat}
    (h : killLoop calls writes 0 offset = some addresses) : addresses = [] := by
  match calls with
  | 0 => simp [killLoop] at h
  | calls + 1 => simpa [killLoop_zero, eq_comm] using h

theorem wrote_head {m start address : Nat} {bytes rest : List Nat} (hm : 0 < m)
    (h : address :: bytes = (List.range m).map (fun i => addSize start i) ++ rest) :
    address = start % 2 ^ 64 := by
  obtain ⟨m, rfl⟩ : ∃ m', m = m' + 1 := ⟨m - 1, by omega⟩
  rw [List.range_succ_eq_map, List.map_cons, List.cons_append, List.cons.injEq] at h
  exact h.1

/-- Every call of `write()` starts at a whole number of numbers. -/
theorem killLoop_head {calls toWrite offset address : Nat} {writes : Nat → WriteResult}
    {rest : List Nat} (h : killLoop calls writes toWrite offset = some (address :: rest))
    (hs : toWrite < 2 ^ 64) (ho : offset < 2 ^ 64) : address % sizeofInt = 0 := by
  by_cases hw : toWrite = 0
  · subst hw
    simpa using killLoop_nil h
  · obtain ⟨b, -, ⟨-, hn⟩ | ⟨n, -, -, -, rest, -, hn⟩⟩ := killLoop_next h (by omega) hs ho
    · simp at hn
    · have hpos := n.pos
      have ha := wrote_head (by omega) hn
      simp only [intAddress, sizeofInt] at ha ⊢
      omega

/-- One call takes all bytes of the number. Where errors come first, the pointer has to come back to
the number by them, and so many errors have to follow that nothing is left to write. -/
def TakesAll (writes : Nat → WriteResult) : Prop :=
  (∃ n : ℕ+, sizeofInt ≤ n ∧ writes 0 = .wrote n) ∨
    ∃ a ∈ [2 ^ 62, 2 * 2 ^ 62, 3 * 2 ^ 62], (∀ i < a, (writes i).Failed) ∧
      writes a = .wrote 4 ∧ ∀ i < 2 ^ 64 - a, (writes (a + 1 + i)).Failed

theorem writes_of_takesAll {k : KillCall} (h : TakesAll k.writes) :
    k.Writes (List.range sizeofInt) := by
  obtain ⟨n, hn, hw⟩ | ⟨a, ha, hf, hw, he⟩ := h
  · refine ⟨2, ?_⟩
    rw [killLoop_wrote hw (by decide) (by decide), Nat.min_eq_right hn, Nat.sub_self, killLoop_zero]
    rfl
  · simp only [List.mem_cons, List.not_mem_nil, or_false] at ha
    refine ⟨a + (2 ^ 64 - a + 1 + 1), ?_⟩
    have hl : killLoop (a + (2 ^ 64 - a + 1 + 1)) k.writes sizeofInt 0 = _ :=
      killLoop_failures (by decide) (by decide) (by decide) hf (by simp only [sizeofInt]; omega) _
    have ht : (sizeofInt + a) % 2 ^ 64 = sizeofInt + a := by simp only [sizeofInt]; omega
    have h4 : ((4 : ℕ+) : Nat) = sizeofInt := rfl
    have hp : intAddress ((0 + (2 ^ 64 - a)) % 2 ^ 64) = 0 := by
      simp only [intAddress, sizeofInt]
      omega
    rw [ht, killLoop_wrote hw (by omega) (by omega), h4, Nat.min_eq_left (by omega), hp,
      Nat.add_sub_cancel_left] at hl
    have he : ∀ i < 2 ^ 64 - a, (k.writes (a + (i + 1))).Failed := by
      intro i hi
      rw [Nat.add_comm i, ← Nat.add_assoc]
      exact he i hi
    have hz : (a + (2 ^ 64 - a)) % 2 ^ 64 = 0 := by omega
    rw [killLoop_failures (by omega) (by omega) (by omega) he (by omega) 1, hz, killLoop_zero] at hl
    rw [hl]
    rfl

theorem takesAll_of_writes {k : KillCall} (h : k.Writes (List.range sizeofInt)) :
    TakesAll k.writes := by
  obtain ⟨calls, h⟩ := h
  obtain ⟨b, hb, ⟨-, hn⟩ | ⟨n, hlt, hw, calls, rest, hl, hn⟩⟩ :=
    killLoop_next h (by decide) (by decide) (by decide)
  · simp [sizeofInt] at hn
  have hpos := n.pos
  simp only [sizeofInt] at hlt hl hn
  obtain ⟨m, hm⟩ : ∃ m, m = min (n : Nat) (4 + b) := ⟨_, rfl⟩
  rw [← hm] at hl hn
  have hstart := wrote_head (by omega) (hn : 0 :: [1, 2, 3] = _)
  simp only [intAddress, sizeofInt] at hstart
  have hrest : rest = (List.range 4).drop m := by
    have hd := congrArg (List.drop m) hn
    simpa using hd.symm
  -- What comes behind would have to start inside the number.
  have hm4 : 4 ≤ m := by
    by_contra hlt
    rw [List.drop_eq_getElem_cons (by simpa using hlt)] at hrest
    have ha := killLoop_head (hrest ▸ hl) (by omega) (by omega)
    simp only [List.getElem_range, sizeofInt] at ha
    omega
  have hlen := congrArg List.length hn
  simp only [List.length_range, List.length_append, List.length_map] at hlen
  obtain rfl : rest = [] := List.eq_nil_of_length_eq_zero (by omega)
  by_cases hb0 : b = 0
  · subst hb0
    exact .inl ⟨n, by simp only [sizeofInt]; omega, hw⟩
  · have hn4 : n = 4 := PNat.eq (by show (n : Nat) = 4; omega)
    obtain ⟨b', hb', ⟨he, -⟩ | ⟨n', -, -, -, _, -, hn'⟩⟩ :=
      killLoop_next hl (by omega) (by omega) (by omega)
    · refine .inr ⟨b, ?_, hb, by rw [hw, hn4], ?_⟩
      · simp only [List.mem_cons, List.not_mem_nil, or_false]
        omega
      · intro i hi
        exact hb' i (by omega)
    · have hpos := n'.pos
      have hlen := congrArg List.length hn'
      simp only [List.length_nil, List.length_append, List.length_map, List.length_range] at hlen
      omega

theorem writes_sizeofInt_iff (k : KillCall) :
    k.Writes (List.range sizeofInt) ↔ TakesAll k.writes :=
  ⟨takesAll_of_writes, writes_of_takesAll⟩

theorem killLoop_unique {calls calls' toWrite offset : Nat} {writes : Nat → WriteResult}
    {addresses addresses' : List Nat} (h : killLoop calls writes toWrite offset = some addresses)
    (h' : killLoop calls' writes toWrite offset = some addresses') : addresses = addresses' := by
  induction calls generalizing calls' writes toWrite offset addresses addresses' with
  | zero => simp [killLoop] at h
  | succ calls ih =>
    match calls' with
    | 0 => simp [killLoop] at h'
    | calls' + 1 =>
      rw [killLoop] at h h'
      by_cases hr : 0 < (writes 0).returned toWrite
      · simp only [if_pos hr, Option.map_eq_some_iff] at h h'
        obtain ⟨rest, hl, rfl⟩ := h
        obtain ⟨rest', hl', rfl⟩ := h'
        rw [ih hl hl']
      · simp only [if_neg hr, Option.some.injEq] at h h'
        rw [← h, ← h']

theorem KillCall.memory_sizeofInt (k : KillCall) :
    (List.range sizeofInt).map k.memory = intBytes k.sigNum := by
  unfold intBytes
  refine List.map_congr_left fun i hi => ?_
  rw [List.mem_range] at hi
  simp [KillCall.memory, intBytes, hi]

theorem written_bytes {kills : List KillCall} {written : List (List Nat)}
    (h : ∀ k ∈ kills, k.Writes (List.range sizeofInt))
    (hw : List.Forall₂ KillCall.Writes kills written) :
    (List.zipWith (fun k addresses => addresses.map k.memory) kills written).flatten =
      kills.flatMap fun k => intBytes k.sigNum := by
  induction hw with
  | nil => rfl
  | @cons k addresses kills written hk _ ih =>
    obtain ⟨calls, hk⟩ := hk
    obtain ⟨calls', hk'⟩ := h k (by simp)
    rw [List.zipWith_cons_cons, List.flatten_cons, ih fun k hm => h k (by simp [hm]),
      killLoop_unique hk hk', KillCall.memory_sizeofInt, List.flatMap_cons]

/-- Calls that write their own numbers leave the numbers in the pipe. -/
theorem filled_iff {kills : List KillCall} (h : ∀ k ∈ kills, k.Writes (List.range sizeofInt))
    (pipe : Bytes) : Filled kills pipe ↔ pipe = kills.flatMap fun k => intBytes k.sigNum := by
  constructor
  · rintro ⟨written, hw, rfl⟩
    exact written_bytes h hw
  · rintro rfl
    have hw : List.Forall₂ KillCall.Writes kills (kills.map fun _ => List.range sizeofInt) := by
      rw [List.forall₂_map_right_iff, List.forall₂_same]
      exact h
    exact ⟨_, hw, (written_bytes h hw).symm⟩

/-! ## The loop that reads -/

def Transient (err : Errno) : Prop := err = .eintr ∨ err = .eagain

@[simp] theorem intBytes_length (x : BitVec 32) : (intBytes x).length = sizeofInt := by
  simp [intBytes]

theorem intOfBytes_intBytes (x : BitVec 32) : intOfBytes (intBytes x) = x := by
  apply BitVec.eq_of_toNat_eq
  have hx := x.isLt
  simp [intOfBytes, intBytes, sizeofInt, List.range_succ]
  omega

theorem intBytes_intOfBytes {bytes : Bytes} (h : bytes.length = sizeofInt) :
    intBytes (intOfBytes bytes) = bytes := by
  match bytes, h with
  | [a, b, c, d], _ =>
    have ha := a.toNat_lt
    have hb := b.toNat_lt
    have hc := c.toNat_lt
    have hd := d.toNat_lt
    simp only [intOfBytes, intBytes, sizeofInt, List.range_succ, List.foldr_cons, List.foldr_nil,
      BitVec.toNat_ofNat]
    simp
    refine ⟨?_, ?_, ?_, ?_⟩ <;>
      (apply UInt8.toNat.inj; rw [UInt8.toNat_ofNat']; omega)

theorem returned_failed {r : ReadResult} {pipe : Bytes} {err : Errno} (hp : pipe ≠ [])
    (h : r.returned pipe = .failed err) : r = .failed err := by
  unfold ReadResult.returned at h
  split at h
  · exact h
  · rw [if_neg hp] at h
    exact h

theorem returned_data {r : ReadResult} {pipe : Bytes} {n : ℕ+} (h : r.returned pipe = .data n) :
    r = .data n ∧ pipe ≠ [] := by
  unfold ReadResult.returned at h
  split at h
  · simp at h
  · split at h
    · simp at h
    · exact ⟨h, by assumption⟩

theorem readLoop_data {calls total : Nat} {reads : Nat → ReadResult} {pipe sigNum : Bytes} {n : ℕ+}
    (h : (reads 0).returned pipe = .data n) :
    readLoop (calls + 1) reads pipe total sigNum =
      if intAddress total + (pipe.take (min n sizeofInt)).length ≤ sizeofInt then
        readLoop calls (fun i => reads (i + 1)) (pipe.drop (pipe.take (min n sizeofInt)).length)
          (total + (pipe.take (min n sizeofInt)).length)
          (sigNum.take (intAddress total) ++ (pipe.take (min n sizeofInt) ++
            sigNum.drop (intAddress total + (pipe.take (min n sizeofInt)).length)))
      else some .outOfBounds := by
  rw [readLoop, h]

theorem readLoop_first {calls : Nat} {reads : Nat → ReadResult} {pipe : Bytes} {n : ℕ+}
    (h : (reads 0).returned pipe = .data n) :
    readLoop (calls + 1) reads pipe 0 noSigNum =
      readLoop calls (fun i => reads (i + 1)) (pipe.drop (min n sizeofInt))
        (pipe.take (min n sizeofInt)).length
        (pipe.take (min n sizeofInt) ++ noSigNum.drop (pipe.take (min n sizeofInt)).length) := by
  have hs : intAddress 0 = 0 := rfl
  have hl : (pipe.take (min n sizeofInt)).length ≤ sizeofInt := by simp
  have hd : pipe.drop (pipe.take (min n sizeofInt)).length = pipe.drop (min n sizeofInt) := by
    rw [List.length_take, List.drop_eq_drop_iff]
    omega
  rw [readLoop_data h]
  simp only [hs, Nat.zero_add, if_pos hl, hd, List.take_zero, List.nil_append]

/-- Bytes that come behind others are not stored in the number. -/
theorem readLoop_behind {calls total : Nat} {reads : Nat → ReadResult} {pipe sigNum : Bytes} {n : ℕ+}
    (h : (reads 0).returned pipe = .data n) (ht : 0 < total) (hs : total ≤ sizeofInt) :
    readLoop (calls + 1) reads pipe total sigNum = some .outOfBounds := by
  have hp := List.length_pos_iff.mpr (returned_data h).2
  have hn := n.pos
  have hl : 0 < (pipe.take (min n sizeofInt)).length := by
    simp only [List.length_take, sizeofInt]
    omega
  have hb : ¬ intAddress total + (pipe.take (min n sizeofInt)).length ≤ sizeofInt := by
    unfold intAddress
    simp only [sizeofInt] at hs hl ⊢
    omega
  rw [readLoop_data h, if_neg hb]

theorem readLoop_err {calls total : Nat} {reads : Nat → ReadResult} {pipe sigNum : Bytes}
    {err : Errno} (h : (reads 0).returned pipe = .failed err) :
    readLoop (calls + 1) reads pipe total sigNum =
      if total < sizeofInt then
        match err with
        | .eintr | .eagain => readLoop calls (fun i => reads (i + 1)) pipe 0 noSigNum
        | err => some (.unexpected err)
      else some (.stopped (intOfBytes sigNum)) := by
  rw [readLoop, h]

theorem readLoop_failed {calls total : Nat} {reads : Nat → ReadResult} {pipe sigNum : Bytes}
    {err : Errno} (h : (reads 0).returned pipe = .failed err) (he : Transient err)
    (ht : total < sizeofInt) :
    readLoop (calls + 1) reads pipe total sigNum =
      readLoop calls (fun i => reads (i + 1)) pipe 0 noSigNum := by
  rw [readLoop_err h, if_pos ht]
  obtain rfl | rfl := he <;> rfl

theorem readLoop_stopped {calls total : Nat} {reads : Nat → ReadResult} {pipe sigNum : Bytes}
    {err : Errno} (h : (reads 0).returned pipe = .failed err) (ht : sizeofInt ≤ total) :
    readLoop (calls + 1) reads pipe total sigNum = some (.stopped (intOfBytes sigNum)) := by
  rw [readLoop_err h, if_neg (Nat.not_lt.mpr ht)]

theorem transient_of_stopped {calls total : Nat} {reads : Nat → ReadResult} {pipe sigNum : Bytes}
    {err : Errno} {x : BitVec 32} (h : (reads 0).returned pipe = .failed err) (ht : total < sizeofInt)
    (hl : readLoop (calls + 1) reads pipe total sigNum = some (.stopped x)) : Transient err := by
  rw [readLoop_err h, if_pos ht] at hl
  unfold Transient
  match err with
  | .eintr => exact .inl rfl
  | .eagain => exact .inr rfl
  | .epipe => simp at hl
  | .other n => simp at hl

/-- What the loop does up to the next time that it starts again, or to its end. -/
theorem readLoop_attempt {calls : Nat} {reads : Nat → ReadResult} {pipe : Bytes} {x : BitVec 32}
    (h : readLoop calls reads pipe 0 noSigNum = some (.stopped x)) :
    (∃ err, ∃ c < calls, (reads 0).returned pipe = .failed err ∧ Transient err ∧
      readLoop c (fun i => reads (i + 1)) pipe 0 noSigNum = some (.stopped x)) ∨
    ∃ n err, (reads 0).returned pipe = .data n ∧
      (reads 1).returned (pipe.drop (min n sizeofInt)) = .failed err ∧
      ((pipe.take (min n sizeofInt)).length < sizeofInt ∧ Transient err ∧ (∃ c < calls,
          readLoop c (fun i => reads (i + 2)) (pipe.drop (min n sizeofInt)) 0 noSigNum =
            some (.stopped x)) ∨
        (pipe.take (min n sizeofInt)).length = sizeofInt ∧
          x = intOfBytes (pipe.take (min n sizeofInt))) := by
  match calls with
  | 0 => cases h
  | calls + 1 =>
    match hr : (reads 0).returned pipe with
    | .failed err =>
      have he := transient_of_stopped hr (by decide) h
      rw [readLoop_failed hr he (by decide)] at h
      exact .inl ⟨err, calls, by omega, rfl, he, h⟩
    | .data n =>
      have hpos := List.length_pos_iff.mpr (returned_data hr).2
      have hn := n.pos
      have hlen : 0 < (pipe.take (min n sizeofInt)).length ∧
          (pipe.take (min n sizeofInt)).length ≤ sizeofInt := by
        simp only [List.length_take, sizeofInt]
        omega
      rw [readLoop_first hr] at h
      match calls with
      | 0 => cases h
      | calls + 1 =>
        match hr' : (reads 1).returned (pipe.drop (min n sizeofInt)) with
        | .data n' =>
          rw [readLoop_behind hr' hlen.1 hlen.2] at h
          simp at h
        | .failed err =>
          refine .inr ⟨n, err, rfl, hr', ?_⟩
          by_cases hs : (pipe.take (min n sizeofInt)).length < sizeofInt
          · have he := transient_of_stopped hr' hs h
            rw [readLoop_failed hr' he hs] at h
            exact .inl ⟨hs, he, calls, by omega, h⟩
          · have hl : (pipe.take (min n sizeofInt)).length = sizeofInt := by omega
            have hd : noSigNum.drop sizeofInt = [] := rfl
            rw [readLoop_stopped hr' (by omega), hl, hd, List.append_nil, Option.some.injEq,
              ReadOutcome.stopped.injEq] at h
            exact .inr ⟨hl, h.symm⟩

theorem not_stopped_of_short {calls : Nat} {reads : Nat → ReadResult} {pipe : Bytes} {x : BitVec 32}
    (hs : pipe.length < sizeofInt) : readLoop calls reads pipe 0 noSigNum ≠ some (.stopped x) := by
  induction calls using Nat.strong_induction_on generalizing reads pipe with
  | _ calls ih =>
    intro h
    obtain ⟨_, c, hc, -, -, hl⟩ | ⟨n, _, -, -, ⟨-, -, c, hc, hl⟩ | ⟨hl, -⟩⟩ := readLoop_attempt h
    · exact ih c hc hs hl
    · refine ih c hc ?_ hl
      rw [List.length_drop]
      omega
    · rw [List.length_take] at hl
      omega

/-! ## Attempts that are given up -/

/-- The first `k` calls of `read()` are attempts that an error ends before they have all bytes, and so
many bytes are `lost` with them. -/
inductive GivenUp (reads : Nat → ReadResult) : (k lost : Nat) → Prop where
  | none : GivenUp reads 0 0
  | failed {k lost : Nat} {err : Errno} : GivenUp reads k lost → reads k = .failed err →
    Transient err → GivenUp reads (k + 1) lost
  | short {k lost : Nat} {n : ℕ+} {err : Errno} : GivenUp reads k lost → reads k = .data n →
    n < sizeofInt → reads (k + 1) = .failed err → Transient err → GivenUp reads (k + 2) (lost + n)

/-- A call of `read()` gets the bytes of the number at once, and the next one fails. -/
def ReadsAtOnce (reads : Nat → ReadResult) (pipe : Bytes) (x : BitVec 32) : Prop :=
  ∃ k lost, ∃ n : ℕ+, GivenUp reads k lost ∧ reads k = .data n ∧ sizeofInt ≤ n ∧
    (pipe.drop lost).take sizeofInt = intBytes x ∧
    ((∃ err, reads (k + 1) = .failed err) ∨ pipe.length = lost + sizeofInt)

theorem readsAtOnce_of_stopped {calls k lost : Nat} {reads : Nat → ReadResult} {pipe : Bytes}
    {x : BitVec 32} (hg : GivenUp reads k lost)
    (h : readLoop calls (fun i => reads (k + i)) (pipe.drop lost) 0 noSigNum = some (.stopped x)) :
    ReadsAtOnce reads pipe x := by
  induction calls using Nat.strong_induction_on generalizing k lost with
  | _ calls ih =>
    have hlen : sizeofInt ≤ (pipe.drop lost).length := by
      by_contra hlt
      exact not_stopped_of_short (by omega) h
    have hne : pipe.drop lost ≠ [] := List.length_pos_iff.mp (by simp only [sizeofInt] at hlen; omega)
    obtain ⟨err, c, hc, hr, he, hl⟩ | ⟨n, err, hr, hr', hn⟩ := readLoop_attempt h
    · refine ih c hc (hg.failed (returned_failed hne hr) he) ?_
      simpa only [Nat.add_assoc, Nat.add_comm 1] using hl
    · have hdata := (returned_data hr).1
      simp only [List.length_take] at hn
      obtain ⟨hs, he, c, hc, hl⟩ | ⟨hs, rfl⟩ := hn
      · have hmin : min (n : Nat) sizeofInt = n := by omega
        rw [hmin, List.drop_drop] at hr' hl
        have hne : pipe.drop (lost + n) ≠ [] := by
          rw [Ne, List.drop_eq_nil_iff]
          simp only [List.length_drop, sizeofInt] at hlen hs
          omega
        refine ih c hc (hg.short hdata (by omega) (returned_failed hne hr') he) ?_
        simpa only [Nat.add_assoc, Nat.add_comm 2] using hl
      · have hmin : min (n : Nat) sizeofInt = sizeofInt := by omega
        rw [hmin, List.drop_drop] at hr'
        rw [hmin]
        refine ⟨k, lost, n, hg, hdata, by omega, ?_, ?_⟩
        · rw [intBytes_intOfBytes]
          rw [List.length_take]
          omega
        · by_cases hend : pipe.drop (lost + sizeofInt) = []
          · have hend := List.drop_eq_nil_iff.mp hend
            simp only [List.length_drop, sizeofInt] at hlen hend ⊢
            exact .inr (by omega)
          · exact .inl ⟨err, returned_failed hend hr'⟩

theorem returned_wrote {n : ℕ+} {pipe : Bytes} (hp : pipe ≠ []) :
    (ReadResult.data n).returned pipe = .data n := by
  rw [ReadResult.returned, if_neg hp]

theorem GivenUp.stops {k lost calls : Nat} {reads : Nat → ReadResult} {pipe : Bytes}
    {r : ReadOutcome} (hg : GivenUp reads k lost) (hlost : lost < pipe.length)
    (h : readLoop calls (fun i => reads (k + i)) (pipe.drop lost) 0 noSigNum = some r) :
    ∃ calls, readLoop calls reads pipe 0 noSigNum = some r := by
  induction hg generalizing calls with
  | none => exact ⟨calls, by simpa only [Nat.zero_add, List.drop_zero] using h⟩
  | @failed k lost err hg hr he ih =>
    have hf : (reads (k + 0)).returned (pipe.drop lost) = .failed err := by
      rw [Nat.add_zero, hr, ReadResult.returned]
    have hl : readLoop (calls + 1) (fun i => reads (k + i)) (pipe.drop lost) 0 noSigNum = some r := by
      rw [readLoop_failed hf he (by decide)]
      simpa only [Nat.add_assoc, Nat.add_comm 1] using h
    exact ih hlost hl
  | @short k lost n err hg hr hn hr' he ih =>
    have hpos := n.pos
    have hne : pipe.drop lost ≠ [] := by
      rw [Ne, List.drop_eq_nil_iff]
      omega
    have hmin : min (n : Nat) sizeofInt = n := by omega
    have hd : (reads (k + 0)).returned (pipe.drop lost) = .data n := by
      rw [Nat.add_zero, hr, returned_wrote hne]
    have hf : (reads (k + (0 + 1))).returned (pipe.drop (lost + n)) = .failed err := by
      rw [Nat.zero_add, hr', ReadResult.returned]
    have hlen : ((pipe.drop lost).take n).length < sizeofInt := by
      rw [List.length_take]
      omega
    have hl : readLoop (calls + 1 + 1) (fun i => reads (k + i)) (pipe.drop lost) 0 noSigNum =
        some r := by
      rw [readLoop_first hd, hmin, List.drop_drop, readLoop_failed hf he hlen]
      simpa only [Nat.add_assoc, Nat.add_comm 2] using h
    exact ih (by omega) hl

theorem stopped_of_readsAtOnce {reads : Nat → ReadResult} {pipe : Bytes} {x : BitVec 32}
    (h : ReadsAtOnce reads pipe x) :
    ∃ calls, readLoop calls reads pipe 0 noSigNum = some (.stopped x) := by
  obtain ⟨k, lost, n, hg, hd, hn, hx, hend⟩ := h
  have hlen := congrArg List.length hx
  simp only [List.length_take, List.length_drop, intBytes_length] at hlen
  have hmin : min (n : Nat) sizeofInt = sizeofInt := by omega
  have hne : pipe.drop lost ≠ [] := by
    rw [Ne, List.drop_eq_nil_iff]
    simp only [sizeofInt] at hlen
    omega
  have hdata : (reads (k + 0)).returned (pipe.drop lost) = .data n := by
    rw [Nat.add_zero, hd, returned_wrote hne]
  have hfail : ∃ err, (reads (k + (0 + 1))).returned (pipe.drop (lost + sizeofInt)) = .failed err := by
    obtain ⟨err, hf⟩ | hend := hend
    · exact ⟨err, by rw [Nat.zero_add, hf, ReadResult.returned]⟩
    · rw [List.drop_of_length_le (by omega)]
      match reads (k + (0 + 1)) with
      | .failed err => exact ⟨err, rfl⟩
      | .data _ => exact ⟨.eagain, rfl⟩
  obtain ⟨err, hf⟩ := hfail
  have hl : readLoop 2 (fun i => reads (k + i)) (pipe.drop lost) 0 noSigNum = some (.stopped x) := by
    have htotal : noSigNum.drop sizeofInt = [] := rfl
    rw [readLoop_first hdata, hmin, List.drop_drop, readLoop_stopped hf (by rw [hx, intBytes_length]),
      hx, intBytes_length, htotal, List.append_nil, intOfBytes_intBytes]
  exact hg.stops (by simp only [sizeofInt] at hlen; omega) hl

theorem stopped_iff (reads : Nat → ReadResult) (pipe : Bytes) (x : BitVec 32) :
    (∃ calls, readLoop calls reads pipe 0 noSigNum = some (.stopped x)) ↔ ReadsAtOnce reads pipe x := by
  constructor
  · rintro ⟨calls, h⟩
    have hl : readLoop calls (fun i => reads (0 + i)) (pipe.drop 0) 0 noSigNum =
        some (.stopped x) := by
      simpa only [Nat.zero_add, List.drop_zero] using h
    exact readsAtOnce_of_stopped .none hl
  · exact stopped_of_readsAtOnce

/-! ## Requests that come through, exactly -/

/-- The kill pipe passes a request on if and only if each call of `kill()` writes its number at once,
and the runner reads the bytes of the first number at once and nothing behind them. -/
theorem delivers_first_iff (first : KillCall) (more : List KillCall) (reads : Nat → ReadResult) :
    Delivers first more reads ↔
      (∀ k ∈ first :: more, TakesAll k.writes) ∧
        ReadsAtOnce reads ((first :: more).flatMap fun k => intBytes k.sigNum) first.sigNum := by
  constructor
  · rintro ⟨hw, hr⟩
    refine ⟨fun k hk => (writes_sizeofInt_iff k).mp (hw k hk), ?_⟩
    exact (stopped_iff reads _ _).mp (hr _ ((filled_iff hw _).mpr rfl))
  · rintro ⟨hw, hr⟩
    have hw : ∀ k ∈ first :: more, k.Writes (List.range sizeofInt) :=
      fun k hk => (writes_sizeofInt_iff k).mpr (hw k hk)
    refine ⟨hw, fun pipe hp => ?_⟩
    rw [(filled_iff hw pipe).mp hp]
    exact (stopped_iff reads _ _).mpr hr

/-- Two requests to stop, of which each is written at once. -/
def sigtermTwice : KillCall := ⟨15, fun _ => 0, fun _ => .wrote 4⟩

theorem not_delivers_sigtermTwice :
    ¬ Delivers sigtermTwice [sigtermTwice] fun _ => .data 4 := by
  rintro ⟨hw, hr⟩
  have hk : sigtermTwice.Writes (List.range sizeofInt) := ⟨2, by decide⟩
  obtain ⟨calls, h⟩ := hr ([15, 0, 0, 0] ++ [15, 0, 0, 0])
    ⟨[List.range sizeofInt, List.range sizeofInt], .cons hk (.cons hk .nil), by decide⟩
  have hd : (ReadResult.data 4).returned [15, 0, 0, 0] = .data 4 := rfl
  have hd' : (ReadResult.data 4).returned ([15, 0, 0, 0] ++ [15, 0, 0, 0]) = .data 4 := rfl
  match calls with
  | 0 => simp [readLoop] at h
  | 1 =>
    rw [readLoop_first hd'] at h
    simp [readLoop] at h
  | calls + 2 =>
    rw [readLoop_first hd', readLoop_behind hd (by decide) (by decide)] at h
    simp at h

end PgCmdQueue.Runner.KillPipe
