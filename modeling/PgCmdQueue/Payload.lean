import PgCmdQueue.Manager.Listen
import PgCmdQueue.Runner.Session

/-!
# Payloads of other senders

Any session may send any text on a channel of the daemon. Here the scanner is described for
every text, and from that what the two loops make of it.
-/

namespace PgCmdQueue.Pq

open Cpp Postgres

variable {input rest x : Bytes} {s : CompositeScan} {i start : Nat} {b c : Byte}
  {depth : Int} {inQuotes : Bool} {result : List (Option Bytes)}

/-! ## The fields of any text -/

def fieldOf (x : Bytes) : Option Bytes := if x = [] then none else some x

/-- The fields that end in a text. `before` is the byte in front of it, and `field` is what
has been read of a field there. -/
def fieldsFrom (depth : Int) (inQuotes : Bool) (before : Byte) (field : Bytes) : Bytes → List (Option Bytes)
  | [] => []
  | c :: rest =>
    if c = ch '(' ∧ ¬ inQuotes then
      fieldsFrom (depth + 1) inQuotes c (if depth + 1 = 1 then [] else field ++ [c]) rest
    else if c = ch ')' ∧ ¬ inQuotes then
      if depth = 1 then fieldOf field :: fieldsFrom (depth - 1) inQuotes c [] rest
      else fieldsFrom (depth - 1) inQuotes c (field ++ [c]) rest
    else if c = ch ',' ∧ ¬ inQuotes then fieldOf field :: fieldsFrom depth inQuotes c [] rest
    else if c = ch '"' ∧ before ≠ ch '\\' then
      if inQuotes then fieldOf field :: fieldsFrom depth false c [] rest
      else fieldsFrom depth true c [] rest
    else fieldsFrom depth inQuotes c (field ++ [c]) rest

/-- The fields of a text that stands behind an opening parenthesis. A comma or a parenthesis
ends no field there if it is the first byte. -/
def payloadFields : Bytes → List (Option Bytes)
  | [] => []
  | c :: rest =>
    if c = ch ',' then fieldsFrom 1 false c [c] rest
    else if c = ch ')' then fieldsFrom 0 false c [c] rest
    else fieldsFrom 1 false (ch '(') [] (c :: rest)

example : payloadFields (ascii "cmd_queue,public.x_cmd,INSERT)") =
    [some (ascii "cmd_queue"), some (ascii "public.x_cmd"), some (ascii "INSERT")] := by decide

/-- What one byte does while no field has ended, in the cases of `fieldsFrom`. -/
theorem compositeScanByte_eq (hc : charAt input i = .ok c)
    (hb : charAt input (posBefore i) = .ok b) :
    compositeScanByte input i ⟨depth, inQuotes, start, 0, result⟩ = .ok (
      if c = ch '(' ∧ ¬ inQuotes then
        ⟨depth + 1, inQuotes, if depth + 1 = 1 then i + 1 else start, 0, result⟩
      else if c = ch ')' ∧ ¬ inQuotes then
        ⟨depth - 1, inQuotes, start, if depth = 1 then posBefore i else 0, result⟩
      else if c = ch ',' ∧ ¬ inQuotes then ⟨depth, inQuotes, start, posBefore i, result⟩
      else if c = ch '"' ∧ b ≠ ch '\\' then
        if inQuotes then ⟨depth, false, start, posBefore i, result⟩
        else ⟨depth, true, i + 1, 0, result⟩
      else ⟨depth, inQuotes, start, 0, result⟩) := by
  simp only [compositeScanByte, hc, hb, bind, Except.bind, pure, Except.pure]
  split
  · split <;> rfl
  split
  · by_cases hdepth : depth = 1
    · rw [if_pos ⟨hdepth, trivial⟩, if_pos hdepth]
    · rw [if_neg fun h => hdepth h.1, if_neg hdepth]
  split
  · rfl
  by_cases hquote : c = ch '"' <;> by_cases hbefore : b = ch '\\' <;> cases inQuotes <;>
    simp [hquote, hbefore]

theorem compositeScanFrom_eq (h : Ahead input start (x ++ rest)) (hstart : 0 < start)
    (hi : 1 < start + x.length) (hlen : start + x.length ≤ input.length)
    (hb : Before input (start + x.length) b) :
    compositeScanFrom input (start + x.length) ⟨depth, inQuotes, start, 0, result⟩ =
      .ok (result ++ fieldsFrom depth inQuotes b x rest) := by
  induction rest generalizing start x b depth inQuotes result with
  | nil =>
    have := h.append.length hlen
    rw [compositeScanFrom_end (by simpa using this.ge), fieldsFrom, List.append_nil]
  | cons c rest ih =>
    have hc := h.append
    have hlt := hc.lt
    have hbefore := before_charAt hb (by omega)
    have hnext : Before input (start + (x ++ [c]).length) c := by
      rw [List.length_append, ← Nat.add_assoc]
      exact before_succ hc.head
    -- The field goes on, or a new one starts behind the byte.
    have hkeep : ∀ depth, compositeScanFrom input (start + x.length + 1)
        ⟨depth, inQuotes, start, 0, result⟩ =
          .ok (result ++ fieldsFrom depth inQuotes c (x ++ [c]) rest) := by
      intro depth
      have hrest := @ih (x ++ [c]) start c depth inQuotes result
        (by simpa using h) hstart (by simp; omega) (by simp; omega) hnext
      simpa [Nat.add_assoc] using hrest
    have hnew : ∀ depth inQuotes result, compositeScanFrom input (start + x.length + 1)
        ⟨depth, inQuotes, start + x.length + 1, 0, result⟩ =
          .ok (result ++ fieldsFrom depth inQuotes c [] rest) := by
      intro depth inQuotes result
      exact ih (x := []) hc.tail (by omega) (by simp; omega) (by simp; omega) (before_succ hc.head)
    have hend : ∀ depth' inQuotes', compositeScanByte input (start + x.length)
        ⟨depth, inQuotes, start, 0, result⟩ =
          .ok ⟨depth', inQuotes', start, posBefore (start + x.length), result⟩ →
        compositeScanFrom input (start + x.length) ⟨depth, inQuotes, start, 0, result⟩ =
          .ok (result ++ fieldOf x :: fieldsFrom depth' inQuotes' c [] rest) := by
      intro depth' inQuotes' hs
      rw [compositeScanFrom_push h hstart hlen hlt hs rfl rfl hi, hnew]
      simp [fieldOf]
    have hbyte := @compositeScanByte_eq input (start + x.length) start b c depth inQuotes result
      hc.charAt hbefore
    unfold fieldsFrom
    split
    · rename_i hopen
      rw [if_pos hopen] at hbyte
      rw [compositeScanFrom_skip hlt hbyte rfl]
      split
      · exact hnew _ _ _
      · exact hkeep _
    rename_i hopen
    rw [if_neg hopen] at hbyte
    split
    · rename_i hclose
      rw [if_pos hclose] at hbyte
      split
      · rename_i hdepth
        rw [if_pos hdepth] at hbyte
        exact hend _ _ hbyte
      · rename_i hdepth
        rw [if_neg hdepth] at hbyte
        rw [compositeScanFrom_skip hlt hbyte rfl, hkeep]
    rename_i hclose
    rw [if_neg hclose] at hbyte
    split
    · rename_i hcomma
      rw [if_pos hcomma] at hbyte
      exact hend _ _ hbyte
    rename_i hcomma
    rw [if_neg hcomma] at hbyte
    split
    · rename_i hquote
      rw [if_pos hquote] at hbyte
      split
      · rename_i hin
        rw [if_pos hin] at hbyte
        exact hend _ _ hbyte
      · rename_i hin
        rw [if_neg hin] at hbyte
        rw [compositeScanFrom_skip hlt hbyte rfl, hnew]
    · rename_i hquote
      rw [if_neg hquote] at hbyte
      rw [compositeScanFrom_skip hlt hbyte rfl, hkeep]

theorem compositeScanFrom_payload (body : Bytes) :
    compositeScanFrom (ch '(' :: body) 0 ⟨0, false, 0, 0, []⟩ = .ok (payloadFields body) := by
  have h : Ahead (ch '(' :: body) 0 (ch '(' :: body) := ahead_zero
  rw [compositeScanFrom_skip (t := ⟨1, false, 1, 0, []⟩) h.lt (by
    simp [compositeScanByte, h.charAt, bind, Except.bind, pure, Except.pure]) rfl]
  cases body with
  | nil => rfl
  | cons c rest =>
    have hc : Ahead (ch '(' :: c :: rest) 1 (c :: rest) := h.tail
    have hlater : ∀ depth, compositeScanFrom (ch '(' :: c :: rest) 2 ⟨depth, false, 1, 0, []⟩ =
        .ok (fieldsFrom depth false c [c] rest) := by
      intro depth
      exact compositeScanFrom_eq (x := [c]) hc (by omega) (by simp) (by simp) (before_succ hc.head)
    have hstep : ∀ t, compositeScanByte (ch '(' :: c :: rest) 1 ⟨1, false, 1, 0, []⟩ = .ok t →
        t.endPos = 0 → compositeScanFrom (ch '(' :: c :: rest) 1 ⟨1, false, 1, 0, []⟩ =
          compositeScanFrom (ch '(' :: c :: rest) 2 t := fun t hs hend =>
      compositeScanFrom_skip hc.lt hs hend
    simp only [compositeScanByte, hc.charAt, before_charAt (before_succ h.head) one_ne_zero, bind,
      Except.bind, pure, Except.pure] at hstep
    rw [payloadFields]
    split
    · subst c
      exact (hstep _ rfl rfl).trans (hlater 1)
    split
    · subst c
      exact (hstep _ rfl rfl).trans (hlater 0)
    rename_i hcomma hclose
    by_cases hopen : c = ch '('
    · subst c
      exact (hstep _ rfl rfl).trans (hlater 2)
    by_cases hquote : c = ch '"'
    · subst c
      exact (hstep _ rfl rfl).trans (compositeScanFrom_eq (x := []) hc.tail (by simp) (by simp)
        (by simp) (before_succ hc.head))
    · rw [hstep ⟨1, false, 1, 0, []⟩ (by simp [hcomma, hclose, hopen, hquote]) rfl, hlater]
      simp [fieldsFrom, hcomma, hclose, hopen, hquote]

theorem fromTextCompositeValue_payload {body : Bytes} (hlast : body.getLast? = some (ch ')'))
    (asserts : Bool) : fromTextCompositeValue asserts (ch '(' :: body) = .ok (payloadFields body) := by
  have hlast' : (ch '(' :: body).getLast? = some (ch ')') := by
    rw [List.getLast?_cons, hlast]
    rfl
  unfold fromTextCompositeValue
  rw [compositeScanFrom_payload, hlast']
  cases asserts <;> rfl

/-- What passes the assertions stands in parentheses. -/
theorem payload_of_asserted {extra : Bytes} {fields : List (Option Bytes)}
    (h : fromTextCompositeValue true extra = .ok fields) :
    ∃ body, extra = ch '(' :: body ∧ body.getLast? = some (ch ')') := by
  cases extra with
  | nil => cases h
  | cons c body =>
    simp only [fromTextCompositeValue, if_true, charAt, List.getElem?_cons_zero, bind,
      Except.bind] at h
    split at h
    · cases h
    rename_i hfirst
    split at h
    · cases h
    rename_i hlast
    rw [not_not] at hlast
    obtain rfl : c = ch '(' := not_not.mp hfirst
    refine ⟨body, rfl, ?_⟩
    cases body with
    | nil => simp +decide at hlast
    | cons d body => rwa [List.getLast?_cons_cons] at hlast

end PgCmdQueue.Pq

namespace PgCmdQueue

open Cpp Postgres Pq

variable {extra : Bytes}

/-! ## The two loops -/

/-- Each loop takes the payload from the queue and goes on, whether it acts on it or not. -/
def LoopsGoOn (extra : Bytes) : Prop :=
  (∀ (cfg : Listen.Config) (s : Listen.State) (unread : List Bytes),
    s.pc = .notifies → s.unread = extra :: unread →
      ∃ t, s.step cfg .notify = some t ∧ t.unread = unread ∧ t.pc ≠ .gone) ∧
  (∀ (cfg : Runner.Config) (s : Runner.State) (unread : List Bytes),
    s.pc = .notifies → s.unread = extra :: unread →
      ∃ t, s.step cfg .notifies = some t ∧ t.unread = unread ∧ t.pc ≠ .gone)

theorem managerGoesOn_iff : (∀ (cfg : Listen.Config) (s : Listen.State) (unread : List Bytes),
    s.pc = .notifies → s.unread = extra :: unread →
      ∃ t, s.step cfg .notify = some t ∧ t.unread = unread ∧ t.pc ≠ .gone) ↔
    ∀ asserts, ∃ change, Listen.isQueueChange asserts extra = .ok change := by
  constructor
  · intro h asserts
    obtain ⟨t, ht, -, hgone⟩ := h ⟨asserts, fun _ => true⟩
      { records := [], pc := .notifies, unread := [extra] } [] rfl rfl
    simp only [Listen.State.step, if_true] at ht
    cases hchange : Listen.isQueueChange asserts extra with
    | ok change => exact ⟨change, rfl⟩
    | error e =>
      rw [hchange] at ht
      cases ht
      exact absurd rfl hgone
  · intro h cfg s unread hpc hunread
    obtain ⟨change, hchange⟩ := h cfg.asserts
    simp only [Listen.State.step, hpc, if_true, hunread, hchange]
    cases change
    · exact ⟨_, rfl, rfl, nofun⟩
    · exact ⟨_, rfl, rfl, nofun⟩

theorem isQueueChange_ok_iff (asserts : Bool) :
    (∃ change, Listen.isQueueChange asserts extra = .ok change) ↔
      ∃ f fs, fromTextCompositeValue asserts extra = .ok (f :: fs) ∧
        (f = some (ascii "cmd_queue") → 2 ≤ fs.length) := by
  unfold Listen.isQueueChange
  cases fromTextCompositeValue asserts extra with
  | error e => simp [bind, Except.bind]
  | ok fields =>
    rcases fields with - | ⟨f, fs⟩
    · simp [Listen.fieldAt, bind, Except.bind]
    · by_cases hf : f = some (ascii "cmd_queue")
      · rcases fs with - | ⟨g, - | ⟨k, fs⟩⟩ <;>
          simp [Listen.fieldAt, hf, bind, Except.bind, pure, Except.pure]
      · simp [Listen.fieldAt, hf, bind, Except.bind, pure, Except.pure]

theorem answerNotify_payload {body : Bytes} (hlast : body.getLast? = some (ch ')'))
    (asserts : Bool) (cmdClassIdentity : Bytes) :
    ∃ n, answerNotify asserts cmdClassIdentity (ch '(' :: body) = .ok n := by
  have hparse : NoAbort (parseNotifyPayload asserts (ch '(' :: body)) := by
    unfold parseNotifyPayload
    rw [fromTextCompositeValue_payload hlast]
    intro expr
    simp only [bind, Except.bind]
    split <;> nofun
  unfold answerNotify
  split
  · exact ⟨_, rfl⟩
  · rename_i expr heq
    exact absurd heq (hparse expr)
  · exact ⟨_, rfl⟩

theorem loopsGoOn_iff (extra : Bytes) : LoopsGoOn extra ↔
    ∃ body, extra = ch '(' :: body ∧ body.getLast? = some (ch ')') ∧
      ∃ f fs, payloadFields body = f :: fs ∧ (f = some (ascii "cmd_queue") → 2 ≤ fs.length) := by
  unfold LoopsGoOn
  rw [managerGoesOn_iff]
  constructor
  · rintro ⟨hmanager, -⟩
    obtain ⟨f, fs, hfields, hlong⟩ := (isQueueChange_ok_iff true).mp (hmanager true)
    obtain ⟨body, rfl, hlast⟩ := payload_of_asserted hfields
    rw [fromTextCompositeValue_payload hlast] at hfields
    exact ⟨body, rfl, hlast, f, fs, Except.ok.inj hfields, hlong⟩
  · rintro ⟨body, rfl, hlast, f, fs, hfields, hlong⟩
    refine ⟨fun asserts => (isQueueChange_ok_iff asserts).mpr ⟨f, fs, ?_, hlong⟩, ?_⟩
    · rw [fromTextCompositeValue_payload hlast, hfields]
    · intro cfg s unread hpc hunread
      obtain ⟨n, hn⟩ := answerNotify_payload hlast cfg.asserts cfg.cmdClassIdentity
      simp only [Runner.State.step, Runner.State.otherStep, Option.none_or,
        Runner.State.runnerStep, hpc, hunread, hn]
      cases n with
      | some n => exact ⟨_, rfl, rfl, nofun⟩
      | none => exact ⟨_, rfl, rfl, nofun⟩

/-- A composite value without any fields. -/
theorem not_loopsGoOn_empty : ¬LoopsGoOn (ascii "()") := by
  rintro ⟨hmanager, -⟩
  obtain ⟨t, ht, -, hgone⟩ := hmanager ⟨false, fun _ => true⟩
    { records := [], pc := .notifies, unread := [ascii "()"] } [] rfl rfl
  have hchange : Listen.isQueueChange false (ascii "()") = .error .outOfRange := by decide
  simp only [Listen.State.step, if_true, hchange] at ht
  cases ht
  exact hgone rfl

end PgCmdQueue
