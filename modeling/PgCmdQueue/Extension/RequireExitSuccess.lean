import PgCmdQueue.Extension.CmdLine
import PgCmdQueue.Postgres.Raises
import PgCmdQueue.RunCmd.Outcome
import PgCmdQueue.Runner.NixStdin

/-!
# The trigger `nix_queue_cmd__require_exit_success`

It raises an error for a command that has failed. What the error tells is put together of the
output of the command. The database has the encoding UTF-8.
-/

namespace PgCmdQueue.Extension

open Cpp Decimal Postgres
open Runner (utf8Legal)

/-- `convert_from(x, 'UTF-8')`. -/
def convertFrom (x : Bytes) : Raises Bytes :=
  if utf8Legal x then .ok x else .error characterNotInRepertoire

def isStateByte (c : Byte) : Bool := (ch '0' ≤ c && c ≤ ch '9') || (ch 'A' ≤ c && c ≤ ch 'Z')

/-- The option `errcode` of RAISE. The names of conditions are in small letters. -/
def recognizeErrCondition (errcode : Bytes) : Raises Bytes :=
  if errcode.length = 5 ∧ errcode.all isStateByte then .ok errcode else .error undefinedObject

/-- `right(x, 3)`. -/
def right3 (x : Bytes) : Bytes := x.drop (x.length - 3)

/-! ## The trigger -/

/-- The columns of NEW that the trigger reads. -/
structure NewNixCmd where
  cmdArgv : List (Option Text)
  cmdEnv : Hstore
  cmdExitCode : Option Int
  cmdTermSig : Option Int
  cmdStdout : Option Bytes
  cmdStderr : Option Bytes

/-- `coalesce(label || convert_from(nullif(output, ''), 'UTF-8'), '')`. -/
def outputText (label : String) (output : Option Bytes) : Raises Bytes :=
  match output with
  | none | some [] => .ok []
  | some x => (convertFrom x).map (ascii label ++ ·)

/-- NULL as soon as the command line is. -/
def NewNixCmd.detail (new : NewNixCmd) : Raises (Option Bytes) := do
  let stderr ← outputText "\ncmd_stderr: " new.cmdStderr
  let stdout ← outputText "\ncmd_stdout: " new.cmdStdout
  return (cmdLine (new.cmdArgv.map (·.map (·.1))) new.cmdEnv (some [])).map fun line =>
    ascii "cmd_line: " ++ (line ++ (stderr ++ stdout))

/-- RAISE with an error code and a detail: no option may be NULL. -/
def raiseException (errcode : Bytes) (detail : Raises (Option Bytes)) : Raises Unit := do
  let errcode ← recognizeErrCondition errcode
  match ← detail with
  | none => throw nullValueNotAllowed
  | some _ => throw errcode

def errcode (class_ : String) (number : Int) : Bytes :=
  ascii class_ ++ right3 (ascii "000" ++ decimalInt number)

/-- The detail of the second error is a format. -/
def requireExitSuccess (new : NewNixCmd) : Raises Unit := do
  match new.cmdExitCode with
  | some code => if 0 < code then raiseException (errcode "PE" code) new.detail
  | none => pure ()
  match new.cmdTermSig with
  | some sig =>
    raiseException (errcode "PS" sig) (do
      match ← new.detail with
      | none => return none
      | some detail => return some (← format detail))
  | none => pure ()

/-! ## Updates of the daemon -/

inductive Outcome where
  | exited (code : Fin 256)
  | signaled (sig : { i : Int // RunCmd.IsStoredSig i })

/-- A finished command and the row that it is stored in. A constraint of the table makes sure that
the outcome is either an exit code or a signal. -/
structure ExitUpdate where
  cmdArgv : List (Option Text)
  cmdEnv : Hstore
  cmdStdout : Bytes
  cmdStderr : Bytes
  outcome : Outcome

def ExitUpdate.new (u : ExitUpdate) : NewNixCmd where
  cmdArgv := u.cmdArgv
  cmdEnv := u.cmdEnv
  cmdExitCode := match u.outcome with
    | .exited code => some code
    | .signaled _ => none
  cmdTermSig := match u.outcome with
    | .exited _ => none
    | .signaled sig => some sig
  cmdStdout := some u.cmdStdout
  cmdStderr := some u.cmdStderr

def ExitUpdate.result (u : ExitUpdate) : Raises Unit := requireExitSuccess u.new

/-- The trigger tells from the outcome alone, and tells each outcome from all others. What else is
stored with the outcome makes no other error of the class. -/
structure ExitUpdate.RaisesItsState (u : ExitUpdate) : Prop where
  returns : u.result = .ok () ↔ u.outcome = .exited 0
  exited : ∀ code, u.outcome = .exited code → code ≠ 0 →
    u.result = .error (ascii "PE" ++ right3 (ascii "000" ++ decimal code))
  signaled : ∀ sig, u.outcome = .signaled sig →
    ∃ code, code.length = 3 ∧ u.result = .error (ascii "PS" ++ code)
  same : ∀ (v : ExitUpdate) (code : Bytes), v.outcome = u.outcome →
    v.result = .error (ch 'P' :: code) → v.result = u.result
  distinct : ∀ v : ExitUpdate, v.outcome ≠ u.outcome → v.result ≠ u.result

/-- What the error is put together of can be converted, and is no format. -/
structure ExitUpdate.Reportable (u : ExitUpdate) : Prop where
  cmdArgv : ∃ x ∈ u.cmdArgv, x ≠ none
  cmdStdout : utf8Legal u.cmdStdout = true
  cmdStderr : utf8Legal u.cmdStderr = true
  signaled : ∀ sig, u.outcome = .signaled sig → 0 < sig.1 ∧
    percentsPaired u.cmdStdout = true ∧ percentsPaired u.cmdStderr = true ∧
      ∀ line ∈ cmdLine (u.cmdArgv.map (·.map (·.1))) u.cmdEnv (some []), percentsPaired line = true

variable {u v : ExitUpdate} {α β : Type} {new : NewNixCmd} {x y state code : Bytes} {n : Nat}

/-! ## The detail -/

def labelled (label : String) (x : Bytes) : Bytes := if x = [] then [] else ascii label ++ x

theorem outputText_eq (label : String) (x : Bytes) : outputText label (some x) =
    if utf8Legal x then .ok (labelled label x) else .error characterNotInRepertoire := by
  cases x with
  | nil => rfl
  | cons c x =>
    show (convertFrom (c :: x)).map _ = _
    unfold convertFrom labelled
    split <;> rfl

theorem cmdLine_eq_none_iff {cmdArgv : List (Option Bytes)} {cmdEnv : Hstore} {cmdStdin : Option Bytes} :
    cmdLine cmdArgv cmdEnv cmdStdin = none ↔ ∀ x ∈ cmdArgv, x = none := by
  have hargs : cmdArgv.reduceOption.map cmdLineWord = [] ↔ ∀ x ∈ cmdArgv, x = none := by
    simp [List.reduceOption, List.filterMap_eq_nil_iff]
  rw [← hargs]
  by_cases h : cmdArgv.reduceOption.map cmdLineWord = [] <;> simp [cmdLine, stringAgg, h]

def detailText (u : ExitUpdate) (line : Bytes) : Bytes :=
  ascii "cmd_line: " ++
    (line ++ (labelled "\ncmd_stderr: " u.cmdStderr ++ labelled "\ncmd_stdout: " u.cmdStdout))

def ExitUpdate.line (u : ExitUpdate) : Option Bytes :=
  cmdLine (u.cmdArgv.map (·.map (·.1))) u.cmdEnv (some [])

theorem detail_ok_iff {text : Bytes} : u.new.detail = .ok (some text) ↔
    utf8Legal u.cmdStderr = true ∧ utf8Legal u.cmdStdout = true ∧ u.line.map (detailText u) = some text := by
  simp only [NewNixCmd.detail, ExitUpdate.new, outputText_eq]
  by_cases hstderr : utf8Legal u.cmdStderr <;> by_cases hstdout : utf8Legal u.cmdStdout <;>
    simp [hstderr, hstdout, ExitUpdate.line, detailText, bind, Except.bind, pure, Except.pure]

theorem percentsPaired_append_labelled (label : String) (hhead : (ascii label).head? = some 10)
    (h : percentsPaired (ascii label) = true) : percentsPaired (x ++ labelled label y) = true ↔
      percentsPaired x = true ∧ percentsPaired y = true := by
  unfold labelled
  split
  · rename_i hy
    simp [hy, percentsPaired]
  · have hhead : (ascii label ++ y).head? ≠ some (ch '%') := by
      rw [List.head?_append, hhead, Option.some_or]
      decide
    rw [percentsPaired_append_iff hhead, percentsPaired_append h]

theorem percentsPaired_detailText {line : Bytes} : percentsPaired (detailText u line) = true ↔
    percentsPaired u.cmdStdout = true ∧ percentsPaired u.cmdStderr = true ∧ percentsPaired line = true := by
  unfold detailText
  rw [percentsPaired_append (by decide +kernel), ← List.append_assoc,
    percentsPaired_append_labelled _ rfl (by decide +kernel),
    percentsPaired_append_labelled _ rfl (by decide +kernel)]
  tauto

/-! ## Errors that are not the own one -/

theorem fromServer_outputText (label : String) (output : Option Bytes) :
    FromServer (outputText label output) := by
  cases output with
  | none => exact fromServer_ok _
  | some x =>
    rw [outputText_eq]
    split
    · exact fromServer_ok _
    · exact fromServer_error (by decide)

theorem fromServer_detail (new : NewNixCmd) : FromServer new.detail :=
  fromServer_bind (fromServer_outputText _ _) fun _ => fromServer_bind (fromServer_outputText _ _) fun _ =>
    fromServer_ok _

/-! ## The own errors -/

/-- A text that can be an SQLSTATE. -/
def IsState (x : Bytes) : Prop := x.length = 5 ∧ x.all isStateByte = true

instance (x : Bytes) : Decidable (IsState x) := inferInstanceAs (Decidable (_ ∧ _))

def Raised (code : Bytes) (detail : Raises (Option Bytes)) : Prop :=
  IsState code ∧ ∃ text, detail = .ok (some text)

theorem raiseException_of_raised {detail : Raises (Option Bytes)} (h : Raised code detail) :
    raiseException code detail = .error code := by
  obtain ⟨⟨hlength, hbytes⟩, text, rfl⟩ := h
  simp [raiseException, recognizeErrCondition, hlength, hbytes, bind, Except.bind]
  rfl

theorem fromServer_of_not_raised {detail : Raises (Option Bytes)} (hdetail : FromServer detail)
    (h : ¬Raised code detail) : FromServer (raiseException code detail) := by
  unfold raiseException recognizeErrCondition
  split
  · rename_i hcode
    show FromServer (detail >>= _)
    rcases detail with state | _ | text
    · exact fromServer_error (hdetail state rfl)
    · exact fromServer_error (by decide)
    · exact absurd ⟨hcode, text, rfl⟩ h
  · exact fromServer_error (by decide)

theorem raiseException_ne_ok {detail : Raises (Option Bytes)} : raiseException code detail ≠ .ok () := by
  unfold raiseException recognizeErrCondition
  split
  · rcases detail with state | _ | text <;> nofun
  · nofun

/-- The detail of the error for a signal. -/
def formatDetail (detail : Raises (Option Bytes)) : Raises (Option Bytes) := do
  match ← detail with
  | none => return none
  | some detail => return some (← format detail)

theorem formatDetail_ok_iff {detail : Raises (Option Bytes)} :
    (∃ text, formatDetail detail = .ok (some text)) ↔
      ∃ text, detail = .ok (some text) ∧ percentsPaired text = true := by
  rcases detail with state | _ | text
  · simp [formatDetail, bind, Except.bind]
  · simp [formatDetail, bind, Except.bind, pure, Except.pure]
  · have hformat : formatDetail (.ok (some text)) = (format text).map some := rfl
    rw [hformat]
    rcases hresult : format text with state | formatted <;> simp [Except.map, ← format_ok_iff, hresult]

theorem fromServer_formatDetail {detail : Raises (Option Bytes)} (h : FromServer detail) :
    FromServer (formatDetail detail) := by
  refine fromServer_bind h fun text => ?_
  cases text with
  | none => exact fromServer_ok _
  | some text => exact fromServer_bind (fromServer_format text) fun _ => fromServer_ok _

/-! ## Three digits -/

theorem right3_decimal (h : n < 1000) :
    ∃ zeros, right3 (ascii "000" ++ decimal n) = List.replicate zeros (digit 0) ++ decimal n ∧
      zeros + (decimal n).length = 3 := by
  have hlength : (decimal n).length ≤ 3 := length_decimal_le (by omega) h
  refine ⟨3 - (decimal n).length, ?_, by omega⟩
  have hzeros : ascii "000" = List.replicate 3 (digit 0) := rfl
  simp only [right3, hzeros, List.length_append, List.length_replicate, Nat.add_sub_cancel_left]
  rw [List.drop_append_of_le_length (by simpa using hlength), List.drop_replicate]

theorem isStateByte_of_isDigit {c : Byte} (h : isDigit c = true) : isStateByte c = true := by
  unfold isStateByte
  rw [Bool.or_eq_true]
  exact .inl h

theorem errcode_eq (class_ : String) (h : n < 1000) :
    ∃ zeros, errcode class_ n = ascii class_ ++ (List.replicate zeros (digit 0) ++ decimal n) ∧
      zeros + (decimal n).length = 3 := by
  obtain ⟨zeros, hcode, hlength⟩ := right3_decimal h
  exact ⟨zeros, congrArg (ascii class_ ++ ·) hcode, hlength⟩

theorem isState_errcode {class_ : String} (hlength : (ascii class_).length = 2)
    (hclass : (ascii class_).all isStateByte = true) (h : n < 1000) :
    IsState (errcode class_ n) := by
  obtain ⟨zeros, hcode, hdigits⟩ := errcode_eq class_ h
  have hzero : isStateByte (digit 0) = true := by decide
  rw [hcode]
  constructor
  · simp only [List.length_append, List.length_replicate, hlength]
    omega
  · simp only [List.all_append, hclass, Bool.true_and, Bool.and_eq_true, List.all_eq_true]
    refine ⟨fun c hc => ?_, fun c hc => isStateByte_of_isDigit (digits_decimal hc)⟩
    rwa [List.eq_of_mem_replicate hc]

theorem errcode_inj (class_ : String) {m : Nat} (hm : m < 1000) (hn : n < 1000)
    (h : errcode class_ m = errcode class_ n) : m = n := by
  obtain ⟨j, hcode, -⟩ := errcode_eq class_ hm
  obtain ⟨k, hcode', -⟩ := errcode_eq class_ hn
  rw [hcode, hcode'] at h
  have h := congrArg value (List.append_cancel_left h)
  rwa [value_zeros, value_zeros, value_decimal, value_decimal] at h

/-! ## The error of an outcome -/

def Outcome.sqlstate : Outcome → Bytes
  | .exited code => errcode "PE" code
  | .signaled sig => errcode "PS" sig

def ExitUpdate.raisedDetail (u : ExitUpdate) : Raises (Option Bytes) :=
  match u.outcome with
  | .exited _ => u.new.detail
  | .signaled _ => formatDetail u.new.detail

theorem result_success (h : u.outcome = .exited 0) : u.result = .ok () := by
  simp only [ExitUpdate.result, requireExitSuccess, ExitUpdate.new, h]
  rfl

theorem result_failure (h : u.outcome ≠ .exited 0) :
    u.result = raiseException u.outcome.sqlstate u.raisedDetail := by
  rcases houtcome : u.outcome with code | sig
  · have hpos : 0 < (code.val : Int) := by
      rw [Int.natCast_pos, Nat.pos_iff_ne_zero, Fin.val_ne_zero_iff]
      rintro rfl
      exact h houtcome
    have hresult : u.result = raiseException (errcode "PE" code) u.new.detail >>= fun _ =>
        match u.new.cmdTermSig with
        | some sig => raiseException (errcode "PS" sig) (formatDetail u.new.detail)
        | none => pure () := by
      simp only [ExitUpdate.result, requireExitSuccess]
      simp only [ExitUpdate.new, houtcome, if_pos hpos]
    rw [hresult, ExitUpdate.raisedDetail, houtcome]
    show _ = raiseException (errcode "PE" code) u.new.detail
    rcases hraise : raiseException (errcode "PE" code) u.new.detail with state | ⟨⟩
    · rfl
    · exact absurd hraise raiseException_ne_ok
  · simp only [ExitUpdate.result, requireExitSuccess, ExitUpdate.raisedDetail, houtcome]
    simp only [ExitUpdate.new, houtcome]
    rfl

theorem isState_signaled {sig : { i : Int // RunCmd.IsStoredSig i }} :
    IsState (Outcome.signaled sig).sqlstate ↔ 0 < sig.1 := by
  obtain ⟨sig, rfl | rfl | ⟨hpos, hlt⟩⟩ := sig
  · decide
  · decide
  · obtain ⟨n, rfl⟩ := Int.eq_ofNat_of_zero_le hpos.le
    exact iff_of_true (isState_errcode rfl (by decide) (by omega)) hpos

theorem isState_exited (i : Fin 256) : IsState (Outcome.exited i).sqlstate :=
  isState_errcode rfl (by decide) (by omega)

theorem sqlstate_inj {o o' : Outcome} (ho : IsState o.sqlstate) (h : o.sqlstate = o'.sqlstate) : o = o' := by
  have hclass (class_ class' : String) (i j : Int)
      (hlength : (ascii class_).length = 2 ∧ (ascii class').length = 2)
      (h : errcode class_ i = errcode class' j) : ascii class_ = ascii class' :=
    (List.append_inj h (hlength.1.trans hlength.2.symm)).1
  have ho' : IsState o'.sqlstate := h ▸ ho
  rcases o with i | sig <;> rcases o' with j | sig'
  · have hnumber : i.val = j.val := errcode_inj "PE" (by omega) (by omega) h
    rw [Fin.ext hnumber]
  · exact absurd (hclass _ _ _ _ ⟨rfl, rfl⟩ h) (by decide)
  · exact absurd (hclass _ _ _ _ ⟨rfl, rfl⟩ h) (by decide)
  · rw [isState_signaled] at ho ho'
    obtain ⟨i, hi⟩ := Int.eq_ofNat_of_zero_le ho.le
    obtain ⟨j, hj⟩ := Int.eq_ofNat_of_zero_le ho'.le
    have hlt : sig.1 < 127 ∧ sig'.1 < 127 := by
      have := sig.2
      have := sig'.2
      unfold RunCmd.IsStoredSig at *
      omega
    have hnumber : i = j := by
      refine errcode_inj "PS" (by omega) (by omega) ?_
      rw [← hi, ← hj]
      exact h
    rw [Subtype.ext (hi.trans (hnumber ▸ hj.symm))]

theorem exists_line_iff : (∃ line, u.line = some line) ↔ ∃ x ∈ u.cmdArgv, x ≠ none := by
  rw [← Option.ne_none_iff_exists', ExitUpdate.line, ne_eq, cmdLine_eq_none_iff]
  simp

theorem raised_iff : Raised u.outcome.sqlstate u.raisedDetail ↔ u.Reportable := by
  rcases houtcome : u.outcome with code | sig
  · have hraised : Raised (Outcome.exited code).sqlstate u.raisedDetail ↔
        ∃ text, u.new.detail = .ok (some text) := by
      simp only [Raised, isState_exited, true_and, ExitUpdate.raisedDetail, houtcome]
    rw [hraised]
    constructor
    · rintro ⟨text, h⟩
      obtain ⟨hstderr, hstdout, hline⟩ := detail_ok_iff.mp h
      obtain ⟨line, hline, -⟩ := Option.map_eq_some_iff.mp hline
      exact ⟨exists_line_iff.mp ⟨line, hline⟩, hstdout, hstderr, fun sig h => by simp [houtcome] at h⟩
    · intro h
      obtain ⟨line, hline⟩ := exists_line_iff.mpr h.cmdArgv
      exact ⟨_, detail_ok_iff.mpr ⟨h.cmdStderr, h.cmdStdout, by rw [hline]; rfl⟩⟩
  · have hraised : Raised (Outcome.signaled sig).sqlstate u.raisedDetail ↔
        0 < sig.1 ∧ ∃ text, u.new.detail = .ok (some text) ∧ percentsPaired text = true := by
      simp only [Raised, isState_signaled, ExitUpdate.raisedDetail, houtcome, formatDetail_ok_iff]
    rw [hraised]
    constructor
    · rintro ⟨hpos, text, h, htext⟩
      obtain ⟨hstderr, hstdout, hdetail⟩ := detail_ok_iff.mp h
      obtain ⟨line, hline, rfl⟩ := Option.map_eq_some_iff.mp hdetail
      obtain ⟨hstdout', hstderr', hpaired⟩ := percentsPaired_detailText.mp htext
      refine ⟨exists_line_iff.mp ⟨line, hline⟩, hstdout, hstderr, fun sig' h => ?_⟩
      obtain rfl : sig = sig' := Outcome.signaled.inj (houtcome.symm.trans h)
      refine ⟨hpos, hstdout', hstderr', fun line' hline' => ?_⟩
      obtain rfl : line = line' := Option.some.inj (hline.symm.trans hline')
      exact hpaired
    · intro h
      obtain ⟨line, hline⟩ := exists_line_iff.mpr h.cmdArgv
      obtain ⟨hpos, hstdout, hstderr, hpaired⟩ := h.signaled sig houtcome
      refine ⟨hpos, _, detail_ok_iff.mpr ⟨h.cmdStderr, h.cmdStdout, by rw [hline]; rfl⟩, ?_⟩
      exact percentsPaired_detailText.mpr ⟨hstdout, hstderr, hpaired line hline⟩

/-! ## Which updates raise the error of their outcome -/

theorem result_of_raised (houtcome : u.outcome ≠ .exited 0) (h : Raised u.outcome.sqlstate u.raisedDetail) :
    u.result = .error u.outcome.sqlstate :=
  (result_failure houtcome).trans (raiseException_of_raised h)

theorem fromServer_result (houtcome : u.outcome ≠ .exited 0)
    (h : ¬Raised u.outcome.sqlstate u.raisedDetail) : FromServer u.result := by
  rw [result_failure houtcome]
  refine fromServer_of_not_raised ?_ h
  unfold ExitUpdate.raisedDetail
  split
  · exact fromServer_detail _
  · exact fromServer_formatDetail (fromServer_detail _)

theorem head_sqlstate (o : Outcome) : o.sqlstate.head? = some (ch 'P') := by
  cases o <;> rfl

/-- An error of the class P is the own error of the outcome. -/
theorem result_of_head (h : u.result = .error state) (hstate : state.head? = some (ch 'P')) :
    state = u.outcome.sqlstate := by
  have houtcome : u.outcome ≠ .exited 0 := by
    intro houtcome
    rw [result_success houtcome] at h
    cases h
  have hraised : Raised u.outcome.sqlstate u.raisedDetail := by
    by_contra hraised
    exact fromServer_result houtcome hraised _ h hstate
  rw [result_of_raised houtcome hraised] at h
  exact (Except.error.inj h).symm

/-- The own error of an outcome is raised for no other outcome. -/
theorem outcome_of_result {o : Outcome} (ho : IsState o.sqlstate) (h : u.result = .error o.sqlstate) :
    u.outcome = o :=
  (sqlstate_inj ho (result_of_head h (head_sqlstate o))).symm

theorem result_ne_ok (h : u.outcome ≠ .exited 0) : u.result ≠ .ok () := by
  rw [result_failure h]
  exact raiseException_ne_ok

/-- A command that fails is told apart by its error if its output can be told in the detail. -/
theorem raisesItsState_iff (u : ExitUpdate) : u.RaisesItsState ↔ u.outcome = .exited 0 ∨ u.Reportable := by
  constructor
  · intro h
    by_cases houtcome : u.outcome = .exited 0
    · exact .inl houtcome
    right
    by_contra hreportable
    rw [← raised_iff] at hreportable
    have hserver := fromServer_result houtcome hreportable
    rcases hcase : u.outcome with code | sig
    · have hcode : code ≠ 0 := by
        rintro rfl
        exact houtcome hcase
      exact hserver _ (h.exited code hcase hcode) rfl
    · obtain ⟨code, -, hresult⟩ := h.signaled sig hcase
      exact hserver _ hresult rfl
  · intro h
    by_cases houtcome : u.outcome = .exited 0
    · have hresult := result_success houtcome
      refine ⟨iff_of_true hresult houtcome, fun code hcode hne => ?_, fun sig hsig => ?_,
        fun v _ hv _ => ?_, fun v hv => ?_⟩
      · exact absurd (Outcome.exited.inj (hcode.symm.trans houtcome)) hne
      · rw [houtcome] at hsig
        cases hsig
      · rw [hresult]
        exact result_success (hv.trans houtcome)
      · rw [hresult]
        exact result_ne_ok (houtcome ▸ hv)
    · have hraised := raised_iff.mpr (h.resolve_left houtcome)
      have hresult := result_of_raised houtcome hraised
      refine ⟨iff_of_false (result_ne_ok houtcome) houtcome, fun code hcode _ => ?_, fun sig hsig => ?_,
        fun v code hv h => ?_, fun v hv => ?_⟩
      · rw [hresult, hcode]
        rfl
      · have hlength : (ascii "PS" ++ right3 (ascii "000" ++ decimalInt sig)).length = 2 + 3 := by
          rw [hsig] at hraised
          exact hraised.1.1
        rw [List.length_append] at hlength
        rw [hresult, hsig]
        exact ⟨right3 (ascii "000" ++ decimalInt sig), Nat.add_left_cancel hlength, rfl⟩
      · rw [h, hresult, result_of_head h rfl, hv]
      · rw [hresult]
        exact fun h => hv (outcome_of_result hraised.1 h)

/-- A command that fails and complains in Latin-1. -/
def latin : ExitUpdate where
  cmdArgv := [some ⟨ascii "latin", by decide⟩]
  cmdEnv := ∅
  cmdStdout := []
  cmdStderr := ascii "caf" ++ [233]
  outcome := .exited ⟨3, by decide⟩

theorem not_raisesItsState_latin : ¬latin.RaisesItsState := by
  intro h
  have hresult : latin.result = .error (ascii "PE003") := h.exited _ rfl (by decide)
  have hlatin : latin.result = .error characterNotInRepertoire := rfl
  rw [hlatin] at hresult
  exact absurd (Except.error.inj hresult) (by decide)

example : ExitUpdate.result { latin with outcome := .signaled ⟨-1, .inl rfl⟩, cmdStderr := [] } =
    .error undefinedObject := rfl

/-! ## What runs store -/

/-- What `run_cmd` stores is one of the outcomes, unless it is both or nothing. -/
theorem exists_update_run {c : RunCmd.Call} {s : RunCmd.State} {clock : ℚ} {tr : List RunCmd.Event}
    (h : Transition.Run (RunCmd.Step c) (RunCmd.init c clock) tr s)
    (hone : s.cmdExitCode.isSome ≠ s.cmdTermSig.isSome) (cmdArgv : List (Option Text))
    (cmdEnv : Hstore) : ∃ u : ExitUpdate, u.new =
      ⟨cmdArgv, cmdEnv, s.cmdExitCode, s.cmdTermSig, some s.cmdStdout, some s.cmdStderr⟩ := by
  obtain ⟨hsig, hcode⟩ := RunCmd.stored_run h
  rcases hcode' : s.cmdExitCode with _ | code <;> rcases hsig' : s.cmdTermSig with _ | sig
  · simp [hcode', hsig'] at hone
  · exact ⟨⟨cmdArgv, cmdEnv, s.cmdStdout, s.cmdStderr, .signaled ⟨sig, hsig sig hsig'⟩⟩, rfl⟩
  · obtain ⟨i, rfl⟩ := hcode code hcode'
    exact ⟨⟨cmdArgv, cmdEnv, s.cmdStdout, s.cmdStderr, .exited i⟩, rfl⟩
  · simp [hcode', hsig'] at hone

end PgCmdQueue.Extension
