import PgCmdQueue.Runner.Iteration

/-!
# Notices while an SQL command runs

libpq calls the notice receiver of the connection with an untyped argument, and clears the result
that holds the notice when the receiver returns. A fault ends the process.
-/

namespace PgCmdQueue.Runner.Notices

open Iteration

variable {R X α : Type}

/-! ## Memory -/

/-- The address of an object. A `void *` is an optional one. -/
abbrev Addr := Nat

inductive Fault where
  | nullPointer
  | dangling
  | doubleFree
  deriving DecidableEq

/-- A `PGresult` that libpq makes for a notice. -/
structure Notice where
  result : Addr
  errorField : Char → Option String

def Notice.errorFields (n : Notice) : ErrorFields :=
  pgDiagFields.map fun field => (field, n.errorField field)

/-- `nonfatalErrors` has the member `cmd_sql_nonfatal_errors` of each live command, `results` what
is allocated for notices, and `cleared` the calls of `PQclear()` for them. -/
structure Memory where
  nonfatalErrors : Addr → Option (List ErrorFields)
  results : List Addr := []
  cleared : List Addr := []

def Memory.clear (m : Memory) (result : Addr) : Except Fault Memory :=
  if result ∈ m.results then
    .ok { m with results := m.results.erase result, cleared := m.cleared ++ [result] }
  else .error .doubleFree

/-- `cmd_sql_nonfatal_errors.emplace_back` of the command at `this`. -/
def Memory.emplaceBack (m : Memory) (this : Option Addr) (e : ErrorFields) : Except Fault Memory :=
  match this with
  | none => .error .nullPointer
  | some addr =>
    match m.nonfatalErrors addr with
    | none => .error .dangling
    | some es => .ok { m with
        nonfatalErrors := fun a => if a = addr then some (es ++ [e]) else m.nonfatalErrors a }

/-! ## Receivers -/

abbrev NoticeReceiver := Option Addr → Notice → Memory → Except Fault Memory

structure Conn where
  noticeReceiver : NoticeReceiver
  arg : Option Addr

/-- The one that libpq begins with writes to stderr. -/
def defaultNoticeReceiver : NoticeReceiver := fun _ _ m => .ok m

/-- The `PG::result` that holds the notice clears it when it goes out of scope. -/
def receiveNotice (this : Option Addr) (res : Notice) (m : Memory) : Except Fault Memory := do
  let m ← m.emplaceBack this res.errorFields
  m.clear res.result

def receiveNoticeCWrapper : NoticeReceiver := fun arg res m => receiveNotice arg res m

/-- What libpq does with a notice. -/
def Conn.notice (conn : Conn) (m : Memory) (n : Notice) : Except Fault Memory := do
  let m ← conn.noticeReceiver conn.arg n { m with results := n.result :: m.results }
  m.clear n.result

def Conn.deliver (conn : Conn) (ns : List Notice) (m : Memory) : Except Fault Memory :=
  ns.foldlM conn.notice m

/-! ## The run of a command -/

/-- What comes back for the statements of a run, one after the other. -/
structure Server (R : Type) where
  result : Nat → Result R
  notices : Nat → List Notice
  status : Nat → Transaction.Status

/-- The program from its `k`th statement on. The notices come before the result. -/
def Conn.run (conn : Conn) (server : Server R) : Prog R X α → Nat → Memory → Except Fault (α × Memory)
  | .ret a, _, m => .ok (a, m)
  | .exec _ next, k, m => do
    let m ← conn.deliver (server.notices k) m
    conn.run server (next (server.result k)) (k + 1) m
  | .status next, k, m => conn.run server (next (server.status k)) k m
  | .mark _ next, k, m => conn.run server next k m

/-- `PQsetNoticeReceiver` is given the wrapper and a null pointer, and at the end the receiver
from before. -/
def runCmd (server : Server R) (does : Does R X) (conn : Conn) (m : Memory) :
    Except Fault (SqlRun × Conn × Memory) := do
  let oldReceiver := conn.noticeReceiver
  let conn : Conn := { noticeReceiver := receiveNoticeCWrapper, arg := none }
  let (c, m) ← conn.run server (SqlRun.runCmd does) 0 m
  return (c, { noticeReceiver := oldReceiver, arg := none }, m)

/-- The notices that the server emits in the course of the program. -/
def emitted (server : Server R) : Prog R X α → Nat → List Notice
  | .ret _, _ => []
  | .exec _ next, k => server.notices k ++ emitted server (next (server.result k)) (k + 1)
  | .status next, k => emitted server (next (server.status k)) k
  | .mark _ next, k => emitted server next k

/-- The run comes to its end. The notices `ns` are in the command at `this` in order, in no other
command, and each one is cleared once. -/
def Collects (this : Addr) (ns : List Notice) (m : Memory) (run : Except Fault (SqlRun × Conn × Memory)) :
    Prop :=
  ∃ c conn m', run = .ok (c, conn, m') ∧
    m'.nonfatalErrors this = some (ns.map Notice.errorFields) ∧
    (∀ a, a ≠ this → m'.nonfatalErrors a = m.nonfatalErrors a) ∧
    m'.results = m.results ∧ m'.cleared = m.cleared ++ ns.map Notice.result

variable {conn : Conn} {server : Server R} {m : Memory} {n : Notice} {ns : List Notice} {this : Addr}

/-- The program only sees the results, so the notices can be told apart from it. -/
theorem run_eq (conn : Conn) (server : Server R) (prog : Prog R X α) (k : Nat) :
    ∃ a, ∀ m, conn.run server prog k m =
      (conn.deliver (emitted server prog k) m).map fun m' => (a, m') := by
  induction prog generalizing k with
  | ret a => exact ⟨a, fun _ => rfl⟩
  | exec stmt next ih =>
    obtain ⟨a, ha⟩ := ih (server.result k) (k + 1)
    refine ⟨a, fun m => ?_⟩
    unfold Conn.run emitted Conn.deliver
    rw [List.foldlM_append]
    cases hm : List.foldlM conn.notice m (server.notices k) with
    | error fault => rfl
    | ok m' => exact ha m'
  | status next ih => exact ih (server.status k) k
  | mark mk next ih => exact ih k

/-- With a null pointer for the argument the first notice ends the process. -/
theorem deliver_null (n : Notice) (ns : List Notice) (m : Memory) :
    ({ noticeReceiver := receiveNoticeCWrapper, arg := none } : Conn).deliver (n :: ns) m =
      .error .nullPointer := rfl

/-- libpq's own receiver leaves the memory as it is. -/
theorem notice_default (arg : Option Addr) (m : Memory) (n : Notice) :
    ({ noticeReceiver := defaultNoticeReceiver, arg := arg } : Conn).notice m n =
      .ok { m with cleared := m.cleared ++ [n.result] } := by
  unfold Conn.notice defaultNoticeReceiver
  simp [bind, Except.bind, Memory.clear]

/-- Nor would it do to pass the command: the notice is then recorded, and cleared twice. -/
theorem deliver_this {es : List ErrorFields} (hlive : m.nonfatalErrors this = some es)
    (hnew : n.result ∉ m.results) :
    ({ noticeReceiver := receiveNoticeCWrapper, arg := some this } : Conn).deliver (n :: ns) m =
      .error .doubleFree := by
  unfold Conn.deliver Conn.notice receiveNoticeCWrapper receiveNotice
  simp [bind, Except.bind, Memory.emplaceBack, Memory.clear, hlive, hnew]

theorem runCmd_eq (server : Server R) (does : Does R X) (conn : Conn) :
    ∃ c : SqlRun, ∀ m, runCmd server does conn m =
      (({ noticeReceiver := receiveNoticeCWrapper, arg := none } : Conn).deliver
        (emitted server (SqlRun.runCmd does) 0) m).map fun m' =>
          (c, { noticeReceiver := conn.noticeReceiver, arg := none }, m') := by
  obtain ⟨c, hc⟩ := run_eq { noticeReceiver := receiveNoticeCWrapper, arg := none } server
    (SqlRun.runCmd does) 0
  refine ⟨c, fun m => ?_⟩
  unfold runCmd
  dsimp only
  rw [hc m]
  cases hm : ({ noticeReceiver := receiveNoticeCWrapper, arg := none } : Conn).deliver
      (emitted server (SqlRun.runCmd does) 0) m with
  | error fault => rfl
  | ok m' => rfl

/-- No notice is ever collected. The run is only what it should be where there is none. -/
theorem collects_iff (server : Server R) (does : Does R X) (conn : Conn)
    (hlive : m.nonfatalErrors this = some []) :
    Collects this (emitted server (SqlRun.runCmd does) 0) m (runCmd server does conn m) ↔
      emitted server (SqlRun.runCmd does) 0 = [] := by
  obtain ⟨c, hc⟩ := runCmd_eq server does conn
  rw [hc m]
  cases hns : emitted server (SqlRun.runCmd does) 0 with
  | nil =>
    refine iff_of_true ⟨c, _, m, rfl, hlive, fun _ _ => rfl, rfl, ?_⟩ rfl
    rw [List.map_nil, List.append_nil]
  | cons n ns =>
    refine iff_of_false (fun h => ?_) nofun
    obtain ⟨_, _, _, hrun, -⟩ := h
    rw [deliver_null] at hrun
    cases hrun

/-! ## A command with a notice -/

/-- All statements are answered, and only the second one, the command itself, emits something. -/
def withNotices (ns : List Notice) : Server Unit where
  result _ := .ok { status := .commandOk }
  notices k := if k = 1 then ns else []
  status _ := .inTrans

def skippingNotice : Notice where
  result := 8
  errorField field := if field = 'M' then some "table does not exist, skipping" else none

/-- The command that is run, and nothing else. -/
def oneCommand : Memory where
  nonfatalErrors a := if a = 1 then some [] else none

theorem collects_quiet : Collects 1 [] oneCommand
    (runCmd (withNotices []) ({} : Does Unit Unit) { noticeReceiver := defaultNoticeReceiver, arg := none }
      oneCommand) :=
  (collects_iff (withNotices []) {} { noticeReceiver := defaultNoticeReceiver, arg := none } rfl).mpr rfl

theorem not_collects_skippingNotice :
    emitted (withNotices [skippingNotice]) (SqlRun.runCmd ({} : Does Unit Unit)) 0 = [skippingNotice] ∧
    ¬Collects 1 [skippingNotice] oneCommand
      (runCmd (withNotices [skippingNotice]) ({} : Does Unit Unit)
        { noticeReceiver := defaultNoticeReceiver, arg := none } oneCommand) := by
  refine ⟨rfl, ?_⟩
  rintro ⟨_, _, _, hrun, -⟩
  cases hrun

end PgCmdQueue.Runner.Notices
