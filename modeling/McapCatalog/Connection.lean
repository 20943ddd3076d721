import McapCatalog.Tables
import McapCatalog.Library.SurvivingState

/-!
# The writer's connection

The one `sqlite3` connection the builder writes through, opened with `isolation_level=""`: the first data
statement opens a transaction, which stays open until a commit or a rollback, **across exceptions too**.

* `Conn` — the committed database, the connection's own view of it, and a script of statement failures;
* `Caches`, `World` — the in-memory id caches and the whole state of the writer;
* `execute`, `query`, `commit`, `withConn` — the calls the builder makes on a connection.  A parameter that
  `sqlite3` cannot bind (text with a lone surrogate, an integer outside 64 bits) raises before the statement
  runs;
* `Env` — the clocks and SHA-256.

The script lists, for the statements to come, whether SQLite fails them with an I/O error and whether it rolls
the transaction back by itself when it does; the empty script is a connection that works.
-/

namespace McapCatalog.Connection

open McapCatalog.PyText McapCatalog.PyError McapCatalog.Tables McapCatalog.RowidTable
open McapCatalog.SurvivingState McapCatalog.SurvivingState.Comp

/-- What else a failing statement does: leave the transaction open, or roll it back. -/
inductive Fault where
  | keep
  | rollBack
  deriving DecidableEq

/-- A connection: what is committed, what this connection sees, which statements will fail. -/
structure Conn where
  committed : Db
  working : Db
  faults : List (Option Fault)

/-- `Caches`: one dictionary per lookup table. -/
structure Caches where
  customer : PyStr → Option ℕ
  site : ℕ × PyStr → Option ℕ
  robot : ℕ × PyStr → Option ℕ
  source : PyStr → Option ℕ
  topic : PyStr → Option ℕ
  schema : PyStr × PyStr → Option ℕ
  topicSet : PyStr → Option ℕ

/-- Empty dictionaries. -/
def Caches.empty : Caches where
  customer := fun _ => none
  site := fun _ => none
  robot := fun _ => none
  source := fun _ => none
  topic := fun _ => none
  schema := fun _ => none
  topicSet := fun _ => none

/-- The state of the writer; `clock` counts the readings of the clocks and of the source. -/
structure World where
  conn : Conn
  caches : Caches
  clock : ℕ

/-- A call of the builder: it returns or raises, and what it did to the world stays done. -/
abbrev Py (α : Type) : Type := Comp World PyErr α

/-- What the program takes from its environment: `hashlib.sha256(text.encode()).hexdigest()`, `time.time_ns()`
and `time.monotonic()` at the n-th reading.  A digest is plain ASCII, and the wall clock reads a positive time
that fits SQLite's integers. -/
structure Env where
  sha256 : PyStr → PyStr
  timeNs : ℕ → ℤ
  monotonic : ℕ → ℤ
  encodable_sha256 : ∀ s, encodable (sha256 s) = true
  timeNs_pos : ∀ t, 0 < timeNs t
  timeNs_lt : ∀ t, timeNs t < 2 ^ 63

/-- The connection's view replaced. -/
def World.setWorking (w : World) (db : Db) : World := { w with conn := { w.conn with working := db } }

/-- The caches replaced. -/
def World.setCaches (w : World) (caches : Caches) : World := { w with caches := caches }

/-- Read a clock or the source: the number of this reading. -/
def tick : Py ℕ := fun w => (.ok w.clock, { w with clock := w.clock + 1 })

/-- `now_ns()`. -/
def nowNs (env : Env) : Py ℤ := do
  let t ← tick
  pure (env.timeNs t)

/-! ### Statements -/

/-- A statement's parameter, where binding it can fail.  Ids, tallies and blobs come from the program itself and
always bind. -/
inductive Param where
  | text (s : PyStr)
  | int (n : ℤ)

/-- What binding one parameter raises. -/
def Param.bindError : Param → Option PyErr
  | .text s => if encodable s then none else some (.unicodeEncodeError s)
  | .int n =>
    if -(2 ^ 63) ≤ n ∧ n < 2 ^ 63 then none
    else some (.overflowError (py "Python int too large to convert to SQLite INTEGER"))

/-- The parameters are bound in order; the first failure is raised. -/
def bindError (params : List Param) : Option PyErr := params.findSome? Param.bindError

/-- The error of a statement that the script fails. -/
def diskError : PyErr := .operationalError (py "disk I/O error")

/-- Take the next entry off the script: the failure of this statement, if it is one. -/
def Conn.next (conn : Conn) : Option Fault × Conn :=
  match conn.faults with
  | [] => (none, conn)
  | none :: faults => (none, { conn with faults := faults })
  | some .keep :: faults => (some .keep, { conn with faults := faults })
  | some .rollBack :: faults => (some .rollBack, { conn with working := conn.committed, faults := faults })

/-- Run one statement on the connection's view. -/
def statement {α : Type} (params : List Param) (run : Db → Except PyErr (α × Db)) : Py α := fun w =>
  match w.conn.next with
  | (some _, conn) => (.error diskError, { w with conn := conn })
  | (none, conn) =>
    match bindError params with
    | some e => (.error e, { w with conn := conn })
    | none =>
      match run conn.working with
      | .error e => (.error e, { w with conn := conn })
      | .ok (a, db) => (.ok a, { w with conn := { conn with working := db } })

/-- `conn.execute(...)` of a statement that can violate a constraint. -/
def executeChecked (params : List Param) (run : Db → Except PyErr Db) : Py Unit :=
  statement params fun db => (run db).map fun db' => ((), db')

/-- `conn.execute(...)` of a statement that cannot fail once its parameters are bound. -/
def execute (params : List Param) (run : Db → Db) : Py Unit := statement params fun db => .ok ((), run db)

/-- A `SELECT`. -/
def query {α : Type} (params : List Param) (read : Db → α) : Py α := statement params fun db => .ok (read db, db)

/-- `conn.execute(...).fetchone()["id"]`: a missing row is a `TypeError`. -/
def queryId (params : List Param) (read : Db → Option ℕ) : Py ℕ := do
  match (← query params read) with
  | some i => pure i
  | none => raise (.typeError (py "'NoneType' object is not subscriptable"))

/-! ### Transactions -/

/-- `conn.commit()`. -/
def commit : Py Unit := fun w =>
  match w.conn.next with
  | (some _, conn) => (.error diskError, { w with conn := conn })
  | (none, conn) => (.ok (), { w with conn := { conn with committed := conn.working } })

/-- `conn.rollback()`. -/
def rollback : Py Unit :=
  change fun w => { w with conn := { w.conn with working := w.conn.committed } }

/-- `with conn:` commits when the body returns and rolls back when it, or the commit, raises. -/
def withConn {α : Type} (body : Py α) : Py α := do
  let r ← attempt (do let a ← body; commit; pure a)
  match r with
  | .ok a => pure a
  | .error e => do rollback; raise e

end McapCatalog.Connection
