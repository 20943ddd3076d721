import McapCatalog.Library.Cleanup
import McapCatalog.Publish
import McapCatalog.Worker

/-!
# The builder's process

`main` and `_locked_main` of `__main__.py`: the command line is checked, the writer lock is taken, the catalog is brought up to
date in place or built anew and published, and then, unless that was all, producers are started and the worker's loop runs until
it is stopped.  Any call can raise, or be the one that the process dies in.

* `Args`, `usageError` — the arguments that `main` reads, and what it refuses;
* `Process`, `Course` — what a process holds, and what happens to it: which call ends it and how, the publish, the statements
  that fail, the items of the queue;
* `startUp`, `startThreads`, `tearDown`, `lockedMain`, `main` — the process, in the order of the source.
-/

namespace McapCatalog.Daemon

open McapCatalog.PyText McapCatalog.PyError McapCatalog.Storage McapCatalog.Connection McapCatalog.Tables
open McapCatalog.CatalogDb McapCatalog.Builder McapCatalog.Reconcile McapCatalog.Worker McapCatalog.Publish
open McapCatalog.SurvivingState McapCatalog.SurvivingState.Comp

/-! ### The command line -/

/-- `--source`. -/
inductive Backend where
  | localTree
  | s3
  | gcs
  deriving DecidableEq

/-- The arguments that decide what a process does. -/
structure Args where
  source : Backend
  watchRoot : PyStr
  s3Bucket : Option PyStr
  sqsUrl : Option PyStr
  gcsBucket : Option PyStr
  tagSocket : Option PyStr
  once : Bool
  rebuild : Bool
  noWatch : Bool
  extractWorkers : Workers

/-- The truth value of an argument: it was given, and is not empty. -/
def given (arg : Option PyStr) : Bool := arg.any fun text => text ≠ []

/-- What `main` logs before it returns 2; `isDir` is `os.path.isdir(args.watch_root)`. -/
def usageError (args : Args) (isDir : Bool) : Option PyStr :=
  match args.source with
  | .s3 =>
    if !given args.s3Bucket then some (py "--source s3 requires --s3-bucket")
    else if !args.once && !args.noWatch && !given args.sqsUrl then
      some (py ("--source s3 requires --sqs-url (or pass --once for a one-shot " ++
        "reconcile, or --no-watch for a rescan-only daemon)"))
    else none
  | .gcs => if !given args.gcsBucket then some (py "--source gcs requires --gcs-bucket") else none
  | .localTree => if !isDir then some (py "watch_root is not a directory: " ++ args.watchRoot) else none

/-! ### A process -/

/-- The calls of `main` that can raise, or that a process can die in; what fails inside the publish, the reconcile and the
worker's loop is listed apart. -/
inductive Call where
  | client
  | acquire
  | openDb
  | loadCaches
  | reconcile
  | clearSocket
  | bindSocket
  | listenSocket
  | chmodSocket
  | statSocket
  | serveTags
  | sqsClient
  | drain
  | observe
  | rescan
  | signals
  | work
  | shutdown
  | serverClose
  | cancelTimers
  | stopObserver
  | joinObserver
  | closeDb
  | release
  deriving DecidableEq

/-- What a process holds, and the directory of its catalog.  `timers` are those of the event handler, `drainer` and `rescans`
the threads that end when `stopped` is set. -/
structure Process where
  dir : Dir
  locked : Bool
  conn : Option World
  bound : Bool
  timers : Bool
  observer : Bool
  drainer : Bool
  rescans : Bool
  stopped : Bool
  log : List PyStr

/-- A process that has done nothing yet. -/
def Process.start (dir : Dir) : Process := ⟨dir, false, none, false, false, false, false, false, false, []⟩

/-- What happens to a process. -/
structure Course where
  /-- The call that ends the process, and how. -/
  halts : Call → Option Halt
  /-- `os.path.isdir(args.watch_root)`. -/
  isDir : Bool
  /-- The message of the `WriterLockError`, when another builder has the lock. -/
  refused : Option PyStr
  /-- What happens around the publish. -/
  publish : Circumstances
  /-- The script of the served database's statements, and the clock when it is opened. -/
  faults : List (Option Fault)
  clock : ℕ
  /-- What the worker takes off its queue. -/
  items : List WorkItem
  /-- A file event arrives after `cancel_timers` and before the observer is stopped. -/
  lateEvent : Bool
  /-- The connection is the last one when it is closed, and checkpoints its frames. -/
  lastOne : Bool

/-- A call of `main`. -/
abbrev Running (α : Type) : Type := Comp Process Halt α

section Calls

variable {α : Type}

/-- One call: it has its effect unless the process ends there. -/
def call (c : Course) (what : Call) (effect : Process → Process) : Running Unit := step (c.halts what) effect

/-- A crash runs no `finally`. -/
def isCrash (halt : Halt) : Bool := halt = .crash

/-- `logger.error`. -/
def report (text : PyStr) : Running Unit := change fun p => { p with log := p.log ++ [text] }

/-- Work on the directory. -/
def onDir (m : Publishing α) : Running α := fun p => ((m p.dir).1, { p with dir := (m p.dir).2 })

/-- A database that a connection works on: what it commits goes to the `-wal`. -/
def workedOn (files : Files) (db : Db) : Files :=
  match files.main with
  | some (.db generation _) => { files with wal := some ⟨generation, some db⟩, shm := true }
  | _ => files

/-- The world of the open connection, after some work on it. -/
def Process.working (p : Process) (w : World) : Process :=
  { p with conn := some w, dir := { p.dir with served := workedOn p.dir.served w.conn.committed } }

/-- What is raised on a closed connection. -/
def closedDatabaseError : PyErr := .other (py "ProgrammingError") (py "Cannot operate on a closed database.")

/-- Work on the connection to the served database. -/
def onConn (m : Py α) : Running α := fun p =>
  match p.conn with
  | none => (.error (.raised closedDatabaseError), p)
  | some w => ((m w).1.mapError .raised, p.working (m w).2)

end Calls

/-! ### The served database -/

/-- A connection that was just opened, with empty caches. -/
def connected (c : Course) (db : Db) : World := ⟨⟨db, db, c.faults⟩, Caches.empty, c.clock⟩

/-- `open_db(args.db)`: a database is opened, or a new one is made; anything else is refused. -/
def openServed (c : Course) : Running Unit := fun p =>
  match c.halts .openDb with
  | some halt => (.error halt, p)
  | none =>
    match p.dir.served.view with
    | .content db => (.ok (), { p with conn := some (connected c db) })
    | .absent =>
      (.ok (), { p with
        conn := some (connected c Db.empty)
        dir := { p.dir with served := ⟨some (.db p.dir.created Db.empty), none, true⟩, created := p.dir.created + 1 } })
    | _ => (.error (.raised notADatabaseError), p)

/-- `load_caches`. -/
def loadServed (c : Course) : Running Unit :=
  call c .loadCaches fun p => { p with conn := p.conn.map fun w => w.setCaches (opened w.conn.committed w.clock).caches }

/-- `conn.close()`: the last connection leaves the main file alone. -/
def closeServed (c : Course) : Running Unit :=
  call c .closeDb fun p =>
    { p with
      conn := none
      dir :=
        if c.lastOne then { p.dir with served := (p.dir.served.checkpointed.remove .wal).remove .shm } else p.dir }

/-! ### The process -/

section Main

variable (env : Env) (paths : Paths) (args : Args) (source : Source) (c : Course)

/-- The startup reconcile. -/
def reconcileServed : Running Unit := do
  let _ ← onConn (fullReconcile env source args.extractWorkers)
  call c .reconcile id

/-- `_locked_main` up to the tag socket: the catalog is brought up to date; whether the process goes on. -/
def startUp : Running Bool := do
  let p ← look
  if args.rebuild || !p.dir.served.has .main then do
    let _ ← onDir (buildAndPublish paths c.publish (fullReconcile env source args.extractWorkers))
    if args.once then pure false
    else do
      openServed c
      loadServed c
      pure true
  else do
    openServed c
    loadServed c
    reconcileServed env args source c
    if args.once then do
      closeServed c
      pure false
    else pure true

/-- `start_producer` of each backend. -/
def startProducer : Running Unit :=
  match args.source with
  | .s3 => do
    call c .sqsClient id
    call c .drain fun p => { p with drainer := true }
  | .gcs => pure ()
  | .localTree => do
    change fun p => { p with timers := true }
    call c .observe fun p => { p with observer := true }

/-- `TagEditServer.__init__`: a stale socket is removed, and the new one is bound, listens, gets its mode and its inode is read.
What raises after the bind leaves the socket there, as nobody has the server yet; `server_close` does not remove it either when
listening fails, as it has no inode to compare. -/
def makeTagServer : Running Unit := do
  call c .clearSocket id
  call c .bindSocket fun p => { p with bound := true }
  call c .listenSocket id
  call c .chmodSocket id
  call c .statSocket id

/-- The tag server, if there is a socket for it. -/
def startTagServer : Running Unit :=
  if given args.tagSocket then do
    makeTagServer c
    call c .serveTags id
  else pure ()

/-- The producers, unless there is only the rescan. -/
def watch : Running Unit := if args.noWatch then pure () else startProducer args c

/-- The tag server, the producers, the rescans and the signals. -/
def startThreads : Running Unit := do
  startTagServer args c
  watch args c
  call c .rescan fun p => { p with rescans := true }
  call c .signals id

/-- The tag server is shut down, if there is one. -/
def stopTagServer : Running Unit := do
  let p ← look
  if p.bound then do
    call c .shutdown id
    call c .serverClose fun p => { p with bound := false }
  else pure ()

/-- The timers of the handler are cancelled, if there is one; the observer still runs. -/
def stopTimers : Running Unit := do
  let p ← look
  if p.timers then call c .cancelTimers fun p => { p with timers := c.lateEvent && p.observer } else pure ()

/-- The observer is stopped, if there is one. -/
def stopObserver : Running Unit := do
  let p ← look
  if p.observer then do
    call c .stopObserver id
    call c .joinObserver fun p => { p with observer := false }
  else pure ()

/-- The clean-up of `_locked_main`. -/
def tearDown : Running Unit := do
  change fun p => { p with stopped := true }
  stopTagServer c
  stopTimers c
  stopObserver c
  closeServed c

/-- The worker's loop, and the clean-up. -/
def serve : Running ℕ := do
  startThreads args c
  ensuring isCrash (do
    onConn (workerLoop env source args.extractWorkers c.items)
    call c .work id) (tearDown c)
  pure 0

/-- `_locked_main`. -/
def lockedMain : Running ℕ := do
  if (← startUp env paths args source c) then serve env args source c else pure 0

/-- The source is made. -/
def makeSource : Running Unit := if args.source = .localTree then pure () else call c .client id

/-- `main`. -/
def main : Running ℕ :=
  match usageError args c.isDir with
  | some text => do
    report text
    pure 2
  | none => do
    makeSource args c
    match c.refused with
    | some text => do
      report text
      pure 3
    | none => do
      call c .acquire fun p => { p with locked := true }
      ensuring isCrash (lockedMain env paths args source c) (call c .release fun p => { p with locked := false })

end Main

end McapCatalog.Daemon
