import McapCatalog.CatalogDb

/-!
# The atomic publish

`publish.py`: a catalog is built in a temporary file beside the served one, checkpointed into a single file, and renamed over
it.  A database is up to three files, and what a reader sees is the main file with the frames of its `-wal`.

* `Files`, `Dir`, `View` — the files of a database, the directory with both databases, and what a reader sees at a path;
* `Halt`, `Circumstances` — a crash or an exception, and all that can go wrong around one publish, stage by stage;
* `readOldBuildId`, `seedBuildIdFloor`, `ensureBuildStamped`, `carryForwardTagsOverride`, `checkpointTruncate` — the work on
  the temporary database around `build_fn`, which is any call on its connection;
* `gateOldServedDb`, `buildAside`, `clearServed`, `swap`, `buildAndPublish` — the whole publish; `swap` ends with `os.replace`.
-/

namespace McapCatalog.Tables

open McapCatalog.RowidTable McapCatalog.KeyedRows

instance {κ ρ : Type} [DecidableEq κ] [DecidableEq ρ] : DecidableEq (Table κ ρ) := fun _ _ =>
  decidable_of_iff _ ⟨Table.ext, congrArg Table.rows⟩

-- Mathlib's instance rewrites with an iff, which does not evaluate.
instance {κ ν : Type} [DecidableEq κ] [DecidableEq ν] : DecidableEq (Rows κ ν) := fun _ _ =>
  decidable_of_iff _ ⟨AList.ext, congrArg AList.entries⟩

deriving instance DecidableEq for Db

end McapCatalog.Tables

namespace McapCatalog.Publish

open McapCatalog.PyText McapCatalog.PyError McapCatalog.KeyParse McapCatalog.Tables McapCatalog.RowidTable
open McapCatalog.KeyedRows McapCatalog.Connection McapCatalog.CatalogDb
open McapCatalog.SurvivingState McapCatalog.SurvivingState.Comp

/-! ### Files -/

/-- A main file: a database, with the number it was created under, or something else. -/
inductive Main where
  | garbage
  | db (generation : ℕ) (content : Db)
  deriving DecidableEq

/-- A `-wal`: the database it was written for, and what that contains with its frames, if it has any. -/
structure Wal where
  generation : ℕ
  frames : Option Db
  deriving DecidableEq

/-- The files of a database: the main file, its `-wal`, and whether it has a `-shm`. -/
structure Files where
  main : Option Main
  wal : Option Wal
  shm : Bool
  deriving DecidableEq

/-- What a reader that opens the path sees; `torn` is a main file under the frames of another one. -/
inductive View where
  | absent
  | notADatabase
  | content (db : Db)
  | torn

/-- The suffixes `""`, `"-wal"` and `"-shm"`. -/
inductive Part where
  | main
  | wal
  | shm
  deriving DecidableEq

namespace Files

/-- No files. -/
def absent : Files := ⟨none, none, false⟩

/-- `os.path.exists`. -/
def has (files : Files) : Part → Bool
  | .main => files.main.isSome
  | .wal => files.wal.isSome
  | .shm => files.shm

/-- `os.remove`. -/
def remove (files : Files) : Part → Files
  | .main => { files with main := none }
  | .wal => { files with wal := none }
  | .shm => { files with shm := false }

/-- What a reader sees. -/
def view (files : Files) : View :=
  match files.main with
  | none => .absent
  | some .garbage => .notADatabase
  | some (.db generation content) =>
    match files.wal with
    | some ⟨g, some frames⟩ => if g = generation then .content frames else .torn
    | _ => .content content

/-- A checkpoint that left no frames, on a connection that has both sidecars open. -/
def checkpointed (files : Files) : Files :=
  match files.main, files.view with
  | some (.db generation _), .content db => ⟨some (.db generation db), some ⟨generation, none⟩, true⟩
  | _, _ => files

end Files

/-- The database at a path that a reader can use. -/
def View.db : View → Option Db
  | .content db => some db
  | _ => none

/-- The two paths. -/
inductive Place where
  | served
  | temp
  deriving DecidableEq

/-- The directory of the served database; `created` numbers the databases. -/
structure Dir where
  served : Files
  temp : Files
  created : ℕ
  deriving DecidableEq

namespace Dir

/-- The files at a path. -/
def files (dir : Dir) : Place → Files
  | .served => dir.served
  | .temp => dir.temp

/-- One file removed. -/
def remove (dir : Dir) (part : Part) : Place → Dir
  | .served => { dir with served := dir.served.remove part }
  | .temp => { dir with temp := dir.temp.remove part }

/-- `open_db(temp_path)`, when nothing is left at the path. -/
def openTemp (dir : Dir) : Dir :=
  { dir with temp := ⟨some (.db dir.created Db.empty), none, true⟩, created := dir.created + 1 }

/-- The temporary database with this content committed, in its `-wal` or checkpointed. -/
def closeTemp (dir : Dir) (db : Db) (checkpointed : Bool) : Dir :=
  match dir.temp.main with
  | some (.db generation _) =>
    { dir with
      temp :=
        if checkpointed then ⟨some (.db generation db), some ⟨generation, none⟩, true⟩
        else ⟨some (.db generation Db.empty), some ⟨generation, some db⟩, true⟩ }
  | _ => dir

/-- `os.replace(temp_path, served_path)`. -/
def replace (dir : Dir) : Dir :=
  { dir with served := { dir.served with main := dir.temp.main }, temp := { dir.temp with main := none } }

end Dir

/-! ### What can go wrong -/

/-- The process dies, or an exception is raised. -/
inductive Halt where
  | crash
  | raised (e : PyErr)
  deriving DecidableEq

/-- The row of `PRAGMA wal_checkpoint(TRUNCATE)`. -/
structure CheckpointRow where
  busy : ℤ
  logFrames : ℤ
  checkpointedFrames : ℤ
  deriving DecidableEq

/-- `busy == 0 and log_frames == checkpointed_frames`. -/
def CheckpointRow.clean (row : CheckpointRow) : Bool := row.busy = 0 ∧ row.logFrames = row.checkpointedFrames

/-- The checkpoint of the temporary database: whether `build_fn` leaves a transaction open in which nothing has changed, and
the row outside a transaction. -/
structure TempCheckpoint where
  leftOpen : Bool
  row : CheckpointRow
  deriving DecidableEq

/-- The stages of a publish, in order; a build that is given up is discarded. -/
inductive Stage where
  | cleanup (part : Part)
  | openTemp
  | build
  | discard (part : Part)
  | tempSidecar (part : Part)
  | servedSidecar (part : Part)
  | replace
  | staleSidecar (part : Part)
  | fsync
  deriving DecidableEq

/-- What happens around one publish. -/
structure Circumstances where
  /-- Where a stage ends the publish. -/
  halts : Stage → Option Halt
  /-- The script of the temporary database's statements, and the clock. -/
  faults : List (Option Fault)
  clock : ℕ
  /-- `sqlite3.Error` when the old build id, or the old overrides, are read. -/
  buildIdRaises : Bool
  overridesRaise : Bool
  /-- The checkpoint of the temporary database. -/
  tempCheckpoint : TempCheckpoint
  /-- The attempts of the gate: those before its deadline, and the one that is over after it. -/
  attempts : List (Except Halt CheckpointRow)
  lastAttempt : Except Halt CheckpointRow

/-- `repr(served_path)` and `repr(temp_path)`. -/
structure Paths where
  served : PyStr
  temp : PyStr

/-- A call of the publisher on the directory. -/
abbrev Publishing (α : Type) : Type := Comp Dir Halt α

/-- One stage: it has its effect unless the publish ends there. -/
def stage (c : Circumstances) (s : Stage) (effect : Dir → Dir) : Publishing Unit := fun dir =>
  match c.halts s with
  | some halt => (.error halt, dir)
  | none => (.ok (), effect dir)

/-- `except ... as e`: a crash runs no handler. -/
def handle {α : Type} (m : Publishing α) (handler : PyErr → Publishing α) : Publishing α := fun dir =>
  match m dir with
  | (.error (.raised e), dir') => handler e dir'
  | out => out

/-- Raise an exception. -/
def raiseError {α : Type} (e : PyErr) : Publishing α := raise (.raised e)

/-- `_remove_if_exists`. -/
def removeIfExists (c : Circumstances) (s : Stage) (place : Place) (part : Part) : Publishing Unit := fun dir =>
  if (dir.files place).has part then stage c s (fun dir => dir.remove part place) dir else (.ok (), dir)

/-- `_cleanup_temp`. -/
def cleanupTemp (c : Circumstances) (s : Part → Stage) : Publishing Unit := do
  removeIfExists c (s .main) .temp .main
  removeIfExists c (s .wal) .temp .wal
  removeIfExists c (s .shm) .temp .shm

/-! ### Errors -/

/-- The figures of a checkpoint in an error message. -/
def CheckpointRow.text (row : CheckpointRow) : PyStr :=
  py "busy=" ++ decimalInt row.busy ++ py " log_frames=" ++ decimalInt row.logFrames ++ py " checkpointed_frames=" ++
    decimalInt row.checkpointedFrames

/-- `PublishBusyError`. -/
def publishBusyError (paths : Paths) (last : CheckpointRow) : PyErr :=
  .other (py "PublishBusyError") (py "checkpoint-gate on " ++ paths.served ++
    py " did not complete within 5.0s (last wal_checkpoint(TRUNCATE) result: " ++ last.text ++
    py "); a reader is holding it busy. Publish aborted, served DB untouched.")

/-- `TempCheckpointError`. -/
def tempCheckpointError (paths : Paths) (row : CheckpointRow) : PyErr :=
  .other (py "TempCheckpointError") (py "temp build at " ++ paths.temp ++
    py " could not be checkpointed to zero WAL frames (wal_checkpoint(TRUNCATE): " ++ row.text ++
    py ") — publish aborted, temp build discarded, served DB untouched.")

/-- `UnstampedBuildError`. -/
def unstampedBuildError : PyErr :=
  .other (py "UnstampedBuildError") (py ("build_fn returned without stamping build_metadata (no db.record_build " ++
    "call landed) — publish aborted, temp build discarded."))

/-- What SQLite says about a file that is no database. -/
def notADatabaseError : PyErr := .other (py "DatabaseError") (py "file is not a database")

/-- What SQLite says about a checkpoint inside a transaction. -/
def tableLockedError : PyErr := .operationalError (py "database table is locked")

/-- `isinstance(e, PublishBusyError)`. -/
def isPublishBusy : PyErr → Bool
  | .other name _ => name = py "PublishBusyError"
  | _ => false

/-- `isinstance(e, sqlite3.Error)`. -/
def isSqliteError : PyErr → Bool
  | .integrityError _ => true
  | .operationalError _ => true
  | .other name _ => name ∈ [py "Error", py "InterfaceError", py "DatabaseError", py "DataError", py "InternalError",
      py "ProgrammingError", py "NotSupportedError"]
  | _ => false

/-! ### The temporary database -/

/-- `_read_old_build_id`. -/
def readOldBuildId (c : Circumstances) (served : Files) : Option ℕ :=
  if c.buildIdRaises then none else served.view.db.bind fun db => db.buildMetadata.map BuildRow.buildId

/-- The upsert of `_seed_build_id_floor`. -/
def seedBuild (floor : ℕ) (db : Db) : Db :=
  { db with
    buildMetadata := some (match db.buildMetadata with
      | some build => { build with buildId := floor }
      | none => ⟨floor, 0, 0, 0, py "seeded", []⟩) }

/-- `_seed_build_id_floor`. -/
def seedBuildIdFloor (floor : ℕ) : Py Unit := do
  execute [.int floor] (seedBuild floor)
  commit

/-- `_ensure_build_stamped`. -/
def ensureBuildStamped : Py Unit := do
  match (← query [] Db.buildMetadata) with
  | none => raise unstampedBuildError
  | some build => if build.lastBuildNs = 0 then raise unstampedBuildError else pure ()

/-- A row of the old `tags_override`, with the names of its file. -/
structure OldOverride where
  dims : Dims
  key : PyStr
  value : Option PyStr
  updatedAt : ℤ
  deriving DecidableEq

/-- The five-way join of `_carry_forward_tags_override`. -/
def oldOverrides (db : Db) : List OldOverride :=
  db.tagsOverride.entries.filterMap fun e =>
    ((db.files.get e.1.1).bind fun r => db.namesOf r.key).map fun dims => ⟨dims, e.1.2, e.2.1, e.2.2⟩

/-- The old rows that are read, none of a database that cannot be read. -/
def readOldOverrides (c : Circumstances) (served : Files) : List OldOverride :=
  if c.overridesRaise then [] else (served.view.db.map oldOverrides).getD []

/-- One round of the loop: an override whose file is gone is dropped. -/
def carryOverride (row : OldOverride) : Py Unit := do
  match (← lookupFileId row.dims) with
  | none => pure ()
  | some fileId =>
    executeChecked ([.text row.key] ++ (row.value.map Param.text).toList ++ [.int row.updatedAt])
      (Db.insertOverride fileId row.key row.value row.updatedAt)

/-- `_carry_forward_tags_override`. -/
def carryForwardTagsOverride (oldRows : List OldOverride) : Py Unit :=
  if oldRows = [] then pure () else withConn (each carryOverride oldRows)

/-- `_checkpoint_truncate` on the temporary database: inside a transaction it raises. -/
def checkpointTruncate (checkpoint : TempCheckpoint) : Py CheckpointRow := do
  let w ← look
  if checkpoint.leftOpen ∨ w.conn.working ≠ w.conn.committed then raise tableLockedError
  query [] fun _ => checkpoint.row

/-- What is done on the connection to the temporary database. -/
def buildTempDb {α : Type} (floor : Option ℕ) (oldRows : List OldOverride) (checkpoint : TempCheckpoint) (buildFn : Py α) :
    Py (α × CheckpointRow) := do
  let caches ← loadCaches
  change fun w => w.setCaches caches
  floor.elim (pure ()) seedBuildIdFloor
  let result ← buildFn
  ensureBuildStamped
  carryForwardTagsOverride oldRows
  -- With rows to carry, `with temp_conn` has committed what `build_fn` left open.
  let row ← checkpointTruncate { checkpoint with leftOpen := checkpoint.leftOpen && oldRows.isEmpty }
  pure (result, row)

/-- A connection to the fresh temporary database. -/
def freshWorld (c : Circumstances) : World := ⟨⟨Db.empty, Db.empty, c.faults⟩, Caches.empty, c.clock⟩

/-- The build, up to `conn.close()`. -/
def buildTemp {α : Type} (c : Circumstances) (buildFn : Py α) : Publishing (α × CheckpointRow) := fun dir =>
  match c.halts .build with
  | some halt => (.error halt, dir)
  | none =>
    match buildTempDb (readOldBuildId c dir.served) (readOldOverrides c dir.served) c.tempCheckpoint buildFn
      (freshWorld c) with
    | (.ok (result, row), w) => (.ok (result, row), dir.closeTemp w.conn.committed row.clean)
    | (.error e, w) => (.error (.raised e), dir.closeTemp w.conn.committed false)

/-! ### The gate -/

/-- One attempt to checkpoint the served database. -/
def attemptGate (outcome : Except Halt CheckpointRow) : Publishing CheckpointRow := fun dir =>
  match outcome with
  | .error halt => (.error halt, dir)
  | .ok row =>
    match dir.served.main with
    | some .garbage => (.error (.raised notADatabaseError), dir)
    | _ => (.ok row, if row.clean then { dir with served := dir.served.checkpointed } else dir)

/-- The loop of `_gate_old_served_db`. -/
def gateLoop (paths : Paths) : List (Except Halt CheckpointRow) → Except Halt CheckpointRow → Publishing Unit
  | [], last => do
    let row ← attemptGate last
    if row.clean then pure () else raiseError (publishBusyError paths row)
  | outcome :: outcomes, last => do
    let row ← attemptGate outcome
    if row.clean then pure () else gateLoop paths outcomes last

/-- `_gate_old_served_db`. -/
def gateOldServedDb (paths : Paths) (c : Circumstances) : Publishing Unit := gateLoop paths c.attempts c.lastAttempt

/-- The `-wal` and the `-shm` of the served database removed. -/
def removeSidecars (c : Circumstances) (s : Part → Stage) (place : Place) : Publishing Unit := do
  removeIfExists c (s .wal) place .wal
  removeIfExists c (s .shm) place .shm

/-- The handlers around the gate: a busy reader ends the publish, any other `sqlite3.Error` means garbage. -/
def gateFailed (c : Circumstances) (e : PyErr) : Publishing Unit :=
  if isPublishBusy e then do
    cleanupTemp c .discard
    raiseError e
  else if isSqliteError e then removeSidecars c .servedSidecar .served
  else raiseError e

/-! ### The publish -/

/-- `build_and_publish` up to the temporary database as a single file. -/
def buildAside {α : Type} (paths : Paths) (c : Circumstances) (buildFn : Py α) : Publishing α := do
  cleanupTemp c .cleanup
  stage c .openTemp Dir.openTemp
  let (result, row) ← handle (buildTemp c buildFn) fun e => do
    cleanupTemp c .discard
    raiseError e
  if !row.clean then
    cleanupTemp c .discard
    raiseError (tempCheckpointError paths row)
  removeSidecars c .tempSidecar .temp
  pure result

/-- The served path made ready for the rename. -/
def clearServed (paths : Paths) (c : Circumstances) : Publishing Unit := do
  let dir ← look
  if dir.served.main.isSome then handle (gateOldServedDb paths c) (gateFailed c)
  else removeSidecars c .servedSidecar .served

/-- `build_and_publish` up to `os.replace`. -/
def swap {α : Type} (paths : Paths) (c : Circumstances) (buildFn : Py α) : Publishing α := do
  let result ← buildAside paths c buildFn
  clearServed paths c
  stage c .replace Dir.replace
  pure result

/-- `build_and_publish`. -/
def buildAndPublish {α : Type} (paths : Paths) (c : Circumstances) (buildFn : Py α) : Publishing α := do
  let result ← swap paths c buildFn
  removeSidecars c .staleSidecar .served
  stage c .fsync id
  pure result

end McapCatalog.Publish
