import McapCatalog.Builder
import Mathlib.Data.List.FinRange

/-!
# The full reconcile

`reconcile.py`: catalog every object of a source, then delete the rows without one.

* `classify` — one listing: record an unparseable key, skip an unchanged file, queue the rest;
* `Workers` — how the summaries are read: one by one, or on a pool that completes them in any order and reads
  each at a moment of its own;
* `readAndApply` — the read phase and the serial apply phase;
* `sweep` — the deletion sweep;
* `fullReconcile` — all of it.
-/

namespace McapCatalog.Reconcile

open McapCatalog.PyText McapCatalog.PyError McapCatalog.KeyParse McapCatalog.Storage McapCatalog.Tables
open McapCatalog.RowidTable McapCatalog.Connection McapCatalog.CatalogDb McapCatalog.Builder
open McapCatalog.SurvivingState McapCatalog.SurvivingState.Comp

/-- The tally a reconcile returns. -/
structure Tally where
  cataloged : ℕ
  skipped : ℕ
  failed : ℕ
  deleted : ℕ
  deriving DecidableEq

/-- `{"cataloged": 0, "skipped": 0, "failed": 0, "deleted": 0}`. -/
def Tally.zero : Tally := ⟨0, 0, 0, 0⟩

/-- `tally[status] += 1`. -/
def Tally.add (tally : Tally) : Status → Tally
  | .cataloged => { tally with cataloged := tally.cataloged + 1 }
  | .skipped => { tally with skipped := tally.skipped + 1 }
  | .failed => { tally with failed := tally.failed + 1 }

/-- One entry of `to_extract`. -/
structure Job where
  key : PyStr
  stat : Stat
  dims : Dims
  effKey : PyStr
  deriving DecidableEq

/-- What the classification loop carries. -/
structure Scan where
  dimsByKey : PyStr → Option Dims
  toExtract : List Job
  tally : Tally

/-- `_composite_ids`. -/
def compositeIds (caches : Caches) (dims : Dims) : Option FileKey :=
  (cachedIds caches dims).map fun ids => ids.key dims

/-- One round of the classification loop; `stored` are the etags already catalogued. -/
def classify (env : Env) (source : Source) (stored : FileKey → Option PyStr) (scan : Scan)
    (lst : Listing) : Py Scan := do
  match (← resolveKeyDims lst.key source) with
  | none => do
    recordFailure env lst.key (py "unparseable key")
    commit
    pure { scan with tally := scan.tally.add .failed }
  | some (dims, effKey) => do
    let w ← look
    let dimsByKey := Function.update scan.dimsByKey lst.key (some dims)
    if (compositeIds w.caches dims).bind stored = some lst.stat.etag then
      pure { scan with dimsByKey := dimsByKey, tally := scan.tally.add .skipped }
    else
      pure { scan with
        dimsByKey := dimsByKey
        toExtract := scan.toExtract ++ [⟨lst.key, lst.stat, dims, effKey⟩] }

/-- One completed future: its job, when its summary was read (counted from the submission) and how much later
its HEAD was. -/
structure Completed (n : ℕ) where
  job : Fin n
  openAfter : ℕ
  statAfter : ℕ

/-- A run of the pool over `n` jobs: every job completes exactly once. -/
structure PoolRun (n : ℕ) where
  completed : List (Completed n)
  complete : (completed.map Completed.job).Perm (List.finRange n)

/-- The argument `workers`: one, or a pool with its behaviour for each number of jobs. -/
inductive Workers where
  | one
  | pool (run : ∀ n, PoolRun n)

/-- `tally[apply_extract(conn, caches, ex).status] += 1`. -/
def applyAndCount (env : Env) (tally : Tally) (ex : Extract) : Py Tally := do
  let result ← applyExtract env ex
  pure (tally.add result.status)

/-- The extract of one job, read at the given moments. -/
def Job.extract (job : Job) (source : Source) (openAt statAt : ℕ) : Extract :=
  extractSummary source openAt statAt job.key job.stat job.dims job.effKey

/-- One round of the sequential loop. -/
def extractAndApply (env : Env) (source : Source) (tally : Tally) (job : Job) : Py Tally := do
  let openAt ← tick
  let statAt ← tick
  applyAndCount env tally (job.extract source openAt statAt)

/-- One round of the `as_completed` loop of a pool that was started at `start`. -/
def applyCompleted (env : Env) (source : Source) (jobs : List Job) (start : ℕ) (tally : Tally)
    (c : Completed jobs.length) : Py Tally :=
  applyAndCount env tally
    ((jobs.get c.job).extract source (start + c.openAfter) (start + c.openAfter + c.statAfter))

/-- The read phase and the apply phase. -/
def readAndApply (env : Env) (source : Source) (workers : Workers) (jobs : List Job) (tally : Tally) :
    Py Tally :=
  match workers with
  | .one => foldEach (extractAndApply env source) tally jobs
  | .pool run =>
    if 1 < jobs.length then do
      let start ← tick
      foldEach (applyCompleted env source jobs start) tally (run jobs.length).completed
    else foldEach (extractAndApply env source) tally jobs

/-- The composite keys present in the source. -/
def present (caches : Caches) (dimsByKey : PyStr → Option Dims) (listings : List Listing)
    (key : FileKey) : Bool :=
  listings.any fun lst => (dimsByKey lst.key).bind (compositeIds caches) = some key

/-- One round of the deletion sweep. -/
def sweepRow (isPresent : FileKey → Bool) (tally : Tally) (row : Row FileKey FileCols) : Py Tally :=
  if isPresent row.key then pure tally
  else do
    execute [] (Db.deleteFiles fun r => r.id = row.id)
    pure { tally with deleted := tally.deleted + 1 }

/-- `full_reconcile`. -/
def fullReconcile (env : Env) (source : Source) (workers : Workers) : Py Tally := do
  let listings ← ask source.listAll
  let stored ← query [] fun db key => (db.files.find key).map fun r => r.val.etag
  let scan ← foldEach (classify env source stored) ⟨fun _ => none, [], Tally.zero⟩ listings
  let tally ← readAndApply env source workers scan.toExtract scan.tally
  let w ← look
  let rows ← query [] fun db => db.files.rows
  let tally ← foldEach (sweepRow (present w.caches scan.dimsByKey listings)) tally rows
  commit
  recordBuild env (tally.cataloged + tally.skipped) tally.failed
    (if tally.failed = 0 then py "ok" else py "partial")
  pure tally

end McapCatalog.Reconcile
