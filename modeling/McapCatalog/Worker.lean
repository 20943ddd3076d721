import McapCatalog.Reconcile

/-!
# The single writer

`worker_loop` of `__main__.py` with `handle_tag_edit` of `tag_ipc.py`: one thread drains a queue, and no item
may kill it.

* `WorkItem` — watch events and client tag edits;
* `handleTagEdit` — one edit, answered with a `TagEditResult` whatever happens;
* `dispatch`, `workItem` — one item, and the same under the worker's `try`/`except`;
* `workerLoop` — the loop, over the items in queue order;
* `restart` — the process is started again on the committed database.
-/

namespace McapCatalog.Worker

open McapCatalog.PyText McapCatalog.PyError McapCatalog.KeyParse McapCatalog.Storage McapCatalog.Tables
open McapCatalog.KeyedRows McapCatalog.Connection McapCatalog.CatalogDb McapCatalog.Builder
open McapCatalog.Reconcile McapCatalog.SurvivingState McapCatalog.SurvivingState.Comp

/-- `TagEditItem`. -/
structure TagEditItem where
  dims : Dims
  setTags : List (PyStr × PyStr)
  unsetKeys : List PyStr
  deadline : ℤ
  deriving DecidableEq

/-- `TagEditResult.status`. -/
inductive EditStatus where
  | ok
  | notFound
  | expired
  | error
  deriving DecidableEq

/-- `TagEditResult`; `tags` are key, value and `is_override`. -/
structure TagEditResult where
  status : EditStatus
  tags : List (PyStr × PyStr × Bool)
  deriving DecidableEq

/-- What the work queue carries. -/
inductive WorkItem where
  | catalog (path : PyStr)
  | delete (path : PyStr)
  | rescan
  | stop
  | tagEdit (item : TagEditItem)
  deriving DecidableEq

/-- The body of the `try` in `handle_tag_edit`. -/
def applyTagEdit (env : Env) (item : TagEditItem) : Py TagEditResult := do
  let t ← tick
  if item.deadline < env.monotonic t then
    pure ⟨.expired, []⟩
  else
    match (← lookupFileId item.dims) with
    | none => pure ⟨.notFound, []⟩
    | some fileId => do
      updateTags env fileId item.setTags item.unsetKeys
      let tags ← query [] fun db => orderFst (db.tagsEffective fileId)
      pure ⟨.ok, tags⟩

/-- `handle_tag_edit`: an exception is the status `error`. -/
def handleTagEdit (env : Env) (item : TagEditItem) : Py TagEditResult := do
  match (← attempt (applyTagEdit env item)) with
  | .ok result => pure result
  | .error _ => pure ⟨.error, []⟩

/-- The body of the worker's `try`; the result is the reply to a tag edit. -/
def dispatch (env : Env) (source : Source) (workers : Workers) : WorkItem → Py (Option TagEditResult)
  | .tagEdit item => do
    let result ← handleTagEdit env item
    pure (some result)
  | .stop => pure none
  | .catalog path => do
    let t ← tick
    if source.waitForStable t path then
      let _ ← catalogObject env (source.eventKey path) source none
      pure none
    else pure none
  | .delete path => do
    let _ ← deleteByKey (source.eventKey path)
    pure none
  | .rescan => do
    let _ ← fullReconcile env source workers
    pure none

/-- One item under the worker's `try`/`except`. -/
def workItem (env : Env) (source : Source) (workers : Workers) (item : WorkItem) :
    Py (Option TagEditResult) := do
  match (← attempt (dispatch env source workers item)) with
  | .ok reply => pure reply
  | .error _ => pure none

/-- An item leaves what its dispatch leaves. -/
theorem workItem_world (env : Env) (source : Source) (workers : Workers) (item : WorkItem) (w : World) :
    (workItem env source workers item w).2 = (dispatch env source workers item w).2 := by
  rw [workItem, bind_of_ok (attempt_apply _ w)]
  cases (dispatch env source workers item w).1 <;> rfl

/-- `worker_loop`, over the items it takes off the queue, up to the `stop` event. -/
def workerLoop (env : Env) (source : Source) (workers : Workers) : List WorkItem → Py Unit
  | [] => pure ()
  | .stop :: _ => pure ()
  | item :: items => do
    let _ ← workItem env source workers item
    workerLoop env source workers items

/-- A world whose connection was just opened on a database, with its caches loaded. -/
def opened (db : Db) (clock : ℕ) : World where
  conn := ⟨db, db, []⟩
  caches :=
    { customer := loadTable db.customers
      site := loadTable db.sites
      robot := loadTable db.robots
      source := loadTable db.sources
      topic := loadTable db.topicNames
      schema := loadTable db.schemas
      topicSet := loadTable db.topicSets }
  clock := clock

/-- The process is started again: an open transaction is lost, the caches are loaded anew. -/
def restart (w : World) : World := opened w.conn.committed w.clock

end McapCatalog.Worker
