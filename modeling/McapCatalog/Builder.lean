import McapCatalog.CatalogDb

/-!
# The catalog builder core

`builder.py`: dimension resolution and the per-file transaction.

* `computeSetFingerprint` — the hash a topic set is deduplicated by;
* `resolveKeyDims` — a key is trusted only if it parses and rebuilds to itself;
* `writeFileRow` — the per-file transaction with its recovery: reload the caches, quarantine the row;
* `extractSummary`, `applyExtract` — the two halves of a reconcile, read and write;
* `catalogObject`, `deleteByKey` — the entry points of the event path.
-/

namespace McapCatalog.Builder

open McapCatalog.PyText McapCatalog.PyError McapCatalog.KeyParse McapCatalog.McapSummary
open McapCatalog.Storage McapCatalog.Varint McapCatalog.Tables McapCatalog.RowidTable
open McapCatalog.KeyedRows McapCatalog.Connection McapCatalog.CatalogDb
open McapCatalog.SurvivingState McapCatalog.SurvivingState.Comp

/-- `CatalogResult.status`. -/
inductive Status where
  | cataloged
  | skipped
  | failed
  deriving DecidableEq

/-- `CatalogResult`. -/
structure CatalogResult where
  status : Status
  detail : PyStr
  deriving DecidableEq

/-- `Extract.kind`, with the fields only that kind carries. -/
inductive Outcome where
  | ready (summary : FileSummary)
  | unparseable (text : PyStr)
  | vanished
  | error (text : PyStr)
  deriving DecidableEq

/-- `Extract`: the read-phase result for one object. -/
structure Extract where
  key : PyStr
  stat : Stat
  dims : Option Dims
  effKey : PyStr
  outcome : Outcome
  deriving DecidableEq

/-- `Extract.error`, the empty string where a kind has none. -/
def Outcome.errorOf : Outcome → PyStr
  | .ready _ => []
  | .unparseable text => text
  | .vanished => []
  | .error text => text

/-! ### Fingerprints of topic sets -/

/-- `[t,s]`. -/
def jsonPair (p : ℕ × ℕ) : PyStr := py "[" ++ (decimal p.1 ++ (py "," ++ (decimal p.2 ++ py "]")))

/-- The pairs after the first, and the closing bracket. -/
def jsonRest : List (ℕ × ℕ) → PyStr
  | [] => py "]"
  | p :: ps => py "," ++ (jsonPair p ++ jsonRest ps)

/-- `json.dumps(members, separators=(",", ":"))`. -/
def jsonPairs : List (ℕ × ℕ) → PyStr
  | [] => py "[]"
  | p :: ps => py "[" ++ (jsonPair p ++ jsonRest ps)

/-- `compute_set_fingerprint`. -/
def computeSetFingerprint (env : Env) (members : List (ℕ × ℕ)) : PyStr :=
  env.sha256 (jsonPairs (sortPairs members))

/-! ### Dimensions -/

/-- `resolve_key_dims`, given what the source says the intended key is. -/
def trustedDims (intended : Option PyStr) (key : PyStr) : Option (Dims × PyStr) :=
  let eff := intended.getD key
  match parseHiveKey eff with
  | none => none
  | some dims => if rebuildHiveKey dims ≠ lstrip eff (cp '/') then none else some (dims, eff)

/-- `resolve_key_dims`. -/
def resolveKeyDims (key : PyStr) (source : Source) : Py (Option (Dims × PyStr)) := do
  let t ← tick
  pure (trustedDims (source.intendedKey t key) key)

/-- `is_error_tag`. -/
def isErrorTag (key value : PyStr) : Bool :=
  (key = py "error" ∨ key = py "has_error") ∧
    (lower value = py "1" ∨ lower value = py "true" ∨ lower value = py "yes")

/-- The four dimension ids of a file. -/
structure Ids where
  customerId : ℕ
  siteId : ℕ
  robotId : ℕ
  sourceId : ℕ
  deriving DecidableEq

/-- The composite key of a file from its ids and its remaining dimensions. -/
def Ids.key (ids : Ids) (dims : Dims) : FileKey :=
  ⟨ids.customerId, ids.siteId, ids.robotId, ids.sourceId, dims.date, dims.filename⟩

/-- The parameters of a statement on the composite key. -/
def compositeParams (dims : Dims) : List Param := [.text dims.date, .text dims.filename]

/-- The ids the caches give to a file's dimensions, if all four are there. -/
def cachedIds (caches : Caches) (dims : Dims) : Option Ids := do
  let customerId ← caches.customer dims.customer
  let siteId ← caches.site (customerId, dims.site)
  let robotId ← caches.robot (siteId, dims.robot)
  let sourceId ← caches.source dims.source
  pure ⟨customerId, siteId, robotId, sourceId⟩

/-- `_resolve_ids`: the lookup rows are committed. -/
def resolveIds (dims : Dims) : Py Ids := do
  let customerId ← resolveCustomer dims.customer
  let siteId ← resolveSite customerId dims.site
  let robotId ← resolveRobot siteId dims.robot
  let sourceId ← resolveSource dims.source
  commit
  pure ⟨customerId, siteId, robotId, sourceId⟩

/-- `_quarantine_existing`. -/
def quarantineExisting (env : Env) (ids : Ids) (dims : Dims) (effKey errorText : PyStr) : Py Unit := do
  execute (compositeParams dims) (Db.deleteFiles fun r => r.key = ids.key dims)
  recordFailure env effKey errorText
  commit

/-! ### The per-file transaction -/

/-- The dictionary update of the channel loop: a known topic keeps its schema and adds the count, a new one is
appended. -/
def tally {κ σ : Type} [DecidableEq κ] (topic : κ) (schema : σ) (count : ℕ) :
    List (κ × (σ × ℕ)) → List (κ × (σ × ℕ))
  | [] => [(topic, (schema, count))]
  | e :: es =>
    if e.1 = topic then (e.1, (e.2.1, e.2.2 + count)) :: es else e :: tally topic schema count es

/-- One round of the channel loop. -/
def addChannel (byTopic : List (ℕ × (ℕ × ℕ))) (ch : ChannelInfo) : Py (List (ℕ × (ℕ × ℕ))) := do
  let topicId ← resolveTopic ch.topic
  let schemaId ← resolveSchema ch.schemaName ch.schemaEncoding
  pure (tally topicId schemaId ch.messageCount byTopic)

/-- `by_topic[tid][1]`. -/
def countOf (byTopic : List (ℕ × (ℕ × ℕ))) (topicId : ℕ) : ℕ :=
  ((byTopic.find? fun e => e.1 = topicId).map fun e => e.2.2).getD 0

/-- The message of the count check. -/
def countMismatch (counted total : ℕ) : PyStr :=
  py "count mismatch: sum(counts)=" ++ decimal counted ++ py " != message_count=" ++ decimal total

/-- The parameters of the upsert into `files`. -/
def fileParams (written : Written) (now : ℤ) : List Param :=
  [.text written.dims.filename, .text written.stat.etag, .int written.stat.size,
    .int written.stat.mtimeNs, .int now, .text written.dims.date, .int written.summary.startTimeNs,
    .int written.summary.endTimeNs, .int written.summary.chunkCount]

/-- The row of the upsert into `files`. -/
def fileCols (written : Written) (now : ℤ) (setId : ℕ) (blob : Bytes) : FileCols where
  etag := written.stat.etag
  sizeBytes := written.stat.size
  lastModifiedNs := written.stat.mtimeNs
  catalogedAtNs := now
  startTimeNs := written.summary.startTimeNs
  endTimeNs := written.summary.endTimeNs
  chunkCount := written.summary.chunkCount
  topicSetId := setId
  topicCounts := blob
  hasError := 0
  origin := written

/-- The validation-health predicate stored in `has_error`. -/
def hasErrorOf (summary : FileSummary) : ℕ :=
  if (deriveTags summary).any (fun kv => isErrorTag kv.1 kv.2) ∨ summary.messageCount = 0 then 1 else 0

/-- The last statements of the transaction: the row, its embedded tags, `has_error`, and the failure row it
clears. -/
def storeFile (env : Env) (ids : Ids) (written : Written) (setId : ℕ) (counts : List ℕ) : Py Unit := do
  let key := ids.key written.dims
  let now ← nowNs env
  executeChecked (fileParams written now)
    (Db.upsertFile key (fileCols written now setId (encodeCountsBlob counts)))
  let fileId ← queryId (compositeParams written.dims) fun db => db.files.idOf key
  execute [] fun db => { db with tagsEmbedded := keep (fun k => k.1 ≠ fileId) db.tagsEmbedded }
  each (fun kv => executeChecked [.text kv.1, .text kv.2] (Db.insertEmbedded fileId kv.1 kv.2))
    (deriveTags written.summary)
  execute [] fun db =>
    { db with
      files := db.files.setVal fileId fun cols =>
        { cols with hasError := hasErrorOf written.summary } }
  execute [.text written.effKey] (Db.deleteFailure written.effKey)

/-- The body of `with conn:` in `_write_file_row`. -/
def fileTransaction (env : Env) (ids : Ids) (written : Written) : Py Unit := do
  let byTopic ← foldEach addChannel [] written.summary.channels
  let members := sortPairs (byTopic.map fun e => (e.1, e.2.1))
  let setId ← resolveTopicSet (computeSetFingerprint env members) members
  let counts := members.map fun m => countOf byTopic m.1
  if counts.sum ≠ written.summary.messageCount then
    raise (.valueError (countMismatch counts.sum written.summary.messageCount))
  storeFile env ids written setId counts

/-- `_write_file_row`. -/
def writeFileRow (env : Env) (ids : Ids) (written : Written) : Py CatalogResult := do
  match (← attempt (withConn (fileTransaction env ids written))) with
  | .ok _ => pure ⟨.cataloged, []⟩
  | .error e => do
    -- The rolled-back transaction may have cached ids that are gone from the database.
    let caches ← loadCaches
    change fun w => w.setCaches caches
    quarantineExisting env ids written.dims written.effKey e.errorText
    pure ⟨.failed, e.str⟩

/-! ### Reading and applying -/

/-- `extract_summary`: the summary is read at `openAt`, and after a failed read one HEAD at `statAt` tells an
object that is gone from one that is broken. -/
def extractSummary (source : Source) (openAt statAt : ℕ) (key : PyStr) (stat : Stat) (dims : Dims)
    (effKey : PyStr) : Extract :=
  let ex := fun outcome => Extract.mk key stat (some dims) effKey outcome
  match source.readSummary openAt key stat.size with
  | .ok summary => ex (.ready summary)
  | .error e =>
    match source.stat statAt key with
    | .ok none => ex .vanished
    | _ => ex (.error e.errorText)

/-- `ex.error or "unparseable key"`. -/
def unparseableText (outcome : Outcome) : PyStr :=
  if outcome.errorOf = [] then py "unparseable key" else outcome.errorOf

/-- The branch of `apply_extract` for an extract without usable dimensions. -/
def applyUnparseable (env : Env) (ex : Extract) : Py CatalogResult := do
  recordFailure env ex.key (unparseableText ex.outcome)
  commit
  pure ⟨.failed, unparseableText ex.outcome⟩

/-- `apply_extract`. -/
def applyExtract (env : Env) (ex : Extract) : Py CatalogResult :=
  match ex.outcome, ex.dims with
  | .vanished, _ => pure ⟨.failed, py "vanished"⟩
  | .unparseable _, _ => applyUnparseable env ex
  | _, none => applyUnparseable env ex
  | .error text, some dims => do
    let ids ← resolveIds dims
    quarantineExisting env ids dims ex.effKey text
    pure ⟨.failed, text⟩
  | .ready summary, some dims => do
    let ids ← resolveIds dims
    writeFileRow env ids ⟨dims, ex.effKey, ex.stat, summary⟩

/-! ### The event path -/

/-- Ask the source something that may raise. -/
def ask {α : Type} (answer : ℕ → Except PyErr α) : Py α := do
  let t ← tick
  match answer t with
  | .ok a => pure a
  | .error e => raise e

/-- `catalog_object` from the moment the fingerprint is known. -/
def catalogWithStat (env : Env) (key : PyStr) (source : Source) (stat : Stat) : Py CatalogResult := do
  match (← resolveKeyDims key source) with
  | none => do
    recordFailure env key (py "unparseable key")
    commit
    pure ⟨.failed, py "unparseable key"⟩
  | some (dims, effKey) => do
    let ids ← resolveIds dims
    let existing ← query (compositeParams dims) fun db => (db.files.find (ids.key dims)).map fun r => r.val.etag
    if existing = some stat.etag then
      pure ⟨.skipped, []⟩
    else do
      match (← attempt (ask fun t => source.readSummary t key stat.size)) with
      | .error e => do
        quarantineExisting env ids dims effKey e.errorText
        pure ⟨.failed, e.str⟩
      | .ok summary => writeFileRow env ids ⟨dims, effKey, stat, summary⟩

/-- `catalog_object`. -/
def catalogObject (env : Env) (key : PyStr) (source : Source) (stat : Option Stat) : Py CatalogResult := do
  let found ← match stat with
    | some stat => pure (some stat)
    | none => ask fun t => source.stat t key
  match found with
  | none => pure ⟨.failed, py "vanished"⟩
  | some stat => catalogWithStat env key source stat

/-- `delete_by_key`. -/
def deleteByKey (key : PyStr) : Py Bool := do
  match parseHiveKey key with
  | none => pure false
  | some dims => do
    let w ← look
    match cachedIds w.caches dims with
    | none => pure false
    | some ids => do
      let deleted ← statement (compositeParams dims) fun db =>
        .ok ((db.files.find (ids.key dims)).isSome, db.deleteFiles fun r => r.key = ids.key dims)
      execute [.text key] (Db.deleteFailure key)
      commit
      pure deleted

end McapCatalog.Builder
