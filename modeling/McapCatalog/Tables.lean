import McapCatalog.KeyParse
import McapCatalog.Storage
import McapCatalog.Varint
import McapCatalog.Library.RowidTable

/-!
# The catalog database

`schema.sql`, as one value per table.  The primary keys and the unique constraints are carried by the table
types (`RowidTable.Table`, `KeyedRows.Rows`), so a state that breaks one cannot be written down; the foreign
keys are checked by the statements, as SQLite does under `PRAGMA foreign_keys = ON`, and their violation is
an `IntegrityError`.

* `Db` — the tables.  Two parts are **history variables** that no statement reads: the column `origin` of a
  `files` row (what the row was last written from) and `removed` (the ids that `files` rows were deleted
  under, newest first);
* `deleteFiles` — `DELETE FROM files WHERE ...` with its `ON DELETE CASCADE` to the two tag tables;
* `insertNamed`, `insertSite`, ... — the inserting statements;
* `selectMembers`, `tagsEffective`, `lookupFile` — the queries.

The tables forward-declared for derived metrics, which nothing writes, are left out.
-/

namespace McapCatalog.Tables

open McapCatalog.PyText McapCatalog.PyError McapCatalog.KeyParse McapCatalog.McapSummary
open McapCatalog.Storage McapCatalog.Varint McapCatalog.RowidTable McapCatalog.KeyedRows

/-- The unique key of `files`: the four dimension ids, the date and the file name. -/
structure FileKey where
  customerId : ℕ
  siteId : ℕ
  robotId : ℕ
  sourceId : ℕ
  date : PyStr
  filename : PyStr
  deriving DecidableEq

/-- What one write of a `files` row was given. -/
structure Written where
  dims : Dims
  effKey : PyStr
  stat : Stat
  summary : FileSummary
  deriving DecidableEq

/-- The remaining columns of `files`; `origin` is a history variable. -/
structure FileCols where
  etag : PyStr
  sizeBytes : ℤ
  lastModifiedNs : ℤ
  catalogedAtNs : ℤ
  startTimeNs : ℕ
  endTimeNs : ℕ
  chunkCount : ℕ
  topicSetId : ℕ
  topicCounts : Bytes
  hasError : ℕ
  origin : Written
  deriving DecidableEq

/-- The single row of `build_metadata`. -/
structure BuildRow where
  buildId : ℕ
  lastBuildNs : ℤ
  filesScanned : ℕ
  filesFailed : ℕ
  buildOutcome : PyStr
  builderVersion : PyStr
  deriving DecidableEq

/-- The catalog database. -/
structure Db where
  customers : Table PyStr Unit
  sites : Table (ℕ × PyStr) Unit
  robots : Table (ℕ × PyStr) Unit
  sources : Table PyStr Unit
  topicNames : Table PyStr Unit
  schemas : Table (PyStr × PyStr) Unit
  topicSets : Table PyStr Unit
  topicSetMembers : Rows (ℕ × ℕ) ℕ
  files : Table FileKey FileCols
  tagsEmbedded : Rows (ℕ × PyStr) PyStr
  tagsOverride : Rows (ℕ × PyStr) (Option PyStr × ℤ)
  catalogFailures : Rows PyStr (ℤ × PyStr)
  buildMetadata : Option BuildRow
  removed : List ℕ

namespace Db

/-- A database with the schema applied and no rows. -/
def empty : Db where
  customers := Table.empty
  sites := Table.empty
  robots := Table.empty
  sources := Table.empty
  topicNames := Table.empty
  schemas := Table.empty
  topicSets := Table.empty
  topicSetMembers := ∅
  files := Table.empty
  tagsEmbedded := ∅
  tagsOverride := ∅
  catalogFailures := ∅
  buildMetadata := none
  removed := []

/-! ### Statements -/

/-- A statement refused by a foreign key. -/
def foreignKeyFailed : PyErr := .integrityError (py "FOREIGN KEY constraint failed")

/-- Check a foreign key of the row about to be stored. -/
def references {κ ρ : Type} (t : Table κ ρ) (i : ℕ) : Bool := (t.get i).isSome

/-- `DELETE FROM files WHERE ...`, cascading to both tag tables. -/
def deleteFiles (p : Row FileKey FileCols → Bool) (db : Db) : Db :=
  let gone : ℕ → Bool := fun i => db.files.rows.any fun r => r.id = i ∧ p r
  { db with
    files := db.files.filter fun r => !p r
    tagsEmbedded := keep (fun k => !gone k.1) db.tagsEmbedded
    tagsOverride := keep (fun k => !gone k.1) db.tagsOverride
    removed := (db.files.rows.filter p).map Row.id ++ db.removed }

/-- `INSERT INTO files(...) ... ON CONFLICT(composite key) DO UPDATE SET ...` every other column. -/
def upsertFile (key : FileKey) (cols : FileCols) (db : Db) : Except PyErr Db :=
  if references db.customers key.customerId && references db.sites key.siteId &&
      references db.robots key.robotId && references db.sources key.sourceId &&
      references db.topicSets cols.topicSetId then
    .ok { db with files := db.files.upsert key cols }
  else .error foreignKeyFailed

/-- `INSERT INTO topic_set_members(set_id, topic_id, schema_id)`. -/
def insertMember (setId topicId schemaId : ℕ) (db : Db) : Except PyErr Db :=
  if (db.topicSetMembers.lookup (setId, topicId)).isSome then
    .error (.integrityError
      (py "UNIQUE constraint failed: topic_set_members.set_id, topic_set_members.topic_id"))
  else if references db.topicSets setId && references db.topicNames topicId &&
      references db.schemas schemaId then
    .ok { db with topicSetMembers := db.topicSetMembers.insert (setId, topicId) schemaId }
  else .error foreignKeyFailed

/-- `INSERT INTO tags_embedded(file_id, key, value)`. -/
def insertEmbedded (fileId : ℕ) (key value : PyStr) (db : Db) : Except PyErr Db :=
  if (db.tagsEmbedded.lookup (fileId, key)).isSome then
    .error (.integrityError (py "UNIQUE constraint failed: tags_embedded.file_id, tags_embedded.key"))
  else if references db.files fileId then
    .ok { db with tagsEmbedded := db.tagsEmbedded.insert (fileId, key) value }
  else .error foreignKeyFailed

/-- `INSERT INTO tags_override(...) ... ON CONFLICT(file_id, key) DO UPDATE SET value, updated_at`. -/
def upsertOverride (fileId : ℕ) (key : PyStr) (value : Option PyStr) (updatedAt : ℤ) (db : Db) :
    Except PyErr Db :=
  if references db.files fileId then
    .ok { db with tagsOverride := db.tagsOverride.insert (fileId, key) (value, updatedAt) }
  else .error foreignKeyFailed

/-- `INSERT INTO tags_override(...)` without a conflict clause. -/
def insertOverride (fileId : ℕ) (key : PyStr) (value : Option PyStr) (updatedAt : ℤ) (db : Db) :
    Except PyErr Db :=
  if (db.tagsOverride.lookup (fileId, key)).isSome then
    .error (.integrityError (py "UNIQUE constraint failed: tags_override.file_id, tags_override.key"))
  else upsertOverride fileId key value updatedAt db

/-- `INSERT INTO catalog_failures(...) ... ON CONFLICT(s3_key) DO UPDATE SET failed_at_ns, error_text`. -/
def upsertFailure (key : PyStr) (failedAtNs : ℤ) (errorText : PyStr) (db : Db) : Db :=
  { db with catalogFailures := db.catalogFailures.insert key (failedAtNs, errorText) }

/-- `DELETE FROM catalog_failures WHERE s3_key=?`. -/
def deleteFailure (key : PyStr) (db : Db) : Db :=
  { db with catalogFailures := db.catalogFailures.erase key }

/-- The upsert of `record_build`: the counter goes up by one, the rest is replaced. -/
def upsertBuild (now : ℤ) (filesScanned filesFailed : ℕ) (outcome version : PyStr) (db : Db) : Db :=
  { db with
    buildMetadata := some
      { buildId := ((db.buildMetadata.map BuildRow.buildId).getD 0) + 1
        lastBuildNs := now
        filesScanned := filesScanned
        filesFailed := filesFailed
        buildOutcome := outcome
        builderVersion := version } }

/-! ### Queries -/

/-- `SELECT topic_id, schema_id FROM topic_set_members WHERE set_id=? ORDER BY topic_id`. -/
def selectMembers (db : Db) (setId : ℕ) : List (ℕ × ℕ) := orderFst (under db.topicSetMembers setId)

/-- The names a `files` key refers to, through the four joins.  The joins do not compare `sites.customer_id`
with the file's customer, nor `robots.site_id` with its site. -/
def namesOf (db : Db) (key : FileKey) : Option Dims :=
  match db.customers.keyOf key.customerId, db.sites.keyOf key.siteId, db.robots.keyOf key.robotId,
    db.sources.keyOf key.sourceId with
  | some customer, some site, some robot, some source =>
    some ⟨customer, site.2, robot.2, source, key.date, key.filename⟩
  | _, _, _, _ => none

/-- The five-way join of `lookup_file_id`: the first row whose names are the given ones. -/
def lookupFile (db : Db) (dims : Dims) : Option (Row FileKey FileCols) :=
  db.files.rows.find? fun r => db.namesOf r.key = some dims

/-- The view `tags_effective` of one file, as (key, value, is_override): the overrides that carry a value,
then the embedded tags that have no override at all. -/
def tagsEffective (db : Db) (fileId : ℕ) : List (PyStr × PyStr × Bool) :=
  (under db.tagsOverride fileId).filterMap (fun e => e.2.1.map fun value => (e.1, value, true)) ++
    ((under db.tagsEmbedded fileId).filter fun e =>
      (db.tagsOverride.lookup (fileId, e.1)).isNone).map fun e => (e.1, e.2, false)

end Db

end McapCatalog.Tables
