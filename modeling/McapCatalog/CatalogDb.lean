import McapCatalog.Connection
import Mathlib.Data.List.Lex

/-!
# Caches, id resolvers and the smaller transactions

`db.py` from `load_caches` on.  A resolver answers from its cache, or inserts the row and reads its id back; it
does not commit.

* `Lookup`, `resolveLookup` — the six resolvers over a dimension or dictionary table are one function of
  their table, cache, parameters and foreign key; `resolveCustomer`, ... are its members;
* `resolveTopicSet` — the seventh: a set is looked up by fingerprint and its members are stored with it;
* `loadCaches` — all seven dictionaries from the tables;
* `lookupFileId`, `updateTags`, `recordBuild`, `recordFailure`.
-/

namespace McapCatalog.CatalogDb

open McapCatalog.PyText McapCatalog.PyError McapCatalog.KeyParse McapCatalog.Tables
open McapCatalog.RowidTable McapCatalog.KeyedRows McapCatalog.Connection
open McapCatalog.SurvivingState McapCatalog.SurvivingState.Comp

/-! ### Lookup tables and their caches -/

/-- One lookup table of the schema with its cache: where both live, what an insert binds, and the foreign key
of a new row.  The laws say that table and cache are places of their own. -/
structure Lookup (κ : Type) where
  table : Db → Table κ Unit
  setTable : Db → Table κ Unit → Db
  cache : Caches → κ → Option ℕ
  setCache : Caches → (κ → Option ℕ) → Caches
  params : κ → List Param
  foreignKey : Db → κ → Bool
  table_setTable : ∀ db t, table (setTable db t) = t := by intros; rfl
  setTable_table : ∀ db, setTable db (table db) = db := by intros; rfl
  cache_setCache : ∀ c d, cache (setCache c d) = d := by intros; rfl
  setCache_cache : ∀ c, setCache c (cache c) = c := by intros; rfl

namespace Lookup

/-- `customers`. -/
def customer : Lookup PyStr where
  table := Db.customers
  setTable db t := { db with customers := t }
  cache := Caches.customer
  setCache c d := { c with customer := d }
  params name := [.text name]
  foreignKey _ _ := true

/-- `sites`, under a customer. -/
def site : Lookup (ℕ × PyStr) where
  table := Db.sites
  setTable db t := { db with sites := t }
  cache := Caches.site
  setCache c d := { c with site := d }
  params key := [.text key.2]
  foreignKey db key := Db.references db.customers key.1

/-- `robots`, under a site. -/
def robot : Lookup (ℕ × PyStr) where
  table := Db.robots
  setTable db t := { db with robots := t }
  cache := Caches.robot
  setCache c d := { c with robot := d }
  params key := [.text key.2]
  foreignKey db key := Db.references db.sites key.1

/-- `sources`. -/
def source : Lookup PyStr where
  table := Db.sources
  setTable db t := { db with sources := t }
  cache := Caches.source
  setCache c d := { c with source := d }
  params name := [.text name]
  foreignKey _ _ := true

/-- `topic_names`. -/
def topic : Lookup PyStr where
  table := Db.topicNames
  setTable db t := { db with topicNames := t }
  cache := Caches.topic
  setCache c d := { c with topic := d }
  params name := [.text name]
  foreignKey _ _ := true

/-- `schemas`, by name and encoding. -/
def schema : Lookup (PyStr × PyStr) where
  table := Db.schemas
  setTable db t := { db with schemas := t }
  cache := Caches.schema
  setCache c d := { c with schema := d }
  params key := [.text key.1, .text key.2]
  foreignKey _ _ := true

variable {κ : Type} [DecidableEq κ]

/-- `INSERT OR IGNORE INTO table(...) VALUES (...)`; a foreign key is not ignored. -/
def insertOrIgnore (L : Lookup κ) (key : κ) (db : Db) : Except PyErr Db :=
  if ((L.table db).find key).isSome || L.foreignKey db key then
    .ok (L.setTable db ((L.table db).insertOrIgnore key ()))
  else .error Db.foreignKeyFailed

/-- Store one cache entry. -/
def remember (L : Lookup κ) (key : κ) (i : ℕ) (caches : Caches) : Caches :=
  L.setCache caches (Function.update (L.cache caches) key (some i))

end Lookup

variable {κ : Type} [DecidableEq κ]

/-- The resolver of a lookup table: from the cache, or insert and read the id back. -/
def resolveLookup (L : Lookup κ) (key : κ) : Py ℕ := do
  let w ← look
  match L.cache w.caches key with
  | some i => pure i
  | none => do
    executeChecked (L.params key) (L.insertOrIgnore key)
    let i ← queryId (L.params key) fun db => (L.table db).idOf key
    change fun w => w.setCaches (L.remember key i w.caches)
    pure i

/-- `resolve_customer`. -/
def resolveCustomer (name : PyStr) : Py ℕ := resolveLookup .customer name

/-- `resolve_source`. -/
def resolveSource (name : PyStr) : Py ℕ := resolveLookup .source name

/-- `resolve_topic`. -/
def resolveTopic (name : PyStr) : Py ℕ := resolveLookup .topic name

/-- `resolve_site`. -/
def resolveSite (customerId : ℕ) (name : PyStr) : Py ℕ := resolveLookup .site (customerId, name)

/-- `resolve_robot`. -/
def resolveRobot (siteId : ℕ) (name : PyStr) : Py ℕ := resolveLookup .robot (siteId, name)

/-- `resolve_schema`. -/
def resolveSchema (name encoding : PyStr) : Py ℕ := resolveLookup .schema (name, encoding)

/-! ### Topic sets -/

/-- The order of Python pairs. -/
def pairLe (p q : ℕ × ℕ) : Prop := p.1 < q.1 ∨ p.1 = q.1 ∧ p.2 ≤ q.2

instance : DecidableRel pairLe := fun _ _ => inferInstanceAs (Decidable (_ ∨ _))

/-- `sorted(members)`. -/
def sortPairs (members : List (ℕ × ℕ)) : List (ℕ × ℕ) := members.insertionSort pairLe

/-- `INSERT INTO topic_sets(fingerprint) VALUES (?)`. -/
def insertTopicSet (fingerprint : PyStr) (db : Db) : Except PyErr Db :=
  if (db.topicSets.find fingerprint).isSome then
    .error (.integrityError (py "UNIQUE constraint failed: topic_sets.fingerprint"))
  else .ok { db with topicSets := db.topicSets.insertOrIgnore fingerprint () }

/-- Store one entry of the topic-set cache. -/
def rememberTopicSet (fingerprint : PyStr) (setId : ℕ) : Py Unit :=
  change fun w => w.setCaches
    { w.caches with topicSet := Function.update w.caches.topicSet fingerprint (some setId) }

/-- `resolve_topic_set`. -/
def resolveTopicSet (fingerprint : PyStr) (members : List (ℕ × ℕ)) : Py ℕ := do
  let w ← look
  match w.caches.topicSet fingerprint with
  | some i => pure i
  | none => do
    match (← query [.text fingerprint] fun db => db.topicSets.idOf fingerprint) with
    | some i => do
      rememberTopicSet fingerprint i
      pure i
    | none => do
      if members ≠ sortPairs members then
        raise (.valueError (py "topic_set members must be sorted by topic_id ASC"))
      executeChecked [.text fingerprint] (insertTopicSet fingerprint)
      let setId ← queryId [.text fingerprint] fun db => db.topicSets.idOf fingerprint
      each (fun m => executeChecked [] (Db.insertMember setId m.1 m.2)) members
      rememberTopicSet fingerprint setId
      pure setId

/-! ### Loading the caches -/

/-- One dictionary, filled row by row. -/
def loadTable (t : Table κ Unit) : κ → Option ℕ :=
  t.rows.foldl (fun cache r => Function.update cache r.key (some r.id)) fun _ => none

/-- `load_caches`. -/
def loadCaches : Py Caches := do
  let customer ← query [] fun db => loadTable db.customers
  let site ← query [] fun db => loadTable db.sites
  let robot ← query [] fun db => loadTable db.robots
  let source ← query [] fun db => loadTable db.sources
  let topic ← query [] fun db => loadTable db.topicNames
  let schema ← query [] fun db => loadTable db.schemas
  let topicSet ← query [] fun db => loadTable db.topicSets
  pure
    { customer := customer
      site := site
      robot := robot
      source := source
      topic := topic
      schema := schema
      topicSet := topicSet }

/-! ### Files and tags -/

/-- The parameters of the join in `lookup_file_id`. -/
def dimsParams (dims : Dims) : List Param :=
  [.text dims.customer, .text dims.site, .text dims.robot, .text dims.source, .text dims.date,
    .text dims.filename]

/-- `lookup_file_id`. -/
def lookupFileId (dims : Dims) : Py (Option ℕ) :=
  query (dimsParams dims) fun db => (db.lookupFile dims).map Row.id

/-- The body of the first loop of `update_tags`. -/
def setTag (fileId : ℕ) (now : ℤ) (kv : PyStr × PyStr) : Py Unit :=
  executeChecked [.text kv.1, .text kv.2, .int now] (Db.upsertOverride fileId kv.1 (some kv.2) now)

/-- The body of the second loop of `update_tags`: mask an embedded tag, else drop the override. -/
def unsetTag (fileId : ℕ) (now : ℤ) (key : PyStr) : Py Unit := do
  let embedded ← query [.text key] fun db => db.tagsEmbedded.lookup (fileId, key)
  if embedded.isSome then
    executeChecked [.text key, .int now] (Db.upsertOverride fileId key none now)
  else
    execute [.text key] fun db => { db with tagsOverride := db.tagsOverride.erase (fileId, key) }

/-- `update_tags`. -/
def updateTags (env : Env) (fileId : ℕ) (setKv : List (PyStr × PyStr)) (unsetKeys : List PyStr) :
    Py Unit := do
  let now ← nowNs env
  withConn do
    each (setTag fileId now) setKv
    each (unsetTag fileId now) unsetKeys

/-- `BUILDER_VERSION`. -/
def builderVersion : PyStr := py "0.1.0"

/-- `record_build`. -/
def recordBuild (env : Env) (filesScanned filesFailed : ℕ) (outcome : PyStr) : Py Unit := do
  let now ← nowNs env
  execute [.int now, .text outcome, .text builderVersion]
    (Db.upsertBuild now filesScanned filesFailed outcome builderVersion)
  commit

/-- `record_failure`. -/
def recordFailure (env : Env) (key errorText : PyStr) : Py Unit := do
  let now ← nowNs env
  execute [.text key, .int now, .text errorText] (Db.upsertFailure key now errorText)

end McapCatalog.CatalogDb
