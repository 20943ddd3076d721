import McapCatalog.SqliteFile

/-!
# Opening a catalog

`open_db` on any existing database: a pragma, two guards, the schema script and the stamp of its version, in this order.

* `schemaSql` — `schema.sql`;
* `guardNotForeignDb`, `validateExistingVersion`, `stampSchemaVersion`, `openDb` — the functions of `db.py`;
* `Wrong`, `OpensSafely` — what has to be refused, and what an open has to do;
* `opensSafely_iff` — **it does exactly if the database is refused by a guard and is in WAL mode already, or nothing is wrong
  with it and its version table takes the stamp**;
* `staleDb_switched` — a catalog of an older version, refused after it was switched to WAL.
-/

namespace McapCatalog.OpenDb

open McapCatalog.PyText McapCatalog.PyError McapCatalog.NamedObjects McapCatalog.SqliteFile
open McapCatalog.SurvivingState McapCatalog.SurvivingState.Comp

/-! ### `schema.sql` -/

/-- `SCHEMA_VERSION`. -/
def schemaVersion : ℤ := 3

/-- The name of the version table. -/
def versionName : PyStr := py "schema_version"

/-- An `INTEGER` column. -/
def int (name : String) : Column := ⟨py name, .integer⟩

/-- A `TEXT` column. -/
def text (name : String) : Column := ⟨py name, .text⟩

/-- A table without a column `id` or `version`, which cannot be stamped. -/
def declared (name : String) (columns : List Column) : Table where
  name := py name
  columns := columns
  virtual := false
  rows := []
  stamp _ := .failed (.operationalError (py "table " ++ py name ++ py " has no column named " ++
    if int "id" ∈ columns then py "version" else py "id"))

/-- `schema_version`: `id INTEGER PRIMARY KEY CHECK (id = 1)` and `version INTEGER NOT NULL`. -/
def schemaVersionTable : Table where
  name := versionName
  columns := [int "id", int "version"]
  virtual := false
  rows := []
  stamp rows :=
    if rows.any fun row => row.head? = some (.integer 1) then .ignored else .stored 0 [.integer 1, .integer schemaVersion]

/-- An index of the script. -/
def index (name table : String) (columns : List String) : Ddl := .createIndex (py name) (py table) (columns.map py)

/-- `schema.sql`. -/
def schemaSql : List Ddl :=
  [.createTable schemaVersionTable,
    .createTable (declared "build_metadata" [int "id", int "build_id", int "last_build_ns", int "files_scanned",
      int "files_failed", text "build_outcome", text "builder_version"]),
    .createTable (declared "files" [int "id", text "filename", text "etag", int "size_bytes", int "last_modified_ns",
      int "cataloged_at_ns", int "customer_id", int "site_id", int "robot_id", int "source_id", text "date",
      int "start_time_ns", int "end_time_ns", int "chunk_count", int "topic_set_id", ⟨py "topic_counts", .blob⟩,
      int "has_error"]),
    index "idx_files_time" "files" ["start_time_ns", "end_time_ns"],
    index "idx_files_error" "files" ["has_error", "id"],
    index "idx_files_cust_err" "files" ["has_error", "customer_id", "site_id", "id"],
    index "idx_files_set" "files" ["topic_set_id", "id"],
    .createTable (declared "customers" [int "id", text "name"]),
    .createTable (declared "sites" [int "id", int "customer_id", text "name"]),
    .createTable (declared "robots" [int "id", int "site_id", text "name"]),
    .createTable (declared "sources" [int "id", text "name"]),
    .createTable (declared "topic_names" [int "id", text "name"]),
    .createTable (declared "schemas" [int "id", text "name", text "encoding"]),
    .createTable (declared "topic_sets" [int "id", text "fingerprint"]),
    .createTable (declared "topic_set_members" [int "set_id", int "topic_id", int "schema_id"]),
    index "idx_tsm_topic" "topic_set_members" ["topic_id"],
    .createTable (declared "tags_embedded" [int "file_id", text "key", text "value"]),
    index "idx_tags_embedded_kv" "tags_embedded" ["key", "value"],
    .createTable (declared "tags_override" [int "file_id", text "key", text "value", int "updated_at"]),
    index "idx_tags_override_kv" "tags_override" ["key", "value"],
    .createView (py "tags_effective"),
    .createTable (declared "catalog_failures" [text "s3_key", int "failed_at_ns", text "error_text"]),
    .createTable (declared "file_metrics" [int "file_id", int "topic_id", text "field", text "stat", ⟨py "value", .real⟩,
      text "etag"]),
    index "idx_metrics_q" "file_metrics" ["topic_id", "field", "stat", "value"],
    .createTable (declared "file_metric_status" [int "file_id", int "has_numeric", text "computed_for_etag"])]

/-! ### `open_db` -/

/-- Why a database is refused. -/
inductive Refusal where
  | notACatalog
  | writtenWith (version : Value)
  | rowMissing
  | stampedWith (version : Value)
  deriving DecidableEq

/-- What `open_db` raises: a `SchemaVersionError`, or an error of SQLite. -/
inductive OpenError where
  | schemaVersion (why : Refusal)
  | sqlite (e : PyErr)
  deriving DecidableEq

/-- The message of a `SchemaVersionError`, from `repr(path)` and `str(version)`. -/
def Refusal.message (path : PyStr) (str : Value → PyStr) : Refusal → PyStr
  | notACatalog => path ++ py (" has tables but no schema_version — not an auryn-built catalog " ++
      "(a legacy Go-written or foreign DB?). Refusing to write it. Use a fresh path or delete the DB.")
  | writtenWith version => py "catalog schema_version mismatch: " ++ path ++ py " was written with version " ++ str version ++
      py ", but this builder writes version " ++ decimalInt schemaVersion ++
      py ". No schema was applied. Rebuild the catalog (delete the DB) or use a matching builder."
  | rowMissing => py "schema_version row missing after stamp (corrupt DB?)"
  | stampedWith version => py "catalog schema_version mismatch: DB was written with version " ++ str version ++
      py ", but this builder writes version " ++ decimalInt schemaVersion ++
      py ". Rebuild the catalog (delete the DB) or use a matching builder."

/-- `id = 1` in SQL, for a column of this affinity. -/
def isOne : Affinity → Value → Bool
  | _, .integer n => n = 1
  | _, .real bits => bits = 0x3FF0000000000000#64
  | .text, .text s => s = py "1"
  | _, _ => false

/-- `version == SCHEMA_VERSION` in Python. -/
def isCurrent : Value → Bool
  | .integer n => n = schemaVersion
  | .real bits => bits = 0x4008000000000000#64
  | _ => false

/-- The values of one column where another is 1. -/
def valuesWhereOne (rows : List Row) (column : ℕ) (id : ℕ × Affinity) : List Value :=
  (rows.filter fun row => isOne id.2 (row.getD id.1 .null)).map fun row => row.getD column .null

/-- `SELECT version FROM t WHERE id = 1`. -/
def versionsOf (t : Table) : Except PyErr (List Value) :=
  match t.column (py "version"), t.column (py "id") with
  | none, _ => .error (noSuchColumn (py "version"))
  | _, none => .error (noSuchColumn (py "id"))
  | some version, some id => .ok (valuesWhereOne t.rows version.1 id)

/-- `SELECT version FROM schema_version WHERE id = 1`. -/
def versions (db : Database) : Except PyErr (List Value) :=
  match db.find versionName with
  | some (.table t) => versionsOf t
  | _ => .error (noSuchTable versionName)

/-- `_guard_not_foreign_db`. -/
def guardNotForeignDb (db : Database) : Except OpenError Unit :=
  let tables := db.tableNames.filter fun name => !like (py "sqlite_%") name
  if tables ≠ [] ∧ versionName ∉ tables then .error (.schemaVersion .notACatalog) else .ok ()

/-- `_validate_existing_version`. -/
def validateExistingVersion (db : Database) : Except OpenError Unit :=
  if versionName ∉ db.tableNames then .ok ()
  else
    match versions db with
    | .error e => .error (.sqlite e)
    | .ok [] => .ok ()
    | .ok (version :: _) => if isCurrent version then .ok () else .error (.schemaVersion (.writtenWith version))

/-- A check that only reads. -/
def check (f : Database → Except OpenError Unit) : Comp Database OpenError Unit := fun db => (f db, db)

/-- A call whose errors are SQLite's. -/
def sqlite (m : Comp Database PyErr Unit) : Comp Database OpenError Unit := fun db =>
  ((m db).1.mapError OpenError.sqlite, (m db).2)

/-- `INSERT OR IGNORE INTO schema_version(id, version) VALUES (1, ?)`, committed. -/
def insertStamp : Comp Database PyErr Unit := fun db =>
  match db.find versionName with
  | some (.table t) =>
    match t.stamp t.rows with
    | .ignored => (.ok (), db)
    | .stored position row => (.ok (), db.setRows versionName (t.rows.take position ++ row :: t.rows.drop position))
    | .failed e => (.error e, db)
  | some (.view name) => (.error (.operationalError (py "cannot modify " ++ name ++ py " because it is a view")), db)
  | _ => (.error (noSuchTable versionName), db)

/-- The row that `_stamp_schema_version` reads again. -/
def checkStamp (db : Database) : Except OpenError Unit :=
  match versions db with
  | .error e => .error (.sqlite e)
  | .ok [] => .error (.schemaVersion .rowMissing)
  | .ok (version :: _) => if isCurrent version then .ok () else .error (.schemaVersion (.stampedWith version))

/-- `_stamp_schema_version`. -/
def stampSchemaVersion : Comp Database OpenError Unit := do
  sqlite insertStamp
  check checkStamp

/-- The database after `PRAGMA journal_mode = WAL`. -/
def inWal (db : Database) : Database := { db with journalMode := .wal }

/-- `open_db`, and what persists of the database. -/
def openDb : Comp Database OpenError Unit := do
  change inWal
  check guardNotForeignDb
  check validateExistingVersion
  sqlite (executescript schemaSql)
  stampSchemaVersion

/-! ### What an open has to do -/

/-- A table that SQLite has not made for itself. -/
def isUser (name : PyStr) : Bool := !startsWith (lower name) (py "sqlite_")

/-- The database has user tables and no version table, by its exact name, or a version other than the builder's. -/
def Wrong (db : Database) : Prop :=
  (∃ name ∈ db.tableNames, isUser name = true) ∧ versionName ∉ db.tableNames ∨
    versionName ∈ db.tableNames ∧ ∃ vs, versions db = .ok vs ∧ ∃ version ∈ vs, isCurrent version = false

/-- The version row is there, and it is the builder's version. -/
def Current (vs : Except PyErr (List Value)) : Prop := ∃ l, vs = .ok l ∧ l ≠ [] ∧ ∀ version ∈ l, isCurrent version = true

/-- Every table is there with its rows; only the version table may have more. -/
def RowsKept (db db' : Database) : Prop :=
  ∀ name t, db.find name = some (.table t) → ∃ t', db'.find name = some (.table t') ∧ t.rows.Sublist t'.rows ∧
    (lower name ≠ versionName → t' = t)

/-- It refuses exactly what is wrong and leaves that as it was; what it opens has the builder's version and its old rows, and
opens again without a change. -/
structure OpensSafely (db : Database) : Prop where
  refusal : (∃ why, (openDb db).1 = .error (.schemaVersion why)) ↔ Wrong db
  unchanged : ∀ why, (openDb db).1 = .error (.schemaVersion why) → (openDb db).2 = db
  versioned : (openDb db).1 = .ok () → Current (versions (openDb db).2)
  kept : (openDb db).1 = .ok () → RowsKept db (openDb db).2
  again : (openDb db).1 = .ok () → openDb (openDb db).2 = (.ok (), (openDb db).2)

/-! ### Names -/

section Names

variable {db db' : Database} {name : PyStr} {t : Table}

theorem mem_tableNames : name ∈ db.tableNames ↔ ∃ t, Object.table t ∈ db.schema.objects ∧ t.name = name := by
  rw [Database.tableNames, List.mem_filterMap]
  constructor
  · rintro ⟨o, hmem, ho⟩
    cases o with
    | table t => exact ⟨t, hmem, Option.some.inj ho⟩
    | index _ => cases ho
    | view _ => cases ho
  · rintro ⟨t, hmem, hname⟩
    exact ⟨_, hmem, congrArg some hname⟩

theorem find_of_mem_tableNames (h : name ∈ db.tableNames) : ∃ t, db.find name = some (.table t) ∧ t.name = name := by
  obtain ⟨t, hmem, hname⟩ := mem_tableNames.mp h
  exact ⟨t, Named.find_eq_some_iff.mpr ⟨hmem, congrArg lower hname⟩, hname⟩

theorem mem_tableNames_of_find (h : db.find name = some (.table t)) : t.name ∈ db.tableNames ∧ lower t.name = lower name := by
  obtain ⟨hmem, hname⟩ := Named.find_eq_some_iff.mp h
  exact ⟨mem_tableNames.mpr ⟨t, hmem, rfl⟩, hname⟩

/-- What SQLite has made for itself is hidden from the guard. -/
theorem like_of_not_isUser (h : isUser name = false) : like (py "sqlite_%") name = true := by
  rw [isUser, Bool.not_eq_false', startsWith, List.isPrefixOf_iff_prefix] at h
  obtain ⟨rest, hrest⟩ := h
  have hplain : (py "sqlite_").all (fun p => p ≠ cp '%') = true := rfl
  have hlower : lower name = lower (py "sqlite_") ++ rest := hrest.symm
  exact like_append like_any (fun p hp => of_decide_eq_true (List.all_eq_true.mp hplain p hp)) hlower

/-- The version table is not hidden, however it is written. -/
theorem not_like_versionName (h : lower name = versionName) : like (py "sqlite_%") name = false := by
  match name with
  | [] => rfl
  | [a] =>
      have hlength : (lower [a]).length = 14 := by
        rw [h]
        rfl
      rw [lower, List.length_map] at hlength
      cases hlength
  | a :: b :: cs =>
      have hb : lower [b] = py "c" := congrArg (fun s => (s.drop 1).take 1) h
      show like (cp 's' :: cp 'q' :: py "lite_%") (a :: b :: cs) = false
      have hq : (decide (cp 'q' = cp '_') || decide (lower [cp 'q'] = py "c")) = false := by decide
      rw [like_cons (by decide), like_cons (by decide), hb, hq, Bool.false_and, Bool.and_false]

end Names

/-! ### The guards -/

section Guards

variable {db : Database}

/-- The two guards in a row. -/
def guards (db : Database) : Except OpenError Unit := do
  guardNotForeignDb db
  validateExistingVersion db

/-- No table is visible to the first guard. -/
def AllHidden (db : Database) : Prop := ∀ name ∈ db.tableNames, like (py "sqlite_%") name = true

theorem guardNotForeignDb_cases (db : Database) :
    guardNotForeignDb db = .ok () ∧ (AllHidden db ∨ versionName ∈ db.tableNames) ∨
      guardNotForeignDb db = .error (.schemaVersion .notACatalog) ∧ Wrong db := by
  rw [guardNotForeignDb]
  by_cases hvisible : db.tableNames.filter (fun name => !like (py "sqlite_%") name) = []
  · rw [if_neg fun h => h.1 hvisible]
    refine Or.inl ⟨rfl, Or.inl fun name hname => ?_⟩
    have hhidden := List.filter_eq_nil_iff.mp hvisible name hname
    simpa using hhidden
  by_cases hversion : versionName ∈ db.tableNames
  · refine Or.inl ⟨if_neg fun h => h.2 (List.mem_filter.mpr ⟨hversion, ?_⟩), Or.inr hversion⟩
    rw [not_like_versionName rfl]
    rfl
  · rw [if_pos ⟨hvisible, fun h => hversion (List.mem_filter.mp h).1⟩]
    obtain ⟨name, hname⟩ := List.exists_mem_of_ne_nil _ hvisible
    obtain ⟨hmem, hshown⟩ := List.mem_filter.mp hname
    refine Or.inr ⟨rfl, Or.inl ⟨⟨name, hmem, ?_⟩, hversion⟩⟩
    cases huser : isUser name with
    | true => rfl
    | false =>
        rw [like_of_not_isUser huser] at hshown
        cases hshown

/-- A database that the guards let pass: nothing to be seen in it, or a version table whose first row is current. -/
def Passed (db : Database) : Prop :=
  versionName ∉ db.tableNames ∧ AllHidden db ∨
    versionName ∈ db.tableNames ∧ ∃ vs, versions db = .ok vs ∧ ∀ version rest, vs = version :: rest → isCurrent version = true

/-- **What the guards say.** -/
theorem guards_cases (db : Database) :
    guards db = .ok () ∧ Passed db ∨ (∃ why, guards db = .error (.schemaVersion why)) ∧ Wrong db ∨
      ∃ e, guards db = .error (.sqlite e) ∧ versionName ∈ db.tableNames ∧ versions db = .error e := by
  rcases guardNotForeignDb_cases db with ⟨hguard, hpassed⟩ | ⟨hguard, hwrong⟩
  · have hguards : guards db = validateExistingVersion db := by
      rw [guards, hguard]
      rfl
    rw [hguards, validateExistingVersion]
    by_cases hversion : versionName ∈ db.tableNames
    · rw [if_neg (not_not_intro hversion)]
      cases hversions : versions db with
      | error e => exact Or.inr (Or.inr ⟨e, rfl, hversion, rfl⟩)
      | ok vs =>
          cases vs with
          | nil => exact Or.inl ⟨rfl, Or.inr ⟨hversion, [], hversions, fun _ _ h => by cases h⟩⟩
          | cons version rest =>
              dsimp only
              cases hcurrent : isCurrent version with
              | true =>
                  refine Or.inl ⟨rfl, Or.inr ⟨hversion, _, hversions, fun _ _ h => ?_⟩⟩
                  cases h
                  exact hcurrent
              | false =>
                  exact Or.inr (Or.inl ⟨⟨_, rfl⟩, Or.inr ⟨hversion, _, hversions, version, List.mem_cons_self, hcurrent⟩⟩)
    · rw [if_pos hversion]
      exact Or.inl ⟨rfl, Or.inl ⟨hversion, hpassed.resolve_right hversion⟩⟩
  · refine Or.inr (Or.inl ⟨⟨.notACatalog, ?_⟩, hwrong⟩)
    rw [guards, hguard]
    rfl

theorem openDb_eq (db : Database) : openDb db = match guards db with
    | .ok _ => (sqlite (executescript schemaSql) >>= fun _ => stampSchemaVersion) (inWal db)
    | .error e => (.error e, inWal db) := by
  have hguard : check guardNotForeignDb (inWal db) = (guardNotForeignDb db, inWal db) := rfl
  have hvalidate : check validateExistingVersion (inWal db) = (validateExistingVersion db, inWal db) := rfl
  rw [openDb, bind_of_ok (change_apply inWal db), guards]
  cases hforeign : guardNotForeignDb db with
  | error e =>
      rw [hforeign] at hguard
      exact bind_of_error hguard
  | ok u =>
      rw [hforeign] at hguard
      rw [bind_of_ok hguard]
      cases hversion : validateExistingVersion db with
      | error e =>
          rw [hversion] at hvalidate
          exact bind_of_error hvalidate
      | ok u =>
          rw [hversion] at hvalidate
          exact bind_of_ok hvalidate

end Guards

/-! ### The stamp -/

section Stamp

variable {db db' : Database} {t t' : Table}

/-- The version table after the stamp, when that does not raise. -/
def stamped (t : Table) : Option Table :=
  match t.stamp t.rows with
  | .ignored => some t
  | .stored position row => some { t with rows := t.rows.take position ++ row :: t.rows.drop position }
  | .failed _ => none

/-- The version table takes the stamp: its version row is current then, and the next stamp does nothing. -/
def TakesStamp (t : Table) : Prop := ∀ t', stamped t = some t' → Current (versionsOf t') ∧ t'.stamp t'.rows = .ignored

theorem RowsKept.refl (db : Database) : RowsKept db db := fun _ t hfind => ⟨t, hfind, List.Sublist.refl _, fun _ => rfl⟩

theorem RowsKept.of_grown {db₁ : Database} (h : Grown db db₁) (h' : RowsKept db₁ db') : RowsKept db db' :=
  fun name t hfind => h' name t (h.find hfind)

theorem find_setRows (name n : PyStr) (rows : List Row) :
    (db.setRows name rows).find n = (db.find n).map (Database.withRows name rows) :=
  Named.find_update _ _ (Database.folded_withRows name rows) _

theorem tableNames_setRows (name : PyStr) (rows : List Row) : (db.setRows name rows).tableNames = db.tableNames := by
  rw [Database.tableNames, Database.tableNames, Database.setRows, Named.update, List.filterMap_map]
  congr 1
  funext o
  cases o with
  | table t =>
      show some _ = some _
      split <;> rfl
  | index _ => rfl
  | view _ => rfl

/-- What the stamp leaves alone. -/
structure StampOnly (db db' : Database) : Prop where
  kept : RowsKept db db'
  covered : Covered db db'
  journalMode : db'.journalMode = db.journalMode
  tableNames : db'.tableNames = db.tableNames

theorem stampOnly_refl (db : Database) : StampOnly db db := ⟨RowsKept.refl db, (Grown.refl db).covered, rfl, rfl⟩

theorem stampOnly_setRows {rows : List Row} (hfind : db.find versionName = some (.table t)) (hrows : t.rows.Sublist rows) :
    StampOnly db (db.setRows versionName rows) := by
  refine ⟨fun name t₁ hfind₁ => ?_, covered_setRows _ _ _, rfl, tableNames_setRows _ _⟩
  have hname := (mem_tableNames_of_find hfind₁).2
  rw [find_setRows, hfind₁]
  refine ⟨_, rfl, ?_⟩
  by_cases hversion : lower name = versionName
  · have hsame : t₁ = t := by
      rw [Database.find, hversion] at hfind₁
      rw [Database.find, show lower versionName = versionName from rfl, hfind₁] at hfind
      cases hfind
      rfl
    have hnamed : lower t₁.name = lower versionName := hname.trans hversion
    rw [if_pos hnamed, hsame]
    exact ⟨hrows, fun hother => absurd hversion hother⟩
  · have hother : lower t₁.name ≠ lower versionName := fun h => hversion (hname.symm.trans h)
    rw [if_neg hother]
    exact ⟨List.Sublist.refl _, fun _ => rfl⟩

theorem sublist_insert (rows : List Row) (position : ℕ) (row : Row) :
    rows.Sublist (rows.take position ++ row :: rows.drop position) := by
  have hsplit := (List.Sublist.refl (rows.take position)).append (List.sublist_cons_self row (rows.drop position))
  rwa [List.take_append_drop] at hsplit

/-- **The stamp** of a database with a version table. -/
theorem insertStamp_cases (hfind : db.find versionName = some (.table t)) :
    (∃ e, insertStamp db = (.error e, db)) ∧ stamped t = none ∨
      ∃ t' db', stamped t = some t' ∧ insertStamp db = (.ok (), db') ∧ db'.find versionName = some (.table t') ∧
        StampOnly db db' := by
  rw [insertStamp, hfind, stamped]
  dsimp only
  cases t.stamp t.rows with
  | failed e => exact Or.inl ⟨⟨e, rfl⟩, rfl⟩
  | ignored => exact Or.inr ⟨t, db, rfl, rfl, hfind, stampOnly_refl db⟩
  | stored position row =>
      refine Or.inr ⟨_, _, rfl, rfl, ?_, stampOnly_setRows hfind (sublist_insert _ _ _)⟩
      rw [find_setRows, hfind]
      have hname := (mem_tableNames_of_find hfind).2
      show some (Object.table (if lower t.name = lower versionName then _ else _)) = _
      rw [if_pos hname]

/-- A stamp that changes nothing is ignored. -/
theorem ignored_of_insertStamp (hfind : db.find versionName = some (.table t)) (h : insertStamp db = (.ok (), db)) :
    t.stamp t.rows = .ignored := by
  rw [insertStamp, hfind] at h
  dsimp only at h
  cases hstamp : t.stamp t.rows with
  | ignored => rfl
  | failed e =>
      rw [hstamp] at h
      cases h
  | stored position row =>
      rw [hstamp] at h
      have hsame : (db.setRows versionName (t.rows.take position ++ row :: t.rows.drop position)).find versionName =
          db.find versionName := by rw [(Prod.mk.inj h).2]
      rw [find_setRows, hfind] at hsame
      have hname := (mem_tableNames_of_find hfind).2
      have htable : (if lower t.name = lower versionName then
          { t with rows := t.rows.take position ++ row :: t.rows.drop position } else t) = t := by
        injection hsame with hobject
        injection hobject
      rw [if_pos hname] at htable
      have hlength := congrArg (fun t => t.rows.length) htable
      simp only [List.length_append, List.length_take, List.length_cons, List.length_drop] at hlength
      omega

theorem insertStamp_of_ignored (hfind : db.find versionName = some (.table t)) (h : t.stamp t.rows = .ignored) :
    insertStamp db = (.ok (), db) := by
  rw [insertStamp, hfind]
  dsimp only
  rw [h]

theorem versions_of_find (hfind : db.find versionName = some (.table t)) : versions db = versionsOf t := by
  rw [versions, hfind]

/-- The stamp keeps the columns. -/
theorem versionsOf_stamped {vs : List Value} (h : versionsOf t = .ok vs) (ht : stamped t = some t') :
    ∃ vs', versionsOf t' = .ok vs' := by
  have hcolumn : ∀ name, t'.column name = t.column name := by
    intro name
    rw [stamped] at ht
    split at ht <;> cases ht <;> rfl
  rw [versionsOf] at h ⊢
  rw [hcolumn, hcolumn]
  split at h
  · cases h
  · cases h
  · exact ⟨_, rfl⟩

end Stamp

/-! ### The open -/

section Open

variable {db db₁ : Database} {t : Table}

theorem inWal_of_wal (h : db.journalMode = .wal) : inWal db = db := by
  cases db
  cases h
  rfl

/-- An open that the guards let pass. -/
theorem openDb_of_guards (h : guards db = .ok ()) : openDb db = match executescript schemaSql (inWal db) with
    | (.error e, db₁) => (.error (.sqlite e), db₁)
    | (.ok _, db₁) => match insertStamp db₁ with
      | (.error e, db') => (.error (.sqlite e), db')
      | (.ok _, db') => (checkStamp db', db') := by
  have hsqlite : ∀ {m : Comp Database PyErr Unit} {out : Except PyErr Unit} {db db' : Database}, m db = (out, db') →
      sqlite m db = (out.mapError OpenError.sqlite, db') := by
    intro m out db db' hm
    rw [sqlite, hm]
  rw [openDb_eq, h]
  rcases hscript : executescript schemaSql (inWal db) with ⟨_ | u, db₁⟩
  · exact bind_of_error (hsqlite hscript)
  · refine (bind_of_ok (hsqlite hscript)).trans ?_
    show (sqlite insertStamp >>= fun _ => check checkStamp) db₁ = match insertStamp db₁ with
      | (.error e, db') => (.error (.sqlite e), db')
      | (.ok _, db') => (checkStamp db', db')
    rcases hstamp : insertStamp db₁ with ⟨_ | u, db'⟩
    · exact bind_of_error (hsqlite hstamp)
    · exact bind_of_ok (hsqlite hstamp)

theorem checkStamp_of_current (h : Current (versions db)) : checkStamp db = .ok () := by
  obtain ⟨vs, hversions, hne, hall⟩ := h
  rw [checkStamp, hversions]
  cases vs with
  | nil => exact absurd rfl hne
  | cons version rest => exact if_pos (hall version List.mem_cons_self)

theorem guards_of_current (hmem : versionName ∈ db.tableNames) (h : Current (versions db)) : guards db = .ok () := by
  rcases guards_cases db with ⟨hok, _⟩ | ⟨_, hwrong⟩ | ⟨e, _, _, herror⟩
  · exact hok
  · obtain ⟨vs, hversions, _, hall⟩ := h
    rcases hwrong with ⟨_, hnone⟩ | ⟨_, vs', hversions', version, hversion, hold⟩
    · exact absurd hmem hnone
    · rw [hversions] at hversions'
      cases hversions'
      rw [hall version hversion] at hold
      cases hold
  · obtain ⟨vs, hversions, _⟩ := h
    rw [hversions] at herror
    cases herror

/-- A database without a version table gets the script's own, unless a view has its name. -/
theorem find_fresh (hhidden : AllHidden db) (hscript : executescript schemaSql db = (.ok (), db₁)) :
    db₁.find versionName = some (.table schemaVersionTable) ∨ ∃ name, db₁.find versionName = some (.view name) := by
  obtain ⟨hgrown, hpresent⟩ := present_executescript hscript
  cases hfind : db.find versionName with
  | none =>
      have hcreate : Ddl.run (.createTable schemaVersionTable) db = (.ok (), db.add (.table schemaVersionTable)) := by
        show createObject _ db = _
        rw [createObject, show db.find (Object.table schemaVersionTable).name = none from hfind]
      rw [executescript, schemaSql, each_cons, bind_of_ok hcreate] at hscript
      exact Or.inl ((present_executescript hscript).1.find (find_add_self hfind))
  | some o =>
      cases o with
      | table t =>
          obtain ⟨hmem, hname⟩ := mem_tableNames_of_find hfind
          have hlike := hhidden _ hmem
          rw [not_like_versionName hname] at hlike
          cases hlike
      | index n =>
          obtain ⟨o, hfind₁, hindex⟩ := hpresent rfl (.createTable schemaVersionTable) List.mem_cons_self
          have hsame : some o = some (.index n) := hfind₁.symm.trans (hgrown.find hfind)
          exact absurd (Option.some.inj hsame) (hindex n)
      | view n => exact Or.inr ⟨n, hgrown.find hfind⟩

/-- A database that was opened, up to the last check: its version table has the stamp, and the script has run. -/
structure Opened (db db' : Database) (t' : Table) : Prop where
  openDb_eq : openDb db = (checkStamp db', db')
  find : db'.find versionName = some (.table t')
  mem_tableNames : versionName ∈ db'.tableNames
  kept : RowsKept db db'
  wal : db'.journalMode = .wal
  present : ∀ s ∈ schemaSql, Present db' s

/-- **An open with a version table**, once the script has run. -/
theorem openDb_cases (hguards : guards db = .ok ()) (hscript : executescript schemaSql (inWal db) = (.ok (), db₁))
    (hfind : db₁.find versionName = some (.table t)) (hname : t.name = versionName) :
    (∃ e, openDb db = (.error (.sqlite e), db₁)) ∧ stamped t = none ∨
      ∃ t' db', stamped t = some t' ∧ Opened db db' t' := by
  obtain ⟨hgrown, hpresent⟩ := present_executescript hscript
  have hopen := openDb_of_guards hguards
  rw [hscript] at hopen
  dsimp only at hopen
  rcases insertStamp_cases hfind with ⟨⟨e, hstamp⟩, hnone⟩ | ⟨t', db', ht', hstamp, hfind', honly⟩
  · rw [hstamp] at hopen
    exact Or.inl ⟨⟨e, hopen⟩, hnone⟩
  · rw [hstamp] at hopen
    have hkept : RowsKept (inWal db) db' := RowsKept.of_grown hgrown honly.kept
    refine Or.inr ⟨t', db', ht', hopen, hfind', ?_, hkept, honly.journalMode.trans hgrown.2,
      fun s hs => (hpresent rfl s hs).mono honly.covered⟩
    rw [honly.tableNames, ← hname]
    exact (mem_tableNames_of_find hfind).1

/-- **What was opened opens again without a change**, if its version is current, exactly if the next stamp is ignored. -/
theorem Opened.again_iff {db' : Database} {t' : Table} (h : Opened db db' t') (hcurrent : Current (versionsOf t')) :
    openDb db' = (.ok (), db') ↔ t'.stamp t'.rows = .ignored := by
  have hversions : Current (versions db') := by
    rw [versions_of_find h.find]
    exact hcurrent
  have hopen := openDb_of_guards (guards_of_current h.mem_tableNames hversions)
  rw [inWal_of_wal h.wal, executescript_of_present h.present] at hopen
  dsimp only at hopen
  constructor
  · intro hagain
    rw [hagain] at hopen
    rcases hstamp : insertStamp db' with ⟨_ | u, db''⟩
    · rw [hstamp] at hopen
      cases hopen
    · rw [hstamp] at hopen
      have hsame : db'' = db' := (Prod.mk.inj hopen).2.symm
      rw [hsame] at hstamp
      exact ignored_of_insertStamp h.find hstamp
  · intro hignored
    rw [insertStamp_of_ignored h.find hignored] at hopen
    rw [hopen]
    dsimp only
    rw [checkStamp_of_current hversions]

/-! ### When an open does what it has to -/

/-- The version table of a database that the schema can be applied to takes the stamp. -/
def StampsSoundly (db : Database) : Prop :=
  ∀ t vs, db.find versionName = some (.table t) → t.name = versionName → versionsOf t = .ok vs →
    (executescript schemaSql (inWal db)).1 = .ok () → TakesStamp t

/-- A guard refuses the database, and it is in WAL mode; or nothing is wrong with it, and its version table takes the stamp. -/
def Fit (db : Database) : Prop :=
  (∃ why, guards db = .error (.schemaVersion why)) ∧ db.journalMode = .wal ∨ ¬Wrong db ∧ StampsSoundly db

/-- A version table as `schema.sql` declares it takes the stamp, empty or with its row. -/
theorem takesStamp_declared {rows : List Row} (hrows : rows = [] ∨ rows = [[.integer 1, .integer schemaVersion]]) :
    TakesStamp { schemaVersionTable with rows := rows } := by
  intro t' ht'
  have hrow : t' = { schemaVersionTable with rows := [[.integer 1, .integer schemaVersion]] } := by
    rcases hrows with rfl | rfl
    · cases ht'
      rfl
    · cases ht'
      rfl
  rw [hrow]
  exact ⟨⟨[.integer schemaVersion], rfl, List.cons_ne_nil _ _, fun version hversion => by
    rw [List.mem_singleton.mp hversion]
    rfl⟩, rfl⟩

/-- The table that is stamped: the database's own, or the script's. -/
def IsVersionTable (db : Database) (t : Table) : Prop :=
  versionName ∉ db.tableNames ∧ t = schemaVersionTable ∨ db.find versionName = some (.table t) ∧ t.name = versionName

/-- How an open goes on after the guards: SQLite raises, or the version table has been stamped. -/
inductive GoesOn (db : Database) : Prop where
  | raised {e : PyErr} {db' : Database} (hopen : openDb db = (.error (.sqlite e), db'))
  | stamped {t t' : Table} {db' : Database} (htable : IsVersionTable db t)
      (happlies : (executescript schemaSql (inWal db)).1 = .ok ()) (hstamped : stamped t = some t')
      (hopened : Opened db db' t')

theorem goesOn_of_find (hguards : guards db = .ok ()) (hscript : executescript schemaSql (inWal db) = (.ok (), db₁))
    (hfind : db₁.find versionName = some (.table t)) (htable : IsVersionTable db t) : GoesOn db := by
  have hname : t.name = versionName := by
    rcases htable with ⟨_, rfl⟩ | ⟨_, hname⟩
    · rfl
    · exact hname
  rcases openDb_cases hguards hscript hfind hname with ⟨⟨e, hopen⟩, _⟩ | ⟨t', db', ht', hopened⟩
  · exact .raised hopen
  · exact .stamped htable (by rw [hscript]) ht' hopened

theorem goesOn (hguards : guards db = .ok ()) (hpassed : Passed db) : GoesOn db := by
  have hopen := openDb_of_guards hguards
  rcases hscript : executescript schemaSql (inWal db) with ⟨e | u, db₁⟩
  · rw [hscript] at hopen
    exact .raised hopen
  rcases hpassed with ⟨hnone, hhidden⟩ | ⟨hmem, _⟩
  · have hhidden' : AllHidden (inWal db) := hhidden
    rcases find_fresh hhidden' hscript with hfind | ⟨name, hview⟩
    · exact goesOn_of_find hguards hscript hfind (Or.inl ⟨hnone, rfl⟩)
    · rw [hscript] at hopen
      dsimp only at hopen
      rw [insertStamp, hview] at hopen
      exact .raised hopen
  · obtain ⟨t, hfind, hname⟩ := find_of_mem_tableNames hmem
    have hfind' : (inWal db).find versionName = some (.table t) := hfind
    exact goesOn_of_find hguards hscript ((present_executescript hscript).1.find hfind') (Or.inr ⟨hfind, hname⟩)

/-- An error of SQLite neither refuses nor opens. -/
theorem opensSafely_of_raised {e : PyErr} {db' : Database} (hopen : openDb db = (.error (.sqlite e), db'))
    (hright : ¬Wrong db) : OpensSafely db := by
  have hnot : ∀ {P : Prop}, (openDb db).1 = .ok () → P := by
    intro P hok
    rw [hopen] at hok
    cases hok
  refine ⟨⟨fun ⟨why, h⟩ => ?_, fun hwrong => absurd hwrong hright⟩, fun why h => ?_, fun h => hnot h, fun h => hnot h,
    fun h => hnot h⟩
  · rw [hopen] at h
    cases h
  · rw [hopen] at h
    cases h

/-- **Nothing is wrong and the stamp is taken**: the open does what it has to. -/
theorem opensSafely_of_takesStamp (hguards : guards db = .ok ()) (hpassed : Passed db) (hright : ¬Wrong db)
    (hsound : StampsSoundly db) : OpensSafely db := by
  cases goesOn hguards hpassed with
  | raised hopen => exact opensSafely_of_raised hopen hright
  | @stamped t t' db' htable happlies hstamped hopened =>
      have htakes : TakesStamp t := by
        rcases htable with ⟨_, rfl⟩ | ⟨hfind, hname⟩
        · exact takesStamp_declared (Or.inl rfl)
        · rcases hpassed with ⟨hnone, _⟩ | ⟨_, vs, hversions, _⟩
          · exact absurd (hname ▸ (mem_tableNames_of_find hfind).1) hnone
          · rw [versions_of_find hfind] at hversions
            exact hsound t vs hfind hname hversions happlies
      obtain ⟨hcurrent, hignored⟩ := htakes t' hstamped
      have hversions : Current (versions db') := by
        rw [versions_of_find hopened.find]
        exact hcurrent
      have hopen : openDb db = (.ok (), db') := by rw [hopened.openDb_eq, checkStamp_of_current hversions]
      refine ⟨⟨fun ⟨why, h⟩ => ?_, fun hwrong => absurd hwrong hright⟩, fun why h => ?_, fun _ => ?_, fun _ => ?_, fun _ => ?_⟩
      · rw [hopen] at h
        cases h
      · rw [hopen] at h
        cases h
      · rw [hopen]
        exact hversions
      · rw [hopen]
        exact hopened.kept
      · rw [hopen]
        exact (hopened.again_iff hcurrent).mpr hignored

/-- **An open that does what it has to**, past the guards: nothing is wrong, and the stamp is taken. -/
theorem takesStamp_of_opensSafely (hguards : guards db = .ok ()) (hpassed : Passed db) (hsafe : OpensSafely db) :
    ¬Wrong db ∧ StampsSoundly db := by
  have hright : ¬Wrong db := by
    intro hwrong
    obtain ⟨why, hrefused⟩ := hsafe.refusal.mpr hwrong
    cases goesOn hguards hpassed with
    | raised hopen =>
        rw [hopen] at hrefused
        cases hrefused
    | @stamped t t' db' htable happlies hstamped hopened =>
        -- It is as it was, so the check reads the row again that the guard has read.
        have hsame : db' = db := by
          have hunchanged := hsafe.unchanged why hrefused
          rwa [hopened.openDb_eq] at hunchanged
        have hmem : versionName ∈ db.tableNames := hsame ▸ hopened.mem_tableNames
        rw [hopened.openDb_eq, hsame] at hrefused
        rcases hpassed with ⟨hnone, _⟩ | ⟨_, vs, hversions, hfirst⟩
        · exact hnone hmem
        · rcases hwrong with ⟨_, hnone⟩ | ⟨_, vs', hversions', version, hversion, _⟩
          · exact hnone hmem
          · rw [hversions] at hversions'
            cases hversions'
            dsimp only at hrefused
            rw [checkStamp, hversions] at hrefused
            cases vs with
            | nil => exact absurd hversion List.not_mem_nil
            | cons first rest =>
                dsimp only at hrefused
                rw [if_pos (hfirst first rest rfl)] at hrefused
                cases hrefused
  refine ⟨hright, fun t vs hfind hname hversions happlies t' ht' => ?_⟩
  rcases hscript : executescript schemaSql (inWal db) with ⟨out, db₁⟩
  rw [hscript] at happlies
  cases happlies
  have hfind' : (inWal db).find versionName = some (.table t) := hfind
  have hfind₁ := (present_executescript hscript).1.find hfind'
  rcases openDb_cases hguards hscript hfind₁ hname with ⟨_, hnone⟩ | ⟨t'', db', ht'', hopened⟩
  · rw [ht'] at hnone
    cases hnone
  rw [ht'] at ht''
  cases ht''
  have hread := versions_of_find hopened.find
  cases hcheck : checkStamp db' with
  | ok u =>
      have hopen : openDb db = (.ok (), db') := by rw [hopened.openDb_eq, hcheck]
      have hcurrent : Current (versionsOf t') := by
        have hversioned := hsafe.versioned (by rw [hopen])
        rwa [hopen, hread] at hversioned
      have hagain := hsafe.again (by rw [hopen])
      rw [hopen] at hagain
      exact ⟨hcurrent, (hopened.again_iff hcurrent).mp hagain⟩
  | error e =>
      cases e with
      | schemaVersion why => exact absurd (hsafe.refusal.mp ⟨why, by rw [hopened.openDb_eq, hcheck]⟩) hright
      | sqlite e =>
          obtain ⟨vs', hvs'⟩ := versionsOf_stamped hversions ht'
          rw [checkStamp, hread, hvs'] at hcheck
          cases vs' with
          | nil => cases hcheck
          | cons version rest =>
              dsimp only at hcheck
              split at hcheck <;> cases hcheck

/-- **Exactly the fit databases are opened as they have to be.** -/
theorem opensSafely_iff (db : Database) : OpensSafely db ↔ Fit db := by
  rcases guards_cases db with ⟨hguards, hpassed⟩ | ⟨⟨why, hguards⟩, hwrong⟩ | ⟨e, hguards, hmem, herror⟩
  · constructor
    · exact fun hsafe => Or.inr (takesStamp_of_opensSafely hguards hpassed hsafe)
    · rintro (⟨⟨why, hrefused⟩, _⟩ | ⟨hright, hsound⟩)
      · rw [hguards] at hrefused
        cases hrefused
      · exact opensSafely_of_takesStamp hguards hpassed hright hsound
  · have hopen := openDb_eq db
    rw [hguards] at hopen
    dsimp only at hopen
    constructor
    · intro hsafe
      have hunchanged := hsafe.unchanged why (by rw [hopen])
      rw [hopen] at hunchanged
      exact Or.inl ⟨⟨why, hguards⟩, (congrArg Database.journalMode hunchanged).symm⟩
    · rintro (⟨_, hwal⟩ | ⟨hright, _⟩)
      · rw [inWal_of_wal hwal] at hopen
        have hnot : ∀ {P : Prop}, (openDb db).1 = .ok () → P := by
          intro P hok
          rw [hopen] at hok
          cases hok
        exact ⟨⟨fun _ => hwrong, fun _ => ⟨why, by rw [hopen]⟩⟩, fun _ _ => by rw [hopen], fun h => hnot h, fun h => hnot h,
          fun h => hnot h⟩
      · exact absurd hwrong hright
  · have hopen := openDb_eq db
    rw [hguards] at hopen
    dsimp only at hopen
    have hright : ¬Wrong db := by
      rintro (⟨_, hnone⟩ | ⟨_, vs, hversions, _⟩)
      · exact hnone hmem
      · rw [herror] at hversions
        cases hversions
    constructor
    · refine fun _ => Or.inr ⟨hright, fun t vs hfind _ hversions _ => ?_⟩
      rw [versions_of_find hfind, hversions] at herror
      cases herror
    · exact fun _ => opensSafely_of_raised hopen hright

end Open

/-! ### A catalog of an older version -/

/-- A catalog of version 2, with a rollback journal. -/
def staleDb : Database where
  journalMode := .delete
  schema :=
    { objects := [.table { schemaVersionTable with rows := [[.integer 1, .integer 2]] }, .table (declared "files" [int "id"])]
      distinct := List.pairwise_pair.mpr (by decide) }

theorem staleDb_switched : (openDb staleDb).1 = .error (.schemaVersion (.writtenWith (.integer 2))) ∧
    staleDb.journalMode = .delete ∧ (openDb staleDb).2.journalMode = .wal ∧ ¬OpensSafely staleDb := by
  have hrefused : (openDb staleDb).1 = .error (.schemaVersion (.writtenWith (.integer 2))) := rfl
  have hwal : (openDb staleDb).2.journalMode = .wal := rfl
  refine ⟨hrefused, rfl, hwal, fun hsafe => ?_⟩
  rw [hsafe.unchanged _ hrefused] at hwal
  cases hwal

end McapCatalog.OpenDb
