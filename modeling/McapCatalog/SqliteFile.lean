import McapCatalog.Library.NamedObjects
import McapCatalog.Library.SurvivingState
import McapCatalog.PyError
import Mathlib.Data.List.Infix

/-!
# SQLite databases of any schema

What a database file says before anything is known about it: its journal mode, and its tables with their rows, indexes and
views.  SQLite compares their names without regard to the case of ASCII letters, and no two of them have the same.

* `Value`, `Table`, `Object`, `Database` — the data;
* `Insertion` — what one `INSERT OR IGNORE` statement does to the rows of a table: its constraints decide, and every table
  comes with its own answer;
* `Ddl`, `Ddl.run` — `CREATE TABLE`, `CREATE INDEX` and `CREATE VIEW`, each with `IF NOT EXISTS`;
* `Present`, `present_run`, `run_of_present` — **a statement that has run does nothing the second time**, whatever was added or
  stored since.
-/

namespace McapCatalog.SqliteFile

open McapCatalog.PyText McapCatalog.PyError McapCatalog.NamedObjects
open McapCatalog.SurvivingState McapCatalog.SurvivingState.Comp

/-! ### Data -/

/-- A stored value; a `REAL` is given by the bits of its double. -/
inductive Value where
  | null
  | integer (n : ℤ)
  | real (bits : BitVec 64)
  | text (s : PyStr)
  | blob (bytes : List UInt8)
  deriving DecidableEq

/-- The affinity of a column. -/
inductive Affinity where
  | integer
  | text
  | blob
  | real
  | numeric
  deriving DecidableEq

/-- A column. -/
structure Column where
  name : PyStr
  affinity : Affinity
  deriving DecidableEq

/-- A row: its values in the order of the columns. -/
abbrev Row : Type := List Value

/-- What an `INSERT OR IGNORE` does: a constraint makes it skip the row, the row is stored at a place, or it raises. -/
inductive Insertion where
  | ignored
  | stored (position : ℕ) (row : Row)
  | failed (e : PyErr)
  deriving DecidableEq

/-- A table, with its rows in the order in which a query reads them.  `stamp` is what
`INSERT OR IGNORE INTO t(id, version) VALUES (1, SCHEMA_VERSION)` does to given rows under its columns and constraints. -/
structure Table where
  name : PyStr
  columns : List Column
  virtual : Bool
  rows : List Row
  stamp : List Row → Insertion

/-- A table, an index or a view. -/
inductive Object where
  | table (t : Table)
  | index (name : PyStr)
  | view (name : PyStr)

/-- The name of an object. -/
def Object.name : Object → PyStr
  | .table t => t.name
  | .index name => name
  | .view name => name

/-- The name that SQLite compares. -/
def Object.folded (o : Object) : PyStr := lower o.name

/-- `PRAGMA journal_mode`. -/
inductive JournalMode where
  | delete
  | truncate
  | persist
  | memory
  | off
  | wal
  deriving DecidableEq

/-- What persists of a database. -/
structure Database where
  journalMode : JournalMode
  schema : Named Object.folded

namespace Database

/-- The object of a name. -/
def find (db : Database) (name : PyStr) : Option Object := db.schema.find (lower name)

/-- `SELECT name FROM sqlite_master WHERE type='table'`. -/
def tableNames (db : Database) : List PyStr :=
  db.schema.objects.filterMap fun
    | .table t => some t.name
    | _ => none

/-- One more object. -/
def add (db : Database) (o : Object) : Database := { db with schema := db.schema.add o }

/-- The object with these rows, if it is the table of this name. -/
def withRows (name : PyStr) (rows : List Row) : Object → Object
  | .table t => .table (if lower t.name = lower name then { t with rows := rows } else t)
  | o => o

theorem folded_withRows (name : PyStr) (rows : List Row) (o : Object) : (withRows name rows o).folded = o.folded := by
  cases o with
  | table t =>
      rw [withRows]
      split <;> rfl
  | index _ => rfl
  | view _ => rfl

/-- The table of a name with other rows. -/
def setRows (db : Database) (name : PyStr) (rows : List Row) : Database :=
  { db with schema := db.schema.update (withRows name rows) (folded_withRows name rows) }

end Database

/-- The place of a column, and its affinity. -/
def Table.column (t : Table) (name : PyStr) : Option (ℕ × Affinity) :=
  (t.columns.zipIdx.find? fun c => lower c.1.name = lower name).map fun c => (c.2, c.1.affinity)

/-- What SQLite says about a column that is missing. -/
def noSuchColumn (name : PyStr) : PyErr := .operationalError (py "no such column: " ++ name)

/-- What SQLite says about a table that is missing. -/
def noSuchTable (name : PyStr) : PyErr := .operationalError (py "no such table: " ++ name)

/-- `a LIKE pattern`: `%` for any text, `_` for any character, ASCII letters without regard to their case. -/
def like : PyStr → PyStr → Bool
  | [], s => s.isEmpty
  | p :: ps, s =>
    if p = cp '%' then s.tails.any (like ps)
    else
      match s with
      | [] => false
      | c :: cs => (p = cp '_' || lower [p] = lower [c]) && like ps cs

theorem like_cons {p : CodePoint} (hp : p ≠ cp '%') (ps : PyStr) (c : CodePoint) (cs : PyStr) :
    like (p :: ps) (c :: cs) = ((p = cp '_' || lower [p] = lower [c]) && like ps cs) := by
  rw [like, if_neg hp]

theorem like_any (s : PyStr) : like (py "%") s = true := by
  show like [cp '%'] s = true
  rw [like.eq_def]
  show (if cp '%' = cp '%' then s.tails.any (like []) else _) = true
  rw [if_pos rfl, List.any_eq_true]
  exact ⟨[], (List.mem_tails _ _).mpr List.nil_suffix, rfl⟩

/-- A text that begins like the pattern does, up to its `%`. -/
theorem like_append {pattern : PyStr} (hpattern : ∀ s, like pattern s = true) : ∀ {ps : PyStr}, (∀ p ∈ ps, p ≠ cp '%') →
    ∀ {s rest : PyStr}, lower s = lower ps ++ rest → like (ps ++ pattern) s = true
  | [], _, s, _, _ => hpattern s
  | p :: ps, hps, s, rest, hs => by
      cases s with
      | nil => cases hs
      | cons c cs =>
          obtain ⟨hhead, htail⟩ := List.cons.inj hs
          have hletter : lower [p] = lower [c] := congrArg (fun x => [x]) hhead.symm
          rw [List.cons_append, like_cons (hps p List.mem_cons_self), hletter,
            like_append hpattern (fun q hq => hps q (List.mem_cons_of_mem _ hq)) htail]
          simp

example : like (py "sqlite_%") (py "SQLite1") = true := by decide

/-! ### Statements -/

/-- A statement of a schema. -/
inductive Ddl where
  | createTable (t : Table)
  | createView (name : PyStr)
  | createIndex (name table : PyStr) (columns : List PyStr)

/-- `CREATE ... IF NOT EXISTS` of a table or a view: a table or a view of the name will do, an index will not. -/
def createObject (o : Object) : Comp Database PyErr Unit := fun db =>
  match db.find o.name with
  | none => (.ok (), db.add o)
  | some (.index _) => (.error (.operationalError (py "there is already an index named " ++ o.name)), db)
  | some _ => (.ok (), db)

/-- `CREATE INDEX IF NOT EXISTS`; `columns` are all those that it names. -/
def addIndex (name table : PyStr) (columns : List PyStr) : Comp Database PyErr Unit := fun db =>
  match db.find table with
  | none => (.error (noSuchTable (py "main." ++ table)), db)
  | some (.index _) => (.error (noSuchTable (py "main." ++ table)), db)
  | some (.view _) => (.error (.operationalError (py "views may not be indexed")), db)
  | some (.table t) =>
    if t.virtual then (.error (.operationalError (py "virtual tables may not be indexed")), db)
    else
      match db.find name with
      | some (.index _) => (.ok (), db)
      | some _ => (.error (.operationalError (py "there is already a table named " ++ name)), db)
      | none =>
        match columns.find? fun c => (t.column c).isNone with
        | some c => (.error (noSuchColumn c), db)
        | none => (.ok (), db.add (.index name))

/-- One statement; each is its own transaction. -/
def Ddl.run : Ddl → Comp Database PyErr Unit
  | .createTable t => createObject (.table t)
  | .createView name => createObject (.view name)
  | .createIndex name table columns => addIndex name table columns

/-! ### What a statement adds -/

/-- Nothing but objects added at the end. -/
def Grown (db db' : Database) : Prop := db.schema.objects <+: db'.schema.objects ∧ db'.journalMode = db.journalMode

theorem Grown.refl (db : Database) : Grown db db := ⟨List.prefix_refl _, rfl⟩

theorem Grown.trans {db db' db'' : Database} (h : Grown db db') (h' : Grown db' db'') : Grown db db'' :=
  ⟨h.1.trans h'.1, h'.2.trans h.2⟩

theorem Grown.find {db db' : Database} (h : Grown db db') {name : PyStr} {o : Object} (hfind : db.find name = some o) :
    db'.find name = some o := Named.find_of_prefix h.1 hfind

theorem grown_add {db : Database} {o : Object} (h : db.find o.name = none) : Grown db (db.add o) := by
  refine ⟨?_, rfl⟩
  show _ <+: (db.schema.add o).objects
  rw [Named.objects_add h]
  exact List.prefix_append _ _

theorem find_add_self {db : Database} {o : Object} (h : db.find o.name = none) : (db.add o).find o.name = some o :=
  (Named.find_add h _).trans (if_pos rfl)

/-- An object that does as well as another: of its kind, and as virtual. -/
inductive Alike : Object → Object → Prop where
  | table {t t' : Table} (hvirtual : t'.virtual = t.virtual) : Alike (.table t) (.table t')
  | index (name name' : PyStr) : Alike (.index name) (.index name')
  | view (name name' : PyStr) : Alike (.view name) (.view name')

theorem Alike.refl : ∀ o, Alike o o
  | .table _ => .table rfl
  | .index _ => .index _ _
  | .view _ => .view _ _

/-- Every object has one that does as well, under the same name. -/
def Covered (db db' : Database) : Prop := ∀ name o, db.find name = some o → ∃ o', db'.find name = some o' ∧ Alike o o'

theorem Grown.covered {db db' : Database} (h : Grown db db') : Covered db db' := fun _ _ hfind =>
  ⟨_, h.find hfind, Alike.refl _⟩

theorem covered_setRows (db : Database) (name : PyStr) (rows : List Row) : Covered db (db.setRows name rows) := by
  intro n o hfind
  refine ⟨Database.withRows name rows o, ?_, ?_⟩
  · rw [Database.find] at hfind
    rw [Database.find, Database.setRows, Named.find_update, hfind]
    rfl
  · cases o with
    | table t =>
        rw [Database.withRows]
        refine Alike.table ?_
        split <;> rfl
    | index _ => exact .index _ _
    | view _ => exact .view _ _

/-- There is a table or a view of the name. -/
def HasTable (db : Database) (name : PyStr) : Prop := ∃ o, db.find name = some o ∧ ∀ n, o ≠ .index n

/-- What a statement creates is there. -/
def Present (db : Database) : Ddl → Prop
  | .createTable t => HasTable db t.name
  | .createView name => HasTable db name
  | .createIndex name table _ =>
    (∃ t, db.find table = some (.table t) ∧ t.virtual = false) ∧ ∃ n, db.find name = some (.index n)

theorem HasTable.mono {db db' : Database} {name : PyStr} (h : HasTable db name) (hcovered : Covered db db') :
    HasTable db' name := by
  obtain ⟨o, hfind, hindex⟩ := h
  obtain ⟨o', hfind', halike⟩ := hcovered _ _ hfind
  refine ⟨o', hfind', fun n hn => ?_⟩
  rw [hn] at halike
  cases halike
  exact hindex _ rfl

theorem Present.mono {db db' : Database} {s : Ddl} (h : Present db s) (hcovered : Covered db db') : Present db' s := by
  cases s with
  | createTable t => exact HasTable.mono h hcovered
  | createView name => exact HasTable.mono h hcovered
  | createIndex name table columns =>
      obtain ⟨⟨t, htable, hvirtual⟩, n, hindex⟩ := h
      obtain ⟨o, htable', halike⟩ := hcovered _ _ htable
      obtain ⟨o', hindex', halike'⟩ := hcovered _ _ hindex
      cases halike with
      | table hsame =>
          cases halike' with
          | index _ n' => exact ⟨⟨_, htable', hsame.trans hvirtual⟩, n', hindex'⟩

theorem createObject_cases {db db' : Database} {o : Object} {out : Except PyErr Unit} (hindex : ∀ n, o ≠ .index n)
    (h : createObject o db = (out, db')) : Grown db db' ∧ (out = .ok () → HasTable db' o.name) := by
  rw [createObject] at h
  cases hfind : db.find o.name with
  | none =>
      rw [hfind] at h
      cases h
      exact ⟨grown_add hfind, fun _ => ⟨o, find_add_self hfind, hindex⟩⟩
  | some found =>
      rw [hfind] at h
      cases found with
      | index n =>
          cases h
          exact ⟨Grown.refl _, fun hout => by cases hout⟩
      | table t =>
          cases h
          exact ⟨Grown.refl _, fun _ => ⟨_, hfind, fun _ hn => by cases hn⟩⟩
      | view n =>
          cases h
          exact ⟨Grown.refl _, fun _ => ⟨_, hfind, fun _ hn => by cases hn⟩⟩

theorem createObject_of_hasTable {db : Database} {o : Object} (h : HasTable db o.name) :
    createObject o db = (.ok (), db) := by
  obtain ⟨found, hfind, hindex⟩ := h
  rw [createObject, hfind]
  cases found with
  | index n => exact absurd rfl (hindex n)
  | table t => rfl
  | view n => rfl

theorem addIndex_cases {db db' : Database} {name table : PyStr} {columns : List PyStr} {out : Except PyErr Unit}
    (h : addIndex name table columns db = (out, db')) :
    Grown db db' ∧ (out = .ok () → Present db' (.createIndex name table columns)) := by
  rw [addIndex] at h
  have hfailed : ∀ {e : PyErr}, ((.error e, db) : Except PyErr Unit × Database) = (out, db') →
      Grown db db' ∧ (out = .ok () → Present db' (.createIndex name table columns)) := by
    intro e he
    cases he
    exact ⟨Grown.refl _, fun hout => by cases hout⟩
  cases htable : db.find table with
  | none => rw [htable] at h; exact hfailed h
  | some found =>
      rw [htable] at h
      cases found with
      | index n => exact hfailed h
      | view n => exact hfailed h
      | table t =>
          dsimp only at h
          by_cases hvirtual : t.virtual = true
          · rw [if_pos hvirtual] at h
            exact hfailed h
          · rw [if_neg hvirtual] at h
            have hordinary : t.virtual = false := Bool.eq_false_iff.mpr hvirtual
            cases hname : db.find name with
            | some found =>
                rw [hname] at h
                cases found with
                | index n =>
                    cases h
                    exact ⟨Grown.refl _, fun _ => ⟨⟨t, htable, hordinary⟩, n, hname⟩⟩
                | table t' => exact hfailed h
                | view n => exact hfailed h
            | none =>
                rw [hname] at h
                dsimp only at h
                split at h
                · exact hfailed h
                · cases h
                  have hgrown : Grown db (db.add (.index name)) := grown_add hname
                  exact ⟨hgrown, fun _ => ⟨⟨t, hgrown.find htable, hordinary⟩, name, find_add_self hname⟩⟩

theorem addIndex_of_present {db : Database} {name table : PyStr} {columns : List PyStr}
    (h : Present db (.createIndex name table columns)) : addIndex name table columns db = (.ok (), db) := by
  obtain ⟨⟨t, htable, hvirtual⟩, n, hindex⟩ := h
  rw [addIndex, htable]
  dsimp only
  rw [hvirtual, hindex]
  rfl

/-- **A statement adds objects at the end, and when it returns, what it creates is there.** -/
theorem present_run {db db' : Database} {s : Ddl} {out : Except PyErr Unit} (h : s.run db = (out, db')) :
    Grown db db' ∧ (out = .ok () → Present db' s) := by
  cases s with
  | createTable t => exact createObject_cases (fun _ hn => by cases hn) h
  | createView name => exact createObject_cases (fun _ hn => by cases hn) h
  | createIndex name table columns => exact addIndex_cases h

/-- **A statement whose object is there does nothing.** -/
theorem run_of_present {db : Database} {s : Ddl} (h : Present db s) : s.run db = (.ok (), db) := by
  cases s with
  | createTable t => exact createObject_of_hasTable h
  | createView name => exact createObject_of_hasTable h
  | createIndex name table columns => exact addIndex_of_present h

/-! ### Scripts -/

/-- `executescript`. -/
def executescript (script : List Ddl) : Comp Database PyErr Unit := each Ddl.run script

/-- **A script adds objects at the end, and when it returns, all that it creates is there.** -/
theorem present_executescript {script : List Ddl} {db db' : Database} {out : Except PyErr Unit}
    (h : executescript script db = (out, db')) : Grown db db' ∧ (out = .ok () → ∀ s ∈ script, Present db' s) := by
  induction script generalizing db with
  | nil =>
      cases h
      exact ⟨Grown.refl _, fun _ s hs => absurd hs List.not_mem_nil⟩
  | cons s script ih =>
      rw [executescript, each_cons] at h
      rcases hrun : s.run db with ⟨out₁, db₁⟩
      obtain ⟨hgrown, hpresent⟩ := present_run hrun
      cases out₁ with
      | error e =>
          rw [bind_of_error hrun] at h
          cases h
          exact ⟨hgrown, fun hout => by cases hout⟩
      | ok u =>
          rw [bind_of_ok hrun] at h
          obtain ⟨hgrown', hall⟩ := ih h
          refine ⟨hgrown.trans hgrown', fun hout s' hs' => ?_⟩
          cases List.mem_cons.mp hs' with
          | inl hhead => exact hhead ▸ (hpresent rfl).mono hgrown'.covered
          | inr htail => exact hall hout s' htail

/-- **A script whose objects are there does nothing.** -/
theorem executescript_of_present {script : List Ddl} {db : Database} (h : ∀ s ∈ script, Present db s) :
    executescript script db = (.ok (), db) := by
  induction script with
  | nil => rfl
  | cons s script ih =>
      rw [executescript, each_cons, bind_of_ok (run_of_present (h s List.mem_cons_self))]
      exact ih fun s' hs' => h s' (List.mem_cons_of_mem _ hs')

end McapCatalog.SqliteFile
