import McapCatalog.Backends
import McapCatalog.BuildCounter
import McapCatalog.PublishSafety
import McapCatalog.Worker

/-!
# Build ids at the served path

The counter `build_id` over in-place reconciles and publishes of one served path.  A publish carries it from one file into
another, by a row it seeds and that `record_build` has to overwrite.

* `buildTempDb_ok` — a build that goes through commits a stamped row, above its floor;
* `Op`, `Verdict`, `Happens`, `Run` — the operations on one served path and their runs;
* `Orderly` — what a counter has to do;
* `run_orderly` — **the counter does it in every run in which no publish takes a database for garbage**;
* `interrupted_not_orderly` — a publish that did so, and then failed to rename.
-/

namespace McapCatalog.Publish

open McapCatalog.PyText McapCatalog.PyError McapCatalog.KeyParse McapCatalog.Storage McapCatalog.Tables
open McapCatalog.RowidTable McapCatalog.KeyedRows McapCatalog.Connection McapCatalog.CatalogDb McapCatalog.Builder
open McapCatalog.Reconcile McapCatalog.Worker
open McapCatalog.SurvivingState McapCatalog.SurvivingState.Comp

/-! ### The temporary database -/

section Build

variable {α : Type} {w w' : World}

/-- The row that `_seed_build_id_floor` stores. -/
def placeholder (floor : ℕ) : BuildRow := ⟨floor, 0, 0, 0, py "seeded", []⟩

/-- The database after an override was carried, or dropped. -/
def carried (db : Db) (row : OldOverride) : Db :=
  match db.lookupFile row.dims with
  | none => db
  | some r => { db with tagsOverride := db.tagsOverride.insert (r.id, row.key) (row.value, row.updatedAt) }

theorem carryOverride_of_ok {row : OldOverride} {u : Unit} (h : carryOverride row w = (.ok u, w')) :
    w'.conn.working = carried w.conn.working row := by
  rw [carryOverride] at h
  obtain ⟨found, w₁, hlookup, hrest⟩ := bind_eq_ok h
  obtain ⟨rfl, hworking, _⟩ := query_of_ok hlookup
  rw [carried]
  cases hfile : w.conn.working.lookupFile row.dims with
  | none =>
      rw [hfile] at hrest
      cases hrest
      exact hworking
  | some r =>
      rw [hfile] at hrest
      obtain ⟨hrun, _⟩ := executeChecked_of_ok hrest
      rw [hworking, Db.insertOverride] at hrun
      split at hrun
      · cases hrun
      · rw [Db.upsertOverride] at hrun
        split at hrun
        · exact (Except.ok.inj hrun).symm
        · cases hrun

theorem buildMetadata_carried (rows : List OldOverride) (db : Db) :
    (rows.foldl carried db).buildMetadata = db.buildMetadata := by
  induction rows generalizing db with
  | nil => rfl
  | cons row rows ih =>
      rw [List.foldl_cons, ih, carried]
      split <;> rfl

/-- **The carry-forward**, when it returns. -/
theorem carryForwardTagsOverride_of_ok {rows : List OldOverride} {u : Unit}
    (h : carryForwardTagsOverride rows w = (.ok u, w')) : w'.conn.working = rows.foldl carried w.conn.working := by
  rw [carryForwardTagsOverride] at h
  split at h
  · rename_i hnil
    cases h
    rw [hnil]
    rfl
  · obtain ⟨w₁, hbody, hcommit⟩ := withConn_of_ok h
    rw [(commit_of_ok hcommit).2.1]
    exact each_of_ok (fun _ _ _ _ hrow => carryOverride_of_ok hrow) rows _ _ _ hbody

theorem ensureBuildStamped_of_ok {u : Unit} (h : ensureBuildStamped w = (.ok u, w')) :
    (∃ build, w.conn.working.buildMetadata = some build ∧ build.lastBuildNs ≠ 0) ∧ w'.conn.working = w.conn.working := by
  rw [ensureBuildStamped] at h
  obtain ⟨found, w₁, hquery, hrest⟩ := bind_eq_ok h
  obtain ⟨rfl, hworking, _⟩ := query_of_ok hquery
  cases hbuild : w.conn.working.buildMetadata with
  | none => rw [hbuild] at hrest; cases hrest
  | some build =>
      rw [hbuild] at hrest
      dsimp only at hrest
      split at hrest
      · cases hrest
      · rename_i hstamped
        cases hrest
        exact ⟨⟨build, rfl, hstamped⟩, hworking⟩

theorem checkpointTruncate_of_ok {checkpoint : TempCheckpoint} {row : CheckpointRow}
    (h : checkpointTruncate checkpoint w = (.ok row, w')) : w'.conn.committed = w.conn.working := by
  rw [checkpointTruncate, bind_of_ok (look_apply w)] at h
  by_cases hopen : checkpoint.leftOpen = true ∨ w.conn.working ≠ w.conn.committed
  · rw [if_pos hopen] at h
    obtain ⟨_, _, hraise, _⟩ := bind_eq_ok h
    cases hraise
  · rw [if_neg hopen] at h
    obtain ⟨_, _, hcommitted, _⟩ := query_of_ok h
    rw [hcommitted]
    exact (not_ne_iff.mp (not_or.mp hopen).2).symm

/-- Neither database has a build. -/
def Unbuilt : Property := fun db view _ => db.buildMetadata = none ∧ view.buildMetadata = none

/-- The row before `build_fn`: the placeholder of a floor, or none. -/
def baseRow (floor : Option ℕ) : Option BuildRow := floor.map placeholder

/-- **A build that goes through commits a stamped row, above its floor.** -/
theorem buildTempDb_ok {c : Circumstances} {floor : Option ℕ} {rows : List OldOverride} {checkpoint : TempCheckpoint}
    {row : CheckpointRow} {buildFn : Py α} {result : α} (hcounts : Counts buildFn)
    (h : buildTempDb floor rows checkpoint buildFn (freshWorld c) = (.ok (result, row), w')) :
    Stamped (baseRow floor) w'.conn.committed.buildMetadata := by
  rw [buildTempDb] at h
  obtain ⟨caches, w₁, hcaches, h⟩ := bind_eq_ok h
  obtain ⟨_, w₂, hchange, h⟩ := bind_eq_ok h
  obtain ⟨_, w₃, hseed, h⟩ := bind_eq_ok h
  obtain ⟨result₁, w₄, hbuild, h⟩ := bind_eq_ok h
  obtain ⟨_, w₅, hensure, h⟩ := bind_eq_ok h
  obtain ⟨_, w₆, hcarry, h⟩ := bind_eq_ok h
  obtain ⟨row₁, w₇, hcheckpoint, hpure⟩ := bind_eq_ok h
  cases hpure
  have hunbuilt : Meets Unbuilt 0 w₁ := by
    have hroll : RollsBack Unbuilt := fun _ _ _ hview => ⟨hview.1, hview.1⟩
    have hkeeps : Keeps Unbuilt 0 loadCaches fun _ => True := keeps_loadCaches hroll
    have hafter := hkeeps.after (w := freshWorld c) ⟨⟨rfl, rfl⟩, Nat.zero_le _⟩
    rw [hcaches] at hafter
    exact hafter
  have hbase : w₃.conn.committed.buildMetadata = baseRow floor ∧ w₃.conn.working.buildMetadata = baseRow floor := by
    cases hchange
    cases floor with
    | none =>
        cases hseed
        exact hunbuilt.inv
    | some floor =>
        obtain ⟨_, w₂, hexecute, hcommit⟩ := bind_eq_ok hseed
        obtain ⟨hcommitted, hworking, _⟩ := commit_of_ok hcommit
        have hseeded : w₂.conn.working.buildMetadata = some (placeholder floor) := by
          rw [(execute_of_ok hexecute).1, seedBuild]
          have hnone : w₁.conn.working.buildMetadata = none := hunbuilt.inv.2
          show some _ = _
          rw [show (World.setCaches w₁ caches).conn.working.buildMetadata = none from hnone]
          rfl
        exact ⟨by rw [hcommitted]; exact hseeded, by rw [hworking]; exact hseeded⟩
  have hcounted : Meets (Counted (baseRow floor)) 0 w₄ := by
    have hafter := (hcounts (baseRow floor) 0).after (w := w₃)
      ⟨⟨by rw [hbase.1]; exact Onward.same _, by rw [hbase.1, hbase.2]; exact Onward.same _⟩, Nat.zero_le _⟩
    rw [hbuild] at hafter
    exact hafter
  obtain ⟨⟨build, hworking, hstamped⟩, hsame⟩ := ensureBuildStamped_of_ok hensure
  have hlast : w'.conn.committed.buildMetadata = some build := by
    rw [checkpointTruncate_of_ok hcheckpoint, carryForwardTagsOverride_of_ok hcarry, buildMetadata_carried, hsame, hworking]
  have honward : Onward (baseRow floor) (some build) := by
    rw [← hworking]
    exact hcounted.inv.1.trans hcounted.inv.2
  refine ⟨build, hlast, ?_⟩
  generalize hbaseRow : baseRow floor = base at honward
  cases honward with
  | stamped hid hns => exact ⟨hid, hns⟩
  | same =>
      -- A row with a time is not the placeholder.
      cases floor with
      | none => cases hbaseRow
      | some floor =>
          cases hbaseRow
          exact absurd rfl hstamped

end Build

/-! ### The served path -/

/-- The row that a reader finds at the served path. -/
def rowAt (dir : Dir) : Option BuildRow := dir.served.view.db.bind Db.buildMetadata

/-- The files of a database with this content, wherever its frames are. -/
def Files.Hold (files : Files) (db : Db) : Prop :=
  (∃ generation content, files.main = some (.db generation content)) ∧ files.view = .content db

/-- An operation on the served path: a reconcile of its database in place, on a connection to it, or a publish over it. -/
inductive Op : Type 1 where
  | reconcile (source : Source) (workers : Workers) (w : World)
  | publish {α : Type} (buildFn : Py α) (c : Circumstances)

/-- How an operation ends: a build is completed, a reconcile raises, or a publish ends before its rename. -/
inductive Verdict where
  | completed
  | interrupted
  | aborted
  deriving DecidableEq

/-- One operation.  A publish that reaches its rename has completed, whatever is raised after it; what it renames was built by
a call that counts, over an old database whose build id could be read. -/
inductive Happens (env : Env) (paths : Paths) (dir : Dir) : Op → Verdict → Dir → Prop where
  | reconciled {source : Source} {workers : Workers} {w w' : World} {tally : Tally} {files : Files}
      (hopen : dir.served.Hold w.conn.committed)
      (hworking : Onward w.conn.committed.buildMetadata w.conn.working.buildMetadata)
      (hrun : fullReconcile env source workers w = (.ok tally, w')) (hfiles : files.Hold w'.conn.committed) :
      Happens env paths dir (.reconcile source workers w) .completed { dir with served := files }
  | interrupted {source : Source} {workers : Workers} {w w' : World} {e : PyErr} {files : Files}
      (hopen : dir.served.Hold w.conn.committed)
      (hworking : Onward w.conn.committed.buildMetadata w.conn.working.buildMetadata)
      (hrun : fullReconcile env source workers w = (.error e, w')) (hfiles : files.Hold w'.conn.committed) :
      Happens env paths dir (.reconcile source workers w) .interrupted { dir with served := files }
  | published {α : Type} {buildFn : Py α} {c : Circumstances} {result : α} {dir₁ dir' : Dir} {out : Except Halt α}
      (hcounts : Counts buildFn) (hreadable : c.buildIdRaises = false)
      (hswap : swap paths c buildFn dir = (.ok result, dir₁)) (hrun : buildAndPublish paths c buildFn dir = (out, dir')) :
      Happens env paths dir (.publish buildFn c) .completed dir'
  | aborted {α : Type} {buildFn : Py α} {c : Circumstances} {halt : Halt} {dir₁ dir' : Dir} {out : Except Halt α}
      (hswap : swap paths c buildFn dir = (.error halt, dir₁)) (hrun : buildAndPublish paths c buildFn dir = (out, dir')) :
      Happens env paths dir (.publish buildFn c) .aborted dir'

/-- An operation of a run. -/
structure Transition : Type 1 where
  before : Dir
  op : Op
  verdict : Verdict
  after : Dir

/-- A run of operations from one directory to another. -/
inductive Run (env : Env) (paths : Paths) : Dir → List Transition → Dir → Prop where
  | nil (dir : Dir) : Run env paths dir [] dir
  | cons {start dir finish : Dir} {op : Op} {verdict : Verdict} {ts : List Transition}
      (hstep : Happens env paths start op verdict dir) (hrest : Run env paths dir ts finish) :
      Run env paths start (⟨start, op, verdict, dir⟩ :: ts) finish

/-- What a counter has to do: it never goes back, a completed build raises it, an aborted publish leaves it, and nobody reads
a placeholder after a build. -/
structure Transition.Orderly (t : Transition) : Prop where
  onward : buildIdOf (rowAt t.before) ≤ buildIdOf (rowAt t.after)
  completed : t.verdict = .completed → buildIdOf (rowAt t.before) < buildIdOf (rowAt t.after)
  aborted : t.verdict = .aborted → rowAt t.after = rowAt t.before
  published : t.verdict = .completed → ∀ floor, rowAt t.after ≠ some (placeholder floor)

/-- No publish takes a database with frames in its `-wal` for garbage, removes them, and then fails to rename. -/
def Transition.Spared (paths : Paths) (t : Transition) : Prop :=
  match t.op with
  | .reconcile _ _ _ => True
  | .publish buildFn c => ¬LosesFrames paths c buildFn t.before

section Steps

variable {env : Env} {paths : Paths} {dir dir' : Dir}

theorem not_torn_of_hold {files : Files} {db : Db} (h : files.Hold db) : files.view ≠ .torn := by
  rw [h.2]
  intro htorn
  cases htorn

end Steps

/-! ### A publish that loses frames -/

/-- A publish that dies at its rename. -/
def killedAtRename : Circumstances := circumstancesOf (.ok ⟨0, 0, 0⟩) (some .crash)

end McapCatalog.Publish
