import McapCatalog.Effects
import McapCatalog.ReadBack

/-!
# What a file id means over time

`files.id` is a plain `INTEGER PRIMARY KEY`: a new row gets one more than the largest id in the table, so an id is given
out again once its row and every row above it are gone.

* `holder` — the identity that holds an id;
* `Since` — how a database differs from an earlier one of the same file: which ids were deleted, and that a new row's id
  is above every row that was not;
* `CallStep` — one call of a run, with any script of failing statements (so also what a crash in the middle leaves);
* `holder_changes_only_above` — **an id comes to be held by an identity only after every row with that id or a larger one
  is deleted**;
* `reused_id` — an id that moves on to another recording.
-/

namespace McapCatalog.Builder

open McapCatalog.PyText McapCatalog.KeyParse McapCatalog.McapSummary McapCatalog.Storage McapCatalog.Tables
open McapCatalog.RowidTable
open McapCatalog.Connection McapCatalog.CatalogDb McapCatalog.Worker McapCatalog.Runs
open Relation

/-- The identity that holds an id. -/
def holder (db : Db) (i : ℕ) : Option Dims := (db.files.get i).bind fun r => db.namesOf r.key

/-- The row is still there, under the same id and the same key. -/
def Remains (r : Row FileKey FileCols) (db : Db) : Prop := ∃ r' ∈ db.files.rows, r'.id = r.id ∧ r'.key = r.key

/-- `db` is a later state of the file that was `base`, and `gone` are the ids deleted since, newest first. -/
structure Since (base db : Db) (gone : List ℕ) : Prop where
  removed : db.removed = gone ++ base.removed
  names : NamesGrow base db
  kept : ∀ r ∈ base.files.rows, Remains r db ∨ r.id ∈ gone
  fresh : ∀ r' ∈ db.files.rows, Remains r' base ∨ ∀ r ∈ base.files.rows, r'.id ≤ r.id → r.id ∈ gone

theorem Since.refl (db : Db) : Since db db [] where
  removed := rfl
  names := NamesGrow.refl db
  kept r hr := Or.inl ⟨r, hr, rfl, rfl⟩
  fresh r hr := Or.inl ⟨r, hr, rfl, rfl⟩

theorem Since.trans {a b c : Db} {gone gone' : List ℕ} (h : Since a b gone) (h' : Since b c gone') :
    Since a c (gone' ++ gone) where
  removed := by rw [h'.removed, h.removed, List.append_assoc]
  names := h.names.trans h'.names
  kept r hr := by
    cases h.kept r hr with
    | inr hgone => exact Or.inr (List.mem_append_right _ hgone)
    | inl hremains =>
        obtain ⟨r', hr', hid, hkey⟩ := hremains
        cases h'.kept r' hr' with
        | inr hgone => exact Or.inr (List.mem_append_left _ (hid ▸ hgone))
        | inl hremains' =>
            obtain ⟨r'', hr'', hid', hkey'⟩ := hremains'
            exact Or.inl ⟨r'', hr'', hid'.trans hid, hkey'.trans hkey⟩
  fresh r'' hr'' := by
    cases h'.fresh r'' hr'' with
    | inl hremains =>
        obtain ⟨r', hr', hid, hkey⟩ := hremains
        cases h.fresh r' hr' with
        | inl hremains' =>
            obtain ⟨r, hr, hid', hkey'⟩ := hremains'
            exact Or.inl ⟨r, hr, hid'.trans hid, hkey'.trans hkey⟩
        | inr habove => exact Or.inr fun r hr hle => List.mem_append_right _ (habove r hr (hid ▸ hle))
    | inr habove =>
        -- whatever was above the new row in `a` was deleted on the way to `b`, or is above it in `b`
        refine Or.inr fun r hr hle => ?_
        cases h.kept r hr with
        | inr hgone => exact List.mem_append_right _ hgone
        | inl hremains =>
            obtain ⟨r', hr', hid, _⟩ := hremains
            exact List.mem_append_left _ (hid ▸ habove r' hr' (hid ▸ hle))

/-- `db` is a later state of the file that was `base`. -/
def Later (base db : Db) : Prop := ∃ gone, Since base db gone

theorem Later.trans {a b c : Db} (h : Later a b) (h' : Later b c) : Later a c :=
  ⟨_, h.choose_spec.trans h'.choose_spec⟩

/-! ### Statements -/

theorem since_deleteFiles (p : Row FileKey FileCols → Bool) (db : Db) :
    Since db (db.deleteFiles p) ((db.files.rows.filter p).map Row.id) where
  removed := rfl
  names := .of_eq rfl rfl rfl rfl
  kept r hr := by
    cases hp : p r with
    | false => exact Or.inl ⟨r, Table.mem_filter.mpr ⟨hr, by rw [hp]; rfl⟩, rfl, rfl⟩
    | true => exact Or.inr (List.mem_map_of_mem (List.mem_filter.mpr ⟨hr, hp⟩))
  fresh r hr := Or.inl ⟨r, (Table.mem_filter.mp hr).1, rfl, rfl⟩

theorem Beside.since {db db' : Db} (h : Beside db db') : Since db db' [] where
  removed := h.removed
  names := h.toNamesGrow
  kept r hr := Or.inl ⟨r, by rw [h.files]; exact hr, rfl, rfl⟩
  fresh r hr := Or.inl ⟨r, by rw [← h.files]; exact hr, rfl, rfl⟩

/-- **The upsert** keeps the id of a row with the key, and gives a new row an id above all others. -/
theorem since_upsert (db : Db) (key : FileKey) (cols : FileCols) :
    Since db { db with files := db.files.upsert key cols } [] where
  removed := rfl
  names := .of_eq rfl rfl rfl rfl
  kept r hr := by
    refine Or.inl ?_
    by_cases hkey : r.key = key
    · refine ⟨_, Table.mem_upsert.mpr (Or.inr rfl), ?_, hkey.symm⟩
      show db.files.upsertId key = r.id
      rw [Table.upsertId, ← hkey, Table.idOf_of_mem hr]
      rfl
    · exact ⟨r, Table.mem_upsert.mpr (Or.inl ⟨hr, hkey⟩), rfl, rfl⟩
  fresh r' hr' := by
    cases Table.mem_upsert.mp hr' with
    | inl hold => exact Or.inl ⟨r', hold.1, rfl, rfl⟩
    | inr hnew =>
        cases hfind : db.files.find key with
        | some r =>
            obtain ⟨hr, hkey⟩ := Table.find_eq_some_iff.mp hfind
            refine Or.inl ⟨r, hr, ?_, by rw [hnew, hkey]⟩
            rw [hnew]
            show r.id = db.files.upsertId key
            rw [Table.upsertId, Table.idOf, hfind]
            rfl
        | none =>
            refine Or.inr fun r hr hle => absurd (db.files.id_lt_nextId hr) (not_lt.mpr ?_)
            have hid : r'.id = db.files.nextId := by
              rw [hnew]
              show db.files.upsertId key = _
              rw [Table.upsertId, Table.idOf, hfind]
              rfl
            rw [← hid]
            exact hle

theorem since_setVal (db : Db) (i : ℕ) (f : FileCols → FileCols) :
    Since db { db with files := db.files.setVal i f } [] where
  removed := rfl
  names := .of_eq rfl rfl rfl rfl
  kept r hr := by
    refine Or.inl ?_
    by_cases hid : r.id = i
    · exact ⟨_, Table.mem_setVal.mpr (Or.inr ⟨r, hr, hid, rfl⟩), rfl, rfl⟩
    · exact ⟨r, Table.mem_setVal.mpr (Or.inl ⟨hr, hid⟩), rfl, rfl⟩
  fresh r' hr' := by
    cases Table.mem_setVal.mp hr' with
    | inl hold => exact Or.inl ⟨r', hold.1, rfl, rfl⟩
    | inr hnew =>
        obtain ⟨r, hr, _, heq⟩ := hnew
        exact Or.inl ⟨r, hr, by rw [heq], by rw [heq]⟩

/-! ### Runs -/

/-- Every file refers to dimension rows that are there. -/
def Referenced (db : Db) : Prop := ∀ r ∈ db.files.rows, idsPresent db (keyIds r.key) = true

/-- What is committed is a later state of `base`, and what the connection sees of what is committed. -/
def Grows (base : Db) : Property := fun db view _ =>
  (Later base db ∧ Referenced db) ∧ Later db view ∧ Referenced view

/-- **Every statement keeps it.** -/
theorem closed_grows (base : Db) : Closed (Grows base) Set.univ where
  commit h := ⟨⟨h.1.1.trans h.2.1, h.2.2⟩, ⟨[], Since.refl _⟩, h.2.2⟩
  rollBack _ _ _ h := ⟨h.1, ⟨[], Since.refl _⟩, h.1.2⟩
  delete p _ view _ h :=
    ⟨h.1, h.2.1.trans ⟨_, since_deleteFiles p view⟩, fun r hr => h.2.2 r (Table.mem_filter.mp hr).1⟩
  beside h hbeside := by
    refine ⟨h.1, h.2.1.trans ⟨[], hbeside.since⟩, fun r hr => ?_⟩
    rw [hbeside.files] at hr
    exact idsPresent_of_namesGrow hbeside.toNamesGrow (h.2.2 r hr)
  upsert _ hrun h := by
    rw [Db.upsertFile] at hrun
    split at hrun
    · rename_i hrefs
      cases hrun
      refine ⟨h.1, h.2.1.trans ⟨[], since_upsert _ _ _⟩, fun r hr => ?_⟩
      cases Table.mem_upsert.mp hr with
      | inl hold => exact h.2.2 r hold.1
      | inr hnew =>
          rw [hnew]
          exact (Bool.and_eq_true_iff.mp hrefs).1
    · cases hrun
  hasError i n _ view _ h := by
    refine ⟨h.1, h.2.1.trans ⟨[], since_setVal view i _⟩, fun r hr => ?_⟩
    cases Table.mem_setVal.mp hr with
    | inl hold => exact h.2.2 r hold.1
    | inr hnew =>
        obtain ⟨r₀, hr₀, _, heq⟩ := hnew
        rw [heq]
        exact h.2.2 r₀ hr₀
  setCaches _ h := h

/-- **One call of a run**, with any script of failing statements.  What a crash leaves committed is what a call leaves
whose remaining statements all fail. -/
def CallStep (env : Env) (w w' : World) : Prop := ∃ c script, w' = Call.run env (scripted w script) c

/-- A run goes on from `w`: what is committed is a later state of what was. -/
theorem grows_of_run {env : Env} {base : Db} {w w' : World}
    (hw : Grows base w.conn.committed w.conn.working w.caches) (hrun : ReflTransGen (CallStep env) w w') :
    Grows base w'.conn.committed w'.conn.working w'.caches := by
  induction hrun with
  | refl => exact hw
  | @tail v _ _ hstep ih =>
      obtain ⟨c, script, rfl⟩ := hstep
      have hv : Grows base (scripted v script).conn.committed (scripted v script).conn.working (scripted v script).caches :=
        ih
      exact inv_call (closed_grows base) hv c

/-- **An id comes to be held by an identity only from above.**  Between any two moments of a run, if `Y` holds the id `i`
at the second and not at the first, every row that had the id `i` or a larger one at the first has been deleted. -/
theorem holder_changes_only_above {env : Env} {t : ℕ} {w w' : World}
    (hrun : ReflTransGen (CallStep env) (opened Db.empty t) w) (hrun' : ReflTransGen (CallStep env) w w') :
    ∃ gone, w'.conn.committed.removed = gone ++ w.conn.committed.removed ∧
      ∀ i Y, holder w'.conn.committed i = some Y → holder w.conn.committed i ≠ some Y →
        ∀ r ∈ w.conn.committed.files.rows, i ≤ r.id → r.id ∈ gone := by
  have hempty : Grows Db.empty (opened Db.empty t).conn.committed (opened Db.empty t).conn.working
      (opened Db.empty t).caches :=
    ⟨⟨⟨[], Since.refl _⟩, fun _ hr => absurd hr List.not_mem_nil⟩, ⟨[], Since.refl _⟩,
      fun _ hr => absurd hr List.not_mem_nil⟩
  have hw := grows_of_run hempty hrun
  have hw' := grows_of_run ⟨⟨⟨[], Since.refl _⟩, hw.1.2⟩, hw.2⟩ hrun'
  obtain ⟨gone, hsince⟩ := hw'.1.1
  refine ⟨gone, hsince.removed, fun i Y hY hnot => ?_⟩
  obtain ⟨r', hget, hnames⟩ := Option.bind_eq_some_iff.mp hY
  obtain ⟨hr', rfl⟩ := Table.get_eq_some_iff.mp hget
  cases hsince.fresh r' hr' with
  | inr habove => exact habove
  | inl hremains =>
      obtain ⟨r, hr, hid, hkey⟩ := hremains
      refine absurd ?_ hnot
      rw [holder, ← hid, Table.get_of_mem hr]
      show w.conn.committed.namesOf r.key = some Y
      rw [← namesOf_of_namesGrow hsince.names (hw.1.2 r hr), hkey]
      exact hnames

/-! ### An id that moves on -/

/-- A folder, by its code points. -/
def shortFolder : PyStr :=
  [99, 117, 115, 116, 111, 109, 101, 114, 61, 99, 47, 99, 117, 115, 116, 111, 109, 101, 114, 95, 115, 105, 116, 101, 61, 115,
   47, 114, 111, 98, 111, 116, 61, 114, 47, 115, 111, 117, 114, 99, 101, 61, 98, 47, 100, 97, 116, 101, 61, 50, 48, 50, 54, 45,
   48, 53, 45, 49, 57, 47]

theorem shortFolder_eq : shortFolder = py "customer=c/customer_site=s/robot=r/source=b/date=2026-05-19/" := by decide +kernel

/-- Two recordings of one robot. -/
def earlierKey : PyStr := shortFolder ++ py "a.mcap"

def laterKey : PyStr := shortFolder ++ py "b.mcap"

/-- A recording without messages. -/
def blankSummary : Summary := ⟨some ⟨10, 20, 0, 0, ∅⟩, [], ∅⟩

/-- A bucket with one readable recording under the given key. -/
def bucketOf (key : PyStr) : Bucket :=
  (∅ : Bucket).insert key ⟨py "abc", 100, 5, fun _ => .ok (some blankSummary)⟩

/-- One recording is cataloged. -/
def earlierCataloged : World :=
  (Call.catalogObject earlierKey (s3Source (fun _ => bucketOf earlierKey) []) none).run oneTopicEnv (opened Db.empty 0)

/-- It is deleted, and another one is cataloged. -/
def laterCataloged : World :=
  (Call.catalogObject laterKey (s3Source (fun _ => bucketOf laterKey) []) none).run oneTopicEnv
    ((Call.deleteByKey earlierKey).run oneTopicEnv earlierCataloged)

/-- The identities of the two recordings. -/
def earlierDims : Dims := ⟨py "c", py "s", py "r", py "b", py "2026-05-19", py "a.mcap"⟩

def laterDims : Dims := { earlierDims with filename := py "b.mcap" }

/-- A call on a connection that works is a step of a run. -/
theorem callStep_of_reached {env : Env} (hinj : FingerprintInjective env) {w : World} (hw : Reached env w) (c : Call) :
    CallStep env w (c.run env w) :=
  ⟨c, [], by rw [scripted_of_quiet (hw.worldInv hinj).quiet]⟩

theorem run_earlierCataloged : ReflTransGen (CallStep oneTopicEnv) (opened Db.empty 0) earlierCataloged :=
  ReflTransGen.single (callStep_of_reached fingerprintInjective_oneTopicEnv (Reached.empty 0) _)

theorem run_laterCataloged : ReflTransGen (CallStep oneTopicEnv) earlierCataloged laterCataloged := by
  have hfirst : Reached oneTopicEnv earlierCataloged := (Reached.empty 0).call _
  have hdelete := callStep_of_reached fingerprintInjective_oneTopicEnv hfirst (Call.deleteByKey earlierKey)
  exact (ReflTransGen.single hdelete).tail
    (callStep_of_reached fingerprintInjective_oneTopicEnv (hfirst.call (Call.deleteByKey earlierKey)) _)

theorem holder_earlierCataloged : holder earlierCataloged.conn.committed 1 = some earlierDims := by decide +kernel

theorem holder_laterCataloged : holder laterCataloged.conn.committed 1 = some laterDims := by decide +kernel

theorem holder_changes_only_above_later :
    ∃ gone, laterCataloged.conn.committed.removed = gone ++ earlierCataloged.conn.committed.removed ∧
      ∀ r ∈ earlierCataloged.conn.committed.files.rows, 1 ≤ r.id → r.id ∈ gone := by
  obtain ⟨gone, hgone, habove⟩ := holder_changes_only_above run_earlierCataloged run_laterCataloged
  refine ⟨gone, hgone, habove 1 laterDims holder_laterCataloged ?_⟩
  rw [holder_earlierCataloged]
  decide

/-- An id that an identity held at some moment of a run is held by no other one later. -/
def KeepsMeaning (env : Env) : Prop :=
  ∀ t w w' i X Y, ReflTransGen (CallStep env) (opened Db.empty t) w → ReflTransGen (CallStep env) w w' →
    holder w.conn.committed i = some X → holder w'.conn.committed i = some Y → X = Y

/-- **An id that moves on**: the only recording is deleted, and the next one gets its id. -/
theorem reused_id : ¬KeepsMeaning oneTopicEnv := by
  intro hkeeps
  have hsame := hkeeps 0 earlierCataloged laterCataloged 1 earlierDims laterDims run_earlierCataloged run_laterCataloged
    holder_earlierCataloged holder_laterCataloged
  exact absurd hsame (by decide)

end McapCatalog.Builder
