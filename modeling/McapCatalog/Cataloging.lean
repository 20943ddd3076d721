import McapCatalog.Effects

/-!
# What the cataloging calls keep

Two tables are written outside the cataloging: `tags_override` by tag edits alone, `build_metadata` by `record_build`.  A
property may rest on that: it is kept by all other statements of the builder, and so by the calls made of them.

* `Cataloging`, `Stamps` — a property that every cataloging statement keeps, and one that `record_build` keeps;
* `Cataloging.keeps_resolveIds`, `Cataloging.keeps_writeFileRow`, ... — the calls, each from its statements;
* `Cataloging.keeps_catalogObject`, `Cataloging.keeps_deleteByKey`, `Cataloging.keeps_fullReconcile` — **the items of the
  worker that are no tag edits.**
-/

namespace McapCatalog.Builder

open McapCatalog.PyText McapCatalog.PyError McapCatalog.KeyParse McapCatalog.McapSummary McapCatalog.Storage
open McapCatalog.Tables McapCatalog.RowidTable McapCatalog.KeyedRows
open McapCatalog.Connection McapCatalog.CatalogDb McapCatalog.Reconcile
open McapCatalog.SurvivingState McapCatalog.SurvivingState.Comp

/-- Every statement keeps it that neither edits user tags nor stamps a build. -/
structure Cataloging (I : Property) : Prop where
  commits : ∀ {db view caches}, I db view caches → I view view caches
  rollBack : RollsBack I
  delete : ∀ p {db view caches}, I db view caches → I db (view.deleteFiles p) caches
  failures : ∀ failures {db view caches}, I db view caches → I db { view with catalogFailures := failures } caches
  customer : Inserts I Lookup.customer
  site : Inserts I Lookup.site
  robot : Inserts I Lookup.robot
  source : Inserts I Lookup.source
  topics : ∀ {db view view' caches}, I db view caches → OnlyTopics view view' → I db view' caches
  upsert : ∀ {ids : Ids} {written now setId blob db view view' caches}, bindError (fileParams written now) = none →
    Db.upsertFile (ids.key written.dims) (fileCols written now setId blob) view = .ok view' → I db view caches →
      I db view' caches
  embedded : ∀ embedded {db view caches}, I db view caches → I db { view with tagsEmbedded := embedded } caches
  hasError : ∀ i n {db view caches}, I db view caches →
    I db { view with files := view.files.setVal i fun cols => { cols with hasError := n } } caches
  setCaches : ∀ {db view caches} caches', I db view caches → I db view caches'

/-- Stamping a build keeps it. -/
def Stamps (I : Property) : Prop :=
  ∀ now scanned failed outcome db view caches, 0 < now → I db view caches →
    I db (Db.upsertBuild now scanned failed outcome builderVersion view) caches

theorem keeps_ask {α : Type} {I : Property} {lo : ℕ} (answer : ℕ → Except PyErr α) : Keeps I lo (ask answer) fun _ => True := by
  rw [ask]
  refine keeps_tick.bind fun t _ => ?_
  cases answer t with
  | ok a => exact keeps_pure trivial
  | error e => exact keeps_raise e

/-- `full_reconcile` up to its last call, `record_build`. -/
def reconciling (env : Env) (source : Source) (workers : Workers) : Py Tally := do
  let listings ← ask source.listAll
  let stored ← query [] fun db key => (db.files.find key).map fun r => r.val.etag
  let scan ← foldEach (classify env source stored) ⟨fun _ => none, [], Tally.zero⟩ listings
  let tally ← readAndApply env source workers scan.toExtract scan.tally
  let w ← look
  let rows ← query [] fun db => db.files.rows
  let tally ← foldEach (sweepRow (present w.caches scan.dimsByKey listings)) tally rows
  commit
  pure tally

theorem fullReconcile_eq {env : Env} (source : Source) (workers : Workers) : fullReconcile env source workers =
    (reconciling env source workers >>= fun tally =>
      recordBuild env (tally.cataloged + tally.skipped) tally.failed (if tally.failed = 0 then py "ok" else py "partial")
        >>= fun _ => pure tally) := by
  rw [fullReconcile, reconciling]
  simp only [bind_bind]
  rfl

namespace Cataloging

variable {α : Type} {env : Env} {I : Property} {lo : ℕ}

theorem topicWrites (hI : Cataloging I) : TopicWrites I where
  rollBack := hI.rollBack
  topics := hI.topics
  remember _ _ _ hview := hI.setCaches _ hview

/-! ### Failures and deletions -/

theorem keeps_commit (hI : Cataloging I) : Keeps I lo commit fun _ => True := keeps_commitOf hI.rollBack hI.commits

theorem keeps_recordFailure (hI : Cataloging I) (key text : PyStr) :
    Keeps I lo (recordFailure env key text) fun _ => True :=
  (keeps_tick.bind fun _ _ => keeps_pure (Q := fun _ => True) trivial).bind fun _ _ =>
    keeps_execute hI.rollBack _ fun hview => hI.failures _ hview

theorem keeps_failed (hI : Cataloging I) (key text : PyStr) {a : α} :
    Keeps I lo (do recordFailure env key text; commit; pure a) fun _ => True :=
  (hI.keeps_recordFailure _ _).bind fun _ _ => hI.keeps_commit.bind fun _ _ => keeps_pure trivial

theorem keeps_quarantineExisting (hI : Cataloging I) (ids : Ids) (dims : Dims) (effKey text : PyStr) :
    Keeps I lo (quarantineExisting env ids dims effKey text) fun _ => True :=
  Keeps.bind (keeps_execute hI.rollBack _ fun hview => hI.delete _ hview) fun _ _ =>
    (hI.keeps_recordFailure _ _).bind fun _ _ => hI.keeps_commit

/-- **`delete_by_key`.** -/
theorem keeps_deleteByKey (hI : Cataloging I) (key : PyStr) : Keeps I lo (deleteByKey key) fun _ => True := by
  rw [deleteByKey]
  cases parseHiveKey key with
  | none => exact keeps_pure trivial
  | some dims =>
      refine keeps_look.bind fun w _ => ?_
      cases cachedIds w.caches dims with
      | none => exact keeps_pure trivial
      | some ids =>
          refine Keeps.bind (keeps_statement hI.rollBack _ fun hrun hview => ?_) fun _ _ =>
            Keeps.bind (keeps_execute hI.rollBack _ fun hview => hI.failures _ hview) fun _ _ =>
              hI.keeps_commit.bind fun _ _ => keeps_pure trivial
          cases hrun
          exact hI.delete _ hview

theorem keeps_sweepRow (hI : Cataloging I) (isPresent : FileKey → Bool) (tally : Tally) (row : Row FileKey FileCols) :
    Keeps I lo (sweepRow isPresent tally row) fun _ => True := by
  rw [sweepRow]
  split
  · exact keeps_pure trivial
  · exact Keeps.bind (keeps_execute hI.rollBack _ fun hview => hI.delete _ hview) fun _ _ => keeps_pure trivial

/-! ### Files -/

theorem keeps_resolveIds (hI : Cataloging I) (dims : Dims) : Keeps I lo (resolveIds dims) fun _ => True :=
  (keeps_resolving _ hI.rollBack hI.customer (fun _ hview => hI.setCaches _ hview) _).bind fun _ _ =>
    (keeps_resolving _ hI.rollBack hI.site (fun _ hview => hI.setCaches _ hview) _).bind fun _ _ =>
      (keeps_resolving _ hI.rollBack hI.robot (fun _ hview => hI.setCaches _ hview) _).bind fun _ _ =>
        (keeps_resolving _ hI.rollBack hI.source (fun _ hview => hI.setCaches _ hview) _).bind fun _ _ =>
          hI.keeps_commit.bind fun _ _ => keeps_pure trivial

theorem keeps_storeFile (hI : Cataloging I) (ids : Ids) (written : Written) (setId : ℕ) (counts : List ℕ) :
    Keeps I lo (storeFile env ids written setId counts) fun _ => True := by
  refine (keeps_tick.bind fun _ _ => keeps_pure (Q := fun _ => True) trivial).bind fun now _ => ?_
  refine Keeps.bind (keeps_executeBound hI.rollBack _ hI.upsert) fun _ _ => (keeps_queryId hI.rollBack _ _).bind fun fileId _ =>
    Keeps.bind (keeps_execute hI.rollBack _ fun hview => hI.embedded _ hview) fun _ _ => ?_
  refine Keeps.bind (Keeps.each (fun kv => keeps_executeChecked hI.rollBack _ fun {db view view' caches} hrun hview => ?_) _)
    fun _ _ => Keeps.bind (keeps_execute hI.rollBack _ fun hview => hI.hasError _ _ hview) fun _ _ =>
      keeps_execute hI.rollBack _ fun hview => hI.failures _ hview
  rw [Db.insertEmbedded] at hrun
  split at hrun
  · cases hrun
  · split at hrun
    · cases hrun
      exact hI.embedded _ hview
    · cases hrun

theorem keeps_writeFileRow (hI : Cataloging I) (ids : Ids) (written : Written) :
    Keeps I lo (writeFileRow env ids written) fun _ => True := by
  have htransaction : Keeps I lo (fileTransaction env ids written) fun _ => True :=
    keeps_storingTopics hI.topicWrites fun _ _ => hI.keeps_storeFile _ _ _ _
  refine (keeps_withConnOf hI.rollBack hI.commits htransaction).attempt.bind fun r _ => ?_
  cases r with
  | ok _ => exact keeps_pure trivial
  | error e =>
      exact (keeps_loadCaches hI.rollBack).bind fun caches _ =>
        Keeps.bind (Q := fun _ => True) (fun w hw => ⟨trivial, hI.setCaches _ hw.inv, hw.since⟩) fun _ _ =>
          (hI.keeps_quarantineExisting _ _ _ _).bind fun _ _ => keeps_pure trivial

theorem keeps_applyExtract (hI : Cataloging I) (ex : Extract) : Keeps I lo (applyExtract env ex) fun _ => True := by
  rw [applyExtract.eq_def]
  split
  · exact keeps_pure trivial
  · exact hI.keeps_failed _ _
  · exact hI.keeps_failed _ _
  · exact (hI.keeps_resolveIds _).bind fun _ _ =>
      (hI.keeps_quarantineExisting _ _ _ _).bind fun _ _ => keeps_pure trivial
  · exact (hI.keeps_resolveIds _).bind fun ids _ => hI.keeps_writeFileRow ids _

theorem keeps_catalogWithStat (hI : Cataloging I) (key : PyStr) (source : Source) (stat : Stat) :
    Keeps I lo (catalogWithStat env key source stat) fun _ => True := by
  refine keeps_resolveKeyDimsThen fun t => ?_
  cases trustedDims (source.intendedKey t key) key with
  | none => exact hI.keeps_failed _ _
  | some trusted =>
      refine (hI.keeps_resolveIds _).bind fun ids _ => (keeps_query hI.rollBack _ _).bind fun existing _ => ?_
      split
      · exact keeps_pure trivial
      · refine (keeps_ask _).attempt.bind fun r _ => ?_
        cases r with
        | error e => exact (hI.keeps_quarantineExisting _ _ _ _).bind fun _ _ => keeps_pure trivial
        | ok summary => exact hI.keeps_writeFileRow ids _

/-- **`catalog_object`.** -/
theorem keeps_catalogObject (hI : Cataloging I) (key : PyStr) (source : Source) (stat : Option Stat) :
    Keeps I lo (catalogObject env key source stat) fun _ => True := by
  cases stat with
  | some stat => exact hI.keeps_catalogWithStat key source stat
  | none =>
      refine (keeps_ask _).bind fun found _ => ?_
      cases found with
      | none => exact keeps_pure trivial
      | some stat => exact hI.keeps_catalogWithStat key source stat

/-! ### The reconcile -/

theorem keeps_classify (hI : Cataloging I) (source : Source) (stored : FileKey → Option PyStr) (scan : Scan) (lst : Listing) :
    Keeps I lo (classify env source stored scan lst) fun _ => True := by
  refine keeps_resolveKeyDimsThen fun t => ?_
  cases trustedDims (source.intendedKey t lst.key) lst.key with
  | none => exact hI.keeps_failed _ _
  | some trusted =>
      refine keeps_look.bind fun w _ => ?_
      dsimp only
      split
      · exact keeps_pure trivial
      · exact keeps_pure trivial

theorem keeps_readAndApply (hI : Cataloging I) (source : Source) (workers : Workers) (jobs : List Job) (tally : Tally) :
    Keeps I lo (readAndApply env source workers jobs tally) fun _ => True := by
  have hcount : ∀ lo tally ex, Keeps I lo (applyAndCount env tally ex) fun _ => True := fun lo tally ex =>
    (hI.keeps_applyExtract ex).bind fun _ _ => keeps_pure trivial
  have hone : Keeps I lo (foldEach (extractAndApply env source) tally jobs) fun _ => True :=
    Keeps.foldEach (Q := fun _ => True) (fun _ _ _ _ => keeps_tick.bind fun _ _ => keeps_tick.bind fun _ _ =>
      hcount _ _ _) _ _ (fun _ _ => trivial) trivial
  cases workers with
  | one => exact hone
  | pool run =>
      rw [readAndApply]
      split
      · exact keeps_tick.bind fun _ _ => Keeps.foldEach (Q := fun _ => True) (fun _ _ _ _ => hcount _ _ _) _ _
          (fun _ _ => trivial) trivial
      · exact hone

theorem keeps_reconciling (hI : Cataloging I) (source : Source) (workers : Workers) :
    Keeps I lo (reconciling env source workers) fun _ => True := by
  refine (keeps_ask _).bind fun listings _ => (keeps_query hI.rollBack _ _).bind fun stored _ => ?_
  refine (Keeps.foldEach (Q := fun _ => True) (fun _ _ _ _ => hI.keeps_classify _ _ _ _) _ _ (fun _ _ => trivial) trivial).bind
    fun scan _ => (hI.keeps_readAndApply _ _ _ _).bind fun tally _ => keeps_look.bind fun w _ =>
      (keeps_query hI.rollBack _ _).bind fun rows _ => ?_
  exact (Keeps.foldEach (Q := fun _ => True) (fun _ _ _ _ => hI.keeps_sweepRow _ _ _) _ _ (fun _ _ => trivial) trivial).bind
    fun _ _ => hI.keeps_commit.bind fun _ _ => keeps_pure trivial

theorem keeps_recordBuild (hI : Cataloging I) (hbuild : Stamps I) (scanned failed : ℕ) (outcome : PyStr) :
    Keeps I lo (recordBuild env scanned failed outcome) fun _ => True := by
  have hnow : Keeps I lo (nowNs env) fun now => 0 < now := keeps_tick.bind fun t _ => keeps_pure (env.timeNs_pos t)
  refine hnow.bind fun now hpos => Keeps.bind (Q := fun _ => True) ?_ fun _ _ => hI.keeps_commit
  exact keeps_execute hI.rollBack _ fun hview => hbuild _ _ _ _ _ _ _ hpos hview

/-- **`full_reconcile`**, if stamping a build keeps the property as well. -/
theorem keeps_fullReconcile (hI : Cataloging I) (hbuild : Stamps I) (source : Source) (workers : Workers) :
    Keeps I lo (fullReconcile env source workers) fun _ => True := by
  rw [fullReconcile_eq]
  exact (hI.keeps_reconciling _ _).bind fun _ _ => (hI.keeps_recordBuild hbuild _ _ _).bind fun _ _ => keeps_pure trivial

end Cataloging

end McapCatalog.Builder
