import McapCatalog.SettledSource
import McapCatalog.Sightings

/-!
# One rescan heals, and nothing undoes it

Whatever the daemon has been through — a store that changed under its eyes, statements that failed, processes that were
killed — one full reconcile that goes through, over a store that has stopped changing, leaves the rows of the listed objects.
After that no item touches a row: it takes a change of the store, or a removal of a listed recording.

* `Consistent` — listing and HEAD of a store that does not change agree, and different keys are different recordings;
* `Healed`, `Told` — the rows are those of the listed objects, with their etags, but for objects that cannot be cataloged, and
  those have recorded failures;
* `healed_of_rescan` — **convergence**, from whatever world a run has reached;
* `Frozen` — the rows stay exactly as they are; `SettledStep` — an item, with any statements failing, or a kill;
* `healed_for_good` — **closure.**
-/

namespace McapCatalog.Builder

open McapCatalog.PyText McapCatalog.PyError McapCatalog.KeyParse McapCatalog.McapSummary McapCatalog.Storage
open McapCatalog.Tables McapCatalog.RowidTable McapCatalog.KeyedRows
open McapCatalog.Connection McapCatalog.CatalogDb McapCatalog.Reconcile McapCatalog.Worker McapCatalog.Runs
open McapCatalog.SurvivingState McapCatalog.SurvivingState.Comp
open Relation

/-- What a store answers that does not change: the listing is complete and HEAD agrees with it, different keys are different
recordings, and the texts can be stored. -/
structure Consistent (source : Source) (listings : List Listing) : Prop where
  unchanging : source.Unchanging
  listed : source.listAll 0 = .ok listings
  exist : ∀ lst ∈ listings, source.stat 0 lst.key ≠ .ok none
  complete : ∀ key stat, source.stat 0 key = .ok (some stat) → resolution source key ≠ none → ⟨key, stat⟩ ∈ listings
  distinct : (listedDims source listings).Nodup
  bindable : Bindable source listings

/-- What is read of the object cannot be cataloged. -/
def Unfit (source : Source) (lst : Listing) (dims : Dims) (effKey : PyStr) : Prop :=
  ∀ summary, source.readSummary 0 lst.key lst.stat.size = .ok summary →
    transactionError true ⟨dims, effKey, lst.stat, summary⟩ ≠ none

/-- **The rows are those of the listed objects**, with the listed etags; an object that can be cataloged has one. -/
structure Healed (source : Source) (listings : List Listing) (rows : List (Row FileKey FileCols)) : Prop where
  only : ∀ r ∈ rows, ∃ lst ∈ listings, ∃ effKey,
    resolution source lst.key = some (r.val.origin.dims, effKey) ∧ r.val.etag = lst.stat.etag
  cataloged : ∀ lst ∈ listings, ∀ dims effKey, resolution source lst.key = some (dims, effKey) →
    ¬Unfit source lst dims effKey → ∃ r ∈ rows, r.val.origin.dims = dims

/-- **A listed object without a row has a recorded failure**: under its key, or, where that does not resolve, under its raw one,
unless that is the key of another. -/
structure Told (source : Source) (listings : List Listing) (db : Db) : Prop where
  resolved : ∀ lst ∈ listings, ∀ dims effKey, resolution source lst.key = some (dims, effKey) →
    (∃ r ∈ db.files.rows, r.val.origin.dims = dims) ∨ (db.catalogFailures.lookup effKey).isSome = true
  unresolved : ∀ lst ∈ listings, resolution source lst.key = none →
    (∀ lst' ∈ listings, ∀ dims effKey, resolution source lst'.key = some (dims, effKey) → effKey ≠ lst.key) →
      (db.catalogFailures.lookup lst.key).isSome = true

section Convergence

variable {env : Env} {source : Source} {listings : List Listing} {db db' : Db} {order : List Job}
  {results : List (CatalogResult × Effect)} {lst : Listing} {dims : Dims} {effKey : PyStr}

theorem resolution_dims (h : resolution source lst.key = some (dims, effKey)) :
    (resolution source lst.key).map Prod.fst = some dims := by
  rw [h]
  rfl

/-- The row of an identity is the one that was written for it. -/
theorem DbInv.rowOf (h : DbInv env db) {r : Row FileKey FileCols} :
    rowOf db dims = some r ↔ r ∈ db.files.rows ∧ r.val.origin.dims = dims := by
  rw [rowOf_eq_some_iff]
  refine and_congr_right fun hr => ⟨fun hkey => fileKey_injective (h.named r hr) hkey, ?_⟩
  rintro rfl
  exact h.named r hr

/-- **What a reconcile leaves for a listed object**: a row with its etag, or none, and then it cannot be cataloged and its
failure is recorded. -/
theorem Reconciled.listed (h : Reconciled env source listings order results db db')
    (hc : Consistent source listings) (hlst : lst ∈ listings) (hres : resolution source lst.key = some (dims, effKey)) :
    (∃ written, (Builder.view db').files dims = some written ∧ written.stat.etag = lst.stat.etag) ∨
      ((Builder.view db').files dims = none ∧ Unfit source lst dims effKey ∧
        ((Builder.view db').failures effKey).isSome = true) := by
  by_cases hsame : ((Builder.view db).files dims).map (fun written => written.stat.etag) = some lst.stat.etag
  · obtain ⟨written, hfiles, hetag⟩ := Option.map_eq_some_iff.mp hsame
    exact Or.inl ⟨written, (h.of_skipped hc.distinct hlst hres hsame).trans hfiles, hetag⟩
  · obtain ⟨r, hout, hfiles, hfailures⟩ := h.of_queued hc.distinct hlst hres hsame
    rw [effectOf_extracted] at hout
    rcases hread : source.readSummary 0 lst.key lst.stat.size with e | summary
    · rw [hread] at hout
      have hquarantine : r.2 = .quarantine dims effKey e.errorText := by
        simp only at hout
        split at hout
        · rename_i hgone
          exact absurd hgone (hc.exist lst hlst)
        · rw [← (unlessError_eq_ok hout).2]
      rw [hquarantine] at hfiles hfailures
      refine Or.inr ⟨hfiles rfl, fun summary hsummary => ?_, by rw [hfailures rfl]; rfl⟩
      rw [hread] at hsummary
      cases hsummary
    · rw [hread] at hout
      simp only at hout
      split at hout
      · cases hout
      · rcases writeEffect_eq_ok hout with ⟨_, rfl⟩ | ⟨e, he, rfl⟩
        · exact Or.inl ⟨_, hfiles rfl, rfl⟩
        · refine Or.inr ⟨hfiles rfl, fun summary' hsummary => ?_, by rw [hfailures rfl]; rfl⟩
          rw [hread] at hsummary
          cases hsummary
          rw [he]
          exact Option.some_ne_none e

theorem Reconciled.healed (h : Reconciled env source listings order results db db')
    (hdb : DbInv env db') (hc : Consistent source listings) : Healed source listings db'.files.rows where
  only r hr := by
    obtain ⟨d, hd, hrow⟩ := h.complete hr
    obtain ⟨lst, hlst, hres⟩ := mem_listedDims.mp hd
    obtain ⟨⟨_, effKey⟩, hpair, rfl⟩ := Option.map_eq_some_iff.mp hres
    have horigin := (hdb.rowOf.mp hrow).2
    refine ⟨lst, hlst, effKey, by rw [hpair, horigin], ?_⟩
    rcases h.listed hc hlst hpair with ⟨written, hfiles, hetag⟩ | ⟨hfiles, _⟩
    · obtain ⟨r', hrow', hwritten⟩ := rowOf_of_files hfiles
      have hsame : r = r' := Option.some.inj (hrow.symm.trans hrow')
      have hcols := hdb.inv.columns r hr
      rw [hcols, hsame, hwritten]
      exact hetag
    · have hnone := rowOf_of_files_none hfiles
      rw [hrow] at hnone
      cases hnone
  cataloged lst hlst dims effKey hres hfit := by
    rcases h.listed hc hlst hres with ⟨written, hfiles, _⟩ | ⟨_, hunfit, _⟩
    · obtain ⟨r, hrow, _⟩ := rowOf_of_files hfiles
      exact ⟨r, hdb.rowOf.mp hrow⟩
    · exact absurd hunfit hfit

/-- What is seen of a failure is recorded. -/
theorem isSome_of_failures {key : PyStr} (h : ((Builder.view db).failures key).isSome = true) :
    (db.catalogFailures.lookup key).isSome = true := by
  rw [← Option.isSome_map (f := Prod.snd)]
  exact h

theorem Reconciled.told (h : Reconciled env source listings order results db db')
    (hdb : DbInv env db') (hc : Consistent source listings) : Told source listings db' where
  resolved lst hlst dims effKey hres := by
    rcases h.listed hc hlst hres with ⟨written, hfiles, _⟩ | ⟨_, _, hfailure⟩
    · obtain ⟨r, hrow, _⟩ := rowOf_of_files hfiles
      exact Or.inl ⟨r, hdb.rowOf.mp hrow⟩
    · exact Or.inr (isSome_of_failures hfailure)
  unresolved lst hlst hres hother := isSome_of_failures (by rw [h.of_unparseable hlst hres hother]; rfl)

variable {w : World}

/-- A reconcile on a connection that works, over a source that has settled. -/
theorem SoundAt.rescan (hinj : FingerprintInjective env) (h : SoundAt env w) (hsettled : SettledFrom source w.clock)
    (hc : Consistent (atMoment source w.clock) listings) (workers : Workers) :
    ∃ tally db' t', fullReconcile env source workers (scripted w []) = (.ok tally, opened db' t') ∧ DbInv env db' ∧
      Healed (atMoment source w.clock) listings db'.files.rows ∧ Told (atMoment source w.clock) listings db' := by
  have hsame : fullReconcile env source workers (scripted w []) =
      fullReconcile env (atMoment source w.clock) workers (scripted w []) := by
    have halike : Alike (SameSince w.clock) (fullReconcile env source workers)
      (fullReconcile env (atMoment source w.clock) workers) := hsettled.alike_fullReconcile workers
    obtain ⟨hexit, hworld, _⟩ := halike (scripted w []) (scripted w []) ⟨rfl, le_refl _⟩
    exact Prod.ext hexit hworld
  rcases fullReconcile_from hinj hc.unchanging h.working.inv hc.listed workers w.conn.committed w.clock with
    ⟨hblocked, _⟩ | ⟨results, db', t', hrun, hdone⟩
  · exact absurd hblocked (not_blocked_of_bindable hc.bindable _)
  rw [← h.viewing, ← hsame] at hrun
  have hsound : SoundAt env (Builder.viewing db' db' t') :=
    ((durable_sound hinj).fullReconcile source workers).ok (s := scripted w []) h hrun
  exact ⟨_, db', t', by rw [hrun, opened_eq], hsound.committed, hdone.healed hsound.committed hc, hdone.told hsound.committed hc⟩

end Convergence

/-- **Convergence.**  From any world that a run has reached, over stores that changed, with statements that failed and
processes that were killed, each ended by the item that raised: a reconcile of a store that no longer changes, and is consistent,
on a connection that works, returns, and then the rows are those of the listed objects; one without a row has a recorded
failure. -/
theorem healed_of_rescan {env : Env} (hinj : FingerprintInjective env) {source : Source} {listings : List Listing} {w : World}
    (hrun : CrashRun env w) (hsettled : SettledFrom source w.clock)
    (hc : Consistent (atMoment source w.clock) listings) (workers : Workers) :
    ∃ tally db' t', fullReconcile env source workers (scripted w []) = (.ok tally, opened db' t') ∧ DbInv env db' ∧
      Healed (atMoment source w.clock) listings db'.files.rows ∧ Told (atMoment source w.clock) listings db' :=
  (soundAt_of_crashRun hinj hrun).rescan hinj hsettled hc workers

/-- A bucket with two readable recordings, a broken one and a stray object. -/
theorem consistent_mixedSource : Consistent mixedSource mixedListings where
  unchanging := unchanging_mixedSource
  listed := listAll_mixedSource
  exist := by decide +kernel
  complete key stat hstat _ := by
    have hall : ∀ e ∈ mixedBucket.entries, (⟨e.1, e.2.stat⟩ : Listing) ∈ mixedListings := by decide +kernel
    obtain ⟨o, hlookup, rfl⟩ := Option.map_eq_some_iff.mp (Except.ok.inj hstat)
    exact hall ⟨key, o⟩ (AList.mem_lookup_iff.mp hlookup)
  distinct := nodup_listedDims_mixed
  bindable := bindable_mixedSource

theorem settledFrom_mixedSource (t : ℕ) : SettledFrom mixedSource t :=
  ⟨fun _ _ => rfl, fun _ _ => rfl, fun _ _ => rfl, fun _ _ => rfl⟩

/-- The process was killed while it cataloged a recording that is gone since. -/
theorem crashRun_staleWorld : CrashRun oneTopicEnv (Worker.restart staleWorld) :=
  ⟨0, ReflTransGen.single (CrashStep.lost _ _ _ _ siteFails)⟩

theorem healed_of_rescan_mixed : ∃ tally db' t',
    fullReconcile oneTopicEnv mixedSource .one (scripted (Worker.restart staleWorld) []) = (.ok tally, opened db' t') ∧
      DbInv oneTopicEnv db' ∧ Healed mixedSource mixedListings db'.files.rows ∧ Told mixedSource mixedListings db' :=
  healed_of_rescan fingerprintInjective_oneTopicEnv crashRun_staleWorld (settledFrom_mixedSource _) consistent_mixedSource .one

/-! ### The rows stay -/

/-- The rows of `files` are these, in what is committed and in what the connection sees. -/
def Frozen (rows : List (Row FileKey FileCols)) : Property := fun db view _ => db.files.rows = rows ∧ view.files.rows = rows

section Statements

variable {env : Env} {rows : List (Row FileKey FileCols)} {lo : ℕ}

theorem rollsBack_frozen : RollsBack (Frozen rows) := fun _ _ _ h => ⟨h.1, h.1⟩

theorem keeps_commit_frozen : Keeps (Frozen rows) lo commit fun _ => True :=
  keeps_commitOf rollsBack_frozen fun h => ⟨h.2, h.2⟩

theorem keeps_recordFailure_frozen (key text : PyStr) :
    Keeps (Frozen rows) lo (recordFailure env key text) fun _ => True :=
  (keeps_tick.bind fun _ _ => keeps_pure (Q := fun _ => True) trivial).bind fun _ _ =>
    keeps_execute rollsBack_frozen _ fun hview => hview

theorem keeps_failed_frozen {α : Type} (key text : PyStr) {a : α} :
    Keeps (Frozen rows) lo (do recordFailure env key text; commit; pure a) fun _ => True :=
  (keeps_recordFailure_frozen _ _).bind fun _ _ => keeps_commit_frozen.bind fun _ _ => keeps_pure trivial

/-- A deletion that meets no row. -/
theorem deleteFiles_frozen {p : Row FileKey FileCols → Bool} (hp : ∀ r ∈ rows, p r = false) {db view : Db} {caches : Caches}
    (h : Frozen rows db view caches) : Frozen rows db (view.deleteFiles p) caches := by
  refine ⟨h.1, ?_⟩
  show view.files.rows.filter (fun r => !p r) = rows
  rw [h.2]
  exact List.filter_eq_self.mpr fun r hr => by rw [hp r hr]; rfl

theorem keeps_quarantineExisting_frozen {ids : Ids} {dims : Dims} (hrow : ∀ r ∈ rows, r.key ≠ ids.key dims)
    (effKey text : PyStr) : Keeps (Frozen rows) lo (quarantineExisting env ids dims effKey text) fun _ => True :=
  Keeps.bind (keeps_execute rollsBack_frozen _ fun hview =>
      deleteFiles_frozen (fun r hr => decide_eq_false (hrow r hr)) hview) fun _ _ =>
    (keeps_recordFailure_frozen _ _).bind fun _ _ => keeps_commit_frozen

theorem keeps_resolveIds_frozen (dims : Dims) : Keeps (Frozen rows) lo (resolveIds dims) fun _ => True :=
  (keeps_resolve _ rollsBack_frozen (fun _ h => h) (fun _ h => h) _).bind fun _ _ =>
    (keeps_resolve _ rollsBack_frozen (fun _ h => h) (fun _ h => h) _).bind fun _ _ =>
      (keeps_resolve _ rollsBack_frozen (fun _ h => h) (fun _ h => h) _).bind fun _ _ =>
        (keeps_resolve _ rollsBack_frozen (fun _ h => h) (fun _ h => h) _).bind fun _ _ =>
          keeps_commit_frozen.bind fun _ _ => keeps_pure trivial

theorem keeps_setCaches_frozen (caches : Caches) :
    Keeps (Frozen rows) lo (change fun w => w.setCaches caches) fun _ => True := fun _ hw => ⟨trivial, hw.inv, hw.since⟩

theorem keeps_recordBuild_frozen (scanned failed : ℕ) (outcome : PyStr) :
    Keeps (Frozen rows) lo (recordBuild env scanned failed outcome) fun _ => True :=
  (keeps_tick.bind fun _ _ => keeps_pure (Q := fun _ => True) trivial).bind fun _ _ =>
    Keeps.bind (keeps_execute rollsBack_frozen _ fun hview => hview) fun _ _ => keeps_commit_frozen

/-- The statements of a tag edit. -/
theorem override_frozen {i : ℕ} {key : PyStr} {value : Option PyStr} {now : ℤ} {db view view' : Db} {caches : Caches}
    (hrun : Db.upsertOverride i key value now view = .ok view') (h : Frozen rows db view caches) :
    Frozen rows db view' caches := by
  rw [Db.upsertOverride] at hrun
  split at hrun
  · cases hrun
    exact h
  · cases hrun

/-- **A tag edit.** -/
theorem keeps_handleTagEdit_frozen (item : TagEditItem) :
    Keeps (Frozen rows) lo (handleTagEdit env item) fun _ => True := by
  have hupdate : ∀ {lo : ℕ} (fileId : ℕ), Keeps (Frozen rows) lo (updateTags env fileId item.setTags item.unsetKeys)
      fun _ => True := by
    intro lo fileId
    refine (keeps_tick.bind fun _ _ => keeps_pure (Q := fun _ => True) trivial).bind fun now _ =>
      keeps_withConnOf rollsBack_frozen (fun h => ⟨h.2, h.2⟩) ?_
    refine Keeps.bind (Keeps.each (fun kv => keeps_executeChecked rollsBack_frozen _ override_frozen) _) fun _ _ =>
      Keeps.each (fun key => ?_) _
    refine (keeps_query rollsBack_frozen _ _).bind fun embedded _ => ?_
    split
    · exact keeps_executeChecked rollsBack_frozen _ override_frozen
    · exact keeps_execute rollsBack_frozen _ fun hview => hview
  have hedit : Keeps (Frozen rows) lo (applyTagEdit env item) fun _ => True := by
    refine keeps_tick.bind fun t _ => ?_
    split
    · exact keeps_pure trivial
    · refine (keeps_query rollsBack_frozen _ _).bind fun found _ => ?_
      cases found with
      | none => exact keeps_pure trivial
      | some fileId =>
          exact (hupdate fileId).bind fun _ _ => (keeps_query rollsBack_frozen _ _).bind fun _ _ => keeps_pure trivial
  refine hedit.attempt.bind fun r _ => ?_
  cases r with
  | ok result => exact keeps_pure trivial
  | error e => exact keeps_pure trivial

end Statements

/-! ### Items of a healed catalog -/

/-- Sound, and the rows are these. -/
def Still (env : Env) (rows : List (Row FileKey FileCols)) (w : World) : Prop := SoundAt env w ∧ HoldsAt (Frozen rows) w

/-- Where a call raised: what is committed is well formed and has these rows. -/
def LeftStill (env : Env) (rows : List (Row FileKey FileCols)) (_ : PyErr) (w : World) : Prop :=
  DbInv env w.conn.committed ∧ w.conn.committed.files.rows = rows

section Calls

variable {env : Env} {rows : List (Row FileKey FileCols)} {source : Source} {listings : List Listing} {w : World}
  {dims : Dims} {effKey : PyStr} {lst : Listing} {α : Type}

theorem Still.left (h : Still env rows w) (e : PyErr) : LeftStill env rows e w := ⟨h.1.committed, h.2.1⟩

/-- A call that keeps the tables well formed, and the rows. -/
theorem still_of_keeps {m : Py α} {P : World → Prop} {Q : α → Prop} (hP : ∀ w, P w → Still env rows w)
    (hsound : Triple P m (fun _ => SoundAt env) (fun _ => CommittedIn (DbInv env)))
    (hrows : Keeps (Frozen rows) 0 m Q) : Triple P m (fun a w => Q a ∧ Still env rows w) (LeftStill env rows) := by
  have hboth := hsound.and hrows
  exact hboth.conseq (fun w hw => ⟨hw, (hP w hw).2, Nat.zero_le _⟩) (fun _ _ h => ⟨h.2.1, h.1, h.2.2.inv⟩)
    fun _ _ h => ⟨h.1, h.2.inv.1⟩

/-- ... whatever it returns. -/
theorem still_done (hinj : FingerprintInjective env) {m : Py α} {Q Q' : α → Prop} (htame : Keeps (Sound env) 0 m Q')
    (hrows : Keeps (Frozen rows) 0 m Q) : Triple (Still env rows) m (fun a w => Q a ∧ Still env rows w) (LeftStill env rows) :=
  still_of_keeps (fun _ hw => hw) (((durable_sound hinj).done htame).conseq (fun _ hw => hw.1) (fun _ _ h => h)
    fun _ _ h => h) hrows

/-- A query reads what the connection sees. -/
theorem still_query (hinj : FingerprintInjective env) (params : List Param) (read : Db → α) (P : Db → Prop) :
    Triple (fun w => Still env rows w ∧ P w.conn.working) (query params read)
      (fun a w => a = read w.conn.working ∧ Still env rows w ∧ P w.conn.working) (LeftStill env rows) := by
  intro w hw
  have hexit := still_done hinj (keeps_query (tame_sound env).rollBack params read)
    (keeps_query rollsBack_frozen params read) w hw.1
  rcases hquery : query params read w with ⟨r, w'⟩
  rw [hquery] at hexit
  cases r with
  | ok a =>
      obtain ⟨ha, hworking, _⟩ := query_of_ok hquery
      refine ⟨?_, hexit.2, ?_⟩
      · rw [hworking]
        exact ha
      · rw [hworking]
        exact hw.2
  | error e => exact hexit

/-- The row of an identity is the one under its key. -/
theorem Still.key_iff (h : Still env rows w) {k : FileKey} (hkey : fileKey w.conn.working dims = some k)
    {r : Row FileKey FileCols} (hr : r ∈ rows) : r.key = k ↔ r.val.origin.dims = dims := by
  have hnamed := h.1.working.named r (by rw [h.2.2]; exact hr)
  constructor
  · rintro rfl
    exact fileKey_injective hnamed hkey
  · rintro rfl
    exact Option.some.inj (hnamed.symm.trans hkey)

theorem Still.compositeIds (h : Still env rows w) (dims : Dims) :
    Reconcile.compositeIds w.caches dims = fileKey w.conn.working dims := by
  rw [h.1.caches]
  rfl

/-- What a healed catalog has of a listed object. -/
theorem Healed.cases (h : Healed source listings rows) (hc : Consistent source listings) (hlst : lst ∈ listings)
    (hres : resolution source lst.key = some (dims, effKey)) :
    (∃ r ∈ rows, r.val.origin.dims = dims ∧ r.val.etag = lst.stat.etag) ∨
      ((∀ r ∈ rows, r.val.origin.dims ≠ dims) ∧ Unfit source lst dims effKey) := by
  by_cases hrow : ∃ r ∈ rows, r.val.origin.dims = dims
  · obtain ⟨r, hr, horigin⟩ := hrow
    obtain ⟨lst', hlst', effKey', hres', hetag⟩ := h.only r hr
    rw [horigin] at hres'
    have hsame := eq_of_listedDims hc.distinct hlst' hlst (resolution_dims hres') (resolution_dims hres)
    rw [hsame] at hetag
    exact Or.inl ⟨r, hr, horigin, hetag⟩
  · refine Or.inr ⟨fun r hr horigin => hrow ⟨r, hr, horigin⟩, ?_⟩
    by_contra hfit
    exact hrow (h.cataloged lst hlst dims effKey hres hfit)

/-- A transaction that returns has written what can be stored. -/
theorem SoundAt.fits (hinj : FingerprintInjective env) (h : SoundAt env w) {ids : Ids} {written : Written}
    (hkey : fileKey w.conn.working written.dims = some (ids.key written.dims)) {u : Unit} {w' : World}
    (hrun : Builder.fileTransaction env ids written w = (.ok u, w')) : transactionError true written = none := by
  have hcalm := calm_fileTransaction env ids written w u w' hrun
  have hexact : onTopics (scripted w []) w.conn.working = scripted w [] := by
    rw [h.viewing]
    exact viewing_topicsExact
  have hspec := fileTransaction_onTopics (w := scripted w []) hinj rfl ids written h.working.inv.topics
  rw [hexact, idsPresent_of_fileKey hkey] at hspec
  cases herr : transactionError true written with
  | none => rfl
  | some e =>
      rw [herr] at hspec
      obtain ⟨w₁, herror, _⟩ := hspec
      rw [hcalm] at herror
      cases herror

/-- **A write that cannot be stored**: the transaction is rolled back, and there is no row to quarantine. -/
theorem still_writeFileRow (hinj : FingerprintInjective env) {ids : Ids} {written : Written}
    (hrow : ∀ r ∈ rows, r.val.origin.dims ≠ written.dims) (hunfit : transactionError true written ≠ none) :
    Triple (fun w => Still env rows w ∧ fileKey w.conn.working written.dims = some (ids.key written.dims))
      (writeFileRow env ids written) (fun _ => Still env rows) (LeftStill env rows) := by
  intro w hw
  have hexit := (durable_sound hinj).write ids written w ⟨hw.1.1, hw.2⟩
  have hrows : HoldsAt (Frozen rows) (writeFileRow env ids written w).2 := by
    rcases hrun : withConn (fileTransaction env ids written) w with ⟨r, w₁⟩
    have hatt : attempt (withConn (fileTransaction env ids written)) w = (.ok r, w₁) := by
      rw [attempt_apply, hrun]
    rw [writeFileRow, bind_of_ok hatt]
    cases r with
    | ok u =>
        obtain ⟨_, hbody, _⟩ := withConn_of_ok hrun
        exact absurd (hw.1.1.fits hinj hw.2 hbody) hunfit
    | error e =>
        obtain ⟨hcommitted, hworking⟩ := withConn_of_error (keepsCommitted_fileTransaction env ids written) hrun
        have hfrozen : HoldsAt (Frozen rows) w₁ := by
          refine ⟨?_, ?_⟩
          · rw [hcommitted]
            exact hw.1.2.1
          · rw [hworking]
            exact hw.1.2.1
        have hkeys : ∀ r ∈ rows, r.key ≠ ids.key written.dims := fun r hr hk => hrow r hr ((hw.1.key_iff hw.2 hr).mp hk)
        refine Keeps.leaves (Q := fun _ => True) ((keeps_loadCaches rollsBack_frozen).bind fun caches _ =>
          (keeps_setCaches_frozen caches).bind fun _ _ =>
            (keeps_quarantineExisting_frozen hkeys _ _).bind fun _ _ => keeps_pure trivial) hfrozen
  rcases hrun : writeFileRow env ids written w with ⟨r, w'⟩
  rw [hrun] at hexit hrows
  cases r with
  | ok _ => exact ⟨hexit, hrows⟩
  | error _ => exact ⟨hexit, hrows.1⟩

/-- The ids of an identity. -/
theorem still_resolveIds (hinj : FingerprintInjective env) (dims : Dims) : Triple (Still env rows) (resolveIds dims)
    (fun ids w => Still env rows w ∧ fileKey w.conn.working dims = some (ids.key dims)) (LeftStill env rows) := by
  have hrows : Keeps (Frozen rows) 0 (resolveIds dims) fun _ => True := keeps_resolveIds_frozen dims
  have hboth := ((durable_sound hinj).resolveIds dims).and hrows
  exact hboth.conseq (fun _ hw => ⟨hw.1, hw.2, Nat.zero_le _⟩) (fun _ _ h => ⟨⟨h.1.1, h.2.2.inv⟩, h.1.2⟩)
    fun _ _ h => ⟨h.1, h.2.inv.1⟩

/-- **A quarantine without a row.** -/
theorem still_quarantine (hinj : FingerprintInjective env) {ids : Ids} (hrow : ∀ r ∈ rows, r.val.origin.dims ≠ dims)
    (effKey text : PyStr) (a : α) :
    Triple (fun w => Still env rows w ∧ fileKey w.conn.working dims = some (ids.key dims))
      (quarantineExisting env ids dims effKey text >>= fun _ => pure a) (fun _ => Still env rows) (LeftStill env rows) := by
  intro w hw
  have hkeys : ∀ r ∈ rows, r.key ≠ ids.key dims := fun r hr hk => hrow r hr ((hw.1.key_iff hw.2 hr).mp hk)
  have hsound : Keeps (Sound env) 0 (quarantineExisting env ids dims effKey text >>= fun _ => pure a) fun _ => True :=
    (keeps_quarantineExisting (tame_sound env) ids dims effKey text).bind fun _ _ => keeps_pure trivial
  have hrows : Keeps (Frozen rows) 0 (quarantineExisting env ids dims effKey text >>= fun _ => pure a) fun _ => True :=
    (keeps_quarantineExisting_frozen hkeys effKey text).bind fun _ _ => keeps_pure trivial
  exact ((still_done hinj hsound hrows).post fun _ _ h => h.2) w hw.1

/-- The extract of an object that has no row and cannot be cataloged. -/
theorem still_applyExtract (hinj : FingerprintInjective env) (hs : source.Unchanging) {job : Job}
    (hrow : ∀ r ∈ rows, r.val.origin.dims ≠ job.dims) (hunfit : Unfit source ⟨job.key, job.stat⟩ job.dims job.effKey)
    (openAt statAt : ℕ) :
    Triple (Still env rows) (applyExtract env (job.extract source openAt statAt)) (fun _ => Still env rows)
      (LeftStill env rows) := by
  have hopen : source.readSummary openAt job.key job.stat.size = source.readSummary 0 job.key job.stat.size := by
    rw [Source.readSummary, Source.readSummary, hs.openSummary openAt 0]
  have herror : ∀ text, Triple (Still env rows)
      (applyExtract env ⟨job.key, job.stat, some job.dims, job.effKey, .error text⟩) (fun _ => Still env rows)
      (LeftStill env rows) := fun text =>
    (still_resolveIds hinj job.dims).bind fun ids => still_quarantine hinj hrow job.effKey text _
  rw [Job.extract, extractSummary, hopen]
  cases hread : source.readSummary 0 job.key job.stat.size with
  | ok summary =>
      let written : Written := ⟨job.dims, job.effKey, job.stat, summary⟩
      have hwrite : ∀ ids : Ids, Triple _ (writeFileRow env ids written) _ _ := fun ids =>
        still_writeFileRow hinj hrow (hunfit summary hread)
      exact (still_resolveIds hinj job.dims).bind hwrite
  | error e =>
      cases source.stat statAt job.key with
      | error e' => exact herror _
      | ok found =>
          cases found with
          | none => exact fun _ hw => hw
          | some stat => exact herror _

/-- **A created object of a healed catalog** is skipped, or fails again. -/
theorem still_catalogWithStat (hinj : FingerprintInjective env) (hc : Consistent source listings)
    (hh : Healed source listings rows) {key : PyStr} {stat : Stat} (hstat : source.stat 0 key = .ok (some stat)) :
    Triple (Still env rows) (catalogWithStat env key source stat) (fun _ => Still env rows) (LeftStill env rows) := by
  intro w hw
  have hresolve : resolveKeyDims key source w = (.ok (resolution source key), w.tickClock) := by
    rw [resolveKeyDims, bind_of_ok (tick_apply w), hc.unchanging.intendedKey w.clock 0]
    rfl
  rw [catalogWithStat, bind_of_ok hresolve]
  have hticked : Still env rows w.tickClock := hw
  cases hres : resolution source key with
  | none =>
      let rejected : Py CatalogResult := do
        recordFailure env key (py "unparseable key")
        commit
        pure ⟨.failed, py "unparseable key"⟩
      have hsound : Keeps (Sound env) 0 rejected fun _ => True := keeps_failed (tame_sound env) key _ trivial
      have hrows : Keeps (Frozen rows) 0 rejected fun _ => True := keeps_failed_frozen key _
      exact ((still_done hinj hsound hrows).post fun _ _ h => h.2) w.tickClock hticked
  | some trusted =>
      have hlst : (⟨key, stat⟩ : Listing) ∈ listings := hc.complete key stat hstat (by rw [hres]; exact Option.some_ne_none _)
      refine ((still_resolveIds hinj trusted.1).bind fun ids => ?_) w.tickClock hticked
      refine (still_query hinj _ _ fun db => fileKey db trusted.1 = some (ids.key trusted.1)).bind fun existing v hv => ?_
      obtain ⟨hexisting, hstill, hkey⟩ := hv
      split
      · exact hstill
      · rename_i hnew
        rcases hh.cases hc hlst hres with ⟨r, hr, horigin, hetag⟩ | ⟨hrow, hunfit⟩
        · -- the row of the object has its etag
          have hfind : v.conn.working.files.find (ids.key trusted.1) = some r :=
            Table.find_eq_some_iff.mpr ⟨by rw [hstill.2.2]; exact hr, (hstill.key_iff hkey hr).mpr horigin⟩
          rw [hexisting, hfind] at hnew
          exact absurd (congrArg some hetag) hnew
        · have hread : source.readSummary v.clock key stat.size = source.readSummary 0 key stat.size := by
            rw [Source.readSummary, Source.readSummary, hc.unchanging.openSummary v.clock 0]
          rw [bind_of_ok (attempt_ask _ v), hread]
          cases hsummary : source.readSummary 0 key stat.size with
          | error e => exact still_quarantine hinj hrow trusted.2 _ _ v.tickClock ⟨hstill, hkey⟩
          | ok summary =>
              let written : Written := ⟨trusted.1, trusted.2, stat, summary⟩
              have hwrite : Triple _ (writeFileRow env ids written) _ _ := still_writeFileRow hinj hrow (hunfit summary hsummary)
              exact hwrite v.tickClock ⟨hstill, hkey⟩

theorem still_ask (answer : ℕ → Except PyErr α) :
    Triple (Still env rows) (ask answer) (fun a w => (∃ t, answer t = .ok a) ∧ Still env rows w) (LeftStill env rows) := by
  intro w hw
  rw [ask, bind_of_ok (tick_apply w)]
  have hticked : Still env rows w.tickClock := hw
  cases hanswer : answer w.clock with
  | ok a => exact ⟨⟨w.clock, hanswer⟩, hticked⟩
  | error e => exact hticked.left e

/-- **`catalog_object`.** -/
theorem still_catalogObject (hinj : FingerprintInjective env) (hc : Consistent source listings)
    (hh : Healed source listings rows) (key : PyStr) :
    Triple (Still env rows) (catalogObject env key source none) (fun _ => Still env rows) (LeftStill env rows) := by
  refine (still_ask _).bind fun found => ?_
  cases found with
  | none => exact fun _ hw => hw.2
  | some stat =>
      rintro w ⟨⟨t, ht⟩, hw⟩
      rw [hc.unchanging.stat t 0] at ht
      exact still_catalogWithStat hinj hc hh ht w hw

/-- **A removal of a recording that is not listed**: there is no row. -/
theorem still_deleteByKey (hinj : FingerprintInjective env) {key : PyStr}
    (hspared : ∀ dims, parseHiveKey key = some dims → ∀ r ∈ rows, r.val.origin.dims ≠ dims) :
    Triple (Still env rows) (deleteByKey key) (fun _ => Still env rows) (LeftStill env rows) := by
  intro w hw
  have htame : Keeps (Sound env) 0 (deleteByKey key) fun _ => True := keeps_deleteByKey (tame_sound env) key
  have hsound := (durable_sound hinj).done htame w hw.1
  have hrows : HoldsAt (Frozen rows) (deleteByKey key w).2 := by
    rw [deleteByKey]
    cases hparse : parseHiveKey key with
    | none => exact hw.2
    | some dims =>
        dsimp only
        rw [bind_of_ok (look_apply w)]
        have hcached := hw.compositeIds dims
        cases hids : cachedIds w.caches dims with
        | none => exact hw.2
        | some ids =>
            rw [Reconcile.compositeIds, hids] at hcached
            have hkeys : ∀ r ∈ rows, r.key ≠ ids.key dims := fun r hr hk =>
              hspared dims hparse r hr ((hw.key_iff hcached.symm hr).mp hk)
            refine Keeps.leaves (Q := fun _ => True) ?_ hw.2
            refine Keeps.bind (keeps_statement rollsBack_frozen _ fun hrun hview => ?_) fun _ _ =>
              Keeps.bind (keeps_execute rollsBack_frozen _ fun hview => hview) fun _ _ =>
                keeps_commit_frozen.bind fun _ _ => keeps_pure trivial
            cases hrun
            exact deleteFiles_frozen (fun r hr => decide_eq_false (hkeys r hr)) hview
  rcases hrun : deleteByKey key w with ⟨r, w'⟩
  rw [hrun] at hsound hrows
  cases r with
  | ok _ => exact ⟨hsound, hrows⟩
  | error _ => exact ⟨hsound, hrows.1⟩

/-! ### A reconcile of a healed catalog -/

/-- What the classification of some listings leaves: their identities are remembered, and only objects are queued that have
no row and cannot be cataloged. -/
structure Sorted (source : Source) (rows : List (Row FileKey FileCols)) (done : List Listing) (scan : Scan) : Prop where
  dims : ∀ lst ∈ done, ∀ dims effKey, resolution source lst.key = some (dims, effKey) → scan.dimsByKey lst.key = some dims
  jobs : ∀ job ∈ scan.toExtract, (∀ r ∈ rows, r.val.origin.dims ≠ job.dims) ∧
    Unfit source ⟨job.key, job.stat⟩ job.dims job.effKey

theorem Sorted.unresolved {done : List Listing} {scan : Scan} (h : Sorted source rows done scan)
    (hres : resolution source lst.key = none) (tally : Tally) :
    Sorted source rows (done ++ [lst]) { scan with tally := tally } where
  dims lst' hlst' dims effKey hres' := by
    cases List.mem_append.mp hlst' with
    | inl hdone => exact h.dims lst' hdone dims effKey hres'
    | inr hnew =>
        rw [List.mem_singleton.mp hnew, hres] at hres'
        cases hres'
  jobs := h.jobs

/-- The entry of one more listing. -/
theorem Sorted.resolved {done : List Listing} {scan : Scan} (h : Sorted source rows done scan)
    (hres : resolution source lst.key = some (dims, effKey)) {toExtract : List Job}
    (hjobs : ∀ job ∈ toExtract, (∀ r ∈ rows, r.val.origin.dims ≠ job.dims) ∧
      Unfit source ⟨job.key, job.stat⟩ job.dims job.effKey) (tally : Tally) :
    Sorted source rows (done ++ [lst]) ⟨Function.update scan.dimsByKey lst.key (some dims), toExtract, tally⟩ where
  dims lst' hlst' dims' effKey' hres' := by
    show Function.update scan.dimsByKey lst.key (some dims) lst'.key = some dims'
    by_cases hkey : lst'.key = lst.key
    · rw [hkey] at hres' ⊢
      rw [hres] at hres'
      cases hres'
      exact Function.update_self ..
    · rw [Function.update_of_ne hkey]
      cases List.mem_append.mp hlst' with
      | inl hdone => exact h.dims lst' hdone dims' effKey' hres'
      | inr hnew => exact absurd (congrArg Listing.key (List.mem_singleton.mp hnew)) hkey
  jobs := hjobs

/-- **One listing**: an object that has its row is skipped. -/
theorem still_classify (hinj : FingerprintInjective env) (hc : Consistent source listings)
    (hh : Healed source listings rows) {stored : FileKey → Option PyStr}
    (hstored : ∀ r ∈ rows, stored r.key = some r.val.etag) {done : List Listing} {scan : Scan}
    (hscan : Sorted source rows done scan) (hlst : lst ∈ listings) :
    Triple (Still env rows) (classify env source stored scan lst)
      (fun scan' w => Sorted source rows (done ++ [lst]) scan' ∧ Still env rows w) (LeftStill env rows) := by
  intro w hw
  have hresolve : resolveKeyDims lst.key source w = (.ok (resolution source lst.key), w.tickClock) := by
    rw [resolveKeyDims, bind_of_ok (tick_apply w), hc.unchanging.intendedKey w.clock 0]
    rfl
  rw [classify, bind_of_ok hresolve]
  have hticked : Still env rows w.tickClock := hw
  cases hres : resolution source lst.key with
  | none =>
      have hnext := hscan.unresolved hres (scan.tally.add .failed)
      exact still_done hinj (keeps_failed (Q := fun _ => True) (tame_sound env) _ _ trivial)
        ((keeps_recordFailure_frozen _ _).bind fun _ _ => keeps_commit_frozen.bind fun _ _ => keeps_pure hnext)
        w.tickClock hticked
  | some trusted =>
      dsimp only
      rw [bind_of_ok (look_apply w.tickClock)]
      split
      · exact ⟨hscan.resolved hres hscan.jobs _, hticked⟩
      · rename_i hqueued
        refine ⟨hscan.resolved hres (fun job hjob => ?_) _, hticked⟩
        cases List.mem_append.mp hjob with
        | inl hold => exact hscan.jobs job hold
        | inr hnew =>
            rw [List.mem_singleton.mp hnew]
            rcases hh.cases hc hlst hres with ⟨r, hr, horigin, hetag⟩ | hdoomed
            · -- a row with the listed etag is not queued
              have hnamed := hw.1.working.named r (by rw [hw.2.2]; exact hr)
              rw [horigin] at hnamed
              have hcomp : Reconcile.compositeIds w.tickClock.caches trusted.1 = some r.key :=
                (hticked.compositeIds trusted.1).trans hnamed
              rw [hcomp, Option.bind_some, hstored r hr, hetag] at hqueued
              exact absurd rfl hqueued
            · exact hdoomed

/-- **The read and apply phases.** -/
theorem still_readAndApply (hinj : FingerprintInjective env) (hs : source.Unchanging) (workers : Workers) {jobs : List Job}
    (hjobs : ∀ job ∈ jobs, (∀ r ∈ rows, r.val.origin.dims ≠ job.dims) ∧
      Unfit source ⟨job.key, job.stat⟩ job.dims job.effKey) (tally : Tally) :
    Triple (Still env rows) (readAndApply env source workers jobs tally) (fun _ => Still env rows) (LeftStill env rows) := by
  have hcount : ∀ job ∈ jobs, ∀ tally openAt statAt,
      Triple (Still env rows) (applyAndCount env tally (job.extract source openAt statAt)) (fun _ => Still env rows)
        (LeftStill env rows) := fun job hjob tally openAt statAt =>
    (still_applyExtract hinj hs (hjobs job hjob).1 (hjobs job hjob).2 openAt statAt).bind fun _ _ hw => hw
  have htick : Triple (Still env rows) tick (fun _ => Still env rows) (LeftStill env rows) := fun _ hw => hw
  have hone : Triple (Still env rows) (foldEach (extractAndApply env source) tally jobs) (fun _ => Still env rows)
      (LeftStill env rows) := by
    have hloop := Triple.foldEach (I := fun as _ w => (∀ job ∈ as, job ∈ jobs) ∧ Still env rows w)
      (f := extractAndApply env source) (E := LeftStill env rows) (fun tally job as w hw => ?_) jobs tally
    · exact hloop.conseq (fun _ hw => ⟨fun _ h => h, hw⟩) (fun _ _ h => h.2) fun _ _ h => h
    · have hround := (htick.bind fun openAt => htick.bind fun statAt =>
        hcount job (hw.1 job List.mem_cons_self) tally openAt statAt) w hw.2
      exact hround.mono (fun _ _ h => ⟨fun job hjob => hw.1 job (List.mem_cons_of_mem _ hjob), h⟩) fun _ _ h => h
  cases workers with
  | one => exact hone
  | pool run =>
      rw [readAndApply]
      split
      · exact htick.bind fun start => Triple.foldEach (I := fun _ _ => Still env rows)
          (fun tally c _ => hcount _ (List.get_mem jobs c.job) tally _ _) _ tally
      · exact hone

/-- **The sweep** deletes no row of a listed recording. -/
theorem still_sweep {isPresent : FileKey → Bool} (hpresent : ∀ r ∈ rows, isPresent r.key = true) (tally : Tally) :
    Triple (Still env rows) (foldEach (sweepRow isPresent) tally rows) (fun _ => Still env rows) (LeftStill env rows) := by
  have hloop := Triple.foldEach (I := fun as _ w => (∀ r ∈ as, isPresent r.key = true) ∧ Still env rows w)
    (f := sweepRow isPresent) (E := LeftStill env rows) (fun tally r as w hw => ?_) rows tally
  · exact hloop.conseq (fun _ hw => ⟨hpresent, hw⟩) (fun _ _ h => h.2) fun _ _ h => h
  · rw [sweepRow, if_pos (hw.1 r List.mem_cons_self)]
    exact ⟨fun r hr => hw.1 r (List.mem_cons_of_mem _ hr), hw.2⟩

/-- **`full_reconcile`.** -/
theorem still_fullReconcile (hinj : FingerprintInjective env) (hc : Consistent source listings)
    (hh : Healed source listings rows) (workers : Workers) :
    Triple (Still env rows) (fullReconcile env source workers) (fun _ => Still env rows) (LeftStill env rows) := by
  refine (still_ask _).bind fun found => ?_
  rintro w ⟨⟨t, ht⟩, hw⟩
  rw [hc.unchanging.listAll t 0, hc.listed] at ht
  rw [← Except.ok.inj ht]
  revert w
  show ∀ w, Still env rows w → _
  have hquery : Triple (Still env rows) (query [] fun db key => (db.files.find key).map fun r => r.val.etag)
      (fun stored w => (∀ r ∈ rows, stored r.key = some r.val.etag) ∧ Still env rows w) (LeftStill env rows) := by
    refine (still_query hinj [] _ fun _ => True).conseq (fun _ hw => ⟨hw, trivial⟩) (fun stored w h => ?_) fun _ _ h => h
    obtain ⟨hread, hstill, _⟩ := h
    refine ⟨fun r hr => ?_, hstill⟩
    have hfind : w.conn.working.files.find r.key = some r := Table.find_of_mem (by rw [hstill.2.2]; exact hr)
    rw [hread]
    dsimp only
    rw [hfind]
    rfl
  refine hquery.bind fun stored => ?_
  rintro w ⟨hstored, hw⟩
  revert w
  show ∀ w, Still env rows w → _
  refine Triple.bind (Q := fun scan w => Sorted source rows listings scan ∧ Still env rows w) ?_ fun scan => ?_
  · have hloop := Triple.foldEach
      (I := fun as scan w => (∃ done, done ++ as = listings ∧ Sorted source rows done scan) ∧ Still env rows w)
      (f := classify env source stored) (E := LeftStill env rows) (fun scan lst as w hw => ?_) listings
      ⟨fun _ => none, [], Tally.zero⟩
    · refine hloop.conseq (fun _ hw => ⟨⟨[], rfl, ?_, ?_⟩, hw⟩) (fun _ _ h => ?_) fun _ _ h => h
      · exact fun _ h => absurd h List.not_mem_nil
      · exact fun _ h => absurd h List.not_mem_nil
      · obtain ⟨⟨done, hdone, hsorted⟩, hstill⟩ := h
        rw [List.append_nil] at hdone
        rw [hdone] at hsorted
        exact ⟨hsorted, hstill⟩
    · obtain ⟨⟨done, hdone, hsorted⟩, hstill⟩ := hw
      have hlst : lst ∈ listings := by
        rw [← hdone]
        exact List.mem_append_right _ List.mem_cons_self
      refine (still_classify hinj hc hh hstored hsorted hlst w hstill).mono (fun _ _ h => ⟨⟨done ++ [lst], ?_, h.1⟩, h.2⟩)
        fun _ _ h => h
      rw [List.append_assoc]
      exact hdone
  rintro w ⟨hsorted, hw⟩
  revert w
  show ∀ w, Still env rows w → _
  refine (still_readAndApply hinj hc.unchanging workers hsorted.jobs scan.tally).bind fun tally w hw => ?_
  rw [bind_of_ok (look_apply w)]
  have hpresent : ∀ r ∈ rows, present w.caches scan.dimsByKey listings r.key = true := by
    intro r hr
    obtain ⟨lst, hlst, effKey, hres, _⟩ := hh.only r hr
    refine List.any_eq_true.mpr ⟨lst, hlst, decide_eq_true ?_⟩
    rw [hsorted.dims lst hlst _ _ hres, Option.bind_some, hw.compositeIds]
    exact hw.1.working.named r (by rw [hw.2.2]; exact hr)
  have hrest : Triple (Still env rows) (do
      let rows ← query [] fun db => db.files.rows
      let tally ← foldEach (sweepRow (present w.caches scan.dimsByKey listings)) tally rows
      commit
      recordBuild env (tally.cataloged + tally.skipped) tally.failed (if tally.failed = 0 then py "ok" else py "partial")
      pure tally) (fun _ => Still env rows) (LeftStill env rows) := by
    refine Triple.bind (Q := fun found w => found = rows ∧ Still env rows w)
      ((still_query hinj [] (fun db => db.files.rows) fun _ => True).conseq (fun _ hw => ⟨hw, trivial⟩)
        (fun found w h => ⟨h.1.trans h.2.1.2.2, h.2.1⟩) fun _ _ h => h) fun found => ?_
    rintro v ⟨rfl, hv⟩
    refine ((still_sweep hpresent tally).bind fun tally => ?_) v hv
    refine (still_done hinj (keeps_commit (tame_sound env)) keeps_commit_frozen).bind fun _ => ?_
    refine Triple.bind (Q := fun _ => Still env found) ((still_done hinj (keeps_recordBuild (tame_sound env) _ _ _)
      (keeps_recordBuild_frozen _ _ _)).conseq (fun _ h => h.2) (fun _ _ h => h.2) fun _ _ h => h) fun _ _ hw => hw
  exact hrest w hw

/-! ### Runs -/

/-- The item is no removal of a listed recording. -/
def SparesListed (source : Source) (listings : List Listing) : WorkItem → Prop
  | .delete path => ∀ dims, parseHiveKey (source.eventKey path) = some dims → dims ∉ listedDims source listings
  | _ => True

/-- **One item of a healed catalog.** -/
theorem still_dispatch (hinj : FingerprintInjective env) (hc : Consistent source listings)
    (hh : Healed source listings rows) (workers : Workers) {item : WorkItem} (hspared : SparesListed source listings item) :
    Triple (Still env rows) (dispatch env source workers item) (fun _ => Still env rows) (LeftStill env rows) := by
  cases item with
  | tagEdit edit =>
      exact (still_done hinj (keeps_handleTagEdit (tame_sound env) edit) (keeps_handleTagEdit_frozen edit)).bind
        fun _ _ hw => hw.2
  | stop => exact fun _ hw => hw
  | catalog path =>
      refine Triple.bind (Q := fun _ => Still env rows) (fun _ hw => hw) fun t => ?_
      split
      · exact (still_catalogObject hinj hc hh _).bind fun _ _ hw => hw
      · exact fun _ hw => hw
  | delete path =>
      refine (still_deleteByKey hinj fun dims hparse r hr horigin => ?_).bind fun _ _ hw => hw
      obtain ⟨lst, hlst, effKey, hres, _⟩ := hh.only r hr
      rw [horigin] at hres
      exact hspared dims hparse (mem_listedDims.mpr ⟨lst, hlst, resolution_dims hres⟩)
  | rescan => exact (still_fullReconcile hinj hc hh workers).bind fun _ _ hw => hw

/-- Time goes on. -/
theorem clock_dispatch (env : Env) (source : Source) (workers : Workers) (item : WorkItem) (w : World) :
    w.clock ≤ (dispatch env source workers item w).2.clock := by
  have hany := EventPath.cataloging_any
  have hkeeps : Keeps (fun _ _ _ => True) w.clock (dispatch env source workers item) fun _ => True := by
    cases item with
    | tagEdit edit => exact (keeps_handleTagEdit closed_any.tame edit).bind fun _ _ => keeps_pure trivial
    | stop => exact keeps_pure trivial
    | catalog path =>
        refine keeps_tick.bind fun t _ => ?_
        split
        · exact (hany.keeps_catalogObject _ _ _).bind fun _ _ => keeps_pure trivial
        · exact keeps_pure trivial
    | delete path => exact (hany.keeps_deleteByKey _).bind fun _ _ => keeps_pure trivial
    | rescan =>
        exact (hany.keeps_fullReconcile (fun _ _ _ _ _ _ _ _ _ => trivial) source workers).bind fun _ _ =>
          keeps_pure trivial
  exact (hkeeps.after ⟨trivial, le_refl _⟩).since

end Calls

/-- One step after a source has settled: an item that removes no listed recording, whose statements fail as any script says,
and that returns; or one that is the last of its process. -/
inductive SettledStep (env : Env) (source : Source) (t₀ : ℕ) (listings : List Listing) : World → World → Prop where
  | item (workers : Workers) (item : WorkItem) (w : World) (script : List (Option Fault)) (reply : Option TagEditResult)
      (hspared : SparesListed (atMoment source t₀) listings item)
      (h : (dispatch env source workers item (scripted w script)).1 = .ok reply) :
      SettledStep env source t₀ listings w (workItem env source workers item (scripted w script)).2
  | lost (workers : Workers) (item : WorkItem) (w : World) (script : List (Option Fault))
      (hspared : SparesListed (atMoment source t₀) listings item) :
      SettledStep env source t₀ listings w (Worker.restart (workItem env source workers item (scripted w script)).2)

section Runs

variable {env : Env} {source : Source} {listings : List Listing} {rows : List (Row FileKey FileCols)} {t₀ : ℕ} {w w' : World}

/-- **One step**: the rows stay. -/
theorem Still.step (hinj : FingerprintInjective env) (hsettled : SettledFrom source t₀)
    (hc : Consistent (atMoment source t₀) listings) (hh : Healed (atMoment source t₀) listings rows)
    (h : Still env rows w) (hw : t₀ ≤ w.clock) (hstep : SettledStep env source t₀ listings w w') :
    Still env rows w' ∧ t₀ ≤ w'.clock := by
  have hexits : ∀ (workers : Workers) (item : WorkItem) (script : List (Option Fault)),
      SparesListed (atMoment source t₀) listings item →
      Exit (fun _ => Still env rows) (LeftStill env rows) (dispatch env source workers item (scripted w script)) ∧
        t₀ ≤ (dispatch env source workers item (scripted w script)).2.clock := by
    intro workers item script hspared
    have hscripted : t₀ ≤ (scripted w script).clock := hw
    refine ⟨?_, hscripted.trans (clock_dispatch env source workers item _)⟩
    rw [dispatch_settled env hsettled workers item hscripted]
    exact still_dispatch hinj hc hh workers hspared (scripted w script) h
  cases hstep with
  | item workers item _ script reply hspared hreturned =>
      obtain ⟨hexit, hclock⟩ := hexits workers item script hspared
      rw [workItem_world]
      rcases hrun : dispatch env source workers item (scripted w script) with ⟨r, w'⟩
      rw [hrun] at hreturned hexit hclock
      cases hreturned
      exact ⟨hexit, hclock⟩
  | lost workers item _ script hspared =>
      obtain ⟨hexit, hclock⟩ := hexits workers item script hspared
      rw [workItem_world, Worker.restart, opened_eq]
      rcases hrun : dispatch env source workers item (scripted w script) with ⟨r, w'⟩
      rw [hrun] at hexit hclock
      refine ⟨?_, hclock⟩
      cases r with
      | ok reply => exact ⟨sound_opened hexit.1.committed, hexit.2.1, hexit.2.1⟩
      | error e => exact ⟨sound_opened hexit.1, hexit.2, hexit.2⟩

theorem Still.steps (hinj : FingerprintInjective env) (hsettled : SettledFrom source t₀)
    (hc : Consistent (atMoment source t₀) listings) (hh : Healed (atMoment source t₀) listings rows)
    (h : Still env rows w) (hw : t₀ ≤ w.clock) (hrun : ReflTransGen (SettledStep env source t₀ listings) w w') :
    Still env rows w' ∧ t₀ ≤ w'.clock := by
  induction hrun with
  | refl => exact ⟨h, hw⟩
  | tail _ hstep ih => exact ih.1.step hinj hsettled hc hh ih.2 hstep

/-- What a rescan that heals leaves. -/
theorem still_of_rescan (hinj : FingerprintInjective env) (hrun : CrashRun env w) (hsettled : SettledFrom source w.clock)
    (hc : Consistent (atMoment source w.clock) listings) (workers : Workers) :
    ∃ rows, Healed (atMoment source w.clock) listings rows ∧
      Still env rows (workItem env source workers .rescan (scripted w [])).2 ∧
      w.clock ≤ (workItem env source workers .rescan (scripted w [])).2.clock := by
  obtain ⟨tally, db', t', hreturned, hdb, hhealed, _⟩ :=
    (soundAt_of_crashRun hinj hrun).rescan hinj hsettled hc workers
  have hdispatch : dispatch env source workers .rescan (scripted w []) = (.ok none, opened db' t') := by
    rw [dispatch, bind_of_ok hreturned]
    rfl
  have hclock := clock_dispatch env source workers .rescan (scripted w [])
  rw [workItem_world, hdispatch] at *
  refine ⟨db'.files.rows, hhealed, ⟨?_, rfl, rfl⟩, hclock⟩
  rw [opened_eq]
  exact sound_opened hdb

/-- **Closure.**  After a rescan that heals, whatever else the worker does — created objects once more, rescans, tag edits,
removals of what is not listed, with statements that fail and processes that are killed — every row of `files` stays exactly
as the rescan left it, on the connection and on disk, and the rows are those of the listed objects. -/
theorem healed_for_good (hinj : FingerprintInjective env) (hrun : CrashRun env w) (hsettled : SettledFrom source w.clock)
    (hc : Consistent (atMoment source w.clock) listings) (workers : Workers)
    (hlater : ReflTransGen (SettledStep env source w.clock listings)
      (workItem env source workers .rescan (scripted w [])).2 w') :
    w'.conn.committed.files.rows = (workItem env source workers .rescan (scripted w [])).2.conn.committed.files.rows ∧
      w'.conn.working.files.rows = w'.conn.committed.files.rows ∧
      Healed (atMoment source w.clock) listings w'.conn.committed.files.rows ∧ CachesCoherent w' := by
  obtain ⟨rows, hhealed, hstill, hclock⟩ := still_of_rescan hinj hrun hsettled hc workers
  obtain ⟨⟨hsound, hcommitted, hworking⟩, _⟩ := hstill.steps hinj hsettled hc hhealed hclock hlater
  refine ⟨hcommitted.trans hstill.2.1.symm, hworking.trans hcommitted.symm, ?_, hsound.coherent⟩
  rw [hcommitted]
  exact hhealed

/-- The broken recording is created once more, and the process is killed. -/
theorem healed_for_good_mixed : ∃ w w' : World,
    w = (workItem oneTopicEnv mixedSource .one .rescan (scripted (Worker.restart staleWorld) [])).2 ∧
      w' = Worker.restart (workItem oneTopicEnv mixedSource .one (.catalog brokenKey) (scripted w siteFails)).2 ∧
      w'.conn.committed.files.rows = w.conn.committed.files.rows :=
  ⟨_, _, rfl, rfl, (healed_for_good fingerprintInjective_oneTopicEnv crashRun_staleWorld (settledFrom_mixedSource _)
    consistent_mixedSource .one (ReflTransGen.single (SettledStep.lost .one (.catalog brokenKey) _ siteFails trivial))).1⟩

end Runs

end McapCatalog.Builder
