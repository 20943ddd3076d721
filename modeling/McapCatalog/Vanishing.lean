import McapCatalog.Sightings
import McapCatalog.StaleFailures
import McapCatalog.Isolation

/-!
# Objects that vanish before they are read

An object may be deleted after it was listed and before its summary is read.  `apply_extract` does nothing about it and
leaves its row to the deletion sweep, but the sweep goes by the same listing, in which the object still is.

* `classified`, `readsOf` — the listing and classification of a reconcile, and the reads it then makes, as they came out;
* `readAndApply_reads` — **the read and apply phases come to the effects of those reads**, over a source that may change;
* `Returned`, `fullReconcile_returned` — what a reconcile that returns has done;
* `Unspoken`, `Forgotten` — what should become of an object that vanished;
* `Returned.row_of_unspoken`, `Returned.failure_of_changed` — **its row is as before, and no failure is recorded for it**;
* `forgotten_iff` — **vanished objects are forgotten exactly if they had no row**;
* `vanished_kept` — an object that was overwritten, listed and deleted.
-/

namespace McapCatalog.Builder

open McapCatalog.PyText McapCatalog.PyError McapCatalog.KeyParse McapCatalog.McapSummary McapCatalog.Storage
open McapCatalog.Tables McapCatalog.RowidTable McapCatalog.KeyedRows
open McapCatalog.Connection McapCatalog.CatalogDb McapCatalog.Reconcile McapCatalog.Worker McapCatalog.Runs
open McapCatalog.SurvivingState McapCatalog.SurvivingState.Comp

/-! ### The reads of a run -/

/-- The listing and classification of `full_reconcile`. -/
def classified (env : Env) (source : Source) : Py Scan := do
  let listings ← ask source.listAll
  let stored ← query [] fun db key => (db.files.find key).map fun r => r.val.etag
  foldEach (classify env source stored) ⟨fun _ => none, [], Tally.zero⟩ listings

/-- What the sequential loop reads. -/
def sequentialReads (env : Env) (source : Source) : Tally → List Job → World → List (Job × Extract)
  | _, [], _ => []
  | tally, job :: jobs, w =>
    (job, job.extract source w.clock (w.clock + 1)) ::
      match extractAndApply env source tally job w with
      | (.ok tally', w') => sequentialReads env source tally' jobs w'
      | (.error _, _) => []

/-- What the read phase reads, in the order in which it is applied. -/
def phaseReads (env : Env) (source : Source) (workers : Workers) (jobs : List Job) (tally : Tally) (w : World) :
    List (Job × Extract) :=
  match workers with
  | .one => sequentialReads env source tally jobs w
  | .pool run =>
    if 1 < jobs.length then
      (run jobs.length).completed.map fun c =>
        (jobs.get c.job, (jobs.get c.job).extract source (w.clock + c.openAfter) (w.clock + c.openAfter + c.statAfter))
    else sequentialReads env source tally jobs w

/-- The reads of a reconcile. -/
def readsOf (env : Env) (source : Source) (workers : Workers) (w : World) : List (Job × Extract) :=
  match classified env source w with
  | (.ok scan, w₁) => phaseReads env source workers scan.toExtract scan.tally w₁
  | (.error _, _) => []

section Reads

variable {env : Env} {source : Source} {db : Db}

/-- The extract is one of the job, read at some moments. -/
def IsRead (source : Source) (read : Job × Extract) : Prop := ∃ a b, read.2 = read.1.extract source a b

/-- The read and apply phases have returned, and have refined what the reads come to. -/
def Applied (env : Env) (source : Source) (jobs : List Job) (reads : List (Job × Extract)) (tally : Tally) (db : Db)
    (out : Except PyErr Tally × World) : Prop :=
  ∃ results committed' db' t', out = (.ok (tallied tally results), viewing committed' db' t') ∧
    (reads.map Prod.fst).Perm jobs ∧ (∀ read ∈ reads, IsRead source read) ∧ Come (reads.map Prod.snd) results ∧
      Steps env (results.map Prod.snd) db db'

theorem sequentialReads_apply (hinj : FingerprintInjective env) (jobs : List Job) (hinv : CatalogInv env db) (tally : Tally)
    (committed : Db) (t : ℕ) :
    (∃ e w', foldEach (extractAndApply env source) tally jobs (viewing committed db t) = (.error e, w')) ∨
      Applied env source jobs (sequentialReads env source tally jobs (viewing committed db t)) tally db
        (foldEach (extractAndApply env source) tally jobs (viewing committed db t)) := by
  induction jobs generalizing db tally committed t with
  | nil => exact Or.inr ⟨[], committed, db, t, rfl, List.Perm.refl _, fun _ h => absurd h List.not_mem_nil, List.Forall₂.nil,
      Steps.nil db⟩
  | cons job jobs ih =>
      have happly := refinesFrom_applyExtract hinj hinv (job.extract source t (t + 1)) committed (t + 2)
      have hone : extractAndApply env source tally job (viewing committed db t) =
          (applyExtract env (job.extract source t (t + 1)) >>= fun r => pure (tally.add r.status) : Py Tally)
            (viewing committed db (t + 2)) := rfl
      rw [foldEach_cons]
      rcases hout : effectOf (job.extract source t (t + 1)) with e | ⟨result, effect⟩
      · rw [hout] at happly
        obtain ⟨w', hrun⟩ := happly
        exact Or.inl ⟨e, w', bind_of_error (hone.trans (bind_of_error hrun))⟩
      · rw [hout] at happly
        obtain ⟨committed₁, db₁, t₁, hrun, hstep⟩ := happly
        have hfirst : extractAndApply env source tally job (viewing committed db t) =
            (.ok (tally.add result.status), viewing committed₁ db₁ t₁) := hone.trans (bind_of_ok hrun)
        have hnext : (extractAndApply env source tally job >>= fun b => foldEach (extractAndApply env source) b jobs)
            (viewing committed db t) = foldEach (extractAndApply env source) (tally.add result.status) jobs
              (viewing committed₁ db₁ t₁) := bind_of_ok hfirst
        rw [hnext, sequentialReads, hfirst]
        rcases ih hstep.inv (tally.add result.status) committed₁ t₁ with
          hraised | ⟨results, committed₂, db₂, t₂, hrest, hjobs, hreads, hcome, hsteps⟩
        · exact Or.inl hraised
        · exact Or.inr ⟨(result, effect) :: results, committed₂, db₂, t₂, hrest, hjobs.cons job,
            List.forall_mem_cons.mpr ⟨⟨t, t + 1, rfl⟩, hreads⟩, List.Forall₂.cons hout hcome, Steps.cons hstep hsteps⟩

/-- **The read and apply phases**, over a source that may change: they raise, or come to the effects of their reads. -/
theorem readAndApply_reads (hinj : FingerprintInjective env) (hinv : CatalogInv env db) (workers : Workers) (jobs : List Job)
    (tally : Tally) (committed : Db) (t : ℕ) :
    (∃ e w', readAndApply env source workers jobs tally (viewing committed db t) = (.error e, w')) ∨
      Applied env source jobs (phaseReads env source workers jobs tally (viewing committed db t)) tally db
        (readAndApply env source workers jobs tally (viewing committed db t)) := by
  cases workers with
  | one => exact sequentialReads_apply hinj jobs hinv tally committed t
  | pool run =>
      rw [readAndApply, phaseReads]
      split
      · rw [bind_of_ok (tick_apply _)]
        have hcompleted : ∀ tally (c : Completed jobs.length) committed db t₁, ∃ t',
            applyCompleted env source jobs t tally c (viewing committed db t₁) =
              (applyExtract env ((jobs.get c.job).extract source (t + c.openAfter) (t + c.openAfter + c.statAfter)) >>=
                fun r => pure (tally.add r.status) : Py Tally) (viewing committed db t') :=
          fun _ _ _ _ t₁ => ⟨t₁, rfl⟩
        rcases foldEach_apply hinj hcompleted (run jobs.length).completed hinv tally committed (t + 1) with
          ⟨_, hraised⟩ | ⟨results, committed', db', t', hcome, hrun, hsteps⟩
        · exact Or.inl hraised
        · refine Or.inr ⟨results, committed', db', t', hrun, ?_, fun read hread => ?_, ?_, hsteps⟩
          · have hp := (run jobs.length).complete.map jobs.get
            rw [List.map_map, ← List.ofFn_eq_map, List.ofFn_get] at hp
            rw [List.map_map]
            exact hp
          · obtain ⟨c, _, rfl⟩ := List.mem_map.mp hread
            exact ⟨_, _, rfl⟩
          · rw [List.map_map]
            exact hcome
      · exact sequentialReads_apply hinj jobs hinv tally committed t

end Reads

/-! ### A run that returns -/

section Returning

variable {env : Env} {source : Source} {listings : List Listing} {db db' : Db} {c : ℕ}

/-- What a reconcile that returned has done: it classified the listed objects, applied its reads and swept. -/
structure Returned (env : Env) (source : Source) (listings : List Listing) (c : ℕ) (reads : List (Job × Extract))
    (db db' : Db) : Prop where
  steps : ∃ scan results db₁ db₂, Scanned env (c + 1) db (etagOf db) (sightings source (c + 1) listings) scan db₁ ∧
    (reads.map Prod.fst).Perm scan.toExtract ∧ Come (reads.map Prod.snd) results ∧
      Steps env (results.map Prod.snd) db₁ db₂ ∧ Swept (present (Caches.of db₂) scan.dimsByKey listings) db₂ db'
  reads : ∀ read ∈ reads, IsRead source read
  distinct : (listings.map Listing.key).Nodup

/-- **A reconcile that returns** has done that. -/
theorem fullReconcile_returned (hinj : FingerprintInjective env) (hinv : CatalogInv env db) (workers : Workers)
    (hlist : source.listAll c = .ok listings) (hdistinct : (listings.map Listing.key).Nodup) {committed : Db} {tally : Tally}
    {w' : World} (hreturns : fullReconcile env source workers (viewing committed db c) = (.ok tally, w')) :
    Returned env source listings c (readsOf env source workers (viewing committed db c)) db w'.conn.committed := by
  have hask := listAll_viewing hlist committed db
  have hquery := storedEtags_viewing committed db (c + 1)
  have hloop := Triple.foldEach (triple_classify env db source (c + 1) (c + 1) hdistinct) listings
    ⟨fun _ => none, [], Tally.zero⟩ (viewing committed db (c + 1)) ⟨[], committed, db, c + 1, rfl, le_refl _, rfl,
      ⟨db.catalogFailures, rfl⟩, rfl, fun _ hs => absurd hs List.not_mem_nil, fun _ hs => absurd hs List.not_mem_nil,
      fun _ _ => rfl⟩
  have hclassified : classified env source (viewing committed db c) =
      foldEach (classify env source (storedEtags db)) ⟨fun _ => none, [], Tally.zero⟩ listings
        (viewing committed db (c + 1)) := (bind_of_ok hask).trans (bind_of_ok hquery)
  rw [fullReconcile, bind_of_ok hask, bind_of_ok hquery] at hreturns
  rw [readsOf, hclassified]
  rcases hclassify : foldEach (classify env source (storedEtags db)) ⟨fun _ => none, [], Tally.zero⟩ listings
      (viewing committed db (c + 1)) with ⟨out, w₁⟩
  rw [hclassify] at hloop
  cases out with
  | error e =>
      rw [bind_of_error hclassify] at hreturns
      cases hreturns
  | ok scan =>
      obtain ⟨met, committed₁, db₁, t₁, rfl, _, hmet, hscanned⟩ := hloop
      rw [sightings, List.append_nil] at hmet
      rw [← hmet] at hscanned
      have hinv₁ : CatalogInv env db₁ := by
        obtain ⟨f, rfl⟩ := hscanned.only
        exact hinv.failures f db.buildMetadata
      rw [bind_of_ok hclassify] at hreturns
      have hphases := @readAndApply_reads _ source _ hinj hinv₁ workers scan.toExtract scan.tally committed₁ t₁
      rcases hphases with ⟨e, w', hraised⟩ | ⟨results, committed₂, db₂, t₂, happly, hjobs, hreads, hcome, hsteps⟩
      · rw [bind_of_error hraised] at hreturns
        cases hreturns
      · obtain ⟨db₃, hsweep, _, hswept⟩ := foldEach_sweepRow (present (Caches.of db₂) scan.dimsByKey listings)
          (hsteps.inv hinv₁) committed₂ (tallied scan.tally results) t₂
        have hrows := filesRows_viewing committed₂ db₂ t₂
        rw [bind_of_ok happly, bind_of_ok (look_apply _), bind_of_ok hrows] at hreturns
        change ((foldEach (sweepRow (present (Caches.of db₂) scan.dimsByKey listings)) (tallied scan.tally results)
          db₂.files.rows >>= _ : Py Tally) (viewing committed₂ db₂ t₂)) = _ at hreturns
        rw [bind_of_ok hsweep, bind_of_ok commit_viewing, bind_of_ok (recordBuild_viewing db₃ _ _ (encodable_outcome _) t₂)] at hreturns
        cases hreturns
        exact ⟨⟨scan, results, db₁, db₂, hscanned, hjobs, hcome, hsteps,
          ⟨hswept.keys, hswept.rows, hswept.overrides, hswept.failures⟩⟩, hreads, hdistinct⟩

/-! ### What becomes of an object that vanished -/

/-- The object of a listed key was read, and had vanished. -/
def VanishedAt (reads : List (Job × Extract)) (key : PyStr) : Prop :=
  ∃ read ∈ reads, read.1.key = key ∧ read.2.outcome = .vanished

/-- No listed object that was read or skipped has the identity: whatever was taken for it had vanished. -/
def Unspoken (ss : List Sighting) (reads : List (Job × Extract)) (d : Dims) : Prop :=
  ∀ s ∈ ss, s.seen.map Prod.fst = some d → VanishedAt reads s.listing.key

/-- **The objects that vanished are forgotten**: there is no row of their identities, unless another object has them, and
every failure that was recorded or cleared goes by the key of an object that had not vanished. -/
structure Forgotten (ss : List Sighting) (reads : List (Job × Extract)) (db db' : Db) : Prop where
  rows : ∀ read ∈ reads, read.2.outcome = .vanished → Unspoken ss reads read.1.dims → rowOf db' read.1.dims = none
  failures : ∀ q, (view db').failures q ≠ (view db).failures q →
    ∃ s ∈ ss, ¬VanishedAt reads s.listing.key ∧ (s.listing.key = q ∨ ∃ d, s.seen = some (d, q))

variable {reads : List (Job × Extract)}

/-- An entry of `to_extract` is of a listed object, as it was seen. -/
theorem sighting_of_job {stored : Dims → Option PyStr} {ss : List Sighting} {job : Job}
    (h : job ∈ ss.filterMap (Sighting.job stored)) :
    ∃ s ∈ ss, s.listing.key = job.key ∧ s.seen = some (job.dims, job.effKey) := by
  obtain ⟨s, hs, hjob⟩ := List.mem_filterMap.mp h
  rw [Sighting.job] at hjob
  split at hjob
  · cases hjob
  · rename_i dims effKey hseen
    split at hjob
    · cases hjob
    · cases hjob
      exact ⟨s, hs, rfl, hseen⟩

theorem Returned.sighting_of_read (h : Returned env source listings c reads db db') {read : Job × Extract}
    (hread : read ∈ reads) : ∃ s ∈ sightings source (c + 1) listings, s.listing.key = read.1.key ∧
      s.seen = some (read.1.dims, read.1.effKey) := by
  obtain ⟨scan, _, _, _, hscanned, hjobs, _⟩ := h.steps
  have hmem := hjobs.mem_iff.mp (List.mem_map_of_mem hread)
  rw [hscanned.jobs] at hmem
  exact sighting_of_job hmem

/-- Listed keys are sighted once. -/
theorem Returned.sighting_eq (h : Returned env source listings c reads db db') {s s' : Sighting}
    (hs : s ∈ sightings source (c + 1) listings) (hs' : s' ∈ sightings source (c + 1) listings)
    (hkey : s.listing.key = s'.listing.key) : s = s' := by
  have hdistinct := h.distinct
  rw [← map_listing_sightings source listings (c + 1), List.map_map] at hdistinct
  exact List.inj_on_of_nodup_map hdistinct hs hs' hkey

/-- Every object is read at most once. -/
theorem Returned.read_eq (h : Returned env source listings c reads db db') {read read' : Job × Extract}
    (hread : read ∈ reads) (hread' : read' ∈ reads) (hkey : read.1.key = read'.1.key) : read = read' := by
  obtain ⟨scan, _, _, _, hscanned, hjobs, _⟩ := h.steps
  have hkeys : (reads.map fun read => read.1.key).Nodup := by
    have hqueued : ∀ ss : List Sighting, ((ss.filterMap (Sighting.job (etagOf db))).map Job.key).Sublist
        (ss.map fun s => s.listing.key) := by
      intro ss
      induction ss with
      | nil => exact List.Sublist.refl _
      | cons s ss ih =>
          rw [List.filterMap_cons, List.map_cons]
          cases hjob : Sighting.job (etagOf db) s with
          | none => exact ih.cons _
          | some job =>
              have hmem : job ∈ [s].filterMap (Sighting.job (etagOf db)) :=
                List.mem_filterMap.mpr ⟨s, List.mem_singleton_self s, hjob⟩
              obtain ⟨_, hs, hkey, _⟩ := sighting_of_job hmem
              rw [List.mem_singleton.mp hs] at hkey
              rw [List.map_cons, ← hkey]
              exact ih.cons_cons _
    have hdistinct := h.distinct
    rw [← map_listing_sightings source listings (c + 1), List.map_map] at hdistinct
    have hperm := hjobs.map Job.key
    rw [List.map_map, hscanned.jobs] at hperm
    exact hperm.nodup_iff.mpr (hdistinct.sublist (hqueued _))
  exact List.inj_on_of_nodup_map hkeys hread hread' hkey

/-- An effect is of an object that had not vanished, about its identity and under its key. -/
theorem Returned.effect_of (h : Returned env source listings c reads db db') {results : List (CatalogResult × Effect)}
    (hcome : Come (reads.map Prod.snd) results) {e : Effect} (he : e ∈ results.map Prod.snd) (hsome : e ≠ .nothing) :
    ∃ read ∈ reads, ¬VanishedAt reads read.1.key ∧ JobEffect read.1 e := by
  obtain ⟨r, hr, rfl⟩ := List.mem_map.mp he
  obtain ⟨ex, hex, hout⟩ := exists_right_of_mem (List.Forall₂.flip hcome) hr
  obtain ⟨read, hread, rfl⟩ := List.mem_map.mp hex
  obtain ⟨a, b, hextract⟩ := h.reads read hread
  refine ⟨read, hread, ?_, jobEffect_of_extract (hextract ▸ hout)⟩
  rintro ⟨read', hread', hkey, hvanished⟩
  rw [h.read_eq hread' hread hkey] at hvanished
  have hnothing : effectOf read.2 = .ok (⟨.failed, py "vanished"⟩, .nothing) := by
    rw [effectOf, hvanished]
  rw [hnothing] at hout
  cases hout
  exact hsome rfl

/-- **The row of an identity that no object speaks for** is as it was before. -/
theorem Returned.row_of_unspoken (h : Returned env source listings c reads db db') {read : Job × Extract}
    (hread : read ∈ reads) (hunspoken : Unspoken (sightings source (c + 1) listings) reads read.1.dims) :
    rowOf db' read.1.dims = rowOf db read.1.dims := by
  obtain ⟨scan, results, db₁, db₂, hscanned, hjobs, hcome, hsteps, hswept⟩ := h.steps
  have hsame : rowOf db₂ read.1.dims = rowOf db read.1.dims := by
    obtain ⟨f, rfl⟩ := hscanned.only
    refine hsteps.others fun e he hd => ?_
    obtain ⟨read', hread', hthere, heffect⟩ := h.effect_of hcome he fun heq => by
      rw [heq] at hd
      cases hd
    have hdims : read.1.dims = read'.1.dims := heffect.dims_eq hd
    obtain ⟨s, hs, hkey, hseen⟩ := h.sighting_of_read hread'
    rw [← hkey] at hthere
    exact hthere (hunspoken s hs (by rw [hseen, hdims]; rfl))
  rw [← hsame]
  apply Option.ext
  intro r
  rw [rowOf_eq_some_iff, rowOf_eq_some_iff, hswept.keys, hswept.rows, List.mem_filter]
  refine ⟨fun hr => ⟨hr.1.1, hr.2⟩, fun hr => ⟨⟨hr.1, ?_⟩, hr.2⟩⟩
  -- The sweep goes by the listing, and finds the identity there.
  obtain ⟨s, hs, _, hseen⟩ := h.sighting_of_read hread
  have hlisted : s.listing ∈ listings := by
    rw [← map_listing_sightings source listings (c + 1)]
    exact List.mem_map_of_mem hs
  rw [present, List.any_eq_true]
  refine ⟨s.listing, hlisted, decide_eq_true ?_⟩
  rw [hscanned.dims s hs _ _ hseen]
  exact hr.2

/-- **A failure that was recorded or cleared** goes by the key of an object that had not vanished. -/
theorem Returned.failure_of_changed (h : Returned env source listings c reads db db') {q : PyStr}
    (hchanged : (view db').failures q ≠ (view db).failures q) :
    ∃ s ∈ sightings source (c + 1) listings, ¬VanishedAt reads s.listing.key ∧
      (s.listing.key = q ∨ ∃ d, s.seen = some (d, q)) := by
  obtain ⟨scan, results, db₁, db₂, hscanned, hjobs, hcome, hsteps, hswept⟩ := h.steps
  by_contra hnone
  have hnone : ∀ s ∈ sightings source (c + 1) listings, ¬VanishedAt reads s.listing.key →
      s.listing.key ≠ q ∧ ∀ d, s.seen ≠ some (d, q) := by
    intro s hs hthere
    exact ⟨fun hkey => hnone ⟨s, hs, hthere, Or.inl hkey⟩, fun d hseen => hnone ⟨s, hs, hthere, Or.inr ⟨d, hseen⟩⟩⟩
  have hclassify : (view db₁).failures q = (view db).failures q := by
    have hother : db₁.catalogFailures.lookup q = db.catalogFailures.lookup q := hscanned.others q fun s hs hseen => by
      refine (hnone s hs ?_).1
      rintro ⟨read, hread, hkey, _⟩
      obtain ⟨s', hs', hkey', hseen'⟩ := h.sighting_of_read hread
      rw [h.sighting_eq hs' hs (hkey'.trans hkey), hseen] at hseen'
      cases hseen'
    exact congrArg (Option.map Prod.snd) hother
  have happly : (view db₂).failures q = (view db₁).failures q := by
    rw [hsteps.view]
    rcases foldl_failures_cases (results.map Prod.snd) (view db₁) q with ⟨_, hsame⟩ | ⟨e, he, hkey, _⟩
    · exact hsame
    · obtain ⟨read, hread, hthere, heffect⟩ := h.effect_of hcome he fun heq => by
        rw [heq] at hkey
        cases hkey
      obtain ⟨s, hs, hsKey, hseen⟩ := h.sighting_of_read hread
      rw [← hsKey] at hthere
      exact absurd (by rw [hseen, heffect.failureKey_eq hkey]) ((hnone s hs hthere).2 read.1.dims)
  refine hchanged (Eq.trans ?_ (happly.trans hclassify))
  show (db'.catalogFailures.lookup q).map Prod.snd = (db₂.catalogFailures.lookup q).map Prod.snd
  rw [hswept.failures]

/-- **Vanished objects are forgotten exactly if they had no row**, over a source that may change in any way, from any reached
state with coherent caches. -/
theorem forgotten_iff (hinj : FingerprintInjective env) {w w' : World} (hreached : Reached env w) (hcoherent : CachesCoherent w)
    (hlist : source.listAll w.clock = .ok listings) (hdistinct : (listings.map Listing.key).Nodup) {workers : Workers}
    {tally : Tally} (hreturns : fullReconcile env source workers w = (.ok tally, w')) :
    Forgotten (sightings source (w.clock + 1) listings) (readsOf env source workers w) w.conn.working w'.conn.committed ↔
      ∀ read ∈ readsOf env source workers w, read.2.outcome = .vanished →
        Unspoken (sightings source (w.clock + 1) listings) (readsOf env source workers w) read.1.dims →
          rowOf w.conn.working read.1.dims = none := by
  have hworld := hreached.worldInv hinj
  have hviewing := viewing_of_coherent hworld hcoherent
  have hdone : Returned env source listings w.clock (readsOf env source workers w) w.conn.working w'.conn.committed := by
    rw [hviewing] at hreturns ⊢
    exact fullReconcile_returned hinj hworld.working workers hlist hdistinct hreturns
  constructor
  · intro hforgotten read hread hvanished hunspoken
    rw [← hdone.row_of_unspoken hread hunspoken]
    exact hforgotten.rows read hread hvanished hunspoken
  · intro hnone
    refine ⟨fun read hread hvanished hunspoken => ?_, fun q hchanged => hdone.failure_of_changed hchanged⟩
    rw [hdone.row_of_unspoken hread hunspoken]
    exact hnone read hread hvanished hunspoken

end Returning

/-! ### An object that was overwritten, listed and deleted -/

/-- A bucket with one object that is deleted after the moment `c`. -/
def deletedAfter (c : ℕ) : Source :=
  s3Source (fun t => if t ≤ c then (∅ : Bucket).insert sampleKey ⟨py "def", 120, 7, fun _ => .ok (some twoChannelSummary)⟩
    else ∅) []

/-- Its listing. -/
def deletedListings : List Listing := [⟨sampleKey, ⟨120, py "def", 7⟩⟩]

/-- What a reconcile of it gives over an empty catalog, and over one with its row. -/
theorem ends_deletedAfter :
    ((fullReconcile oneTopicEnv (deletedAfter 0) .one emptyWorld).1 = .ok ⟨0, 0, 1, 0⟩ ∧
      (deletedAfter 0).listAll emptyWorld.clock = .ok deletedListings ∧ (deletedListings.map Listing.key).Nodup ∧
      emptyWorld.conn.working.files.rows = []) ∧
    (fullReconcile oneTopicEnv (deletedAfter afterOneCatalog.clock) .one afterOneCatalog).1 = .ok ⟨0, 0, 1, 0⟩ ∧
      (readsOf oneTopicEnv (deletedAfter afterOneCatalog.clock) .one afterOneCatalog).map
        (fun read => (read.1.key, read.1.dims, decide (read.2.outcome = .vanished))) = [(sampleKey, sampleDims, true)] ∧
      (sightings (deletedAfter afterOneCatalog.clock) (afterOneCatalog.clock + 1) deletedListings).map
        (fun s => s.listing.key) = [sampleKey] ∧
      (rowOf (fullReconcile oneTopicEnv (deletedAfter afterOneCatalog.clock) .one afterOneCatalog).2.conn.committed
        sampleDims).isSome = true := by
  decide +kernel

theorem forgotten_iff_unknown : Forgotten (sightings (deletedAfter 0) 1 deletedListings)
    (readsOf oneTopicEnv (deletedAfter 0) .one emptyWorld) emptyWorld.conn.working
    (fullReconcile oneTopicEnv (deletedAfter 0) .one emptyWorld).2.conn.committed := by
  obtain ⟨⟨htally, hlist, hdistinct, hrows⟩, _⟩ := ends_deletedAfter
  have hreturns : fullReconcile oneTopicEnv (deletedAfter 0) .one emptyWorld =
      (.ok ⟨0, 0, 1, 0⟩, (fullReconcile oneTopicEnv (deletedAfter 0) .one emptyWorld).2) := by
    rw [← htally]
  refine (forgotten_iff fingerprintInjective_oneTopicEnv (Reached.empty 0) coherent_emptyWorld hlist hdistinct hreturns).mpr ?_
  intro read _ _ _
  cases hrow : rowOf emptyWorld.conn.working read.1.dims with
  | none => rfl
  | some r =>
      have hmem := (rowOf_eq_some_iff.mp hrow).1
      rw [hrows] at hmem
      exact absurd hmem List.not_mem_nil

/-- **An object that was cataloged, then overwritten, listed and deleted**: the old row stays, for all that the object is
gone. -/
theorem vanished_kept : Reached oneTopicEnv afterOneCatalog ∧
    (fullReconcile oneTopicEnv (deletedAfter afterOneCatalog.clock) .one afterOneCatalog).1 = .ok ⟨0, 0, 1, 0⟩ ∧
      ¬Forgotten (sightings (deletedAfter afterOneCatalog.clock) (afterOneCatalog.clock + 1) deletedListings)
        (readsOf oneTopicEnv (deletedAfter afterOneCatalog.clock) .one afterOneCatalog) afterOneCatalog.conn.working
        (fullReconcile oneTopicEnv (deletedAfter afterOneCatalog.clock) .one afterOneCatalog).2.conn.committed := by
  obtain ⟨_, htally, hreads, hkeys, hrow⟩ := ends_deletedAfter
  refine ⟨(Reached.empty 0).call _, htally, fun hforgotten => ?_⟩
  obtain ⟨read, hread, hfacts⟩ := List.mem_map.mp (hreads ▸ List.mem_singleton_self (sampleKey, sampleDims, true))
  simp only [Prod.mk.injEq, decide_eq_true_eq] at hfacts
  obtain ⟨hkey, hdims, hvanished⟩ := hfacts
  have hnone := hforgotten.rows read hread hvanished fun s hs _ => by
    refine ⟨read, hread, ?_, hvanished⟩
    have hmem := List.mem_map_of_mem (f := fun s : Sighting => s.listing.key) hs
    rw [hkeys] at hmem
    rw [hkey, List.mem_singleton.mp hmem]
  rw [hdims] at hnone
  rw [hnone] at hrow
  cases hrow

end McapCatalog.Builder
