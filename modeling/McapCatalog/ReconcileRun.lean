import McapCatalog.Sequences

/-!
# The full reconcile of an unchanging source

From a freshly opened catalog, over a source that does not change during the run.

* `resolution`, `triage` — what the classification decides about a listing;
* `classify_loop`, `readAndApply_viewing` — the two loops, the second for every way the reads can complete;
* `Reconciled` — what a reconcile that returns has done: three changes, each a list of effects or the sweep;
* `fullReconcile_from`, `fullReconcile_viewing` — **a reconcile raises because some name or text cannot be bound, or it
  returns and has done that**.
-/

namespace McapCatalog.Builder

open McapCatalog.PyText McapCatalog.PyError McapCatalog.KeyParse McapCatalog.McapSummary
open McapCatalog.Storage McapCatalog.Tables McapCatalog.RowidTable McapCatalog.KeyedRows
open McapCatalog.Connection McapCatalog.CatalogDb McapCatalog.Reconcile
open McapCatalog.SurvivingState McapCatalog.SurvivingState.Comp

/-! ### Classification -/

/-- What a key of an unchanging source resolves to. -/
def resolution (source : Source) (key : PyStr) : Option (Dims × PyStr) := trustedDims (source.intendedKey 0 key) key

/-- What the classification decides about a listing. -/
inductive Triage where
  | unparseable
  | skipped
  | queued (job : Job)

/-- The decision, from the logical catalog. -/
def triage (source : Source) (c : Logical) (lst : Listing) : Triage :=
  match resolution source lst.key with
  | none => .unparseable
  | some (dims, effKey) =>
    if (c.files dims).map (fun written => written.stat.etag) = some lst.stat.etag then .skipped
    else .queued ⟨lst.key, lst.stat, dims, effKey⟩

/-- The job it queues. -/
def Triage.job : Triage → Option Job
  | .queued job => some job
  | _ => none

/-- What it adds to the tally. -/
def Triage.count (tally : Tally) : Triage → Tally
  | .unparseable => tally.add .failed
  | .skipped => tally.add .skipped
  | .queued _ => tally

/-- What it does to the catalog. -/
def Triage.effect (lst : Listing) : Triage → Option Effect
  | .unparseable => some (.failure lst.key (py "unparseable key"))
  | _ => none

/-- The jobs a reconcile queues. -/
def jobsOf (source : Source) (c : Logical) (listings : List Listing) : List Job :=
  listings.filterMap fun lst => (triage source c lst).job

/-- The failures its classification records. -/
def unparseableOf (source : Source) (c : Logical) (listings : List Listing) : List Effect :=
  listings.filterMap fun lst => (triage source c lst).effect lst

/-- The tally after classification. -/
def triaged (source : Source) (c : Logical) (listings : List Listing) (tally : Tally) : Tally :=
  listings.foldl (fun tally lst => (triage source c lst).count tally) tally

theorem triaged_deleted (source : Source) (c : Logical) (listings : List Listing) (tally : Tally) :
    (triaged source c listings tally).deleted = tally.deleted := by
  induction listings generalizing tally with
  | nil => rfl
  | cons lst listings ih =>
      rw [triaged, List.foldl_cons]
      refine (ih _).trans ?_
      cases triage source c lst <;> rfl

/-- A listing whose key does not resolve and cannot be recorded either. -/
def Unrecordable (source : Source) (lst : Listing) : Prop :=
  resolution source lst.key = none ∧ failureError lst.key (py "unparseable key") ≠ none

variable {env : Env} {source : Source} {db : Db}

theorem resolveKeyDims_viewing (hs : source.Unchanging) (key : PyStr) (committed db : Db) (t : ℕ) :
    resolveKeyDims key source (viewing committed db t) =
      (.ok (resolution source key), viewing committed db (t + 1)) := by
  rw [resolution, hs.intendedKey 0 t]
  rfl

/-- The etag under an identity's key is the one its row was written with. -/
theorem etag_under_key (hinv : CatalogInv env db) (dims : Dims) :
    (fileKey db dims).bind (fun key => (db.files.find key).map fun r => r.val.etag) =
      ((view db).files dims).map fun written => written.stat.etag := by
  show _ = (((fileKey db dims).bind db.files.find).map _).map _
  rcases fileKey db dims with _ | key
  · rfl
  · rw [Option.bind_some, Option.bind_some, Option.map_map]
    rcases hf : db.files.find key with _ | r
    · rfl
    · have hcols := hinv.columns r (Table.find_eq_some_iff.mp hf).1
      show some r.val.etag = some r.val.origin.stat.etag
      rw [hcols]
      rfl

/-- The database with other failure rows. -/
abbrev withFailures (db : Db) (f : Rows PyStr (ℤ × PyStr)) : Db := { db with catalogFailures := f }

/-- The etags the classification compares with. -/
abbrev storedEtags (db : Db) : FileKey → Option PyStr := fun key => (db.files.find key).map fun r => r.val.etag

/-- The scan after one more listing. -/
def Scan.next (source : Source) (c : Logical) (scan : Scan) (lst : Listing) : Scan where
  dimsByKey := if (resolution source lst.key).isSome then
      Function.update scan.dimsByKey lst.key ((resolution source lst.key).map Prod.fst)
    else scan.dimsByKey
  toExtract := scan.toExtract ++ (triage source c lst).job.toList
  tally := (triage source c lst).count scan.tally

/-- One round of the classification. -/
theorem classify_viewing (hs : source.Unchanging) (hinv : CatalogInv env db)
    (f : Rows PyStr (ℤ × PyStr)) (scan : Scan) (lst : Listing) (committed : Db) (t : ℕ) :
    (Unrecordable source lst ∧ ∃ e w', classify env source (storedEtags db) scan lst
        (viewing committed (withFailures db f) t) = (.error e, w')) ∨
      ∃ committed' f' t', classify env source (storedEtags db) scan lst
          (viewing committed (withFailures db f) t) =
        (.ok (Scan.next source (view db) scan lst), viewing committed' (withFailures db f') t') ∧
        Steps env ((triage source (view db) lst).effect lst).toList (withFailures db f) (withFailures db f') ∧
        ¬Unrecordable source lst := by
  have hinvf : CatalogInv env (withFailures db f) := hinv.failures f db.buildMetadata
  have hdims := resolveKeyDims_viewing hs lst.key committed (withFailures db f) t
  rw [Scan.next, triage]
  rcases hres : resolution source lst.key with _ | ⟨dims, effKey⟩
  · rw [hres] at hdims
    rcases hf : failureError lst.key (py "unparseable key") with _ | e
    · refine Or.inr ⟨Db.upsertFailure lst.key (env.timeNs (t + 1)) (py "unparseable key") (withFailures db f),
        f.insert lst.key (env.timeNs (t + 1), py "unparseable key"), t + 2, ?_,
        Steps.cons (effectStep_failure hinvf lst.key (env.timeNs (t + 1)) (py "unparseable key")) (Steps.nil _),
        fun h => h.2 hf⟩
      refine (bind_of_ok hdims).trans ((bind_of_ok (recordFailure_ok viewing_quiet hf)).trans
        ((bind_of_ok (commit_quiet viewing_quiet)).trans ?_))
      simp only [Triage.job, Triage.count, Option.toList_none, List.append_nil]
      rfl
    · exact Or.inl ⟨⟨hres, by rw [hf]; simp⟩, e, _,
        (bind_of_ok hdims).trans (bind_of_error (recordFailure_error viewing_quiet hf))⟩
  · rw [hres] at hdims
    have hrecordable : ¬Unrecordable source lst := fun h => by
      rw [Unrecordable, hres] at h
      cases h.1
    have hetag : (compositeIds (viewing committed (withFailures db f) (t + 1)).caches dims).bind
        (storedEtags db) = ((view db).files dims).map fun written => written.stat.etag := etag_under_key hinv dims
    simp only
    by_cases hsame : ((view db).files dims).map (fun written => written.stat.etag) = some lst.stat.etag
    · rw [if_pos hsame]
      refine Or.inr ⟨committed, f, t + 1, ?_, Steps.nil _, hrecordable⟩
      refine (bind_of_ok hdims).trans ((bind_of_ok (look_apply _)).trans ?_)
      simp only [hetag]
      rw [if_pos hsame]
      simp only [Triage.job, Triage.count, Option.toList_none, List.append_nil]
      rfl
    · rw [if_neg hsame]
      refine Or.inr ⟨committed, f, t + 1, ?_, Steps.nil _, hrecordable⟩
      refine (bind_of_ok hdims).trans ((bind_of_ok (look_apply _)).trans ?_)
      simp only [hetag]
      rw [if_neg hsame]
      rfl

/-- **The classification loop.** -/
theorem classify_loop (hs : source.Unchanging) (hinv : CatalogInv env db) (listings : List Listing)
    (f : Rows PyStr (ℤ × PyStr)) (scan : Scan) (committed : Db) (t : ℕ) :
    ((∃ lst ∈ listings, Unrecordable source lst) ∧
        ∃ e w', foldEach (classify env source (storedEtags db)) scan listings
          (viewing committed (withFailures db f) t) = (.error e, w')) ∨
      ∃ committed' f' t', foldEach (classify env source (storedEtags db)) scan listings
          (viewing committed (withFailures db f) t) =
        (.ok (listings.foldl (Scan.next source (view db)) scan),
          viewing committed' (withFailures db f') t') ∧
        Steps env (unparseableOf source (view db) listings) (withFailures db f) (withFailures db f') ∧
        ∀ lst ∈ listings, ¬Unrecordable source lst := by
  induction listings generalizing f scan committed t with
  | nil => exact Or.inr ⟨committed, f, t, rfl, Steps.nil _, fun _ h => absurd h List.not_mem_nil⟩
  | cons lst listings ih =>
      rw [foldEach_cons]
      rcases classify_viewing hs hinv f scan lst committed t with
        ⟨hbad, e, w', hrun⟩ | ⟨committed₁, f₁, t₁, hrun, hstep, hgood⟩
      · exact Or.inl ⟨⟨lst, List.mem_cons_self, hbad⟩, e, w', bind_of_error hrun⟩
      · rcases ih f₁ (Scan.next source (view db) scan lst) committed₁ t₁ with
          ⟨⟨lst', hmem, hbad⟩, e, w', hrest⟩ | ⟨committed₂, f₂, t₂, hrest, hsteps, hall⟩
        · exact Or.inl ⟨⟨lst', List.mem_cons_of_mem _ hmem, hbad⟩, e, w', (bind_of_ok hrun).trans hrest⟩
        · refine Or.inr ⟨committed₂, f₂, t₂, (bind_of_ok hrun).trans hrest, ?_, List.forall_mem_cons.mpr ⟨hgood, hall⟩⟩
          rw [unparseableOf, List.filterMap_cons]
          rcases heffect : (triage source (view db) lst).effect lst with _ | effect
          · rw [heffect] at hstep
            cases hstep
            exact hsteps
          · rw [heffect] at hstep
            cases hstep with
            | cons hone hnil =>
                cases hnil
                exact Steps.cons hone hsteps

/-- What the scan knows in the end. -/
theorem foldl_scan (source : Source) (c : Logical) (listings : List Listing) (scan : Scan) :
    (listings.foldl (Scan.next source c) scan).toExtract = scan.toExtract ++ jobsOf source c listings ∧
      (listings.foldl (Scan.next source c) scan).tally = triaged source c listings scan.tally ∧
      ∀ key, (listings.foldl (Scan.next source c) scan).dimsByKey key =
        if key ∈ listings.map Listing.key ∧ (resolution source key).isSome then
          (resolution source key).map Prod.fst
        else scan.dimsByKey key := by
  induction listings generalizing scan with
  | nil => exact ⟨(List.append_nil _).symm, rfl, fun key => by simp⟩
  | cons lst listings ih =>
      obtain ⟨h1, h2, h3⟩ := ih (Scan.next source c scan lst)
      refine ⟨?_, ?_, ?_⟩
      · have hjobs : jobsOf source c (lst :: listings) =
            (triage source c lst).job.toList ++ jobsOf source c listings := by
          rw [jobsOf, List.filterMap_cons]
          cases (triage source c lst).job <;> rfl
        rw [List.foldl_cons, h1, hjobs, ← List.append_assoc]
        rfl
      · rw [List.foldl_cons, h2]
        rfl
      · intro key
        rw [List.foldl_cons, h3 key, List.map_cons]
        have hnext : (Scan.next source c scan lst).dimsByKey key =
            if (resolution source lst.key).isSome then
              Function.update scan.dimsByKey lst.key ((resolution source lst.key).map Prod.fst) key
            else scan.dimsByKey key := by
          rw [Scan.next]
          simp only
          split <;> rfl
        rw [hnext]
        by_cases hkey : key = lst.key
        · subst hkey
          by_cases hsome : (resolution source lst.key).isSome = true
          · simp [hsome]
          · simp [hsome]
        · by_cases hsome : (resolution source lst.key).isSome = true <;> simp [hkey, hsome]

/-! ### Reading and applying -/

/-- The extract of a job of an unchanging source. -/
def extracted (source : Source) (job : Job) : Extract := job.extract source 0 0

theorem extract_eq_extracted (hs : source.Unchanging) (job : Job) (a b : ℕ) :
    job.extract source a b = extracted source job := by
  have hread : source.readSummary a = source.readSummary 0 := by
    funext key size
    rw [Source.readSummary, Source.readSummary, hs.openSummary a 0]
  rw [extracted, Job.extract, Job.extract, extractSummary, extractSummary, hread, hs.stat b 0]

/-- The order in which the jobs are applied. -/
def appliedOrder (workers : Workers) (jobs : List Job) : List Job :=
  match workers with
  | .one => jobs
  | .pool run => if 1 < jobs.length then (run jobs.length).completed.map fun c => jobs.get c.job else jobs

theorem appliedOrder_perm (workers : Workers) (jobs : List Job) : (appliedOrder workers jobs).Perm jobs := by
  cases workers with
  | one => exact List.Perm.refl _
  | pool run =>
      rw [appliedOrder]
      split
      · have hp := (run jobs.length).complete.map jobs.get
        rwa [List.map_map, ← List.ofFn_eq_map, List.ofFn_get] at hp
      · exact List.Perm.refl _

/-- **The read and apply phases**, for every way the reads complete. -/
theorem readAndApply_viewing (hinj : FingerprintInjective env) (hs : source.Unchanging) (hinv : CatalogInv env db)
    (workers : Workers) (jobs : List Job) (tally : Tally) (committed : Db) (t : ℕ) :
    ((∃ job ∈ jobs, ∃ e, effectOf (extracted source job) = .error e) ∧
        ∃ e w', readAndApply env source workers jobs tally (viewing committed db t) = (.error e, w')) ∨
      ∃ (results : List (CatalogResult × Effect)) (committed' db' : Db) (t' : ℕ),
        Come ((appliedOrder workers jobs).map (extracted source)) results ∧
        readAndApply env source workers jobs tally (viewing committed db t) =
          (.ok (tallied tally results), viewing committed' db' t') ∧
        Steps env (results.map Prod.snd) db db' := by
  have hone : ∀ tally job committed db t, ∃ t', extractAndApply env source tally job (viewing committed db t) =
      (applyExtract env (extracted source job) >>= fun r => pure (tally.add r.status) : Py Tally)
        (viewing committed db t') := by
    intro tally job committed db t
    refine ⟨t + 2, ?_⟩
    rw [extractAndApply, bind_of_ok (tick_apply _), bind_of_ok (tick_apply _), extract_eq_extracted hs]
    rfl
  cases workers with
  | one => exact foldEach_apply hinj hone jobs hinv tally committed t
  | pool run =>
      rw [readAndApply, appliedOrder]
      split
      · have hcompleted : ∀ start, ∀ tally (c : Completed jobs.length) committed db t, ∃ t',
            applyCompleted env source jobs start tally c (viewing committed db t) =
              (applyExtract env (extracted source (jobs.get c.job)) >>= fun r => pure (tally.add r.status) :
                Py Tally) (viewing committed db t') := by
          intro start tally c committed db t
          refine ⟨t, ?_⟩
          rw [applyCompleted, extract_eq_extracted hs]
          rfl
        rw [bind_of_ok (tick_apply _), List.map_map]
        rcases foldEach_apply hinj (hcompleted t) (run jobs.length).completed hinv tally committed (t + 1) with
          ⟨⟨c, _, e, he⟩, herr⟩ | hdone
        · exact Or.inl ⟨⟨jobs.get c.job, List.get_mem _ _, e, he⟩, herr⟩
        · exact Or.inr hdone
      · exact foldEach_apply hinj hone jobs hinv tally committed t

/-! ### All of it -/

/-- Whether a key belongs to a listed identity. -/
def isListed (source : Source) (listings : List Listing) (db : Db) (key : FileKey) : Bool :=
  listings.any fun lst => ((resolution source lst.key).map Prod.fst).bind (fileKey db) = some key

/-- What a reconcile that returned has done: it recorded unparseable keys, applied the extracts in some order and
swept. -/
structure Reconciled (env : Env) (source : Source) (listings : List Listing) (order : List Job)
    (results : List (CatalogResult × Effect)) (db db' : Db) : Prop where
  recordable : ∀ lst ∈ listings, ¬Unrecordable source lst
  jobs : order.Perm (jobsOf source (view db) listings)
  come : Come (order.map (extracted source)) results
  inv : CatalogInv env db'
  changes : ∃ db₁ db₂, Steps env (unparseableOf source (view db) listings) db db₁ ∧
    Steps env (results.map Prod.snd) db₁ db₂ ∧ Swept (isListed source listings db₂) db₂ db'

/-- A reconcile raises if a key or a job cannot be recorded. -/
def Blocked (source : Source) (c : Logical) (listings : List Listing) : Prop :=
  (∃ lst ∈ listings, Unrecordable source lst) ∨
    ∃ job ∈ jobsOf source c listings, ∃ e, effectOf (extracted source job) = .error e

/-! ### The statements of a reconcile -/

theorem listAll_viewing {listings : List Listing} {t : ℕ} (h : source.listAll t = .ok listings) (committed db : Db) :
    ask source.listAll (viewing committed db t) = (.ok listings, viewing committed db (t + 1)) := by
  rw [ask_apply]
  show (source.listAll t, _) = _
  rw [h]
  rfl

theorem storedEtags_viewing (committed db : Db) (t : ℕ) :
    query [] (fun db => storedEtags db) (viewing committed db t) = (.ok (storedEtags db), viewing committed db t) :=
  query_ok viewing_quiet bindError_nil _

theorem filesRows_viewing (committed db : Db) (t : ℕ) :
    query [] (fun db => db.files.rows) (viewing committed db t) = (.ok db.files.rows, viewing committed db t) :=
  query_ok viewing_quiet bindError_nil _

theorem encodable_outcome (failed : ℕ) : encodable (if failed = 0 then py "ok" else py "partial") = true := by
  split <;> decide

theorem recordBuild_viewing (db : Db) (a b : ℕ) {outcome : PyStr} (ho : encodable outcome = true) (t : ℕ) :
    recordBuild env a b outcome (viewing db db t) =
      (.ok (), viewing (Db.upsertBuild (env.timeNs t) a b outcome builderVersion db)
        (Db.upsertBuild (env.timeNs t) a b outcome builderVersion db) (t + 1)) := by
  have hb : bindError [.int (env.timeNs t), .text outcome, .text builderVersion] = none := by
    rw [bindError_cons, bindError_timeNs, Option.none_or, bindError_cons, bindError_text ho, Option.none_or]
    decide
  have hnow : nowNs env (viewing db db t) = (.ok (env.timeNs t), viewing db db (t + 1)) := rfl
  refine (bind_of_ok hnow).trans ((bind_of_ok (execute_ok viewing_quiet hb _)).trans ?_)
  exact commit_quiet viewing_quiet

/-- The rows of unlisted identities are the same before the sweep as before the run. -/
theorem unlisted_rows (hinv : CatalogInv env db) {listings : List Listing} {effects : List Effect} {db' : Db}
    (hsteps : Steps env effects db db')
    (heffects : ∀ e ∈ effects, ∀ d, e.dims = some d →
      ∃ lst ∈ listings, (resolution source lst.key).map Prod.fst = some d) :
    db'.files.rows.filter (fun r => !isListed source listings db' r.key) =
      db.files.rows.filter fun r => !isListed source listings db r.key := by
  have hsame := hsteps.outside (p := fun key => !isListed source listings db' key) fun e he d key hd hkey => by
    obtain ⟨lst, hlst, hres⟩ := heffects e he d hd
    have hlisted : isListed source listings db' key = true :=
      List.any_eq_true.mpr ⟨lst, hlst, by rw [hres, Option.bind_some, hkey]; simp⟩
    rw [hlisted]
    rfl
  rw [hsame]
  apply List.filter_congr
  intro r hr
  congr 1
  rw [isListed, isListed]
  apply List.any_congr rfl
  intro lst
  rcases (resolution source lst.key).map Prod.fst with _ | d
  · rfl
  · simp only [Option.bind_some, decide_eq_decide]
    exact ⟨fun h => fileKey_of_grow hsteps.grow h (hinv.fileRefs r hr), fileKey_mono hsteps.grow.names⟩

/-- Every effect of an extract is about the extract's recording. -/
theorem dims_of_effectOf {ex : Extract} {r : CatalogResult × Effect} (h : effectOf ex = .ok r) {d : Dims}
    (hd : r.2.dims = some d) : ex.dims = some d := by
  obtain ⟨key, stat, dims, effKey, outcome⟩ := ex
  have hunless : ∀ {error : Option PyErr} {a : CatalogResult × Effect}, unlessError error a = .ok r → r = a := by
    intro error a ha
    cases error with
    | none => exact (Except.ok.inj ha).symm
    | some e => cases ha
  cases outcome with
  | vanished =>
      cases h
      cases hd
  | unparseable text =>
      rw [hunless h] at hd
      cases hd
  | error text =>
      cases dims with
      | none =>
          rw [hunless h] at hd
          cases hd
      | some dims =>
          rw [hunless h] at hd
          exact hd
  | ready summary =>
      cases dims with
      | none =>
          rw [hunless h] at hd
          cases hd
      | some dims =>
          rw [effectOf] at h
          simp only at h
          split at h
          · cases h
          · rw [writeEffect] at h
            split at h
            · cases h
              exact hd
            · rw [hunless h] at hd
              exact hd

/-- Effects that come of the jobs of a reconcile are about listed identities. -/
theorem listed_of_come {c : Logical} {listings : List Listing} {order : List Job}
    {results : List (CatalogResult × Effect)} (hjobs : order.Perm (jobsOf source c listings))
    (hcome : Come (order.map (extracted source)) results) {e : Effect} (he : e ∈ results.map Prod.snd) {d : Dims}
    (hd : e.dims = some d) : ∃ lst ∈ listings, (resolution source lst.key).map Prod.fst = some d := by
  obtain ⟨r, hr, rfl⟩ := List.mem_map.mp he
  obtain ⟨ex, hex, hout⟩ := exists_right_of_mem (List.Forall₂.flip hcome) hr
  obtain ⟨job, hjob, rfl⟩ := List.mem_map.mp hex
  have hdims := dims_of_effectOf hout hd
  have hextract : (extracted source job).dims = some job.dims := by
    rw [extracted, Job.extract, extractSummary]
    split
    · rfl
    · split <;> rfl
  obtain ⟨lst, hlst, htriage⟩ := List.mem_filterMap.mp (hjobs.mem_iff.mp hjob)
  refine ⟨lst, hlst, ?_⟩
  rw [← hdims, hextract]
  rw [triage] at htriage
  split at htriage
  · cases htriage
  · rename_i hres
    split at htriage
    · cases htriage
    · cases htriage
      rw [hres]
      rfl

/-- **The full reconcile** of an unchanging source, with or without a pending change. -/
theorem fullReconcile_from (hinj : FingerprintInjective env) (hs : source.Unchanging)
    (hinv : CatalogInv env db) {listings : List Listing} (hlist : source.listAll 0 = .ok listings)
    (workers : Workers) (committed : Db) (t : ℕ) :
    (Blocked source (view db) listings ∧
        ∃ e w', fullReconcile env source workers (viewing committed db t) = (.error e, w')) ∨
      ∃ (results : List (CatalogResult × Effect)) (db' : Db) (t' : ℕ),
        fullReconcile env source workers (viewing committed db t) =
          (.ok { tallied (triaged source (view db) listings Tally.zero) results with
            deleted := (db.files.rows.filter fun r => !isListed source listings db r.key).length },
            viewing db' db' t') ∧
        Reconciled env source listings (appliedOrder workers (jobsOf source (view db) listings)) results db db' := by
  have hlist' : source.listAll t = .ok listings := (hs.listAll t 0).trans hlist
  have hstart : fullReconcile env source workers (viewing committed db t) = _ :=
    (bind_of_ok (listAll_viewing hlist' committed db)).trans (bind_of_ok (storedEtags_viewing committed db (t + 1)))
  rcases classify_loop hs hinv listings db.catalogFailures ⟨fun _ => none, [], Tally.zero⟩ committed (t + 1) with
    ⟨hbad, e, w', hclassify⟩ | ⟨committed₁, f, t₁, hclassify, hsteps₁, hrecordable⟩
  · exact Or.inl ⟨Or.inl hbad, e, w', hstart.trans (bind_of_error hclassify)⟩
  obtain ⟨hqueue, htally, hdims⟩ := foldl_scan source (view db) listings ⟨fun _ => none, [], Tally.zero⟩
  generalize listings.foldl (Scan.next source (view db)) ⟨fun _ => none, [], Tally.zero⟩ = scan at *
  have hclassified := hstart.trans (bind_of_ok hclassify)
  have hinv₁ := hsteps₁.inv hinv
  rcases readAndApply_viewing hinj hs hinv₁ workers scan.toExtract scan.tally committed₁ t₁ with
    ⟨hbad, e, w', happly⟩ | ⟨results, committed₂, db₂, t₂, hcome, happly, hsteps₂⟩
  · rw [hqueue] at hbad
    exact Or.inl ⟨Or.inr hbad, e, w', hclassified.trans (bind_of_error happly)⟩
  have hinv₂ := hsteps₂.inv hinv₁
  have hpresent : present (Caches.of db₂) scan.dimsByKey listings = isListed source listings db₂ := by
    funext key
    rw [present, isListed]
    have hmap : ∀ lst ∈ listings, scan.dimsByKey lst.key = (resolution source lst.key).map Prod.fst := by
      intro lst hlst
      rw [hdims lst.key]
      rcases hres : resolution source lst.key with _ | p
      · simp
      · rw [if_pos ⟨List.mem_map_of_mem hlst, rfl⟩]
    rw [Bool.eq_iff_iff, List.any_eq_true, List.any_eq_true]
    refine exists_congr fun lst => and_congr_right fun hlst => ?_
    rw [hmap lst hlst]
    rfl
  obtain ⟨db₃, hsweep, hinv₃, hswept⟩ := foldEach_sweepRow (isListed source listings db₂) hinv₂ committed₂
    (tallied scan.tally results) t₂
  have hdeleted : (tallied scan.tally results).deleted = 0 := by
    rw [tallied_deleted, htally, triaged_deleted]
    rfl
  have hlisted : ∀ e ∈ unparseableOf source (view db) listings ++ results.map Prod.snd, ∀ d, e.dims = some d →
      ∃ lst ∈ listings, (resolution source lst.key).map Prod.fst = some d := by
    intro e he d hd
    rcases List.mem_append.mp he with he | he
    · obtain ⟨lst, _, heffect⟩ := List.mem_filterMap.mp he
      cases htriage : triage source (view db) lst <;> rw [htriage] at heffect <;> cases heffect
      cases hd
    · rw [hqueue] at hcome
      exact listed_of_come (appliedOrder_perm workers _) hcome he hd
  rw [hdeleted, Nat.zero_add, unlisted_rows hinv (hsteps₁.append hsteps₂) hlisted, ← hpresent] at hsweep
  rw [hqueue] at hcome
  have hrun := hclassified.trans ((bind_of_ok happly).trans ((bind_of_ok (look_apply _)).trans
    ((bind_of_ok (filesRows_viewing committed₂ db₂ t₂)).trans ((bind_of_ok hsweep).trans ((bind_of_ok commit_viewing).trans
      (bind_of_ok (recordBuild_viewing db₃ _ _ (encodable_outcome _) t₂)))))))
  rw [htally] at hrun
  exact Or.inr ⟨results, _, _, hrun, hrecordable, appliedOrder_perm workers _, hcome, hinv₃.failures db₃.catalogFailures _,
    _, db₂, hsteps₁, hsteps₂, ⟨hswept.keys, hswept.rows, hswept.overrides, hswept.failures⟩⟩

/-- The full reconcile of an unchanging source, from a catalog without a pending change. -/
theorem fullReconcile_viewing (hinj : FingerprintInjective env) (hs : source.Unchanging)
    (hinv : CatalogInv env db) {listings : List Listing} (hlist : source.listAll 0 = .ok listings)
    (workers : Workers) (t : ℕ) :
    (Blocked source (view db) listings ∧
        ∃ e w', fullReconcile env source workers (viewing db db t) = (.error e, w')) ∨
      ∃ (order : List Job) (results : List (CatalogResult × Effect)) (db' : Db) (t' : ℕ),
        fullReconcile env source workers (viewing db db t) =
          (.ok { tallied (triaged source (view db) listings Tally.zero) results with
            deleted := (db.files.rows.filter fun r => !isListed source listings db r.key).length },
            viewing db' db' t') ∧
        Reconciled env source listings order results db db' := by
  rcases fullReconcile_from hinj hs hinv hlist workers db t with hblocked | ⟨results, db', t', hrun, hdone⟩
  · exact Or.inl hblocked
  · exact Or.inr ⟨_, results, db', t', hrun, hdone⟩

end McapCatalog.Builder
