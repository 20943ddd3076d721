import McapCatalog.OrderIndependence

/-!
# A reconcile converges

After a full reconcile of a source that does not change during the run, the catalog holds exactly the listed objects
that resolve and can be read and stored.

* `Carries` — a row carries an etag and the content of a summary;
* `Converged` — what the catalog and the tally say afterwards;
* `Reconciled.settled` — every listed object that resolves has a row, or none and a failure;
* `fullReconcile_converges` — **the convergence**.
-/

namespace McapCatalog.Builder

open McapCatalog.PyText McapCatalog.PyError McapCatalog.KeyParse McapCatalog.McapSummary
open McapCatalog.Storage McapCatalog.Tables McapCatalog.RowidTable McapCatalog.KeyedRows
open McapCatalog.Connection McapCatalog.CatalogDb McapCatalog.Reconcile McapCatalog.Worker McapCatalog.Runs

variable {env : Env} {source : Source} {listings : List Listing}

/-! ### What the catalog says afterwards -/

/-- A row carries an etag and the content of a summary. -/
structure Carries (db : Db) (r : Row FileKey FileCols) (etag : PyStr) (summary : FileSummary) : Prop where
  etag : r.val.etag = etag
  startTimeNs : r.val.startTimeNs = summary.startTimeNs
  endTimeNs : r.val.endTimeNs = summary.endTimeNs
  chunkCount : r.val.chunkCount = summary.chunkCount
  hasError : r.val.hasError = hasErrorOf summary
  topics : ∃ contents, readTopics db r.val = some contents ∧ contents.Perm (mergeChannels summary.channels)

/-- A row carries what it was written from. -/
theorem carries_origin {db : Db} (hinv : CatalogInv env db) {r : Row FileKey FileCols} (hr : r ∈ db.files.rows) :
    Carries db r r.val.origin.stat.etag r.val.origin.summary := by
  have hcols := hinv.columns r hr
  obtain ⟨_, contents, _, _, hread, hperm, _⟩ := readTopics_of_encodes (hinv.encodes r hr)
  refine ⟨?_, ?_, ?_, ?_, ?_, contents, hread, hperm⟩ <;> rw [hcols] <;> rfl

/-- The counts of a summary add up. -/
def CountConsistent (summary : FileSummary) : Prop :=
  (summary.channels.map ChannelInfo.messageCount).sum = summary.messageCount

theorem countConsistent_of_encodes {db : Db} {cols : FileCols} (h : Encodes db cols) :
    CountConsistent cols.origin.summary := by
  obtain ⟨_, _, _, _, _, hsum⟩ := h
  exact hsum

/-- The catalog has a row of the identity with the etag. -/
def EtagStored (db : Db) (dims : Dims) (etag : PyStr) : Prop := ∃ r, rowOf db dims = some r ∧ r.val.etag = etag

/-- What a reconcile of the listed objects leaves of the catalog `db`. -/
structure Converged (source : Source) (listings : List Listing) (db db' : Db) (tally : Tally) : Prop where
  only : ∀ r ∈ db'.files.rows, ∃ lst ∈ listings, ∃ dims effKey summary,
    resolution source lst.key = some (dims, effKey) ∧
      source.readSummary 0 lst.key lst.stat.size = .ok summary ∧ CountConsistent summary ∧
      db'.namesOf r.key = some dims ∧ rowOf db' dims = some r ∧ Carries db' r lst.stat.etag summary
  cataloged : ∀ lst ∈ listings, ∀ dims effKey summary, resolution source lst.key = some (dims, effKey) →
    source.readSummary 0 lst.key lst.stat.size = .ok summary →
    transactionError true ⟨dims, effKey, lst.stat, summary⟩ = none ∨ EtagStored db dims lst.stat.etag →
      ∃ r, rowOf db' dims = some r ∧ Carries db' r lst.stat.etag summary ∧
        ∀ r₀, rowOf db dims = some r₀ → r.id = r₀.id
  refused : ∀ lst ∈ listings, ∀ dims effKey summary e, resolution source lst.key = some (dims, effKey) →
    source.readSummary 0 lst.key lst.stat.size = .ok summary →
    transactionError true ⟨dims, effKey, lst.stat, summary⟩ = some e → ¬EtagStored db dims lst.stat.etag →
      rowOf db' dims = none ∧ (db'.catalogFailures.lookup effKey).map Prod.snd = some e.errorText
  unreadable : ∀ lst ∈ listings, ∀ dims effKey e, resolution source lst.key = some (dims, effKey) →
    source.readSummary 0 lst.key lst.stat.size = .error e →
      rowOf db' dims = none ∧ (db'.catalogFailures.lookup effKey).map Prod.snd = some e.errorText
  inconsistent : ∀ lst ∈ listings, ∀ dims effKey summary, resolution source lst.key = some (dims, effKey) →
    source.readSummary 0 lst.key lst.stat.size = .ok summary → ¬CountConsistent summary →
      rowOf db' dims = none ∧ ∃ e, transactionError true ⟨dims, effKey, lst.stat, summary⟩ = some e ∧
        (db'.catalogFailures.lookup effKey).map Prod.snd = some e.errorText
  unparseable : ∀ lst ∈ listings, resolution source lst.key = none →
    (∀ lst' ∈ listings, ∀ dims effKey, resolution source lst'.key = some (dims, effKey) → effKey ≠ lst.key) →
      (db'.catalogFailures.lookup lst.key).map Prod.snd = some (py "unparseable key")
  counted : tally.cataloged + tally.skipped + tally.failed = listings.length
  deleted : tally.deleted = (db.files.rows.filter fun r => !isListed source listings db r.key).length

/-! ### Counting -/

/-- The listings a tally has counted so far. -/
def Tally.total (tally : Tally) : ℕ := tally.cataloged + tally.skipped + tally.failed

theorem total_add (tally : Tally) (status : Status) : Tally.total (tally.add status) = Tally.total tally + 1 := by
  cases status <;> simp only [Tally.total, Tally.add] <;> omega

theorem total_tallied (tally : Tally) (results : List (CatalogResult × Effect)) :
    Tally.total (tallied tally results) = Tally.total tally + results.length := by
  induction results generalizing tally with
  | nil => rfl
  | cons r results ih =>
      have h := ih (tally.add r.1.status)
      rw [total_add] at h
      rw [List.length_cons]
      refine Eq.trans h ?_
      omega

theorem total_triaged (source : Source) (c : Logical) (listings : List Listing) (tally : Tally) :
    Tally.total (triaged source c listings tally) + (jobsOf source c listings).length =
      Tally.total tally + listings.length := by
  induction listings generalizing tally with
  | nil => rfl
  | cons lst listings ih =>
      have h := ih ((triage source c lst).count tally)
      rw [triaged, List.foldl_cons, jobsOf, List.filterMap_cons, List.length_cons]
      have htotal : Tally.total ((triage source c lst).count tally) + (triage source c lst).job.toList.length =
          Tally.total tally + 1 := by
        cases triage source c lst with
        | unparseable => exact total_add tally .failed
        | skipped => exact total_add tally .skipped
        | queued job => rfl
      rw [triaged, jobsOf] at h
      cases hjob : (triage source c lst).job with
      | none =>
          rw [hjob] at htotal
          simp only [Option.toList_none, List.length_nil] at htotal
          simp only
          omega
      | some job =>
          rw [hjob] at htotal
          simp only [Option.toList_some, List.length_singleton] at htotal
          simp only [List.length_cons]
          omega

/-! ### The convergence -/

/-- Two listed objects with one identity are one. -/
theorem eq_of_listedDims (hdistinct : (listedDims source listings).Nodup) {lst lst' : Listing}
    (h : lst ∈ listings) (h' : lst' ∈ listings) {d : Dims}
    (hd : (resolution source lst.key).map Prod.fst = some d)
    (hd' : (resolution source lst'.key).map Prod.fst = some d) : lst = lst' := by
  induction listings with
  | nil => exact absurd h List.not_mem_nil
  | cons a listings ih =>
      have hfirst : (resolution source a.key).map Prod.fst = some d → d ∉ listedDims source listings := by
        intro ha
        rw [listedDims, List.filterMap_cons, ha, List.nodup_cons] at hdistinct
        exact hdistinct.1
      have hrest : (listedDims source listings).Nodup := by
        rw [listedDims, List.filterMap_cons] at hdistinct
        split at hdistinct
        · exact hdistinct
        · exact (List.nodup_cons.mp hdistinct).2
      by_cases hlst : lst = a <;> by_cases hlst' : lst' = a
      · rw [hlst, hlst']
      · have hmem : lst' ∈ listings := (List.mem_cons.mp h').resolve_left hlst'
        exact absurd (mem_listedDims.mpr ⟨lst', hmem, hd'⟩) (hfirst (hlst ▸ hd))
      · have hmem : lst ∈ listings := (List.mem_cons.mp h).resolve_left hlst
        exact absurd (mem_listedDims.mpr ⟨lst, hmem, hd⟩) (hfirst (hlst' ▸ hd'))
      · exact ih hrest ((List.mem_cons.mp h).resolve_left hlst) ((List.mem_cons.mp h').resolve_left hlst')

section Run

variable {db db' : Db} {order : List Job} {results : List (CatalogResult × Effect)}

/-- Effects that leave the same text under a key leave that text. -/
theorem foldl_failures_of_agree {l : List Effect} {k : PyStr} {text : Option PyStr}
    (hl : ∀ e ∈ l, e.failureKey = some k → e.textAfter = text) {e : Effect} (he : e ∈ l)
    (hk : e.failureKey = some k) (c : Logical) : (l.foldl Effect.apply c).failures k = text := by
  induction l generalizing e c with
  | nil => exact absurd he List.not_mem_nil
  | cons a l ih =>
      rw [List.foldl_cons]
      by_cases hmem : ∃ e' ∈ l, e'.failureKey = some k
      · obtain ⟨e', he', hk'⟩ := hmem
        exact ih (fun e'' he'' => hl e'' (List.mem_cons_of_mem _ he'')) he' hk' _
      · rw [Effect.foldl_failures_of_ne fun e' he' hk' => hmem ⟨e', he', hk'⟩, Effect.apply_failures]
        have hea : e = a := (List.mem_cons.mp he).resolve_right fun he' => hmem ⟨e, he', hk⟩
        rw [← hea, if_pos hk]
        exact hl e he hk

/-- What a reconcile leaves for a listed object that was skipped: the row it found. -/
theorem Reconciled.of_skipped (h : Reconciled env source listings order results db db')
    (hdistinct : (listedDims source listings).Nodup) {lst : Listing} (hlst : lst ∈ listings) {d : Dims}
    {effKey : PyStr} (hres : resolution source lst.key = some (d, effKey))
    (hsame : ((Builder.view db).files d).map (fun written => written.stat.etag) = some lst.stat.etag) :
    (Builder.view db').files d = (Builder.view db).files d := by
  have hd : (resolution source lst.key).map Prod.fst = some d := by rw [hres]; rfl
  rw [h.view]
  show (if d ∈ listedDims source listings then _ else none) = _
  rw [if_pos (mem_listedDims.mpr ⟨lst, hlst, hd⟩)]
  apply Effect.foldl_files_of_ne
  intro e he hed
  rcases List.mem_append.mp he with he | he
  · obtain ⟨_, _, _, rfl⟩ := mem_unparseableOf he
    cases hed
  · obtain ⟨r, hr, rfl⟩ := List.mem_map.mp he
    obtain ⟨ex, hex, hout⟩ := exists_right_of_mem (List.Forall₂.flip h.come) hr
    obtain ⟨job, hjob, rfl⟩ := List.mem_map.mp hex
    obtain ⟨lst', hlst', _, _, hres', hdiff⟩ := mem_jobsOf.mp (h.jobs.mem_iff.mp hjob)
    have hjd : job.dims = d := by
      have hje := jobEffect_of_effectOf hout
      generalize r.2 = effect at hje hed
      cases hje <;> cases hed <;> rfl
    have hd' : (resolution source lst'.key).map Prod.fst = some d := by rw [hres', ← hjd]; rfl
    rw [eq_of_listedDims hdistinct hlst hlst' hd hd', ← hjd] at hsame
    exact hdiff hsame

/-- What it leaves for one that was queued: what its extract came to. -/
theorem Reconciled.of_queued (h : Reconciled env source listings order results db db')
    (hdistinct : (listedDims source listings).Nodup) {lst : Listing} (hlst : lst ∈ listings) {d : Dims}
    {effKey : PyStr} (hres : resolution source lst.key = some (d, effKey))
    (hdiff : ((Builder.view db).files d).map (fun written => written.stat.etag) ≠ some lst.stat.etag) :
    ∃ r, effectOf (extracted source ⟨lst.key, lst.stat, d, effKey⟩) = .ok r ∧
      (r.2.dims = some d → (Builder.view db').files d = r.2.fileAfter) ∧
      (r.2.failureKey = some effKey → (Builder.view db').failures effKey = r.2.textAfter) := by
  have hd : (resolution source lst.key).map Prod.fst = some d := by rw [hres]; rfl
  have hjob : (⟨lst.key, lst.stat, d, effKey⟩ : Job) ∈ jobsOf source (Builder.view db) listings :=
    mem_jobsOf.mpr ⟨lst, hlst, rfl, rfl, hres, hdiff⟩
  obtain ⟨r, hr, hout⟩ := exists_right_of_mem h.come
    (List.mem_map_of_mem (f := extracted source) (h.jobs.mem_iff.mpr hjob))
  have hapart := apart_of_come hdistinct h.jobs h.come
  have hmem : r.2 ∈ results.map Prod.snd := List.mem_map_of_mem hr
  refine ⟨r, hout, fun hrd => ?_, fun hrk => ?_⟩
  · rw [h.view, effectsOf, List.foldl_append]
    show (if d ∈ listedDims source listings then _ else none) = _
    rw [if_pos (mem_listedDims.mpr ⟨lst, hlst, hd⟩)]
    exact Effect.foldl_files_of_mem hapart hmem hrd _
  · rw [h.view, effectsOf, List.foldl_append]
    exact Effect.foldl_failures_of_mem hapart hmem hrk _

/-- What it leaves for one whose key does not resolve: a failure under that key, unless another object's resolved key
is the same. -/
theorem Reconciled.of_unparseable (h : Reconciled env source listings order results db db') {lst : Listing}
    (hlst : lst ∈ listings) (hres : resolution source lst.key = none)
    (hother : ∀ lst' ∈ listings, ∀ d effKey, resolution source lst'.key = some (d, effKey) → effKey ≠ lst.key) :
    (Builder.view db').failures lst.key = some (py "unparseable key") := by
  have hresults : ∀ e ∈ results.map Prod.snd, e.failureKey ≠ some lst.key := by
    intro e he hkey
    obtain ⟨r, hr, rfl⟩ := List.mem_map.mp he
    obtain ⟨ex, hex, hout⟩ := exists_right_of_mem (List.Forall₂.flip h.come) hr
    obtain ⟨job, hjob, rfl⟩ := List.mem_map.mp hex
    obtain ⟨lst', hlst', _, _, hres', _⟩ := mem_jobsOf.mp (h.jobs.mem_iff.mp hjob)
    have hjk : job.effKey = lst.key := by
      have hje := jobEffect_of_effectOf hout
      generalize r.2 = effect at hje hkey
      cases hje <;> first | exact Option.some.inj hkey | cases hkey
    exact hother lst' hlst' _ _ hres' hjk
  have hmem : Effect.failure lst.key (py "unparseable key") ∈ unparseableOf source (Builder.view db) listings :=
    List.mem_filterMap.mpr ⟨lst, hlst, by rw [triage, hres]; rfl⟩
  rw [h.view, effectsOf, List.foldl_append]
  refine (Effect.foldl_failures_of_ne hresults _).trans (foldl_failures_of_agree (fun e he hkey => ?_) hmem rfl _)
  obtain ⟨_, _, _, rfl⟩ := mem_unparseableOf he
  rfl

/-- What becomes of a listed object: its row carries its etag and summary, or it has no row and its failure is
recorded. -/
inductive Settled (source : Source) (lst : Listing) (d : Dims) (effKey : PyStr) (db db' : Db) : Prop where
  | row {r : Row FileKey FileCols} (h : rowOf db' d = some r) (etag : r.val.origin.stat.etag = lst.stat.etag)
      (read : source.readSummary 0 lst.key lst.stat.size = .ok r.val.origin.summary)
      (stored : transactionError true ⟨d, effKey, lst.stat, r.val.origin.summary⟩ = none ∨ EtagStored db d lst.stat.etag)
  | failed {e : PyErr} (h : rowOf db' d = none) (new : ¬EtagStored db d lst.stat.etag)
      (text : (db'.catalogFailures.lookup effKey).map Prod.snd = some e.errorText)
      (error : source.readSummary 0 lst.key lst.stat.size = .error e ∨
        ∃ summary, source.readSummary 0 lst.key lst.stat.size = .ok summary ∧
          transactionError true ⟨d, effKey, lst.stat, summary⟩ = some e)

theorem rowOf_of_files {written : Written} {d : Dims} (h : (Builder.view db').files d = some written) :
    ∃ r, rowOf db' d = some r ∧ r.val.origin = written := Option.map_eq_some_iff.mp h

theorem rowOf_of_files_none {d : Dims} (h : (Builder.view db').files d = none) : rowOf db' d = none :=
  Option.map_eq_none_iff.mp h

/-- **Every listed object that resolves is settled.** -/
theorem Reconciled.settled (h : Reconciled env source listings order results db db') (hinv : CatalogInv env db)
    (hdistinct : (listedDims source listings).Nodup) {lst : Listing} (hlst : lst ∈ listings)
    (hexist : source.stat 0 lst.key ≠ .ok none) {d : Dims} {effKey : PyStr}
    (hres : resolution source lst.key = some (d, effKey))
    (hetag : ∀ r, rowOf db d = some r → r.val.etag = lst.stat.etag →
      source.readSummary 0 lst.key lst.stat.size = .ok r.val.origin.summary) :
    Settled source lst d effKey db db' := by
  by_cases hsame : ((Builder.view db).files d).map (fun written => written.stat.etag) = some lst.stat.etag
  · obtain ⟨written, hfiles, hwritten⟩ := Option.map_eq_some_iff.mp hsame
    obtain ⟨r₀, hr₀, horigin₀⟩ := rowOf_of_files hfiles
    have hstored : r₀.val.etag = lst.stat.etag := by
      have hcols := hinv.columns r₀ (rowOf_eq_some_iff.mp hr₀).1
      rw [hcols, ← hwritten, ← horigin₀]
      rfl
    have hread := hetag r₀ hr₀ hstored
    obtain ⟨r, hr, horigin⟩ := rowOf_of_files ((h.of_skipped hdistinct hlst hres hsame).trans hfiles)
    refine .row hr (by rw [horigin, hwritten]) ?_ (Or.inr ⟨r₀, hr₀, hstored⟩)
    rw [hread, horigin, horigin₀]
  · have hnew : ¬EtagStored db d lst.stat.etag := by
      rintro ⟨r₀, hr₀, hstored⟩
      have hcols := hinv.columns r₀ (rowOf_eq_some_iff.mp hr₀).1
      rw [hcols] at hstored
      refine hsame ?_
      show ((rowOf db d).map fun r => r.val.origin).map _ = _
      rw [hr₀]
      exact congrArg some hstored
    obtain ⟨r, hout, hfiles, hfailures⟩ := h.of_queued hdistinct hlst hres hsame
    rw [effectOf_extracted] at hout
    rcases hread : source.readSummary 0 lst.key lst.stat.size with e | summary
    · rw [hread] at hout
      have hquarantine : r.2 = .quarantine d effKey e.errorText := by
        simp only at hout
        rw [← (unlessError_eq_ok hout).2]
      rw [hquarantine] at hfiles hfailures
      exact .failed (rowOf_of_files_none (hfiles rfl)) hnew (hfailures rfl) (Or.inl hread)
    · rw [hread] at hout
      simp only at hout
      split at hout
      · cases hout
      · rcases writeEffect_eq_ok hout with ⟨hnone, rfl⟩ | ⟨e, he, rfl⟩
        · obtain ⟨row, hrow, horigin⟩ := rowOf_of_files (hfiles rfl)
          refine .row hrow (by rw [horigin]) (by rw [horigin, hread]) (Or.inl ?_)
          rw [horigin]
          exact hnone
        · exact .failed (rowOf_of_files_none (hfiles rfl)) hnew (hfailures rfl) (Or.inr ⟨summary, hread, he⟩)

end Run

/-- **A reconcile converges.**  From a catalog that any run has reached, over a source that does not change, whose
parseable objects resolve to different identities, and whose listed objects exist and can be recorded: if the
rows with a listed etag were written from what that etag stands for, the reconcile returns and the catalog holds
exactly the listed objects that resolve and can be read and stored. -/
theorem fullReconcile_converges (hinj : FingerprintInjective env) {w : World} (hw : Reached env w)
    (hs : source.Unchanging) (hlist : source.listAll 0 = .ok listings)
    (hdistinct : (listedDims source listings).Nodup)
    (hrecordable : ∀ lst ∈ listings, Recordable source (view w.conn.committed) lst)
    (hexist : ∀ lst ∈ listings, source.stat 0 lst.key ≠ .ok none)
    (hetag : ∀ lst ∈ listings, ∀ dims effKey, resolution source lst.key = some (dims, effKey) →
      ∀ r, rowOf w.conn.committed dims = some r → r.val.etag = lst.stat.etag →
        source.readSummary 0 lst.key lst.stat.size = .ok r.val.origin.summary)
    (workers : Workers) (t : ℕ) :
    ∃ tally db' t', fullReconcile env source workers (opened w.conn.committed t) = (.ok tally, opened db' t') ∧
      Converged source listings w.conn.committed db' tally := by
  have hinv := (hw.worldInv hinj).committed
  rw [opened_eq]
  rcases fullReconcile_viewing hinj hs hinv hlist workers t with
    ⟨hblocked, _⟩ | ⟨order, results, db', t', hrun, hdone⟩
  · obtain ⟨lst, hlst, hbad⟩ := blocked_iff.mp hblocked
    exact absurd (hrecordable lst hlst) hbad
  have hsettled := fun lst hlst d effKey hres =>
    hdone.settled hinv hdistinct hlst (hexist lst hlst) hres (hetag lst hlst d effKey hres)
  have hcarries : ∀ {lst : Listing} {r : Row FileKey FileCols} {d : Dims} {summary : FileSummary}, rowOf db' d = some r → r.val.origin.stat.etag = lst.stat.etag →
      source.readSummary 0 lst.key lst.stat.size = .ok r.val.origin.summary →
      source.readSummary 0 lst.key lst.stat.size = .ok summary → Carries db' r lst.stat.etag summary := by
    intro lst r d summary hr etag read hread
    have hcarry := carries_origin hdone.inv (rowOf_eq_some_iff.mp hr).1
    rw [hread] at read
    rwa [etag, ← Except.ok.inj read] at hcarry
  refine ⟨_, db', t', by rw [hrun, opened_eq], ?_, ?_, ?_, ?_, ?_, ?_, ?_, rfl⟩
  · intro r hr
    obtain ⟨d, hd, hrow⟩ := hdone.complete hr
    obtain ⟨lst, hlst, hres⟩ := mem_listedDims.mp hd
    obtain ⟨⟨_, effKey⟩, hpair, rfl⟩ := Option.map_eq_some_iff.mp hres
    cases hsettled lst hlst _ _ hpair with
    | row h etag read =>
        rw [hrow] at h
        cases h
        exact ⟨lst, hlst, _, effKey, _, hpair, read, countConsistent_of_encodes (hdone.inv.encodes r hr),
          namesOf_fileKey (rowOf_eq_some_iff.mp hrow).2, hrow, hcarries hrow etag read read⟩
    | failed h => rw [hrow] at h; cases h
  · intro lst hlst d effKey summary hres hread hstored
    cases hsettled lst hlst d effKey hres with
    | @row r h etag read => exact ⟨r, h, hcarries h etag read hread, fun r₀ hr₀ => hdone.keepsId hdistinct hr₀ h⟩
    | failed _ hnew _ error =>
        have hnone := hstored.resolve_right hnew
        rcases error with herr | ⟨summary', herr, htx'⟩
        · rw [hread] at herr
          cases herr
        · rw [hread] at herr
          cases herr
          rw [hnone] at htx'
          cases htx'
  · intro lst hlst d effKey summary e hres hread htx hnew
    cases hsettled lst hlst d effKey hres with
    | row _ _ read hstored =>
        rw [hread] at read
        cases read
        rw [htx] at hstored
        exact absurd (hstored.resolve_left fun hnone => by cases hnone) hnew
    | failed h _ text error =>
        rcases error with herr | ⟨summary', herr, htx'⟩
        · rw [hread] at herr
          cases herr
        · rw [hread] at herr
          cases herr
          rw [htx] at htx'
          cases htx'
          exact ⟨h, text⟩
  · intro lst hlst d effKey e hres hread
    cases hsettled lst hlst d effKey hres with
    | row _ _ read => rw [hread] at read; cases read
    | failed h _ text error =>
        rcases error with herr | ⟨summary', herr, _⟩
        · rw [hread] at herr
          cases herr
          exact ⟨h, text⟩
        · rw [hread] at herr
          cases herr
  · intro lst hlst d effKey summary hres hread hcount
    cases hsettled lst hlst d effKey hres with
    | @row r h etag read =>
        rw [hread] at read
        cases read
        exact absurd (countConsistent_of_encodes (hdone.inv.encodes r (rowOf_eq_some_iff.mp h).1)) hcount
    | failed h _ text error =>
        rcases error with herr | ⟨summary', herr, htx⟩
        · rw [hread] at herr
          cases herr
        · rw [hread] at herr
          cases herr
          exact ⟨h, _, htx, text⟩
  · exact fun lst hlst hres hother => hdone.of_unparseable hlst hres hother
  · have htotal := total_tallied (triaged source (view w.conn.committed) listings Tally.zero) results
    have htriaged := total_triaged source (view w.conn.committed) listings Tally.zero
    have hlen : results.length = (jobsOf source (view w.conn.committed) listings).length := by
      rw [← hdone.jobs.length_eq, ← hdone.come.length_eq, List.length_map]
    show Tally.total (tallied _ _) = _
    rw [htotal, hlen, htriaged]
    show 0 + _ = _
    omega

/-- A summary that is readable and whose counts add up, but whose start time SQLite cannot store. -/
def farSummary : Summary := { twoChannelSummary with statistics := some ⟨2 ^ 63, 20, 3, 1, (∅ : Rows ℕ ℕ).insert 7 3⟩ }

/-- A bucket with that recording. -/
def farSource : Source :=
  s3Source (fun _ => (∅ : Bucket).insert sampleKey ⟨py "abc", 100, 5, fun _ => .ok (some farSummary)⟩) []

/-- The listing of that bucket. -/
def farListing : Listing := ⟨sampleKey, ⟨100, py "abc", 5⟩⟩

/-- A recording whose counts do not add up. -/
def shortSummary : Summary := { twoChannelSummary with statistics := some ⟨10, 20, 4, 1, (∅ : Rows ℕ ℕ).insert 7 3⟩ }

/-- A directory in which the path of such a recording, whose own `s3_key` is no key, is the `s3_key` of another file. -/
def retitledFs : LocalFs where
  stat _ path := if path = sampleKey then some (100, 5) else if path = py "flat.mcap" then some (110, 6) else none
  openSummary _ path := .ok (some (if path = sampleKey then shortSummary else twoChannelSummary))
  s3Key _ path := .ok (some (if path = sampleKey then py "none" else sampleKey))
  files _ := [sampleKey, py "flat.mcap"]
  stable _ _ := true

/-- Its listing. -/
def retitledListings : List Listing :=
  [⟨sampleKey, ⟨100, localEtag 100 5, 5⟩⟩, ⟨py "flat.mcap", ⟨110, localEtag 110 6, 6⟩⟩]

/-- A recording that can be read and whose counts add up may still not be stored; one whose counts do not add up may have no
failure; and a reconcile may raise. -/
theorem fullReconcile_far_or_unstorable :
    (farSource.listAll 0 = .ok [farListing] ∧ (resolution farSource sampleKey).isSome ∧
      (∃ summary, farSource.readSummary 0 sampleKey farListing.stat.size = .ok summary ∧
        (summary.channels.map ChannelInfo.messageCount).sum = summary.messageCount) ∧
      (fullReconcile oneTopicEnv farSource .one emptyWorld).1 = .ok ⟨0, 0, 1, 0⟩ ∧
      (fullReconcile oneTopicEnv farSource .one emptyWorld).2.conn.committed.files.rows.length = 0) ∧
    ((localSource retitledFs).listAll 0 = .ok retitledListings ∧
      (∃ summary, (localSource retitledFs).readSummary 0 sampleKey 100 = .ok summary ∧
        (summary.channels.map ChannelInfo.messageCount).sum ≠ summary.messageCount) ∧
      (fullReconcile oneTopicEnv (localSource retitledFs) .one emptyWorld).1 = .ok ⟨1, 0, 1, 0⟩ ∧
      (fullReconcile oneTopicEnv (localSource retitledFs) .one emptyWorld).2.conn.committed.catalogFailures.entries.length = 0) ∧
    (localSource unstorableFs).listAll 0 = .ok unstorableListings ∧
    (fullReconcile oneTopicEnv (localSource unstorableFs) .one emptyWorld).1.toOption = none := by
  refine ⟨⟨?_, ?_, ⟨_, rfl, ?_⟩, ?_, ?_⟩, ⟨?_, ⟨_, rfl, ?_⟩, ?_, ?_⟩, ?_, ?_⟩
  all_goals decide +kernel

/-- The row that is stored was written from what its etag stands for. -/
theorem summary_afterOneCatalog : ∀ lst ∈ mixedListings, ∀ p ∈ resolution mixedSource lst.key,
    ∀ r ∈ rowOf afterOneCatalog.conn.committed p.1, r.val.etag = lst.stat.etag →
      (mixedSource.readSummary 0 lst.key lst.stat.size).toOption = some r.val.origin.summary := by
  decide +kernel

/-- The recording that is stored is skipped, with one more that is stored then and two that cannot be. -/
theorem fullReconcile_converges_mixed : EtagStored afterOneCatalog.conn.committed sampleDims (py "abc") ∧
    ∃ tally db' t', fullReconcile oneTopicEnv mixedSource .one (opened afterOneCatalog.conn.committed 0) =
        (.ok tally, opened db' t') ∧ Converged mixedSource mixedListings afterOneCatalog.conn.committed db' tally := by
  have hstored : ((rowOf afterOneCatalog.conn.committed sampleDims).map fun r => r.val.etag) = some (py "abc") := by
    decide +kernel
  have hreached : Reached oneTopicEnv afterOneCatalog :=
    (Reached.empty 0).call (.catalogObject sampleKey (s3Source (fun _ => oneObjectBucket) []) none)
  have hexist : ∀ lst ∈ mixedListings, mixedSource.stat 0 lst.key ≠ .ok none := by decide +kernel
  have hetag : ∀ lst ∈ mixedListings, ∀ dims effKey, resolution mixedSource lst.key = some (dims, effKey) →
      ∀ r, rowOf afterOneCatalog.conn.committed dims = some r → r.val.etag = lst.stat.etag →
        mixedSource.readSummary 0 lst.key lst.stat.size = .ok r.val.origin.summary := by
    intro lst hlst dims effKey hres r hr hsame
    have hread := summary_afterOneCatalog lst hlst (dims, effKey) (Option.mem_def.mpr hres) r (Option.mem_def.mpr hr) hsame
    generalize mixedSource.readSummary 0 lst.key lst.stat.size = out at hread ⊢
    cases out with
    | ok summary => exact congrArg Except.ok (Option.some.inj hread)
    | error e => cases hread
  exact ⟨Option.map_eq_some_iff.mp hstored, fullReconcile_converges fingerprintInjective_oneTopicEnv hreached
    unchanging_mixedSource listAll_mixedSource nodup_listedDims_mixed (fun _ => recordable_of_bindable bindable_mixedSource _)
    hexist hetag .one 0⟩

end McapCatalog.Builder
