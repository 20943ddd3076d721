import McapCatalog.StaleFailures
import McapCatalog.Isolation

/-!
# A second reconcile

The etags that a reconcile compares with are stored per identity, so a second run over the same source is free of reads for
the objects whose identity is theirs alone.

* `fullReconcile_congr` — a reconcile depends on its source through the listing, the overrides and what its jobs read;
* `Good`, `Steady` — the objects that a run skips or catalogs, and the sources in which no two disagree on an identity;
* `Reconciled.stored_of_good`, `Reconciled.files_of_bad` — **what a run leaves for an identity**;
* `WarmRun`, `Warm` — a second run reads nothing of the objects the first one kept, skips them and changes no row;
* `warm_iff` — **second runs are warm exactly over steady sources**;
* `twin_not_warm` — two files with one override.
-/

namespace McapCatalog.Builder

open McapCatalog.PyText McapCatalog.PyError McapCatalog.KeyParse McapCatalog.McapSummary McapCatalog.Storage
open McapCatalog.Tables McapCatalog.RowidTable McapCatalog.KeyedRows
open McapCatalog.Connection McapCatalog.CatalogDb McapCatalog.Reconcile McapCatalog.Worker McapCatalog.Runs
open McapCatalog.SurvivingState McapCatalog.SurvivingState.Comp

/-! ### What a reconcile depends on -/

section Dependence

variable {env : Env} {source source' : Source} {listings : List Listing} {db : Db}

theorem foldEach_congr {α β : Type} {f g : β → α → Py β} {as : List α} (h : ∀ a ∈ as, ∀ b, f b a = g b a) (b : β) :
    foldEach f b as = foldEach g b as := by
  induction as generalizing b with
  | nil => rfl
  | cons a as ih =>
      rw [foldEach_cons, foldEach_cons, h a List.mem_cons_self b]
      exact congrArg (fun k => (g b a >>= k : Py β)) (funext fun b' => ih (fun a' ha' => h a' (List.mem_cons_of_mem _ ha')) b')

/-- The read and apply phases depend on what their jobs read. -/
theorem readAndApply_congr {jobs : List Job} (hjobs : ∀ job ∈ jobs, ∀ a b, job.extract source' a b = job.extract source a b)
    (workers : Workers) (tally : Tally) :
    readAndApply env source' workers jobs tally = readAndApply env source workers jobs tally := by
  have hsequential : foldEach (extractAndApply env source') tally jobs = foldEach (extractAndApply env source) tally jobs := by
    refine foldEach_congr (fun job hjob tally => ?_) tally
    rw [extractAndApply, extractAndApply]
    simp only [hjobs job hjob]
  cases workers with
  | one => exact hsequential
  | pool run =>
      rw [readAndApply, readAndApply]
      split
      · refine congrArg (fun k => (tick >>= k : Py Tally)) (funext fun start => foldEach_congr (fun c _ tally => ?_) tally)
        rw [applyCompleted, applyCompleted, hjobs _ (List.get_mem _ _)]
      · exact hsequential

/-- **A reconcile depends on the listing, the overrides and what its jobs read.** -/
theorem fullReconcile_congr (hs : source.Unchanging) (hinv : CatalogInv env db)
    (hlist : source.listAll 0 = .ok listings) (hsame : source'.listAll = source.listAll)
    (hkeys : source'.intendedKey = source.intendedKey)
    (hjobs : ∀ job ∈ jobsOf source (view db) listings, ∀ a b, job.extract source' a b = job.extract source a b)
    (workers : Workers) (committed : Db) (t : ℕ) :
    fullReconcile env source' workers (viewing committed db t) = fullReconcile env source workers (viewing committed db t) := by
  have hask := listAll_viewing ((hs.listAll t 0).trans hlist) committed db
  have hstored := storedEtags_viewing committed db (t + 1)
  have hclassify : classify env source' (storedEtags db) = classify env source (storedEtags db) := by
    funext scan lst
    rw [classify, classify]
    have hdims : resolveKeyDims lst.key source' = resolveKeyDims lst.key source := by
      rw [resolveKeyDims, resolveKeyDims, hkeys]
    rw [hdims]
  rw [fullReconcile, fullReconcile, hsame, bind_of_ok hask, bind_of_ok hask, bind_of_ok hstored, bind_of_ok hstored, hclassify]
  have hloop := @classify_loop env _ _ hs hinv listings db.catalogFailures ⟨fun _ => none, [], Tally.zero⟩ committed (t + 1)
  rcases hloop with ⟨_, e, w', hraised⟩ | ⟨committed₁, f, t₁, hclassified, _, _⟩
  · exact (bind_of_error hraised).trans (bind_of_error hraised).symm
  · obtain ⟨hqueue, _, _⟩ := foldl_scan source (view db) listings ⟨fun _ => none, [], Tally.zero⟩
    refine (bind_of_ok hclassified).trans (Eq.trans ?_ (bind_of_ok hclassified).symm)
    rw [readAndApply_congr (by rw [hqueue]; exact hjobs)]

end Dependence

/-! ### What a run leaves for an identity -/

section Leaving

variable {env : Env} {source : Source} {listings : List Listing} {c : Logical}

/-- About a recording, the last effect decides. -/
theorem foldl_files_cases (effects : List Effect) (c : Logical) (d : Dims) :
    ((∀ e ∈ effects, e.dims ≠ some d) ∧ (effects.foldl Effect.apply c).files d = c.files d) ∨
      ∃ e ∈ effects, e.dims = some d ∧ (effects.foldl Effect.apply c).files d = e.fileAfter := by
  induction effects generalizing c with
  | nil => exact Or.inl ⟨fun _ h => absurd h List.not_mem_nil, rfl⟩
  | cons e effects ih =>
      rw [List.foldl_cons]
      cases ih (e.apply c) with
      | inr hlater =>
          obtain ⟨e', he', hd, hfile⟩ := hlater
          exact Or.inr ⟨e', List.mem_cons_of_mem _ he', hd, hfile⟩
      | inl hnone =>
          obtain ⟨hothers, hsame⟩ := hnone
          rw [hsame, Effect.apply_files]
          by_cases hd : e.dims = some d
          · rw [if_pos hd]
            exact Or.inr ⟨e, List.mem_cons_self, hd, rfl⟩
          · rw [if_neg hd]
            exact Or.inl ⟨List.forall_mem_cons.mpr ⟨hd, hothers⟩, rfl⟩

/-- A run over the catalog skips or catalogs the object. -/
def Good (source : Source) (c : Logical) (lst : Listing) : Prop :=
  ∃ d effKey, resolution source lst.key = some (d, effKey) ∧
    ((c.files d).map (fun written => written.stat.etag) = some lst.stat.etag ∨ Catalogable source lst)

/-- No object disagrees with a good one on an identity: it is gone, or it is good too and has the same etag. -/
def Steady (source : Source) (c : Logical) (listings : List Listing) : Prop :=
  ∀ lst ∈ listings, ∀ lst' ∈ listings, ∀ d k k', resolution source lst.key = some (d, k) →
    resolution source lst'.key = some (d, k') → Good source c lst →
      Gone source lst'.key lst'.stat ∨ lst'.stat.etag = lst.stat.etag ∧ Good source c lst'

variable {order : List Job} {results : List (CatalogResult × Effect)} {db db' : Db}

/-- An effect about an identity is of a queued object: it was written, or it failed. -/
theorem Reconciled.effect_of (h : Reconciled env source listings order results db db') {e : Effect}
    (he : e ∈ effectsOf source (Builder.view db) listings results) {d : Dims} (hd : e.dims = some d) :
    ∃ lst ∈ listings, ∃ effKey, resolution source lst.key = some (d, effKey) ∧
      ((Builder.view db).files d).map (fun written => written.stat.etag) ≠ some lst.stat.etag ∧
      ¬Gone source lst.key lst.stat ∧
      (Catalogable source lst ∧ e.fileAfter.map (fun written => written.stat.etag) = some lst.stat.etag ∨
        ¬Catalogable source lst ∧ e.fileAfter = none) := by
  rcases (mem_effectsOf h).mp he with ⟨_, _, _, rfl⟩ | ⟨job, hjob, r, hout, rfl⟩
  · cases hd
  · obtain ⟨lst, hlst, hkey, hstat, hres, hdiff⟩ := mem_jobsOf.mp hjob
    have hfate := fate_of_job hout
    have hcatalogable := hfate.catalogable_iff hkey hstat hres
    cases hfate with
    | @written summary hread hstored =>
        cases hd
        refine ⟨lst, hlst, job.effKey, hres, hdiff, fun hgone => ?_, Or.inl ⟨hcatalogable.mpr ⟨_, rfl⟩, ?_⟩⟩
        · obtain ⟨⟨e, herror⟩, _⟩ := hgone
          rw [hkey, hstat, hread] at herror
          cases herror
        · rw [hstat]
          rfl
    | failed hthere _ =>
        cases hd
        refine ⟨lst, hlst, job.effKey, hres, hdiff, ?_, Or.inr ⟨fun hgood => ?_, rfl⟩⟩
        · rw [hkey, hstat]
          exact hthere
        · obtain ⟨_, hwrite⟩ := hcatalogable.mp hgood
          cases hwrite
    | vanished _ => cases hd

/-- A queued object that is not gone has an effect about its identity. -/
theorem Reconciled.effect_exists (h : Reconciled env source listings order results db db') {lst : Listing}
    (hlst : lst ∈ listings) {d : Dims} {effKey : PyStr} (hres : resolution source lst.key = some (d, effKey))
    (hdiff : ((Builder.view db).files d).map (fun written => written.stat.etag) ≠ some lst.stat.etag)
    (hthere : ¬Gone source lst.key lst.stat) :
    ∃ e ∈ effectsOf source (Builder.view db) listings results, e.dims = some d := by
  have hjob : (⟨lst.key, lst.stat, d, effKey⟩ : Job) ∈ jobsOf source (Builder.view db) listings :=
    mem_jobsOf.mpr ⟨lst, hlst, rfl, rfl, hres, hdiff⟩
  obtain ⟨r, _, hout⟩ := exists_right_of_mem h.come (List.mem_map_of_mem (h.jobs.mem_iff.mpr hjob))
  refine ⟨r.2, (mem_effectsOf h).mpr (Or.inr ⟨_, hjob, r, hout, rfl⟩), ?_⟩
  have hfate := fate_of_job hout
  cases hfate with
  | written _ _ => rfl
  | failed _ _ => rfl
  | vanished hgone => exact absurd hgone hthere

/-- The row of a listed identity after a run is what the last effect about it left. -/
theorem Reconciled.files_of_listed (h : Reconciled env source listings order results db db') {d : Dims}
    (hd : d ∈ listedDims source listings) : (Builder.view db').files d =
      ((effectsOf source (Builder.view db) listings results).foldl Effect.apply (Builder.view db)).files d := by
  rw [h.view]
  exact if_pos hd

/-- **After a run over a steady source the etag of a good object is stored.** -/
theorem Reconciled.stored_of_good (h : Reconciled env source listings order results db db')
    (hsteady : Steady source (Builder.view db) listings) {lst : Listing} (hlst : lst ∈ listings) {d : Dims} {effKey : PyStr}
    (hres : resolution source lst.key = some (d, effKey)) (hgood : Good source (Builder.view db) lst) :
    ((Builder.view db').files d).map (fun written => written.stat.etag) = some lst.stat.etag := by
  have hlisted : d ∈ listedDims source listings := mem_listedDims.mpr ⟨lst, hlst, by rw [hres]; rfl⟩
  rw [h.files_of_listed hlisted]
  rcases foldl_files_cases (effectsOf source (Builder.view db) listings results) (Builder.view db) d with
    ⟨hnone, hsame⟩ | ⟨e, he, hd, hfile⟩
  · -- Nothing happened to the identity, so the object was skipped.
    rw [hsame]
    by_contra hdiff
    obtain ⟨d', k', hres', hcase⟩ := hgood
    rw [hres] at hres'
    cases hres'
    rcases hcase with hskipped | hcatalogable
    · exact hdiff hskipped
    · obtain ⟨e, he, hd⟩ := h.effect_exists hlst hres hdiff fun hgone => by
        obtain ⟨_, _, summary, _, hread, _⟩ := hcatalogable
        obtain ⟨⟨e, herror⟩, _⟩ := hgone
        rw [hread] at herror
        cases herror
      exact hnone e he hd
  · obtain ⟨lst', hlst', k', hres', hdiff', hthere, hcase⟩ := h.effect_of he hd
    rw [hfile]
    rcases hsteady lst hlst lst' hlst' d effKey k' hres hres' hgood with hgone | ⟨hetag, d', k'', hres'', hgood'⟩
    · exact absurd hgone hthere
    · rw [hres'] at hres''
      cases hres''
      rcases hcase with ⟨_, hafter⟩ | ⟨hbad, _⟩
      · rw [hafter, hetag]
      · exact absurd (hgood'.resolve_left hdiff') hbad

/-- **After a run over a steady source there is no row for an identity of which an object fails.** -/
theorem Reconciled.files_of_bad (h : Reconciled env source listings order results db db')
    (hsteady : Steady source (Builder.view db) listings) {lst : Listing} (hlst : lst ∈ listings) {d : Dims} {effKey : PyStr}
    (hres : resolution source lst.key = some (d, effKey)) (hbad : ¬Good source (Builder.view db) lst)
    (hthere : ¬Gone source lst.key lst.stat) : (Builder.view db').files d = none := by
  have hlisted : d ∈ listedDims source listings := mem_listedDims.mpr ⟨lst, hlst, by rw [hres]; rfl⟩
  have hdiff : ((Builder.view db).files d).map (fun written => written.stat.etag) ≠ some lst.stat.etag :=
    fun hsame => hbad ⟨d, effKey, hres, Or.inl hsame⟩
  rw [h.files_of_listed hlisted]
  rcases foldl_files_cases (effectsOf source (Builder.view db) listings results) (Builder.view db) d with
    ⟨hnone, _⟩ | ⟨e, he, hd, hfile⟩
  · obtain ⟨e, he, hd⟩ := h.effect_exists hlst hres hdiff hthere
    exact absurd hd (hnone e he)
  · obtain ⟨lst', hlst', k', hres', hdiff', _, hcase⟩ := h.effect_of he hd
    rcases hcase with ⟨hcatalogable, _⟩ | ⟨_, hafter⟩
    · -- A written object of the identity is good, so this one would be good too.
      rcases hsteady lst' hlst' lst hlst d k' effKey hres' hres ⟨d, k', hres', Or.inr hcatalogable⟩ with hgone | ⟨_, hgood⟩
      · exact absurd hgone hthere
      · exact absurd hgood hbad
    · rw [hfile, hafter]

end Leaving

/-! ### Runs that change no row -/

section Idle

variable {env : Env} {db db' : Db} {effects : List Effect}

/-- The effect writes no row, and there is none of its recording. -/
def Idle (c : Logical) (e : Effect) : Prop := ∀ d, e.dims = some d → e.fileAfter = none ∧ c.files d = none

theorem Idle.apply {c : Logical} {e e' : Effect} (h : Idle c e) (h' : Idle c e') : Idle (e.apply c) e' := by
  intro d hd
  obtain ⟨hafter, hnone⟩ := h' d hd
  refine ⟨hafter, ?_⟩
  rw [Effect.apply_files]
  split
  · rename_i hsame
    exact (h d hsame).1
  · exact hnone

/-- An idle effect leaves the rows as they are. -/
theorem EffectStep.rows_of_idle {e : Effect} (h : EffectStep env e db db') (hidle : Idle (Builder.view db) e)
    (hnamed : ∀ r ∈ db.files.rows, ∃ d, rowOf db d = some r) : db'.files.rows = db.files.rows := by
  cases hd : e.dims with
  | none =>
      have hall := h.outside (fun _ => true) fun d key hsome => by
        rw [hd] at hsome
        cases hsome
      rw [List.filter_true, List.filter_true] at hall
      exact hall
  | some d =>
      obtain ⟨hafter, hnone⟩ := hidle d hd
      have hout := h.outside (fun key => decide (fileKey db' d ≠ some key)) fun d' key hsome hkey => by
        rw [hd] at hsome
        cases hsome
        simpa using hkey
      have hbefore : db.files.rows.filter (fun r => decide (fileKey db' d ≠ some r.key)) = db.files.rows := by
        rw [List.filter_eq_self]
        intro r hr
        obtain ⟨d', hr'⟩ := hnamed r hr
        rw [decide_eq_true_eq]
        intro hkey
        have hmono := fileKey_mono h.grow.names (rowOf_eq_some_iff.mp hr').2
        rw [fileKey_injective hmono hkey] at hr'
        have hrow : (rowOf db d).map (fun r => r.val.origin) = none := hnone
        rw [hr'] at hrow
        cases hrow
      have hthen : db'.files.rows.filter (fun r => decide (fileKey db' d ≠ some r.key)) = db'.files.rows := by
        rw [List.filter_eq_self]
        intro r hr
        rw [decide_eq_true_eq]
        intro hkey
        have hview := congrFun (congrArg Logical.files h.view) d
        rw [Effect.apply_files, if_pos hd, hafter] at hview
        have hrow : (rowOf db' d).map (fun r => r.val.origin) = none := hview
        rw [rowOf_eq_some_iff.mpr ⟨hr, hkey⟩] at hrow
        cases hrow
      rw [hbefore, hthen] at hout
      exact hout

theorem Steps.rows_of_idle (h : Steps env effects db db') (hidle : ∀ e ∈ effects, Idle (Builder.view db) e)
    (hnamed : ∀ r ∈ db.files.rows, ∃ d, rowOf db d = some r) : db'.files.rows = db.files.rows := by
  induction h with
  | nil => rfl
  | cons hstep _ ih =>
      have hfirst := hidle _ List.mem_cons_self
      have hrows := hstep.rows_of_idle hfirst hnamed
      refine (ih (fun e he => ?_) (fun r hr => ?_)).trans hrows
      · rw [hstep.view]
        exact hfirst.apply (hidle e (List.mem_cons_of_mem _ he))
      · rw [hrows] at hr
        obtain ⟨d, hd⟩ := hnamed r hr
        have hkey := fileKey_mono hstep.grow.names (rowOf_eq_some_iff.mp hd).2
        exact ⟨d, rowOf_eq_some_iff.mpr ⟨by rw [hrows]; exact hr, hkey⟩⟩

end Idle

/-! ### The second run -/

section Second

variable {env : Env} {source : Source} {listings listings₂ : List Listing} {order order₂ : List Job}
  {results results₂ : List (CatalogResult × Effect)} {db db₁ db₂ : Db}

/-- **The second run over a steady source has only idle effects.** -/
theorem Reconciled.idle_again (h : Reconciled env source listings order results db db₁)
    (hsteady : Steady source (Builder.view db) listings)
    (h₂ : Reconciled env source listings₂ order₂ results₂ db₁ db₂) (hp : listings₂.Perm listings) :
    ∀ e ∈ effectsOf source (Builder.view db₁) listings₂ results₂, Idle (Builder.view db₁) e := by
  intro e he d hd
  obtain ⟨lst, hlst₂, effKey, hres, hdiff, hthere, hcase⟩ := h₂.effect_of he hd
  have hlst := hp.mem_iff.mp hlst₂
  have hbad : ¬Good source (Builder.view db) lst := fun hgood => hdiff (h.stored_of_good hsteady hlst hres hgood)
  refine ⟨?_, h.files_of_bad hsteady hlst hres hbad hthere⟩
  rcases hcase with ⟨hcatalogable, _⟩ | ⟨_, hafter⟩
  · exact absurd ⟨d, effKey, hres, Or.inr hcatalogable⟩ hbad
  · exact hafter

/-- **The second run leaves every row and its tags as they are**, and finds none to delete. -/
theorem Reconciled.unchanged_again (h : Reconciled env source listings order results db db₁)
    (hsteady : Steady source (Builder.view db) listings)
    (h₂ : Reconciled env source listings₂ order₂ results₂ db₁ db₂) (hp : listings₂.Perm listings) :
    db₂.files.rows = db₁.files.rows ∧
      (∀ r ∈ db₁.files.rows, isListed source listings₂ db₁ r.key = true) ∧
      ∀ r ∈ db₁.files.rows, ∀ k, db₂.tagsOverride.lookup (r.id, k) = db₁.tagsOverride.lookup (r.id, k) := by
  have hidle := h.idle_again hsteady h₂ hp
  have hnamed : ∀ r ∈ db₁.files.rows, ∃ d, rowOf db₁ d = some r := fun r hr =>
    (h.complete hr).imp fun _ hd => hd.2
  obtain ⟨db', hsteps, hswept⟩ := h₂.steps
  have hrows := hsteps.rows_of_idle hidle hnamed
  have hlisted : ∀ r ∈ db₁.files.rows, ∃ d ∈ listedDims source listings₂, rowOf db₁ d = some r ∧ rowOf db' d = some r := by
    intro r hr
    obtain ⟨d, hd, hr'⟩ := h.complete hr
    have hd₂ : d ∈ listedDims source listings₂ := (hp.filterMap _).mem_iff.mpr hd
    have hkey := fileKey_mono hsteps.grow.names (rowOf_eq_some_iff.mp hr').2
    exact ⟨d, hd₂, hr', rowOf_eq_some_iff.mpr ⟨by rw [hrows]; exact hr, hkey⟩⟩
  have hall : db₂.files.rows = db₁.files.rows := by
    rw [hswept.rows, hrows, List.filter_eq_self]
    intro r hr
    obtain ⟨d, hd, _, hr'⟩ := hlisted r hr
    exact (isListed_of_fileKey (rowOf_eq_some_iff.mp hr').2).mpr hd
  refine ⟨hall, fun r hr => ?_, fun r hr k => ?_⟩
  · obtain ⟨d, hd, hr', _⟩ := hlisted r hr
    exact (isListed_of_fileKey (rowOf_eq_some_iff.mp hr').2).mpr hd
  · obtain ⟨d, _, hr₁, hr'⟩ := hlisted r hr
    rw [hswept.overrides r (by rw [hall]; exact hr) k]
    -- The row is there, so no idle effect is about its recording.
    have hothers : ∀ e ∈ effectsOf source (Builder.view db₁) listings₂ results₂, e.dims ≠ some d := by
      intro e he hd
      have hnone := (hidle e he d hd).2
      have hrow : (rowOf db₁ d).map (fun r => r.val.origin) = none := hnone
      rw [hr₁] at hrow
      cases hrow
    have hover : ∀ effects : List Effect, (∀ e ∈ effects, e.dims ≠ some d) → ∀ c : Logical,
        (effects.foldl Effect.apply c).overrides d = c.overrides d := by
      intro effects
      induction effects with
      | nil => intro _ c; rfl
      | cons e effects ih =>
          intro hne c
          rw [List.foldl_cons, ih (fun e' he' => hne e' (List.mem_cons_of_mem _ he')), apply_overrides]
          have hfirst := hne e List.mem_cons_self
          cases e with
          | nothing => rfl
          | failure key text => rfl
          | write written => rfl
          | quarantine dims effKey text => exact if_neg fun h => hfirst (congrArg some h)
          | delete dims key => exact if_neg fun h => hfirst (congrArg some h)
    have hsame := congrFun (congrArg (fun c : Logical => c.overrides d) hsteps.view) k
    rw [hover _ hothers] at hsame
    simp only [Builder.view, hr₁, hr', Option.bind_some] at hsame
    exact hsame

/-- **A good object is skipped in the second run.** -/
theorem Reconciled.skips_again (h : Reconciled env source listings order results db db₁)
    (hsteady : Steady source (Builder.view db) listings) {lst : Listing} (hlst : lst ∈ listings)
    (hgood : Good source (Builder.view db) lst) : triage source (Builder.view db₁) lst = .skipped := by
  obtain ⟨d, effKey, hres, hcase⟩ := hgood
  rw [triage, hres]
  exact if_pos (h.stored_of_good hsteady hlst hres ⟨d, effKey, hres, hcase⟩)

/-- What the first run could record the second can. -/
theorem Reconciled.recordable_again (h : Reconciled env source listings order results db db₁)
    (hsteady : Steady source (Builder.view db) listings) {lst : Listing} (hlst : lst ∈ listings)
    (hrecordable : Recordable source (Builder.view db) lst) : Recordable source (Builder.view db₁) lst := by
  rw [Recordable] at hrecordable ⊢
  cases hres : resolution source lst.key with
  | none =>
      rw [hres] at hrecordable
      exact hrecordable
  | some trusted =>
      obtain ⟨d, effKey⟩ := trusted
      rw [hres] at hrecordable
      cases hrecordable with
      | inl hskipped => exact Or.inl (h.stored_of_good hsteady hlst hres ⟨d, effKey, hres, Or.inl hskipped⟩)
      | inr hread => exact Or.inr hread

end Second

/-! ### Counting the objects a run keeps -/

section Keeping

variable {env : Env} {source : Source} {listings listings₂ : List Listing} {c c' : Logical}

/-- The objects a tally has counted as cataloged or skipped. -/
def Tally.kept (tally : Tally) : ℕ := tally.cataloged + tally.skipped

/-- The classification skips the object. -/
def skips (source : Source) (c : Logical) (lst : Listing) : Bool :=
  match triage source c lst with
  | .skipped => true
  | _ => false

theorem kept_tallied (tally : Tally) (results : List (CatalogResult × Effect)) :
    Tally.kept (tallied tally results) = Tally.kept tally + results.countP fun r => r.1.status ≠ .failed := by
  induction results generalizing tally with
  | nil => rfl
  | cons r results ih =>
      have hone : Tally.kept (tally.add r.1.status) = Tally.kept tally + if r.1.status ≠ .failed then 1 else 0 := by
        cases r.1.status <;> simp only [Tally.kept, Tally.add, ne_eq, reduceCtorEq, not_false_iff, not_true_eq_false, if_true,
          if_false] <;> omega
      rw [tallied, List.foldl_cons]
      refine (ih (tally.add r.1.status)).trans ?_
      rw [hone, List.countP_cons]
      simp only [decide_eq_true_eq]
      omega

theorem kept_triaged (tally : Tally) : Tally.kept (triaged source c listings tally) =
    Tally.kept tally + listings.countP (skips source c) := by
  induction listings generalizing tally with
  | nil => rfl
  | cons lst listings ih =>
      have hone : Tally.kept ((triage source c lst).count tally) = Tally.kept tally + if skips source c lst then 1 else 0 := by
        rw [skips]
        cases triage source c lst <;> simp only [Triage.count, Tally.kept, Tally.add, if_true, Bool.false_eq_true, if_false] <;>
          omega
      rw [triaged, List.foldl_cons]
      refine (ih ((triage source c lst).count tally)).trans ?_
      rw [hone, List.countP_cons]
      omega

theorem skipped_triaged (tally : Tally) : (triaged source c listings tally).skipped =
    tally.skipped + listings.countP (skips source c) := by
  induction listings generalizing tally with
  | nil => rfl
  | cons lst listings ih =>
      have hone : ((triage source c lst).count tally).skipped = tally.skipped + if skips source c lst then 1 else 0 := by
        rw [skips]
        cases triage source c lst <;> simp [Triage.count, Tally.add]
      rw [triaged, List.foldl_cons]
      refine (ih ((triage source c lst).count tally)).trans ?_
      rw [hone, List.countP_cons]
      omega

theorem skipped_le_tallied (tally : Tally) (results : List (CatalogResult × Effect)) :
    tally.skipped ≤ (tallied tally results).skipped := by
  induction results generalizing tally with
  | nil => exact le_refl _
  | cons r results ih =>
      refine le_trans ?_ (ih (tally.add r.1.status))
      cases r.1.status <;> simp [Tally.add]

/-- What the queued objects come to, in the order of the listing. -/
def queuedResults (source : Source) (c : Logical) (listings : List Listing) : List (CatalogResult × Effect) :=
  (jobsOf source c listings).filterMap fun job => (effectOf (extracted source job)).toOption

theorem Reconciled.results_queued {order : List Job} {results : List (CatalogResult × Effect)} {db db' : Db}
    (h : Reconciled env source listings order results db db') :
    results.Perm (queuedResults source (Builder.view db) listings) := by
  have hall : ∀ {jobs : List Job} {results : List (CatalogResult × Effect)}, Come (jobs.map (extracted source)) results →
      jobs.filterMap (fun job => (effectOf (extracted source job)).toOption) = results := by
    intro jobs
    induction jobs with
    | nil =>
        intro results hcome
        cases hcome
        rfl
    | cons job jobs ih =>
        intro results hcome
        cases hcome with
        | cons hone hrest =>
            rw [List.filterMap_cons, hone, ih hrest]
            rfl
  rw [← hall h.come]
  exact h.jobs.filterMap _

/-- A result that did not fail is of an object that can be cataloged. -/
theorem catalogable_of_status {lst : Listing} {job : Job} (htriage : triage source c lst = .queued job)
    {r : CatalogResult × Effect} (hout : effectOf (extracted source job) = .ok r) (hstatus : r.1.status ≠ .failed) :
    ∃ d effKey, resolution source lst.key = some (d, effKey) ∧ Catalogable source lst := by
  have hjob : job ∈ jobsOf source c [lst] :=
    List.mem_filterMap.mpr ⟨lst, List.mem_singleton_self lst, by rw [htriage]; rfl⟩
  obtain ⟨_, hmem, hkey, hstat, hres, _⟩ := mem_jobsOf.mp hjob
  rw [List.mem_singleton.mp hmem] at hkey hstat hres
  have hfate := fate_of_job hout
  refine ⟨_, _, hres, (hfate.catalogable_iff hkey hstat hres).mpr ?_⟩
  cases hfate with
  | written _ _ => exact ⟨_, rfl⟩
  | failed _ _ => exact absurd rfl hstatus
  | vanished _ => exact absurd rfl hstatus

/-- The objects a run keeps are skipped by a run that skips the good ones. -/
theorem kept_le_skips (h : ∀ lst ∈ listings, Good source c lst → skips source c' lst = true) :
    listings.countP (skips source c) + (queuedResults source c listings).countP (fun r => r.1.status ≠ .failed) ≤
      listings.countP (skips source c') := by
  induction listings with
  | nil => exact le_refl _
  | cons lst listings ih =>
      have hrest := ih fun l hl => h l (List.mem_cons_of_mem _ hl)
      have hgood := h lst List.mem_cons_self
      have hqueue : queuedResults source c (lst :: listings) =
          ((triage source c lst).job.bind fun job => (effectOf (extracted source job)).toOption).toList ++
            queuedResults source c listings := by
        rw [queuedResults, jobsOf, List.filterMap_cons]
        cases (triage source c lst).job with
        | none => rfl
        | some job =>
            simp only [Option.bind_some]
            rw [List.filterMap_cons]
            cases (effectOf (extracted source job)).toOption <;> rfl
      rw [hqueue, List.countP_append, List.countP_cons, List.countP_cons]
      have hone : (if skips source c lst then 1 else 0) +
          (((triage source c lst).job.bind fun job => (effectOf (extracted source job)).toOption).toList.countP
            fun r => r.1.status ≠ .failed) ≤ if skips source c' lst then 1 else 0 := by
        cases htriage : triage source c lst with
        | unparseable => simp [skips, htriage, Triage.job]
        | skipped =>
            have hskips : Good source c lst := by
              rw [triage] at htriage
              split at htriage
              · cases htriage
              · rename_i d effKey hres
                split at htriage
                · rename_i hsame
                  exact ⟨d, effKey, hres, Or.inl hsame⟩
                · cases htriage
            rw [hgood hskips]
            simp [skips, htriage, Triage.job]
        | queued job =>
            have hzero : skips source c lst = false := by
              rw [skips, htriage]
            rw [hzero]
            simp only [Triage.job, Option.bind_some, Bool.false_eq_true, if_false, Nat.zero_add]
            rcases hout : effectOf (extracted source job) with e | r
            · simp [Except.toOption]
            · by_cases hstatus : r.1.status = .failed
              · simp [Except.toOption, hstatus]
              · obtain ⟨d, effKey, hres, hcatalogable⟩ := catalogable_of_status htriage hout hstatus
                rw [hgood ⟨d, effKey, hres, Or.inr hcatalogable⟩]
                simp [Except.toOption, hstatus]
      omega

end Keeping

/-! ### Warm runs -/

/-- The source, with its objects listed in another order. -/
def relisted (source : Source) (listings : List Listing) : Source := { source with listAll := fun _ => .ok listings }

theorem unchanging_relisted {source : Source} (hs : source.Unchanging) (listings : List Listing) :
    (relisted source listings).Unchanging := ⟨hs.stat, hs.openSummary, fun _ _ => rfl, hs.intendedKey⟩

/-- The source is the same, but for what reading the objects under some keys gives. -/
structure SameBeside (keys : PyStr → Prop) (source source' : Source) : Prop where
  listAll : source'.listAll = source.listAll
  intendedKey : source'.intendedKey = source.intendedKey
  stat : ∀ t key, ¬keys key → source'.stat t key = source.stat t key
  openSummary : ∀ t key, ¬keys key → source'.openSummary t key = source.openSummary t key

/-- **A warm run** from `v`: it returns, whatever reading the objects under the keys would give; it skips at least as many
objects as were kept; it deletes no row and changes none, nor its tags and topics. -/
structure WarmRun (env : Env) (source : Source) (keys : PyStr → Prop) (kept : ℕ) (workers : Workers) (v : World)
    (tally : Tally) (v' : World) : Prop where
  unread : ∀ source', SameBeside keys source source' → fullReconcile env source' workers v = (.ok tally, v')
  skipped : kept ≤ tally.skipped
  deleted : tally.deleted = 0
  rows : v'.conn.committed.files.rows = v.conn.working.files.rows
  embedded : ∀ r ∈ v.conn.working.files.rows, ∀ k,
    v'.conn.committed.tagsEmbedded.lookup (r.id, k) = v.conn.working.tagsEmbedded.lookup (r.id, k)
  overrides : ∀ r ∈ v.conn.working.files.rows, ∀ k,
    v'.conn.committed.tagsOverride.lookup (r.id, k) = v.conn.working.tagsOverride.lookup (r.id, k)
  topics : ∀ r ∈ v.conn.working.files.rows, ∃ contents contents', readTopics v.conn.working r.val = some contents ∧
    readTopics v'.conn.committed r.val = some contents' ∧ contents.Perm contents'

/-- The keys of the listed objects that a run over the catalog skips or catalogs. -/
def keptKeys (source : Source) (c : Logical) (listings : List Listing) (key : PyStr) : Prop :=
  ∃ lst ∈ listings, lst.key = key ∧ Good source c lst

/-- **Every second run is warm**: after the first, with the same caches or after a restart, over the same objects in any
order and with any workers. -/
def Warm (env : Env) (source : Source) (listings : List Listing) (workers : Workers) (w : World) : Prop :=
  ∀ tally w₁, fullReconcile env source workers w = (.ok tally, w₁) →
    ∀ listings₂, listings₂.Perm listings → ∀ v, v = w₁ ∨ v = restart w₁ → ∀ workers₂, ∃ tally₂ v₂,
      WarmRun env (relisted source listings₂) (keptKeys source (view w.conn.working) listings)
        (tally.cataloged + tally.skipped) workers₂ v tally₂ v₂

section Warming

variable {env : Env} {source : Source} {listings : List Listing}

/-- A row's embedded tags are the same in two catalogs. -/
theorem embedded_alike {db db' : Db} (hinv : CatalogInv env db) (hinv' : CatalogInv env db') {r : Row FileKey FileCols}
    (hr : r ∈ db.files.rows) (hr' : r ∈ db'.files.rows) (k : PyStr) :
    db'.tagsEmbedded.lookup (r.id, k) = db.tagsEmbedded.lookup (r.id, k) :=
  Option.ext fun v => (hinv'.embedded r hr' k v).trans (hinv.embedded r hr k v).symm

/-- **The second run over a steady source is warm.** -/
theorem Reconciled.warmRun (hinj : FingerprintInjective env) (hs : source.Unchanging) {order : List Job}
    {results : List (CatalogResult × Effect)} {db db₁ : Db} (h : Reconciled env source listings order results db db₁)
    (hkeys : (listings.map Listing.key).Nodup) (hsteady : Steady source (Builder.view db) listings)
    {listings₂ : List Listing} (hp : listings₂.Perm listings) (workers : Workers) (t : ℕ) :
    ∃ tally v, WarmRun env (relisted source listings₂) (keptKeys source (Builder.view db) listings)
      (Tally.kept (tallied (triaged source (Builder.view db) listings Tally.zero) results)) workers (viewing db₁ db₁ t)
      tally v := by
  have hs₂ := unchanging_relisted hs listings₂
  have hlist₂ : (relisted source listings₂).listAll 0 = .ok listings₂ := rfl
  rcases fullReconcile_from hinj hs₂ h.inv hlist₂ workers db₁ t with
    ⟨hblocked, _⟩ | ⟨results₂, db₂, t₂, hrun, hdone⟩
  · obtain ⟨lst, hlst, hbad⟩ := blocked_iff.mp hblocked
    have hmem := hp.mem_iff.mp hlst
    refine absurd (h.recordable_again hsteady hmem ?_) hbad
    by_contra hfirst
    exact h.not_blocked (blocked_iff.mpr ⟨lst, hmem, hfirst⟩)
  -- The source in the other order resolves and reads as the source does.
  have hdone₂ : Reconciled env source listings₂ (appliedOrder workers (jobsOf source (Builder.view db₁) listings₂)) results₂
      db₁ db₂ := ⟨hdone.recordable, hdone.jobs, hdone.come, hdone.inv, hdone.changes⟩
  obtain ⟨hrows, hlisted, hoverrides⟩ := h.unchanged_again hsteady hdone₂ hp
  refine ⟨{ tallied (triaged source (Builder.view db₁) listings₂ Tally.zero) results₂ with
    deleted := (db₁.files.rows.filter fun r => !isListed source listings₂ db₁ r.key).length }, viewing db₂ db₂ t₂,
    fun source' hsame => ?_, ?_, ?_, hrows, fun r hr k => ?_, hoverrides, fun r hr => ?_⟩
  · refine (fullReconcile_congr hs₂ h.inv rfl hsame.listAll hsame.intendedKey (fun job hjob a b => ?_) workers db₁ t).trans
      hrun
    have hother : ¬keptKeys source (Builder.view db) listings job.key := by
      rintro ⟨lst', hlst', hkey, hgood⟩
      obtain ⟨lst, hlst, hlstKey, _, hres, hdiff⟩ := mem_jobsOf.mp hjob
      obtain rfl := List.inj_on_of_nodup_map hkeys hlst' (hp.mem_iff.mp hlst) (hkey.trans hlstKey.symm)
      exact hdiff (h.stored_of_good hsteady hlst' hres hgood)
    have hread : source'.readSummary a job.key = (relisted source listings₂).readSummary a job.key := by
      funext size
      rw [Source.readSummary, Source.readSummary, hsame.openSummary a job.key hother]
    rw [Job.extract, Job.extract, extractSummary, extractSummary, hread, hsame.stat b job.key hother]
  · calc Tally.kept (tallied (triaged source (Builder.view db) listings Tally.zero) results)
        = listings.countP (skips source (Builder.view db)) + results.countP (fun r => r.1.status ≠ .failed) := by
          rw [kept_tallied, kept_triaged]
          exact congrArg (· + _) (Nat.zero_add _)
      _ = listings.countP (skips source (Builder.view db)) +
            (queuedResults source (Builder.view db) listings).countP (fun r => r.1.status ≠ .failed) := by
          rw [h.results_queued.countP_eq]
      _ ≤ listings.countP (skips source (Builder.view db₁)) := kept_le_skips fun lst hlst hgood => by
          rw [skips, h.skips_again hsteady hlst hgood]
      _ = (triaged source (Builder.view db₁) listings₂ Tally.zero).skipped := by
          rw [skipped_triaged, hp.countP_eq]
          exact (Nat.zero_add _).symm
      _ ≤ (tallied (triaged source (Builder.view db₁) listings₂ Tally.zero) results₂).skipped := skipped_le_tallied _ _
  · show (db₁.files.rows.filter fun r => !isListed source listings₂ db₁ r.key).length = 0
    rw [List.length_eq_zero_iff, List.filter_eq_nil_iff]
    intro r hr
    rw [hlisted r hr]
    simp
  · exact embedded_alike h.inv hdone₂.inv hr (by rw [hrows]; exact hr) k
  · exact (sameRow_of_origin h.inv hdone₂.inv hr (by rw [hrows]; exact hr) rfl).topics

/-! ### Only steady sources are warm -/

/-- A source in which one object is there but raises, with a text that cannot be stored, when it is opened. -/
def poisoned (source : Source) (lst : Listing) : Source :=
  { source with
    openSummary := fun t key size =>
      if key = lst.key then .error (.valueError [0xDC80]) else source.openSummary t key size
    stat := fun t key => if key = lst.key then .ok (some lst.stat) else source.stat t key }

theorem unchanging_poisoned (hs : source.Unchanging) (lst : Listing) : (poisoned source lst).Unchanging where
  stat t t' := by
    show (fun key => if key = lst.key then _ else source.stat t key) = fun key => if key = lst.key then _ else source.stat t' key
    rw [hs.stat t t']
  openSummary t t' := by
    show (fun key size => if key = lst.key then _ else source.openSummary t key size) =
      fun key size => if key = lst.key then _ else source.openSummary t' key size
    rw [hs.openSummary t t']
  listAll := hs.listAll
  intendedKey := hs.intendedKey

theorem sameBeside_poisoned {keys : PyStr → Prop} {lst : Listing} (hkey : keys lst.key) :
    SameBeside keys source (poisoned source lst) where
  listAll := rfl
  intendedKey := rfl
  stat t key hnot := if_neg fun heq => hnot (by rw [heq]; exact hkey)
  openSummary t key hnot := funext fun size => if_neg fun heq => hnot (by rw [heq]; exact hkey)

/-- A poisoned object of which the etag is not stored cannot be recorded. -/
theorem not_recordable_poisoned {c : Logical} {lst : Listing} {d : Dims} {effKey : PyStr}
    (hres : resolution source lst.key = some (d, effKey))
    (hdiff : (c.files d).map (fun written => written.stat.etag) ≠ some lst.stat.etag) :
    ¬Recordable (poisoned source lst) c lst := by
  have hres' : resolution (poisoned source lst) lst.key = some (d, effKey) := hres
  have hopen : (poisoned source lst).openSummary 0 lst.key lst.stat.size = .error (.valueError [0xDC80]) := if_pos rfl
  have hread : (poisoned source lst).readSummary 0 lst.key lst.stat.size = .error (.valueError [0xDC80]) := by
    rw [Source.readSummary, hopen]
  have hstat : (poisoned source lst).stat 0 lst.key = .ok (some lst.stat) := if_pos rfl
  have htext : encodable (PyErr.valueError [0xDC80]).errorText = false := by decide
  rw [Recordable, hres']
  simp only [hread, hstat, htext]
  rintro (hsame | hgone | ⟨_, htrue⟩)
  · exact hdiff hsame
  · cases hgone
  · cases htrue

/-- **A warm source stores the etag of every good object.** -/
theorem Warm.stored (hinj : FingerprintInjective env) (hs : source.Unchanging) {w : World} {workers : Workers}
    (hwarm : Warm env source listings workers w) {tally : Tally} {db₁ : Db} {t₁ : ℕ} (hinv : CatalogInv env db₁)
    (hrun : fullReconcile env source workers w = (.ok tally, viewing db₁ db₁ t₁)) {lst : Listing} (hlst : lst ∈ listings)
    {d : Dims} {effKey : PyStr} (hres : resolution source lst.key = some (d, effKey))
    (hgood : Good source (view w.conn.working) lst) :
    ((view db₁).files d).map (fun written => written.stat.etag) = some lst.stat.etag := by
  by_contra hdiff
  obtain ⟨tally₂, v₂, hsecond⟩ := hwarm tally _ hrun listings (List.Perm.refl _) _ (Or.inl rfl) .one
  have hs₂ := unchanging_relisted hs listings
  have hreturns := hsecond.unread (poisoned (relisted source listings) lst) (sameBeside_poisoned ⟨lst, hlst, rfl, hgood⟩)
  have hlist : (poisoned (relisted source listings) lst).listAll 0 = .ok listings := rfl
  rcases fullReconcile_from hinj (unchanging_poisoned hs₂ lst) hinv hlist .one db₁ t₁ with
    ⟨_, e, w', hraises⟩ | ⟨_, db₂, _, _, hdone⟩
  · rw [hreturns] at hraises
    cases hraises
  · have hres' : resolution (relisted source listings) lst.key = some (d, effKey) := hres
    have hbad : ¬Recordable (poisoned (relisted source listings) lst) (view db₁) lst := not_recordable_poisoned hres' hdiff
    exact hdone.not_blocked (blocked_iff.mpr ⟨lst, hlst, hbad⟩)

/-- A pool whose reads complete in turn, except that one job is last. -/
def lastly (i n : ℕ) : PoolRun n where
  completed := ((List.finRange n).filter (fun j => j.val ≠ i) ++ (List.finRange n).filter fun j => j.val = i).map
    fun j => ⟨j, 0, 0⟩
  complete := by
    rw [List.map_map]
    refine (List.map_id' _ ▸ ?_)
    refine List.perm_append_comm.trans ?_
    have hsplit := List.filter_append_perm (fun j : Fin n => decide (j.val = i)) (List.finRange n)
    simpa using hsplit

/-- Some workers apply a given job last. -/
theorem exists_workers_last {jobs : List Job} {job : Job} (hjob : job ∈ jobs) :
    ∃ workers front, appliedOrder workers jobs = front ++ [job] := by
  obtain ⟨i, hi, hget⟩ := List.getElem_of_mem hjob
  refine ⟨.pool (lastly i), ?_⟩
  rw [appliedOrder]
  split
  · refine ⟨((List.finRange jobs.length).filter fun j => j.val ≠ i).map jobs.get, ?_⟩
    have hone : ((List.finRange jobs.length).filter fun j => j.val = i) = [⟨i, hi⟩] := by
      have hsame : (fun j : Fin jobs.length => decide (j.val = i)) = fun j => decide (j = ⟨i, hi⟩) := by
        funext j
        rw [decide_eq_decide, Fin.ext_iff]
      rw [hsame]
      rw [List.filter_eq, List.count_eq_one_of_mem (List.nodup_finRange _) (List.mem_finRange _)]
      rfl
    rw [lastly]
    simp only [List.map_map, List.map_append, hone]
    simp [hget, Function.comp_def]
  · rename_i hlen
    have hlength : jobs.length = 1 := by omega
    obtain ⟨only, honly⟩ := List.length_eq_one_iff.mp hlength
    subst honly
    exact ⟨[], by rw [List.mem_singleton.mp hjob]; rfl⟩

/-- A run that applies a failing object last leaves no row for its identity. -/
theorem Reconciled.files_of_last {order front : List Job} {job : Job} {results : List (CatalogResult × Effect)} {db db₁ : Db}
    (h : Reconciled env source listings order results db db₁) (hlast : order = front ++ [job]) {lst : Listing}
    (hkey : lst.key = job.key) (hstat : lst.stat = job.stat)
    (hres : resolution source lst.key = some (job.dims, job.effKey)) (hthere : ¬Gone source lst.key lst.stat)
    (hbad : ¬Catalogable source lst) : (Builder.view db₁).files job.dims = none := by
  obtain ⟨results₁, r, rfl, hout⟩ : ∃ results₁ r, results = results₁ ++ [r] ∧ effectOf (extracted source job) = .ok r := by
    have hcome := List.Forall₂.flip h.come
    rw [hlast, List.map_append] at hcome
    have hend := List.forall₂_drop_append _ _ _ hcome
    generalize hdrop : results.drop (front.map (extracted source)).length = dropped at hend
    cases hend with
    | cons hone hnil =>
        cases hnil
        exact ⟨results.take (front.map (extracted source)).length, _, by rw [← hdrop, List.take_append_drop], hone⟩
  have hfate := fate_of_job hout
  have hcatalogable := hfate.catalogable_iff hkey hstat hres
  have hfinal : ((effectsOf source (Builder.view db) listings (results₁ ++ [r])).foldl Effect.apply
      (Builder.view db)).files job.dims = none := by
    rw [effectsOf, List.map_append, ← List.append_assoc, List.map_singleton, List.foldl_append, List.foldl_cons,
      List.foldl_nil, Effect.apply_files]
    cases hfate with
    | written _ _ => exact absurd (hcatalogable.mpr ⟨_, rfl⟩) hbad
    | failed _ _ => exact if_pos rfl
    | vanished hgone =>
        rw [← hkey, ← hstat] at hgone
        exact absurd hgone hthere
  rw [h.view]
  show (if _ then _ else none) = none
  rw [hfinal, ite_self]

/-- **Second reconciles are warm exactly over steady sources**, or if the first one raises. -/
theorem warm_iff (hinj : FingerprintInjective env) (hs : source.Unchanging) {w : World} (hreached : Reached env w)
    (hcoherent : CachesCoherent w) (hlist : source.listAll 0 = .ok listings) (hkeys : (listings.map Listing.key).Nodup) :
    (∀ workers, Warm env source listings workers w) ↔
      ((∀ lst ∈ listings, Recordable source (view w.conn.working) lst) → Steady source (view w.conn.working) listings) := by
  constructor
  · intro hwarm hrecordable lst hlst lst' hlst' d k k' hres hres' hgood
    have hfirst : ∀ workers, ∃ results db₁ t₁ tally,
        fullReconcile env source workers w = (.ok tally, viewing db₁ db₁ t₁) ∧
          Reconciled env source listings (appliedOrder workers (jobsOf source (view w.conn.working) listings)) results
            w.conn.working db₁ := by
      intro workers
      rcases fullReconcile_reached hinj hs hreached hcoherent hlist workers with ⟨hblocked, _⟩ | ⟨results, db₁, t₁, hrun, hdone⟩
      · obtain ⟨bad, hbad, hnot⟩ := blocked_iff.mp hblocked
        exact absurd (hrecordable bad hbad) hnot
      · exact ⟨results, db₁, t₁, _, hrun, hdone⟩
    rw [or_iff_not_imp_left]
    intro hthere
    by_cases hgood' : Good source (view w.conn.working) lst'
    · -- Both are good, so the one etag that is stored is the etag of both.
      obtain ⟨_, db₁, t₁, tally, hrun, hdone⟩ := hfirst .one
      have hstored := (hwarm .one).stored hinj hs hdone.inv hrun hlst hres hgood
      rw [(hwarm .one).stored hinj hs hdone.inv hrun hlst' hres' hgood'] at hstored
      exact ⟨Option.some.inj hstored, hgood'⟩
    · -- The other one fails: applied last, it takes the row of the good one away.
      exfalso
      have hdiff' : ((view w.conn.working).files d).map (fun written => written.stat.etag) ≠ some lst'.stat.etag :=
        fun hsame => hgood' ⟨d, k', hres', Or.inl hsame⟩
      have hjob : (⟨lst'.key, lst'.stat, d, k'⟩ : Job) ∈ jobsOf source (view w.conn.working) listings :=
        mem_jobsOf.mpr ⟨lst', hlst', rfl, rfl, hres', hdiff'⟩
      obtain ⟨workers, front, hlast⟩ := exists_workers_last hjob
      obtain ⟨_, db₁, t₁, tally, hrun, hdone⟩ := hfirst workers
      have hnone := hdone.files_of_last hlast rfl rfl hres' hthere fun hcatalogable =>
        hgood' ⟨d, k', hres', Or.inr hcatalogable⟩
      have hstored := (hwarm workers).stored hinj hs hdone.inv hrun hlst hres hgood
      rw [hnone] at hstored
      cases hstored
  · intro hsteady workers tally w₁ hrun listings₂ hp v hv workers₂
    rcases fullReconcile_reached hinj hs hreached hcoherent hlist workers with
      ⟨_, e, w', hraises⟩ | ⟨results, db₁, t₁, hreturns, hdone⟩
    · rw [hrun] at hraises
      cases hraises
    rw [hrun] at hreturns
    cases hreturns
    have hrecordable : ∀ lst ∈ listings, Recordable source (view w.conn.working) lst := by
      intro lst hlst
      by_contra hbad
      exact hdone.not_blocked (blocked_iff.mpr ⟨lst, hlst, hbad⟩)
    obtain ⟨t, rfl⟩ : ∃ t, v = viewing db₁ db₁ t := by
      rcases hv with rfl | rfl
      · exact ⟨t₁, rfl⟩
      · exact ⟨t₁, opened_eq db₁ t₁⟩
    exact hdone.warmRun hinj hs hkeys (hsteady hrecordable) hp workers₂ t

/-- A source whose listed objects have different identities is steady. -/
theorem steady_of_distinct (hdistinct : (listedDims source listings).Nodup) (c : Logical) : Steady source c listings := by
  have hsymm : Std.Symm fun lst lst' : Listing => ∀ d, (resolution source lst.key).map Prod.fst = some d →
      (resolution source lst'.key).map Prod.fst = some d → lst = lst' := ⟨fun _ _ h d hd hd' => (h d hd' hd).symm⟩
  have hpair : listings.Pairwise fun lst lst' => ∀ d, (resolution source lst.key).map Prod.fst = some d →
      (resolution source lst'.key).map Prod.fst = some d → lst = lst' := by
    rw [listedDims, List.Nodup, List.pairwise_filterMap] at hdistinct
    exact hdistinct.imp fun hne d hd hd' => absurd rfl (hne d hd d hd')
  intro lst hlst lst' hlst' d k k' hres hres' hgood
  have hsame : lst = lst' := by
    refine hpair.forall_of_forall (fun _ _ _ _ _ => rfl) hlst hlst' d ?_ ?_
    · rw [hres]
      rfl
    · rw [hres']
      rfl
  subst hsame
  exact Or.inr ⟨rfl, hgood⟩

end Warming

theorem warm_iff_mixed : Warm oneTopicEnv mixedSource mixedListings (.pool reversedPool) emptyWorld := by
  have hkeys : (mixedListings.map Listing.key).Nodup := by decide +kernel
  exact (warm_iff fingerprintInjective_oneTopicEnv unchanging_mixedSource (Reached.empty 0) coherent_emptyWorld
    listAll_mixedSource hkeys).mpr (fun _ => steady_of_distinct nodup_listedDims_mixed _) (.pool reversedPool)

/-! ### Two files with one override -/

/-- A directory with two readable files that are both destined for one key. -/
def twinFs : LocalFs where
  stat _ path := if path = py "a.mcap" then some (100, 5) else if path = py "b.mcap" then some (100, 6) else none
  openSummary _ _ := .ok (some twoChannelSummary)
  s3Key _ _ := .ok (some sampleKey)
  files _ := [py "a.mcap", py "b.mcap"]
  stable _ _ := true

/-- Its listing. -/
def twinListings : List Listing :=
  [⟨py "a.mcap", ⟨100, localEtag 100 5, 5⟩⟩, ⟨py "b.mcap", ⟨100, localEtag 100 6, 6⟩⟩]

/-- **Two files with one override**: both are cataloged in the first run, and the second catalogs one of them again. -/
theorem twin_not_warm : (localSource twinFs).listAll 0 = .ok twinListings ∧ Reached oneTopicEnv emptyWorld ∧
    ¬Warm oneTopicEnv (localSource twinFs) twinListings .one emptyWorld := by
  refine ⟨by decide +kernel, Reached.empty 0, fun hwarm => ?_⟩
  have htally : (fullReconcile oneTopicEnv (localSource twinFs) .one emptyWorld).1 = .ok ⟨2, 0, 0, 0⟩ := by decide +kernel
  have hreturns : fullReconcile oneTopicEnv (localSource twinFs) .one emptyWorld =
      (.ok ⟨2, 0, 0, 0⟩, (fullReconcile oneTopicEnv (localSource twinFs) .one emptyWorld).2) := by
    rw [← htally]
  obtain ⟨tally₂, v₂, hsecond⟩ := hwarm _ _ hreturns twinListings (List.Perm.refl _) _ (Or.inl rfl) .one
  have hagain : (fullReconcile oneTopicEnv (relisted (localSource twinFs) twinListings) .one
      (fullReconcile oneTopicEnv (localSource twinFs) .one emptyWorld).2).1 = .ok ⟨1, 1, 0, 0⟩ := by decide +kernel
  rw [hsecond.unread _ ⟨rfl, rfl, fun _ _ _ => rfl, fun _ _ _ => rfl⟩] at hagain
  have hskipped := hsecond.skipped
  rw [Except.ok.inj hagain] at hskipped
  exact absurd hskipped (by decide)

end McapCatalog.Builder
