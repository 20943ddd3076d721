import McapCatalog.CoherentRuns
import McapCatalog.Failures

/-!
# Failure rows and the listing

`full_reconcile` records failures and clears those of the objects it catalogs, but its sweep is over the `files` table
alone: the failure of an object that is gone stays.

* `NamedBroken`, `InSync` — every failure row is of a listed object that cannot be cataloged;
* `Cleared` — the failures that a reconcile takes away;
* `foldl_failures_cases` — under each key the last effect about it decides;
* `inSync_iff` — **a reconcile leaves the failure rows in sync exactly if every one before is of such an object or is
  cleared**;
* `deleted_not_inSync` — an object that failed and was deleted.
-/

namespace McapCatalog.Builder

open McapCatalog.PyText McapCatalog.PyError McapCatalog.KeyParse McapCatalog.McapSummary McapCatalog.Storage
open McapCatalog.Tables McapCatalog.RowidTable McapCatalog.KeyedRows
open McapCatalog.Connection McapCatalog.CatalogDb McapCatalog.Reconcile McapCatalog.Worker McapCatalog.Runs

section InSync

variable {env : Env} {source : Source} {listings : List Listing} {c : Logical}

/-- The key is the listing key or the effective key of a listed object that cannot be cataloged. -/
def NamedBroken (source : Source) (listings : List Listing) (key : PyStr) : Prop :=
  ∃ lst ∈ listings, ¬Catalogable source lst ∧
    (lst.key = key ∨ ∃ dims, resolution source lst.key = some (dims, key))

/-- **The failure rows are in sync with the listing.** -/
def InSync (source : Source) (listings : List Listing) (c : Logical) : Prop :=
  ∀ key, c.failures key ≠ none → NamedBroken source listings key

/-- The key is the effective key of a listed object that is new or changed and can be cataloged. -/
def Cleared (source : Source) (c : Logical) (listings : List Listing) (key : PyStr) : Prop :=
  ∃ lst ∈ listings, Catalogable source lst ∧ ∃ dims, resolution source lst.key = some (dims, key) ∧
    (c.files dims).map (fun written => written.stat.etag) ≠ some lst.stat.etag

/-- Under a key, the last effect about it decides. -/
theorem foldl_failures_cases (effects : List Effect) (c : Logical) (key : PyStr) :
    ((∀ e ∈ effects, e.failureKey ≠ some key) ∧ (effects.foldl Effect.apply c).failures key = c.failures key) ∨
      ∃ e ∈ effects, e.failureKey = some key ∧ (effects.foldl Effect.apply c).failures key = e.textAfter := by
  induction effects generalizing c with
  | nil => exact Or.inl ⟨fun _ h => absurd h List.not_mem_nil, rfl⟩
  | cons e effects ih =>
      rw [List.foldl_cons]
      cases ih (e.apply c) with
      | inr hlater =>
          obtain ⟨e', he', hkey, htext⟩ := hlater
          exact Or.inr ⟨e', List.mem_cons_of_mem _ he', hkey, htext⟩
      | inl hnone =>
          obtain ⟨hothers, hsame⟩ := hnone
          rw [hsame, Effect.apply_failures]
          by_cases hkey : e.failureKey = some key
          · rw [if_pos hkey]
            exact Or.inr ⟨e, List.mem_cons_self, hkey, rfl⟩
          · rw [if_neg hkey]
            exact Or.inl ⟨List.forall_mem_cons.mpr ⟨hkey, hothers⟩, rfl⟩

variable {order : List Job} {results : List (CatalogResult × Effect)} {db db' : Db}

/-- What an effect of a reconcile about a key says of the listed objects. -/
theorem Reconciled.effect_about (h : Reconciled env source listings order results db db') {e : Effect}
    (he : e ∈ effectsOf source (Builder.view db) listings results) {key : PyStr} (hkey : e.failureKey = some key) :
    (e.textAfter ≠ none ∧ NamedBroken source listings key) ∨
      e.textAfter = none ∧ Cleared source (Builder.view db) listings key := by
  rcases (mem_effectsOf h).mp he with ⟨lst, hlst, hres, rfl⟩ | ⟨job, hjob, r, hout, rfl⟩
  · cases hkey
    refine Or.inl ⟨Option.some_ne_none _, lst, hlst, ?_, Or.inl rfl⟩
    rintro ⟨dims, effKey, _, hsome, _⟩
    rw [hres] at hsome
    cases hsome
  · obtain ⟨lst, hlst, hlstKey, hlstStat, hres, hdiff⟩ := mem_jobsOf.mp hjob
    have hfate := fate_of_job hout
    have hcatalogable := hfate.catalogable_iff hlstKey hlstStat hres
    cases hfate with
    | written hread hstored =>
        cases hkey
        exact Or.inr ⟨rfl, lst, hlst, hcatalogable.mpr ⟨_, rfl⟩, job.dims, hres, hdiff⟩
    | failed _ _ =>
        cases hkey
        refine Or.inl ⟨Option.some_ne_none _, lst, hlst, fun hgood => ?_, Or.inr ⟨job.dims, hres⟩⟩
        obtain ⟨_, hwrite⟩ := hcatalogable.mp hgood
        cases hwrite
    | vanished _ => cases hkey

/-- A cleared key has an effect about it. -/
theorem Reconciled.about_of_cleared (h : Reconciled env source listings order results db db') {key : PyStr}
    (hcleared : Cleared source (Builder.view db) listings key) :
    ∃ e ∈ effectsOf source (Builder.view db) listings results, e.failureKey = some key := by
  obtain ⟨lst, hlst, hgood, dims, hres, hdiff⟩ := hcleared
  have hjob : (⟨lst.key, lst.stat, dims, key⟩ : Job) ∈ jobsOf source (Builder.view db) listings :=
    mem_jobsOf.mpr ⟨lst, hlst, rfl, rfl, hres, hdiff⟩
  obtain ⟨r, _, hout⟩ := exists_right_of_mem h.come (List.mem_map_of_mem (h.jobs.mem_iff.mpr hjob))
  obtain ⟨written, hwrite⟩ := ((fate_of_job hout).catalogable_iff rfl rfl hres).mp hgood
  refine ⟨r.2, (mem_effectsOf h).mpr (Or.inr ⟨_, hjob, r, hout, rfl⟩), ?_⟩
  have heffect := jobEffect_of_effectOf hout
  rw [hwrite] at heffect ⊢
  cases heffect
  rfl

theorem Reconciled.sync_iff (h : Reconciled env source listings order results db db') :
    InSync source listings (Builder.view db') ↔ ∀ key, (Builder.view db).failures key ≠ none →
      NamedBroken source listings key ∨ Cleared source (Builder.view db) listings key := by
  have hfinal : ∀ key, (Builder.view db').failures key =
      ((effectsOf source (Builder.view db) listings results).foldl Effect.apply (Builder.view db)).failures key := by
    intro key
    rw [h.view]
    rfl
  constructor
  · intro hsync key hbefore
    rcases foldl_failures_cases (effectsOf source (Builder.view db) listings results) (Builder.view db) key with
      ⟨_, hsame⟩ | ⟨e, he, hkey, _⟩
    · -- No effect is about the key: its failure is still there.
      exact Or.inl (hsync key (by rw [hfinal, hsame]; exact hbefore))
    · rcases h.effect_about he hkey with ⟨_, hbroken⟩ | ⟨_, hcleared⟩
      · exact Or.inl hbroken
      · exact Or.inr hcleared
  · intro hbefore key hafter
    rw [hfinal] at hafter
    rcases foldl_failures_cases (effectsOf source (Builder.view db) listings results) (Builder.view db) key with
      ⟨hothers, hsame⟩ | ⟨e, he, hkey, htext⟩
    · rw [hsame] at hafter
      cases hbefore key hafter with
      | inl hbroken => exact hbroken
      | inr hcleared =>
          obtain ⟨e, he, hkey⟩ := h.about_of_cleared hcleared
          exact absurd hkey (hothers e he)
    · rw [htext] at hafter
      rcases h.effect_about he hkey with ⟨_, hbroken⟩ | ⟨hnone, _⟩
      · exact hbroken
      · exact absurd hnone hafter

/-- **A reconcile leaves the failure rows in sync with the listing exactly if each failure row before is of a listed object
that cannot be cataloged, or is cleared.** -/
theorem inSync_iff (hinj : FingerprintInjective env) (hs : source.Unchanging) {w w' : World} (hreached : Reached env w)
    (hcoherent : CachesCoherent w) (hlist : source.listAll 0 = .ok listings) {workers : Workers} {tally : Tally}
    (hreturns : fullReconcile env source workers w = (.ok tally, w')) :
    InSync source listings (view w'.conn.committed) ↔ ∀ key, (view w.conn.working).failures key ≠ none →
      NamedBroken source listings key ∨ Cleared source (view w.conn.working) listings key := by
  rcases fullReconcile_reached hinj hs hreached hcoherent hlist workers with ⟨_, e, w₁, hraises⟩ | ⟨_, _, _, hrun, hdone⟩
  · rw [hreturns] at hraises
    cases hraises
  · rw [hreturns] at hrun
    cases hrun
    exact hdone.sync_iff

end InSync

/-! ### An object that failed and was deleted -/

theorem reached_brokenUpload : Reached oneTopicEnv brokenUpload :=
  (Reached.empty 0).call (.catalogObject sampleKey (oneKeySource brokenObject) none)

/-- The readable object, as it is listed. -/
def readableListing : Listing := ⟨sampleKey, readableObject.stat⟩

/-- What becomes of the broken object: it failed, and is replaced by the readable one or deleted. -/
theorem ends_brokenUpload :
    ((catalogObject oneTopicEnv sampleKey (oneKeySource brokenObject) none
        (viewing Db.empty Db.empty 0)).1.toOption.isSome = true ∧
      brokenUpload.conn.working.catalogFailures.keys = [sampleKey] ∧
      brokenUpload.conn.working.files.rows.length = 0) ∧
    (resolution (oneKeySource readableObject) sampleKey = some (sampleDims, sampleKey) ∧
      (oneKeySource readableObject).listAll 0 = .ok [readableListing] ∧
      ((oneKeySource readableObject).readSummary 0 sampleKey readableObject.stat.size).toOption.map (fun summary =>
        (transactionError true ⟨sampleDims, sampleKey, readableObject.stat, summary⟩).isNone) = some true ∧
      (fullReconcile oneTopicEnv (oneKeySource readableObject) .one brokenUpload).1 = .ok ⟨1, 0, 0, 0⟩) ∧
    (fullReconcile oneTopicEnv (s3Source (fun _ => ∅) []) .one brokenUpload).1 = .ok ⟨0, 0, 0, 0⟩ ∧
      (view (fullReconcile oneTopicEnv (s3Source (fun _ => ∅) []) .one brokenUpload).2.conn.committed).failures
        sampleKey ≠ none := by
  decide +kernel

theorem coherent_brokenUpload : CachesCoherent brokenUpload := by
  have hrefines := refines_catalogObject fingerprintInjective_oneTopicEnv (catalogInv_empty oneTopicEnv) sampleKey
    (oneKeySource brokenObject) none 0
  show CachesCoherent (catalogObject oneTopicEnv sampleKey (oneKeySource brokenObject) none (opened Db.empty 0)).2
  rw [opened_eq]
  exact coherent_of_refines hrefines ends_brokenUpload.1.1

theorem catalogable_readable : Catalogable (oneKeySource readableObject) readableListing := by
  obtain ⟨_, ⟨hresolution, _, hstored, _⟩, _⟩ := ends_brokenUpload
  obtain ⟨summary, hsome, hnone⟩ := Option.map_eq_some_iff.mp hstored
  refine ⟨sampleDims, sampleKey, summary, hresolution, ?_, Option.isNone_iff_eq_none.mp hnone⟩
  show (oneKeySource readableObject).readSummary 0 sampleKey readableObject.stat.size = _
  cases hread : (oneKeySource readableObject).readSummary 0 sampleKey readableObject.stat.size with
  | ok summary' =>
      rw [hread] at hsome
      rw [show summary' = summary from Option.some.inj hsome]
  | error e =>
      rw [hread] at hsome
      cases hsome

/-- The broken object is replaced by a readable one: its failure is cleared. -/
theorem inSync_iff_repaired : InSync (oneKeySource readableObject) [readableListing]
    (view (fullReconcile oneTopicEnv (oneKeySource readableObject) .one brokenUpload).2.conn.committed) := by
  obtain ⟨⟨_, hkeys, hrows⟩, ⟨hresolution, hlist, _, htally⟩, _⟩ := ends_brokenUpload
  have hreturns : fullReconcile oneTopicEnv (oneKeySource readableObject) .one brokenUpload =
      (.ok ⟨1, 0, 0, 0⟩, (fullReconcile oneTopicEnv (oneKeySource readableObject) .one brokenUpload).2) := by
    rw [← htally]
  refine (inSync_iff fingerprintInjective_oneTopicEnv (unchanging_oneKeySource readableObject) reached_brokenUpload
    coherent_brokenUpload hlist hreturns).mpr fun key hfailure => Or.inr ?_
  have hkey : key = sampleKey := by
    have hsome : (brokenUpload.conn.working.catalogFailures.lookup key).isSome = true := by
      rw [← Option.isSome_map]
      exact Option.isSome_iff_ne_none.mpr hfailure
    have hmem := AList.mem_keys.mp (AList.lookup_isSome.mp hsome)
    rw [hkeys] at hmem
    exact List.mem_singleton.mp hmem
  refine ⟨readableListing, List.mem_singleton_self _, catalogable_readable, sampleDims, ?_, ?_⟩
  · rw [hkey]
    exact hresolution
  · rw [files_of_rowless hrows]
    simp

/-- **An object that failed and was deleted**: a reconcile of the empty bucket leaves its failure. -/
theorem deleted_not_inSync : Reached oneTopicEnv brokenUpload ∧
    (fullReconcile oneTopicEnv (s3Source (fun _ => ∅) []) .one brokenUpload).1 = .ok ⟨0, 0, 0, 0⟩ ∧
      ¬InSync (s3Source (fun _ => ∅) []) []
        (view (fullReconcile oneTopicEnv (s3Source (fun _ => ∅) []) .one brokenUpload).2.conn.committed) := by
  obtain ⟨_, _, htally, hleft⟩ := ends_brokenUpload
  refine ⟨reached_brokenUpload, htally, fun hsync => ?_⟩
  obtain ⟨_, hlst, _⟩ := hsync sampleKey hleft
  exact absurd hlst List.not_mem_nil

end McapCatalog.Builder
